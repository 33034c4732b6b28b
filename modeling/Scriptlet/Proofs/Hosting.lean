import Scriptlet.Eval.Session
import Scriptlet.Proofs.Companions
import Scriptlet.Proofs.Outcome
import Scriptlet.Shell.Module

/-! Hosts, and sessions that have none. A native of the host may run programs, and does so only with the
runner that it is given. -/
namespace Scriptlet

/-- From every machine on which calls nest this deep, both actions give the same answer and leave calls as
deep as they were, or neither ends within its steps. -/
def Action.AnswersAlike {α : Type} (d : Nat) (action action' : Action α) : Prop :=
  ∀ m, m.depth = d →
    (∃ a m', action m = .ok a m' ∧ action' m = .ok a m' ∧ m'.depth = d) ∨
    ∃ m', action m = .error .exhausted m' ∧ action' m = .error .exhausted m'

/-- The natives of the host answer, and alike when they are given runners that answer alike. -/
def Host.Faithful (h : Host) : Prop :=
  ∀ (d : Nat) (run run' : Runner),
    (∀ natives env path source,
      Action.AnswersAlike d (run natives env path source) (run' natives env path source)) →
    ∀ id arguments env,
      Action.AnswersAlike d (h.respond id run arguments env) (h.respond id run' arguments env)

namespace Discipline

/-- All code is allowed, and the body of every function may end with a jump. Of a loop it is said that it
takes its jumps. -/
def unconfined : Discipline where
  code inLoop s := inLoop = true ∨ s.isLoop = true
  bodies := true
  releases _ := False
  jump {_ s} h hj := h.resolve_right fun hl => by cases s <;> cases hj <;> cases hl
  part h ht := by
    rcases ht.inside with hin | ⟨hin, hs⟩ | hin
    · exact .inl hin
    · rw [hs] at h
      exact .inl (hin.trans (h.resolve_right nofun))
    · exact .inl hin
  cleanup _ _ := id

/-- Every machine is ready for any code. -/
theorem ready_unconfined {d : Nat} {m : Machine} (h : m.depth = d) : unconfined.Ready d m :=
  ⟨.of_all (fun _ _ _ => Or.inl rfl) m.store, h⟩

theorem answersAlike_iff {α : Type} {d : Nat} {action action' : Action α} :
    Action.AnswersAlike d action action' ↔ unconfined.InStep d (fun _ => False) action action' := by
  constructor
  · intro h m hm
    rcases h m hm.depth with ⟨a, m', he, he', hd⟩ | ⟨m', he, he'⟩
    · rw [he, he']
      exact .ok (ready_unconfined hd)
    · rw [he, he']
      exact .exhausted
  · intro h m hd
    have hend := h m (ready_unconfined hd)
    generalize action m = r at hend ⊢
    generalize action' m = r' at hend ⊢
    cases hend with
    | ok hm' => exact .inl ⟨_, _, rfl, rfl, hm'.depth⟩
    | error hs => exact hs.elim
    | exhausted => exact .inr ⟨_, rfl, rfl⟩
    | released hc => exact hc.elim

theorem serves_faithful {c : Context} {o : Options} (h : c.host.Faithful)
    (ho : unconfined.Admits c.options o) : unconfined.Serves c o := by
  intro d ev ev' hev id arguments env
  have hrun (natives : Dictionary Native) (env : Env) (path source : String) :
      Action.AnswersAlike d (ev.runner c natives env path source)
        (ev'.runner (c.under o) natives env path source) :=
    answersAlike_iff.2 ((hev natives).runSource ho (fun _ => .inl rfl) (fun _ => False.elim) env path source)
  have hanswer := answersAlike_iff.1 (h d _ _ hrun id arguments env)
  exact hanswer.mono fun _ => False.elim

/-- With a faithful host, every evaluator keeps step with itself on all code. -/
theorem companions_unconfined {c : Context} (h : c.host.Faithful) (d n : Nat) :
    unconfined.Companions c c.options d (evaluator n) (evaluator n) :=
  have ho := Admits.refl unconfined c.options
  companions_self ho (serves_faithful h ho) d n

end Discipline

open Discipline in
theorem Host.plain_faithful : Host.plain.Faithful :=
  fun _ _ _ _ _ _ _ => answersAlike_iff.2 (.pure _)

open Discipline in
theorem Module.host_faithful (files : Files) : (Module.host files).Faithful := by
  intro d run run' hrun id arguments env
  have hset (f : Machine → List (List String)) : unconfined.InStep d (fun _ => False)
      (modify fun m => { m with importing := f m }) (modify fun m => { m with importing := f m }) :=
    .modifyRest (fun _ => rfl) fun _ => rfl
  refine answersAlike_iff.2 ((InStep.look _).bind fun target => .getThen fun m hm => ?_)
  dsimp only
  split
  · exact .pure _
  · split
    · exact .pure _
    · split
      · exact .pure _
      · refine (hset fun _ => _).bind fun _ => (answersAlike_iff.1 (hrun _ _ _ _)).bind fun r =>
          (hset _).bind fun _ => ?_
        cases r with
        | ok value => exact .pure _
        | error f => exact (InStep.notify _).bind fun _ => .pure _

/-- Started in a session of its own, with bytes to read and a time of day, the program runs to this end. -/
def Program.EndsAlone (o : Options) (input : Stdin) (clock : Clock) (p : Program)
    (r : Except RuntimeError Value) (m : Machine) : Prop :=
  let s := Session.start { options := o } input clock
  p.Ends s.context s.env s.machine r m

/-- A new session holds no code at all. -/
theorem Discipline.ready_start (D : Discipline) (c : Context) (input : Stdin) (clock : Clock) :
    D.Ready 0 (Session.start c input clock).machine where
  code := ⟨by simp [Session.start, Store.newGlobal], by simp [Session.start, Store.newGlobal]⟩
  depth := rfl

end Scriptlet
