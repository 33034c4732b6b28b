import Scriptlet.Proofs.Outcome
import Scriptlet.Shell.Module

/-! Like programs that import the same modules. A module runs in the frame that asks for it, so it may call functions
whose code is only alike; when it fails there, the user is told of failures at like places. -/
namespace Scriptlet

namespace Likeness

variable {L : Likeness}

/-- Runs of one source end alike when they fail at like places. -/
inductive ending (L : Likeness) : Except Failure Value → Except Failure Value → Prop
  | same (result : Except Failure Value) : ending L result result
  | runtime (path source : String) (cause : RuntimeCause) {s t : Span} (h : L.span s t) :
    ending L (.error (.runtime path source ⟨cause, s⟩)) (.error (.runtime path source ⟨cause, t⟩))

/-- The user may be told the same, or of failures at like places. -/
structure Tells (L : Likeness) : Prop where
  same : ∀ {a b : Array Notice}, L.notices a b → ∀ told : List Notice, L.notices (a ++ told) (b ++ told)
  runtime : ∀ {a b : Array Notice}, L.notices a b → ∀ (path source : String) (cause : RuntimeCause) {s t : Span},
    L.span s t → L.notices (a ++ [Notice.failure (.runtime path source ⟨cause, s⟩)])
      (b ++ [Notice.failure (.runtime path source ⟨cause, t⟩)])

theorem Tells.flip (h : L.Tells) : L.flip.Tells where
  same ha := h.same ha
  runtime ha path source cause _ _ hs := h.runtime ha path source cause hs

theorem same_tells : same.Tells := by
  constructor
  · rintro a _ rfl told
    exact rfl
  · rintro a _ rfl path source cause s _ rfl
    exact rfl

theorem Tells.follows_notify (h : L.Tells) (told : List Notice) :
    L.Follows Eq (Action.notify told) fun _ => Action.notify told :=
  .modify fun _ _ hmn => { hmn with notices := h.same hmn.notices told }

theorem Tells.follows_failure (h : L.Tells) {f g : Failure} (hfg : L.ending (.error f) (.error g)) :
    L.Follows Eq (Action.notify [.failure f]) fun _ => Action.notify [.failure g] := by
  refine .modify fun _ _ hmn => { hmn with notices := ?_ }
  cases hfg with
  | same => exact h.same hmn.notices _
  | runtime path source cause hs => exact h.runtime hmn.notices path source cause hs

theorem Leads.runSource {c : Context} {n : Nat} (h : L.Leads c n) (hL : L.Reflexive) (ht : L.Tells) (env : Env)
    (path source : String) :
    L.Follows L.ending ((evaluator n).runSource c env path source)
      fun j => (evaluator j).runSource c env path source := by
  unfold Evaluator.runSource
  cases loadSource c.options.optimize path source with
  | error f => exact .pure (.same _)
  | ok loaded =>
    refine (ht.follows_notify _).andThen fun _ =>
      (h.run env (Reflexive.forall₂_self hL.stmt _)).bind fun r r' hr => ?_
    cases hr with
    | ok value => exact .pure (.same _)
    | error cause hs => exact .pure (.runtime path source cause hs)

theorem follows_importing {f g : List (List String) → List (List String)} (hfg : f = g) :
    L.Follows Eq (modify fun m => { m with importing := f m.importing } : Action Unit)
      fun _ => modify fun m => { m with importing := g m.importing } :=
  .modify fun _ _ hmn => { hmn with importing := by rw [hmn.importing, hfg] }

theorem follows_import {c : Context} {n : Nat} (h : ∀ natives, L.Leads { c with natives } n) (hL : L.Reflexive)
    (ht : L.Tells) (files : Files) (target : String) (env : Env) :
    L.Follows Eq (Module.import_ files ((evaluator n).runner c) target env)
      fun j => Module.import_ files ((evaluator j).runner c) target env := by
  refine Follows.get.bind fun m m' hm => ?_
  rw [hm.importing]
  dsimp only
  split
  · exact .pure rfl
  · split
    · exact .pure rfl
    · split
      · exact .pure rfl
      · refine (follows_importing (f := fun _ => _) rfl).andThen fun _ =>
          ((h _).runSource hL ht env _ _).bind fun r r' hr => (follows_importing rfl).andThen fun _ => ?_
        cases r with
        | ok value =>
          cases hr
          exact .pure rfl
        | error f =>
          cases r' with
          | ok value => cases hr
          | error g => exact (ht.follows_failure hr).andThen fun _ => .pure rfl

/-- Modules do alike in machines that are alike. -/
theorem serves_modules {c : Context} {files : Files} (hc : c.host = Module.host files) (hL : L.Reflexive)
    (ht : L.Tells) : L.Serves c := by
  intro n h id arguments env
  have htarget : L.Follows Eq (Action.look fun s => (arguments.head?.map s.display).getD "")
      fun _ => Action.look fun s => (arguments.head?.map s.display).getD "" :=
    .look fun s t hst => by rw [funext hst.resembles.display_eq]
  rw [hc]
  exact htarget.andThen fun target => follows_import h hL ht files target env

/-- So does every host that there is. -/
theorem serves_host {c : Context} (hc : c.host = .plain ∨ ∃ files, c.host = Module.host files) (hL : L.Reflexive)
    (ht : L.Tells) : L.Serves c := by
  rcases hc with hc | ⟨files, hc⟩
  · exact serves_plain hc
  · exact serves_modules hc hL ht

end Likeness

end Scriptlet
