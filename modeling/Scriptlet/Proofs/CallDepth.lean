import Scriptlet.Proofs.Hosting
import Scriptlet.Shell.Lines

/-! How deep calls nest. The machine counts it, and a call that would nest deeper than the limit fails. The
count is back where it was after everything that comes to an end, and never gets beyond the limit. -/
namespace Scriptlet

/-- The action leaves calls as deep as they were, however it comes to an end. -/
def Action.Balanced {α : Type} (action : Action α) : Prop :=
  ∀ m, Finished (action m) → (action.after m).depth = m.depth

namespace Evaluator

structure Balanced (ev : Evaluator) (c : Context) : Prop where
  evaluate : ∀ env e, (ev.evaluate c env e).Balanced
  execute : ∀ env s, (ev.execute c env s).Balanced
  call : ∀ env callee arguments span, (ev.call c env callee arguments span).Balanced
  run : ∀ env p, (ev.run c env p).Balanced
  runSource : ∀ env path source, (ev.runSource c env path source).Balanced

/-- Two evaluators do the same, whatever they do from the machine. -/
structure SameFrom (ev ev' : Evaluator) (c : Context) (m : Machine) : Prop where
  evaluate : ∀ env e, ev.evaluate c env e m = ev'.evaluate c env e m
  execute : ∀ env s, ev.execute c env s m = ev'.execute c env s m
  call : ∀ env callee arguments span,
    ev.call c env callee arguments span m = ev'.call c env callee arguments span m
  run : ∀ env p, ev.run c env p m = ev'.run c env p m
  runSource : ∀ env path source, ev.runSource c env path source m = ev'.runSource c env path source m

end Evaluator

namespace Discipline

variable {α : Type} {S : Signal → Prop}

theorem InStep.balanced {action action' : Action α} (h : ∀ d, unconfined.InStep d S action action') :
    action.Balanced := by
  intro m hfinished
  have hend := h m.depth m (ready_unconfined rfl)
  unfold Action.after
  generalize action m = r at hend hfinished ⊢
  generalize action' m = r' at hend
  cases hend with
  | ok hm => exact hm.depth
  | error _ hm => exact hm.depth
  | exhausted => exact (hfinished rfl).elim
  | released hc => exact hc.elim

theorem InStep.same {action action' : Action α} {m : Machine}
    (h : unconfined.InStep m.depth S action action') : action m = action' m := by
  have hend := h m (ready_unconfined rfl)
  generalize action m = r at hend ⊢
  generalize action' m = r' at hend ⊢
  cases hend with
  | ok => rfl
  | error => rfl
  | exhausted => rfl
  | released hc => exact hc.elim

variable {c : Context} {ev ev' : Evaluator}

theorem Companions.balanced (h : ∀ d, unconfined.Companions c c.options d ev ev') : ev.Balanced c where
  evaluate env e := InStep.balanced fun d => (h d).evaluate env e
  execute env s := InStep.balanced fun d => (h d).execute true env s (.inl rfl)
  call env callee arguments span := InStep.balanced fun d => (h d).call env callee arguments span
  run env p := InStep.balanced fun d =>
    (h d).runAny (S := fun _ => False) (fun _ => .inl rfl) (fun _ => id) env p
  runSource env path source := InStep.balanced fun d =>
    (h d).runSource (S := fun _ => False) (.refl _ _) (fun _ => .inl rfl) (fun _ => id) env path source

theorem Companions.sameFrom {m : Machine} (h : unconfined.Companions c c.options m.depth ev ev') :
    ev.SameFrom ev' c m where
  evaluate env e := (h.evaluate env e).same
  execute env s := (h.execute true env s (.inl rfl)).same
  call env callee arguments span := (h.call env callee arguments span).same
  run env p := (h.runAny (S := fun _ => False) (fun _ => .inl rfl) (fun _ => id) env p).same
  runSource env path source :=
    (h.runSource (S := fun _ => False) (.refl _ _) (fun _ => .inl rfl) (fun _ => id) env path source).same

end Discipline

theorem evaluator_balanced {c : Context} (hc : c.host.Faithful) (n : Nat) : (evaluator n).Balanced c :=
  Discipline.Companions.balanced fun d => Discipline.companions_unconfined hc d n

/-- An alarm that is given beyond the limit is never given. -/
theorem evaluator_sameFrom_watched {c : Context} (hc : c.host.Faithful) (n : Nat) {m : Machine}
    (hm : m.depth ≤ c.options.maxCallDepth) (alarm : Signal) :
    (evaluator n).SameFrom (watched (c.options.maxCallDepth < ·) alarm n) c m := by
  have ho := Discipline.Admits.refl .unconfined c.options
  have hstop (d : Nat) (_ : decide (c.options.maxCallDepth < d) = false)
      (hlt : d < c.options.maxCallDepth) : decide (c.options.maxCallDepth < d + 1) = false :=
    decide_eq_false (Nat.not_lt.2 hlt)
  exact Discipline.Companions.sameFrom (Discipline.companions ho (Discipline.serves_faithful hc ho) hstop
    alarm n (decide_eq_false (Nat.not_lt.2 hm)) c.natives)

/-- At the limit, no call gets as far as to count itself. -/
theorem callFunction_fails_at_limit (ev : Evaluator) {c : Context} {m : Machine}
    (hm : c.options.maxCallDepth ≤ m.depth) (f : Function) (arguments : List Value) (span : Span) :
    ∃ e, ev.callFunction c f arguments span m = .error (.error e) m := by
  by_cases harity : f.parameters.length = arguments.length
  · exact ⟨_, ev.callFunction_at_limit harity hm span⟩
  · unfold Evaluator.callFunction
    dsimp only
    rw [if_pos harity]
    exact ⟨_, rfl⟩

theorem Session.run_context (s : Session) (path source : String) :
    (s.run path source).2.context = s.context := by
  unfold Session.run Session.perform
  dsimp only
  cases (evaluator enough).runSource s.context s.env path source s.machine with
  | ok r m =>
    cases r <;> rfl
  | error signal m => rfl

theorem Session.run_depth {s : Session} (hc : s.context.host.Faithful) {path source : String}
    (h : (s.run path source).1 ≠ .unfinished) :
    (s.run path source).2.machine.depth = s.machine.depth := by
  have hbalanced := (evaluator_balanced hc enough).runSource s.env path source s.machine
  unfold Session.run Session.perform at h ⊢
  dsimp only at h ⊢
  unfold Action.after at hbalanced
  generalize (evaluator enough).runSource s.context s.env path source s.machine = r at h hbalanced ⊢
  cases r with
  | ok r m =>
    cases r with
    | ok value => exact hbalanced trivial
    | error f => exact hbalanced trivial
  | error signal m => exact (h rfl).elim

inductive Evaluation.Reached (o : Options) (files : Files) (render : List Diagnostic → String) :
    Evaluation → Prop
  | start (input : Stdin) (clock : Clock) : Reached o files render (.start o files input clock)
  | line {e e' : Evaluation} {line : String} {answer : Answer} (h : Reached o files render e)
    (hnext : ((dialogue render).takeLine e).2.respond render line = (answer, some e')) :
    Reached o files render e'

/-- A line changes the session only by running, and then the run comes to an end. -/
theorem Evaluation.respond_session {render : List Diagnostic → String} {e e' : Evaluation} {line : String}
    {answer : Answer} (h : e.respond render line = (answer, some e')) :
    e'.session = e.session ∨
      (e.session.run "<repl>" (e.pending ++ line ++ "\n")).1 ≠ .unfinished ∧
      e'.session = ((e.session.run "<repl>" (e.pending ++ line ++ "\n")).2.drain).2 := by
  unfold Evaluation.respond at h
  split at h
  · cases h
    exact .inl rfl
  split at h
  · cases h
  right
  dsimp only at h
  cases hrun : (e.session.run "<repl>" (e.pending ++ line ++ "\n")).1 with
  | unfinished => simp [hrun, isUnfinished, Outcome.ended] at h
  | _ =>
    refine ⟨nofun, ?_⟩
    simp only [hrun, Outcome.ended] at h
    split at h <;> cases h <;> rfl

theorem Evaluation.Reached.session {o : Options} {files : Files} {render : List Diagnostic → String}
    {e : Evaluation} (h : Reached o files render e) :
    e.session.context = Module.context o files ∧ e.session.machine.depth = 0 := by
  induction h with
  | start => exact ⟨rfl, rfl⟩
  | @line e e' line answer _ hnext ih =>
    -- the context is carried along, for it says that the host is faithful
    obtain ⟨hcontext, hdepth⟩ := ih
    have hc : ((dialogue render).takeLine e).2.session.context.host.Faithful := by
      show e.session.context.host.Faithful
      rw [hcontext]
      exact Module.host_faithful files
    rcases Evaluation.respond_session hnext with hs | ⟨hend, hs⟩
    · rw [hs]
      exact ⟨hcontext, hdepth⟩
    · rw [hs]
      exact ⟨(Session.run_context _ _ _).trans hcontext, (Session.run_depth hc hend).trans hdepth⟩

/-- The count of nested calls is balanced: whatever comes to an end leaves it as it was. It is bounded: from
within the limit, an evaluator that gives an alarm wherever it evaluates something beyond the limit, also in
what a native runs, never gives it, and a call at the limit fails as it stands. So a loop is back at zero
after every line, failed or not. -/
theorem call_depth_balanced_and_bounded :
    Host.plain.Faithful ∧ (∀ files, (Module.host files).Faithful) ∧
    (∀ c : Context, c.host.Faithful → ∀ n, (evaluator n).Balanced c ∧
      ∀ m : Machine, m.depth ≤ c.options.maxCallDepth → ∀ alarm,
        (evaluator n).SameFrom (watched (c.options.maxCallDepth < ·) alarm n) c m) ∧
    (∀ (c : Context) (m : Machine), c.options.maxCallDepth ≤ m.depth → ∀ ev f arguments span,
      ∃ e, Evaluator.callFunction ev c f arguments span m = .error (.error e) m) ∧
    ∀ o files render e, Evaluation.Reached o files render e → e.session.machine.depth = 0 :=
  ⟨Host.plain_faithful, Module.host_faithful,
    fun _ hc n => ⟨evaluator_balanced hc n, fun _ hm alarm => evaluator_sameFrom_watched hc n hm alarm⟩,
    fun _ _ hm ev f arguments span => callFunction_fails_at_limit ev hm f arguments span,
    fun _ _ _ _ h => h.session.2⟩

def Outcome.isFailure : Outcome → Bool
  | .failure _ => true
  | _ => false

theorem Outcome.ended_of_isFailure {outcome : Outcome} (h : outcome.isFailure = true) :
    outcome.ended = true := by
  cases outcome with
  | failure f => rfl
  | _ => cases h

/-- Only one line ends the loop, unless the run of a line has no end. -/
theorem Evaluation.respond_goes_on (render : List Diagnostic → String) (e : Evaluation) {line : String}
    (h : line ≠ exitWord)
    (hend : (e.session.run "<repl>" (e.pending ++ line ++ "\n")).1.ended = true) :
    ∃ answer e', e.respond render line = (answer, some e') := by
  unfold Evaluation.respond
  dsimp only
  rw [if_neg h, hend]
  split
  · exact ⟨_, _, rfl⟩
  · split
    · exact ⟨_, _, rfl⟩
    · exact ⟨_, _, rfl⟩

/-- A line that calls too deep fails, and the loop is back at zero after it. -/
theorem call_depth_balanced_and_bounded_overflow :
    let o : Options := { maxCallDepth := 2 }
    let files : Files := fun _ => .error .notFound
    let e := ((Evaluation.dialogue Diagnostic.renderAll).takeLine (.start o files {} 0)).2
    let line := "func f() \x7b f(); \x7d f();"
    (e.session.run "<repl>" (e.pending ++ line ++ "\n")).1.isFailure = true ∧
    (∃ answer e', e.respond Diagnostic.renderAll line = (answer, some e') ∧
      e'.session.machine.depth = 0) ∧
    (evaluator 9).SameFrom (watched (2 < ·) .exhausted 9) (Module.context o files) {} := by
  intro o files e line
  have hfails : (e.session.run "<repl>" (e.pending ++ line ++ "\n")).1.isFailure = true := by decide +kernel
  obtain ⟨answer, e', hnext⟩ :=
    e.respond_goes_on Diagnostic.renderAll (by decide : line ≠ exitWord)
      (Outcome.ended_of_isFailure hfails)
  have hreached : Evaluation.Reached o files Diagnostic.renderAll e' := .line (.start {} 0) hnext
  refine ⟨hfails, ⟨answer, e', hnext, ?_⟩, ?_⟩
  · exact call_depth_balanced_and_bounded.2.2.2.2 o files Diagnostic.renderAll e' hreached
  · exact (call_depth_balanced_and_bounded.2.2.1 (Module.context o files)
      (Module.host_faithful files) 9).2 {} (by decide) .exhausted

end Scriptlet
