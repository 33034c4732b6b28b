import Scriptlet.Eval.Evaluator

/-! What an action leaves as it was, however it ends. -/
namespace Scriptlet
namespace Action

variable {α β : Type}

/-- The machine that an action leaves, whether it ends with a result or with a signal. -/
def after (action : Action α) (m : Machine) : Machine :=
  match action m with
  | .ok _ m' => m'
  | .error _ m' => m'

/-- Relations between machines that can be chained. -/
class Steady (R : Machine → Machine → Prop) : Prop where
  refl : ∀ m, R m m
  trans : ∀ {a b c}, R a b → R b c → R a c

/-- Such relations that look at the store alone. -/
class Storewise (R : Machine → Machine → Prop) : Prop extends Steady R where
  store : ∀ {m m' : Machine}, m'.store = m.store → R m m'

/-- The action relates every machine that it starts from to the one that it leaves. -/
def Keeps (R : Machine → Machine → Prop) (action : Action α) : Prop := ∀ m, R m (action.after m)

/-- An action that is not begun on a machine to stop at: there it ends with the signal. -/
def heeding (stop : Machine → Bool) (alarm : Signal) (action : Action α) : Action α := fun m =>
  if stop m then .error alarm m else action m

theorem discard_eq (action : Action α) : discard action = (action >>= fun _ => pure ()) := by
  funext m
  simp only [discard, Functor.mapConst, bind, pure, Function.comp]
  unfold EStateM.map EStateM.bind EStateM.pure
  cases action m <;> rfl

theorem after_bind_ok {action : Action α} {next : α → Action β} {m m' : Machine} {a : α}
    (h : action m = .ok a m') : (action >>= next).after m = (next a).after m' := by
  simp only [after, bind, EStateM.bind, h]

theorem after_bind_error {action : Action α} {next : α → Action β} {m m' : Machine} {signal : Signal}
    (h : action m = .error signal m') : (action >>= next).after m = m' := by
  simp only [after, bind, EStateM.bind, h]

namespace Keeps

variable {R : Machine → Machine → Prop} {action : Action α} {next : α → Action β}

theorem update {f : Store → α × Store} (h : ∀ m : Machine, R m { m with store := (f m.store).2 }) :
    Keeps R (update f) := h

theorem modify {f : Machine → Machine} (h : ∀ m, R m (f m)) :
    Keeps R (modify f : Action Unit) := h

theorem attempt (h : Keeps R action) : Keeps R (attempt action) := by
  intro m
  have ha := h m
  cases he : action m with
  | ok a m' => simpa only [after, Action.attempt, he] using ha
  | error signal m' => cases signal <;> simpa only [after, Action.attempt, he] using ha

theorem of_ok (h : Keeps R action) {m m' : Machine} {a : α} (he : action m = .ok a m') : R m m' := by
  have ha := h m
  simpa only [after, he] using ha

theorem mono {S : Machine → Machine → Prop} (hRS : ∀ m m', R m m' → S m m') (h : Keeps R action) :
    Keeps S action := fun m => hRS m _ (h m)

variable [Steady R]

theorem pure (a : α) : Keeps R (pure a) := fun m => Steady.refl m

theorem throw (signal : Signal) : Keeps R (throw signal : Action α) := fun m => Steady.refl m

theorem fail (cause : RuntimeCause) (span : Span) :
    Keeps R (Action.fail cause span : Action α) := fun m => Steady.refl m

theorem look (f : Store → α) : Keeps R (look f) := fun m => Steady.refl m

theorem heeding (h : Keeps R action) (stop : Machine → Bool) (alarm : Signal) :
    Keeps R (heeding stop alarm action) := by
  intro m
  have ha := h m
  by_cases hstop : stop m = true
  · simpa only [after, Action.heeding, if_pos hstop] using Steady.refl m
  · simpa only [after, Action.heeding, if_neg hstop] using ha

theorem get : Keeps R (get : Action Machine) := fun m => Steady.refl m

theorem ofExcept (span : Span) (result : Except RuntimeCause α) :
    Keeps R (Action.ofExcept span result) := by
  cases result with
  | ok a => exact pure a
  | error cause => exact fail cause span

/-- Two steps from one machine, the second with what the first is known to end with. -/
theorem after_bind {m : Machine} (h : R m (action.after m))
    (hn : ∀ a m', action m = .ok a m' → R m' ((next a).after m')) : R m ((action >>= next).after m) := by
  cases he : action m with
  | ok a m' =>
    rw [after_bind_ok he]
    simp only [after, he] at h
    exact Steady.trans h (hn a m' he)
  | error signal m' =>
    rw [after_bind_error he]
    simpa only [after, he] using h

theorem bind (h : Keeps R action) (hn : ∀ a, Keeps R (next a)) : Keeps R (action >>= next) :=
  fun m => after_bind (h m) fun a m' _ => hn a m'

theorem discard (h : Keeps R action) : Keeps R (discard action) := by
  rw [discard_eq]
  exact h.bind fun _ => pure ()

end Keeps

end Action

open Scriptlet.Action

section

variable {R : Machine → Machine → Prop}

section

variable [Steady R]

theorem Context.keeps_lookup (c : Context) (env : Env) (id : Identifier) :
    Keeps R (c.lookup env id) := by
  refine (Keeps.look _).bind fun found => ?_
  cases found with
  | some value => exact .pure value
  | none =>
    dsimp only
    split
    · exact .pure _
    · exact .fail _ _

theorem Context.keeps_lookupCallee (c : Context) (env : Env) (name : String) (span : Span) :
    Keeps R (c.lookupCallee env name span) := by
  refine (Keeps.look _).bind fun bound => ?_
  split
  · exact .pure _
  · exact .fail _ _

theorem keeps_compute (op : ComputeOp) (left right : Value) (span : Span) :
    Keeps R (compute op left right span) :=
  (Keeps.look _).bind fun result => .ofExcept span result

theorem keeps_relate (op : RelateOp) (left right : Value) (span : Span) :
    Keeps R (relate op left right span) :=
  (Keeps.look _).bind fun result => .ofExcept span result

theorem Value.keeps_member (object : Value) (name : Identifier) (span : Span) :
    Keeps R (object.member name span) := by
  unfold Value.member
  split
  · exact (Keeps.look _).bind fun _ =>
      .pure _
  · refine (Keeps.look _).bind fun found => ?_
    cases found with
    | some value => exact .pure value
    | none => exact .fail _ _
  · exact .fail _ _

theorem keeps_finishCall (result : Except Signal Value) : Keeps R (Evaluator.finishCall result) := by
  unfold Evaluator.finishCall
  split
  · exact .pure _
  · exact .pure _
  · exact .fail _ _
  · exact .fail _ _
  · exact .throw _

end

variable [Storewise R]

theorem keeps_modify {f : Machine → Machine} (h : ∀ m, (f m).store = m.store) :
    Keeps R (modify f : Action Unit) := Keeps.modify fun m => Storewise.store (h m)

theorem keeps_depth (f : Nat → Nat) :
    Keeps R (modify fun m => { m with depth := f m.depth } : Action Unit) := keeps_modify fun _ => rfl

theorem keeps_importing (f : Machine → List (List String)) :
    Keeps R (modify fun m => { m with importing := f m } : Action Unit) := keeps_modify fun _ => rfl

theorem keeps_notify (notices : List Notice) : Keeps R (notify notices) := keeps_modify fun _ => rfl

theorem keeps_write (text : String) : Keeps R (write text) :=
  keeps_modify fun _ => rfl

theorem keeps_nextLine : Keeps R nextLine :=
  fun _ => Storewise.store rfl

theorem keeps_tellTime (f : Builtin) : Keeps R (tellTime f) :=
  fun _ => Storewise.store rfl

theorem keeps_readLine (prompt : Option Value) (span : Span) :
    Keeps R (readLine prompt span) := by
  have hread : Keeps R (readLine none span) := by
    refine keeps_nextLine.bind fun line => ?_
    split
    · exact .pure _
    · split
      · exact .pure _
      · exact .fail _ _
  cases prompt with
  | none => exact hread
  | some prompt =>
    refine (Keeps.look _).bind fun text => ?_
    exact (keeps_write text).bind fun _ => hread

/-- A call opens a frame; `S` is what is kept behind that. -/
theorem Evaluator.keeps_callFunction {ev : Evaluator} {c : Context} {f : Function} {arguments : List Value}
    {S : Env → Machine → Machine → Prop} [∀ env, Storewise (S env)]
    (hopen : ∀ {next : Env → Action Value}, (∀ env, Keeps (S env) (next env)) →
      Keeps R (enclose f.closure >>= next))
    (hbind : ∀ env, Keeps (S env) (Evaluator.bindParameters env f.parameters arguments))
    (hbody : ∀ env, Keeps (S env) (ev.executeBody c env f.body)) (span : Span) :
    Keeps R (ev.callFunction c f arguments span) := by
  have hrun := hopen fun env => (hbind env).bind fun _ => (keeps_depth (· + 1)).bind fun _ =>
    (hbody env).attempt.bind fun result => (keeps_depth (· - 1)).bind fun _ => keeps_finishCall result
  unfold Evaluator.callFunction
  dsimp only
  split
  · exact (Keeps.fail _ _).bind fun _ => Keeps.get.bind fun m => by
      split
      · exact (Keeps.fail _ _).bind fun _ => hrun
      · exact hrun
  · exact Keeps.get.bind fun m => by
      split
      · exact (Keeps.fail _ _).bind fun _ => hrun
      · exact hrun

end

/-- The evaluator that follows the rules through `n` levels and looks, before it evaluates anything, whether it is
to stop. -/
def overseen (stop : Machine → Bool) (alarm : Signal) : Nat → Evaluator
  | 0 => evaluator 0
  | n + 1 =>
    { limit := n
      evaluate := fun c env e => heeding stop alarm ((overseen stop alarm n).evaluateStep c env e)
      execute := fun c env s => heeding stop alarm ((overseen stop alarm n).executeStep c env s)
      call := fun c env callee arguments span =>
        heeding stop alarm ((overseen stop alarm n).callStep c env callee arguments span) }

/-- An evaluator that is never to stop only follows the rules. -/
theorem overseen_never (alarm : Signal) (n : Nat) : overseen (fun _ => false) alarm n = evaluator n := by
  have hheed {α : Type} (action : Action α) : heeding (fun _ => false) alarm action = action := rfl
  induction n with
  | zero => rfl
  | succ n ih => simp [overseen, evaluator, hheed, ih]

end Scriptlet
