import Scriptlet.Proofs.Following
import Scriptlet.Proofs.StoredCode

/-! Two actions in lockstep: from the same machine they come to the same end, unless the first one stops
with an error that releases the second. A discipline says what code may be on the machine. From it follows
with which signals code may end; and calls nest at the end as deep as they did at the start. -/
namespace Scriptlet

def RuntimeCause.isStrayJump : RuntimeCause → Bool
  | .breakOutsideLoop | .continueOutsideLoop => true
  | _ => false

namespace Signal

def isLoopJump : Signal → Bool
  | .break_ _ | .continue_ _ => true
  | _ => false

def isReturn : Signal → Bool
  | .return_ _ => true
  | _ => false

def isStrayJump : Signal → Bool
  | .error e => e.cause.isStrayJump
  | _ => false

end Signal

/-- What code may be executed, in the body of a loop and outside of all loops. `bodies` says as which of
the two the body of a function counts, and `releases` after which errors nothing more is asked. What
stands in a statement may be executed where the statement may be. A `finally` block would go on after an
error. -/
structure Discipline where
  code : (inLoop : Bool) → Stmt → Prop
  bodies : Bool
  releases : RuntimeCause → Prop
  jump : ∀ {inLoop s}, code inLoop s → s.isLoopJump = true → inLoop = true
  part : ∀ {inLoop s inside t}, code inLoop s → s.Part bodies inLoop inside t → code inside t
  cleanup : ∀ {inLoop body handler cleanup span}, code inLoop (.try_ body handler (some cleanup) span) →
    ∀ cause, ¬releases cause

namespace Discipline

variable (D : Discipline)

def Body (b : Block) : Prop := ∀ s ∈ b.statements, D.code D.bodies s

/-- The signals with which a statement ends: a break or continue only in a loop, and no error about one
that got out of a function when none does. -/
structure Leaves (inLoop : Bool) (signal : Signal) : Prop where
  jump : signal.isLoopJump = true → inLoop = true
  stray : D.bodies = false → signal.isStrayJump = false

structure Raises (signal : Signal) : Prop extends D.Leaves false signal where
  noReturn : signal.isReturn = false

variable {D}

theorem Leaves.of_not_jump {inLoop other : Bool} {signal : Signal} (h : D.Leaves inLoop signal)
    (hs : signal.isLoopJump = false) : D.Leaves other signal :=
  ⟨fun hjump => absurd hjump (by simp [hs]), h.stray⟩

theorem Raises.leaves {inLoop : Bool} {signal : Signal} (h : D.Raises signal) : D.Leaves inLoop signal :=
  ⟨fun hjump => absurd (h.jump hjump) nofun, h.stray⟩

theorem raises_error {cause : RuntimeCause} (h : cause.isStrayJump = false) (span : Span) :
    D.Raises (.error ⟨cause, span⟩) := ⟨⟨nofun, fun _ => h⟩, rfl⟩

theorem raises_throw (value : Value) (span : Span) : D.Raises (.throw value span) :=
  ⟨⟨nofun, fun _ => rfl⟩, rfl⟩

variable (D) {α β : Type}

/-- The machine holds code of the discipline, and its calls nest this deep. -/
structure Ready (d : Nat) (m : Machine) : Prop where
  code : m.store.Holds D.Body
  depth : m.depth = d

/-- The same end, unless the first one releases the second. -/
inductive SameEnd (d : Nat) (S : Signal → Prop) :
    EStateM.Result Signal Machine α → EStateM.Result Signal Machine α → Prop
  | ok {a : α} {m : Machine} (hm : D.Ready d m) : SameEnd d S (.ok a m) (.ok a m)
  | error {signal : Signal} {m : Machine} (hs : S signal) (hm : D.Ready d m) :
    SameEnd d S (.error signal m) (.error signal m)
  | exhausted {m : Machine} : SameEnd d S (.error .exhausted m) (.error .exhausted m)
  | released {cause : RuntimeCause} {span : Span} {m : Machine} (h : D.releases cause)
    (r : EStateM.Result Signal Machine α) : SameEnd d S (.error (.error ⟨cause, span⟩) m) r

/-- From every machine that is ready, the actions come to the same end, with a result or with one of the
signals. -/
def InStep (d : Nat) (S : Signal → Prop) (action action' : Action α) : Prop :=
  ∀ m, D.Ready d m → D.SameEnd d S (action m) (action' m)

namespace InStep

variable {D} {d : Nat} {S T : Signal → Prop} {action action' : Action α} {next next' : α → Action β}

theorem mono (hST : ∀ signal, S signal → T signal) (h : D.InStep d S action action') :
    D.InStep d T action action' := by
  intro m hm
  have hend := h m hm
  generalize action m = r at hend ⊢
  generalize action' m = r' at hend ⊢
  cases hend with
  | ok hm' => exact .ok hm'
  | error hs hm' => exact .error (hST _ hs) hm'
  | exhausted => exact .exhausted
  | released hc => exact .released hc _

/-- An expression in the place of a statement. -/
theorem leaves {inLoop : Bool} (h : D.InStep d D.Raises action action') :
    D.InStep d (D.Leaves inLoop) action action' := h.mono fun _ => Raises.leaves

theorem pure (a : α) : D.InStep d S (pure a) (pure a) := fun _ hm => .ok hm

theorem throw {signal : Signal} (hs : S signal) : D.InStep d S (throw signal : Action α) (throw signal) :=
  fun _ hm => .error hs hm

theorem exhausted : D.InStep d S (MonadExcept.throw Signal.exhausted : Action α)
    (MonadExcept.throw Signal.exhausted) := fun _ _ => .exhausted

theorem fail {cause : RuntimeCause} (h : cause.isStrayJump = false) (span : Span) :
    D.InStep d D.Raises (Action.fail cause span : Action α) (Action.fail cause span) :=
  throw (raises_error h span)

/-- A failure is the end, whatever would come after it. -/
theorem failThen {cause : RuntimeCause} (h : cause.isStrayJump = false) (span : Span)
    (next next' : α → Action β) :
    D.InStep d D.Raises (Action.fail cause span >>= next) (Action.fail cause span >>= next') :=
  fun _ hm => .error (raises_error h span) hm

/-- After an error that releases it, the second action may do anything. -/
theorem releases {cause : RuntimeCause} (h : D.releases cause) (span : Span) (next : α → Action β)
    (action' : Action β) : D.InStep d S (Action.fail cause span >>= next) action' :=
  fun _ _ => .released h _

theorem ofExcept (span : Span) {result : Except RuntimeCause α}
    (h : ∀ cause, result = .error cause → cause.isStrayJump = false) :
    D.InStep d D.Raises (Action.ofExcept span result) (Action.ofExcept span result) := by
  cases result with
  | ok a => exact pure a
  | error cause => exact fail (h cause rfl) span

theorem update {f : Store → α × Store} (h : ∀ s, s.Holds D.Body → (f s).2.Holds D.Body) :
    D.InStep d S (Action.update f) (Action.update f) :=
  fun m hm => .ok ⟨h m.store hm.code, hm.depth⟩

/-- A change to anything but the store and the depth of calls. -/
theorem modifyRest {f : Machine → Machine} (hs : ∀ m, (f m).store = m.store)
    (hd : ∀ m, (f m).depth = m.depth) : D.InStep d S (modify f : Action Unit) (modify f) :=
  fun m hm => .ok ⟨(hs m).symm ▸ hm.code, (hd m).trans hm.depth⟩

theorem bind (h : D.InStep d S action action') (hn : ∀ a, D.InStep d S (next a) (next' a)) :
    D.InStep d S (action >>= next) (action' >>= next') := by
  intro m hm
  have hfirst := h m hm
  generalize he : action m = first at hfirst
  generalize he' : action' m = first' at hfirst
  cases hfirst with
  | @ok a m' hm' =>
    rw [bind_ok he, bind_ok he']
    exact hn a m' hm'
  | error hs hm' =>
    rw [bind_error he, bind_error he']
    exact .error hs hm'
  | exhausted =>
    rw [bind_error he, bind_error he']
    exact .exhausted
  | released hc r =>
    rw [bind_error he]
    exact .released hc _

theorem discard (h : D.InStep d S action action') : D.InStep d S (discard action) (discard action') := by
  rw [Action.discard_eq, Action.discard_eq]
  exact h.bind fun _ => pure ()

theorem look (f : Store → α) : D.InStep d S (Action.look f) (Action.look f) := fun _ hm => .ok hm

/-- What is read off a store is read off one that holds code of the discipline. -/
theorem lookThen {f : Store → α} (h : ∀ s, s.Holds D.Body → D.InStep d S (next (f s)) (next' (f s))) :
    D.InStep d S (Action.look f >>= next) (Action.look f >>= next') :=
  fun m hm => h m.store hm.code m hm

theorem getThen {next next' : Machine → Action β}
    (h : ∀ m, D.Ready d m → D.InStep d S (next m) (next' m)) :
    D.InStep d S (get >>= next) (get >>= next') := fun m hm => h m hm m hm

/-- Signals may be taken by what follows, those that release the second action apart. It may also set
back how deep calls nest. -/
theorem attemptAt {next next' : Except Signal α → Action β} {d' : Nat} {m : Machine}
    (h : D.SameEnd d S (action m) (action' m))
    (hok : ∀ a m, D.Ready d m → D.SameEnd d' T (next (.ok a) m) (next' (.ok a) m))
    (herror : ∀ signal m, S signal → signal ≠ .exhausted → D.Ready d m →
      D.SameEnd d' T (next (.error signal) m) (next' (.error signal) m))
    (hpass : ∀ cause span m, D.releases cause →
      ∃ m', next (.error (.error ⟨cause, span⟩)) m = .error (.error ⟨cause, span⟩) m') :
    D.SameEnd d' T ((Action.attempt action >>= next) m) ((Action.attempt action' >>= next') m) := by
  generalize he : action m = first at h
  generalize he' : action' m = first' at h
  cases h with
  | @ok a m hm =>
    rw [bind_ok (Action.attempt_ok he), bind_ok (Action.attempt_ok he')]
    exact hok a m hm
  | @error signal m hs hm =>
    -- nothing takes `exhausted`, not even here
    by_cases hx : signal = .exhausted
    · subst hx
      rw [bind_error (attempt_exhausted he), bind_error (attempt_exhausted he')]
      exact .exhausted
    · rw [bind_ok (attempt_error he hx), bind_ok (attempt_error he' hx)]
      exact herror signal m hs hx hm
  | exhausted =>
    rw [bind_error (attempt_exhausted he), bind_error (attempt_exhausted he')]
    exact .exhausted
  | @released cause span m hc r =>
    obtain ⟨m', hm'⟩ := hpass cause span m hc
    rw [bind_ok (attempt_error he nofun), hm']
    exact .released hc _

theorem attemptThen {next next' : Except Signal α → Action β} (h : D.InStep d S action action')
    (hok : ∀ a, D.InStep d T (next (.ok a)) (next' (.ok a)))
    (herror : ∀ signal, S signal → signal ≠ .exhausted →
      D.InStep d T (next (.error signal)) (next' (.error signal)))
    (hpass : ∀ cause span m, D.releases cause →
      next (.error (.error ⟨cause, span⟩)) m = .error (.error ⟨cause, span⟩) m) :
    D.InStep d T (Action.attempt action >>= next) (Action.attempt action' >>= next') :=
  fun m hm => attemptAt (h m hm) (fun a m hm => hok a m hm)
    (fun signal m hs hx hm => herror signal hs hx m hm) fun cause span m hc => ⟨m, hpass cause span m hc⟩

/-- Where no error releases, an action ends with one of the signals or runs out of levels. -/
theorem signal_of_error (h : D.InStep d S action action') (hnone : ∀ cause, ¬D.releases cause)
    {m m' : Machine} (hm : D.Ready d m) {signal : Signal} (he : action m = .error signal m') :
    S signal ∨ signal = .exhausted := by
  have hend := h m hm
  rw [he] at hend
  generalize action' m = r at hend
  cases hend with
  | error hs => exact .inl hs
  | exhausted => exact .inr rfl
  | released hc => exact (hnone _ hc).elim

end InStep
end Discipline
end Scriptlet
