import Scriptlet.Proofs.Keeping
import Scriptlet.Proofs.Likeness

/-! One action follows another when, from machines that are alike, it comes to the same end. The follower
is a family of actions, one for each number of levels that evaluation may take: it comes to an end when
all members from some number of levels on do. -/
namespace Scriptlet

/-- The end of an action that did not run out of levels. -/
def Finished {α : Type} : EStateM.Result Signal Machine α → Prop
  | .ok _ _ => True
  | .error signal _ => signal ≠ .exhausted

theorem Finished.of_bind {α β : Type} {action : Action α} {next : α → Action β} {m : Machine}
    (h : Finished ((action >>= next) m)) : Finished (action m) := by
  cases he : action m with
  | ok a m' => trivial
  | error signal m' =>
    simp only [Bind.bind, EStateM.bind, he] at h
    exact h

theorem bind_ok {α β : Type} {action : Action α} {m m' : Machine} {a : α}
    (h : action m = .ok a m') (next : α → Action β) : (action >>= next) m = next a m' := by
  simp only [Bind.bind, EStateM.bind, h]

theorem bind_error {α β : Type} {action : Action α} {m m' : Machine} {signal : Signal}
    (h : action m = .error signal m') (next : α → Action β) :
    (action >>= next) m = .error signal m' := by
  simp only [Bind.bind, EStateM.bind, h]

/-- What ends with a result ends so in both parts. -/
theorem bind_eq_ok {α β : Type} {action : Action α} {next : α → Action β} {m m'' : Machine} {b : β}
    (h : (action >>= next) m = .ok b m'') : ∃ a m', action m = .ok a m' ∧ next a m' = .ok b m'' := by
  cases ha : action m with
  | ok a m' =>
    rw [bind_ok ha] at h
    exact ⟨a, m', rfl, h⟩
  | error signal m' =>
    rw [bind_error ha] at h
    cases h

theorem attempt_error {α : Type} {action : Action α} {m m' : Machine} {signal : Signal}
    (h : action m = .error signal m') (hs : signal ≠ .exhausted) :
    Action.attempt action m = .ok (.error signal) m' := by
  cases signal with
  | exhausted => exact (hs rfl).elim
  | _ => simp only [Action.attempt, h]

theorem attempt_exhausted {α : Type} {action : Action α} {m m' : Machine}
    (h : action m = .error .exhausted m') : Action.attempt action m = .error .exhausted m' := by
  simp only [Action.attempt, h]

/-- The members of a family from some number of levels on come to this end. -/
def EndsAs {α : Type} (family : Nat → Action α) (m : Machine)
    (r : EStateM.Result Signal Machine α) : Prop :=
  ∃ k, ∀ j, k ≤ j → family j m = r

theorem EndsAs.unique {α : Type} {family : Nat → Action α} {m : Machine}
    {r r' : EStateM.Result Signal Machine α} (h : EndsAs family m r) (h' : EndsAs family m r') :
    r = r' := by
  obtain ⟨k, hk⟩ := h
  obtain ⟨k', hk'⟩ := h'
  rw [← hk (max k k') (Nat.le_max_left k k'), hk' (max k k') (Nat.le_max_right k k')]

namespace Likeness

variable {α β γ δ : Type} (L : Likeness)

/-- Ends with related results or with signals that are alike, on machines that are alike. -/
inductive Result (R : α → β → Prop) :
    EStateM.Result Signal Machine α → EStateM.Result Signal Machine β → Prop
  | ok {a : α} {b : β} {m n : Machine} (hr : R a b) (hm : L.machine m n) : Result R (.ok a m) (.ok b n)
  | error {s t : Signal} {m n : Machine} (hs : L.signal s t) (hm : L.machine m n) :
    Result R (.error s m) (.error t n)

/-- Wherever the action comes to an end, the family comes to one that is alike. -/
def Follows (R : α → β → Prop) (action : Action α) (family : Nat → Action β) : Prop :=
  ∀ m n, L.machine m n → Finished (action m) →
    ∃ r, L.Result R (action m) r ∧ EndsAs family n r

variable {L} {R : α → β → Prop} {S : γ → δ → Prop}

namespace Follows

/-- An action that ends at once, and a family that ends at once. -/
theorem of_result {action : Action α} {family : Action β}
    (h : ∀ m n, L.machine m n → L.Result R (action m) (family n)) :
    L.Follows R action fun _ => family :=
  fun m n hmn _ => ⟨family n, h m n hmn, 0, fun _ _ => rfl⟩

theorem pure {a : α} {b : β} (h : R a b) : L.Follows R (pure a) fun _ => pure b :=
  of_result fun _ _ hmn => .ok h hmn

theorem throw {s t : Signal} (h : L.signal s t) :
    L.Follows R (throw s) fun _ => throw t := of_result fun _ _ hmn => .error h hmn

theorem fail (cause : RuntimeCause) {s t : Span} (h : L.span s t) :
    L.Follows R (Action.fail cause s) fun _ => Action.fail cause t :=
  throw (.error cause h)

/-- A failure is the end, whatever would come after it. -/
theorem failThen (cause : RuntimeCause) {s t : Span} (h : L.span s t) (next : α → Action γ)
    (next' : Nat → β → Action δ) :
    L.Follows S (Action.fail cause s >>= next) fun j => Action.fail cause t >>= next' j :=
  fun _ n hmn _ => ⟨.error (.error ⟨cause, t⟩) n, .error (.error cause h) hmn, 0, fun _ _ => rfl⟩

/-- Nothing is asked of a family whose leader runs out of levels. -/
theorem exhausted (family : Nat → Action β) : L.Follows R (MonadExcept.throw Signal.exhausted) family :=
  fun _ _ _ hf => (hf rfl).elim

theorem ofExcept {s t : Span} (h : L.span s t) (result : Except RuntimeCause α) :
    L.Follows Eq (Action.ofExcept s result) fun _ => Action.ofExcept t result := by
  cases result with
  | ok a => exact pure rfl
  | error cause => exact fail cause h

theorem look {f : Store → α} {g : Store → β} (h : ∀ s t, L.store s t → R (f s) (g t)) :
    L.Follows R (Action.look f) fun _ => Action.look g :=
  of_result fun m n hmn => .ok (h m.store n.store hmn.store) hmn

theorem update {f : Store → α × Store} {g : Store → β × Store}
    (h : ∀ s t, L.store s t → R (f s).1 (g t).1 ∧ L.store (f s).2 (g t).2) :
    L.Follows R (Action.update f) fun _ => Action.update g :=
  of_result fun m n hmn => .ok (h m.store n.store hmn.store).1
    { hmn with store := (h m.store n.store hmn.store).2 }

theorem modify {f g : Machine → Machine} (h : ∀ m n, L.machine m n → L.machine (f m) (g n)) :
    L.Follows Eq (modify f : Action Unit) fun _ => modify g :=
  of_result fun m n hmn => .ok rfl (h m n hmn)

theorem get : L.Follows L.machine (get : Action Machine) fun _ => get :=
  of_result fun _ _ hmn => .ok hmn hmn

/-- Only the members of a family from some number of levels on matter. -/
theorem congr {action : Action α} {family family' : Nat → Action β}
    (he : ∃ k, ∀ j, k ≤ j → family' j = family j) (h : L.Follows R action family) :
    L.Follows R action family' := by
  intro m n hmn hf
  obtain ⟨k, hk⟩ := he
  obtain ⟨r, hr, k', hk'⟩ := h m n hmn hf
  refine ⟨r, hr, max k k', fun j hj => ?_⟩
  rw [hk j (by omega), hk' j (by omega)]

theorem bind {action : Action α} {family : Nat → Action β} {next : α → Action γ}
    {next' : Nat → β → Action δ} (h : L.Follows R action family)
    (hn : ∀ a b, R a b → L.Follows S (next a) fun j => next' j b) :
    L.Follows S (action >>= next) fun j => family j >>= next' j := by
  intro m n hmn hf
  obtain ⟨r, hr, k, hk⟩ := h m n hmn hf.of_bind
  generalize he : action m = first at hr
  cases hr with
  | @ok a b m' n' hab hmn' =>
    rw [bind_ok he] at hf ⊢
    obtain ⟨r', hr', k', hk'⟩ := hn a b hab m' n' hmn' hf
    refine ⟨r', hr', max k k', fun j hj => ?_⟩
    exact (bind_ok (hk j (by omega)) _).trans (hk' j (by omega))
  | @error s t m' n' hst hmn' =>
    rw [bind_error he]
    exact ⟨.error t n', .error hst hmn', k, fun j hj => bind_error (hk j hj) _⟩

/-- Where the first results are the same, the rest needs to follow only from the same result. -/
theorem andThen {action : Action α} {family : Nat → Action α} {next : α → Action γ}
    {next' : Nat → α → Action δ} (h : L.Follows Eq action family)
    (hn : ∀ a, L.Follows S (next a) fun j => next' j a) :
    L.Follows S (action >>= next) fun j => family j >>= next' j := by
  refine h.bind fun a b he => ?_
  subst he
  exact hn a

theorem discard {action : Action α} {family : Nat → Action β} (h : L.Follows R action family) :
    L.Follows Eq (discard action) fun j => discard (family j) := by
  simp only [Action.discard_eq]
  exact h.bind fun _ _ _ => pure rfl

end Follows

/-- What is left of an end when its signals are taken as results. -/
inductive Caught (R : α → β → Prop) : Except Signal α → Except Signal β → Prop
  | ok {a : α} {b : β} (h : R a b) : Caught R (.ok a) (.ok b)
  | error {s t : Signal} (h : L.signal s t) : Caught R (.error s) (.error t)

theorem Follows.attempt {action : Action α} {family : Nat → Action β} (h : L.Follows R action family) :
    L.Follows (Caught (L := L) R) (Action.attempt action) fun j => Action.attempt (family j) := by
  intro m n hmn hf
  have hfirst : Finished (action m) := by
    cases he : action m with
    | ok a m' => trivial
    | error signal m' =>
      intro hs
      subst hs
      simp [Action.attempt, he, Finished] at hf
  obtain ⟨r, hr, k, hk⟩ := h m n hmn hfirst
  generalize he : action m = first at hr
  cases hr with
  | @ok a b m' n' hab hmn' =>
    refine ⟨.ok (.ok b) n', ?_, k, fun j hj => by simp only [Action.attempt, hk j hj]⟩
    simp only [Action.attempt, he]
    exact .ok (.ok hab) hmn'
  | @error s t m' n' hst hmn' =>
    have hs : Action.attempt action m = .ok (.error s) m' := by
      cases hst <;> simp only [Action.attempt, he]
    refine ⟨.ok (.error t) n', ?_, k, fun j hj => ?_⟩
    · rw [hs]
      exact .ok (.error hst) hmn'
    · cases hst <;> simp only [Action.attempt, hk j hj]

end Likeness
end Scriptlet
