import Scriptlet.Proofs.Outcome
import Scriptlet.Proofs.StoredCode

/-! Code without loops. Its evaluation comes to an end wherever the calls in it do, by induction on the
code: no rule but those for loops evaluates a phrase again. -/
namespace Scriptlet

inductive Stmt.LoopFree : Stmt → Prop
  | declare (d : Declaration) : LoopFree (.declare d)
  | function {f : FunctionDecl} (h : ∀ s ∈ f.body.statements, LoopFree s) : LoopFree (.function f)
  | class_ (name : Identifier) (parent : Option Identifier) {members : List Member} (span : Span)
    (h : ∀ f, .method f ∈ members → ∀ s ∈ f.body.statements, LoopFree s) :
    LoopFree (.class_ name parent members span)
  | block {b : Block} (h : ∀ s ∈ b.statements, LoopFree s) : LoopFree (.block b)
  | conditional (condition : Expr) {resolution : Stmt} {alternative : Option Stmt} (span : Span)
    (hr : LoopFree resolution) (ha : ∀ s ∈ alternative, LoopFree s) :
    LoopFree (.conditional condition resolution alternative span)
  | switch (subject : Expr) {cases : List Case} (span : Span) (h : ∀ k ∈ cases, LoopFree k.body) :
    LoopFree (.switch subject cases span)
  | return_ (value : Option Expr) (span : Span) : LoopFree (.return_ value span)
  | break_ (span : Span) : LoopFree (.break_ span)
  | continue_ (span : Span) : LoopFree (.continue_ span)
  | throw (value : Expr) (span : Span) : LoopFree (.throw value span)
  | try_ {body : Block} {handler : Option Handler} {cleanup : Option Block} (span : Span)
    (hb : ∀ s ∈ body.statements, LoopFree s)
    (hk : ∀ k ∈ handler, ∀ s ∈ k.body.statements, LoopFree s)
    (hf : ∀ b ∈ cleanup, ∀ s ∈ b.statements, LoopFree s) :
    LoopFree (.try_ body handler cleanup span)
  | import_ (target : String) (span : Span) : LoopFree (.import_ target span)
  | print (values : List Expr) (span : Span) : LoopFree (.print values span)
  | pass (span : Span) : LoopFree (.pass span)
  | expression (e : Expr) (span : Span) : LoopFree (.expression e span)

def Block.LoopFree (b : Block) : Prop := ∀ s ∈ b.statements, s.LoopFree

def Program.LoopFree (p : Program) : Prop := ∀ s ∈ p.statements, s.LoopFree

def FunctionBody.LoopFree : FunctionBody → Prop
  | .block body => body.LoopFree
  | .expression _ => True

def Class.LoopFree (k : Class) : Prop := ∀ f, .method f ∈ k.members → f.body.LoopFree

namespace Store

structure LoopFree (s : Store) : Prop where
  functions : ∀ f ∈ s.functions, f.body.LoopFree
  classes : ∀ k ∈ s.classes, k.LoopFree

theorem loopFree_iff {s : Store} : s.LoopFree ↔ s.Holds Block.LoopFree :=
  ⟨fun h => ⟨h.functions, h.classes⟩, fun h => ⟨h.functions, h.classes⟩⟩

namespace LoopFree

variable {s t : Store} (h : s.LoopFree)
include h

theorem of_same_code (hf : t.functions = s.functions) (hc : t.classes = s.classes) : t.LoopFree :=
  loopFree_iff.2 ((loopFree_iff.1 h).of_same_code hf hc)

theorem lineage (r : Nat) : ∀ k ∈ s.lineage r, k.LoopFree := (loopFree_iff.1 h).lineage r

theorem assign (env : Env) (name : String) (value : Value) : (s.assign env name value).2.LoopFree :=
  loopFree_iff.2 ((loopFree_iff.1 h).assign env name value)

theorem newFunction {f : Function} (hf : f.body.LoopFree) : (s.newFunction f).2.LoopFree :=
  loopFree_iff.2 ((loopFree_iff.1 h).newFunction hf)

theorem newClass {k : Class} (hk : k.LoopFree) : (s.newClass k).2.LoopFree :=
  loopFree_iff.2 ((loopFree_iff.1 h).newClass hk)

theorem builtin (f : Builtin) (now : Except String Float) (arguments : List Value) :
    (f.apply now arguments s).2.LoopFree :=
  loopFree_iff.2 ((loopFree_iff.1 h).builtin f now arguments)

end LoopFree
end Store

/-! Families of actions, one for each number of levels, that come to an end. -/

/-- No loop stands in the code that the machine holds, and its calls nest this deep. -/
structure Machine.Ready (d : Nat) (m : Machine) : Prop where
  loopFree : m.store.LoopFree
  depth : m.depth = d

variable {α β : Type} {d : Nat}

/-- The members of the family from some number of levels on come to this end, and the others run out of
levels. -/
def HaltsAs (family : Nat → Action α) (m : Machine) (r : EStateM.Result Signal Machine α) : Prop :=
  EndsAs family m r ∧ ∀ j, Finished (family j m) → family j m = r

namespace HaltsAs

variable {family : Nat → Action α} {next : Nat → α → Action β} {m m' : Machine}

/-- A family whose members are all the same. -/
theorem once (action : Action α) (m : Machine) : HaltsAs (fun _ => action) m (action m) :=
  ⟨⟨0, fun _ _ => rfl⟩, fun _ _ => rfl⟩

theorem bind {a : α} {r : EStateM.Result Signal Machine β} (h : HaltsAs family m (.ok a m'))
    (hn : HaltsAs (fun j => next j a) m' r) : HaltsAs (fun j => family j >>= next j) m r := by
  obtain ⟨⟨k, hk⟩, honly⟩ := h
  obtain ⟨⟨k', hk'⟩, honly'⟩ := hn
  constructor
  · refine ⟨max k k', fun j hj => ?_⟩
    exact (bind_ok (hk j (by omega)) _).trans (hk' j (by omega))
  · intro j hj
    have hrest : (family j >>= next j) m = next j a m' := bind_ok (honly j hj.of_bind) _
    dsimp only at hj ⊢
    rw [hrest] at hj ⊢
    exact honly' j hj

theorem bind_error {signal : Signal} (h : HaltsAs family m (.error signal m')) :
    HaltsAs (fun j => family j >>= next j) m (.error signal m') := by
  obtain ⟨⟨k, hk⟩, honly⟩ := h
  constructor
  · exact ⟨k, fun j hj => Scriptlet.bind_error (hk j hj) _⟩
  · exact fun j hj => Scriptlet.bind_error (honly j hj.of_bind) _

/-- What is attempted comes to an end when it does so unguarded. -/
theorem attempt {r : EStateM.Result Signal Machine α} (h : HaltsAs family m r) :
    HaltsAs (fun j => Action.attempt (family j)) m (Action.attempt (fun _ => r) m) := by
  obtain ⟨⟨k, hk⟩, honly⟩ := h
  have hsame (j : Nat) (hj : family j m = r) :
      Action.attempt (family j) m = Action.attempt (fun _ => r) m := by
    simp only [Action.attempt, hj]
  refine ⟨⟨k, fun j hj => hsame j (hk j hj)⟩, fun j hj => hsame j (honly j ?_)⟩
  cases he : family j m with
  | ok a m' => trivial
  | error signal m' =>
    intro hs
    simp [Action.attempt, he, hs, Finished] at hj

/-- A level more at the front, at which nothing is finished. -/
theorem later {family' : Nat → Action α} {r : EStateM.Result Signal Machine α}
    (hzero : ¬Finished (family' 0 m)) (hsucc : ∀ j, family' (j + 1) = family j)
    (h : HaltsAs family m r) : HaltsAs family' m r := by
  obtain ⟨⟨k, hk⟩, honly⟩ := h
  constructor
  · refine ⟨k + 1, fun j hj => ?_⟩
    obtain ⟨i, rfl⟩ : ∃ i, j = i + 1 := ⟨j - 1, by omega⟩
    rw [hsucc]
    exact hk i (by omega)
  · intro j hj
    cases j with
    | zero => exact (hzero hj).elim
    | succ j =>
      rw [hsucc] at hj ⊢
      exact honly j hj

end HaltsAs

/-- An end, other than for want of levels, on a machine that is ready to go on at the same depth. -/
inductive Settled (d : Nat) : EStateM.Result Signal Machine α → Prop
  | ok {a : α} {m : Machine} (hm : m.Ready d) : Settled d (.ok a m)
  | error {signal : Signal} {m : Machine} (hs : signal ≠ .exhausted) (hm : m.Ready d) :
    Settled d (.error signal m)

/-- From every machine that is ready at the depth, the family comes to an end. -/
def Halts (d : Nat) (family : Nat → Action α) : Prop :=
  ∀ m, m.Ready d → ∃ r, Settled d r ∧ HaltsAs family m r

namespace Halts

variable {family : Nat → Action α} {next : Nat → α → Action β}

theorem of_settled {action : Action α} (h : ∀ m, m.Ready d → Settled d (action m)) :
    Halts d fun _ => action := fun m hm => ⟨action m, h m hm, .once action m⟩

theorem pure (a : α) : Halts d fun _ => (pure a : Action α) := of_settled fun _ hm => .ok hm

theorem throw {signal : Signal} (hs : signal ≠ .exhausted) :
    Halts d fun _ => (throw signal : Action α) := of_settled fun _ hm => .error hs hm

theorem fail (cause : RuntimeCause) (span : Span) :
    Halts d fun _ => (Action.fail cause span : Action α) := throw nofun

theorem ofExcept (span : Span) (result : Except RuntimeCause α) :
    Halts d fun _ => Action.ofExcept span result := by
  cases result with
  | ok a => exact pure a
  | error cause => exact fail cause span

theorem update {f : Store → α × Store} (h : ∀ s, s.LoopFree → (f s).2.LoopFree) :
    Halts d fun _ => Action.update f :=
  of_settled fun m hm => .ok ⟨h m.store hm.loopFree, hm.depth⟩

/-- An action that changes neither the code nor the depth. -/
theorem modifyRest {f : Machine → Machine} (hs : ∀ m, (f m).store = m.store)
    (hd : ∀ m, (f m).depth = m.depth) : Halts d fun _ => (modify f : Action Unit) :=
  of_settled fun m hm => .ok ⟨(hs m).symm ▸ hm.loopFree, (hd m).trans hm.depth⟩

theorem bind (h : Halts d family) (hn : ∀ a, Halts d fun j => next j a) :
    Halts d fun j => family j >>= next j := by
  intro m hm
  obtain ⟨r, hr, hfirst⟩ := h m hm
  cases hr with
  | @ok a m' hm' =>
    obtain ⟨r', hr', hrest⟩ := hn a m' hm'
    exact ⟨r', hr', hfirst.bind hrest⟩
  | error hs hm' => exact ⟨_, .error hs hm', hfirst.bind_error⟩

theorem discard (h : Halts d family) : Halts d fun j => discard (family j) := by
  simp only [Action.discard_eq]
  exact h.bind fun _ => pure ()

/-- What is read off a store is read off one without loops. -/
theorem lookThen {f : Store → α} (h : ∀ s, s.LoopFree → Halts d fun j => next j (f s)) :
    Halts d fun j => Action.look f >>= next j := by
  intro m hm
  obtain ⟨r, hr, hrest⟩ := h m.store hm.loopFree m hm
  exact ⟨r, hr, (HaltsAs.once (Action.look f) m).bind hrest⟩

theorem getThen {next : Nat → Machine → Action β} (h : ∀ m, m.Ready d → Halts d fun j => next j m) :
    Halts d fun j => get >>= next j := by
  intro m hm
  obtain ⟨r, hr, hrest⟩ := h m hm m hm
  exact ⟨r, hr, (HaltsAs.once (get : Action Machine) m).bind hrest⟩

theorem look (f : Store → α) : Halts d fun _ => Action.look f := of_settled fun _ hm => .ok hm

/-- A failure is the end, whatever would come after it. -/
theorem failThen (cause : RuntimeCause) (span : Span) :
    Halts d fun j => Action.fail cause span >>= next j :=
  fun m hm => ⟨.error (.error ⟨cause, span⟩) m, .error nofun hm,
    (HaltsAs.once (Action.fail cause span : Action α) m).bind_error⟩

theorem later {family' : Nat → Action α} (hzero : ∀ m, ¬Finished (family' 0 m))
    (hsucc : ∀ j, family' (j + 1) = family j) (h : Halts d family) : Halts d family' := by
  intro m hm
  obtain ⟨r, hr, hend⟩ := h m hm
  exact ⟨r, hr, hend.later (hzero m) hsucc⟩

/-- What is attempted gives a result, or a signal that is not want of levels. -/
theorem attempted (h : Halts d family) {m : Machine} (hm : m.Ready d) :
    ∃ result m', m'.Ready d ∧ result ≠ .error .exhausted ∧
      HaltsAs (fun j => Action.attempt (family j)) m (.ok result m') := by
  obtain ⟨r, hr, hend⟩ := h m hm
  have hattempt := hend.attempt
  cases hr with
  | @ok a m' hm' => exact ⟨.ok a, m', hm', nofun, hattempt⟩
  | @error signal m' hs hm' =>
    refine ⟨.error signal, m', hm', fun he => hs (Except.error.inj he), ?_⟩
    cases signal with
    | exhausted => exact (hs rfl).elim
    | _ => exact hattempt

theorem attemptThen {next : Nat → Except Signal α → Action β} (h : Halts d family)
    (hn : ∀ result, result ≠ .error .exhausted → Halts d fun j => next j result) :
    Halts d fun j => Action.attempt (family j) >>= next j := by
  intro m hm
  obtain ⟨result, m', hm', hresult, hfirst⟩ := h.attempted hm
  obtain ⟨r, hr, hrest⟩ := hn result hresult m' hm'
  exact ⟨r, hr, hfirst.bind hrest⟩

/-- A body that is run one call deeper. -/
theorem inCall {finish : Except Signal α → Action β} (h : Halts (d + 1) family)
    (hn : ∀ result, result ≠ .error .exhausted → Halts d fun _ => finish result) :
    Halts d fun j => (do
      modify fun m => { m with depth := m.depth + 1 }
      let result ← Action.attempt (family j)
      modify fun m => { m with depth := m.depth - 1 }
      finish result) := by
  intro m hm
  have hdeeper : Machine.Ready (d + 1) { m with depth := m.depth + 1 } :=
    ⟨hm.loopFree, by simp only [hm.depth]⟩
  obtain ⟨result, m', hm', hresult, hbody⟩ := h.attempted hdeeper
  have hback : Machine.Ready d { m' with depth := m'.depth - 1 } :=
    ⟨hm'.loopFree, by simp only [hm'.depth, Nat.add_sub_cancel]⟩
  obtain ⟨r, hr, hfinish⟩ := hn result hresult _ hback
  refine ⟨r, hr, (HaltsAs.once (modify _ : Action Unit) m).bind (hbody.bind ?_)⟩
  exact (HaltsAs.once (modify _ : Action Unit) m').bind hfinish

end Halts
end Scriptlet
