import Scriptlet.Proofs.Optimizing
import Scriptlet.Proofs.Keeping
import Scriptlet.Proofs.Resemblance

/-! Code without what its warnings call unreachable: the statements after the first jump of their list, and
the branches that a literal condition does not take. Machines are pruned with the code they hold, and an
action is followed by another under pruning when it makes no difference whether a machine is pruned before
the one or after the other. -/
namespace Scriptlet

/-- The literal for a given truth value. -/
def Expr.isLiteral (value : Bool) : Expr → Bool
  | .literal (.bool b) _ => b = value
  | _ => false

mutual

def Stmt.prune : Stmt → Stmt
  | .declare d => .declare d
  | .function f => .function f.prune
  | .class_ name parent members span => .class_ name parent (pruneMembers members) span
  | .block b => .block b.prune
  | .conditional condition resolution alternative span =>
    .conditional condition
      (if condition.isLiteral false then .pass resolution.span else resolution.prune)
      (if condition.isLiteral true then none else pruneAlternative alternative) span
  | .whileLoop condition body span => .whileLoop condition body.prune span
  | .forLoop header body span => .forLoop header body.prune span
  | .switch subject cases span => .switch subject (pruneCases cases) span
  | .return_ value span => .return_ value span
  | .break_ span => .break_ span
  | .continue_ span => .continue_ span
  | .throw value span => .throw value span
  | .try_ body handler cleanup span =>
    .try_ body.prune (pruneHandler handler) (pruneCleanup cleanup) span
  | .import_ target span => .import_ target span
  | .print values span => .print values span
  | .pass span => .pass span
  | .expression e span => .expression e span

def Block.prune : Block → Block
  | .mk statements span => .mk (Stmt.pruneList statements) span

def FunctionDecl.prune : FunctionDecl → FunctionDecl
  | .mk name parameters body span => .mk name parameters body.prune span

/-- A list of statements ends with its first jump. -/
def Stmt.pruneList : List Stmt → List Stmt
  | [] => []
  | s :: ss => if s.isJump then [s.prune] else s.prune :: Stmt.pruneList ss

def pruneAlternative : Option Stmt → Option Stmt
  | none => none
  | some s => some s.prune

def pruneMembers : List Member → List Member
  | [] => []
  | .field d :: ms => .field d :: pruneMembers ms
  | .method f :: ms => .method f.prune :: pruneMembers ms

def pruneCases : List Case → List Case
  | [] => []
  | .mk value body span :: cs => .mk value body.prune span :: pruneCases cs

def pruneHandler : Option Handler → Option Handler
  | none => none
  | some (.mk parameter body) => some (.mk parameter body.prune)

def pruneCleanup : Option Block → Option Block
  | none => none
  | some body => some body.prune

end

def Program.prune (p : Program) : Program := { p with statements := Stmt.pruneList p.statements }

theorem Stmt.prune_isJump (s : Stmt) : s.prune.isJump = s.isJump := by
  cases s <;> simp [Stmt.prune, Stmt.isJump]

mutual

theorem Stmt.prune_prune (s : Stmt) : s.prune.prune = s.prune := by
  cases s with
  | function f => simp only [Stmt.prune, FunctionDecl.prune_prune f]
  | class_ name parent members span => simp only [Stmt.prune, pruneMembers_idem members]
  | block b => simp only [Stmt.prune, Block.prune_prune b]
  | conditional condition resolution alternative span =>
    have hresolution := Stmt.prune_prune resolution
    have halternative := pruneAlternative_idem alternative
    by_cases hfalse : condition.isLiteral false = true
    · by_cases htrue : condition.isLiteral true = true
      · simp [Stmt.prune, hfalse, htrue, Stmt.span]
      · simp [Stmt.prune, hfalse, htrue, Stmt.span, halternative]
    · by_cases htrue : condition.isLiteral true = true
      · simp [Stmt.prune, hfalse, htrue, hresolution]
      · simp [Stmt.prune, hfalse, htrue, hresolution, halternative]
  | whileLoop condition body span => simp only [Stmt.prune, Stmt.prune_prune body]
  | forLoop header body span => simp only [Stmt.prune, Stmt.prune_prune body]
  | switch subject cases span => simp only [Stmt.prune, pruneCases_idem cases]
  | try_ body handler cleanup span =>
    simp only [Stmt.prune, Block.prune_prune body, pruneHandler_idem handler, pruneCleanup_idem cleanup]
  | declare d => simp only [Stmt.prune]
  | return_ value span => simp only [Stmt.prune]
  | break_ span => simp only [Stmt.prune]
  | continue_ span => simp only [Stmt.prune]
  | throw value span => simp only [Stmt.prune]
  | import_ target span => simp only [Stmt.prune]
  | print values span => simp only [Stmt.prune]
  | pass span => simp only [Stmt.prune]
  | expression e span => simp only [Stmt.prune]

theorem Block.prune_prune (b : Block) : b.prune.prune = b.prune := by
  obtain ⟨ss, span⟩ := b
  simp only [Block.prune, Stmt.pruneList_idem ss]

theorem FunctionDecl.prune_prune (f : FunctionDecl) : f.prune.prune = f.prune := by
  obtain ⟨name, parameters, body, span⟩ := f
  simp only [FunctionDecl.prune, Block.prune_prune body]

theorem Stmt.pruneList_idem (ss : List Stmt) :
    Stmt.pruneList (Stmt.pruneList ss) = Stmt.pruneList ss := by
  cases ss with
  | nil => rfl
  | cons s ss =>
    have hs := Stmt.prune_prune s
    by_cases hjump : s.isJump = true
    · simp [Stmt.pruneList, hjump, Stmt.prune_isJump, hs]
    · simp [Stmt.pruneList, hjump, Stmt.prune_isJump, hs, Stmt.pruneList_idem ss]

theorem pruneAlternative_idem (s : Option Stmt) :
    pruneAlternative (pruneAlternative s) = pruneAlternative s := by
  cases s with
  | none => rfl
  | some s => simp only [pruneAlternative, Stmt.prune_prune s]

theorem pruneMembers_idem (ms : List Member) : pruneMembers (pruneMembers ms) = pruneMembers ms := by
  cases ms with
  | nil => rfl
  | cons m ms =>
    cases m with
    | field d => simp only [pruneMembers, pruneMembers_idem ms]
    | method f => simp only [pruneMembers, FunctionDecl.prune_prune f, pruneMembers_idem ms]

theorem pruneCases_idem (cs : List Case) : pruneCases (pruneCases cs) = pruneCases cs := by
  cases cs with
  | nil => rfl
  | cons k cs =>
    obtain ⟨value, body, span⟩ := k
    simp only [pruneCases, Stmt.prune_prune body, pruneCases_idem cs]

theorem pruneHandler_idem (k : Option Handler) : pruneHandler (pruneHandler k) = pruneHandler k := by
  cases k with
  | none => rfl
  | some k =>
    obtain ⟨parameter, body⟩ := k
    simp only [pruneHandler, Block.prune_prune body]

theorem pruneCleanup_idem (b : Option Block) : pruneCleanup (pruneCleanup b) = pruneCleanup b := by
  cases b with
  | none => rfl
  | some b => simp only [pruneCleanup, Block.prune_prune b]

end

theorem Program.prune_prune (p : Program) : p.prune.prune = p.prune := by
  simp only [Program.prune, Stmt.pruneList_idem p.statements]

def FunctionBody.prune : FunctionBody → FunctionBody
  | .block body => .block body.prune
  | .expression body => .expression body

def Function.prune (f : Function) : Function := { f with body := f.body.prune }

def Class.prune (k : Class) : Class := { k with members := pruneMembers k.members }

namespace Store

def prune (s : Store) : Store :=
  { s with functions := s.functions.map Function.prune, classes := s.classes.map Class.prune }

theorem prune_function (s : Store) (r : Nat) :
    s.prune.functions[r]? = (s.functions[r]?).map Function.prune := by
  simp [prune]

theorem prune_class (s : Store) (r : Nat) : s.prune.classes[r]? = (s.classes[r]?).map Class.prune := by
  simp [prune]

theorem resembles_prune (s : Store) : s.prune.Resembles s where
  frames := rfl
  arrays := rfl
  maps := rfl
  instances := rfl
  functionName r := by
    rw [prune_function]
    cases s.functions[r]? <;> rfl
  className r := by
    rw [className, className, prune_class]
    cases s.classes[r]? <;> rfl

theorem prune_lineage (s : Store) (r : Nat) : s.prune.lineage r = (s.lineage r).map Class.prune := by
  induction r using Nat.strongRecOn with
  | ind r ih =>
    rw [lineage, lineage, prune_class]
    cases s.classes[r]? with
    | none => rfl
    | some k =>
      dsimp only [Option.map_some]
      have hparent : k.prune.parent = k.parent := rfl
      rw [hparent]
      cases k.parent with
      | none => rfl
      | some p =>
        dsimp only
        split
        · next hp => rw [ih p hp, List.map_append, List.map_singleton]
        · rfl

theorem prune_newFunction (s : Store) (f : Function) :
    s.prune.newFunction f.prune = ((s.newFunction f).1, (s.newFunction f).2.prune) := by
  simp [newFunction, prune]

theorem prune_newClass (s : Store) (k : Class) :
    s.prune.newClass k.prune = ((s.newClass k).1, (s.newClass k).2.prune) := by
  simp [newClass, prune]

theorem prune_assign (s : Store) (env : Env) (name : String) (value : Value) :
    s.prune.assign env name value = ((s.assign env name value).1, (s.assign env name value).2.prune) := by
  have hrefusal : s.prune.refusal? env name = s.refusal? env name := rfl
  unfold assign
  rw [hrefusal]
  cases s.refusal? env name <;> rfl

theorem prune_builtin (s : Store) (f : Builtin) (now : Except String Float) (arguments : List Value) :
    f.apply now arguments s.prune =
      ((f.apply now arguments s).1, (f.apply now arguments s).2.prune) := by
  obtain ⟨hanswer, hstore⟩ := s.resembles_prune.builtin (R := fun a b => a = b.prune) rfl
    (fun _ _ => rfl) (fun _ => rfl) (fun _ => rfl) f now arguments
  exact Prod.ext hanswer hstore

end Store

def Machine.prune (m : Machine) : Machine := { m with store := m.store.prune }

namespace Action

variable {α β : Type}

def pruneEnd : EStateM.Result Signal Machine α → EStateM.Result Signal Machine α
  | .ok a m => .ok a m.prune
  | .error signal m => .error signal m.prune

theorem pruneEnd_eq_ok {r : EStateM.Result Signal Machine α} {a : α} {m : Machine}
    (h : pruneEnd r = .ok a m) : ∃ m', r = .ok a m' ∧ m'.prune = m := by
  cases r with
  | ok b m' =>
    obtain ⟨rfl, hm⟩ := EStateM.Result.ok.inj h
    exact ⟨m', rfl, hm⟩
  | error signal m' => cases h

theorem pruneEnd_eq_error {r : EStateM.Result Signal Machine α} {signal : Signal} {m : Machine}
    (h : pruneEnd r = .error signal m) : ∃ m', r = .error signal m' ∧ m'.prune = m := by
  cases r with
  | ok b m' => cases h
  | error signal' m' =>
    obtain ⟨rfl, hm⟩ := EStateM.Result.error.inj h
    exact ⟨m', rfl, hm⟩

/-- The second action does on a pruned machine what the first one does on the machine. -/
def Prunes (action action' : Action α) : Prop := ∀ m : Machine, action' m.prune = pruneEnd (action m)

namespace Prunes

variable {action action' : Action α} {next next' : α → Action β}

theorem pure (a : α) : Prunes (pure a) (pure a) := fun _ => rfl

theorem throw (signal : Signal) : Prunes (throw signal : Action α) (throw signal) := fun _ => rfl

theorem fail (cause : RuntimeCause) (span : Span) :
    Prunes (Action.fail cause span : Action α) (Action.fail cause span) := fun _ => rfl

/-- A failure is the end, whatever would come after it. -/
theorem failThen (cause : RuntimeCause) (span : Span) :
    Prunes ((Action.fail cause span : Action α) >>= next) (Action.fail cause span >>= next') :=
  fun _ => rfl

theorem ofExcept (span : Span) (result : Except RuntimeCause α) :
    Prunes (Action.ofExcept span result) (Action.ofExcept span result) := by
  cases result with
  | ok a => exact pure a
  | error cause => exact fail cause span

theorem update {f f' : Store → α × Store} (h : ∀ s : Store, f' s.prune = ((f s).1, (f s).2.prune)) :
    Prunes (Action.update f) (Action.update f') := by
  intro m
  have hm := h m.store
  show EStateM.Result.ok (f' m.store.prune).1 { m with store := (f' m.store.prune).2 } = _
  rw [hm]
  rfl

theorem modify {f : Machine → Machine} (h : ∀ m : Machine, f m.prune = (f m).prune) :
    Prunes (modify f : Action Unit) (modify f) := by
  intro m
  show EStateM.Result.ok () (f m.prune) = _
  rw [h]
  rfl

/-- What is known of the results of the first action may be used for the second. -/
theorem bindKnown {P : α → Prop} (h : Prunes action action')
    (hP : ∀ m a m', action m = .ok a m' → P a) (hn : ∀ a, P a → Prunes (next a) (next' a)) :
    Prunes (action >>= next) (action' >>= next') := by
  intro m
  have hm := h m
  cases he : action m with
  | ok a m' =>
    rw [he] at hm
    simp only [Bind.bind, EStateM.bind, hm, he, pruneEnd]
    exact hn a (hP m a m' he) m'
  | error signal m' =>
    rw [he] at hm
    simp only [Bind.bind, EStateM.bind, hm, he, pruneEnd]

theorem bind (h : Prunes action action') (hn : ∀ a, Prunes (next a) (next' a)) :
    Prunes (action >>= next) (action' >>= next') :=
  h.bindKnown (P := fun _ => True) (fun _ _ _ _ => trivial) fun a _ => hn a

/-- Where the first action never gives a result, nothing comes after it. -/
theorem bindStopped (h : Prunes action action') (hstop : ∀ m a m', action m ≠ .ok a m') :
    Prunes (action >>= next) (action' >>= next') :=
  h.bindKnown (P := fun _ => False) (fun m a m' he => hstop m a m' he) fun _ hfalse => hfalse.elim

/-- What is read off a store, with what is made of it. -/
theorem look {γ : Type} {f : Store → α} {f' : Store → γ} {next' : γ → Action β} (g : α → γ)
    (h : ∀ s : Store, f' s.prune = g (f s)) (hn : ∀ a, Prunes (next a) (next' (g a))) :
    Prunes (Action.look f >>= next) (Action.look f' >>= next') := by
  intro m
  show next' (f' m.store.prune) m.prune = _
  rw [h]
  exact hn (f m.store) m

theorem get {next next' : Machine → Action β} (hn : ∀ m : Machine, Prunes (next m) (next' m.prune)) :
    Prunes (MonadState.get >>= next) (MonadState.get >>= next') := fun m => hn m m

theorem attempt (h : Prunes action action') : Prunes (attempt action) (attempt action') := by
  intro m
  have hm := h m
  cases he : action m with
  | ok a m' =>
    rw [he] at hm
    simp only [Action.attempt, hm, he, pruneEnd]
  | error signal m' =>
    rw [he] at hm
    cases signal <;> simp only [Action.attempt, hm, he, pruneEnd]

theorem discard (h : Prunes action action') : Prunes (discard action) (discard action') := by
  rw [discard_eq, discard_eq]
  exact h.bind fun _ => pure ()

end Prunes

end Action

end Scriptlet
