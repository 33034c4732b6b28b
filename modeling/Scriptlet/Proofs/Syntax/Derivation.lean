import Scriptlet.Program.Printer

/-! The grammar of the language as a relation between trees and the tokens they are written with, one rule
for each form of phrase. A tree that the grammar allows may still stand for tokens that mean another tree;
the canonical ones, defined below, are those that each stand for tokens of their own. -/
namespace Scriptlet

section Rows

variable {α : Type}

/-- Phrases with commas between them, and perhaps one behind the last. -/
inductive Listed (Y : α → List Token → Prop) : List α → List Token → Prop
  | nil : Listed Y [] []
  | last {a : α} {ts : List Token} (h : Y a ts) : Listed Y [a] ts
  | more {a : α} {as : List α} {ts us : List Token} (h : Y a ts) (hs : Listed Y as us) :
    Listed Y (a :: as) (ts ++ .symbol .comma :: us)

inductive Sequenced (Y : α → List Token → Prop) : List α → List Token → Prop
  | last {a : α} {ts : List Token} (h : Y a ts) : Sequenced Y [a] ts
  | more {a : α} {as : List α} {ts us : List Token} (h : Y a ts) (hs : Sequenced Y as us) :
    Sequenced Y (a :: as) (ts ++ .symbol .comma :: us)

inductive Joined (Y : α → List Token → Prop) : List α → List Token → Prop
  | nil : Joined Y [] []
  | cons {a : α} {as : List α} {ts us : List Token} (h : Y a ts) (hs : Joined Y as us) :
    Joined Y (a :: as) (ts ++ us)

inductive Maybe (Y : α → List Token → Prop) : Option α → List Token → Prop
  | none : Maybe Y none []
  | some {a : α} {ts : List Token} (h : Y a ts) : Maybe Y (some a) ts

variable {Y : α → List Token → Prop} {C : α → Prop} {as : List α} {ts : List Token}

theorem Listed.split (h : Listed (fun a us => Y a us ∧ C a) as ts) :
    Listed Y as ts ∧ ∀ a ∈ as, C a := by
  induction h with
  | nil => exact ⟨.nil, by simp⟩
  | last h => exact ⟨.last h.1, by simpa using h.2⟩
  | more h _ ih => exact ⟨.more h.1 ih.1, List.forall_mem_cons.2 ⟨h.2, ih.2⟩⟩

theorem Sequenced.split (h : Sequenced (fun a us => Y a us ∧ C a) as ts) :
    Sequenced Y as ts ∧ ∀ a ∈ as, C a := by
  induction h with
  | last h => exact ⟨.last h.1, by simpa using h.2⟩
  | more h _ ih => exact ⟨.more h.1 ih.1, List.forall_mem_cons.2 ⟨h.2, ih.2⟩⟩

theorem Sequenced.listed (h : Sequenced Y as ts) : Listed Y as ts := by
  induction h with
  | last h => exact .last h
  | more h _ ih => exact .more h ih

theorem Joined.split (h : Joined (fun a us => Y a us ∧ C a) as ts) :
    Joined Y as ts ∧ ∀ a ∈ as, C a := by
  induction h with
  | nil => exact ⟨.nil, by simp⟩
  | cons h _ ih => exact ⟨.cons h.1 ih.1, List.forall_mem_cons.2 ⟨h.2, ih.2⟩⟩

end Rows

def Identifier.Yields (id : Identifier) (ts : List Token) : Prop := ts = [.identifier id.name]

mutual

inductive Expr.Yields : Expr → List Token → Prop
  | identifier (id : Identifier) : Expr.Yields (.identifier id) [.identifier id.name]
  | literal {value : Literal} {t : Token} (s : Span) (h : t.literal? = some value) :
    Expr.Yields (.literal value s) [t]
  | binary (op : BinaryOp) {l r : Expr} {ts us : List Token} (s : Span) (hl : l.Yields ts)
    (hr : r.Yields us) : Expr.Yields (.binary op l r s) (ts ++ .symbol (.binary op) :: us)
  | unary (op : UnaryOp) {e : Expr} {ts : List Token} (s : Span) (he : e.Yields ts) :
    Expr.Yields (.unary op e s) (.symbol op.sign :: ts)
  | step (op : StepOp) (id : Identifier) (s : Span) :
    Expr.Yields (.step op id s) [.symbol op.sign, .identifier id.name]
  | ternary {c r a : Expr} {ts us vs : List Token} (s : Span) (hc : c.Yields ts) (hr : r.Yields us)
    (ha : a.Yields vs) :
    Expr.Yields (.ternary c r a s) (ts ++ .symbol .question :: (us ++ .symbol .colon :: vs))
  | assign (id : Identifier) (op : Option ComputeOp) {e : Expr} {ts : List Token} (s : Span)
    (he : e.Yields ts) :
    Expr.Yields (.assign id op e s) (.identifier id.name :: .symbol (.assign op) :: ts)
  | call {f : Expr} {es : List Expr} {ts us : List Token} (s : Span) (hf : f.Yields ts)
    (hes : Listed Expr.Yields es us) :
    Expr.Yields (.call f es s) (ts ++ .symbol .leftParen :: (us ++ [.symbol .rightParen]))
  | member {e : Expr} {ts : List Token} (id : Identifier) (s : Span) (he : e.Yields ts) :
    Expr.Yields (.member e id s) (ts ++ [.symbol .dot, .identifier id.name])
  | index {e k : Expr} {ts us : List Token} (s : Span) (he : e.Yields ts) (hk : k.Yields us) :
    Expr.Yields (.index e k s) (ts ++ .symbol .leftBracket :: (us ++ [.symbol .rightBracket]))
  | list {es : List Expr} {ts : List Token} (s : Span) (hes : Listed Expr.Yields es ts) :
    Expr.Yields (.list es s) (.symbol .leftBracket :: (ts ++ [.symbol .rightBracket]))
  | map {es : List (Entry Expr)} {ts : List Token} (s : Span) (hes : Listed Entry.Yields es ts) :
    Expr.Yields (.map es s) (.symbol .leftBrace :: (ts ++ [.symbol .rightBrace]))
  | lambda {ps : List Identifier} {e : Expr} {ts us : List Token} (s : Span)
    (hps : Listed Identifier.Yields ps ts) (he : e.Yields us) :
    Expr.Yields (.lambda ps e s) (.keyword .lambda :: .symbol .leftParen ::
      (ts ++ .symbol .rightParen :: .symbol .fatArrow :: us))
  | input {p : Option Expr} {ts : List Token} (s : Span) (hp : Maybe Expr.Yields p ts) :
    Expr.Yields (.input p s)
      (.keyword .input :: .symbol .leftParen :: (ts ++ [.symbol .rightParen]))
  | nested {e : Expr} {ts : List Token} (s : Span) (he : e.Yields ts) :
    Expr.Yields (.nested e s) (.symbol .leftParen :: (ts ++ [.symbol .rightParen]))

/-- The key of an entry is a name or a string. -/
inductive Entry.Yields : Entry Expr → List Token → Prop
  | mk {key : String} {t : Token} {value : Expr} {ts : List Token} (s : Span) (hk : t.name? = some key)
    (hv : value.Yields ts) : Entry.Yields ⟨key, value, s⟩ (t :: .symbol .colon :: ts)

end

inductive Binding.Yields : Binding → List Token → Prop
  | plain (id : Identifier) : Binding.Yields ⟨id, none⟩ [.identifier id.name]
  | value (id : Identifier) {e : Expr} {ts : List Token} (he : e.Yields ts) :
    Binding.Yields ⟨id, some e⟩ (.identifier id.name :: .symbol (.assign none) :: ts)

inductive Declaration.Yields : Declaration → List Token → Prop
  | mk {kind : DeclarationKind} {t : Token} {bs : List Binding} {ts : List Token} (s : Span)
    (hk : t.declarationKind? = some kind) (hbs : Sequenced Binding.Yields bs ts) :
    Declaration.Yields ⟨kind, bs, s⟩ (t :: (ts ++ [.symbol .semicolon]))

/-- What a `for` loop runs first is written with a semicolon, also when it is missing. -/
inductive Initializer.Yields : Option Initializer → List Token → Prop
  | none : Initializer.Yields none [.symbol .semicolon]
  | declare {d : Declaration} {ts : List Token} (h : d.Yields ts) :
    Initializer.Yields (some (.declare d)) ts
  | expression {e : Expr} {ts : List Token} (s : Span) (h : e.Yields ts) :
    Initializer.Yields (some (.expression e s)) (ts ++ [.symbol .semicolon])

inductive LoopHeader.Yields : LoopHeader → List Token → Prop
  | mk {i : Option Initializer} {c u : Option Expr} {ts us vs : List Token}
    (hi : Initializer.Yields i ts) (hc : Maybe Expr.Yields c us) (hu : Maybe Expr.Yields u vs) :
    LoopHeader.Yields ⟨i, c, u⟩ (ts ++ (us ++ .symbol .semicolon :: vs))

/-- An expression between square brackets. -/
inductive Bracketed : Expr → List Token → Prop
  | mk {e : Expr} {ts : List Token} (he : e.Yields ts) :
    Bracketed e (.symbol .leftBracket :: (ts ++ [.symbol .rightBracket]))

mutual

inductive Stmt.Yields : Stmt → List Token → Prop
  | declare {d : Declaration} {ts : List Token} (h : d.Yields ts) : Stmt.Yields (.declare d) ts
  | function {f : FunctionDecl} {ts : List Token} (h : f.Yields ts) : Stmt.Yields (.function f) ts
  | class_ (id : Identifier) {ms : List Member} {ts : List Token} (s : Span)
    (hms : Joined Member.Yields ms ts) :
    Stmt.Yields (.class_ id none ms s) (.keyword .class_ :: .identifier id.name ::
      .symbol .leftBrace :: (ts ++ [.symbol .rightBrace]))
  | subclass (id p : Identifier) {ms : List Member} {ts : List Token} (s : Span)
    (hms : Joined Member.Yields ms ts) :
    Stmt.Yields (.class_ id (some p) ms s) (.keyword .class_ :: .identifier id.name ::
      .keyword .extends_ :: .identifier p.name :: .symbol .leftBrace :: (ts ++ [.symbol .rightBrace]))
  | block {b : Block} {ts : List Token} (h : b.Yields ts) : Stmt.Yields (.block b) ts
  | conditional {c : Expr} {r : Stmt} {ts us : List Token} (s : Span) (hc : Bracketed c ts)
    (hr : r.Yields us) : Stmt.Yields (.conditional c r none s) (.keyword .if_ :: (ts ++ us))
  | alternative {c : Expr} {r a : Stmt} {ts us vs : List Token} (s : Span) (hc : Bracketed c ts)
    (hr : r.Yields us) (ha : a.Yields vs) :
    Stmt.Yields (.conditional c r (some a) s) (.keyword .if_ :: (ts ++ (us ++ .keyword .else_ :: vs)))
  | whileLoop {c : Expr} {b : Stmt} {ts us : List Token} (s : Span) (hc : Bracketed c ts)
    (hb : b.Yields us) : Stmt.Yields (.whileLoop c b s) (.keyword .while_ :: (ts ++ us))
  | forLoop {h : LoopHeader} {b : Stmt} {ts us : List Token} (s : Span) (hh : h.Yields ts)
    (hb : b.Yields us) :
    Stmt.Yields (.forLoop h b s) (.keyword .for_ :: .symbol .leftBracket ::
      (ts ++ .symbol .rightBracket :: us))
  | switch {e : Expr} {ks : List Case} {ts us : List Token} (s : Span) (he : Bracketed e ts)
    (hks : Joined Case.Yields ks us) :
    Stmt.Yields (.switch e ks s) (.keyword .switch :: (ts ++ .symbol .leftBrace ::
      (us ++ [.symbol .rightBrace])))
  | return_ {e : Option Expr} {ts : List Token} (s : Span) (he : Maybe Expr.Yields e ts) :
    Stmt.Yields (.return_ e s) (.keyword .return_ :: (ts ++ [.symbol .semicolon]))
  | break_ (s : Span) : Stmt.Yields (.break_ s) [.keyword .break_, .symbol .semicolon]
  | continue_ (s : Span) : Stmt.Yields (.continue_ s) [.keyword .continue_, .symbol .semicolon]
  | throw {e : Expr} {ts : List Token} (s : Span) (he : e.Yields ts) :
    Stmt.Yields (.throw e s) (.keyword .throw :: (ts ++ [.symbol .semicolon]))
  | try_ {b : Block} {h : Option Handler} {f : Option Block} {ts us vs : List Token} (s : Span)
    (hb : b.Yields ts) (hh : Maybe Handler.Yields h us) (hf : Maybe Block.YieldsCleanup f vs) :
    Stmt.Yields (.try_ b h f s) (.keyword .try_ :: (ts ++ (us ++ vs)))
  | import_ {target : String} {t : Token} (s : Span) (h : t.name? = some target) :
    Stmt.Yields (.import_ target s) [.keyword .import_, t, .symbol .semicolon]
  | print {es : List Expr} {ts : List Token} (s : Span) (hes : Listed Expr.Yields es ts) :
    Stmt.Yields (.print es s) (.keyword .print :: .symbol .leftParen ::
      (ts ++ [.symbol .rightParen, .symbol .semicolon]))
  | pass (s : Span) : Stmt.Yields (.pass s) [.keyword .pass, .symbol .semicolon]
  | expression {e : Expr} {ts : List Token} (s : Span) (he : e.Yields ts) :
    Stmt.Yields (.expression e s) (ts ++ [.symbol .semicolon])

inductive Block.Yields : Block → List Token → Prop
  | mk {ss : List Stmt} {ts : List Token} (s : Span) (hss : Joined Stmt.Yields ss ts) :
    Block.Yields (.mk ss s) (.symbol .leftBrace :: (ts ++ [.symbol .rightBrace]))

inductive FunctionDecl.Yields : FunctionDecl → List Token → Prop
  | mk (id : Identifier) {ps : List Identifier} {b : Block} {ts us : List Token} (s : Span)
    (hps : Listed Identifier.Yields ps ts) (hb : b.Yields us) :
    FunctionDecl.Yields (.mk id ps b s) (.keyword .func :: .identifier id.name ::
      .symbol .leftParen :: (ts ++ .symbol .rightParen :: us))

inductive Member.Yields : Member → List Token → Prop
  | field {d : Declaration} {ts : List Token} (h : d.Yields ts) : Member.Yields (.field d) ts
  | method {f : FunctionDecl} {ts : List Token} (h : f.Yields ts) : Member.Yields (.method f) ts

inductive Case.Yields : Case → List Token → Prop
  | value {e : Expr} {b : Stmt} {ts us : List Token} (s : Span) (he : e.Yields ts) (hb : b.Yields us) :
    Case.Yields (.mk (some e) b s) (.keyword .case :: (ts ++ .symbol .colon :: us))
  | default {b : Stmt} {ts : List Token} (s : Span) (hb : b.Yields ts) :
    Case.Yields (.mk none b s) (.keyword .default :: .symbol .colon :: ts)

inductive Handler.Yields : Handler → List Token → Prop
  | plain {b : Block} {ts : List Token} (hb : b.Yields ts) :
    Handler.Yields (.mk none b) (.keyword .catch_ :: ts)
  | named (id : Identifier) {b : Block} {ts : List Token} (hb : b.Yields ts) :
    Handler.Yields (.mk (some id) b) (.keyword .catch_ :: .symbol .leftParen ::
      .identifier id.name :: .symbol .rightParen :: ts)

inductive Block.YieldsCleanup : Block → List Token → Prop
  | mk {b : Block} {ts : List Token} (hb : b.Yields ts) : Block.YieldsCleanup b (.keyword .finally_ :: ts)

end

def Program.Yields (p : Program) (ts : List Token) : Prop := Joined Stmt.Yields p.statements ts

instance : LE Precedence := ⟨fun a b => a.rank ≤ b.rank⟩

namespace Expr

/-- How tightly an expression holds together when it stands without parentheses. -/
def strength : Expr → Precedence
  | binary op _ _ _ => op.precedence
  | unary _ _ _ | step _ _ _ => .prefixed
  | ternary _ _ _ _ => .ternary
  | assign _ _ _ _ => .assign
  | _ => .call

/-- Whether the expression ends in a lambda or an assignment, which takes all that follows. -/
def isOpen : Expr → Bool
  | binary _ _ right _ => right.isOpen
  | unary _ operand _ => operand.isOpen
  | ternary _ _ alternative _ => alternative.isOpen
  | assign _ _ _ _ | lambda _ _ _ => true
  | _ => false

/-- What can be called, indexed and asked for a member without parentheses: postfix forms and all that
opens an expression and is no operator, except lambdas. -/
def isBase : Expr → Bool
  | identifier _ | literal _ _ | call _ _ _ | member _ _ _ | index _ _ _ | list _ _ | map _ _
  | input _ _ | nested _ _ => true
  | _ => false

/-- Whether the first token is the brace of a map. -/
def startsWithMap : Expr → Bool
  | binary _ left _ _ => left.startsWithMap
  | ternary condition _ _ _ => condition.startsWithMap
  | call callee _ _ => callee.startsWithMap
  | member object _ _ => object.startsWithMap
  | index object _ _ => object.startsWithMap
  | map _ _ => true
  | _ => false

end Expr

namespace BinaryOp

/-- The left operand holds at least as tightly as the operator; that of a power holds tighter. -/
def AllowsLeft (op : BinaryOp) (left : Expr) : Prop :=
  if op = .compute .power then op.precedence < left.strength else op.precedence ≤ left.strength

/-- The right operand holds tighter than the operator; that of a power at least as tightly. -/
def AllowsRight (op : BinaryOp) (right : Expr) : Prop :=
  if op = .compute .power then op.precedence ≤ right.strength else op.precedence < right.strength

end BinaryOp

/-- Names of parameters differ. -/
def Distinct (ps : List Identifier) : Prop := (ps.map (·.name)).Nodup

/-- Expressions whose tokens are read back as they are. Operands hold tightly enough to stand where they
stand, and what takes all that follows it stands only where nothing follows. -/
inductive Expr.Canonical : Expr → Prop
  | identifier (id : Identifier) : Expr.Canonical (.identifier id)
  | literal (value : Literal) (s : Span) : Expr.Canonical (.literal value s)
  | binary {op : BinaryOp} {l r : Expr} (s : Span) (hl : l.Canonical) (hr : r.Canonical)
    (hleft : op.AllowsLeft l) (hright : op.AllowsRight r) (hclosed : l.isOpen = false) :
    Expr.Canonical (.binary op l r s)
  | unary (op : UnaryOp) {e : Expr} (s : Span) (he : e.Canonical) (hs : .prefixed ≤ e.strength) :
    Expr.Canonical (.unary op e s)
  | step (op : StepOp) (id : Identifier) (s : Span) : Expr.Canonical (.step op id s)
  | ternary {c r a : Expr} (s : Span) (hc : c.Canonical) (hr : r.Canonical) (ha : a.Canonical)
    (hcondition : .ternary < c.strength) (hclosed : c.isOpen = false)
    (halternative : .ternary ≤ a.strength) : Expr.Canonical (.ternary c r a s)
  | assign (id : Identifier) (op : Option ComputeOp) {e : Expr} (s : Span) (he : e.Canonical) :
    Expr.Canonical (.assign id op e s)
  | call {f : Expr} {es : List Expr} (s : Span) (hf : f.Canonical) (hbase : f.isBase = true)
    (hes : ∀ e ∈ es, e.Canonical) : Expr.Canonical (.call f es s)
  | member {e : Expr} (id : Identifier) (s : Span) (he : e.Canonical) (hbase : e.isBase = true) :
    Expr.Canonical (.member e id s)
  | index {e k : Expr} (s : Span) (he : e.Canonical) (hbase : e.isBase = true) (hk : k.Canonical) :
    Expr.Canonical (.index e k s)
  | list {es : List Expr} (s : Span) (hes : ∀ e ∈ es, e.Canonical) : Expr.Canonical (.list es s)
  | map {es : List (Entry Expr)} (s : Span) (hes : ∀ e ∈ es, e.value.Canonical) :
    Expr.Canonical (.map es s)
  | lambda {ps : List Identifier} {e : Expr} (s : Span) (hps : Distinct ps) (he : e.Canonical) :
    Expr.Canonical (.lambda ps e s)
  | input {p : Option Expr} (s : Span) (hp : ∀ e ∈ p, e.Canonical) : Expr.Canonical (.input p s)
  | nested {e : Expr} (s : Span) (he : e.Canonical) : Expr.Canonical (.nested e s)

/-- Constants have values. -/
structure Declaration.Canonical (d : Declaration) : Prop where
  values : ∀ b ∈ d.bindings, ∀ e ∈ b.value, e.Canonical
  constants : d.kind.isConstant = true → ∀ b ∈ d.bindings, b.value.isSome = true

inductive Initializer.Canonical : Initializer → Prop
  | declare {d : Declaration} (h : d.Canonical) : Initializer.Canonical (.declare d)
  | expression {e : Expr} (s : Span) (h : e.Canonical) : Initializer.Canonical (.expression e s)

structure LoopHeader.Canonical (h : LoopHeader) : Prop where
  initializer : ∀ i ∈ h.initializer, i.Canonical
  condition : ∀ e ∈ h.condition, e.Canonical
  update : ∀ e ∈ h.update, e.Canonical

/-- Whether the statement ends in a conditional without an alternative, so that an `else` behind it would
belong to that conditional. -/
def Stmt.isDangling : Stmt → Bool
  | .conditional _ _ none _ => true
  | .conditional _ _ (some alternative) _ => alternative.isDangling
  | .whileLoop _ body _ => body.isDangling
  | .forLoop _ body _ => body.isDangling
  | _ => false

mutual

/-- Statements whose tokens are read back as they are: an `else` belongs to the nearest conditional, and no
expression that starts with the brace of a map is taken for a block. -/
inductive Stmt.Canonical : Stmt → Prop
  | declare {d : Declaration} (h : d.Canonical) : Stmt.Canonical (.declare d)
  | function {f : FunctionDecl} (h : f.Canonical) : Stmt.Canonical (.function f)
  | class_ (id : Identifier) (p : Option Identifier) {ms : List Member} (s : Span)
    (hms : ∀ m ∈ ms, m.Canonical) : Stmt.Canonical (.class_ id p ms s)
  | block {b : Block} (h : b.Canonical) : Stmt.Canonical (.block b)
  | conditional {c : Expr} {r : Stmt} (s : Span) (hc : c.Canonical) (hr : r.Canonical) :
    Stmt.Canonical (.conditional c r none s)
  | alternative {c : Expr} {r a : Stmt} (s : Span) (hc : c.Canonical) (hr : r.Canonical)
    (ha : a.Canonical) (hnearest : r.isDangling = false) :
    Stmt.Canonical (.conditional c r (some a) s)
  | whileLoop {c : Expr} {b : Stmt} (s : Span) (hc : c.Canonical) (hb : b.Canonical) :
    Stmt.Canonical (.whileLoop c b s)
  | forLoop {h : LoopHeader} {b : Stmt} (s : Span) (hh : h.Canonical) (hb : b.Canonical) :
    Stmt.Canonical (.forLoop h b s)
  | switch {e : Expr} {ks : List Case} (s : Span) (he : e.Canonical) (hks : ∀ k ∈ ks, k.Canonical) :
    Stmt.Canonical (.switch e ks s)
  | return_ {e : Option Expr} (s : Span) (he : ∀ x ∈ e, x.Canonical) : Stmt.Canonical (.return_ e s)
  | break_ (s : Span) : Stmt.Canonical (.break_ s)
  | continue_ (s : Span) : Stmt.Canonical (.continue_ s)
  | throw {e : Expr} (s : Span) (he : e.Canonical) : Stmt.Canonical (.throw e s)
  | try_ {b : Block} {h : Option Handler} {f : Option Block} (s : Span) (hb : b.Canonical)
    (hh : ∀ k ∈ h, k.Canonical) (hf : ∀ c ∈ f, c.Canonical)
    (hend : h.isSome = true ∨ f.isSome = true) : Stmt.Canonical (.try_ b h f s)
  | import_ (target : String) (s : Span) : Stmt.Canonical (.import_ target s)
  | print {es : List Expr} (s : Span) (hes : ∀ e ∈ es, e.Canonical) : Stmt.Canonical (.print es s)
  | pass (s : Span) : Stmt.Canonical (.pass s)
  | expression {e : Expr} (s : Span) (he : e.Canonical) (hstart : e.startsWithMap = false) :
    Stmt.Canonical (.expression e s)

inductive Block.Canonical : Block → Prop
  | mk {ss : List Stmt} (s : Span) (hss : ∀ x ∈ ss, x.Canonical) : Block.Canonical (.mk ss s)

inductive FunctionDecl.Canonical : FunctionDecl → Prop
  | mk (id : Identifier) {ps : List Identifier} {b : Block} (s : Span) (hps : Distinct ps)
    (hb : b.Canonical) : FunctionDecl.Canonical (.mk id ps b s)

inductive Member.Canonical : Member → Prop
  | field {d : Declaration} (h : d.Canonical) : Member.Canonical (.field d)
  | method {f : FunctionDecl} (h : f.Canonical) : Member.Canonical (.method f)

inductive Case.Canonical : Case → Prop
  | mk {e : Option Expr} {b : Stmt} (s : Span) (he : ∀ x ∈ e, x.Canonical) (hb : b.Canonical) :
    Case.Canonical (.mk e b s)

inductive Handler.Canonical : Handler → Prop
  | mk (id : Option Identifier) {b : Block} (hb : b.Canonical) : Handler.Canonical (.mk id b)

end

def Program.Canonical (p : Program) : Prop := ∀ s ∈ p.statements, s.Canonical

end Scriptlet
