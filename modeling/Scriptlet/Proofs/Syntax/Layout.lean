import Scriptlet.Program.Printer
import Scriptlet.Token.Lexer

/-! How programs lie in their texts. The layout of a phrase is the order of its pieces: tokens of its own and
the phrases in it. Where tokens fill a layout, each phrase has tokens in a row, and its range is the one from
the start of the first of them to the end of the last. -/
namespace Scriptlet

/-- From the start of the first token to the end of the last one. -/
def Span.Covers (s : Span) (ts : List (Located Token)) : Prop :=
  ts.head?.map (·.span.start) = some s.start ∧ ts.getLast?.map (·.span.stop) = some s.stop

structure InRow (ts : List (Located Token)) : Prop where
  apart : ts.Pairwise fun a b => a.span.stop ≤ b.span.start
  ordered : ∀ t ∈ ts, t.span.start ≤ t.span.stop

/-- A piece of a text: tokens with certain contents, or a phrase with its range and its own pieces. -/
inductive Layout where
  | own (Is : List Token → Prop)
  | phrase (span : Span) (pieces : List Layout)

namespace Layout

mutual

inductive Occupies : Layout → List (Located Token) → Prop
  | own {Is : List Token → Prop} {ts : List (Located Token)} (h : Is (ts.map (·.content))) :
    Occupies (.own Is) ts
  | phrase {s : Span} {ps : List Layout} {ts : List (Located Token)} (hs : s.Covers ts)
    (hps : Occupy ps ts) : Occupies (.phrase s ps) ts

inductive Occupy : List Layout → List (Located Token) → Prop
  | nil : Occupy [] []
  | cons {p : Layout} {ps : List Layout} {ts us : List (Located Token)} (h : Occupies p ts)
    (hs : Occupy ps us) : Occupy (p :: ps) (ts ++ us)

end

def span? : Layout → Option Span
  | own _ => none
  | phrase s _ => some s

/-- The ranges of the phrases in a phrase lie in its own one and are apart, and so on for those phrases. -/
inductive Nested : Layout → Prop
  | own (Is : List Token → Prop) : Nested (.own Is)
  | phrase {s : Span} {ps : List Layout}
    (hinside : ∀ t ∈ ps.filterMap span?, s.start ≤ t.start ∧ t.start ≤ t.stop ∧ t.stop ≤ s.stop)
    (hapart : (ps.filterMap span?).Pairwise fun a b => a.stop ≤ b.start) (hps : ∀ p ∈ ps, p.Nested) :
    Nested (.phrase s ps)

end Layout

namespace Span.Covers

variable {s t : Span} {ts us vs : List (Located Token)}

theorem singleton (t : Located Token) : t.span.Covers [t] := ⟨rfl, rfl⟩

theorem first_mem (h : s.Covers ts) : ∃ t ∈ ts, t.span.start = s.start := by
  obtain ⟨t, ht, hstart⟩ := Option.map_eq_some_iff.1 h.1
  exact ⟨t, List.mem_of_head? ht, hstart⟩

theorem last_mem (h : s.Covers ts) : ∃ t ∈ ts, t.span.stop = s.stop := by
  obtain ⟨t, ht, hstop⟩ := Option.map_eq_some_iff.1 h.2
  exact ⟨t, List.mem_of_getLast? ht, hstop⟩

/-- From the start of a range at the front to the end of one at the back. -/
theorem join (hs : s.Covers us) (ht : t.Covers vs) (hfront : us <+: ts) (hback : vs <:+ ts) :
    Span.Covers ⟨s.start, t.stop⟩ ts := by
  constructor
  · obtain ⟨first, hfirst, hstart⟩ := Option.map_eq_some_iff.1 hs.1
    obtain ⟨rest, rfl⟩ := hfront
    rw [List.head?_append, hfirst, ← hstart]
    rfl
  · obtain ⟨last, hlast, hstop⟩ := Option.map_eq_some_iff.1 ht.2
    obtain ⟨front, rfl⟩ := hback
    rw [List.getLast?_append, hlast, ← hstop]
    rfl

end Span.Covers

namespace InRow

variable {s t : Span} {ts us vs : List (Located Token)}

theorem append_left (h : InRow (ts ++ us)) : InRow ts :=
  ⟨(List.pairwise_append.1 h.apart).1, fun t ht => h.ordered t (List.mem_append_left _ ht)⟩

theorem append_right (h : InRow (ts ++ us)) : InRow us :=
  ⟨(List.pairwise_append.1 h.apart).2.1, fun t ht => h.ordered t (List.mem_append_right _ ht)⟩

/-- All tokens lie in the range. -/
theorem within (h : InRow ts) (hs : s.Covers ts) :
    ∀ t ∈ ts, s.start ≤ t.span.start ∧ t.span.stop ≤ s.stop := by
  intro t ht
  obtain ⟨first, hfirst, hstart⟩ := Option.map_eq_some_iff.1 hs.1
  obtain ⟨last, hlast, hstop⟩ := Option.map_eq_some_iff.1 hs.2
  constructor
  · obtain ⟨rest, rfl⟩ := List.head?_eq_some_iff.1 hfirst
    rcases List.mem_cons.1 ht with rfl | ht
    · exact Nat.le_of_eq hstart.symm
    · have hle := (List.pairwise_cons.1 h.apart).1 t ht
      have hordered := h.ordered first List.mem_cons_self
      omega
  · obtain ⟨front, rfl⟩ := List.getLast?_eq_some_iff.1 hlast
    rcases List.mem_append.1 ht with ht | ht
    · have hle := (List.pairwise_append.1 h.apart).2.2 t ht last (List.mem_singleton.2 rfl)
      have hordered := h.ordered last (List.mem_append_right _ (List.mem_singleton.2 rfl))
      omega
    · obtain rfl := List.mem_singleton.1 ht
      exact Nat.le_of_eq hstop

theorem ordered_of_covers (h : InRow ts) (hs : s.Covers ts) : s.start ≤ s.stop := by
  obtain ⟨t, ht, hstart⟩ := hs.first_mem
  have hle := h.ordered t ht
  have hwithin := (h.within hs t ht).2
  omega

theorem merge (h : InRow ts) (hs : s.Covers us) (ht : t.Covers vs) (hfront : us <+: ts)
    (hback : vs <:+ ts) : (s.merge t).Covers ts := by
  have hjoin := hs.join ht hfront hback
  obtain ⟨a, ha, hstop⟩ := hs.last_mem
  obtain ⟨b, hb, hstart⟩ := ht.first_mem
  have hle := (h.within hjoin a (hfront.subset ha)).2
  have hle' := (h.within hjoin b (hback.subset hb)).1
  have hmerge : s.merge t = ⟨s.start, t.stop⟩ := by
    show Span.mk (min s.start t.start) (max s.stop t.stop) = _
    rw [Nat.min_eq_left (by simpa [hstart] using hle'), Nat.max_eq_right (by simpa [hstop] using hle)]
  rw [hmerge]
  exact hjoin

theorem across (h : InRow (us ++ ts)) (hs : s.Covers us) (ht : t.Covers vs) (hback : vs <:+ ts) :
    (s.merge t).Covers (us ++ ts) :=
  h.merge hs ht (List.prefix_append _ _) (List.suffix_append_of_suffix hback)

end InRow

namespace Layout

variable {p : Layout} {ps qs : List Layout} {ts us : List (Located Token)}

theorem Occupy.append (hp : Occupy ps ts) (hq : Occupy qs us) : Occupy (ps ++ qs) (ts ++ us) := by
  induction ps generalizing ts with
  | nil =>
    cases hp
    exact hq
  | cons p ps ih =>
    cases hp with
    | cons h hs =>
      rw [List.append_assoc]
      exact .cons h (ih hs)

theorem Occupy.single (h : p.Occupies ts) : Occupy [p] ts := by
  rw [← List.append_nil ts]
  exact .cons h .nil

theorem Occupies.covers (h : p.Occupies ts) {s : Span} (hs : p.span? = some s) : s.Covers ts := by
  cases h with
  | own => cases hs
  | phrase hcovers =>
    cases hs
    exact hcovers

/-- The ranges of phrases one behind the other are apart, and are those of some of the tokens. -/
theorem Occupy.spans (h : Occupy ps ts) (hrow : InRow ts) :
    (∀ s ∈ ps.filterMap span?, ∃ us, s.Covers us ∧ us.Sublist ts) ∧
      (ps.filterMap span?).Pairwise fun a b => a.stop ≤ b.start := by
  induction ps generalizing ts with
  | nil => simp
  | cons p ps ih =>
    cases h with
    | @cons _ _ us vs hp hps =>
      obtain ⟨hrest, hapart⟩ := ih hps hrow.append_right
      have hrest' : ∀ s ∈ ps.filterMap span?, ∃ ws, s.Covers ws ∧ ws.Sublist (us ++ vs) := by
        intro s hs
        obtain ⟨ws, hws, hsub⟩ := hrest s hs
        exact ⟨ws, hws, hsub.trans (List.sublist_append_right _ _)⟩
      cases hspan : p.span? with
      | none =>
        rw [List.filterMap_cons_none hspan]
        exact ⟨hrest', hapart⟩
      | some s =>
        have hcovers := hp.covers hspan
        rw [List.filterMap_cons_some hspan]
        refine ⟨List.forall_mem_cons.2 ⟨⟨us, hcovers, List.sublist_append_left _ _⟩, hrest'⟩, ?_⟩
        refine List.pairwise_cons.2 ⟨fun t ht => ?_, hapart⟩
        obtain ⟨ws, hws, hsub⟩ := hrest t ht
        obtain ⟨a, ha, hstop⟩ := hcovers.last_mem
        obtain ⟨b, hb, hstart⟩ := hws.first_mem
        have hle := (List.pairwise_append.1 hrow.apart).2.2 a ha b (hsub.subset hb)
        omega

mutual

/-- Whatever occupies tokens in a row is well nested. -/
theorem Occupies.nested : ∀ {p : Layout} {ts : List (Located Token)}, p.Occupies ts → InRow ts → p.Nested
  | _, _, .own _, _ => .own _
  | _, _, .phrase (s := s) hs hps, hrow => by
    obtain ⟨hspans, hapart⟩ := hps.spans hrow
    refine .phrase (fun t ht => ?_) hapart (hps.nested hrow)
    obtain ⟨us, hcovers, hsub⟩ := hspans t ht
    obtain ⟨a, ha, hstart⟩ := hcovers.first_mem
    obtain ⟨b, hb, hstop⟩ := hcovers.last_mem
    have hrow' : InRow us := ⟨hrow.apart.sublist hsub, fun t ht => hrow.ordered t (hsub.subset ht)⟩
    have hordered := hrow'.ordered_of_covers hcovers
    have hlower := (hrow.within hs a (hsub.subset ha)).1
    have hupper := (hrow.within hs b (hsub.subset hb)).2
    omega

theorem Occupy.nested : ∀ {ps : List Layout} {ts : List (Located Token)}, Occupy ps ts → InRow ts →
    ∀ p ∈ ps, p.Nested
  | _, _, .nil, _ => by simp
  | _, _, .cons h hs, hrow =>
    List.forall_mem_cons.2 ⟨h.nested hrow.append_left, hs.nested hrow.append_right⟩

end

def token (t : Token) : Layout := own (· = [t])

def sign (s : Symbol) : Layout := token (.symbol s)

def word (w : Keyword) : Layout := token (.keyword w)

theorem Occupies.token_ne_nil {t : Token} (h : (token t).Occupies ts) : ts ≠ [] := by
  rintro rfl
  cases h with
  | own h => cases h

/-- A token that stands for something. -/
def reading {α : Type} (f : Token → Option α) (a : α) : Layout := own fun ts => ∃ t, ts = [t] ∧ f t = some a

def listed : List Layout → List Layout
  | [] => []
  | [p] => [p, own fun ts => ts = [] ∨ ts = [.symbol .comma]]
  | p :: q :: ps => p :: sign .comma :: listed (q :: ps)

def sequenced : List (List Layout) → List Layout
  | [] => []
  | [ps] => ps
  | ps :: qs :: rest => ps ++ sign .comma :: sequenced (qs :: rest)

def skipped : Layout := own fun _ => True

def scattered : List Layout → List Layout
  | [] => [skipped]
  | p :: ps => skipped :: p :: scattered ps

end Layout

open Layout

def Identifier.layout (id : Identifier) : Layout := .phrase id.span [token (.identifier id.name)]

def parameterLayouts (ps : List Identifier) : List Layout :=
  sign .leftParen :: (listed (ps.map Identifier.layout) ++ [sign .rightParen])

namespace Expr

mutual

def layout : Expr → Layout
  | identifier id => id.layout
  | literal value s => .phrase s [reading Token.literal? value]
  | binary op left right s => .phrase s [left.layout, sign (.binary op), right.layout]
  | unary op operand s => .phrase s [sign op.sign, operand.layout]
  | step op target s => .phrase s [sign op.sign, target.layout]
  | ternary condition resolution alternative s =>
    .phrase s [condition.layout, sign .question, resolution.layout, sign .colon, alternative.layout]
  | assign target op value s => .phrase s [target.layout, sign (.assign op), value.layout]
  | call callee arguments s =>
    .phrase s (callee.layout :: sign .leftParen :: (listed (layouts arguments) ++ [sign .rightParen]))
  | member object name s => .phrase s [object.layout, sign .dot, name.layout]
  | index object key s => .phrase s [object.layout, sign .leftBracket, key.layout, sign .rightBracket]
  | list items s => .phrase s (sign .leftBracket :: (listed (layouts items) ++ [sign .rightBracket]))
  | map entries s => .phrase s (sign .leftBrace :: (listed (entryLayouts entries) ++ [sign .rightBrace]))
  | lambda parameters body s =>
    .phrase s (word .lambda :: (parameterLayouts parameters ++ [sign .fatArrow, body.layout]))
  | input none s => .phrase s [word .input, sign .leftParen, sign .rightParen]
  | input (some prompt) s => .phrase s [word .input, sign .leftParen, prompt.layout, sign .rightParen]
  | nested inner s => .phrase s [sign .leftParen, inner.layout, sign .rightParen]

def layouts : List Expr → List Layout
  | [] => []
  | e :: es => e.layout :: layouts es

def entryLayouts : List (Entry Expr) → List Layout
  | [] => []
  | ⟨key, value, s⟩ :: es =>
    .phrase s [reading Token.name? key, sign .colon, value.layout] :: entryLayouts es

end

theorem layouts_eq (es : List Expr) : layouts es = es.map layout := by
  induction es with
  | nil => rfl
  | cons e es ih => exact congrArg (e.layout :: ·) ih

theorem layout_span? (e : Expr) : e.layout.span? = some e.span := by
  cases e with
  | input prompt => cases prompt <;> rfl
  | _ => rfl

def layoutOption (e : Option Expr) : List Layout := layouts e.toList

end Expr

def Entry.layout (e : Entry Expr) : Layout :=
  .phrase e.span [reading Token.name? e.key, sign .colon, e.value.layout]

theorem Expr.entryLayouts_eq (es : List (Entry Expr)) : entryLayouts es = es.map Entry.layout := by
  induction es with
  | nil => rfl
  | cons e es ih => exact congrArg (e.layout :: ·) ih

def Binding.layouts : Binding → List Layout
  | ⟨name, none⟩ => [name.layout]
  | ⟨name, some value⟩ => [name.layout, sign (.assign none), value.layout]

def Declaration.layout (d : Declaration) : Layout :=
  .phrase d.span (reading Token.declarationKind? d.kind ::
    (sequenced (d.bindings.map Binding.layouts) ++ [sign .semicolon]))

def Initializer.layouts : Option Initializer → List Layout
  | none => [sign .semicolon]
  | some (.declare d) => [d.layout]
  | some (.expression e s) => [.phrase s [e.layout, sign .semicolon]]

def LoopHeader.layouts (h : LoopHeader) : List Layout :=
  Initializer.layouts h.initializer ++ (Expr.layoutOption h.condition ++
    sign .semicolon :: Expr.layoutOption h.update)

def Expr.bracketedLayouts (e : Expr) : List Layout :=
  [sign .leftBracket, e.layout, sign .rightBracket]

mutual

def Stmt.layout : Stmt → Layout
  | .declare d => d.layout
  | .function f => f.layout
  | .class_ name none members s =>
    .phrase s (word .class_ :: name.layout :: sign .leftBrace ::
      (memberLayouts members ++ [sign .rightBrace]))
  | .class_ name (some parent) members s =>
    .phrase s (word .class_ :: name.layout :: word .extends_ :: parent.layout :: sign .leftBrace ::
      (memberLayouts members ++ [sign .rightBrace]))
  | .block b => b.layout
  | .conditional condition resolution none s =>
    .phrase s (word .if_ :: (condition.bracketedLayouts ++ [resolution.layout]))
  | .conditional condition resolution (some alternative) s =>
    .phrase s (word .if_ :: (condition.bracketedLayouts ++
      [resolution.layout, word .else_, alternative.layout]))
  | .whileLoop condition body s =>
    .phrase s (word .while_ :: (condition.bracketedLayouts ++ [body.layout]))
  | .forLoop header body s =>
    .phrase s (word .for_ :: sign .leftBracket :: (header.layouts ++ [sign .rightBracket, body.layout]))
  | .switch subject cases s =>
    .phrase s (word .switch :: (subject.bracketedLayouts ++
      sign .leftBrace :: (caseLayouts cases ++ [sign .rightBrace])))
  | .return_ value s => .phrase s (word .return_ :: (Expr.layoutOption value ++ [sign .semicolon]))
  | .break_ s => .phrase s [word .break_, sign .semicolon]
  | .continue_ s => .phrase s [word .continue_, sign .semicolon]
  | .throw value s => .phrase s [word .throw, value.layout, sign .semicolon]
  | .try_ body handler cleanup s =>
    .phrase s (word .try_ :: body.layout :: (handlerLayouts handler ++ cleanupLayouts cleanup))
  | .import_ target s => .phrase s [word .import_, reading Token.name? target, sign .semicolon]
  | .print values s =>
    .phrase s (word .print :: sign .leftParen ::
      (listed (Expr.layouts values) ++ [sign .rightParen, sign .semicolon]))
  | .pass s => .phrase s [word .pass, sign .semicolon]
  | .expression e s => .phrase s [e.layout, sign .semicolon]

def Block.layout : Block → Layout
  | .mk statements s =>
    .phrase s (sign .leftBrace :: (scattered (Stmt.layouts statements) ++ [sign .rightBrace]))

def FunctionDecl.layout : FunctionDecl → Layout
  | .mk name parameters body s =>
    .phrase s (word .func :: name.layout :: (parameterLayouts parameters ++ [body.layout]))

def Stmt.layouts : List Stmt → List Layout
  | [] => []
  | s :: ss => s.layout :: Stmt.layouts ss

def memberLayouts : List Member → List Layout
  | [] => []
  | .field d :: ms => d.layout :: memberLayouts ms
  | .method f :: ms => f.layout :: memberLayouts ms

def caseLayouts : List Case → List Layout
  | [] => []
  | .mk none body s :: cs =>
    .phrase s [word .default, sign .colon, body.layout] :: caseLayouts cs
  | .mk (some value) body s :: cs =>
    .phrase s [word .case, value.layout, sign .colon, body.layout] :: caseLayouts cs

def handlerLayouts : Option Handler → List Layout
  | none => []
  | some (.mk none body) => [word .catch_, body.layout]
  | some (.mk (some parameter) body) =>
    [word .catch_, sign .leftParen, parameter.layout, sign .rightParen, body.layout]

def cleanupLayouts : Option Block → List Layout
  | none => []
  | some body => [word .finally_, body.layout]

end

def Member.layout : Member → Layout
  | .field d => d.layout
  | .method f => f.layout

theorem memberLayouts_eq (ms : List Member) : memberLayouts ms = ms.map Member.layout := by
  induction ms with
  | nil => rfl
  | cons m ms ih => cases m <;> exact congrArg (_ :: ·) ih

def Case.layout : Case → Layout
  | .mk none body s => .phrase s [word .default, sign .colon, body.layout]
  | .mk (some value) body s => .phrase s [word .case, value.layout, sign .colon, body.layout]

theorem caseLayouts_eq (ks : List Case) : caseLayouts ks = ks.map Case.layout := by
  induction ks with
  | nil => rfl
  | cons k ks ih =>
    obtain ⟨value, body, s⟩ := k
    cases value <;> exact congrArg (_ :: ·) ih

theorem Block.layout_span? (b : Block) : b.layout.span? = some b.span := by
  cases b
  rfl

theorem Stmt.layout_span? (s : Stmt) : s.layout.span? = some s.span := by
  cases s with
  | class_ _ parent => cases parent <;> rfl
  | conditional _ _ alternative => cases alternative <;> rfl
  | block b => exact b.layout_span?
  | function f =>
    cases f
    rfl
  | _ => rfl

/-- A program ends with the end of the file. -/
def Program.layout (p : Program) : Layout :=
  .phrase p.span (scattered (Stmt.layouts p.statements) ++ [token .endOfFile])

end Scriptlet
