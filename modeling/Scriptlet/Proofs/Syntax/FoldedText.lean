import Scriptlet.Proofs.Marks
import Scriptlet.Proofs.Syntax.Numbers
import Scriptlet.Proofs.Syntax.RoundTrip
import Scriptlet.Proofs.Syntax.Spreading

/-! Folded programs written and read again. What is read is the folded program with its negative integers spread
out. -/
namespace Scriptlet

/-- Names that a source can spell, and literals that stand for a text. -/
def Mark.Spelled : Mark → Prop
  | name text => (Token.identifier text).Spelled
  | literal (.int v) => v ≠ Int64.minValue
  | literal (.float x) => ReadsBack x
  | _ => True

theorem Literal.printed_spread {value : Literal} (h : (Mark.literal value).Spelled) (span : Span) :
    (value.spread span).Printed := by
  cases value with
  | int v =>
    unfold spread
    dsimp only
    split
    · next hv =>
      obtain ⟨n, -, hn⟩ := neg_toInt hv.1 hv.2
      have hsize : (Token.int (-v)).Spelled := by
        show 0 ≤ (-v).toInt
        omega
      exact .nested span (.unary span (.literal span rfl hsize))
    · next hv =>
      have hsize : (Token.int v).Spelled := by
        show 0 ≤ v.toInt
        rw [← Int.not_lt]
        exact fun hneg => hv ⟨Int64.lt_iff_toInt_lt.2 hneg, h⟩
      exact .literal span rfl hsize
  | float x => exact .literal (t := .float x) span rfl h
  | string text => exact .literal (t := .string text) span rfl trivial
  | bool value =>
    cases value with
    | true => exact .literal (t := .keyword .true_) span rfl trivial
    | false => exact .literal (t := .keyword .false_) span rfl trivial
  | null => exact .literal (t := .keyword .null) span rfl trivial
  | undefined => exact .literal (t := .keyword .undefined) span rfl trivial

mutual

/-- Every expression with such names and literals is read back from its text, spread out. -/
theorem Expr.printed_spread : ∀ e : Expr, e.Within Mark.Spelled → e.spread.Printed
  | .identifier _, h => .identifier h.1
  | .literal _ s, h => Literal.printed_spread h.1 s
  | .binary _ l r s, h => .binary s (l.printed_spread h.2.1) (r.printed_spread h.2.2)
  | .unary _ e s, h => .unary s (e.printed_spread h.2)
  | .step _ _ s, h => .step s h.2.1
  | .ternary c r a s, h =>
    .ternary s (c.printed_spread h.2.1) (r.printed_spread h.2.2.1) (a.printed_spread h.2.2.2)
  | .assign _ _ e s, h => .assign s h.2.1.1 (e.printed_spread h.2.2)
  | .call f es s, h => .call s (f.printed_spread h.2.1) (Expr.printed_spreadList es h.2.2)
  | .member e _ s, h => .member s (e.printed_spread h.2.1) h.2.2.1
  | .index e k s, h => .index s (e.printed_spread h.2.1) (k.printed_spread h.2.2)
  | .list es s, h => .list s (Expr.printed_spreadList es h.2)
  | .map es s, h => .map s (Expr.printed_spreadEntries es h.2)
  | .lambda _ e s, h => .lambda s (fun p hp => (h.2.1 p hp).1) (e.printed_spread h.2.2)
  | .input none s, _ => .input s nofun
  | .input (some e) s, h => .input s (by simpa using e.printed_spread h.2)
  | .nested e s, h => .nested s (e.printed_spread h.2)

theorem Expr.printed_spreadList : ∀ es : List Expr, Expr.WithinList Mark.Spelled es →
    ∀ e ∈ Expr.spreadList es, e.Printed
  | [], _ => nofun
  | e :: es, h => List.forall_mem_cons.2 ⟨e.printed_spread h.1, Expr.printed_spreadList es h.2⟩

theorem Expr.printed_spreadEntries : ∀ es : List (Entry Expr), Expr.WithinEntries Mark.Spelled es →
    ∀ e ∈ Expr.spreadEntries es, e.value.Printed
  | [], _ => nofun
  | ⟨_, e, _⟩ :: es, h => List.forall_mem_cons.2 ⟨e.printed_spread h.2.1, Expr.printed_spreadEntries es h.2.2⟩

end

theorem Expr.printed_spreadOption {e : Option Expr} (h : ∀ x ∈ e, x.Within Mark.Spelled) :
    ∀ x ∈ e.map Expr.spread, x.Printed := by
  cases e with
  | none => nofun
  | some e => simpa using e.printed_spread (h e rfl)

theorem DeclarationKind.exists_token (kind : DeclarationKind) : ∃ t : Token, t.declarationKind? = some kind := by
  cases kind with
  | var => exact ⟨.keyword .var, rfl⟩
  | let_ => exact ⟨.keyword .let_, rfl⟩
  | pub => exact ⟨.keyword .pub, rfl⟩
  | const => exact ⟨.keyword .const, rfl⟩
  | net => exact ⟨.keyword .net, rfl⟩

theorem Declaration.rereads_spread {d : Declaration} (hne : d.bindings ≠ []) (h : d.Within Mark.Spelled) :
    Rereads Declaration.Yields Declaration.text d.spread := by
  obtain ⟨t, ht⟩ := d.kind.exists_token
  refine Declaration.rereads_mk d.span ht (by simpa [Declaration.spread] using hne) ?_
  rintro _ hb
  obtain ⟨b, hmem, rfl⟩ := List.mem_map.1 hb
  exact Binding.printed_mk (h.2 b hmem).1.1 (Expr.printed_spreadOption (h.2 b hmem).2)

theorem Declaration.Yields.bindings_fold {d : Declaration} {ts : List Token} (h : d.Yields ts) :
    d.fold.bindings ≠ [] := by
  cases h with
  | mk s hk hbs => simpa [Declaration.fold] using hbs.ne_nil

theorem LoopHeader.printed_spread {h : LoopHeader} {ts : List Token} (hy : h.Yields ts)
    (hw : h.fold.Within Mark.Spelled) : ∃ us, h.fold.spread.Yields us ∧ Prints h.fold.spread.text us := by
  refine LoopHeader.printed_mk ?_ (Expr.printed_spreadOption hw.2.1) (Expr.printed_spreadOption hw.2.2)
  cases hy with
  | mk hi hc hu =>
    cases hi with
    | none => exact ⟨_, .none, fun cs us hw => hw.sign (s := .semicolon) (by decide)⟩
    | declare hd =>
      obtain ⟨us, hy, hcloses⟩ := Declaration.rereads_spread hd.bindings_fold (hw.1 _ rfl)
      exact ⟨us, .declare hy, hcloses⟩
    | @expression e _ s he =>
      obtain ⟨us, he⟩ := e.fold.printed_spread (hw.1 _ rfl).2
      exact ⟨_, .expression s he.yields, closes_expression he⟩

mutual

/-- Every statement that was read is read back from its folded text, spread out. -/
theorem Stmt.rereads_spread : ∀ (x : Stmt) {ts : List Token}, x.Yields ts → x.fold.Within Mark.Spelled →
    Rereads Stmt.Yields Stmt.text x.fold.spread
  | .declare d, _, hy, hw => by
    cases hy with
    | declare hd =>
      obtain ⟨us, hy, hcloses⟩ := Declaration.rereads_spread hd.bindings_fold hw
      exact ⟨us, .declare hy, hcloses⟩
  | .function f, _, hy, hw => by
    cases hy with
    | function hf =>
      obtain ⟨us, hy, hcloses⟩ := f.rereads_spread hf hw
      exact ⟨us, .function hy, hcloses⟩
  | .class_ id p ms s, _, hy, hw => by
    have hp : ∀ x ∈ p, (Token.identifier x.name).Spelled := fun x hx => (hw.2.2.1 x hx).1
    cases hy with
    | class_ _ _ hms => exact Stmt.rereads_class s hw.2.1.1 hp (rereads_spreadMembers ms hms hw.2.2.2)
    | subclass _ _ _ hms => exact Stmt.rereads_class s hw.2.1.1 hp (rereads_spreadMembers ms hms hw.2.2.2)
  | .block b, _, hy, hw => by
    cases hy with
    | block hb =>
      obtain ⟨us, hy, hcloses⟩ := b.rereads_spread hb hw
      exact ⟨us, .block hy, hcloses⟩
  | .conditional c r none s, _, hy, hw => by
    cases hy with
    | conditional _ _ hr =>
      exact Stmt.rereads_conditional s (c.fold.printed_spread hw.2.1) (r.rereads_spread hr hw.2.2)
  | .conditional c r (some a) s, _, hy, hw => by
    cases hy with
    | alternative _ _ hr ha =>
      exact Stmt.rereads_alternative s (c.fold.printed_spread hw.2.1) (r.rereads_spread hr hw.2.2.1)
        (a.rereads_spread ha hw.2.2.2)
  | .whileLoop c b s, _, hy, hw => by
    cases hy with
    | whileLoop _ _ hb => exact Stmt.rereads_while s (c.fold.printed_spread hw.2.1) (b.rereads_spread hb hw.2.2)
  | .forLoop h b s, _, hy, hw => by
    cases hy with
    | forLoop _ hh hb =>
      exact Stmt.rereads_for s (LoopHeader.printed_spread hh hw.2.1) (b.rereads_spread hb hw.2.2)
  | .switch e ks s, _, hy, hw => by
    cases hy with
    | switch _ _ hks =>
      exact Stmt.rereads_switch s (e.fold.printed_spread hw.2.1) (rereads_spreadCases ks hks hw.2.2)
  | .return_ v s, _, _, hw => Stmt.rereads_return s (Expr.printed_spreadOption hw.2)
  | .break_ s, _, _, _ => ⟨_, .break_ s, Stmt.closes_command .break_⟩
  | .continue_ s, _, _, _ => ⟨_, .continue_ s, Stmt.closes_command .continue_⟩
  | .throw e s, _, _, hw => Stmt.rereads_throw s (e.fold.printed_spread hw.2)
  | .try_ b h f s, _, hy, hw => by
    cases hy with
    | try_ _ hb hh hf =>
      exact Stmt.rereads_try s (b.rereads_spread hb hw.2.1) (rereads_spreadHandler h hh hw.2.2.1)
        (rereads_spreadCleanup f hf hw.2.2.2)
  | .import_ target s, _, _, _ => Stmt.rereads_import target s
  | .print es s, _, _, hw => Stmt.rereads_print s (Expr.printed_spreadList _ hw.2)
  | .pass s, _, _, _ => ⟨_, .pass s, Stmt.closes_command .pass⟩
  | .expression e s, _, _, hw => Stmt.rereads_expression s (e.fold.printed_spread hw.2)

theorem Block.rereads_spread : ∀ (b : Block) {ts : List Token}, b.Yields ts → b.fold.Within Mark.Spelled →
    Rereads Block.Yields Block.text b.fold.spread
  | .mk ss s, _, hy, hw => by
    cases hy with
    | mk _ hss => exact Block.rereads_mk s (rereads_spreadStatements ss hss hw.2)

theorem FunctionDecl.rereads_spread : ∀ (f : FunctionDecl) {ts : List Token}, f.Yields ts →
    f.fold.Within Mark.Spelled → Rereads FunctionDecl.Yields FunctionDecl.text f.fold.spread
  | .mk id ps b s, _, hy, hw => by
    cases hy with
    | mk _ _ _ hb =>
      exact FunctionDecl.rereads_mk s hw.2.1.1 (fun p hp => (hw.2.2.1 p hp).1) (b.rereads_spread hb hw.2.2.2)

theorem rereads_spreadStatements : ∀ (ss : List Stmt) {ts : List Token}, Joined Stmt.Yields ss ts →
    Stmt.WithinList Mark.Spelled (Stmt.foldList ss) →
    ∀ x ∈ Stmt.spreadList (Stmt.foldList ss), Rereads Stmt.Yields Stmt.text x
  | [], _, _, _ => nofun
  | x :: ss, _, hy, hw => by
    cases hy with
    | cons hx hss =>
      exact List.forall_mem_cons.2 ⟨x.rereads_spread hx hw.1, rereads_spreadStatements ss hss hw.2⟩

theorem rereads_spreadMembers : ∀ (ms : List Member) {ts : List Token}, Joined Member.Yields ms ts →
    WithinMembers Mark.Spelled (foldMembers ms) →
    ∀ m ∈ spreadMembers (foldMembers ms), Rereads Member.Yields Member.text m
  | [], _, _, _ => nofun
  | .field d :: ms, _, hy, hw => by
    cases hy with
    | cons hd hms =>
      cases hd with
      | field hd =>
        obtain ⟨us, hy, hcloses⟩ := Declaration.rereads_spread hd.bindings_fold hw.1
        exact List.forall_mem_cons.2 ⟨⟨us, .field hy, hcloses⟩, rereads_spreadMembers ms hms hw.2⟩
  | .method f :: ms, _, hy, hw => by
    cases hy with
    | cons hf hms =>
      cases hf with
      | method hf =>
        obtain ⟨us, hy, hcloses⟩ := f.rereads_spread hf hw.1
        exact List.forall_mem_cons.2 ⟨⟨us, .method hy, hcloses⟩, rereads_spreadMembers ms hms hw.2⟩

theorem rereads_spreadCases : ∀ (ks : List Case) {ts : List Token}, Joined Case.Yields ks ts →
    WithinCases Mark.Spelled (foldCases ks) →
    ∀ k ∈ spreadCases (foldCases ks), Rereads Case.Yields Case.text k
  | [], _, _, _ => nofun
  | .mk (some e) b s :: ks, _, hy, hw => by
    cases hy with
    | cons hk hks =>
      cases hk with
      | value _ _ hb =>
        have hcase := Case.rereads_value s (e.fold.printed_spread (hw.2.1 _ rfl)) (b.rereads_spread hb hw.2.2.1)
        exact List.forall_mem_cons.2 ⟨hcase, rereads_spreadCases ks hks hw.2.2.2⟩
  | .mk none b s :: ks, _, hy, hw => by
    cases hy with
    | cons hk hks =>
      cases hk with
      | default _ hb =>
        have hcase := Case.rereads_default s (b.rereads_spread hb hw.2.2.1)
        exact List.forall_mem_cons.2 ⟨hcase, rereads_spreadCases ks hks hw.2.2.2⟩

theorem rereads_spreadHandler : ∀ (h : Option Handler) {ts : List Token}, Maybe Handler.Yields h ts →
    WithinHandler Mark.Spelled (foldHandler h) →
    Rereads (Maybe Handler.Yields) handlerText (spreadHandler (foldHandler h))
  | none, _, _, _ => ⟨[], .none, fun _ _ hw => hw⟩
  | some (.mk none b), _, hy, hw => by
    cases hy with
    | some hk =>
      cases hk with
      | plain hb => exact Handler.rereads_plain (b.rereads_spread hb hw.2)
  | some (.mk (some id) b), _, hy, hw => by
    cases hy with
    | some hk =>
      cases hk with
      | named _ hb => exact Handler.rereads_named (hw.1 id rfl).1 (b.rereads_spread hb hw.2)

theorem rereads_spreadCleanup : ∀ (f : Option Block) {ts : List Token}, Maybe Block.YieldsCleanup f ts →
    WithinCleanup Mark.Spelled (foldCleanup f) →
    Rereads (Maybe Block.YieldsCleanup) cleanupText (spreadCleanup (foldCleanup f))
  | none, _, _, _ => ⟨[], .none, fun _ _ hw => hw⟩
  | some b, _, hy, hw => by
    cases hy with
    | some hb =>
      cases hb with
      | mk hb => exact Block.rereads_cleanup (b.rereads_spread hb hw)

end

def Mark.Read : Mark → Prop
  | name text => (Token.identifier text).Readable
  | literal (.float x) => (Token.float x).Readable
  | _ => True

theorem Token.Readable.bears {t : Token} (h : t.Readable) : t.Bears Mark.Read where
  name := by
    rintro _ rfl
    exact h
  literal := by
    intro v hv
    cases t with
    | float x =>
      cases hv
      exact h
    | keyword k => cases k <;> cases hv <;> trivial
    | int n =>
      cases hv
      trivial
    | string text =>
      cases hv
      trivial
    | _ => cases hv

theorem parse_read {source : String} {p : Program} (h : parse source = .ok p) : p.fold.Within Mark.Read :=
  (parse_within ⟨fun _ => trivial, fun _ => trivial⟩ h fun t ht => (sourceTokens_readable t ht).1.bears).fold
    fun _ => trivial

/-- A folded program can be written if its numbers are finite and none of its integers is the smallest. -/
theorem parse_spelled {source : String} {p : Program} (h : parse source = .ok p)
    (hfinite : ∀ x, .literal (.float x) ∈ p.fold.marks → x.isFinite = true)
    (hmin : ∀ v, .literal (.int v) ∈ p.fold.marks → v ≠ Int64.minValue) : p.fold.Within Mark.Spelled := by
  have hread := p.fold.within_iff.1 (parse_read h)
  refine p.fold.within_iff.2 fun k hk => ?_
  cases k with
  | name text => exact hread _ hk
  | literal value =>
    cases value with
    | int v => exact hmin v hk
    | float x => exact Token.Readable.readsBack (hread _ hk) (hfinite x hk)
    | _ => trivial
  | _ => trivial

/-- The text of a folded program is read as the program with its negative integers spread out. -/
theorem folded_text_parses {source : String} {p : Program} (h : parse source = .ok p)
    (hspelled : p.fold.Within Mark.Spelled) :
    ∃ r, parse p.fold.text = .ok r ∧ r.bare = p.fold.spread.bare := by
  have htree : p.Canonical ∧ p.Yields (sourceTokens source) := by
    obtain ⟨he, rfl⟩ := parse_eq_ok_iff.1 h
    exact (Parsed.ofSource_sound he).2
  have hcanonical : p.fold.spread.Canonical := canonical_spreadStatements p.statements htree.1
  have hrereads : ∀ x ∈ p.fold.spread.statements, Rereads Stmt.Yields Stmt.text x :=
    rereads_spreadStatements p.statements htree.2 hspelled
  obtain ⟨ts, hts, hwritten⟩ := Program.written_of_rereads hrereads
  rw [Program.text_spread] at hwritten
  obtain ⟨hsound, htokens⟩ := hwritten.lexed
  rw [← htokens] at hts
  obtain ⟨herrors, hbare⟩ := Parsed.ofSource_complete hsound hcanonical hts
  exact ⟨_, parse_eq_ok_iff.2 ⟨herrors, rfl⟩, hbare⟩

end Scriptlet
