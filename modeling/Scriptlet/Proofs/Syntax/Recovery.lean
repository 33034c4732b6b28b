import Scriptlet.Proofs.Syntax.Progress
import Scriptlet.Proofs.Syntax.Running

/-! The rules of the grammar at a reader of a source: whatever the bounds on loops and nesting, they do the
same, and every round of every loop takes a token, also after an error. So all of the source is read, and
nothing that was noted on the way is lost. -/
namespace Scriptlet

open Rule

namespace Grammar

/-- With fewer than `n` tokens left both grammars read the same expressions, and the same statements with
one token less. -/
structure Agrees (source : String) (n : Nat) (g g' : Grammar) : Prop where
  limit : n ≤ g.limit
  limit' : n ≤ g'.limit
  expression : ∀ bound (r : Reader), r.left < n →
    AgreeAt source r (g.expression bound) (g'.expression bound) fun e r' => r.Takes source r.place r' e.span
  statement : ∀ r : Reader, r.left + 1 < n →
    AgreeAt source r g.statement g'.statement fun _ r' => r'.left < r.left

variable {source : String} {n : Nat} {g g' : Grammar} {r : Reader}

theorem parameterNames_agrees {limit : Nat} (earlier : List String) {n n' : Nat} (hn : limit ≤ n)
    (hn' : limit ≤ n') : Agree source limit (parameterNames earlier n) (parameterNames earlier n') := by
  intro r hr
  refine AgreeAt.loop (I := fun _ _ => True) (fun earlier n n' r _ hrest => .check ?_) earlier trivial
    (Nat.lt_of_lt_of_le hr hn) (Nat.lt_of_lt_of_le hr hn')
  split
  · exact .pure trivial
  · refine .current (identifier_agrees.bind fun name r₁ h₁ hname => ?_)
    split
    · exact .throw ⟨rfl, hname.within.inText⟩
    · refine (takeSign_agrees .comma).bind fun more r₂ h₂ _ => ?_
      have hlt : r₂.left < r.left := Nat.lt_of_le_of_lt h₂.left_le hname.left
      cases more with
      | true => exact (hrest _ r₂ trivial hlt).bind fun names _ _ _ => .pure trivial
      | false => exact .pure trivial

theorem parameters_agree {limit : Nat} (h : limit ≤ g.limit) (h' : limit ≤ g'.limit) :
    Agree source limit g.parameters g'.parameters :=
  (sign_agree _).bind fun _ => (parameterNames_agrees [] h h').bind fun names =>
    (sign_agree _).bind fun _ => .pure names

theorem Prefixed.expr_span (p : Prefixed) : p.expr.span = p.span := by
  unfold Prefixed.expr
  split <;> rfl

def ReadFrom (source : String) (r : Reader) (e : Expr) (r' : Reader) : Prop :=
  r.Takes source r.place r' e.span

namespace Agrees

variable (h : g.Agrees source n g')
include h

theorem expression_agree (bound : Precedence) :
    Agree source n (g.expression bound) (g'.expression bound) := .of_at (h.expression bound)

theorem expressions (close : Symbol) (hr : r.left < n) :
    AgreeAt source r (g.expressions close) (g'.expressions close)
      fun x r' => r.Takes source r.place r' x.2 := by
  have hitems := separated_agrees (h.expression_agree .lowest) close h.limit h.limit'
  refine (hitems r hr).bind fun es r₁ h₁ _ => (expectSign_agrees close).bind fun stop r₂ _ hstop => ?_
  exact .pure (.after h₁ hstop)

omit h in
theorem literal (hend : r.current.content.isEnd = false) :
    AgreeAt source r literal literal (ReadFrom source r) := by
  refine (take_agrees hend).bind fun token r₁ _ ht => ?_
  obtain ⟨-, htakes⟩ := ht
  split
  · exact .pure htakes
  · exact .throw ⟨rfl, htakes.within.inText⟩

theorem prefixed (hr : r.left ≤ n) (hend : r.current.content.isEnd = false) :
    AgreeAt source r (do return (← g.prefixed).expr) (do return (← g'.prefixed).expr)
      (ReadFrom source r) := by
  have hprefixed : AgreeAt source r g.prefixed g'.prefixed fun p r' =>
      r.Takes source r.place r' p.span := by
    refine (take_agrees hend).bind fun operator r₁ h₁ htake => ?_
    obtain ⟨-, htakes⟩ := htake
    have hlt : r₁.left < n := Nat.lt_of_lt_of_le htakes.left hr
    refine (h.expression _ r₁ hlt).bind fun operand r₂ _ hoperand => ?_
    dsimp only
    split
    · exact .throw ⟨rfl, hoperand.within.inText⟩
    · exact .pure (htakes.enclose (.refl h₁.placed) hoperand).2
  refine hprefixed.bind fun p r₁ _ hp => .pure ?_
  rw [ReadFrom, Prefixed.expr_span]
  exact hp

theorem nested (hr : r.left ≤ n) : AgreeAt source r g.nested g'.nested (ReadFrom source r) := by
  refine (expectSign_agrees _).bind fun start r₁ _ hstart => ?_
  have hlt : r₁.left < n := Nat.lt_of_lt_of_le hstart.left hr
  refine (h.expression _ r₁ hlt).bind fun inner r₂ h₂ _ => ?_
  refine (expectSign_agrees _).bind fun stop r₃ _ hstop => ?_
  exact .pure (hstart.enclose h₂ hstop).1

theorem list (hr : r.left ≤ n) : AgreeAt source r g.list g'.list (ReadFrom source r) := by
  refine (expectSign_agrees _).bind fun start r₁ h₁ hstart => ?_
  have hlt : r₁.left < n := Nat.lt_of_lt_of_le hstart.left hr
  refine (h.expressions _ hlt).bind fun (items, stop) r₂ _ hstop => ?_
  exact .pure (hstart.enclose (.refl h₁.placed) hstop).1

theorem entry : Agree source n g.entry g'.entry := by
  intro r hr
  refine take_any.bind fun key r₁ h₁ hkey => ?_
  split
  · refine (expectSign_agrees _).bind fun _ r₂ h₂ _ => ?_
    have hlt : r₂.left < n := Nat.lt_of_le_of_lt (h₁.trans h₂).left_le hr
    exact (h.expression _ r₂ hlt).bind fun value r₃ _ _ => .pure trivial
  · exact .throw ⟨rfl, hkey.1⟩

theorem map (hr : r.left ≤ n) : AgreeAt source r g.map g'.map (ReadFrom source r) := by
  refine (expectSign_agrees _).bind fun start r₁ _ hstart => ?_
  have hlt : r₁.left < n := Nat.lt_of_lt_of_le hstart.left hr
  refine (separated_agrees h.entry _ h.limit h.limit' r₁ hlt).bind fun entries r₂ h₂ _ => ?_
  refine (expectSign_agrees _).bind fun stop r₃ _ hstop => ?_
  exact .pure (hstart.enclose h₂ hstop).1

theorem lambda (hr : r.left ≤ n) : AgreeAt source r g.lambda g'.lambda (ReadFrom source r) := by
  refine (expectWord_agrees _).bind fun start r₁ _ hstart => ?_
  have hlt : r₁.left < n := Nat.lt_of_lt_of_le hstart.left hr
  refine (parameters_agree h.limit h.limit' r₁ hlt).bind fun names r₂ h₂ _ => ?_
  refine (expectSign_agrees _).bind fun _ r₃ h₃ _ => ?_
  have hlt' : r₃.left < n := Nat.lt_of_le_of_lt (h₂.trans h₃).left_le hlt
  refine (h.expression _ r₃ hlt').bind fun body r₄ _ hbody => ?_
  exact .pure (hstart.enclose (h₂.trans h₃) hbody).1

theorem input (hr : r.left ≤ n) : AgreeAt source r g.input g'.input (ReadFrom source r) := by
  refine (expectWord_agrees _).bind fun start r₁ _ hstart => ?_
  have hlt : r₁.left < n := Nat.lt_of_lt_of_le hstart.left hr
  refine (expectSign_agrees _).bind fun _ r₂ h₂ _ => ?_
  have hlt' : r₂.left < n := Nat.lt_of_le_of_lt h₂.left_le hlt
  refine .check ?_
  have hstop {r₃ : Reader} (prompt : Option Expr) (h₃ : r₂.Leads source r₃) :
      AgreeAt source r₃ (do return .input prompt (start.merge (← expectSign .rightParen)))
        (do return .input prompt (start.merge (← expectSign .rightParen))) (ReadFrom source r) :=
    (expectSign_agrees _).bind fun stop r₄ _ hstop => .pure (hstart.enclose (h₂.trans h₃) hstop).1
  split
  · exact (Agree.pure none r₂ hlt').bind fun prompt r₃ h₃ _ => hstop prompt h₃
  · exact ((h.expression_agree .lowest).map r₂ hlt').bind fun prompt r₃ h₃ _ => hstop prompt h₃

theorem primary (hr : r.left ≤ n) : AgreeAt source r g.primary g'.primary (ReadFrom source r) := by
  refine .current ?_
  split
  · exact identifier_agrees.bind fun id r₁ _ hid => .pure hid
  iterate 7
    · next hcontent => exact literal (by rw [hcontent]; rfl)
  iterate 5
    · next hcontent => exact h.prefixed hr (by rw [hcontent]; rfl)
  · exact h.nested hr
  · exact h.list hr
  · exact h.map hr
  · exact h.input hr
  · exact h.lambda hr
  · exact failHere_agrees rfl
  · exact failHere_agrees rfl

section extensions

variable {lower : Nat} {left : Expr} (hleft : left.span.Within source.toList lower r.place)
include hleft

theorem assignment (hr : r.left ≤ n) (op : Option ComputeOp) (hend : r.current.content.isEnd = false) :
    AgreeAt source r (g.assignment op left) (g'.assignment op left)
      fun e r' => r.Takes source lower r' e.span := by
  cases left with
  | identifier target =>
    refine (take_agrees hend).bind fun _ r₁ h₁ ht => ?_
    have hlt : r₁.left < n := Nat.lt_of_lt_of_le ht.2.left hr
    refine (h.expression _ r₁ hlt).bind fun value r₂ _ hvalue => ?_
    exact .pure (Reader.Takes.merge hleft h₁ hvalue).1
  | _ => exact .current (.throw ⟨rfl, hleft.inText⟩)

theorem binary (hr : r.left ≤ n) (op : BinaryOp) (hend : r.current.content.isEnd = false) :
    AgreeAt source r (g.binary op left) (g'.binary op left)
      fun e r' => r.Takes source lower r' e.span := by
  refine (take_agrees hend).bind fun _ r₁ h₁ ht => ?_
  have hlt : r₁.left < n := Nat.lt_of_lt_of_le ht.2.left hr
  refine (h.expression _ r₁ hlt).bind fun right r₂ _ hright => ?_
  exact .pure (Reader.Takes.merge hleft h₁ hright).2

theorem ternary (hr : r.left ≤ n) : AgreeAt source r (g.ternary left) (g'.ternary left)
    fun e r' => r.Takes source lower r' e.span := by
  refine (expectSign_agrees _).bind fun _ r₁ h₁ hsign => ?_
  have hlt : r₁.left < n := Nat.lt_of_lt_of_le hsign.left hr
  refine (h.expression _ r₁ hlt).bind fun resolution r₂ h₂ _ => ?_
  refine (expectSign_agrees _).bind fun _ r₃ h₃ _ => ?_
  have hlt' : r₃.left < n := Nat.lt_of_le_of_lt (h₂.trans h₃).left_le hlt
  refine (h.expression _ r₃ hlt').bind fun alternative r₄ _ halternative => ?_
  exact .pure (Reader.Takes.merge hleft (h₁.trans (h₂.trans h₃)) halternative).1

theorem call (hr : r.left ≤ n) : AgreeAt source r (g.call left) (g'.call left)
    fun e r' => r.Takes source lower r' e.span := by
  refine (expectSign_agrees _).bind fun _ r₁ h₁ hsign => ?_
  have hlt : r₁.left < n := Nat.lt_of_lt_of_le hsign.left hr
  refine (h.expressions _ hlt).bind fun (arguments, stop) r₂ _ hstop => ?_
  exact .pure (Reader.Takes.merge hleft h₁ hstop).1

theorem index (hr : r.left ≤ n) : AgreeAt source r (g.index left) (g'.index left)
    fun e r' => r.Takes source lower r' e.span := by
  refine (expectSign_agrees _).bind fun _ r₁ h₁ hsign => ?_
  have hlt : r₁.left < n := Nat.lt_of_lt_of_le hsign.left hr
  refine (h.expression _ r₁ hlt).bind fun key r₂ h₂ _ => ?_
  refine (expectSign_agrees _).bind fun stop r₃ _ hstop => ?_
  exact .pure (Reader.Takes.merge hleft (h₁.trans h₂) hstop).1

omit h in
theorem member : AgreeAt source r (member left) (member left)
    fun e r' => r.Takes source lower r' e.span := by
  refine (expectSign_agrees _).bind fun _ r₁ h₁ _ => ?_
  refine identifier_agrees.attempt.bind fun name r₂ _ hname => ?_
  cases name with
  | error e => exact .throw ⟨rfl, (hname.2 e rfl).inText⟩
  | ok id => exact .pure (Reader.Takes.merge hleft h₁ (hname.1 id rfl)).1

end extensions

theorem extend (bound : Precedence) {limit limit' lower : Nat} {left : Expr}
    (hleft : left.span.Within source.toList lower r.place) (hr : r.left ≤ n) (hlimit : r.left < limit)
    (hlimit' : r.left < limit') :
    AgreeAt source r (g.extend bound limit left) (g'.extend bound limit' left)
      fun e r' => e.span.Within source.toList lower r'.place := by
  refine AgreeAt.loop (f := fun left limit => g.extend bound limit left)
    (g := fun left limit => g'.extend bound limit left)
    (I := fun left r => left.span.Within source.toList lower r.place ∧ r.left ≤ n)
    (fun left limit limit' r ⟨hleft, hr⟩ hrest => ?_) left ⟨hleft, hr⟩ hlimit hlimit'
  have hround {rule rule' : Rule Expr}
      (hrule : AgreeAt source r rule rule' fun e r' => r.Takes source lower r' e.span) :
      AgreeAt source r (rule >>= g.extend bound limit) (rule' >>= g'.extend bound limit')
        fun e r' => e.span.Within source.toList lower r'.place := by
    refine hrule.bind fun e r₁ _ he => hrest e r₁ ⟨he.within, ?_⟩ he.left
    exact Nat.le_trans (Nat.le_of_lt he.left) hr
  refine .current ?_
  split
  · split
    · next hcontent => exact hround (h.assignment hleft hr _ (by rw [hcontent]; rfl))
    · next hcontent => exact hround (h.binary hleft hr _ (by rw [hcontent]; rfl))
    · exact hround (h.ternary hleft hr)
    · exact hround (h.call hleft hr)
    · exact hround (h.index hleft hr)
    · exact hround (member hleft)
    · exact .pure hleft
  · exact .pure hleft

theorem expressionRule (bound : Precedence) (hr : r.left ≤ n) :
    AgreeAt source r (g.expressionRule bound) (g'.expressionRule bound) (ReadFrom source r) := by
  refine (h.primary hr).bind fun left r₁ _ hleft => ?_
  have hlt := hleft.left
  have hlimit := h.limit
  have hlimit' := h.limit'
  refine (h.extend bound hleft.within (by omega) (by omega) (by omega)).mono fun e r₂ h₂ he => ?_
  exact ⟨Nat.lt_of_le_of_lt h₂.left_le hlt, he⟩

end Agrees

theorem synchronize_agrees {n n' : Nat} (hn : r.left < n) (hn' : r.left < n') :
    AgreeAt source r (synchronize n) (synchronize n') fun _ _ => True := by
  have hloop : Agree source (r.left + 1) (synchronize n) (synchronize n') := by
    refine .loop (fun n n' r _ hrest => .get ?_) hn hn'
    dsimp only
    split
    · exact .pure trivial
    · next hsettled =>
      have hend : r.current.content.isEnd = false := by
        cases hend : r.current.content.isEnd with
        | false => rfl
        | true => simp [hend] at hsettled
      exact (take_agrees hend).bind fun _ r₁ _ ht => hrest r₁ ht.2.left
  exact hloop r (Nat.lt_succ_self _)

theorem report_agrees {e : ParseError} (he : ParseError.Placed source e) :
    AgreeAt source r (report e) (report e) fun _ r' => r'.left = r.left := by
  intro hr
  cases hrecovering : r.recovering with
  | true =>
    rw [report_of_recovering e hrecovering]
    exact ⟨rfl, .refl hr, rfl⟩
  | false =>
    rw [report_of_calm e hrecovering]
    refine ⟨rfl, ⟨?_, List.suffix_refl _, fun _ => Nat.le_refl _⟩, rfl⟩
    obtain ⟨passed, hlex, hcomments, herrors⟩ := hr.seen
    refine { hr with seen := ⟨passed, hlex, hcomments, ?_⟩, noted := ?_ }
    · rw [← herrors]
      simp [Reader.errors, he.syntactic]
    · exact List.forall_mem_cons.2 ⟨he.inText, hr.noted⟩

theorem calm_agrees : AgreeAt source r (modify fun r => { r with recovering := false } : Rule Unit)
    (modify fun r => { r with recovering := false }) fun _ r' => r'.current = r.current :=
  fun hr => ⟨rfl, ⟨{ hr with }, List.suffix_refl _, fun _ => Nat.le_refl _⟩, rfl⟩

/-- Where a statement failed without taking a token, the token that it starts with is taken now. -/
theorem recover_agrees {start : Reader} {e : ParseError} (he : ParseError.Placed source e)
    (hend : start.current.content.isEnd = false) (hstart : start.Leads source r)
    (hlimit : r.left < g.limit) (hlimit' : r.left < g'.limit) :
    AgreeAt source r (g.recover start.current.span e) (g'.recover start.current.span e)
      fun _ r' => r'.left < start.left := by
  refine (report_agrees he).bind fun _ r₁ h₁ hleft₁ => ?_
  refine (synchronize_agrees (by omega) (by omega)).bind fun _ r₂ h₂ _ => .get ?_
  have hleads := (hstart.trans h₁).trans h₂
  have hle := h₂.left_le
  split
  · next hsame =>
    have hend₂ : r₂.current.content.isEnd = false := by
      cases hend₂ : r₂.current.content.isEnd with
      | false => rfl
      | true => simp [hend₂] at hsame
    refine (take_agrees hend₂).bind fun _ r₃ h₃ ht => ?_
    have hlt := ht.2.left
    refine (synchronize_agrees (by omega) (by omega)).mono fun _ r₄ h₄ _ => ?_
    have hle₄ := h₄.left_le
    have hle₂ := hleads.left_le
    omega
  · next hmoved =>
    refine .pure ?_
    by_cases hlt : r₂.left < start.left
    · exact hlt
    · have hcurrent := hleads.current_eq hend (by omega)
      simp [hcurrent, hend] at hmoved

theorem statements_agrees (stop : Token → Bool) {n n' : Nat}
    (hstatement : ∀ r' : Reader, r'.left ≤ r.left →
      AgreeAt source r' g.statement g'.statement fun _ r'' => r''.left < r'.left)
    (hlimit : r.left < g.limit) (hlimit' : r.left < g'.limit) (hn : r.left < n) (hn' : r.left < n') :
    AgreeAt source r (g.statements stop n) (g'.statements stop n')
      fun _ r' => (stop r'.current.content || r'.current.content.isEnd) = true := by
  refine AgreeAt.loop (f := fun _ => g.statements stop) (g := fun _ => g'.statements stop)
    (I := fun _ r₀ => r₀.left ≤ r.left) (fun _ n n' r₀ hr hrest => .current ?_) () (Nat.le_refl _) hn hn'
  split
  · next hstop => exact .pure hstop
  · next hstop =>
    have hend : r₀.current.content.isEnd = false := by
      cases hend : r₀.current.content.isEnd with
      | false => rfl
      | true => simp [hend] at hstop
    refine calm_agrees.bind fun _ r₁ h₁ hcurrent => ?_
    have hle₁ := h₁.left_le
    refine (hstatement r₁ (by omega)).attempt.bind fun result r₂ h₂ hresult => ?_
    have hle₂ := h₂.left_le
    cases result with
    | ok s =>
      have hlt := hresult.1 s rfl
      exact (hrest () r₂ (by omega) (by omega)).bind fun ss r₃ _ hstop => .pure hstop
    | error e =>
      have hrecover : AgreeAt source r₂ (g.recover r₀.current.span e) (g'.recover r₀.current.span e)
          fun _ r' => r'.left < r₀.left :=
        recover_agrees (hresult.2 e rfl) hend (h₁.trans h₂) (by omega) (by omega)
      exact hrecover.bind fun _ r₃ _ hlt => hrest () r₃ (by omega) hlt

namespace Agrees

variable (h : g.Agrees source n g')
include h

theorem binding (kind : DeclarationKind) : Agree source n (g.binding kind) (g'.binding kind) := by
  refine identifier_agree.bind fun name => ?_
  refine Agree.bind (.of_at fun _ _ => takeSign_agrees _) fun found => ?_
  cases found with
  | true => exact (h.expression_agree .lowest).bind fun value => .pure _
  | false =>
    cases hconstant : kind.isConstant with
    | true => exact fun r _ => failHere_agrees rfl
    | false => exact .pure _

theorem bracketed : Agree source n g.bracketed g'.bracketed :=
  (sign_agree _).bind fun _ => (h.expression_agree .lowest).bind fun e => (sign_agree _).bind fun _ => .pure e

section phrases

variable (hr : r.left < n)
include hr

theorem expression_inside (bound : Precedence) :
    Agree source r.left (g.expression bound) (g'.expression bound) :=
  (h.expression_agree bound).mono (Nat.le_of_lt hr)

theorem bracketed_inside : Agree source r.left g.bracketed g'.bracketed :=
  h.bracketed.mono (Nat.le_of_lt hr)

theorem statement_inside : Agree source r.left g.statement g'.statement :=
  .of_at fun r' hr' => h.statement r' (by omega)

theorem declaration :
    AgreeAt source r g.declaration g'.declaration fun _ r' => r'.left < r.left := by
  refine take_any.bind fun word r₁ _ hword => ?_
  split
  · next kind hkind =>
    have htakes := hword.2 (not_end_of_some rfl hkind)
    have hbindings := (sequence_agrees (h.binding kind) h.limit h.limit').mono (Nat.le_of_lt hr)
    exact (hbindings.bind fun bindings => semicolon_agree.bind fun stop => .pure _).behind htakes.left
  · exact .throw ⟨rfl, hword.1⟩

theorem block : AgreeAt source r g.block g'.block fun _ r' => r'.left < r.left := by
  have hlimit := h.limit
  have hlimit' := h.limit'
  have hbody : Agree source r.left (g.statements (Token.isSymbol .rightBrace) g.limit)
      (g'.statements (Token.isSymbol .rightBrace) g'.limit) :=
    .of_at fun r' hr' => statements_agrees _ (fun r'' hr'' => h.statement r'' (by omega)) (by omega)
      (by omega) (by omega) (by omega)
  exact sign_opens _ fun start => hbody.bind fun body => (sign_agree _).bind fun stop => .pure _

theorem block_inside : Agree source r.left g.block g'.block :=
  .of_at fun _ hr' => h.block (Nat.lt_trans hr' hr)

theorem function : AgreeAt source r g.function g'.function fun _ r' => r'.left < r.left := by
  have hparameters : Agree source r.left g.parameters g'.parameters :=
    (parameters_agree h.limit h.limit').mono (Nat.le_of_lt hr)
  exact word_opens _ fun start => identifier_agree.bind fun name => hparameters.bind fun names =>
    (h.block_inside hr).bind fun body => .pure _

theorem classMember : AgreeAt source r g.classMember g'.classMember fun _ r' => r'.left < r.left := by
  refine .current ?_
  split
  · exact (h.declaration hr).bind fun d r₁ _ hlt => .pure hlt
  · split
    · exact (h.function hr).bind fun f r₁ _ hlt => .pure hlt
    · exact failExpecting_agrees _

theorem class_ : AgreeAt source r g.class_ g'.class_ fun _ r' => r'.left < r.left := by
  have hmembers : Agree source r.left (repeated g.classMember .rightBrace g.limit)
      (repeated g'.classMember .rightBrace g'.limit) :=
    repeated_agrees (fun r' hr' => h.classMember (Nat.lt_trans hr' hr)) _
      (Nat.le_trans (Nat.le_of_lt hr) h.limit) (Nat.le_trans (Nat.le_of_lt hr) h.limit')
  exact word_opens _ fun start => identifier_agree.bind fun name => optional_agree identifier_agree
    fun parent => (sign_agree _).bind fun _ => hmembers.bind fun members =>
      (sign_agree _).bind fun stop => .pure _

theorem conditional : AgreeAt source r g.conditional g'.conditional fun _ r' => r'.left < r.left := by
  refine word_opens _ fun start => (h.bracketed_inside hr).bind fun condition =>
    (h.statement_inside hr).bind fun resolution =>
      Agree.bind (.of_at fun _ _ => takeWord_agrees _) fun found => ?_
  cases found with
  | true => exact (h.statement_inside hr).bind fun alternative => .pure _
  | false => exact .pure _

theorem whileLoop : AgreeAt source r g.whileLoop g'.whileLoop fun _ r' => r'.left < r.left := by
  exact word_opens _ fun start => (h.bracketed_inside hr).bind fun condition =>
    (h.statement_inside hr).bind fun body => .pure _

theorem expressionStatement :
    AgreeAt source r g.expressionStatement g'.expressionStatement fun _ r' => r'.left < r.left := by
  refine (h.expression .lowest r hr).bind fun e r₁ h₁ _ => semicolon_agrees.bind fun stop r₂ _ hstop => ?_
  exact .pure (Nat.lt_of_lt_of_le hstop.left h₁.left_le)

theorem initializer : Agree source r.left g.initializer g'.initializer := by
  intro r' hr'
  have hlt := Nat.lt_trans hr' hr
  refine .current ?_
  split
  · exact take_any.bind fun _ r₁ _ _ => .pure trivial
  · split
    · exact (h.declaration hlt).bind fun d r₁ _ _ => .pure trivial
    · exact (h.expressionStatement hlt).bind fun x r₁ _ _ => .pure trivial

/-- An expression that stands there unless a test finds what would follow it. -/
theorem maybe {α : Type} {test : Bool} {next next' : Option Expr → Rule α}
    (hn : ∀ p, Agree source r.left (next p) (next' p)) :
    Agree source r.left
      (if test = true then pure none >>= next else some <$> g.anyExpression >>= next)
      (if test = true then pure none >>= next' else some <$> g'.anyExpression >>= next') := by
  cases test with
  | true => exact (Agree.pure none).bind hn
  | false => exact (h.expression_inside hr .lowest).map.bind hn

theorem forLoop : AgreeAt source r g.forLoop g'.forLoop fun _ r' => r'.left < r.left := by
  exact word_opens _ fun start => (sign_agree _).bind fun _ => (h.initializer hr).bind fun first =>
    .check fun _ => h.maybe hr fun condition => semicolon_agree.bind fun _ =>
      .check fun _ => h.maybe hr fun update => (sign_agree _).bind fun _ =>
        (h.statement_inside hr).bind fun body => .pure _

theorem caseValue : AgreeAt source r g.caseValue g'.caseValue fun _ r' => r'.left < r.left := by
  refine (takeWord_agrees _).bind fun found r₁ h₁ hfound => ?_
  cases found with
  | true => exact (h.expression_inside hr .lowest).map.behind (hfound rfl)
  | false =>
    refine (takeWord_agrees _).bind fun found r₂ _ hfound => ?_
    cases found with
    | true => exact .pure (Nat.lt_of_lt_of_le (hfound rfl) h₁.left_le)
    | false => exact failExpecting_agrees _

theorem case : AgreeAt source r g.case g'.case fun _ r' => r'.left < r.left := by
  refine .current ((h.caseValue hr).bind fun value r₁ _ hlt => Agree.behind ?_ hlt)
  exact (sign_agree _).bind fun _ => (h.statement_inside hr).bind fun body => .pure _

theorem switch : AgreeAt source r g.switch g'.switch fun _ r' => r'.left < r.left := by
  have hcases : Agree source r.left (repeated g.case .rightBrace g.limit)
      (repeated g'.case .rightBrace g'.limit) :=
    repeated_agrees (fun r' hr' => h.case (Nat.lt_trans hr' hr)) _
      (Nat.le_trans (Nat.le_of_lt hr) h.limit) (Nat.le_trans (Nat.le_of_lt hr) h.limit')
  exact word_opens _ fun start => (h.bracketed_inside hr).bind fun subject =>
    (sign_agree _).bind fun _ => hcases.bind fun cases => (sign_agree _).bind fun stop => .pure _

theorem return_ : AgreeAt source r g.return_ g'.return_ fun _ r' => r'.left < r.left := by
  exact word_opens _ fun start => .check fun _ => h.maybe hr fun value =>
    semicolon_agree.bind fun stop => .pure _

omit h hr in
theorem single (word : Keyword) (make : Span → Stmt) :
    AgreeAt source r (single word make) (single word make) fun _ r' => r'.left < r.left := by
  exact word_opens _ fun start => semicolon_agree.bind fun stop => .pure _

theorem throw_ : AgreeAt source r g.throw_ g'.throw_ fun _ r' => r'.left < r.left := by
  exact word_opens _ fun start => (h.expression_inside hr .lowest).bind fun value =>
    semicolon_agree.bind fun stop => .pure _

theorem handler : Agree source r.left g.handler g'.handler := by
  refine Agree.bind (.of_at fun _ _ => takeSign_agrees _) fun named => ?_
  cases named with
  | true =>
    exact identifier_agree.bind fun name => (sign_agree _).bind fun _ => (Agree.pure _).bind fun parameter =>
      (h.block_inside hr).bind fun body => .pure _
  | false => exact (Agree.pure _).bind fun parameter => (h.block_inside hr).bind fun body => .pure _

theorem try_ : AgreeAt source r g.try_ g'.try_ fun _ r' => r'.left < r.left := by
  refine word_opens _ fun start => (h.block_inside hr).bind fun body =>
    optional_agree (h.handler hr) fun caught => optional_agree (h.block_inside hr) fun cleanup => ?_
  dsimp only
  split
  · exact fun _ _ => failHere_agrees rfl
  · exact .pure _
  · exact .pure _

omit h hr in
theorem import_ : AgreeAt source r import_ import_ fun _ r' => r'.left < r.left := by
  refine word_opens _ fun start => ?_
  intro r' hr'
  refine take_any.bind fun target r₁ h₁ htarget => ?_
  split
  · exact semicolon_agrees.bind fun stop r₂ _ _ => .pure trivial
  · exact .throw ⟨rfl, htarget.1⟩

theorem print : AgreeAt source r g.print g'.print fun _ r' => r'.left < r.left := by
  have hvalues : Agree source r.left (g.expressions .rightParen) (g'.expressions .rightParen) :=
    .of_at fun r' hr' => h.expressions _ (Nat.lt_trans hr' hr)
  exact word_opens _ fun start => (sign_agree _).bind fun _ => hvalues.bind fun values =>
    semicolon_agree.bind fun stop => .pure _

theorem statementRule :
    AgreeAt source r g.statementRule g'.statementRule fun _ r' => r'.left < r.left := by
  refine .current ?_
  split
  iterate 5
    · exact (h.declaration hr).bind fun d r₁ _ hlt => .pure hlt
  · exact (h.function hr).bind fun f r₁ _ hlt => .pure hlt
  · exact h.class_ hr
  · exact (h.block hr).bind fun b r₁ _ hlt => .pure hlt
  · exact h.conditional hr
  · exact h.whileLoop hr
  · exact h.forLoop hr
  · exact h.switch hr
  · exact h.return_ hr
  · exact single _ _
  · exact single _ _
  · exact h.throw_ hr
  · exact h.try_ hr
  · exact import_
  · exact h.print hr
  · exact single _ _
  · exact (h.expressionStatement hr).bind fun x r₁ _ hlt => .pure hlt

end phrases

end Agrees

/-- Bounds that are over the number of tokens left are as good as any other such bounds. -/
theorem agrees_upTo {limit limit' depth depth' : Nat} (hlimit : n ≤ limit) (hlimit' : n ≤ limit')
    (hdepth : n ≤ depth) (hdepth' : n ≤ depth') :
    (upTo limit depth).Agrees source n (upTo limit' depth') := by
  induction n generalizing depth depth' with
  | zero =>
    exact ⟨hlimit, hlimit', fun _ r hr => absurd hr (Nat.not_lt_zero _),
      fun r hr => absurd hr (Nat.not_lt_zero _)⟩
  | succ n ih =>
    obtain ⟨depth, rfl⟩ := Nat.exists_eq_add_of_lt hdepth
    obtain ⟨depth', rfl⟩ := Nat.exists_eq_add_of_lt hdepth'
    have hinner : (upTo limit (n + depth)).Agrees source n (upTo limit' (n + depth')) :=
      ih (by omega) (by omega) (by omega) (by omega)
    refine ⟨hlimit, hlimit', fun bound r hr => ?_, fun r hr => ?_⟩
    · exact hinner.expressionRule bound (by omega)
    · exact hinner.statementRule (by omega)

def Succeeds {α : Type} (rule : Rule α) : Prop := ∀ r, ∃ a r', rule r = .ok a r'

theorem Succeeds.bind {α β : Type} {rule : Rule α} {next : α → Rule β} (h : Succeeds rule)
    (hn : ∀ a, Succeeds (next a)) : Succeeds (rule >>= next) := by
  intro r
  obtain ⟨a, r', hr⟩ := h r
  obtain ⟨b, r'', hr'⟩ := hn a r'
  refine ⟨b, r'', ?_⟩
  simp only [Bind.bind, EStateM.bind, hr, hr']

theorem attempt_succeeds {α : Type} (rule : Rule α) : Succeeds (attempt rule) := by
  intro r
  cases hr : rule r with
  | ok a r' => exact ⟨.ok a, r', by simp only [attempt, hr]⟩
  | error e r' => exact ⟨.error e, r', by simp only [attempt, hr]⟩

theorem synchronize_succeeds (n : Nat) : Succeeds (synchronize n) := by
  induction n with
  | zero => exact fun r => ⟨(), r, rfl⟩
  | succ n ih =>
    refine Succeeds.bind (fun r => ⟨r, r, rfl⟩) fun r => ?_
    dsimp only
    split
    · exact fun r => ⟨(), r, rfl⟩
    · exact Succeeds.bind (fun r => ⟨r.current, r.shift, rfl⟩) fun _ => ih

theorem recover_succeeds (start : Span) (e : ParseError) : Succeeds (g.recover start e) := by
  refine Succeeds.bind (fun r => ⟨(), _, rfl⟩) fun _ => ?_
  refine (synchronize_succeeds _).bind fun _ => Succeeds.bind (fun r => ⟨r, r, rfl⟩) fun r => ?_
  split
  · exact Succeeds.bind (fun r => ⟨r.current, r.shift, rfl⟩) fun _ => synchronize_succeeds _
  · exact fun r => ⟨(), r, rfl⟩

theorem statements_succeeds (stop : Token → Bool) (n : Nat) : Succeeds (g.statements stop n) := by
  induction n with
  | zero => exact fun r => ⟨[], r, rfl⟩
  | succ n ih =>
    refine Succeeds.bind (fun r => ⟨r.current, r, rfl⟩) fun here => ?_
    split
    · exact fun r => ⟨[], r, rfl⟩
    · refine Succeeds.bind (fun r => ⟨(), _, rfl⟩) fun _ => (attempt_succeeds _).bind fun result => ?_
      cases result with
      | ok s => exact ih.bind fun ss r => ⟨s :: ss, r, rfl⟩
      | error e => exact (recover_succeeds _ e).bind fun _ => ih

/-- All statements of a source are read, up to the end of the file, whatever the bounds. -/
theorem statements_read (source : String) : ∃ ss after, (Reader.start (scan source)).Leads source after ∧
    after.current.content.isEnd = true ∧
    ∀ limit depth, (Reader.start (scan source)).remaining ≤ limit →
      (Reader.start (scan source)).remaining ≤ depth →
      (upTo limit depth).statements Token.isEnd limit (Reader.start (scan source)) = .ok ss after := by
  let first := Reader.start (scan source)
  have hplaced : first.Placed source := Reader.start_placed source
  have hleft := hplaced.toPrimed.left_lt_remaining
  have hagree {limit depth : Nat} (hlimit : first.remaining ≤ limit) (hdepth : first.remaining ≤ depth) :
      AgreeAt source first ((upTo first.remaining first.remaining).statements Token.isEnd first.remaining)
        ((upTo limit depth).statements Token.isEnd limit)
        fun _ r' => (r'.current.content.isEnd || r'.current.content.isEnd) = true := by
    have hgrammars : (upTo first.remaining first.remaining).Agrees source (first.left + 2)
        (upTo limit depth) := agrees_upTo (by omega) (by omega) (by omega) (by omega)
    refine statements_agrees Token.isEnd (fun r hr => hgrammars.statement r (by omega)) ?_ ?_ ?_ ?_
    · exact Nat.lt_of_succ_lt hleft
    · exact Nat.lt_of_lt_of_le (Nat.lt_of_succ_lt hleft) hlimit
    · exact Nat.lt_of_succ_lt hleft
    · exact Nat.lt_of_lt_of_le (Nat.lt_of_succ_lt hleft) hlimit
  obtain ⟨ss, after, hread⟩ :=
    statements_succeeds (g := upTo first.remaining first.remaining) Token.isEnd first.remaining first
  have hself := (hagree (Nat.le_refl _) (Nat.le_refl _) hplaced).2
  rw [hread] at hself
  refine ⟨ss, after, hself.1, by simpa using hself.2, fun limit depth hlimit hdepth => ?_⟩
  rw [(hagree hlimit hdepth hplaced).1, hread]

end Grammar

namespace Parsed

theorem ofItems_read {items : List Item} {ss : List Stmt} {after : Reader}
    (h : (Grammar.for_ (.start items)).statements Token.isEnd (Grammar.for_ (.start items)).limit
      (.start items) = .ok ss after) :
    (ofItems items).program.statements = ss ∧ (ofItems items).comments = after.comments ∧
      (ofItems items).errors = after.errors.mergeSort fun a b => a.span.start ≤ b.span.start := by
  unfold ofItems
  dsimp only
  rw [h]
  exact ⟨rfl, rfl, rfl⟩

end Parsed

/-- Sorting leaves elements that are in order already as they are among each other. -/
theorem filter_mergeSort {α : Type} {le : α → α → Bool} {p : α → Bool} {l : List α}
    (trans : ∀ a b c, le a b → le b c → le a c) (total : ∀ a b, le a b || le b a)
    (h : (l.filter p).Pairwise fun a b => le a b = true) : (l.mergeSort le).filter p = l.filter p := by
  have hsublist : (l.filter p).Sublist (l.mergeSort le) :=
    List.sublist_mergeSort trans total h List.filter_sublist
  have hfilter : (l.filter p).Sublist ((l.mergeSort le).filter p) := by
    simpa using hsublist.filter p
  have hperm : ((l.mergeSort le).filter p).Perm (l.filter p) := (List.mergeSort_perm l le).filter p
  exact (hfilter.eq_of_length hperm.length_eq.symm).symm

def ParseError.startsNoLater (a b : ParseError) : Bool := a.span.start ≤ b.span.start

theorem ParseError.startsNoLater_trans (a b c : ParseError) (hab : startsNoLater a b)
    (hbc : startsNoLater b c) : startsNoLater a c := by
  simp only [startsNoLater, decide_eq_true_eq] at *
  exact Nat.le_trans hab hbc

theorem ParseError.startsNoLater_total (a b : ParseError) : startsNoLater a b || startsNoLater b a := by
  simp only [startsNoLater, Bool.or_eq_true, decide_eq_true_eq]
  exact Nat.le_total _ _

end Scriptlet
