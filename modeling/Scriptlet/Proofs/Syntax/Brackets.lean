import Scriptlet.Proofs.Syntax.Derivation

/-! Brackets. What is written with the tokens of a phrase closes every bracket that it opens. -/
namespace Scriptlet

/-- The brackets that are open behind a token, the innermost first, given those before it. -/
@[simp] def Token.nest (opened : List Symbol) : Token → List Symbol
  | symbol .leftParen => .leftParen :: opened
  | symbol .leftBracket => .leftBracket :: opened
  | symbol .leftBrace => .leftBrace :: opened
  | symbol .rightParen | symbol .rightBracket | symbol .rightBrace => opened.tail
  | _ => opened

/-- The brackets among the tokens that none of them closes, the innermost first. -/
def openBrackets (ts : List Token) : List Symbol := ts.foldl Token.nest []

def Balanced (ts : List Token) : Prop := ∀ opened, ts.foldl Token.nest opened = opened

theorem Token.nest_of_some {α : Type} {f : Token → Option α} (hf : ∀ s, f (.symbol s) = none) {t : Token}
    {a : α} (h : f t = some a) (opened : List Symbol) : t.nest opened = opened := by
  cases t with
  | symbol s =>
    rw [hf] at h
    cases h
  | _ => rfl

section Rows

variable {α : Type} {Y : α → List Token → Prop} {as : List α} {ts : List Token}

theorem Listed.balanced (h : Listed Y as ts) (hitem : ∀ a us, Y a us → us.length ≤ ts.length → Balanced us) :
    Balanced ts := by
  induction h with
  | nil => exact fun _ => rfl
  | last h => exact hitem _ _ h (Nat.le_refl _)
  | @more a as ts us h _ ih =>
    have hfirst := hitem a ts h (by simp)
    have hrest := ih fun b vs hb hle => hitem b vs hb (by grind)
    intro opened
    rw [List.foldl_append, hfirst]
    exact hrest opened

theorem Joined.balanced (h : Joined Y as ts) (hitem : ∀ a us, Y a us → us.length ≤ ts.length → Balanced us) :
    Balanced ts := by
  induction h with
  | nil => exact fun _ => rfl
  | @cons a as ts us h _ ih =>
    have hfirst := hitem a ts h (by simp)
    have hrest := ih fun b vs hb hle => hitem b vs hb (by grind)
    intro opened
    rw [List.foldl_append, hfirst, hrest]

theorem Maybe.balanced {a : Option α} (h : Maybe Y a ts)
    (hitem : ∀ a us, Y a us → us.length ≤ ts.length → Balanced us) : Balanced ts := by
  cases h with
  | none => exact fun _ => rfl
  | some h => exact hitem _ _ h (Nat.le_refl _)

end Rows

/-! Expressions. Phrases inside a phrase are shorter than it, and the induction is on the number of tokens. -/

theorem Identifier.Yields.balanced {id : Identifier} {ts : List Token} (h : id.Yields ts) : Balanced ts := by
  cases h
  exact fun _ => rfl

theorem Expr.Yields.balanced {e : Expr} {ts : List Token} (h : e.Yields ts) : Balanced ts := by
  induction hn : ts.length using Nat.strongRecOn generalizing e ts with
  | ind n ih =>
    subst hn
    replace ih : ∀ (e : Expr) (us : List Token), e.Yields us → us.length < ts.length → Balanced us :=
      fun e us he hlt => ih us.length hlt he rfl
    intro opened
    cases h with
    | identifier => rfl
    | literal s h => exact Token.nest_of_some (fun _ => rfl) h opened
    | binary op s hl hr =>
      have hl := ih _ _ hl (by simp)
      have hr := ih _ _ hr (by grind)
      simp [hl opened, hr opened]
    | unary op s he =>
      have he := ih _ _ he (by simp)
      cases op <;> simp [UnaryOp.sign, he opened]
    | step op id s => cases op <;> rfl
    | ternary s hc hr ha =>
      have hc := ih _ _ hc (by simp)
      have hr := ih _ _ hr (by grind)
      have ha := ih _ _ ha (by grind)
      simp [hc opened, hr opened, ha opened]
    | assign id op s he =>
      have he := ih _ _ he (by grind)
      simp [he opened]
    | call s hf hes =>
      have hf := ih _ _ hf (by simp)
      have hes := hes.balanced fun a us ha hle => ih a us ha (by grind)
      simp [hf opened, hes (.leftParen :: opened)]
    | member id s he =>
      have he := ih _ _ he (by simp)
      simp [he opened]
    | index s he hk =>
      have he := ih _ _ he (by simp)
      have hk := ih _ _ hk (by grind)
      simp [he opened, hk (.leftBracket :: opened)]
    | list s hes =>
      have hes := hes.balanced fun a us ha hle => ih a us ha (by grind)
      simp [hes (.leftBracket :: opened)]
    | map s hes =>
      have hes := hes.balanced fun a us ha hle => by
        cases ha with
        | @mk key t value vs s hk hv =>
          have hv := ih _ _ hv (by simp at hle ⊢; omega)
          intro opened
          rw [List.foldl_cons, Token.nest_of_some (fun _ => rfl) hk]
          exact hv opened
      simp [hes (.leftBrace :: opened)]
    | lambda s hps he =>
      have hps := hps.balanced fun _ _ hp _ => hp.balanced
      have he := ih _ _ he (by grind)
      simp [hps (.leftParen :: opened), he opened]
    | input s hp =>
      have hp := hp.balanced fun a us ha hle => ih a us ha (by grind)
      simp [hp (.leftParen :: opened)]
    | nested s he =>
      have he := ih _ _ he (by grind)
      simp [he (.leftParen :: opened)]

theorem Bracketed.balanced {e : Expr} {ts : List Token} (h : Bracketed e ts) : Balanced ts := by
  cases h with
  | mk he =>
    intro opened
    simp [he.balanced (.leftBracket :: opened)]

theorem Declaration.Yields.balanced {d : Declaration} {ts : List Token} (h : d.Yields ts) : Balanced ts := by
  cases h with
  | mk s hk hbs =>
    have hbs := hbs.listed.balanced fun b us hb _ => by
      cases hb with
      | plain => exact fun _ => rfl
      | value id he => exact he.balanced
    intro opened
    rw [List.foldl_cons, Token.nest_of_some (fun _ => rfl) hk, List.foldl_append, hbs]
    rfl

theorem LoopHeader.Yields.balanced {h : LoopHeader} {ts : List Token} (hh : h.Yields ts) : Balanced ts := by
  cases hh with
  | @mk i c u ts us vs hi hc hu =>
    have hc := hc.balanced fun _ _ he _ => he.balanced
    have hu := hu.balanced fun _ _ he _ => he.balanced
    have hi : Balanced ts := by
      cases hi with
      | none => exact fun _ => rfl
      | declare hd => exact hd.balanced
      | expression s he =>
        intro opened
        simp [he.balanced opened]
    intro opened
    simp [hi opened, hc opened, hu opened]

section Bodies

variable {n : Nat} (ih : ∀ (s : Stmt) (us : List Token), s.Yields us → us.length < n → Balanced us)
include ih

theorem Block.Yields.balanced_of {b : Block} {ts : List Token} (h : b.Yields ts) (hlt : ts.length ≤ n) :
    Balanced ts := by
  cases h with
  | mk s hss =>
    have hss := hss.balanced fun x us hx hle => ih x us hx (by simp at hlt; omega)
    intro opened
    simp [hss (.leftBrace :: opened)]

theorem FunctionDecl.Yields.balanced_of {f : FunctionDecl} {ts : List Token} (h : f.Yields ts)
    (hlt : ts.length ≤ n) : Balanced ts := by
  cases h with
  | mk id s hps hb =>
    have hps := hps.balanced fun _ _ hp _ => hp.balanced
    have hb := hb.balanced_of ih (by simp at hlt; omega)
    intro opened
    simp [hps (.leftParen :: opened), hb opened]

theorem Member.Yields.balanced_of {m : Member} {ts : List Token} (h : m.Yields ts) (hlt : ts.length ≤ n) :
    Balanced ts := by
  cases h with
  | field hd => exact hd.balanced
  | method hf => exact hf.balanced_of ih hlt

theorem Case.Yields.balanced_of {k : Case} {ts : List Token} (h : k.Yields ts) (hlt : ts.length ≤ n) :
    Balanced ts := by
  cases h with
  | value s he hb =>
    have hb := ih _ _ hb (by simp at hlt; omega)
    intro opened
    simp [he.balanced opened, hb opened]
  | default s hb =>
    have hb := ih _ _ hb (by simp at hlt; omega)
    exact hb

theorem Handler.Yields.balanced_of {h : Handler} {ts : List Token} (hh : h.Yields ts)
    (hlt : ts.length ≤ n) : Balanced ts := by
  cases hh with
  | plain hb => exact hb.balanced_of ih (by simp at hlt; omega)
  | named id hb => exact hb.balanced_of ih (by simp at hlt; omega)

end Bodies

theorem Stmt.Yields.balanced {s : Stmt} {ts : List Token} (h : s.Yields ts) : Balanced ts := by
  induction hn : ts.length using Nat.strongRecOn generalizing s ts with
  | ind n ih =>
    subst hn
    replace ih : ∀ (s : Stmt) (us : List Token), s.Yields us → us.length < ts.length → Balanced us :=
      fun s us hs hlt => ih us.length hlt hs rfl
    intro opened
    cases h with
    | declare h => exact h.balanced opened
    | function h => exact h.balanced_of ih (Nat.le_refl _) opened
    | class_ id s hms | subclass id p s hms =>
      have hms := hms.balanced fun m us hm hle =>
        hm.balanced_of ih (by simp only [List.length_cons, List.length_append]; omega)
      simp [hms (.leftBrace :: opened)]
    | block h => exact h.balanced_of ih (Nat.le_refl _) opened
    | conditional s hc hr =>
      have hr := ih _ _ hr (by grind)
      simp [hc.balanced opened, hr opened]
    | alternative s hc hr ha =>
      have hr := ih _ _ hr (by grind)
      have ha := ih _ _ ha (by grind)
      simp [hc.balanced opened, hr opened, ha opened]
    | whileLoop s hc hb =>
      have hb := ih _ _ hb (by grind)
      simp [hc.balanced opened, hb opened]
    | forLoop s hh hb =>
      have hb := ih _ _ hb (by grind)
      simp [hh.balanced (.leftBracket :: opened), hb opened]
    | switch s he hks =>
      have hks := hks.balanced fun k us hk hle => hk.balanced_of ih (by grind)
      simp [he.balanced opened, hks (.leftBrace :: opened)]
    | return_ s he =>
      have he := he.balanced fun _ _ he _ => he.balanced
      simp [he opened]
    | break_ => rfl
    | continue_ => rfl
    | throw s he => simp [he.balanced opened]
    | try_ s hb hh hf =>
      have hb := hb.balanced_of ih (by grind)
      have hh := hh.balanced fun _ _ hk hle => hk.balanced_of ih (by grind)
      have hf := hf.balanced fun c us hc hle => by
        cases hc with
        | mk hb => exact hb.balanced_of ih (by simp at hle ⊢; omega)
      simp [hb opened, hh opened, hf opened]
    | import_ s h => exact Token.nest_of_some (fun _ => rfl) h opened
    | print s hes =>
      have hes := hes.balanced fun _ _ he _ => he.balanced
      simp [hes (.leftParen :: opened)]
    | pass => rfl
    | expression s he => simp [he.balanced opened]

/-- A program closes all brackets. -/
theorem Program.Yields.openBrackets_eq {p : Program} {ts : List Token} (h : p.Yields ts) :
    openBrackets ts = [] :=
  Joined.balanced h (fun _ _ hs _ => hs.balanced) []

end Scriptlet
