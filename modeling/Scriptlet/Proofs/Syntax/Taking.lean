import Scriptlet.Proofs.Syntax.View
import Scriptlet.Proofs.Syntax.Derivation

/-! What rules that succeed have taken. `TakesAt` says of a rule at a reader that, if no error was noted up
to its end, its result, the tokens it took and the tokens it left are related in a given way. The lemmas
here are about the simple rules and the ways in which rules are combined. -/
namespace Scriptlet
namespace Rule

variable {α β : Type}

/-- At a reader with fewer than `limit` tokens ahead, the rule passes over tokens, and if it succeeds
without an error being noted, its result and the tokens before and behind its end are related by `P`. -/
def TakesAt (limit : Nat) (r : Reader) (rule : Rule α) (P : α → List Token → List Token → Prop) : Prop :=
  r.Consistent → r.tokens.length < limit →
    match rule r with
    | .ok a r' => ∃ ts, r.Passes r' ts ∧ (r'.latestErrors = [] → P a ts r'.tokens)
    | .error _ r' => ∃ ts, r.Passes r' ts

def Takes (limit : Nat) (rule : Rule α) (P : α → List Token → List Token → Prop) : Prop :=
  ∀ r, TakesAt limit r rule P

variable {limit : Nat} {r : Reader} {rule : Rule α} {P Q : α → List Token → List Token → Prop}

theorem TakesAt.mono (h : TakesAt limit r rule P) (hpq : ∀ a ts rest, P a ts rest → Q a ts rest) :
    TakesAt limit r rule Q := by
  intro hc hl
  have hr := h hc hl
  split at hr
  · next a r' he =>
    obtain ⟨ts, hp, hq⟩ := hr
    exact ⟨ts, hp, fun hf => hpq _ _ _ (hq hf)⟩
  · exact hr

theorem Takes.mono (h : Takes limit rule P) (hpq : ∀ a ts rest, P a ts rest → Q a ts rest) :
    Takes limit rule Q := fun r => (h r).mono hpq

/-- The tokens before and behind the end of a rule are fewer than the limit. -/
theorem TakesAt.short
    (h : TakesAt limit r rule fun a ts rest => (ts ++ rest).length < limit → P a ts rest) :
    TakesAt limit r rule P := by
  intro hc hl
  have hr := h hc hl
  split at hr
  · next a r' he =>
    obtain ⟨ts, hp, hq⟩ := hr
    refine ⟨ts, hp, fun hf => hq hf ?_⟩
    rw [← hp.tokens]
    exact hl
  · exact hr

/-- The tokens before and behind the end of a rule are those that were ahead of it. -/
theorem TakesAt.whole
    (h : TakesAt limit r rule fun a ts rest => ts ++ rest = r.tokens → P a ts rest) :
    TakesAt limit r rule P := by
  intro hc hl
  have hr := h hc hl
  split at hr
  · next a r' he =>
    obtain ⟨ts, hp, hq⟩ := hr
    exact ⟨ts, hp, fun hf => hq hf hp.tokens.symm⟩
  · exact hr

theorem TakesAt.pure {a : α} (h : P a [] r.tokens) : TakesAt limit r (pure a) P :=
  fun hc _ => ⟨[], hc.passes_self, fun _ => h⟩

theorem Takes.pure {a : α} (h : ∀ rest, P a [] rest) : Takes limit (pure a) P :=
  fun _ => .pure (h _)

theorem TakesAt.throw (e : ParseError) : TakesAt limit r (throw e) P :=
  fun hc _ => ⟨[], hc.passes_self⟩

theorem TakesAt.bind {next : α → Rule β} {S : β → List Token → List Token → Prop}
    (h : TakesAt limit r rule P)
    (hn : ∀ a, Takes limit (next a) fun b us rest => ∀ ts, P a ts (us ++ rest) → S b (ts ++ us) rest) :
    TakesAt limit r (rule >>= next) S := by
  intro hc hl
  have hr := h hc hl
  cases he : rule r with
  | error e r' =>
    rw [he] at hr
    simp only [Bind.bind, EStateM.bind, he]
    exact hr
  | ok a r' =>
    rw [he] at hr
    obtain ⟨ts, hp, hq⟩ := hr
    have hl' : r'.tokens.length < limit := by
      rw [hp.tokens, List.length_append] at hl
      omega
    have hr' := hn a r' hp.consistent hl'
    simp only [Bind.bind, EStateM.bind, he]
    split at hr'
    · next b r'' he' =>
      obtain ⟨us, hp', hq'⟩ := hr'
      refine ⟨ts ++ us, hp.trans hp', fun hf => hq' hf ts ?_⟩
      rw [← hp'.tokens]
      exact hq (hp'.unnoted hf)
    · next e r'' he' =>
      obtain ⟨us, hp'⟩ := hr'
      exact ⟨ts ++ us, hp.trans hp'⟩

theorem Takes.bind {next : α → Rule β} {S : β → List Token → List Token → Prop} (h : Takes limit rule P)
    (hn : ∀ a, Takes limit (next a) fun b us rest => ∀ ts, P a ts (us ++ rest) → S b (ts ++ us) rest) :
    Takes limit (rule >>= next) S := fun r => (h r).bind hn

theorem TakesAt.map {f : α → β} {S : β → List Token → List Token → Prop}
    (h : TakesAt limit r rule fun a ts rest => S (f a) ts rest) : TakesAt limit r (f <$> rule) S := by
  intro hc hl
  have hr := h hc hl
  cases he : rule r with
  | error e r' =>
    rw [he] at hr
    simp only [Functor.map, EStateM.map, he]
    exact hr
  | ok a r' =>
    rw [he] at hr
    simp only [Functor.map, EStateM.map, he]
    exact hr

theorem TakesAt.attempt (h : TakesAt limit r rule P) :
    TakesAt limit r (attempt rule) fun a ts rest => ∀ x, a = .ok x → P x ts rest := by
  intro hc hl
  have hr := h hc hl
  cases he : rule r with
  | error e r' =>
    rw [he] at hr
    obtain ⟨ts, hp⟩ := hr
    simp only [Rule.attempt, he]
    exact ⟨ts, hp, fun _ x hx => by cases hx⟩
  | ok a r' =>
    rw [he] at hr
    obtain ⟨ts, hp, hq⟩ := hr
    simp only [Rule.attempt, he]
    exact ⟨ts, hp, fun hf x hx => by cases hx; exact hq hf⟩

theorem TakesAt.current {next : Located Token → Rule α} (h : TakesAt limit r (next r.current) P) :
    TakesAt limit r (Rule.current >>= next) P := h

theorem TakesAt.get {next : Reader → Rule α} (h : TakesAt limit r (next r) P) :
    TakesAt limit r (MonadState.get >>= next) P := h

theorem TakesAt.check {test : Token → Bool} {next : Bool → Rule α}
    (h : TakesAt limit r (next (test r.current.content)) P) :
    TakesAt limit r (Rule.check test >>= next) P := h

theorem TakesAt.take : TakesAt limit r Rule.take fun t ts _ => t = r.current ∧ ts = r.tokens.take 1 :=
  fun hc _ => ⟨r.tokens.take 1, hc.passes_shift, fun _ => ⟨rfl, rfl⟩⟩

/-- Taking a token that is known not to be the end of the file. -/
theorem TakesAt.take_known {t : Token} (h : r.current.content = t) (ht : t.isEnd = false) :
    TakesAt limit r Rule.take fun x ts _ => x = r.current ∧ ts = [t] := by
  refine TakesAt.take.mono ?_
  rintro x ts rest ⟨hx, hts⟩
  rw [Reader.tokens_of_not_end (by rw [h, ht]), h] at hts
  exact ⟨hx, hts⟩

theorem Takes.take : Takes limit Rule.take fun t ts _ => t.content.isEnd = false → ts = [t.content] := by
  intro r
  refine TakesAt.take.mono ?_
  rintro t ts rest ⟨rfl, rfl⟩ hend
  rw [Reader.tokens_of_not_end hend]
  rfl

theorem Takes.check (test : Token → Bool) :
    Takes limit (Rule.check test) fun b ts rest => ts = [] ∧ b = test (rest.headD .endOfFile) := by
  intro r hc hl
  refine ⟨[], hc.passes_self, fun _ => ⟨rfl, ?_⟩⟩
  rw [r.tokens_headD]

theorem failHere_takes (cause : ParseCause) : Takes limit (failHere cause : Rule α) P :=
  fun _ => .current (.throw _)

theorem failExpecting_takes (expected : List String) :
    Takes limit (failExpecting expected : Rule α) P := by
  intro r
  refine .current ?_
  split
  · exact failHere_takes _ r
  · exact failHere_takes _ r

theorem isSymbol_iff {sign : Symbol} {t : Token} : t.isSymbol sign = true ↔ t = .symbol sign := by
  cases t <;> simp [Token.isSymbol]

theorem isKeyword_iff {word : Keyword} {t : Token} : t.isKeyword word = true ↔ t = .keyword word := by
  cases t <;> simp [Token.isKeyword]

theorem headD_ne {x : Token} {rest : List Token}
    (h : rest.headD .endOfFile ≠ x) : rest.head? ≠ some x := by
  cases rest with
  | nil => simp
  | cons t ts =>
    intro he
    cases he
    exact h rfl

/-- Taking the current token if it passes a test that only one token passes. -/
theorem takeIf_takes {test : Token → Bool} {x : Token} (hx : x.isEnd = false)
    (htest : ∀ t, test t = true ↔ t = x) :
    Takes limit (do
        if ← Rule.check test then
          let _ ← Rule.take
          return true
        else return false : Rule Bool)
      fun b ts rest => b = true ∧ ts = [x] ∨ b = false ∧ ts = [] ∧ rest.head? ≠ some x := by
  intro r
  refine .check ?_
  split
  · next h =>
    refine (TakesAt.take_known ((htest _).1 h) hx).bind fun t => .pure ?_
    rintro rest ts ⟨-, rfl⟩
    exact .inl ⟨rfl, rfl⟩
  · next h =>
    refine .pure (.inr ⟨rfl, rfl, headD_ne ?_⟩)
    rw [r.tokens_headD]
    exact fun hc => h ((htest _).2 hc)

theorem takeSign_takes (sign : Symbol) : Takes limit (takeSign sign) fun b ts rest =>
    b = true ∧ ts = [.symbol sign] ∨ b = false ∧ ts = [] ∧ rest.head? ≠ some (.symbol sign) :=
  takeIf_takes rfl fun _ => isSymbol_iff

theorem takeWord_takes (word : Keyword) : Takes limit (takeWord word) fun b ts rest =>
    b = true ∧ ts = [.keyword word] ∨ b = false ∧ ts = [] ∧ rest.head? ≠ some (.keyword word) :=
  takeIf_takes rfl fun _ => isKeyword_iff

theorem expectSign_takes (sign : Symbol) :
    Takes limit (expectSign sign) fun _ ts _ => ts = [.symbol sign] := by
  intro r
  refine .check ?_
  split
  · next h =>
    refine (TakesAt.take_known (isSymbol_iff.1 h) rfl).bind fun t => .pure ?_
    rintro rest ts ⟨-, rfl⟩
    rfl
  · exact failExpecting_takes _ r

theorem expectWord_takes (word : Keyword) :
    Takes limit (expectWord word) fun _ ts _ => ts = [.keyword word] := by
  intro r
  refine .check ?_
  split
  · next h =>
    refine (TakesAt.take_known (isKeyword_iff.1 h) rfl).bind fun t => .pure ?_
    rintro rest ts ⟨-, rfl⟩
    rfl
  · exact failExpecting_takes _ r

theorem semicolon_takes : Takes limit semicolon fun _ ts _ => ts = [.symbol .semicolon] := by
  intro r
  refine .check ?_
  split
  · next h =>
    refine (TakesAt.take_known (isSymbol_iff.1 h) rfl).bind fun t => .pure ?_
    rintro rest ts ⟨-, rfl⟩
    rfl
  · refine .get ?_
    split
    · exact .throw _
    · exact .throw _

theorem identifier_takes : Takes limit identifier fun id ts _ => id.Yields ts := by
  intro r
  refine .current ?_
  split
  · next name h =>
    refine (TakesAt.take_known h rfl).bind fun t => .pure ?_
    rintro rest ts ⟨-, rfl⟩
    rfl
  · exact failHere_takes _ r
  · exact failHere_takes _ r

/-- A token of a kind that the end of the file is not of. -/
theorem not_end_of_some {f : Token → Option α} (hf : f .endOfFile = none) {t : Token} {a : α}
    (h : f t = some a) : t.isEnd = false := by
  cases t with
  | endOfFile =>
    rw [hf] at h
    cases h
  | _ => rfl

/-- What stands behind a word, if the word stands there. -/
theorem optional_takes {word : Keyword} {item : Rule α} {Y : Option α → List Token → Prop}
    {next : Option α → Rule β} {S : β → List Token → List Token → Prop}
    (hsome : Takes limit item fun a ts _ => Y (some a) (.keyword word :: ts)) (hnone : Y none [])
    (hn : ∀ p, Takes limit (next p) fun b us rest => ∀ ts, Y p ts → S b (ts ++ us) rest) :
    Takes limit (takeWord word >>= fun found =>
      if found = true then some <$> item >>= next else Pure.pure none >>= next) S := by
  refine (takeWord_takes word).bind fun found => ?_
  cases found with
  | true =>
    have hitem : Takes limit (some <$> item) fun p ts _ => Y p (.keyword word :: ts) :=
      fun r => .map (hsome r)
    refine hitem.bind fun p => (hn p).mono ?_
    intro b us rest h ts hts cs hcs
    obtain ⟨-, rfl⟩ : true = true ∧ cs = [.keyword word] := by simpa using hcs
    exact h _ hts
  | false =>
    refine (Takes.pure (P := fun p ts _ => p = none ∧ ts = []) fun _ => ⟨rfl, rfl⟩).bind fun p =>
      (hn p).mono ?_
    rintro b us rest h _ ⟨rfl, rfl⟩ cs hcs
    obtain ⟨rfl, -⟩ : cs = [] ∧ _ := by simpa using hcs
    exact h [] hnone

variable {item : Rule α} {Y : α → List Token → Prop}

/-- A phrase, and behind a comma the rest of the row. -/
theorem row_takes {row : Rule (List α)} {R : List α → List Token → Prop} {n : Nat}
    (hitem : Takes limit item fun a ts _ => Y a ts)
    (hrow : Takes limit row fun as ts rest => (ts ++ rest).length < n → R as ts)
    (hlast : ∀ {a ts}, Y a ts → R [a] ts)
    (hmore : ∀ {a as ts us}, Y a ts → R as us → R (a :: as) (ts ++ .symbol .comma :: us)) :
    Takes limit (do
        let x ← item
        if ← takeSign .comma then return x :: (← row)
        else return [x]) fun as ts rest => (ts ++ rest).length < n + 1 → R as ts := by
  refine hitem.bind fun a => (takeSign_takes .comma).bind fun more => ?_
  cases more with
  | true =>
    refine hrow.bind fun as => .pure ?_
    rintro rest us hus cs hcs ts hts hlength
    obtain ⟨-, rfl⟩ : true = true ∧ cs = [.symbol .comma] := by simpa using hcs
    have hlength' : (us ++ ([] ++ rest)).length < n := by
      simp only [List.length_append, List.length_cons, List.length_nil] at hlength ⊢
      omega
    have h := hmore hts (hus hlength')
    simpa using h
  | false =>
    refine .pure ?_
    rintro rest cs hcs ts hts hlength
    obtain ⟨rfl, -⟩ : cs = [] ∧ _ := by simpa using hcs
    have h := hlast hts
    simpa using h

theorem separated_loop (hitem : Takes limit item fun a ts _ => Y a ts) (stop : Symbol) (n : Nat) :
    Takes limit (separated item stop n) fun as ts rest =>
      (ts ++ rest).length < n → Listed Y as ts := by
  induction n with
  | zero => exact .pure fun rest h => (Nat.not_lt_zero _ h).elim
  | succ n ih =>
    intro r
    refine .check ?_
    split
    · exact .pure fun _ => .nil
    · exact row_takes hitem ih .last .more r

theorem sequence_loop (hitem : Takes limit item fun a ts _ => Y a ts) (n : Nat) :
    Takes limit (sequence item n) fun as ts rest =>
      (ts ++ rest).length < n → Sequenced Y as ts := by
  induction n with
  | zero => exact .pure fun rest h => (Nat.not_lt_zero _ h).elim
  | succ n ih => exact row_takes hitem ih .last .more

theorem repeated_loop (hitem : Takes limit item fun a ts _ => ts ≠ [] ∧ Y a ts) (stop : Symbol)
    (n : Nat) :
    Takes limit (repeated item stop n) fun as ts rest =>
      (ts ++ rest).length < n → Joined Y as ts := by
  induction n with
  | zero => exact .pure fun rest h => (Nat.not_lt_zero _ h).elim
  | succ n ih =>
    intro r
    refine .check ?_
    split
    · exact .pure fun _ => .nil
    · refine (hitem r).bind fun a => ih.bind fun as => .pure ?_
      rintro rest us hus ts ⟨hne, hts⟩ hlength
      have hpos := List.length_pos_iff.2 hne
      have hlength' : (us ++ ([] ++ rest)).length < n := by
        simp only [List.length_append, List.length_nil] at hlength ⊢
        omega
      have h := Joined.cons hts (hus hlength')
      simpa using h

theorem separated_takes (hitem : Takes limit item fun a ts _ => Y a ts) (stop : Symbol) :
    Takes limit (separated item stop limit) fun as ts _ => Listed Y as ts :=
  fun r => (separated_loop hitem stop limit r).short

theorem sequence_takes (hitem : Takes limit item fun a ts _ => Y a ts) :
    Takes limit (sequence item limit) fun as ts _ => Sequenced Y as ts :=
  fun r => (sequence_loop hitem limit r).short

theorem repeated_takes (hitem : Takes limit item fun a ts _ => ts ≠ [] ∧ Y a ts) (stop : Symbol) :
    Takes limit (repeated item stop limit) fun as ts _ => Joined Y as ts :=
  fun r => (repeated_loop hitem stop limit r).short

end Rule
end Scriptlet
