import Scriptlet.Proofs.Syntax.Bare
import Scriptlet.Proofs.Syntax.Taking

/-! What rules read when the tokens of a phrase stand ahead. `Reads` says of a rule and some tokens that,
wherever these stand ahead, the rule succeeds, takes just these tokens and yields a phrase with a given
property; nothing else happens to the reader. The lemmas are about the same simple rules and combinations as
those about what rules take. -/
namespace Scriptlet

/-- The tokens ahead are the given ones, fewer than `limit`. Whatever `Kept` says of the reader, it still
says when tokens have been taken. -/
structure Reader.Sees (limit : Nat) (Kept : Reader → Prop) (r : Reader) (ts : List Token) : Prop where
  lasting : ∀ r, Kept r → Kept r.shift
  kept : Kept r
  calm : r.recovering = false
  tokens : r.tokens = ts
  short : ts.length < limit

namespace Reader.Sees

variable {limit : Nat} {Kept : Reader → Prop} {r : Reader} {t : Token} {ts : List Token}

theorem current (h : r.Sees limit Kept ts) : r.current.content = ts.headD .endOfFile := by
  rw [← r.tokens_headD, h.tokens]

theorem shift (h : r.Sees limit Kept (t :: ts)) : r.shift.Sees limit Kept ts where
  lasting := h.lasting
  kept := h.lasting r h.kept
  calm := r.shift_recovering.trans h.calm
  tokens := (current_of_tokens h.tokens).2
  short := Nat.lt_of_succ_lt h.short

end Reader.Sees

namespace Rule

variable {α β : Type}

/-- Where `ts` and `rest` stand ahead, the rule takes `ts` and yields a result in `A`. -/
def Reads (limit : Nat) (rule : Rule α) (A : α → Prop) (ts rest : List Token) : Prop :=
  ∀ (Kept : Reader → Prop) (r : Reader), r.Sees limit Kept (ts ++ rest) →
    ∃ a r', rule r = .ok a r' ∧ A a ∧ r'.Sees limit Kept rest

variable {limit : Nat} {rule : Rule α} {A : α → Prop} {B : β → Prop} {ts us rest : List Token}

theorem Reads.mono {A' : α → Prop} (h : Reads limit rule A ts rest) (ha : ∀ a, A a → A' a) :
    Reads limit rule A' ts rest := by
  intro Kept r hr
  obtain ⟨a, r', he, hres, hr'⟩ := h Kept r hr
  exact ⟨a, r', he, ha a hres, hr'⟩

/-- The tokens ahead are fewer than the limit. -/
theorem Reads.short (h : (ts ++ rest).length < limit → Reads limit rule A ts rest) :
    Reads limit rule A ts rest := fun Kept r hr => h hr.short Kept r hr

theorem Reads.pure {a : α} (h : A a) : Reads limit (pure a) A [] rest :=
  fun _ r hr => ⟨a, r, rfl, h, hr⟩

theorem Reads.bind {next : α → Rule β} (h : Reads limit rule A ts (us ++ rest))
    (hn : ∀ a, A a → Reads limit (next a) B us rest) :
    Reads limit (rule >>= next) B (ts ++ us) rest := by
  intro Kept r hr
  rw [List.append_assoc] at hr
  obtain ⟨a, r', he, ha, hr'⟩ := h Kept r hr
  obtain ⟨b, r'', he', hb, hr''⟩ := hn a ha Kept r' hr'
  refine ⟨b, r'', ?_, hb, hr''⟩
  simp only [Bind.bind, EStateM.bind, he]
  exact he'

/-- A phrase with nothing of its own behind it. -/
theorem Reads.last {next : α → Rule β} (h : Reads limit rule A ts rest)
    (hn : ∀ a, A a → Reads limit (next a) B [] rest) : Reads limit (rule >>= next) B ts rest := by
  have hb := h.bind hn
  rwa [List.append_nil] at hb

theorem Reads.map {f : α → β} (h : Reads limit rule A ts rest) (hf : ∀ a, A a → B (f a)) :
    Reads limit (f <$> rule) B ts rest := by
  intro Kept r hr
  obtain ⟨a, r', he, ha, hr'⟩ := h Kept r hr
  refine ⟨f a, r', ?_, hf a ha, hr'⟩
  simp only [Functor.map, EStateM.map, he]

theorem Reads.attempt (h : Reads limit rule A ts rest) :
    Reads limit (attempt rule) (fun x => ∃ a, x = .ok a ∧ A a) ts rest := by
  intro Kept r hr
  obtain ⟨a, r', he, ha, hr'⟩ := h Kept r hr
  refine ⟨.ok a, r', ?_, ⟨a, rfl, ha⟩, hr'⟩
  simp only [Rule.attempt, he]

theorem Reads.current {next : Located Token → Rule β}
    (h : ∀ here, here.content = (ts ++ rest).headD .endOfFile → Reads limit (next here) B ts rest) :
    Reads limit (Rule.current >>= next) B ts rest :=
  fun Kept r hr => h r.current hr.current Kept r hr

theorem Reads.here {t : Token} {next : Located Token → Rule β}
    (h : ∀ span position, Reads limit (next ⟨t, span, position⟩) B (t :: ts) rest) :
    Reads limit (Rule.current >>= next) B (t :: ts) rest := by
  refine .current fun here hhere => ?_
  obtain ⟨content, span, position⟩ := here
  cases hhere
  exact h span position

theorem Reads.take {t : Token} {next : Located Token → Rule β}
    (h : ∀ here, here.content = t → Reads limit (next here) B ts rest) :
    Reads limit (Rule.take >>= next) B (t :: ts) rest :=
  fun Kept r hr => h r.current hr.current Kept r.shift hr.shift

/-- A test of the first token decides how to go on. -/
theorem Reads.check {test : Token → Bool} {next : Bool → Rule β}
    (h : Reads limit (next (test ((ts ++ rest).headD .endOfFile))) B ts rest) :
    Reads limit (Rule.check test >>= next) B ts rest := by
  intro Kept r hr
  rw [← hr.current] at h
  exact h Kept r hr

theorem Reads.found {test : Token → Bool} {yes no : Rule β}
    (ht : test ((ts ++ rest).headD .endOfFile) = true) (h : Reads limit yes B ts rest) :
    Reads limit (Rule.check test >>= fun b => if b = true then yes else no) B ts rest :=
  .check (by rwa [ht])

theorem Reads.missed {test : Token → Bool} {yes no : Rule β}
    (ht : test ((ts ++ rest).headD .endOfFile) = false) (h : Reads limit no B ts rest) :
    Reads limit (Rule.check test >>= fun b => if b = true then yes else no) B ts rest :=
  .check (by rwa [ht])

theorem test_headD {test : Token → Bool} {t : Token} (htest : ∀ u, test u = true ↔ u = t)
    (hend : test .endOfFile = false) (h : ts.head? ≠ some t) : test (ts.headD .endOfFile) = false := by
  cases ts with
  | nil => exact hend
  | cons u ts => exact Bool.eq_false_iff.2 fun hu => h (congrArg some ((htest u).1 hu))

theorem isSymbol_headD {sign : Symbol} (h : ts.head? ≠ some (.symbol sign)) :
    (ts.headD .endOfFile).isSymbol sign = false :=
  test_headD (fun _ => isSymbol_iff) rfl h

theorem isKeyword_headD {word : Keyword} (h : ts.head? ≠ some (.keyword word)) :
    (ts.headD .endOfFile).isKeyword word = false :=
  test_headD (fun _ => isKeyword_iff) rfl h

theorem Reads.isSign_found {sign : Symbol} {yes no : Rule β}
    (h : Reads limit yes B [] (.symbol sign :: rest)) :
    Reads limit (isSign sign >>= fun b => if b = true then yes else no) B [] (.symbol sign :: rest) :=
  h.found (isSymbol_iff.2 rfl)

theorem Reads.isSign_missed {sign : Symbol} {yes no : Rule β}
    (hhead : (ts ++ rest).head? ≠ some (.symbol sign)) (h : Reads limit no B ts rest) :
    Reads limit (isSign sign >>= fun b => if b = true then yes else no) B ts rest :=
  h.missed (isSymbol_headD hhead)

/-- The rule takes the first token if a test finds it, and goes on in one of two ways. -/
theorem Reads.takeIf_found {test : Token → Bool} {t : Token} {next : Bool → Rule β}
    (ht : test t = true) (h : Reads limit (next true) B ts rest) :
    Reads limit ((do
        if ← Rule.check test then
          let _ ← Rule.take
          return true
        else return false : Rule Bool) >>= next) B (t :: ts) rest := by
  have htake : Reads limit (do
      if ← Rule.check test then
        let _ ← Rule.take
        return true
      else return false : Rule Bool) (· = true) [t] (ts ++ rest) :=
    .found ht (.take fun _ _ => .pure rfl)
  refine htake.bind fun b hb => ?_
  rw [hb]
  exact h

theorem Reads.takeIf_missed {test : Token → Bool} {next : Bool → Rule β}
    (ht : test ((ts ++ rest).headD .endOfFile) = false) (h : Reads limit (next false) B ts rest) :
    Reads limit ((do
        if ← Rule.check test then
          let _ ← Rule.take
          return true
        else return false : Rule Bool) >>= next) B ts rest := by
  have htake : Reads limit (do
      if ← Rule.check test then
        let _ ← Rule.take
        return true
      else return false : Rule Bool) (· = false) [] (ts ++ rest) :=
    .missed ht (.pure rfl)
  refine htake.bind fun b hb => ?_
  rw [hb]
  exact h

theorem Reads.takeSign_found {sign : Symbol} {next : Bool → Rule β}
    (h : Reads limit (next true) B ts rest) :
    Reads limit (takeSign sign >>= next) B (.symbol sign :: ts) rest :=
  .takeIf_found (isSymbol_iff.2 rfl) h

theorem Reads.takeSign_missed {sign : Symbol} {next : Bool → Rule β}
    (hhead : (ts ++ rest).head? ≠ some (.symbol sign)) (h : Reads limit (next false) B ts rest) :
    Reads limit (takeSign sign >>= next) B ts rest :=
  .takeIf_missed (isSymbol_headD hhead) h

theorem Reads.takeWord_found {word : Keyword} {next : Bool → Rule β}
    (h : Reads limit (next true) B ts rest) :
    Reads limit (takeWord word >>= next) B (.keyword word :: ts) rest :=
  .takeIf_found (isKeyword_iff.2 rfl) h

theorem Reads.takeWord_missed {word : Keyword} {next : Bool → Rule β}
    (hhead : (ts ++ rest).head? ≠ some (.keyword word)) (h : Reads limit (next false) B ts rest) :
    Reads limit (takeWord word >>= next) B ts rest :=
  .takeIf_missed (isKeyword_headD hhead) h

theorem Reads.sign {sign : Symbol} {next : Span → Rule β}
    (h : ∀ s, Reads limit (next s) B ts rest) :
    Reads limit (expectSign sign >>= next) B (.symbol sign :: ts) rest := by
  have hsign : Reads limit (expectSign sign) (fun _ => True) [.symbol sign] (ts ++ rest) :=
    .found (isSymbol_iff.2 rfl) (.take fun _ _ => .pure trivial)
  exact hsign.bind fun s _ => h s

theorem Reads.word {word : Keyword} {next : Span → Rule β}
    (h : ∀ s, Reads limit (next s) B ts rest) :
    Reads limit (expectWord word >>= next) B (.keyword word :: ts) rest := by
  have hword : Reads limit (expectWord word) (fun _ => True) [.keyword word] (ts ++ rest) :=
    .found (isKeyword_iff.2 rfl) (.take fun _ _ => .pure trivial)
  exact hword.bind fun s _ => h s

theorem Reads.semicolon {next : Span → Rule β} (h : ∀ s, Reads limit (next s) B ts rest) :
    Reads limit (Rule.semicolon >>= next) B (.symbol .semicolon :: ts) rest := by
  have hsign : Reads limit Rule.semicolon (fun _ => True) [.symbol .semicolon] (ts ++ rest) :=
    .found (isSymbol_iff.2 rfl) (.take fun _ _ => .pure trivial)
  exact hsign.bind fun s _ => h s

theorem identifier_reads (id : Identifier) :
    Reads limit identifier (fun id' => id'.bare = id.bare) [.identifier id.name] rest := by
  refine .here fun span position => ?_
  exact .take fun _ _ => .pure (Identifier.bare_eq rfl)

/-- What stands behind a word, if the word stands there. -/
theorem Reads.optional {word : Keyword} {item : Rule α} {next : Option α → Rule β}
    {Y : α → List Token → Prop} {p : Option α} {P : Option α → Prop} (hy : Maybe Y p ts)
    (hsome : ∀ a, p = some a → Y a ts → ∃ vs, ts = .keyword word :: vs ∧
      Reads limit item (fun a' => P (some a')) vs (us ++ rest))
    (hnone : p = none → P none ∧ (us ++ rest).head? ≠ some (.keyword word))
    (hn : ∀ p', P p' → Reads limit (next p') B us rest) :
    Reads limit (takeWord word >>= fun found =>
      if found = true then some <$> item >>= next else Pure.pure none >>= next) B (ts ++ us) rest := by
  cases hy with
  | none =>
    obtain ⟨hp, hhead⟩ := hnone rfl
    exact .takeWord_missed hhead (hn none hp)
  | @some a _ hy =>
    obtain ⟨vs, rfl, hitem⟩ := hsome a rfl hy
    exact .takeWord_found ((hitem.map (B := P) fun a' ha' => ha').bind hn)

variable {γ : Type} {item : Rule α} {f : α → γ} {Y : α → List Token → Prop} {as : List α} {m : Nat}

theorem separated_reads {stop : Symbol} (hstop : stop ≠ .comma)
    (hitem : ∀ a us rest, a ∈ as → Y a us → us.length < m →
      rest.head? = some (.symbol .comma) ∨ rest.head? = some (.symbol stop) →
        Reads limit item (fun a' => f a' = f a) us rest)
    (hhead : ∀ a us, Y a us → ∃ t vs, us = t :: vs ∧ t ≠ .symbol stop)
    (h : Listed Y as ts) (hm : ts.length < m) (k : Nat) (hk : ts.length < k) :
    Reads limit (separated item stop k) (fun as' => as'.map f = as.map f) ts (.symbol stop :: rest) := by
  induction h generalizing k with
  | nil =>
    cases k with
    | zero => exact .pure rfl
    | succ k => exact .isSign_found (.pure rfl)
  | @last a us hy =>
    cases k with
    | zero => exact (Nat.not_lt_zero _ hk).elim
    | succ k =>
      obtain ⟨t, vs, rfl, ht⟩ := hhead a us hy
      refine .isSign_missed (fun he => ht (Option.some.inj he)) ?_
      refine (hitem a _ _ List.mem_cons_self hy hm (.inr rfl)).last fun a' ha' => ?_
      refine .takeSign_missed ?_ (.pure ?_)
      · intro he
        cases Option.some.inj he
        exact hstop rfl
      · rw [List.map_singleton, List.map_singleton, ha']
  | @more a as us vs hy hs ih =>
    cases k with
    | zero => exact (Nat.not_lt_zero _ hk).elim
    | succ k =>
      obtain ⟨t, ws, rfl, ht⟩ := hhead a us hy
      simp only [List.length_append, List.length_cons] at hm hk
      refine .isSign_missed (fun he => ht (Option.some.inj he)) ?_
      refine (hitem a _ _ List.mem_cons_self hy (by simp only [List.length_cons]; omega)
        (.inl rfl)).bind fun a' ha' => .takeSign_found ?_
      have hrest := ih (fun b us rest hb => hitem b us rest (List.mem_cons_of_mem a hb))
        (by omega) k (by omega)
      refine hrest.last fun as' has' => .pure ?_
      rw [List.map_cons, List.map_cons, ha', has']

theorem sequence_reads {stop : Symbol} (hstop : stop ≠ .comma)
    (hitem : ∀ a us rest, a ∈ as → Y a us → us.length < m →
      rest.head? = some (.symbol .comma) ∨ rest.head? = some (.symbol stop) →
        Reads limit item (fun a' => f a' = f a) us rest)
    (h : Sequenced Y as ts) (hm : ts.length < m) (k : Nat) (hk : ts.length < k) :
    Reads limit (sequence item k) (fun as' => as'.map f = as.map f) ts (.symbol stop :: rest) := by
  induction h generalizing k with
  | @last a us hy =>
    cases k with
    | zero => exact (Nat.not_lt_zero _ hk).elim
    | succ k =>
      refine (hitem a _ _ List.mem_cons_self hy hm (.inr rfl)).last fun a' ha' => ?_
      refine .takeSign_missed ?_ (.pure ?_)
      · intro he
        cases Option.some.inj he
        exact hstop rfl
      · rw [List.map_singleton, List.map_singleton, ha']
  | @more a as us vs hy hs ih =>
    cases k with
    | zero => exact (Nat.not_lt_zero _ hk).elim
    | succ k =>
      simp only [List.length_append, List.length_cons] at hm hk
      refine (hitem a _ _ List.mem_cons_self hy (by omega) (.inl rfl)).bind fun a' ha' =>
        .takeSign_found ?_
      have hrest := ih (fun b us rest hb => hitem b us rest (List.mem_cons_of_mem a hb))
        (by omega) k (by omega)
      refine hrest.last fun as' has' => .pure ?_
      rw [List.map_cons, List.map_cons, ha', has']

/-- Phrases one after another, where `F` says what may stand behind each. -/
theorem repeated_reads {stop : Symbol} {F : List Token → Prop}
    (hitem : ∀ a us rest, a ∈ as → Y a us → us.length < m → F rest →
      Reads limit item (fun a' => f a' = f a) us rest)
    (hhead : ∀ a us, Y a us → ∃ t vs, us = t :: vs ∧ t ≠ .symbol stop ∧ ∀ rest, F (t :: rest))
    (hstop : ∀ rest, F (.symbol stop :: rest))
    (h : Joined Y as ts) (hm : ts.length < m) (k : Nat) (hk : ts.length < k) :
    Reads limit (repeated item stop k) (fun as' => as'.map f = as.map f) ts (.symbol stop :: rest) := by
  induction h generalizing k with
  | nil =>
    cases k with
    | zero => exact .pure rfl
    | succ k => exact .isSign_found (.pure rfl)
  | @cons a as us vs hy hs ih =>
    cases k with
    | zero => exact (Nat.not_lt_zero _ hk).elim
    | succ k =>
      obtain ⟨t, ws, rfl, ht, -⟩ := hhead a us hy
      simp only [List.length_append, List.length_cons] at hm hk
      have hbehind : F (vs ++ .symbol stop :: rest) := by
        cases hs with
        | nil => exact hstop rest
        | @cons b bs us' vs' hb _ =>
          obtain ⟨t', ws', rfl, -, hF⟩ := hhead b us' hb
          exact hF _
      refine .isSign_missed (fun he => ht (Option.some.inj he)) ?_
      refine (hitem a _ _ List.mem_cons_self hy (by simp only [List.length_cons]; omega)
        hbehind).bind fun a' ha' => ?_
      have hrest := ih (fun b us rest hb => hitem b us rest (List.mem_cons_of_mem a hb))
        (by omega) k (by omega)
      refine hrest.last fun as' has' => .pure ?_
      rw [List.map_cons, List.map_cons, ha', has']

end Rule
end Scriptlet
