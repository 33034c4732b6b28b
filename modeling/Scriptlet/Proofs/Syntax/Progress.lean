import Scriptlet.Proofs.Syntax.Places
import Scriptlet.Proofs.Syntax.Taking

/-! How rules move a reader of a source. The bounds on loops and nesting are there to let the rules be
defined; `AgreeAt` says of two rules with different bounds that they do the same at a reader, that the
reader moves forward and stays in place, and that an error they fail with has a range of the source. The
lemmas here are about the simple rules, the ways in which rules are combined, and the loops. -/
namespace Scriptlet

/-- An error of the grammar, and not of the lexer, with a range of the source. -/
structure ParseError.Placed (source : String) (e : ParseError) : Prop where
  syntactic : e.content.isLexical = false
  inText : e.span.InText source.toList

/-- The reader has taken tokens, and a range that starts from an offset on ends before those that it has
still to take. -/
structure Reader.Takes (source : String) (lower : Nat) (r r' : Reader) (s : Span) : Prop where
  left : r'.left < r.left
  within : s.Within source.toList lower r'.place

namespace Reader.Takes

variable {source : String} {lower : Nat} {r r₁ r₂ : Reader} {s t : Span}

/-- A range that is taken after others. -/
theorem after (h : r.Leads source r₁) (ht : r₁.Takes source r₁.place r₂ s) :
    r.Takes source r.place r₂ s :=
  ⟨Nat.lt_of_lt_of_le ht.left h.left_le, ht.within.mono h.place fun _ => Nat.le_refl _⟩

/-- What is before a range that is taken, and the range. -/
theorem merge (hs : s.Within source.toList lower r.place) (h : r.Leads source r₁)
    (ht : r₁.Takes source r₁.place r₂ t) : r.Takes source lower r₂ (s.merge t) ∧
      r.Takes source lower r₂ ⟨s.start, t.stop⟩ := by
  have hs' : s.Within source.toList lower r₂.place := hs.mono (fun _ => Nat.le_refl _) fun hfits => by
    calc
      r.place ≤ r₁.place := h.place hfits
      _ ≤ t.start := ht.within.lower hfits
      _ ≤ t.stop := ht.within.ordered hfits
      _ ≤ r₂.place := ht.within.upper hfits
  have hstart : Addressable source.toList → s.start ≤ t.start := fun hfits => by
    calc
      s.start ≤ s.stop := hs.ordered hfits
      _ ≤ r.place := hs.upper hfits
      _ ≤ r₁.place := h.place hfits
      _ ≤ t.start := ht.within.lower hfits
  have ht' : t.Within source.toList lower r₂.place :=
    { ht.within with lower := fun hfits => Nat.le_trans (hs.lower hfits) (hstart hfits) }
  have hjoin : Addressable source.toList → s.start ≤ t.stop := fun hfits =>
    Nat.le_trans (hstart hfits) (ht.within.ordered hfits)
  have hleft : r₂.left < r.left := Nat.lt_of_lt_of_le ht.left h.left_le
  exact ⟨⟨hleft, hs'.merge ht'⟩, ⟨hleft, hs'.join ht' hjoin⟩⟩

/-- The range from a token on. -/
theorem enclose (hs : r.Takes source lower r₁ s) {r₃ : Reader} (h : r₁.Leads source r₂)
    (ht : r₂.Takes source r₂.place r₃ t) : r.Takes source lower r₃ (s.merge t) ∧
      r.Takes source lower r₃ ⟨s.start, t.stop⟩ := by
  obtain ⟨hmerge, hjoin⟩ := merge hs.within h ht
  exact ⟨⟨Nat.lt_trans hmerge.left hs.left, hmerge.within⟩,
    ⟨Nat.lt_trans hjoin.left hs.left, hjoin.within⟩⟩

end Reader.Takes

namespace Rule

variable {α β : Type}

/-- At a reader of the source both rules do the same. -/
def AgreeAt (source : String) (r : Reader) (rule rule' : Rule α) (P : α → Reader → Prop) : Prop :=
  r.Placed source → rule' r = rule r ∧
    match rule r with
    | .ok a r' => r.Leads source r' ∧ P a r'
    | .error e r' => r.Leads source r' ∧ ParseError.Placed source e

def Agree (source : String) (limit : Nat) (rule rule' : Rule α) : Prop :=
  ∀ r : Reader, r.left < limit → AgreeAt source r rule rule' fun _ _ => True

variable {source : String} {limit : Nat} {r : Reader} {rule rule' : Rule α} {P Q : α → Reader → Prop}

namespace AgreeAt

theorem mono (h : AgreeAt source r rule rule' P) (hpq : ∀ a r', r.Leads source r' → P a r' → Q a r') :
    AgreeAt source r rule rule' Q := by
  intro hr
  obtain ⟨hsame, hresult⟩ := h hr
  refine ⟨hsame, ?_⟩
  split at hresult
  · exact ⟨hresult.1, hpq _ _ hresult.1 hresult.2⟩
  · exact hresult

/-- What is to be shown of a rule may use that the reader is one of the source. -/
theorem placed (h : r.Placed source → AgreeAt source r rule rule' P) : AgreeAt source r rule rule' P :=
  fun hr => h hr hr

theorem pure {a : α} (h : P a r) : AgreeAt source r (pure a) (pure a) P :=
  fun hr => ⟨rfl, .refl hr, h⟩

theorem throw {e : ParseError} (he : ParseError.Placed source e) :
    AgreeAt source r (throw e) (throw e) P :=
  fun hr => ⟨rfl, .refl hr, he⟩

theorem bind {next next' : α → Rule β} {S : β → Reader → Prop} (h : AgreeAt source r rule rule' P)
    (hn : ∀ a r', r.Leads source r' → P a r' → AgreeAt source r' (next a) (next' a) S) :
    AgreeAt source r (rule >>= next) (rule' >>= next') S := by
  intro hr
  obtain ⟨hsame, hresult⟩ := h hr
  cases hrule : rule r with
  | error e r' =>
    rw [hrule] at hsame hresult
    simp only [Bind.bind, EStateM.bind, hsame, hrule]
    exact ⟨trivial, hresult⟩
  | ok a r' =>
    rw [hrule] at hsame hresult
    obtain ⟨hleads, ha⟩ := hresult
    obtain ⟨hsame', hresult'⟩ := hn a r' hleads ha hleads.placed
    simp only [Bind.bind, EStateM.bind, hsame, hrule]
    refine ⟨hsame', ?_⟩
    split at hresult'
    · exact ⟨hleads.trans hresult'.1, hresult'.2⟩
    · exact ⟨hleads.trans hresult'.1, hresult'.2⟩

theorem map {f : α → β} {S : β → Reader → Prop}
    (h : AgreeAt source r rule rule' fun a r' => S (f a) r') :
    AgreeAt source r (f <$> rule) (f <$> rule') S := by
  intro hr
  obtain ⟨hsame, hresult⟩ := h hr
  cases hrule : rule r with
  | error e r' =>
    rw [hrule] at hsame hresult
    simp only [Functor.map, EStateM.map, hsame, hrule]
    exact ⟨trivial, hresult⟩
  | ok a r' =>
    rw [hrule] at hsame hresult
    simp only [Functor.map, EStateM.map, hsame, hrule]
    exact ⟨trivial, hresult⟩

theorem attempt (h : AgreeAt source r rule rule' P) :
    AgreeAt source r (attempt rule) (attempt rule') fun x r' =>
      (∀ a, x = .ok a → P a r') ∧ ∀ e, x = .error e → ParseError.Placed source e := by
  intro hr
  obtain ⟨hsame, hresult⟩ := h hr
  cases hrule : rule r with
  | error e r' =>
    rw [hrule] at hsame hresult
    simp only [Rule.attempt, hsame, hrule]
    refine ⟨trivial, hresult.1, fun a ha => (by cases ha), fun e' he => ?_⟩
    cases he
    exact hresult.2
  | ok a r' =>
    rw [hrule] at hsame hresult
    simp only [Rule.attempt, hsame, hrule]
    refine ⟨trivial, hresult.1, fun b hb => ?_, fun e he => by cases he⟩
    cases hb
    exact hresult.2

theorem current {next next' : Located Token → Rule α}
    (h : AgreeAt source r (next r.current) (next' r.current) P) :
    AgreeAt source r (Rule.current >>= next) (Rule.current >>= next') P := h

theorem get {next next' : Reader → Rule α} (h : AgreeAt source r (next r) (next' r) P) :
    AgreeAt source r (MonadState.get >>= next) (MonadState.get >>= next') P := h

theorem check {test : Token → Bool} {next next' : Bool → Rule α}
    (h : AgreeAt source r (next (test r.current.content)) (next' (test r.current.content)) P) :
    AgreeAt source r (Rule.check test >>= next) (Rule.check test >>= next') P := h

end AgreeAt

namespace Agree

theorem of_at {P : Reader → α → Reader → Prop}
    (h : ∀ r, r.left < limit → AgreeAt source r rule rule' (P r)) : Agree source limit rule rule' :=
  fun r hr => (h r hr).mono fun _ _ _ _ => trivial

theorem mono {limit' : Nat} (h : Agree source limit rule rule') (hle : limit' ≤ limit) :
    Agree source limit' rule rule' := fun r hr => h r (Nat.lt_of_lt_of_le hr hle)

/-- A reader that has taken tokens has still taken them after a rule. -/
theorem behind (h : Agree source limit rule rule') (hr : r.left < limit) :
    AgreeAt source r rule rule' fun _ r' => r'.left < limit :=
  (h r hr).mono fun _ _ hleads _ => Nat.lt_of_le_of_lt hleads.left_le hr

theorem pure (a : α) : Agree source limit (pure a) (pure a) := fun _ _ => .pure trivial

theorem bind {next next' : α → Rule β} (h : Agree source limit rule rule')
    (hn : ∀ a, Agree source limit (next a) (next' a)) :
    Agree source limit (rule >>= next) (rule' >>= next') :=
  fun r hr => (h r hr).bind fun a r' hleads _ => hn a r' (Nat.lt_of_le_of_lt hleads.left_le hr)

theorem map {f : α → β} (h : Agree source limit rule rule') :
    Agree source limit (f <$> rule) (f <$> rule') := fun r hr => .map (h r hr)

theorem check {test : Token → Bool} {next next' : Bool → Rule α}
    (h : ∀ b, Agree source limit (next b) (next' b)) :
    Agree source limit (Rule.check test >>= next) (Rule.check test >>= next') :=
  fun r hr => .check (h _ r hr)

end Agree

theorem error_here (hr : r.Placed source) {cause : ParseCause} (hcause : cause.isLexical = false)
    (position : Position) : ParseError.Placed source ⟨cause, r.current.span, position⟩ :=
  ⟨hcause, hr.inPlace.within⟩

/-- Any token that is taken has a range of the source; all but the end of the file are then gone. -/
theorem take_any : AgreeAt source r take take fun t r' =>
    t.span.InText source.toList ∧ (t.content.isEnd = false → r.Takes source r.place r' t.span) :=
  fun hr => ⟨rfl, hr.leads_shift, hr.inPlace.within,
    fun hend => ⟨hr.left_shift hend, hr.within_shift⟩⟩

theorem take_agrees (hend : r.current.content.isEnd = false) : AgreeAt source r take take fun t r' =>
    t = r.current ∧ r.Takes source r.place r' t.span :=
  fun hr => ⟨rfl, hr.leads_shift, rfl, hr.left_shift hend, hr.within_shift⟩

theorem failHere_agrees {cause : ParseCause} (hcause : cause.isLexical = false) :
    AgreeAt source r (failHere cause) (failHere cause) P :=
  .placed fun hr => .current (.throw (error_here hr hcause _))

theorem failExpecting_agrees (expected : List String) :
    AgreeAt source r (failExpecting expected) (failExpecting expected) P := by
  refine .current ?_
  split
  · exact failHere_agrees rfl
  · exact failHere_agrees rfl

/-- A token that is not the end of the file is taken if it is found. -/
theorem found_agrees {test : Token → Bool} {x : Token} {next next' : Located Token → Rule α} {other other' : Rule α}
    (hx : x.isEnd = false) (htest : ∀ t, test t = true ↔ t = x)
    (hnext : ∀ t r', r.Takes source r.place r' t.span → AgreeAt source r' (next t) (next' t) P)
    (hother : AgreeAt source r other other' P) :
    AgreeAt source r (check test >>= fun b => if b = true then take >>= next else other)
      (check test >>= fun b => if b = true then take >>= next' else other') P := by
  refine .check ?_
  split
  · next h =>
    have hend : r.current.content.isEnd = false := by rw [(htest _).1 h, hx]
    exact (take_agrees hend).bind fun t r' _ ht => hnext t r' ht.2
  · exact hother

theorem takeSign_agrees (sign : Symbol) : AgreeAt source r (takeSign sign) (takeSign sign)
    fun found r' => found = true → r'.left < r.left :=
  found_agrees rfl (fun _ => isSymbol_iff) (fun _ _ ht => .pure fun _ => ht.left) (.pure fun h => by cases h)

theorem takeWord_agrees (word : Keyword) : AgreeAt source r (takeWord word) (takeWord word)
    fun found r' => found = true → r'.left < r.left :=
  found_agrees rfl (fun _ => isKeyword_iff) (fun _ _ ht => .pure fun _ => ht.left) (.pure fun h => by cases h)

theorem expectSign_agrees (sign : Symbol) : AgreeAt source r (expectSign sign) (expectSign sign)
    fun s r' => r.Takes source r.place r' s :=
  found_agrees rfl (fun _ => isSymbol_iff) (fun _ _ ht => .pure ht) (failExpecting_agrees _)

theorem expectWord_agrees (word : Keyword) : AgreeAt source r (expectWord word) (expectWord word)
    fun s r' => r.Takes source r.place r' s :=
  found_agrees rfl (fun _ => isKeyword_iff) (fun _ _ ht => .pure ht) (failExpecting_agrees _)

theorem identifier_agrees : AgreeAt source r identifier identifier
    fun id r' => r.Takes source r.place r' id.span := by
  refine .current ?_
  split
  · next name h =>
    refine (take_agrees (by rw [h]; rfl)).bind fun t r' _ ht => ?_
    obtain ⟨rfl, htakes⟩ := ht
    exact .pure htakes
  · exact failHere_agrees rfl
  · exact failHere_agrees rfl

/-- A missing semicolon is reported at the end of the token before it, which is in the source too. -/
theorem semicolon_agrees : AgreeAt source r semicolon semicolon
    fun s r' => r.Takes source r.place r' s := by
  refine found_agrees rfl (fun _ => isSymbol_iff) (fun _ _ ht => .pure ht) (.placed fun hr => .get ?_)
  split
  · next token htoken =>
    exact .throw ⟨rfl, Span.inText_point (hr.previous token htoken).stop⟩
  · exact .throw (error_here hr rfl _)

/-- A phrase that a sign opens. -/
theorem sign_opens {next next' : Span → Rule α} (sign : Symbol)
    (hn : ∀ s, Agree source r.left (next s) (next' s)) :
    AgreeAt source r (expectSign sign >>= next) (expectSign sign >>= next')
      fun _ r' => r'.left < r.left :=
  (expectSign_agrees sign).bind fun s _ _ hs => (hn s).behind hs.left

/-- A phrase that a word opens. -/
theorem word_opens {next next' : Span → Rule α} (word : Keyword)
    (hn : ∀ s, Agree source r.left (next s) (next' s)) :
    AgreeAt source r (expectWord word >>= next) (expectWord word >>= next')
      fun _ r' => r'.left < r.left :=
  (expectWord_agrees word).bind fun s _ _ hs => (hn s).behind hs.left

theorem sign_agree (sign : Symbol) : Agree source limit (expectSign sign) (expectSign sign) :=
  .of_at fun _ _ => expectSign_agrees sign

theorem semicolon_agree : Agree source limit semicolon semicolon :=
  .of_at fun _ _ => semicolon_agrees

theorem identifier_agree : Agree source limit identifier identifier :=
  .of_at fun _ _ => identifier_agrees

/-- What stands behind a word, if the word stands there. -/
theorem optional_agree {word : Keyword} {item item' : Rule α} {next next' : Option α → Rule β}
    (hitem : Agree source limit item item') (hn : ∀ p, Agree source limit (next p) (next' p)) :
    Agree source limit
      (takeWord word >>= fun found =>
        if found = true then some <$> item >>= next else Pure.pure none >>= next)
      (takeWord word >>= fun found =>
        if found = true then some <$> item' >>= next' else Pure.pure none >>= next') := by
  refine Agree.bind (.of_at fun _ _ => takeWord_agrees word) fun found => ?_
  cases found with
  | true => exact hitem.map.bind hn
  | false => exact (Agree.pure none).bind hn

/-! Loops. Each round takes a token, so a loop whose bound is over the number of tokens left ends before
it reaches the bound. -/

/-- Two loops that may hand a state on from one round to the next, with an invariant of the state and the
reader: a round may rely on what the loops do with fewer tokens left. -/
theorem AgreeAt.loop {σ : Type} {f g : σ → Nat → Rule α} {I : σ → Reader → Prop}
    (round : ∀ state n n' (r : Reader), I state r →
      (∀ next (r₁ : Reader), I next r₁ → r₁.left < r.left →
        AgreeAt source r₁ (f next n) (g next n') P) →
      AgreeAt source r (f state (n + 1)) (g state (n' + 1)) P)
    (state : σ) {n n' : Nat} (h : I state r) (hn : r.left < n) (hn' : r.left < n') :
    AgreeAt source r (f state n) (g state n') P := by
  induction n generalizing n' r state with
  | zero => exact absurd hn (Nat.not_lt_zero _)
  | succ n ih =>
    cases n' with
    | zero => exact absurd hn' (Nat.not_lt_zero _)
    | succ n' =>
      refine round state n n' r h fun next r₁ h₁ hlt => ?_
      exact ih next h₁ (by omega) (by omega)

/-- Two loops with no state, at the readers with few tokens left. -/
theorem Agree.loop {loop loop' : Nat → Rule α}
    (round : ∀ n n' (r : Reader), r.left < limit → Agree source r.left (loop n) (loop' n') →
      AgreeAt source r (loop (n + 1)) (loop' (n' + 1)) fun _ _ => True)
    {n n' : Nat} (hn : limit ≤ n) (hn' : limit ≤ n') : Agree source limit (loop n) (loop' n') := by
  intro r hr
  refine AgreeAt.loop (f := fun _ => loop) (g := fun _ => loop') (I := fun _ r => r.left < limit)
    (fun _ n n' r hr hrest => ?_) () hr ?_ ?_
  · exact round n n' r hr fun r₁ hlt => hrest () r₁ (Nat.lt_trans hlt hr) hlt
  · exact Nat.lt_of_lt_of_le hr hn
  · exact Nat.lt_of_lt_of_le hr hn'

variable {item item' : Rule α}

theorem separated_agrees (hitem : Agree source limit item item') (stop : Symbol) {n n' : Nat}
    (hn : limit ≤ n) (hn' : limit ≤ n') :
    Agree source limit (separated item stop n) (separated item' stop n') := by
  refine .loop (fun n n' r hr hrest => .check ?_) hn hn'
  split
  · exact .pure trivial
  · refine (hitem r hr).bind fun a r₁ h₁ _ => ?_
    refine (takeSign_agrees .comma).bind fun more r₂ _ hmore => ?_
    cases more with
    | true =>
      have hlt : r₂.left < r.left := Nat.lt_of_lt_of_le (hmore rfl) h₁.left_le
      exact (hrest.bind fun as => .pure _) r₂ hlt
    | false => exact .pure trivial

theorem sequence_agrees (hitem : Agree source limit item item') {n n' : Nat} (hn : limit ≤ n)
    (hn' : limit ≤ n') : Agree source limit (sequence item n) (sequence item' n') := by
  refine .loop (fun n n' r hr hrest => ?_) hn hn'
  refine (hitem r hr).bind fun a r₁ h₁ _ => ?_
  refine (takeSign_agrees .comma).bind fun more r₂ _ hmore => ?_
  cases more with
  | true =>
    have hlt : r₂.left < r.left := Nat.lt_of_lt_of_le (hmore rfl) h₁.left_le
    exact (hrest.bind fun as => .pure _) r₂ hlt
  | false => exact .pure trivial

/-- Here the phrases themselves take the tokens. -/
theorem repeated_agrees
    (hitem : ∀ r, r.left < limit → AgreeAt source r item item' fun _ r' => r'.left < r.left)
    (stop : Symbol) {n n' : Nat} (hn : limit ≤ n) (hn' : limit ≤ n') :
    Agree source limit (repeated item stop n) (repeated item' stop n') := by
  refine .loop (fun n n' r hr hrest => .check ?_) hn hn'
  split
  · exact .pure trivial
  · refine (hitem r hr).bind fun a r₁ _ hlt => ?_
    exact (hrest.bind fun as => .pure _) r₁ hlt

end Rule

end Scriptlet
