import Scriptlet.Proofs.Syntax.Layout
import Scriptlet.Proofs.Syntax.Progress

/-! Where rules put what they read. `LaysAt` says of a rule at a reader of a source, the offsets of which fit in
32 bits, that its result and the tokens it took, with their places, are related in a given way, whether errors
were noted before or not. The lemmas here are about the simple rules, the ways in which rules are combined, and
the loops. -/
namespace Scriptlet

open Layout

namespace Reader

/-- The reader takes the tokens and is then the second one. -/
structure Spends (source : String) (r r' : Reader) (ts : List (Located Token)) : Prop where
  fits : Addressable source.toList
  before : r.Placed source
  leads : r.Leads source r'
  stream : r.stream = ts ++ r'.stream

variable {source : String} {r r' r'' : Reader} {ts us : List (Located Token)} {s : Span}

/-- The tokens that a reader has still to take are one behind the other. -/
theorem Placed.inRow (h : r.Placed source) (hfits : Addressable source.toList) : InRow r.stream := by
  have hsub : r.stream.Sublist r.row := List.takeWhile_sublist _
  have hordered := h.ordered hfits
  refine ⟨List.Pairwise.sublist hsub (List.pairwise_cons.2 ⟨?_, hordered⟩), fun t ht => ?_⟩
  · intro t ht
    rcases List.mem_cons.1 ht with rfl | ht
    · exact h.before hfits
    · have hle := (List.pairwise_cons.1 hordered).1 t ht
      have hnext := h.next_inPlace.within.ordered hfits
      have hbefore := h.before hfits
      omega
  · rcases List.mem_cons.1 (hsub.subset ht) with rfl | ht
    · exact h.inPlace.within.ordered hfits
    · exact (h.places t ht).within.ordered hfits

theorem Placed.inText (h : r.Placed source) : ∀ t ∈ r.stream, t.span.InText source.toList := by
  intro t ht
  rcases List.mem_cons.1 ((List.takeWhile_sublist _).subset ht) with rfl | ht
  · exact h.inPlace.within
  · exact (h.places t ht).within

namespace Spends

theorem refl (hfits : Addressable source.toList) (h : r.Placed source) : r.Spends source r [] :=
  ⟨hfits, h, .refl h, rfl⟩

theorem trans (h : r.Spends source r' ts) (h' : r'.Spends source r'' us) :
    r.Spends source r'' (ts ++ us) :=
  ⟨h.fits, h.before, h.leads.trans h'.leads, by rw [h.stream, h'.stream, List.append_assoc]⟩

theorem inRow (h : r.Spends source r' ts) : InRow ts := (h.stream ▸ h.before.inRow h.fits).append_left

theorem left_eq (h : r.Spends source r' ts) : r.left = ts.length + r'.left := by
  rw [left, h.stream, List.length_append, left]

/-- The first token that is taken is the current one. -/
theorem first (h : r.Spends source r' ts) (hne : ts ≠ []) : [r.current] <+: ts := by
  obtain ⟨t, rest, rfl⟩ := List.exists_cons_of_ne_nil hne
  have hstream := h.stream
  cases hend : r.current.content.isEnd with
  | true =>
    rw [stream_of_end hend] at hstream
    cases hstream
  | false =>
    rw [stream_of_not_end hend] at hstream
    rw [(List.cons.inj hstream).1]
    exact ⟨rest, rfl⟩

/-- The range of tokens that were taken is one of the source. -/
theorem inText (h : r.Spends source r' ts) (hs : s.Covers ts) : s.InText source.toList := by
  obtain ⟨first, hfirst, hstart⟩ := hs.first_mem
  obtain ⟨last, hlast, hstop⟩ := hs.last_mem
  have hmem : ∀ t ∈ ts, t ∈ r.stream := fun t ht => h.stream ▸ List.mem_append_left _ ht
  have hfirst' := h.before.inText first (hmem first hfirst)
  have hlast' := h.before.inText last (hmem last hlast)
  have hordered := h.inRow.ordered_of_covers hs
  rw [← hstart, ← hstop] at hordered
  have hjoin := hfirst'.join hlast' fun _ => hordered
  rw [hstart, hstop] at hjoin
  exact hjoin

end Spends

end Reader

namespace Rule

variable {α β : Type} {source : String} {limit : Nat} {r : Reader}

/-- At a reader of the source with fewer than `limit` tokens left, the rule takes tokens that are related to
its result by `P`, or fails with an error that is in the source. -/
def LaysAt (source : String) (limit : Nat) (r : Reader) (rule : Rule α)
    (P : α → List (Located Token) → Prop) : Prop :=
  Addressable source.toList → r.Placed source → r.left < limit →
    match rule r with
    | .ok a r' => ∃ ts, r.Spends source r' ts ∧ P a ts
    | .error e r' => r.Leads source r' ∧ ParseError.Placed source e

def Lays (source : String) (limit : Nat) (rule : Rule α) (P : α → List (Located Token) → Prop) : Prop :=
  ∀ r, LaysAt source limit r rule P

variable {rule : Rule α} {P Q : α → List (Located Token) → Prop}

namespace LaysAt

theorem mono (h : LaysAt source limit r rule P) (hpq : ∀ a ts, P a ts → Q a ts) :
    LaysAt source limit r rule Q := by
  intro hfits hr hl
  have hresult := h hfits hr hl
  split at hresult
  · obtain ⟨ts, hs, hp⟩ := hresult
    exact ⟨ts, hs, hpq _ _ hp⟩
  · exact hresult

/-- The tokens that are taken are one behind the other, and fewer than the limit. -/
theorem inRow (h : LaysAt source limit r rule fun a ts => InRow ts → ts.length < limit → P a ts) :
    LaysAt source limit r rule P := by
  intro hfits hr hl
  have hresult := h hfits hr hl
  split at hresult
  · obtain ⟨ts, hs, hp⟩ := hresult
    have hleft := hs.left_eq
    exact ⟨ts, hs, hp hs.inRow (by omega)⟩
  · exact hresult

/-- What is to be shown of a rule may use that the reader is one of the source. -/
theorem placed (h : r.Placed source → LaysAt source limit r rule P) : LaysAt source limit r rule P :=
  fun hfits hr => h hr hfits hr

theorem pure {a : α} (h : P a []) : LaysAt source limit r (pure a) P :=
  fun hfits hr _ => ⟨[], .refl hfits hr, h⟩

theorem throw {e : ParseError} (he : ParseError.Placed source e) : LaysAt source limit r (throw e) P :=
  fun _ hr _ => ⟨.refl hr, he⟩

theorem follow {next : α → Rule β} {S : β → List (Located Token) → Prop} (h : LaysAt source limit r rule P)
    (hn : ∀ a r' ts, r.Spends source r' ts → P a ts →
      LaysAt source limit r' (next a) fun b us => S b (ts ++ us)) :
    LaysAt source limit r (rule >>= next) S := by
  intro hfits hr hl
  have hresult := h hfits hr hl
  cases hrule : rule r with
  | error e r' =>
    rw [hrule] at hresult
    simp only [Bind.bind, EStateM.bind, hrule]
    exact hresult
  | ok a r' =>
    rw [hrule] at hresult
    obtain ⟨ts, hs, hp⟩ := hresult
    have hleft := hs.left_eq
    have hresult' := hn a r' ts hs hp hfits hs.leads.placed (by omega)
    simp only [Bind.bind, EStateM.bind, hrule]
    split at hresult'
    · obtain ⟨us, hs', hp'⟩ := hresult'
      exact ⟨ts ++ us, hs.trans hs', hp'⟩
    · exact ⟨hs.leads.trans hresult'.1, hresult'.2⟩

theorem bind {next : α → Rule β} {S : β → List (Located Token) → Prop} (h : LaysAt source limit r rule P)
    (hn : ∀ a, Lays source limit (next a) fun b us => ∀ ts, P a ts → S b (ts ++ us)) :
    LaysAt source limit r (rule >>= next) S :=
  h.follow fun a r' ts _ hp => (hn a r').mono fun _ _ h => h ts hp

theorem map {f : α → β} {S : β → List (Located Token) → Prop}
    (h : LaysAt source limit r rule fun a ts => S (f a) ts) : LaysAt source limit r (f <$> rule) S := by
  intro hfits hr hl
  have hresult := h hfits hr hl
  cases hrule : rule r with
  | error e r' =>
    rw [hrule] at hresult
    simp only [Functor.map, EStateM.map, hrule]
    exact hresult
  | ok a r' =>
    rw [hrule] at hresult
    simp only [Functor.map, EStateM.map, hrule]
    exact hresult

theorem attempt (h : LaysAt source limit r rule P) : LaysAt source limit r (attempt rule) fun x ts =>
    (∀ a, x = .ok a → P a ts) ∧ ∀ e, x = .error e → ParseError.Placed source e := by
  intro hfits hr hl
  have hresult := h hfits hr hl
  cases hrule : rule r with
  | error e r' =>
    rw [hrule] at hresult
    simp only [Rule.attempt, hrule]
    obtain ⟨ts, hts⟩ := hresult.1.stream
    refine ⟨ts, ⟨hfits, hr, hresult.1, hts.symm⟩, fun a ha => (by cases ha), fun e' he => ?_⟩
    cases he
    exact hresult.2
  | ok a r' =>
    rw [hrule] at hresult
    simp only [Rule.attempt, hrule]
    obtain ⟨ts, hs, hp⟩ := hresult
    refine ⟨ts, hs, fun b hb => ?_, fun e he => by cases he⟩
    cases hb
    exact hp

theorem current {next : Located Token → Rule α} (h : LaysAt source limit r (next r.current) P) :
    LaysAt source limit r (Rule.current >>= next) P := h

theorem get {next : Reader → Rule α} (h : LaysAt source limit r (next r) P) :
    LaysAt source limit r (MonadState.get >>= next) P := h

theorem check {test : Token → Bool} {next : Bool → Rule α}
    (h : LaysAt source limit r (next (test r.current.content)) P) :
    LaysAt source limit r (Rule.check test >>= next) P := h

/-- A rule that is known to move a reader within the source. -/
theorem of_agree {R : α → Reader → Prop} (h : AgreeAt source r rule rule R) :
    LaysAt source limit r rule fun _ _ => True := by
  intro hfits hr _
  have hresult := (h hr).2
  cases hrule : rule r with
  | error e r' =>
    rw [hrule] at hresult
    exact hresult
  | ok a r' =>
    rw [hrule] at hresult
    obtain ⟨ts, hts⟩ := hresult.1.stream
    exact ⟨ts, ⟨hfits, hr, hresult.1, hts.symm⟩, trivial⟩

end LaysAt

namespace Lays

theorem mono (h : Lays source limit rule P) (hpq : ∀ a ts, P a ts → Q a ts) : Lays source limit rule Q :=
  fun r => (h r).mono hpq

theorem inRow (h : Lays source limit rule fun a ts => InRow ts → ts.length < limit → P a ts) :
    Lays source limit rule P := fun r => (h r).inRow

theorem pure {a : α} (h : P a []) : Lays source limit (pure a) P := fun _ => .pure h

theorem bind {next : α → Rule β} {S : β → List (Located Token) → Prop} (h : Lays source limit rule P)
    (hn : ∀ a, Lays source limit (next a) fun b us => ∀ ts, P a ts → S b (ts ++ us)) :
    Lays source limit (rule >>= next) S := fun r => (h r).bind hn

theorem map {f : α → β} {S : β → List (Located Token) → Prop}
    (h : Lays source limit rule fun a ts => S (f a) ts) : Lays source limit (f <$> rule) S :=
  fun r => .map (h r)

theorem check {test : Token → Bool} {next : Bool → Rule α} (h : ∀ b, Lays source limit (next b) P) :
    Lays source limit (Rule.check test >>= next) P := fun r => .check (h _ r)

end Lays

def Marked (p : Layout) (s : Span) (ts : List (Located Token)) : Prop := p.Occupies ts ∧ s.Covers ts

theorem token_marked {t : Token} {x : Located Token} (h : x.content = t) : Marked (token t) x.span [x] :=
  ⟨.own (by rw [List.map_singleton, h]), .singleton x⟩

theorem take_lays (hend : r.current.content.isEnd = false) :
    LaysAt source limit r take fun t ts => t = r.current ∧ ts = [t] := by
  intro hfits hr _
  refine ⟨[r.current], ⟨hfits, hr, hr.leads_shift, ?_⟩, rfl, rfl⟩
  rw [hr.stream_shift, Reader.stream_of_not_end hend]
  rfl

theorem take_token {x : Token} (h : r.current.content = x) (hx : x.isEnd = false) :
    LaysAt source limit r take fun t ts => t = r.current ∧ Marked (token x) t.span ts := by
  refine (take_lays (by rw [h, hx])).mono ?_
  rintro t ts ⟨rfl, rfl⟩
  exact ⟨rfl, token_marked h⟩

/-- Taking a token that may stand for something that the end of the file does not stand for. -/
theorem take_reading {γ : Type} (f : Token → Option γ) (hf : f .endOfFile = none) :
    Lays source limit take fun t ts =>
      t.span.InText source.toList ∧ ∀ a, f t.content = some a → Marked (reading f a) t.span ts := by
  intro r
  cases hend : r.current.content.isEnd with
  | false =>
    refine .placed fun hr => (take_lays hend).mono ?_
    rintro t ts ⟨rfl, rfl⟩
    exact ⟨hr.inPlace.within, fun a ha => ⟨.own ⟨_, rfl, ha⟩, .singleton _⟩⟩
  | true =>
    intro hfits hr _
    obtain ⟨ts, hts⟩ := hr.leads_shift.stream
    refine ⟨ts, ⟨hfits, hr, hr.leads_shift, hts.symm⟩, hr.inPlace.within, fun a ha => ?_⟩
    rw [not_end_of_some hf ha] at hend
    cases hend

theorem failHere_lays {cause : ParseCause} (hcause : cause.isLexical = false) :
    Lays source limit (failHere cause : Rule α) P :=
  fun _ => .placed fun hr => .current (.throw (error_here hr hcause _))

theorem failExpecting_lays (expected : List String) :
    Lays source limit (failExpecting expected : Rule α) P := by
  intro r
  refine .current ?_
  split
  · exact failHere_lays rfl r
  · exact failHere_lays rfl r

/-- Taking the current token if it passes a test that only one token passes. -/
theorem takeIf_lays {test : Token → Bool} {x : Token} (hx : x.isEnd = false)
    (htest : ∀ t, test t = true ↔ t = x) :
    Lays source limit (do
        if ← Rule.check test then
          let _ ← Rule.take
          return true
        else return false : Rule Bool)
      fun b ts => b = true ∧ (token x).Occupies ts ∨ b = false ∧ ts = [] := by
  intro r
  refine .check ?_
  split
  · next h =>
    refine (take_token ((htest _).1 h) hx).bind fun t => .pure ?_
    rintro ts ⟨-, htoken, -⟩
    rw [List.append_nil]
    exact .inl ⟨rfl, htoken⟩
  · exact .pure (.inr ⟨rfl, rfl⟩)

theorem takeSign_lays (s : Symbol) : Lays source limit (takeSign s) fun b ts =>
    b = true ∧ (sign s).Occupies ts ∨ b = false ∧ ts = [] := takeIf_lays rfl fun _ => isSymbol_iff

theorem takeWord_lays (w : Keyword) : Lays source limit (takeWord w) fun b ts =>
    b = true ∧ (word w).Occupies ts ∨ b = false ∧ ts = [] := takeIf_lays rfl fun _ => isKeyword_iff

/-- A token that must stand here. -/
theorem expect_lays {test : Token → Bool} {x : Token} (hx : x.isEnd = false)
    (htest : ∀ t, test t = true ↔ t = x) {otherwise : Rule Span}
    (hotherwise : Lays source limit otherwise (Marked (token x))) :
    Lays source limit (do if ← Rule.check test then return (← Rule.take).span else otherwise : Rule Span)
      (Marked (token x)) := by
  intro r
  refine .check ?_
  split
  · next h =>
    refine (take_token ((htest _).1 h) hx).bind fun t => .pure ?_
    rintro ts ⟨-, htoken⟩
    rw [List.append_nil]
    exact htoken
  · exact hotherwise r

theorem expectSign_lays (s : Symbol) : Lays source limit (expectSign s) (Marked (sign s)) :=
  expect_lays rfl (fun _ => isSymbol_iff) (failExpecting_lays _)

theorem expectWord_lays (w : Keyword) : Lays source limit (expectWord w) (Marked (word w)) :=
  expect_lays rfl (fun _ => isKeyword_iff) (failExpecting_lays _)

theorem semicolon_lays : Lays source limit semicolon (Marked (sign .semicolon)) := by
  refine expect_lays rfl (fun _ => isSymbol_iff) fun r => .placed fun hr => .get ?_
  split
  · next token htoken => exact .throw ⟨rfl, Span.inText_point (hr.previous token htoken).stop⟩
  · exact .throw (error_here hr rfl _)

theorem identifier_lays : Lays source limit identifier fun id ts => Marked id.layout id.span ts := by
  intro r
  refine .current ?_
  split
  · next name h =>
    refine (take_token h rfl).bind fun t => .pure ?_
    rintro ts ⟨rfl, htoken, hcovers⟩
    rw [List.append_nil]
    exact ⟨.phrase hcovers (.single htoken), hcovers⟩
  · exact failHere_lays rfl r
  · exact failHere_lays rfl r

variable {item : Rule α}

/-- A piece with a comma behind it, and the pieces that follow. -/
theorem listed_more {p : Layout} {ps : List Layout} {ts cs us : List (Located Token)} (hp : p.Occupies ts)
    (hcomma : (sign .comma).Occupies cs) (hps : Occupy (listed ps) us) :
    Occupy (listed (p :: ps)) (ts ++ (cs ++ (us ++ []))) := by
  cases ps with
  | nil =>
    cases hps
    cases hcomma with
    | own h => exact .cons hp (.cons (.own (.inr h)) .nil)
  | cons q qs =>
    rw [List.append_nil]
    exact .cons hp (.cons hcomma hps)

theorem separated_lays {layout : α → Layout}
    (hitem : Lays source limit item fun a ts => (layout a).Occupies ts) (stop : Symbol) (n : Nat) :
    Lays source limit (separated item stop n) fun as ts => Occupy (listed (as.map layout)) ts := by
  induction n with
  | zero => exact .pure .nil
  | succ n ih =>
    refine .check fun stops => ?_
    split
    · exact .pure .nil
    · refine hitem.bind fun a => (takeSign_lays .comma).bind fun more => ?_
      cases more with
      | true =>
        refine ih.bind fun as => .pure ?_
        rintro us hus cs hcs ts hts
        exact listed_more hts (by simpa using hcs) hus
      | false =>
        refine .pure ?_
        rintro cs hcs ts hts
        obtain rfl : cs = [] := by simpa using hcs
        exact .cons hts (.cons (.own (.inl rfl)) .nil)

/-- A row that is as long as the bound has that many commas in it. -/
theorem sequence_lays_loop {layouts : α → List Layout}
    (hitem : Lays source limit item fun a ts => Occupy (layouts a) ts) (n : Nat) :
    Lays source limit (sequence item n) fun as ts =>
      n ≤ ts.length ∨ as ≠ [] ∧ Occupy (sequenced (as.map layouts)) ts := by
  induction n with
  | zero => exact .pure (.inl (Nat.le_refl _))
  | succ n ih =>
    refine hitem.bind fun a => (takeSign_lays .comma).bind fun more => ?_
    cases more with
    | true =>
      refine ih.bind fun as => .pure ?_
      rintro us hus cs hcs ts hts
      have hcomma : (sign .comma).Occupies cs := by simpa using hcs
      rcases hus with hlong | ⟨hne, hus⟩
      · cases hcomma with
        | own h =>
          have hone : cs.length = 1 := by simpa using congrArg List.length h
          simp only [List.length_append]
          omega
      · obtain ⟨b, bs, rfl⟩ := List.exists_cons_of_ne_nil hne
        refine .inr ⟨List.cons_ne_nil _ _, ?_⟩
        rw [List.append_nil]
        exact hts.append (.cons hcomma hus)
    | false =>
      refine .pure ?_
      rintro cs hcs ts hts
      obtain rfl : cs = [] := by simpa using hcs
      refine .inr ⟨List.cons_ne_nil _ _, ?_⟩
      rw [List.append_nil, List.append_nil]
      exact hts

theorem sequence_lays {layouts : α → List Layout}
    (hitem : Lays source limit item fun a ts => Occupy (layouts a) ts) {n : Nat} (hn : limit ≤ n) :
    Lays source limit (sequence item n) fun as ts => Occupy (sequenced (as.map layouts)) ts := by
  refine .inRow ((sequence_lays_loop hitem n).mono fun as ts h _ hlength => ?_)
  rcases h with hlong | h
  · omega
  · exact h.2

theorem repeated_lays {layout : α → Layout}
    (hitem : Lays source limit item fun a ts => (layout a).Occupies ts) (stop : Symbol) (n : Nat) :
    Lays source limit (repeated item stop n) fun as ts => Occupy (as.map layout) ts := by
  induction n with
  | zero => exact .pure .nil
  | succ n ih =>
    refine .check fun stops => ?_
    split
    · exact .pure .nil
    · refine hitem.bind fun a => ih.bind fun as => .pure ?_
      rintro us hus ts hts
      rw [List.append_nil]
      exact .cons hts hus

/-- What stands behind a word, if the word stands there. -/
theorem optional_lays {w : Keyword} {Y : Option α → List (Located Token) → Prop} {next : Option α → Rule β}
    {S : β → List (Located Token) → Prop}
    (hsome : Lays source limit item fun a ts => ∀ ws, (word w).Occupies ws → Y (some a) (ws ++ ts))
    (hnone : Y none [])
    (hn : ∀ p, Lays source limit (next p) fun b us => ∀ ts, Y p ts → S b (ts ++ us)) :
    Lays source limit (takeWord w >>= fun found =>
      if found = true then some <$> item >>= next else Pure.pure none >>= next) S := by
  refine (takeWord_lays w).bind fun found => ?_
  cases found with
  | true =>
    have hitem : Lays source limit (some <$> item) fun p ts =>
        ∀ ws, (word w).Occupies ws → Y p (ws ++ ts) := .map hsome
    refine hitem.bind fun p => (hn p).mono ?_
    intro b us h ts hts ws hws
    have hword : (word w).Occupies ws := by simpa using hws
    rw [← List.append_assoc]
    exact h _ (hts ws hword)
  | false =>
    refine (Lays.pure (P := fun p ts => p = none ∧ ts = []) ⟨rfl, rfl⟩).bind fun p => (hn p).mono ?_
    rintro b us h _ ⟨rfl, rfl⟩ ws hws
    obtain rfl : ws = [] := by simpa using hws
    exact h [] hnone

end Rule

end Scriptlet
