import Scriptlet.Proofs.Syntax.Cut

/-! Where a source that is cut off stops the rules. `Stop` lists the errors, other than a missing semicolon,
that rules fail with at its end, each with the token before the end and the tokens that the whole can go on
with. The lemmas are about signs and words, names and rows of phrases. -/
namespace Scriptlet
namespace Rule

open Reader

variable {α β : Type} {k : Cut} {limit : Nat} {At : Reader → Prop} {rule rule' : Rule α} {D : α → α → Prop}
  {E : ParseCause → List Token → Prop} {B : ParseCause → Prop}

/-- The errors, other than a missing semicolon, that rules fail with at the end of a source that goes on with
the token `next`, and the tokens they took before. -/
inductive Stop (next : Token) : ParseCause → List Token → Prop
  | ended (ts : List Token) : Stop next .unexpectedEnd ts
  | member (ts : List Token) : Stop next .expectedMember (ts ++ [.symbol .dot])
  | key (ts : List Token) {s : Symbol} (hs : s = .leftBrace ∨ s = .comma)
    (hnext : next.name?.isSome = true ∨ next = .symbol .rightBrace) :
    Stop next .invalidMapKey (ts ++ [.symbol s])
  | target (ts : List Token) (expected : List String) :
    Stop next (.unexpectedToken .endOfFile expected) (ts ++ [.keyword .import_])
  | constant (ts : List Token) (name : String) (hnext : next = .symbol (.assign none)) :
    Stop next (.missingInitializer name) (ts ++ [.identifier name])
  | caught (ts : List Token) (hnext : next = .keyword .catch_ ∨ next = .keyword .finally_) :
    Stop next .missingCatchOrFinally (ts ++ [.symbol .rightBrace])

theorem Stop.after {next : Token} {c : ParseCause} {us : List Token} (h : Stop next c us) (ts : List Token) :
    Stop next c (ts ++ us) := by
  cases h with
  | ended => exact .ended _
  | member us =>
    rw [← List.append_assoc]
    exact .member _
  | key us hs hnext =>
    rw [← List.append_assoc]
    exact .key _ hs hnext
  | target us expected =>
    rw [← List.append_assoc]
    exact .target _ _
  | constant us name hnext =>
    rw [← List.append_assoc]
    exact .constant _ _ hnext
  | caught us hnext =>
    rw [← List.append_assoc]
    exact .caught _ hnext

theorem Stop.afterComma {next : Token} {c : ParseCause} {us : List Token} (ts : List Token)
    (h : Stop next c us) : Stop next c (ts ++ .symbol .comma :: us) := by
  rw [List.append_cons]
  exact h.after _

/-- What these errors satisfy, whatever else does. -/
class Ends (next : Token) (E : ParseCause → List Token → Prop) : Prop where
  of_stop : ∀ {c ts}, Stop next c ts → E c ts

instance (next : Token) : Ends next (Stop next) := ⟨fun h => h⟩

instance (next : Token) (E : ParseCause → List Token → Prop) (P : List Token → List Token → Prop)
    [Ends next E] : Ends next (Under E P) := ⟨fun h ts _ => Ends.of_stop (h.after ts)⟩

theorem Ends.ended (next : Token) {E : ParseCause → List Token → Prop} [Ends next E] (ts : List Token) :
    E .unexpectedEnd ts :=
  have hstop : Stop next .unexpectedEnd ts := .ended ts
  Ends.of_stop hstop

section Ends

variable [Ends k.next.content E]

theorem Follows.lift (h : Follows k limit At rule D (Stop k.next.content)) : Follows k limit At rule D E :=
  h.mono (fun _ _ hd => hd) fun _ _ => Ends.of_stop

theorem Needs.ends (h : Needs rule) (ts : List Token) : Rests k rule rule' D fun c => E c ts :=
  h.rests (Ends.ended k.next.content ts)

/-- A choice by the current token, where the end of the file is no choice. -/
theorem Follows.current_head {next : Located Token → Rule α} (hneeds : Needs (Rule.current >>= next))
    (hn : ∀ t, Follows k limit Inside (next t) D fun c ts => ts.head? = some t.content → E c ts) :
    Follows k limit Anywhere (Rule.current >>= next) D E :=
  (look_head hn).split fun hr _ hrule' => (hneeds.ends []).outcome hr hrule'

theorem Follows.current {next : Located Token → Rule α} (hneeds : Needs (Rule.current >>= next))
    (hn : ∀ t, Follows k limit Inside (next t) D E) : Follows k limit Anywhere (Rule.current >>= next) D E :=
  .current_head hneeds fun t => (hn t).mono (fun _ _ hd => hd) fun _ _ he _ => he

/-- One rule after another, where only these errors stop the second. -/
theorem Follows.andThen {next : α → Rule β} {D' : β → β → Prop} (h : Follows k limit At rule D E)
    (hn : ∀ a, Follows k limit Anywhere (next a) D' (Stop k.next.content))
    (hi : ∀ a a', D a a' → Rests k (next a) (next a') D' (· = .unexpectedEnd)) :
    Follows k limit At (rule >>= next) D' E := by
  refine h.chain (P := fun _ _ _ => True) (fun _ _ _ _ _ => trivial) (fun a => (hn a).lift) ?_
  intro a a' ts hd _ r r' b' r₁' hr hrule'
  rcases hi a a' hd _ _ _ _ hr hrule' with hok | ⟨e, r₁, hrule, hr₁, he⟩
  · exact .inl hok
  · exact .inr ⟨e, r₁, hrule, hr₁, he ▸ Ends.ended k.next.content ts⟩

theorem Follows.andThen_must {next : α → Rule β} {D' : β → β → Prop}
    (h : Follows k limit At rule (fun _ _ => False) E)
    (hn : ∀ a, Follows k limit Anywhere (next a) D' (Stop k.next.content)) :
    Follows k limit At (rule >>= next) D' E :=
  h.andThen hn fun _ _ hd => hd.elim

theorem Follows.andThen_needs {next : α → Rule β} {D' : β → β → Prop} (h : Follows k limit At rule D E)
    (hn : ∀ a, Follows k limit Anywhere (next a) D' (Stop k.next.content)) (hneeds : ∀ a, Needs (next a)) :
    Follows k limit At (rule >>= next) D' E :=
  h.andThen hn fun a _ _ => (hneeds a).rests rfl

end Ends

theorem failExpecting_needs (expected : List String) : Needs (failExpecting expected : Rule α) := by
  intro r hend
  refine ⟨⟨.unexpectedEnd, r.current.span, r.current.position⟩, ?_, rfl⟩
  show (if r.current.content.isEnd = true then failHere .unexpectedEnd
    else failHere (.unexpectedToken r.current.content expected) : Rule α) r = _
  rw [if_pos hend]
  rfl

theorem failHere_follows (cause : ParseCause) : Follows k limit At (failHere cause : Rule α) D E where
  lasting := .fail fun _ => ⟨_, rfl⟩
  outcome _ _ _ hrule' := by cases hrule'

theorem failHere_fails (cause : ParseCause) (hb : B cause) : Fails k (failHere cause : Rule α) B :=
  fun r hr => ⟨_, r, rfl, hr, hb⟩

/-- At the end of the source the end itself is taken, and it is not a name. -/
theorem take_fails {next : Located Token → Rule α} {e : Located Token → ParseError}
    (hn : ∀ t, t.content.name? = none → next t = throw (e t))
    (hb : ∀ t, t.content = .endOfFile → B (e t).content) : Fails k (take >>= next) B := by
  intro r hr
  refine ⟨e r.current, r.shift, ?_, hr.shift, hb _ (eq_end hr.ended)⟩
  show next r.current r.shift = _
  rw [hn r.current (by rw [eq_end hr.ended]; rfl)]
  rfl

theorem failExpecting_error (expected : List String) (r : Reader) :
    ∃ e, (failExpecting expected : Rule α) r = .error e r := by
  show ∃ e, (if r.current.content.isEnd = true then failHere .unexpectedEnd
    else failHere (.unexpectedToken r.current.content expected) : Rule α) r = .error e r
  split
  · exact ⟨_, rfl⟩
  · exact ⟨_, rfl⟩

theorem failExpecting_follows (expected : List String) :
    Follows k limit At (failExpecting expected : Rule α) D E where
  lasting := .fail (failExpecting_error expected)
  outcome {r r' a' r₁'} _ _ _ hrule' := by
    obtain ⟨e, he⟩ := failExpecting_error (α := α) expected r'
    rw [he] at hrule'
    cases hrule'

section Tested

variable {test : Token → Bool} (hend : test .endOfFile = false)
include hend

theorem test_of_end {r : Reader} (h : r.current.content.isEnd = true) : test r.current.content = false := by
  rw [eq_end h]
  exact hend

theorem Needs.unless {yes no : Rule α} (h : Needs no) :
    Needs (Rule.check test >>= fun b => if b = true then yes else no) := by
  intro r hr
  obtain ⟨e, he, hcontent⟩ := h r hr
  refine ⟨e, ?_, hcontent⟩
  show (if test r.current.content = true then yes else no) r = _
  rw [test_of_end hend hr, if_neg (by decide), he]

theorem expect_needs (expected : List String) : Needs (do
    if ← Rule.check test then return (← Rule.take).span
    else failExpecting expected : Rule Span) := .unless hend (failExpecting_needs expected)

theorem expect_follows (expected : List String) [Ends k.next.content E] : Follows k limit Anywhere (do
    if ← Rule.check test then return (← Rule.take).span
    else failExpecting expected : Rule Span) (fun _ _ => False) E := by
  refine .single (f := fun t => if test t.content = true then some t.span else none) ?_ ?_ ?_
  · intro r s hs
    show (if test r.current.content = true then _ else failExpecting expected : Rule Span) r = _
    split at hs
    · next htest =>
      cases hs
      rw [if_pos htest]
      rfl
    · cases hs
  · intro r hs
    split at hs
    · cases hs
    · next htest =>
      obtain ⟨e, he⟩ := failExpecting_error (α := Span) expected r
      refine ⟨e, ?_⟩
      show (if test r.current.content = true then _ else failExpecting expected : Rule Span) r = _
      rw [if_neg htest, he]
  · intro _ r h
    obtain ⟨e, hrule, hcontent⟩ := expect_needs hend expected r h
    exact ⟨e, hrule, hcontent ▸ Ends.ended k.next.content []⟩

/-- Taking the current token if it passes a test. -/
theorem takeIf_follows : Follows k limit Anywhere (do
    if ← Rule.check test then
      let _ ← Rule.take
      return true
    else return false : Rule Bool)
    (fun b b' => b = false ∧ b' = true ∧ test k.next.content = true) E := by
  refine .test hend ?_ (.pure false) fun hnext => .pure ?_
  · exact Follows.take.chain (P := fun _ _ _ => True) (fun _ _ _ _ _ => trivial) (fun _ => .pure true)
      fun _ _ _ hd => hd.elim
  · rintro r' a' r₁' ⟨⟩
    exact ⟨rfl, rfl, hnext⟩

theorem takeIf_end {r : Reader} (h : r.current.content.isEnd = true) : (do
    if ← Rule.check test then
      let _ ← Rule.take
      return true
    else return false : Rule Bool) r = .ok false r := by
  show (if test r.current.content = true then _ else Pure.pure false : Rule Bool) r = _
  rw [test_of_end hend h, if_neg (by decide)]
  rfl

end Tested

theorem expectSign_needs (sign : Symbol) : Needs (expectSign sign) := expect_needs rfl _

theorem expectSign_follows (sign : Symbol) [Ends k.next.content E] :
    Follows k limit Anywhere (expectSign sign) (fun _ _ => False) E := expect_follows rfl _

theorem expectWord_follows (word : Keyword) [Ends k.next.content E] :
    Follows k limit Anywhere (expectWord word) (fun _ _ => False) E := expect_follows rfl _

theorem takeSign_follows (sign : Symbol) : Follows k limit Anywhere (takeSign sign)
    (fun b b' => b = false ∧ b' = true ∧ k.next.content = .symbol sign) E :=
  (takeIf_follows rfl).mono (fun _ _ h => ⟨h.1, h.2.1, isSymbol_iff.1 h.2.2⟩) fun _ _ h => h

theorem takeWord_follows (word : Keyword) : Follows k limit Anywhere (takeWord word)
    (fun b b' => b = false ∧ b' = true ∧ k.next.content = .keyword word) E :=
  (takeIf_follows rfl).mono (fun _ _ h => ⟨h.1, h.2.1, isKeyword_iff.1 h.2.2⟩) fun _ _ h => h

/-- At the end of the source nothing is taken. -/
theorem Rests.takeSign {sign : Symbol} {next : Bool → Rule α} (h : Rests k (next false) rule' D B) :
    Rests k (takeSign sign >>= next) rule' D B := by
  refine h.congr fun r hend => ?_
  have htake : Rule.takeSign sign r = .ok false r := takeIf_end rfl hend
  simp only [Bind.bind, EStateM.bind, htake]

theorem Rests.takeWord {word : Keyword} {next : Bool → Rule α} (h : Rests k (next false) rule' D B) :
    Rests k (takeWord word >>= next) rule' D B := by
  refine h.congr fun r hend => ?_
  have htake : Rule.takeWord word r = .ok false r := takeIf_end rfl hend
  simp only [Bind.bind, EStateM.bind, htake]

theorem Needs.takeWord {word : Keyword} {next : Bool → Rule α} (h : Needs (next false)) :
    Needs (takeWord word >>= next) := by
  intro r hend
  have htake : Rule.takeWord word r = .ok false r := takeIf_end rfl hend
  rw [bind_of_ok htake]
  exact h r hend

def identifier? (t : Located Token) : Option Identifier :=
  match t.content with
  | .identifier name => some ⟨name, t.span⟩
  | _ => none

theorem identifier_of_some {r : Reader} {id : Identifier} (h : identifier? r.current = some id) :
    identifier r = .ok id r.shift := by
  unfold identifier? at h
  unfold identifier
  rw [current_bind]
  split at h
  · next hc =>
    rw [hc]
    cases h
    rfl
  · cases h

theorem identifier_of_none {r : Reader} (h : identifier? r.current = none) :
    ∃ e, identifier r = .error e r := by
  unfold identifier? at h
  unfold identifier
  rw [current_bind]
  cases hc : r.current.content with
  | identifier name =>
    rw [hc] at h
    cases h
  | _ => exact ⟨_, rfl⟩

theorem identifier_needs : Needs identifier := by
  intro r hend
  refine ⟨⟨.unexpectedEnd, r.current.span, r.current.position⟩, ?_, rfl⟩
  unfold identifier
  rw [current_bind, eq_end hend]
  rfl

theorem identifier_follows [Ends k.next.content E] :
    Follows k limit Anywhere identifier (fun _ _ => False) E := by
  refine .single (fun _ _ => identifier_of_some) (fun _ => identifier_of_none) fun _ r hend => ?_
  obtain ⟨e, hrule, hcontent⟩ := identifier_needs r hend
  exact ⟨e, hrule, hcontent ▸ Ends.ended k.next.content []⟩

theorem semicolon_of_not {r : Reader} (h : r.current.content.isSymbol .semicolon = false) :
    ∃ e, semicolon r = .error e r ∧ e.content = .missingSemicolon := by
  unfold semicolon
  show ∃ e, (if r.current.content.isSymbol .semicolon = true then _ else _ : Rule Span) r = .error e r ∧ _
  rw [h, if_neg (by decide), get_bind]
  cases r.previous with
  | none => exact ⟨_, rfl, rfl⟩
  | some token => exact ⟨_, rfl, rfl⟩

/-- A semicolon that is missing at the end of the source is not taken for the end. -/
theorem semicolon_follows : Follows k limit Anywhere semicolon (fun _ _ => False)
    fun c us => c = .missingSemicolon ∧ us = [] := by
  refine .single (f := fun t => if t.content.isSymbol .semicolon = true then some t.span else none) ?_ ?_ ?_
  · intro r s hs
    unfold semicolon
    show (if r.current.content.isSymbol .semicolon = true then _ else _ : Rule Span) r = _
    split at hs
    · next htest =>
      cases hs
      rw [if_pos htest]
      rfl
    · cases hs
  · intro r hs
    split at hs
    · cases hs
    · next htest =>
      obtain ⟨e, he, -⟩ := semicolon_of_not (Bool.eq_false_iff.2 htest)
      exact ⟨e, he⟩
  · intro _ r hend
    obtain ⟨e, he, hcontent⟩ := semicolon_of_not (r := r) (by rw [eq_end hend]; rfl)
    exact ⟨e, he, hcontent, rfl⟩

theorem semicolon_fails (hb : B .missingSemicolon) : Fails k semicolon B := by
  intro r hr
  obtain ⟨e, he, hcontent⟩ := semicolon_of_not (r := r) (by rw [eq_end hr.ended]; rfl)
  exact ⟨e, r, he, hr, hcontent ▸ hb⟩

section Rows

variable {item : Rule α} (hitem : Follows k limit Anywhere item D E)
  (he : ∀ c ts us, E c us → E c (ts ++ .symbol .comma :: us))
include hitem he

/-- One phrase, and after a comma the rest of the row. -/
theorem item_follows {rest : Rule (List α)} (hrest : Follows k limit Anywhere rest (fun _ _ => True) E) :
    Follows k limit Anywhere (do
      let x ← item
      if ← takeSign .comma then return x :: (← rest)
      else return [x]) (fun _ _ => True) E := by
  refine hitem.chain (P := fun _ _ _ => True) (fun _ _ _ _ _ => trivial) (fun a => ?_)
    fun a a' ts _ _ => .takeSign (.pure fun _ => trivial)
  refine (takeSign_follows .comma).bind (takeSign_takes .comma) (fun more => ?_) ?_
  · cases more with
    | false => exact .pure [a]
    | true =>
      refine (hrest.map fun _ _ _ => trivial).mono (fun _ _ h => h) ?_
      rintro c us hus cs hcs ts -
      obtain ⟨-, rfl⟩ : true = true ∧ cs = [.symbol .comma] := by simpa using hcs
      exact he c ts us hus
  · rintro _ _ ts ⟨rfl, rfl, -⟩ _
    exact .pure fun _ => trivial

theorem separated_follows {stop : Symbol}
    (hfails : k.next.content = .symbol stop → Fails k item fun c => E c []) (n : Nat) :
    Follows k limit Anywhere (separated item stop n) (fun _ _ => True) E := by
  induction n with
  | zero => exact .pure []
  | succ n ih =>
    exact .test rfl (.pure []) (item_follows hitem he ih).weaken
      fun hstop => ((hfails (isSymbol_iff.1 hstop)).bind _).rests

theorem sequence_follows (n : Nat) :
    Follows k limit Anywhere (sequence item n) (fun _ _ => True) E := by
  induction n with
  | zero => exact .pure []
  | succ n ih => exact item_follows hitem he ih

end Rows

end Rule

end Scriptlet
