import Scriptlet.Program.Parser

/-! What a reader has in view: the tokens up to the end of the file, whatever comments and lexical errors
stand between them. All that a rule does to a reader is to pass over tokens, to note errors and to set
whether it recovers, and `Passes` says what is left after that. -/
namespace Scriptlet

def Item.token? : Item → Option Token
  | ⟨.ok .comment, _, _⟩ => none
  | ⟨.ok t, _, _⟩ => some t
  | ⟨.error _, _, _⟩ => none

def itemTokens (items : List Item) : List Token := items.filterMap Item.token?

/-- No item is a lexical error. -/
def ItemsSound (items : List Item) : Prop := ∀ i ∈ items, ∃ t, i.content = .ok t

/-- Nothing stands behind the end of the file. -/
def EndsLast : List Item → Prop
  | [] => True
  | item :: rest => (item.token? = some .endOfFile → rest = []) ∧ EndsLast rest

namespace Reader

def ahead (r : Reader) : List Token := r.current.content :: r.next.content :: itemTokens r.items

def tokens (r : Reader) : List Token := r.ahead.takeWhile (!·.isEnd)

/-- No error was noted and none will come into view. -/
def Flawless (r : Reader) : Prop := r.latestErrors = [] ∧ ItemsSound r.items

/-- A reader recovers only from errors that it noted, and has nothing behind the end of the file. -/
structure Consistent (r : Reader) : Prop where
  noted : r.recovering = true → r.latestErrors ≠ []
  ended : r.current.content.isEnd = true → r.next.content.isEnd = true
  emptied : r.next.content.isEnd = true → r.items = []
  sealed : EndsLast r.items

theorem fetch_kept (r : Reader) (items : List Item) :
    (r.fetch items).current = r.current ∧ (r.fetch items).recovering = r.recovering := by
  fun_induction fetch r items with
  | case1 => exact ⟨rfl, rfl⟩
  | case2 r span _ rest ih => exact ih
  | case3 r cause span position rest ih => exact ih
  | case4 => exact ⟨rfl, rfl⟩

theorem fetch_tokens (r : Reader) (items : List Item) :
    (r.fetch items).next.content = (itemTokens items).headD .endOfFile ∧
      itemTokens (r.fetch items).items = (itemTokens items).tail := by
  fun_induction fetch r items with
  | case1 => exact ⟨rfl, rfl⟩
  | case2 r span _ rest ih => exact ih
  | case3 r cause span position rest ih => exact ih
  | case4 r token span position rest h =>
    cases token with
    | comment => exact (h rfl).elim
    | _ => exact ⟨rfl, rfl⟩

theorem fetch_flawless (r : Reader) (items : List Item) :
    (r.fetch items).Flawless ↔ r.latestErrors = [] ∧ ItemsSound items := by
  fun_induction fetch r items with
  | case1 => simp [Flawless, ItemsSound]
  | case2 r span _ rest ih => rw [ih]; simp [ItemsSound]
  | case3 r cause span position rest ih => rw [ih]; simp [ItemsSound]
  | case4 r token span position rest h => simp [Flawless, ItemsSound]

theorem fetch_unnoted (r : Reader) (items : List Item) (h : (r.fetch items).latestErrors = []) :
    r.latestErrors = [] := by
  fun_induction fetch r items with
  | case1 => exact h
  | case2 r span _ rest ih => exact ih h
  | case3 r cause span position rest ih => cases ih h
  | case4 => exact h

theorem fetch_sealed (r : Reader) (items : List Item) (h : EndsLast items) :
    ((r.fetch items).next.content.isEnd = true → (r.fetch items).items = []) ∧
      EndsLast (r.fetch items).items := by
  fun_induction fetch r items with
  | case1 => exact ⟨fun _ => rfl, trivial⟩
  | case2 r span _ rest ih => exact ih h.2
  | case3 r cause span position rest ih => exact ih h.2
  | case4 r token span position rest hc =>
    refine ⟨fun he => h.1 ?_, h.2⟩
    cases token with
    | endOfFile => rfl
    | _ => cases he

/-- At the end of the file no error can come into view. -/
theorem Consistent.flawless_iff {r : Reader} (h : r.Consistent) (he : r.current.content.isEnd = true) :
    r.Flawless ↔ r.latestErrors = [] := by
  rw [Flawless, h.emptied (h.ended he)]
  simp [ItemsSound]

theorem shift_ahead (r : Reader) :
    r.shift.ahead = r.ahead.tail ∨ r.shift.ahead = r.ahead.tail ++ [.endOfFile] := by
  unfold shift ahead
  rw [(fetch_kept _ _).1, (fetch_tokens _ _).1, (fetch_tokens _ _).2]
  cases itemTokens r.items with
  | nil => exact .inr rfl
  | cons t ts => exact .inl rfl

theorem takeWhile_end (ts : List Token) :
    (ts ++ [Token.endOfFile]).takeWhile (!·.isEnd) = ts.takeWhile (!·.isEnd) := by
  induction ts with
  | nil => rfl
  | cons t ts ih => simp [List.takeWhile_cons, ih]

theorem shift_tokens (r : Reader) : r.shift.tokens = r.ahead.tail.takeWhile (!·.isEnd) := by
  rcases shift_ahead r with h | h
  · rw [tokens, h]
  · rw [tokens, h, takeWhile_end]

theorem tokens_eq (r : Reader) : r.tokens =
    if r.current.content.isEnd then [] else r.current.content :: r.shift.tokens := by
  rw [shift_tokens]
  unfold tokens ahead
  cases h : r.current.content.isEnd <;> simp [List.takeWhile_cons, h]

theorem tokens_of_end {r : Reader} (h : r.current.content.isEnd = true) : r.tokens = [] := by
  rw [tokens_eq, h]
  rfl

theorem tokens_of_not_end {r : Reader} (h : r.current.content.isEnd = false) :
    r.tokens = r.current.content :: r.shift.tokens := by
  rw [tokens_eq, h]
  rfl

theorem current_of_tokens {r : Reader} {t : Token} {ts : List Token} (h : r.tokens = t :: ts) :
    r.current.content = t ∧ r.shift.tokens = ts := by
  cases he : r.current.content.isEnd with
  | true =>
    rw [tokens_of_end he] at h
    cases h
  | false =>
    rw [tokens_of_not_end he] at h
    cases h
    exact ⟨rfl, rfl⟩

theorem tokens_headD (r : Reader) : r.tokens.headD .endOfFile = r.current.content := by
  cases he : r.current.content.isEnd with
  | true =>
    rw [tokens_of_end he]
    cases hc : r.current.content with
    | endOfFile => rfl
    | _ =>
      rw [hc] at he
      cases he
  | false =>
    rw [tokens_of_not_end he]
    rfl

/-- What rules do to readers: they pass over tokens and may note errors, and they note all those that they
pass over. -/
structure Passes (r r' : Reader) (ts : List Token) : Prop where
  consistent : r'.Consistent
  tokens : r.tokens = ts ++ r'.tokens
  unnoted : r'.latestErrors = [] → r.latestErrors = []
  flawless : r'.Flawless → r.Flawless

theorem Consistent.passes_self {r : Reader} (h : r.Consistent) : r.Passes r [] :=
  ⟨h, rfl, id, id⟩

theorem Passes.trans {r r' r'' : Reader} {ts us : List Token} (h : r.Passes r' ts)
    (h' : r'.Passes r'' us) : r.Passes r'' (ts ++ us) where
  consistent := h'.consistent
  tokens := by rw [h.tokens, h'.tokens, List.append_assoc]
  unnoted hn := h.unnoted (h'.unnoted hn)
  flawless hf := h.flawless (h'.flawless hf)

theorem shift_flawless (r : Reader) : r.shift.Flawless ↔ r.Flawless := fetch_flawless _ _

theorem shift_unnoted (r : Reader) (h : r.shift.latestErrors = []) : r.latestErrors = [] :=
  fetch_unnoted { r with previous := some r.current, current := r.next } r.items h

theorem shift_recovering (r : Reader) : r.shift.recovering = r.recovering :=
  (fetch_kept _ _).2

theorem consistent_shift {r : Reader} (hnoted : r.recovering = true → r.latestErrors ≠ [])
    (hemptied : r.next.content.isEnd = true → r.items = []) (hsealed : EndsLast r.items) :
    r.shift.Consistent where
  noted hr := by
    rw [shift_recovering] at hr
    exact fun he => hnoted hr (r.shift_unnoted he)
  ended hr := by
    rw [Reader.shift, (fetch_kept _ _).1] at hr
    rw [Reader.shift, hemptied hr]
    rfl
  emptied hr := (fetch_sealed _ _ hsealed).1 hr
  sealed := (fetch_sealed _ _ hsealed).2

theorem Consistent.shift {r : Reader} (h : r.Consistent) : r.shift.Consistent :=
  consistent_shift h.noted h.emptied h.sealed

/-- Bringing the next token into view passes over the current one, if there is one. -/
theorem Consistent.passes_shift {r : Reader} (h : r.Consistent) :
    r.Passes r.shift (r.tokens.take 1) where
  consistent := h.shift
  unnoted := r.shift_unnoted
  flawless := (shift_flawless r).1
  tokens := by
    cases he : r.current.content.isEnd with
    | false =>
      rw [tokens_of_not_end he]
      rfl
    | true =>
      have hnext : r.shift.current.content.isEnd = true := by
        rw [Reader.shift, (fetch_kept _ _).1]
        exact h.ended he
      rw [tokens_of_end he, tokens_of_end hnext]
      rfl

theorem start_tokens (items : List Item) :
    (start items).tokens = (itemTokens items).takeWhile (!·.isEnd) := by
  show (shift (shift { items })).tokens = _
  rw [shift_tokens]
  rcases shift_ahead { items } with h | h
  · rw [h]
    rfl
  · rw [h]
    exact takeWhile_end _

theorem start_flawless (items : List Item) : (start items).Flawless ↔ ItemsSound items := by
  show (shift (shift { items })).Flawless ↔ _
  rw [shift_flawless, shift_flawless]
  simp [Flawless]

theorem start_consistent {items : List Item} (h : EndsLast items) : (start items).Consistent := by
  have hsealed := fetch_sealed { items, previous := some ⟨.endOfFile, .point 0, {}⟩ } items h
  have hc : (shift (shift { items })).Consistent := by
    refine consistent_shift ?_ hsealed.1 hsealed.2
    intro hr
    rw [shift_recovering] at hr
    cases hr
  exact ⟨hc.noted, hc.ended, hc.emptied, hc.sealed⟩

theorem start_recovering (items : List Item) : (start items).recovering = false := by
  show (shift (shift { items })).recovering = false
  rw [shift_recovering, shift_recovering]

theorem tokens_length_lt (r : Reader) : r.tokens.length < r.remaining := by
  have htake : r.tokens.length ≤ r.ahead.length := (List.takeWhile_prefix _).length_le
  have hitems : (itemTokens r.items).length ≤ r.items.length := List.length_filterMap_le _ _
  simp only [ahead, List.length_cons] at htake
  rw [remaining]
  omega

end Reader

end Scriptlet
