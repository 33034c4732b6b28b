import Scriptlet.Proofs.Syntax.Tiling
import Scriptlet.Proofs.Syntax.Windowing

/-! Where a reader of a source stands. Of the items that came into view, the comments and lexical errors are
noted, each once and in the order of the source; and every error that was noted has its ends where characters
have theirs, as far as 32 bits tell. Of a source whose offsets fit in 32 bits more is known: the tokens that
are still to be taken are in order, and ranges lie in the source. -/
namespace Scriptlet

/-- The offsets of the text fit in 32 bits. -/
def Addressable (cs : List Char) : Prop := byteLength cs < UInt32.size

theorem addressable_iff {source : String} : Addressable source.toList ↔ source.utf8ByteSize < UInt32.size := by
  rw [Addressable, byteLength_toList]

/-- What 32 bits hold of an offset at which a character of the text starts or the text ends. -/
def Marks (cs : List Char) (offset : Nat) : Prop := ∃ exact, OnBoundary cs exact ∧ offset = exact % UInt32.size

theorem OnBoundary.marks {cs : List Char} {offset : Nat} (h : OnBoundary cs offset) :
    Marks cs (offset % UInt32.size) := ⟨offset, h, rfl⟩

theorem OnBoundary.narrow_eq {cs : List Char} {offset : Nat} (h : OnBoundary cs offset) (hfits : Addressable cs) :
    offset % UInt32.size = offset := Nat.mod_eq_of_lt (Nat.lt_of_le_of_lt h.le hfits)

theorem Marks.onBoundary {cs : List Char} {offset : Nat} (h : Marks cs offset) (hfits : Addressable cs) :
    OnBoundary cs offset := by
  obtain ⟨exact, hexact, rfl⟩ := h
  rw [hexact.narrow_eq hfits]
  exact hexact

namespace Span

/-- The ends of the range are marks of the text. Where the offsets fit they are in order, the first not before
`lower` and the last not after `upper`. -/
structure Within (cs : List Char) (lower : Nat) (s : Span) (upper : Nat) : Prop where
  start : Marks cs s.start
  stop : Marks cs s.stop
  lower : Addressable cs → lower ≤ s.start
  ordered : Addressable cs → s.start ≤ s.stop
  upper : Addressable cs → s.stop ≤ upper

namespace Within

variable {cs : List Char} {lower lower' upper upper' : Nat} {s t : Span}

theorem mono (h : s.Within cs lower upper) (hl : Addressable cs → lower' ≤ lower)
    (hu : Addressable cs → upper ≤ upper') : s.Within cs lower' upper' :=
  { h with
    lower := fun hfits => Nat.le_trans (hl hfits) (h.lower hfits)
    upper := fun hfits => Nat.le_trans (h.upper hfits) (hu hfits) }

/-- From the start of one range to the end of another that does not end before it. -/
theorem join (hs : s.Within cs lower upper) (ht : t.Within cs lower upper) (h : Addressable cs → s.start ≤ t.stop) :
    Within cs lower ⟨s.start, t.stop⟩ upper := ⟨hs.start, ht.stop, hs.lower, h, ht.upper⟩

theorem merge (hs : s.Within cs lower upper) (ht : t.Within cs lower upper) :
    (s.merge t).Within cs lower upper where
  start := by
    rw [merge_start]
    rcases Nat.le_total s.start t.start with hle | hle
    · rw [Nat.min_eq_left hle]
      exact hs.start
    · rw [Nat.min_eq_right hle]
      exact ht.start
  stop := by
    rw [merge_stop]
    rcases Nat.le_total s.stop t.stop with hle | hle
    · rw [Nat.max_eq_right hle]
      exact ht.stop
    · rw [Nat.max_eq_left hle]
      exact hs.stop
  lower hfits := by
    rw [merge_start]
    exact Nat.le_min.2 ⟨hs.lower hfits, ht.lower hfits⟩
  ordered hfits := by
    have hordered := hs.ordered hfits
    rw [merge_start, merge_stop]
    omega
  upper hfits := by
    rw [merge_stop]
    exact Nat.max_le.2 ⟨hs.upper hfits, ht.upper hfits⟩

end Within

/-- The range is one of the text. -/
def InText (cs : List Char) (s : Span) : Prop := s.Within cs 0 (byteLength cs)

theorem Within.inText {cs : List Char} {lower upper : Nat} {s : Span} (h : s.Within cs lower upper) :
    s.InText cs :=
  { h with
    lower := fun _ => Nat.zero_le _
    upper := fun hfits => (h.stop.onBoundary hfits).le }

theorem inText_point {cs : List Char} {offset : Nat} (h : Marks cs offset) : (point offset).InText cs :=
  ⟨h, h, fun _ => Nat.zero_le _, fun _ => Nat.le_refl _, fun hfits => (h.onBoundary hfits).le⟩

end Span

theorem onBoundary_end (cs : List Char) : OnBoundary cs (byteLength cs) := ⟨cs, [], by simp, rfl⟩

def Span.last (cs : List Char) : Span := .point (byteLength cs % UInt32.size)

namespace Item

def located? : Item → Option (Located Token)
  | ⟨.ok .comment, _, _⟩ => none
  | ⟨.ok t, span, position⟩ => some ⟨t, span, position⟩
  | ⟨.error _, _, _⟩ => none

def comment? : Item → Option Span
  | ⟨.ok .comment, span, _⟩ => some span
  | _ => none

def error? : Item → Option ParseError
  | ⟨.error cause, span, position⟩ => some ⟨.lexical cause, span, position⟩
  | _ => none

theorem located?_ok {t : Token} (h : t ≠ .comment) (span : Span) (position : Position) :
    located? ⟨.ok t, span, position⟩ = some ⟨t, span, position⟩ := by
  cases t with
  | comment => exact (h rfl).elim
  | _ => rfl

theorem comment?_ok {t : Token} (h : t ≠ .comment) (span : Span) (position : Position) :
    comment? ⟨.ok t, span, position⟩ = none := by
  cases t with
  | comment => exact (h rfl).elim
  | _ => rfl

theorem located?_span {i : Item} {t : Located Token} (h : i.located? = some t) :
    i.content = .ok t.content ∧ i.span = t.span := by
  obtain ⟨content, span, position⟩ := i
  cases content with
  | error cause => cases h
  | ok token =>
    cases token with
    | comment => cases h
    | _ =>
      cases h
      exact ⟨rfl, rfl⟩

theorem error?_span {i : Item} {e : ParseError} (h : i.error? = some e) :
    e.content.isLexical = true ∧ i.span = e.span := by
  obtain ⟨content, span, position⟩ := i
  cases content with
  | ok token => cases h
  | error cause =>
    cases h
    exact ⟨rfl, rfl⟩

end Item

/-- A token in its place in a text: only the end of the file is empty, and it stands at the end. -/
structure InPlace (cs : List Char) (t : Located Token) : Prop where
  within : t.span.InText cs
  filled : Addressable cs → t.content.isEnd = false → t.span.start < t.span.stop
  last : t.content.isEnd = true → t.span = .last cs

theorem inPlace_end (cs : List Char) (position : Position) : InPlace cs ⟨.endOfFile, .last cs, position⟩ :=
  ⟨Span.inText_point (onBoundary_end cs).marks, fun _ h => (by cases h), fun _ => rfl⟩

theorem Item.Stands.narrow_span {cs : List Char} {i : Item} (h : i.Stands cs) (hfits : Addressable cs) :
    i.narrow.span = i.span := by
  show Span.mk (i.span.start % UInt32.size) (i.span.stop % UInt32.size) = _
  rw [h.start_onBoundary.narrow_eq hfits, h.stop_onBoundary.narrow_eq hfits]

theorem Item.Stands.inText {cs : List Char} {i : Item} (h : i.Stands cs) : i.narrow.span.InText cs where
  start := h.start_onBoundary.marks
  stop := h.stop_onBoundary.marks
  lower _ := Nat.zero_le _
  ordered hfits := by
    rw [h.narrow_span hfits]
    exact Nat.le_of_lt h.start_lt_stop
  upper hfits := by
    rw [h.narrow_span hfits]
    exact h.stop_onBoundary.le

theorem Item.Stands.inPlace {cs : List Char} {i : Item} {t : Located Token} (h : i.Stands cs)
    (ht : i.narrow.located? = some t) : InPlace cs t := by
  obtain ⟨hcontent, hspan⟩ := i.narrow.located?_span ht
  refine ⟨hspan ▸ h.inText, fun hfits _ => ?_, fun hend => ?_⟩
  · rw [← hspan, h.narrow_span hfits]
    exact h.start_lt_stop
  · have hnot : i.narrow.content ≠ .ok .endOfFile := h.not_end
    rw [hcontent] at hnot
    cases hc : t.content with
    | endOfFile => exact (hnot (by rw [hc])).elim
    | _ =>
      rw [hc] at hend
      cases hend

/-- Where the offsets fit, the ranges of items come through the window as they are. -/
theorem scan_spans {source : String} (hfits : Addressable source.toList) :
    (scan source).map (·.span) = (lex source).map (·.span) := by
  obtain ⟨body, position, hlex, hbody, -⟩ := (lex_tiling source).split
  rw [scan_eq, List.map_map]
  refine List.map_congr_left fun i hi => ?_
  rw [hlex] at hi
  rcases List.mem_append.1 hi with hi | hi
  · exact (hbody i hi).1.narrow_span hfits
  · rw [List.mem_singleton.1 hi]
    exact congrArg Span.point ((onBoundary_end _).narrow_eq hfits)

/-- What is known of the items of a source that matters to a reader: the ranges of all of them, and the
order and places of the tokens, the last of which is the end of the file. -/
structure InOrder (cs : List Char) (items : List Item) : Prop where
  ranges : ∀ i ∈ items, i.span.InText cs
  apart : Addressable cs → items.Pairwise fun i j => i.span.stop ≤ j.span.start
  places : ∀ t ∈ items.filterMap Item.located?, InPlace cs t
  ended : ∃ t ∈ items.filterMap Item.located?, t.content.isEnd = true

theorem scan_inOrder (source : String) : InOrder source.toList (scan source) := by
  obtain ⟨body, position, hlex, hbody, hordered⟩ := (lex_tiling source).split
  have hitems : scan source =
      body.map Item.narrow ++ [⟨.ok .endOfFile, .last source.toList, position.narrow⟩] := by
    rw [scan_eq, hlex, List.map_append]
    rfl
  refine ⟨?_, ?_, ?_, ?_⟩
  · intro i hi
    rw [hitems] at hi
    rcases List.mem_append.1 hi with hi | hi
    · obtain ⟨j, hj, rfl⟩ := List.mem_map.1 hi
      exact (hbody j hj).1.inText
    · rw [List.mem_singleton.1 hi]
      exact Span.inText_point (onBoundary_end _).marks
  · intro hfits
    rw [hitems, List.pairwise_append, List.pairwise_map]
    refine ⟨hordered.imp_of_mem ?_, List.pairwise_singleton _ _, ?_⟩
    · intro i j hi hj hij
      rw [(hbody i hi).1.narrow_span hfits, (hbody j hj).1.narrow_span hfits]
      exact hij
    · intro i hi j hj
      obtain ⟨k, hk, rfl⟩ := List.mem_map.1 hi
      rw [List.mem_singleton.1 hj]
      show _ ≤ byteLength source.toList % UInt32.size
      rw [(onBoundary_end _).narrow_eq hfits]
      exact (hbody k hk).1.inText.upper hfits
  · intro t ht
    obtain ⟨i, hi, hloc⟩ := List.mem_filterMap.1 ht
    rw [hitems] at hi
    rcases List.mem_append.1 hi with hi | hi
    · obtain ⟨j, hj, rfl⟩ := List.mem_map.1 hi
      exact (hbody j hj).1.inPlace hloc
    · rw [List.mem_singleton.1 hi] at hloc
      cases hloc
      exact inPlace_end _ _
  · refine ⟨⟨.endOfFile, .last source.toList, position.narrow⟩, ?_, rfl⟩
    rw [hitems]
    exact List.mem_filterMap.2 ⟨_, List.mem_append_right _ (List.mem_singleton.2 rfl), rfl⟩

theorem InOrder.ordered {cs : List Char} {items : List Item} (h : InOrder cs items) (hfits : Addressable cs) :
    (items.filterMap Item.located?).Pairwise fun a b => a.span.stop ≤ b.span.start := by
  rw [List.pairwise_filterMap]
  refine (h.apart hfits).imp fun {i j} hij t ht u hu => ?_
  rw [← (i.located?_span ht).2, ← (j.located?_span hu).2]
  exact hij

namespace Reader

def row (r : Reader) : List (Located Token) := r.current :: r.next :: r.items.filterMap Item.located?

def stream (r : Reader) : List (Located Token) := r.row.takeWhile (!·.content.isEnd)

def left (r : Reader) : Nat := r.stream.length

def place (r : Reader) : Nat := r.current.span.start

/-- What a reader of a source has behind its current token, and what it noted on the way. -/
structure Primed (source : String) (r : Reader) : Prop where
  seen : ∃ passed, scan source = passed ++ r.items ∧ r.comments = passed.filterMap Item.comment? ∧
    r.errors.filter (·.content.isLexical) = passed.filterMap Item.error?
  places : ∀ t ∈ r.row.tail, InPlace source.toList t
  ordered : Addressable source.toList → r.row.tail.Pairwise fun a b => a.span.stop ≤ b.span.start
  ended : ∃ t ∈ r.row.tail, t.content.isEnd = true
  emptied : r.next.content.isEnd = true → r.items = []
  sealed : EndsLast r.items
  noted : ∀ e ∈ r.latestErrors, e.span.InText source.toList

/-- What a reader of a source is like between any two steps. -/
structure Placed (source : String) (r : Reader) : Prop extends Primed source r where
  inPlace : InPlace source.toList r.current
  closed : r.current.content.isEnd = true → r.next.content.isEnd = true
  before : Addressable source.toList → r.current.span.stop ≤ r.next.span.start
  previous : ∀ t, r.previous = some t → t.span.InText source.toList

theorem fetch_previous (r : Reader) (items : List Item) : (r.fetch items).previous = r.previous := by
  fun_induction fetch r items with
  | case1 => rfl
  | case2 r span _ rest ih => exact ih
  | case3 r cause span position rest ih => exact ih
  | case4 => rfl

/-- The next token is the first among the items, or the end of the file once more. -/
theorem fetch_row (r : Reader) (items : List Item) :
    (r.fetch items).next :: (r.fetch items).items.filterMap Item.located? =
        items.filterMap Item.located? ∨
      items.filterMap Item.located? = [] ∧ (r.fetch items).items = [] ∧
        (r.fetch items).next = ⟨.endOfFile, .point r.next.span.stop, r.next.position⟩ := by
  fun_induction fetch r items with
  | case1 => exact .inr ⟨rfl, rfl, rfl⟩
  | case2 r span _ rest ih => exact ih
  | case3 r cause span position rest ih => exact ih
  | case4 r token span position rest h =>
    left
    have htoken : token ≠ .comment := fun he => h (by rw [he])
    rw [List.filterMap_cons_some (Item.located?_ok htoken span position)]

/-- The comments and errors that are passed over are noted behind those noted before. -/
theorem fetch_seen (r : Reader) (items : List Item) : ∃ passed,
    items = passed ++ (r.fetch items).items ∧
      (r.fetch items).comments = r.comments ++ passed.filterMap Item.comment? ∧
      (r.fetch items).errors = r.errors ++ passed.filterMap Item.error? := by
  fun_induction fetch r items with
  | case1 => exact ⟨[], by simp [comments, errors]⟩
  | case2 r span position rest ih =>
    obtain ⟨passed, hitems, hcomments, herrors⟩ := ih
    refine ⟨⟨.ok .comment, span, position⟩ :: passed, by rw [List.cons_append, ← hitems], ?_, ?_⟩
    · rw [hcomments]
      simp [comments, Item.comment?]
    · rw [herrors, List.filterMap_cons_none rfl]
      rfl
  | case3 r cause span position rest ih =>
    obtain ⟨passed, hitems, hcomments, herrors⟩ := ih
    refine ⟨⟨.error cause, span, position⟩ :: passed, by rw [List.cons_append, ← hitems], ?_, ?_⟩
    · rw [hcomments, List.filterMap_cons_none rfl]
      rfl
    · rw [herrors]
      simp [errors, Item.error?]
  | case4 r token span position rest h =>
    have htoken : token ≠ .comment := fun he => h (by rw [he])
    refine ⟨[⟨.ok token, span, position⟩], rfl, ?_, ?_⟩
    · simp [comments, Item.comment?_ok htoken]
    · simp [errors, Item.error?]

theorem filter_lexical {items : List Item} :
    (items.filterMap Item.error?).filter (·.content.isLexical) = items.filterMap Item.error? := by
  rw [List.filter_eq_self]
  intro e he
  obtain ⟨i, -, hi⟩ := List.mem_filterMap.1 he
  exact (i.error?_span hi).1

theorem shift_current (r : Reader) : r.shift.current = r.next := (fetch_kept _ _).1

theorem shift_previous (r : Reader) : r.shift.previous = some r.current := fetch_previous _ _

/-- Behind the end of the file there is nothing but the end of the file. -/
theorem shift_closed {r : Reader} (hemptied : r.next.content.isEnd = true → r.items = [])
    (hend : r.shift.current.content.isEnd = true) : r.shift.next.content.isEnd = true := by
  rw [shift_current] at hend
  rw [shift, hemptied hend]
  rfl

namespace Primed

variable {source : String} {r : Reader} (h : r.Primed source)
include h

theorem next_inPlace : InPlace source.toList r.next := h.places _ List.mem_cons_self

theorem row_shift : r.shift.row = r.row.tail ∨
    r.next.content.isEnd = true ∧ ∃ position,
      r.shift.row = r.row.tail ++ [⟨.endOfFile, .last source.toList, position⟩] := by
  have hrow : r.shift.row = r.next :: r.shift.next :: r.shift.items.filterMap Item.located? := by
    rw [row, shift_current]
  rcases fetch_row { r with previous := some r.current, current := r.next } r.items with
    hfound | ⟨hnil, hitems, hnext⟩
  · left
    rw [hrow]
    exact congrArg (r.next :: ·) hfound
  · right
    have htail : r.row.tail = [r.next] := congrArg (r.next :: ·) hnil
    have hend : r.next.content.isEnd = true := by
      obtain ⟨t, ht, hend⟩ := h.ended
      rw [htail, List.mem_singleton] at ht
      exact ht ▸ hend
    have hstop : Span.point r.next.span.stop = .last source.toList := by
      rw [h.next_inPlace.last hend]
      rfl
    have hitems' : r.shift.items = [] := hitems
    have hnext' : r.shift.next = ⟨.endOfFile, .point r.next.span.stop, r.next.position⟩ := hnext
    refine ⟨hend, r.next.position, ?_⟩
    rw [hrow, hitems', hnext', htail, hstop]
    rfl

theorem seen_shift : ∃ passed more, scan source = passed ++ more ++ r.shift.items ∧
    r.comments = passed.filterMap Item.comment? ∧
    r.errors.filter (·.content.isLexical) = passed.filterMap Item.error? ∧
    r.shift.comments = r.comments ++ more.filterMap Item.comment? ∧
    r.shift.errors = r.errors ++ more.filterMap Item.error? := by
  obtain ⟨passed, hlex, hcomments, herrors⟩ := h.seen
  obtain ⟨more, hitems, hcomments', herrors'⟩ :=
    fetch_seen { r with previous := some r.current, current := r.next } r.items
  refine ⟨passed, more, ?_, hcomments, herrors, hcomments', herrors'⟩
  rw [hlex, List.append_assoc]
  exact congrArg _ hitems

/-- What comes into view is in its place. -/
theorem row_shift_places : ∀ t ∈ r.shift.row, InPlace source.toList t := by
  rcases h.row_shift with hrow | ⟨-, position, hrow⟩
  · rw [hrow]
    exact h.places
  · rw [hrow]
    intro t ht
    rcases List.mem_append.1 ht with ht | ht
    · exact h.places t ht
    · rw [List.mem_singleton.1 ht]
      exact inPlace_end _ _

theorem row_shift_ordered (hfits : Addressable source.toList) :
    r.shift.row.Pairwise fun a b => a.span.stop ≤ b.span.start := by
  rcases h.row_shift with hrow | ⟨-, position, hrow⟩
  · rw [hrow]
    exact h.ordered hfits
  · rw [hrow, List.pairwise_append]
    refine ⟨h.ordered hfits, List.pairwise_singleton _ _, fun t ht u hu => ?_⟩
    rw [List.mem_singleton.1 hu]
    show _ ≤ byteLength source.toList % UInt32.size
    rw [(onBoundary_end _).narrow_eq hfits]
    exact (h.places t ht).within.upper hfits

theorem ended_shift : ∃ t ∈ r.shift.row.tail, t.content.isEnd = true := by
  rcases h.row_shift with hrow | ⟨-, position, hrow⟩
  · obtain ⟨t, ht, hend⟩ := h.ended
    rw [← hrow] at ht
    rcases List.mem_cons.1 ht with rfl | ht
    · exact ⟨r.shift.next, List.mem_cons_self, shift_closed h.emptied hend⟩
    · exact ⟨t, ht, hend⟩
  · rw [hrow]
    exact ⟨⟨.endOfFile, .last source.toList, position⟩, by simp [row], rfl⟩

theorem noted_shift : ∀ e ∈ r.shift.latestErrors, e.span.InText source.toList := by
  intro e he
  obtain ⟨passed, more, hlex, -, -, -, herrors⟩ := h.seen_shift
  have hmem : e ∈ r.errors ++ more.filterMap Item.error? := by
    rw [← herrors]
    exact List.mem_reverse.2 he
  rcases List.mem_append.1 hmem with hmem | hmem
  · exact h.noted e (List.mem_reverse.1 hmem)
  · obtain ⟨i, hi, herror⟩ := List.mem_filterMap.1 hmem
    have hi' : i ∈ scan source := by
      rw [hlex]
      exact List.mem_append_left _ (List.mem_append_right _ hi)
    rw [← (i.error?_span herror).2]
    exact (scan_inOrder source).ranges i hi'

/-- Bringing the next token into view. -/
theorem shift (hcurrent : r.current.span.InText source.toList) : r.shift.Placed source := by
  have hplaces := h.row_shift_places
  have hordered := fun hfits => List.pairwise_cons.1 (h.row_shift_ordered hfits)
  obtain ⟨passed, more, hlex, hcomments, herrors, hcomments', herrors'⟩ := h.seen_shift
  obtain ⟨hemptied, hsealed⟩ :=
    fetch_sealed { r with previous := some r.current, current := r.next } r.items h.sealed
  refine {
    seen := ⟨passed ++ more, hlex, ?_, ?_⟩
    places := fun t ht => hplaces t (List.mem_of_mem_tail ht)
    ordered := fun hfits => (hordered hfits).2
    ended := h.ended_shift
    emptied := hemptied
    sealed := hsealed
    noted := h.noted_shift
    inPlace := hplaces _ List.mem_cons_self
    closed := shift_closed h.emptied
    before := fun hfits => (hordered hfits).1 _ List.mem_cons_self
    previous := ?_ }
  · rw [hcomments', hcomments, List.filterMap_append]
  · rw [herrors', List.filter_append, herrors, filter_lexical, List.filterMap_append]
  · intro t ht
    rw [shift_previous] at ht
    cases ht
    exact hcurrent

end Primed

theorem stream_of_end {r : Reader} (h : r.current.content.isEnd = true) : r.stream = [] := by
  show (r.current :: _).takeWhile _ = []
  simp [h]

theorem stream_of_not_end {r : Reader} (h : r.current.content.isEnd = false) :
    r.stream = r.current :: r.row.tail.takeWhile (!·.content.isEnd) := by
  show (r.current :: r.row.tail).takeWhile _ = _
  simp [h]

structure Leads (source : String) (r r' : Reader) : Prop where
  placed : r'.Placed source
  stream : r'.stream <:+ r.stream
  place : Addressable source.toList → r.place ≤ r'.place

namespace Leads

variable {source : String} {r r' r'' : Reader}

theorem refl (h : r.Placed source) : r.Leads source r := ⟨h, List.suffix_refl _, fun _ => Nat.le_refl _⟩

theorem trans (h : r.Leads source r') (h' : r'.Leads source r'') : r.Leads source r'' :=
  ⟨h'.placed, h'.stream.trans h.stream, fun hfits => Nat.le_trans (h.place hfits) (h'.place hfits)⟩

theorem left_le (h : r.Leads source r') : r'.left ≤ r.left := h.stream.length_le

/-- A reader that has taken nothing has the same token in view. -/
theorem current_eq (h : r.Leads source r') (hend : r.current.content.isEnd = false)
    (hleft : r.left ≤ r'.left) : r'.current = r.current := by
  have hsame : r'.stream = r.stream := h.stream.eq_of_length_le hleft
  rw [stream_of_not_end hend] at hsame
  cases hend' : r'.current.content.isEnd with
  | true =>
    rw [stream_of_end hend'] at hsame
    cases hsame
  | false =>
    rw [stream_of_not_end hend'] at hsame
    exact (List.cons.inj hsame).1

end Leads

namespace Placed

variable {source : String} {r : Reader} (h : r.Placed source)
include h

/-- Taking a token leaves the others. -/
theorem stream_shift : r.shift.stream = r.stream.tail := by
  have hcut : r.shift.stream = r.row.tail.takeWhile (!·.content.isEnd) := by
    rcases h.row_shift with hrow | ⟨hend, position, hrow⟩
    · rw [stream, hrow]
    · rw [stream, hrow]
      show ((r.next :: _) ++ _).takeWhile _ = (r.next :: _).takeWhile _
      simp [hend]
  cases hend : r.current.content.isEnd with
  | false => rw [hcut, stream_of_not_end hend, List.tail_cons]
  | true =>
    rw [stream_of_end hend, stream_of_end (by rw [shift_current, h.closed hend]), List.tail_nil]

theorem leads_shift : r.Leads source r.shift where
  placed := h.toPrimed.shift h.inPlace.within
  stream := h.stream_shift ▸ List.tail_suffix _
  place hfits := by
    rw [place, place, shift_current]
    exact Nat.le_trans (h.inPlace.within.ordered hfits) (h.before hfits)

/-- A token that is taken is one less to take. -/
theorem left_shift (hend : r.current.content.isEnd = false) : r.shift.left < r.left := by
  rw [left, left, h.stream_shift, stream_of_not_end hend, List.tail_cons, List.length_cons]
  exact Nat.lt_succ_self _

/-- At the end of the file all items have come into view. -/
theorem items_of_end (hend : r.current.content.isEnd = true) : r.items = [] :=
  h.emptied (h.closed hend)

/-- The range of the token that is taken, between the places before and after it. -/
theorem within_shift : r.current.span.Within source.toList r.place r.shift.place where
  start := h.inPlace.within.start
  stop := h.inPlace.within.stop
  lower _ := Nat.le_refl _
  ordered := h.inPlace.within.ordered
  upper hfits := by
    rw [place, shift_current]
    exact h.before hfits

theorem consistent (hcalm : r.recovering = false) : r.Consistent where
  noted hr := by
    rw [hcalm] at hr
    cases hr
  ended := h.closed
  emptied := h.emptied
  sealed := h.sealed

end Placed

/-- The reader at the first token of a source. -/
theorem start_placed (source : String) : (start (scan source)).Placed source := by
  have horder := scan_inOrder source
  let before : Reader := { items := scan source, previous := some ⟨.endOfFile, .point 0, {}⟩ }
  obtain ⟨passed, hitems, hcomments, herrors⟩ := fetch_seen before (scan source)
  have hrow : (before.fetch (scan source)).row.tail = (scan source).filterMap Item.located? := by
    rcases fetch_row before (scan source) with hrow | ⟨hnil, -⟩
    · exact hrow
    · obtain ⟨t, ht, -⟩ := horder.ended
      rw [hnil] at ht
      cases ht
  have hfirst : (before.fetch (scan source)).Primed source := by
    obtain ⟨hemptied, hsealed⟩ := fetch_sealed before (scan source) (scan_endsLast source)
    refine ⟨⟨passed, hitems, hcomments, ?_⟩, hrow ▸ horder.places,
      fun hfits => hrow ▸ horder.ordered hfits, hrow ▸ horder.ended, hemptied, hsealed, ?_⟩
    · rw [herrors]
      exact filter_lexical
    · intro e he
      have hmem : e ∈ [] ++ passed.filterMap Item.error? := herrors ▸ List.mem_reverse.2 he
      obtain ⟨i, hi, herror⟩ := List.mem_filterMap.1 hmem
      rw [← (i.error?_span herror).2]
      refine horder.ranges i ?_
      rw [hitems]
      exact List.mem_append_left _ hi
  have hcurrent : (before.fetch (scan source)).current.span.InText source.toList := by
    rw [(fetch_kept before (scan source)).1]
    exact Span.inText_point ⟨0, ⟨[], source.toList, rfl, rfl⟩, rfl⟩
  have hplaced := hfirst.shift hcurrent
  exact { hplaced with previous := fun t ht => by cases ht }

/-- The end of the file is behind the tokens that are left, so the bound on them is never met. -/
theorem Primed.left_lt_remaining {source : String} {r : Reader} (h : r.Primed source) :
    r.left + 1 < r.remaining := by
  have hfront : r.stream <+: r.row := List.takeWhile_prefix _
  have hne : r.stream ≠ r.row := by
    intro hsame
    obtain ⟨t, ht, hend⟩ := h.ended
    have hmem : t ∈ r.stream := hsame ▸ List.mem_of_mem_tail ht
    have hnot : (!t.content.isEnd) = true := List.all_eq_true.1 List.all_takeWhile t hmem
    simp [hend] at hnot
  have hlt : r.left < r.row.length :=
    Nat.lt_of_le_of_ne hfront.length_le fun hlength => hne (hfront.eq_of_length hlength)
  have hitems : (r.items.filterMap Item.located?).length ≤ r.items.length := List.length_filterMap_le _ _
  simp only [row, List.length_cons] at hlt
  rw [remaining]
  omega

end Reader

end Scriptlet
