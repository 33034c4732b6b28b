import Scriptlet.Proofs.Syntax.Places
import Scriptlet.Proofs.Syntax.RoundTrip

/-! Sources that go on. Where a text does not end in a string, a template or a comment, a line break and more
text behind it leave its items as they are: the items of the whole are those of the text up to its end, and then
those of what follows. -/
namespace Scriptlet

/-- The text ends in something that must be closed. -/
def LexCause.isOpen : LexCause → Bool
  | unterminatedString | unterminatedTemplate | missingCommentEnd => true
  | _ => false

/-- A token, or an error for which it makes no difference that the text ends. -/
def Closed (outcome : Except LexCause Token) : Prop := ∀ cause, outcome = .error cause → cause.isOpen = false

theorem closed_of_ok {outcome : Except LexCause Token} {t : Token} (h : outcome = .ok t) : Closed outcome := by
  intro cause hcause
  cases h.symm.trans hcause

instance (outcome : Except LexCause Token) : Decidable (Closed outcome) :=
  match outcome with
  | .ok _ => .isTrue (closed_of_ok rfl)
  | .error cause => decidable_of_iff (cause.isOpen = false)
      ⟨fun h _ he => Except.error.inj he ▸ h, fun h => h cause rfl⟩

theorem quiet_break (rest : List Char) : Quiet ('\n' :: rest) where
  word c hc := by
    cases hc
    rfl
  point c cs h := by cases h

theorem noSign_break (rest : List Char) : NoSign ('\n' :: rest) := by
  intro c hc
  cases hc
  decide

namespace Lexeme

theorem quotedBody_append {quote : Char} (hquote : quote ≠ '\\') {cs : List Char} {p : List Char × Nat}
    (h : quotedBody quote cs = some p) (rest : List Char) : quotedBody quote (cs ++ rest) = some p := by
  fun_induction quotedBody quote cs generalizing p with
  | case1 => cases h
  | case2 c cs ih =>
    obtain ⟨q, hq, rfl⟩ := Option.map_eq_some_iff.1 h
    rw [List.cons_append, List.cons_append, quotedBody, ih hq]
    rfl
  | case3 cs hescape =>
    cases h
    rw [List.cons_append, quotedBody, if_pos rfl]
    exact fun c cs' he => absurd he hquote
  | case4 c cs hescape hc ih =>
    obtain ⟨q, hq, rfl⟩ := Option.map_eq_some_iff.1 h
    rw [List.cons_append, quotedBody, if_neg hc, ih hq]
    · rfl
    · -- a backslash at the end of the text would leave it unterminated
      intro c' cs' he happend
      cases cs with
      | nil => cases hq
      | cons d ds => exact hescape d ds he rfl

theorem commentEnd?_append {cs : List Char} {n : Nat} (h : commentEnd? cs = some n) (rest : List Char) :
    commentEnd? (cs ++ rest) = some n := by
  fun_induction commentEnd? cs generalizing n with
  | case1 => cases h
  | case2 cs => exact h
  | case3 c cs hmark ih =>
    obtain ⟨k, hk, rfl⟩ := Option.map_eq_some_iff.1 h
    rw [List.cons_append, commentEnd?, ih hk]
    · rfl
    · intro cs' hc happend
      cases cs with
      | nil => cases hk
      | cons d ds =>
        obtain ⟨rfl, -⟩ := List.cons.inj happend
        exact hmark ds hc rfl

variable (rest : List Char)

theorem string_append {quote : Char} (hquote : quote ≠ '\\') {cs : List Char}
    (h : Closed (string quote cs).outcome) : string quote (cs ++ rest) = string quote cs := by
  unfold string at h ⊢
  cases hbody : quotedBody quote cs with
  | none =>
    rw [hbody] at h
    cases h _ rfl
  | some p => rw [quotedBody_append hquote hbody]

theorem template_append {cs : List Char} (h : Closed (template cs).outcome) :
    template (cs ++ rest) = template cs := by
  unfold template at h ⊢
  dsimp only at h ⊢
  split at h
  · cases h _ rfl
  · next hmore =>
    have hne : cs.drop (cs.takeWhile (· ≠ backtick)).length ≠ [] := by simpa using hmore
    have hlt := List.length_pos_iff.2 hne
    rw [List.length_drop, Nat.sub_pos_iff_lt] at hlt
    rw [List.takeWhile_append, if_neg (Nat.ne_of_lt hlt), List.drop_append_of_le_length (Nat.le_of_lt hlt),
      if_neg hmore, if_neg]
    rw [List.isEmpty_iff, List.append_eq_nil_iff]
    exact fun h => hne h.1

theorem blockComment_append {cs : List Char} (h : Closed (blockComment cs).outcome) :
    blockComment (cs ++ rest) = blockComment cs := by
  unfold blockComment at h ⊢
  cases hend : commentEnd? cs with
  | none =>
    rw [hend] at h
    cases h _ rfl
  | some n => rw [commentEnd?_append hend]

theorem lineComment_break (cs : List Char) : lineComment (cs ++ '\n' :: rest) = lineComment cs := by
  have hstop : ∀ c ∈ ('\n' :: rest).head?, decide (c ≠ '\n') = false := by
    intro c hc
    cases hc
    rfl
  rw [lineComment, lineComment, takeWhile_append_quiet hstop]

theorem word_break (c : Char) (cs : List Char) : word c (cs ++ '\n' :: rest) = word c cs := by
  rw [word, word, takeWhile_append_quiet (quiet_break rest).word]

/-- No operator has a line break in it. -/
theorem operator?_break (before after : List Char) :
    Symbol.operator? (String.ofList (before ++ '\n' :: after)) = none := by
  have hall : ∀ s ∈ Symbol.operators, '\n' ∉ s.text.toList := by decide
  rw [Symbol.operator?, List.find?_eq_none]
  intro s hs htext
  refine hall s hs ?_
  rw [of_decide_eq_true htext, String.toList_ofList]
  simp

theorem longestOperator?_break (cs : List Char) (n : Nat) :
    longestOperator? (cs ++ '\n' :: rest) n = longestOperator? cs n := by
  induction n with
  | zero => rfl
  | succ n ih =>
    rw [longestOperator?, longestOperator?, ih]
    by_cases hn : n + 1 ≤ cs.length
    · rw [List.take_append_of_le_length hn]
    · -- the text ends before the limit, so the shorter limit finds the same
      have hshort : cs.length ≤ n := by omega
      obtain ⟨k, hk⟩ := Nat.exists_eq_add_of_le hshort
      have htake : (cs ++ '\n' :: rest).take (n + 1) = cs ++ '\n' :: rest.take k := by
        rw [List.take_append, List.take_of_length_le (by omega),
          show n + 1 - cs.length = k + 1 by omega, List.take_succ_cons]
      rw [htake, operator?_break, List.take_of_length_le (by omega)]
      cases n with
      | zero =>
        obtain rfl := List.length_eq_zero_iff.1 (Nat.le_zero.1 hshort)
        decide
      | succ n =>
        dsimp only
        rw [longestOperator?, List.take_of_length_le hshort]
        cases hfound : Symbol.operator? (String.ofList cs) with
        | none => rfl
        | some s => rfl

theorem sign_break (c : Char) (cs : List Char) : sign c (cs ++ '\n' :: rest) = sign c cs := by
  unfold sign
  rw [← List.cons_append, longestOperator?_break]

/-- A lexeme is the same with a line break and more text behind it. -/
theorem read_break {c : Char} {cs : List Char} (h : Closed (read c cs).outcome) :
    read c (cs ++ '\n' :: rest) = read c cs := by
  by_cases hline : c = '/' ∧ ∃ ds, cs = '/' :: ds
  · obtain ⟨rfl, ds, rfl⟩ := hline
    exact lineComment_break rest _
  by_cases hblock : c = '/' ∧ ∃ ds, cs = '*' :: ds
  · obtain ⟨rfl, ds, rfl⟩ := hblock
    exact blockComment_append _ h
  have hplain : c = '/' → ∀ ds, cs ≠ '/' :: ds ∧ cs ≠ '*' :: ds := fun hc ds =>
    ⟨fun he => hline ⟨hc, ds, he⟩, fun he => hblock ⟨hc, ds, he⟩⟩
  have hplain' : c = '/' → ∀ ds, cs ++ '\n' :: rest ≠ '/' :: ds ∧ cs ++ '\n' :: rest ≠ '*' :: ds := by
    intro hc ds
    cases cs with
    | nil => constructor <;> intro he <;> cases he
    | cons d cs =>
      obtain ⟨hslash, hstar⟩ := hplain hc cs
      constructor <;> intro he <;> obtain ⟨rfl, -⟩ := List.cons.inj he
      · exact hslash rfl
      · exact hstar rfl
  rw [read_of_no_comment hplain] at h ⊢
  rw [read_of_no_comment hplain']
  split at h
  · next hquote =>
    have hmark : c ≠ '\\' := by
      rintro rfl
      revert hquote
      decide
    rw [if_pos hquote, if_pos hquote, string_append _ hmark h]
  · next hquote =>
    rw [if_neg hquote, if_neg hquote]
    split at h
    · next hc => rw [if_pos hc, if_pos hc, template_append _ h]
    · next hc =>
      rw [if_neg hc, if_neg hc]
      split at h
      · next hword => rw [if_pos hword, if_pos hword, word_break]
      · next hword =>
        rw [if_neg hword, if_neg hword]
        split at h
        · next hdigit =>
          rw [if_pos hdigit, if_pos hdigit, number_append (quiet_break rest) (.inl (noSign_break rest))]
        · next hdigit => rw [if_neg hdigit, if_neg hdigit, sign_break]

end Lexeme

namespace Cursor

/-- The same place, with a line break and more text behind the text that is left. -/
def goOn (c : Cursor) (rest : List Char) : Cursor := { c with rest := c.rest ++ '\n' :: rest }

variable {c : Cursor} {rest : List Char}

theorem advance_goOn {n : Nat} (h : n ≤ c.rest.length) :
    (c.goOn rest).advance n = (c.advance n).goOn rest := by
  unfold goOn advance
  rw [List.take_append_of_le_length h, List.drop_append_of_le_length h]

theorem skipBlank_goOn (h : c.skipBlank.rest ≠ []) : (c.goOn rest).skipBlank = c.skipBlank.goOn rest := by
  have hlt : (c.rest.takeWhile Text.isBlank).length < c.rest.length := by
    have hpos := List.length_pos_iff.2 h
    rw [skipBlank, advance_rest, List.length_drop] at hpos
    omega
  have htake : (c.goOn rest).rest.takeWhile Text.isBlank = c.rest.takeWhile Text.isBlank := by
    rw [goOn, List.takeWhile_append, if_neg (Nat.ne_of_lt hlt)]
  rw [skipBlank, skipBlank, htake, advance_goOn (Nat.le_of_lt hlt)]

theorem next_goOn (h : c.skipBlank.rest ≠ []) (hclosed : Closed c.next.1.content) :
    (c.goOn rest).next = (c.next.1, c.next.2.goOn rest) := by
  obtain ⟨x, xs, hxs⟩ := List.exists_cons_of_ne_nil h
  have hread : ∀ d : Cursor, ∀ ys, d.rest = x :: ys → d.read = (⟨(Lexeme.read x ys).outcome,
      ⟨d.offset, (d.advance ((Lexeme.read x ys).more + 1)).offset⟩, d.position⟩,
      d.advance ((Lexeme.read x ys).more + 1)) := by
    intro d ys hd
    unfold read
    rw [hd]
  have hxs' : (c.skipBlank.goOn rest).rest = x :: (xs ++ '\n' :: rest) := by rw [goOn, hxs, List.cons_append]
  rw [next, hread _ _ hxs] at hclosed
  have hmore : (Lexeme.read x xs).more + 1 ≤ c.skipBlank.rest.length := by
    rw [hxs]
    exact Nat.succ_le_succ (Lexeme.read_length x xs)
  rw [next, next, skipBlank_goOn h, hread _ _ hxs, hread _ _ hxs', Lexeme.read_break rest hclosed,
    advance_goOn hmore]
  rfl

/-- The place behind the text that is left and a line break, with more text there. -/
def past (c : Cursor) (rest : List Char) : Cursor where
  offset := c.offset + byteLength c.rest + 1
  position := c.position.advanceBy (c.rest ++ ['\n'])
  rest := rest

theorem past_advance (n : Nat) : (c.advance n).past rest = c.past rest := by
  unfold past advance
  dsimp only
  rw [← Position.advanceBy_append, ← List.append_assoc, List.take_append_drop, Nat.add_assoc c.offset,
    ← byteLength_append, List.take_append_drop]

theorem past_next : c.next.2.past rest = c.past rest := by
  unfold next read
  split
  · exact past_advance _
  · exact (past_advance _).trans (past_advance _)

theorem goOn_advance_past : (c.goOn rest).advance (c.rest.length + 1) = c.past rest := by
  have htake : (c.rest ++ '\n' :: rest).take (c.rest.length + 1) = c.rest ++ ['\n'] := by
    rw [List.take_length_add_append, List.take_succ_cons, List.take_zero]
  have hdrop : (c.rest ++ '\n' :: rest).drop (c.rest.length + 1) = rest := by
    rw [List.drop_length_add_append, List.drop_succ_cons, List.drop_zero]
  unfold past advance goOn
  dsimp only
  rw [htake, hdrop, byteLength_append, ← Nat.add_assoc]
  rfl

/-- White space at the end of a text and the line break behind it are skipped together. -/
theorem skipBlank_past (h : c.skipBlank.rest = []) : (c.goOn rest).skipBlank = (c.past rest).skipBlank := by
  have hblank : ∀ x ∈ c.rest, Text.isBlank x = true := by
    have hsplit := List.takeWhile_append_dropWhile (p := Text.isBlank) (l := c.rest)
    rw [← skipBlank_rest, h, List.append_nil] at hsplit
    rw [← hsplit]
    exact List.all_eq_true.1 List.all_takeWhile
  have htake : (c.goOn rest).rest.takeWhile Text.isBlank = c.rest ++ '\n' :: rest.takeWhile Text.isBlank := by
    rw [goOn, List.takeWhile_append_of_pos hblank, List.takeWhile_cons]
    rfl
  rw [skipBlank, skipBlank, htake, ← goOn_advance_past, advance_advance, List.length_append, List.length_cons,
    goOn_advance_past, Nat.add_right_comm, Nat.add_assoc]
  rfl

/-- The items in front of the line break are those of the text without its end, and those behind it are the
items of what follows there. -/
theorem trace_goOn (rest : List Char) (hclosed : ∀ i ∈ c.trace.map (·.1), Closed i.content) : ∃ body last,
    c.trace.map (·.1) = body ++ [last] ∧ last.content = .ok .endOfFile ∧
      (c.goOn rest).trace.map (·.1) = body ++ (c.past rest).trace.map (·.1) := by
  fun_induction trace c with
  | case1 c h =>
    refine ⟨[], c.next.1, rfl, ?_, ?_⟩
    · rw [next, read, h]
    · rw [trace_of_skipBlank (skipBlank_past h), List.nil_append]
  | case2 c h _ ih =>
    rw [List.map_cons] at hclosed ⊢
    obtain ⟨body, last, htrace, hlast, hwhole⟩ := ih fun i hi => hclosed i (List.mem_cons_of_mem _ hi)
    have hne : (c.goOn rest).skipBlank.rest ≠ [] := by
      rw [skipBlank_goOn h, goOn]
      simp
    refine ⟨c.next.1 :: body, last, by rw [htrace, List.cons_append], hlast, ?_⟩
    rw [trace_before_end hne, List.map_cons, next_goOn h (hclosed _ List.mem_cons_self), hwhole, past_next,
      List.cons_append]

end Cursor

/-- The items of a source that goes on behind a line break. -/
theorem lex_goOn {source : String} (hclosed : ∀ i ∈ lex source, Closed i.content) (text : String) :
    ∃ body last, lex source = body ++ [last] ∧ last.content = .ok .endOfFile ∧
      lex (source ++ "\n" ++ text) = body ++ ((Cursor.start source).past text.toList).trace.map (·.1) := by
  have hstart : Cursor.start (source ++ "\n" ++ text) = (Cursor.start source).goOn text.toList := by
    unfold Cursor.start Cursor.goOn
    simp
  rw [lex, lex, hstart]
  exact Cursor.trace_goOn text.toList hclosed

theorem itemsSound_of_all {items : List Item} (h : items.all (·.content.isOk) = true) : ItemsSound items := by
  intro i hi
  have hok := List.all_eq_true.1 h i hi
  cases hc : i.content with
  | ok t => exact ⟨t, rfl⟩
  | error cause =>
    rw [hc] at hok
    cases hok

theorem exists_of_isOk {ε α : Type} {x : Except ε α} (h : x.isOk = true) : ∃ a, x = .ok a := by
  cases x with
  | ok a => exact ⟨a, rfl⟩
  | error e => cases h

theorem Reader.start_tokens_eq (source : String) :
    (Reader.start (scan source)).tokens = sourceTokens source := by
  rw [Reader.start_tokens, sourceTokens, ← properTokens_scan, properTokens_eq (scan_endsLast source)]

section GoingOn

variable {source : String} (hsound : ItemsSound (lex source)) (text : String)
include hsound

/-- Behind a source without errors, what follows has its own tokens and errors. -/
theorem lex_goOn_contents : ∃ body last more, lex source = body ++ [last] ∧ last.content = .ok .endOfFile ∧
    lex (source ++ "\n" ++ text) = body ++ more ∧ more.map (·.content) = contents text.toList := by
  obtain ⟨body, last, hlex, hlast, hwhole⟩ := lex_goOn (fun i hi => closed_of_ok (hsound i hi).choose_spec) text
  refine ⟨body, last, _, hlex, hlast, hwhole, ?_⟩
  rw [List.map_map]
  exact Cursor.trace_contents _ _ _ (Nat.le_refl _) rfl

theorem sourceTokens_goOn :
    sourceTokens (source ++ "\n" ++ text) = sourceTokens source ++ sourceTokens text := by
  obtain ⟨body, last, more, hlex, hlast, hwhole, hmore⟩ := lex_goOn_contents hsound text
  simp only [sourceTokens, properTokens_contents]
  rw [hlex, hwhole, lex_contents, List.map_append, List.map_append, List.filterMap_append,
    List.filterMap_append, hmore, List.map_singleton, hlast]
  simp [properToken?]

theorem itemsSound_goOn (htext : ItemsSound (lex text)) : ItemsSound (lex (source ++ "\n" ++ text)) := by
  obtain ⟨body, last, more, hlex, hlast, hwhole, hmore⟩ := lex_goOn_contents hsound text
  rw [hwhole]
  intro i hi
  rcases List.mem_append.1 hi with hi | hi
  · exact hsound i (by rw [hlex]; exact List.mem_append_left _ hi)
  · have hcontent : i.content ∈ (lex text).map (·.content) := by
      rw [lex_contents, ← hmore]
      exact List.mem_map_of_mem hi
    obtain ⟨j, hj, hij⟩ := List.mem_map.1 hcontent
    obtain ⟨t, ht⟩ := htext j hj
    exact ⟨t, hij ▸ ht⟩

end GoingOn

end Scriptlet
