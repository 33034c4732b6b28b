import Scriptlet.Proofs.Syntax.Continuing
import Scriptlet.Proofs.Syntax.Semicolon
import Scriptlet.Proofs.Syntax.Recovery

/-! Reading on behind a malformed statement. A statement that fails before its semicolon stops the rules not
further than right behind the semicolon, all up to the semicolon is skipped, and one error is noted. The
statements before and behind it are read as if it were not there. -/
namespace Scriptlet

open Rule

namespace Reader

variable {source : String} {e : ParseError} {r : Reader}

def noting (e : ParseError) (r : Reader) : Reader :=
  { r with recovering := true, latestErrors := e :: r.latestErrors }

/-- No error comes into view, and those that have been noted are the given ones. -/
structure Untroubled (noted : List ParseError) (r : Reader) : Prop where
  sound : ItemsSound r.items
  noted : r.latestErrors = noted

theorem fetch_untroubled (r : Reader) {items : List Item} (h : ItemsSound items) :
    (r.fetch items).Untroubled r.latestErrors := by
  fun_induction fetch r items with
  | case1 r => exact ⟨h, rfl⟩
  | case2 r span _ rest ih => exact ih fun i hi => h i (List.mem_cons_of_mem _ hi)
  | case3 r cause span position rest ih =>
    obtain ⟨t, ht⟩ := h _ List.mem_cons_self
    cases ht
  | case4 r token span position rest _ => exact ⟨fun i hi => h i (List.mem_cons_of_mem _ hi), rfl⟩

theorem fetch_noting (r : Reader) {items : List Item} (h : ItemsSound items) :
    (r.noting e).fetch items = (r.fetch items).noting e := by
  fun_induction fetch r items with
  | case1 r => rfl
  | case2 r span _ rest ih => exact ih fun i hi => h i (List.mem_cons_of_mem _ hi)
  | case3 r cause span position rest ih =>
    obtain ⟨t, ht⟩ := h _ List.mem_cons_self
    cases ht
  | case4 r token span position rest hc =>
    cases token with
    | comment => exact (hc rfl).elim
    | _ => rfl

theorem Untroubled.shift {noted : List ParseError} (h : r.Untroubled noted) : r.shift.Untroubled noted :=
  h.noted ▸ fetch_untroubled { r with previous := some r.current, current := r.next } h.sound

theorem Untroubled.skip {noted : List ParseError} (h : r.Untroubled noted) (n : Nat) :
    (r.skip n).Untroubled noted := by
  induction n generalizing r with
  | zero => exact h
  | succ n ih => exact ih h.shift

/-- An error is noted before or after tokens are taken. -/
theorem skip_noting (h : ItemsSound r.items) (n : Nat) : (r.noting e).skip n = (r.skip n).noting e := by
  induction n generalizing r with
  | zero => rfl
  | succ n ih =>
    have hshift : (r.noting e).shift = r.shift.noting e :=
      fetch_noting { r with previous := some r.current, current := r.next } h
    have hsound : r.Untroubled r.latestErrors := ⟨h, rfl⟩
    rw [skip, skip, hshift, ih hsound.shift.sound]

theorem skip_recovering (r : Reader) (n : Nat) : (r.skip n).recovering = r.recovering := by
  induction n generalizing r with
  | zero => rfl
  | succ n ih => rw [skip, ih, shift_recovering]

theorem Placed.place_le_skip (hfits : Addressable source.toList) (h : r.Placed source) (n : Nat) :
    r.place ≤ (r.skip n).place := by
  induction n generalizing r with
  | zero => exact Nat.le_refl _
  | succ n ih => exact Nat.le_trans (h.leads_shift.place hfits) (ih h.leads_shift.placed)

/-- A reader that has taken a token stands further on. -/
theorem Placed.place_lt_skip (hfits : Addressable source.toList) (h : r.Placed source)
    (hend : r.current.content.isEnd = false) (n : Nat) : r.place < (r.skip (n + 1)).place := by
  have hfirst : r.place < r.shift.place := by
    rw [place, place, shift_current]
    exact Nat.lt_of_lt_of_le (h.inPlace.filled hfits hend) (h.before hfits)
  exact Nat.lt_of_lt_of_le hfirst (h.leads_shift.placed.place_le_skip hfits n)

end Reader

namespace Grammar

open Reader

def settled (r : Reader) : Bool :=
  r.current.content.isEnd || (r.previous.any fun t => t.content.isSymbol .semicolon) ||
    r.current.content.startsStatement || r.current.content.isSymbol .rightBrace

theorem synchronize_stop {r : Reader} (n : Nat) (h : settled r = true) : synchronize n r = .ok () r := by
  cases n with
  | zero => rfl
  | succ n =>
    show (if settled r = true then pure () else _ : Rule Unit) r = _
    rw [if_pos h]
    rfl

theorem synchronize_round {r : Reader} (n : Nat) (h : settled r = false) :
    synchronize (n + 1) r = synchronize n r.shift := by
  show (if settled r = true then pure () else _ : Rule Unit) r = _
  rw [if_neg (by rw [h]; decide)]
  rfl

/-- Behind a semicolon there is nothing to skip. -/
theorem settled_shift {r : Reader} (h : r.current.content = .symbol .semicolon) : settled r.shift = true := by
  rw [settled, shift_previous, Option.any_some, isSymbol_iff.2 h, Bool.or_true, Bool.true_or, Bool.true_or]

theorem previous_shift {r : Reader} (h : r.current.content ≠ .symbol .semicolon) :
    (r.shift.previous.any fun t => t.content.isSymbol .semicolon) = false := by
  rw [shift_previous, Option.any_some, Bool.eq_false_iff]
  exact mt isSymbol_iff.1 h

/-- What stands inside a statement is skipped, and then the semicolon. -/
theorem synchronize_ahead {r : Reader} {us rest : List Token} {n : Nat}
    (htokens : r.tokens = us ++ .symbol .semicolon :: rest)
    (hprevious : (r.previous.any fun t => t.content.isSymbol .semicolon) = false)
    (hinner : ∀ t ∈ us, t ≠ .symbol .semicolon ∧ t ≠ .symbol .rightBrace ∧ t.startsStatement = false)
    (hn : us.length < n) : synchronize n r = .ok () (r.skip (us.length + 1)) := by
  induction us generalizing r n with
  | nil =>
    obtain ⟨n, rfl⟩ : ∃ m, n = m + 1 := ⟨n - 1, by omega⟩
    obtain ⟨hcurrent, -⟩ := current_of_tokens htokens
    have hopen : settled r = false := by
      rw [settled, hprevious, hcurrent]
      rfl
    rw [synchronize_round n hopen, synchronize_stop n (settled_shift hcurrent)]
    rfl
  | cons t us ih =>
    obtain ⟨n, rfl⟩ : ∃ m, n = m + 1 := ⟨n - 1, by omega⟩
    obtain ⟨hcurrent, hshift⟩ := current_of_tokens htokens
    obtain ⟨⟨hsemicolon, hbrace, hstart⟩, hinner⟩ := List.forall_mem_cons.1 hinner
    have hend : r.current.content.isEnd = false := not_end_of_tokens htokens
    have hopen : settled r = false := by
      rw [settled, hend, hprevious, hcurrent, hstart, Bool.eq_false_iff.2 (mt isSymbol_iff.1 hbrace)]
      rfl
    rw [synchronize_round n hopen]
    rw [← hcurrent] at hsemicolon
    exact ih hshift (previous_shift hsemicolon) hinner (by simpa using hn)

theorem recover_eq {g : Grammar} {start : Span} {e : ParseError} {r r₁ r₂ : Reader}
    (hreport : report e r = .ok () r₁) (hsync : synchronize g.limit r₁ = .ok () r₂) :
    g.recover start e r = (if (decide (r₂.current.span = start) && !r₂.current.content.isEnd) = true then
      (take >>= fun _ => synchronize g.limit) else pure () : Rule Unit) r₂ :=
  (bind_of_ok hreport).trans (bind_of_ok hsync)

section Recover

variable {source : String} {g : Grammar} {r : Reader} {us rest : List Token} {e : ParseError}
  (htokens : r.tokens = us ++ .symbol .semicolon :: rest)
  (hplain : ∀ t ∈ us, t ≠ .symbol .semicolon)
  (hinner : ∀ t ∈ us.tail, t ≠ .symbol .rightBrace ∧ t.startsStatement = false)
include htokens hplain hinner

/-- Once a token of the statement has been taken, all up to its semicolon is skipped. -/
theorem synchronize_skip {n : Nat} (hn : us.length ≤ n) {j : Nat} (hj : j ≤ us.length) :
    synchronize n (r.skip (j + 1)) = .ok () (r.skip (us.length + 1)) := by
  have hahead : (r.skip j).tokens = us.drop j ++ .symbol .semicolon :: rest := by
    have hsplit : r.tokens = us.take j ++ (us.drop j ++ .symbol .semicolon :: rest) := by
      rw [← List.append_assoc, List.take_append_drop, htokens]
    have hskip := skip_tokens hsplit
    rwa [List.length_take_of_le hj] at hskip
  rw [skip_succ]
  cases hvs : us.drop j with
  | nil =>
    rw [hvs] at hahead
    have hall : j = us.length := Nat.le_antisymm hj (List.drop_eq_nil_iff.1 hvs)
    rw [synchronize_stop n (settled_shift (current_of_tokens hahead).1), hall, skip_succ]
  | cons t vs =>
    rw [hvs] at hahead
    obtain ⟨hcurrent, hshift⟩ := current_of_tokens hahead
    have hmem : ∀ x ∈ t :: vs, x ∈ us := fun x hx => List.mem_of_mem_drop (hvs ▸ hx)
    have htail : ∀ x ∈ vs, x ∈ us.tail := by
      intro x hx
      have hdrop : vs = us.tail.drop j := by rw [List.drop_tail, ← List.tail_drop, hvs, List.tail_cons]
      exact List.mem_of_mem_drop (hdrop ▸ hx)
    have hlength : us.length = j + 1 + vs.length := by
      have hdrop := congrArg List.length hvs
      simp only [List.length_drop, List.length_cons] at hdrop
      omega
    have hfirst : (r.skip j).current.content ≠ .symbol .semicolon := by
      rw [hcurrent]
      exact hplain t (hmem t List.mem_cons_self)
    rw [synchronize_ahead hshift (previous_shift hfirst)
      (fun x hx => ⟨hplain x (hmem x (List.mem_cons_of_mem t hx)), hinner x (htail x hx)⟩) (by omega),
      ← skip_succ, ← skip_add, hlength]
    rfl

/-- Wherever the statement has failed, one error is noted and reading goes on behind its semicolon. -/
theorem recover_skip (hfits : Addressable source.toList) (hr : r.Placed source) (hsound : ItemsSound r.items)
    (hcalm : r.recovering = false) (hlimit : r.tokens.length < g.limit) {k : Nat} (hk : k ≤ us.length + 1) :
    g.recover r.current.span e (r.skip k) = .ok () ((r.skip (us.length + 1)).noting e) := by
  have hlength : us.length < g.limit := by
    rw [htokens, List.length_append] at hlimit
    omega
  have hend := not_end_of_tokens htokens
  have hreport : report e (r.skip k) = .ok () ((r.noting e).skip k) := by
    rw [skip_noting hsound, report_of_calm e ((r.skip_recovering k).trans hcalm)]
    rfl
  have hskip : ∀ {n j : Nat}, us.length ≤ n → j ≤ us.length →
      synchronize n ((r.noting e).skip (j + 1)) = .ok () ((r.noting e).skip (us.length + 1)) :=
    fun hn hj => synchronize_skip (r := r.noting e) htokens hplain hinner hn hj
  -- no token behind the first one stands where the statement starts, so nothing more is skipped there
  have hgone : ((r.noting e).skip (us.length + 1)).current.span ≠ r.current.span := by
    intro hsame
    have hplace := hr.place_lt_skip hfits hend us.length
    rw [skip_noting hsound] at hsame
    exact Nat.ne_of_gt hplace (congrArg Span.start hsame)
  have hdone (hsync : synchronize g.limit ((r.noting e).skip k) =
      .ok () ((r.noting e).skip (us.length + 1))) :
      g.recover r.current.span e (r.skip k) = .ok () ((r.skip (us.length + 1)).noting e) := by
    rw [recover_eq hreport hsync, decide_eq_false hgone, ← skip_noting hsound]
    rfl
  cases k with
  | succ j => exact hdone (hskip (Nat.le_of_lt hlength) (Nat.le_of_succ_le_succ hk))
  | zero =>
    cases hsettled : settled (r.noting e) with
    | false =>
      obtain ⟨n, hn⟩ : ∃ n, g.limit = n + 1 := ⟨g.limit - 1, by omega⟩
      refine hdone ?_
      rw [hn]
      exact (synchronize_round n hsettled).trans (hskip (by omega) (Nat.zero_le _))
    | true =>
      have hfirst : (decide (r.current.span = r.current.span) && !r.current.content.isEnd) = true := by
        rw [decide_eq_true rfl, hend]
        rfl
      rw [recover_eq hreport (synchronize_stop _ hsettled), ← skip_noting hsound]
      exact (congrFun (if_pos hfirst) _).trans (hskip (Nat.le_of_lt hlength) (Nat.zero_le _))

end Recover

section Resume

variable {source : String} {g : Grammar} {r : Reader} {us rest : List Token}

/-- What is not written with the tokens of a statement fails, and that not further than right behind the
semicolon. -/
theorem statement_fails (hsound : g.Sound) (hhalting : g.Halting rest) (hr : r.Untroubled [])
    (hc : r.Consistent) (hlimit : r.tokens.length < g.limit) (hplain : ∀ t ∈ us, t.Plain)
    (htokens : r.tokens = us ++ .symbol .semicolon :: rest)
    (hnone : ∀ s : Stmt, s.Canonical → ¬s.Yields (us ++ [.symbol .semicolon])) :
    ∃ e k, k ≤ us.length + 1 ∧ g.statement r = .error e (r.skip k) := by
  have hhalts := hhalting.statement r ⟨us, hplain, htokens⟩
  have htakes := hsound.statement r hc hlimit
  unfold HaltsAt at hhalts
  cases hs : g.statement r with
  | error e r' =>
    rw [hs] at hhalts
    obtain ⟨k, hk, rfl⟩ := hhalts.1.near htokens hhalts.2
    exact ⟨e, k, hk, rfl⟩
  | ok s r' =>
    rw [hs] at hhalts htakes
    obtain ⟨⟨ts, -, rfl⟩, hbehind⟩ := hhalts
    obtain ⟨vs, hpasses, hread⟩ := htakes
    have hstatement := hread (hr.skip _).noted
    have hvs : us ++ [.symbol .semicolon] = vs := by
      have hall := hpasses.tokens
      rw [htokens, hbehind, List.append_cons] at hall
      exact List.append_cancel_right hall
    exact (hnone s hstatement.canonical (hvs ▸ hstatement.yields)).elim

/-- After an error the statements up to the end of the file are read, and no other error is noted. -/
theorem statements_after {n m : Nat} (hcomplete : g.Complete n) {ss : List Stmt} {noted : List ParseError}
    (hss : Joined Stmt.Yields ss rest) (hc : ∀ s ∈ ss, s.Canonical) (hn : rest.length < n)
    (hm : rest.length < m) (hr : r.Untroubled noted) (htokens : r.tokens = rest)
    (hlimit : rest.length < g.limit) :
    ∃ ss' after, g.statements Token.isEnd m r = .ok ss' after ∧ Stmt.bareList ss' = Stmt.bareList ss ∧
      after.latestErrors = noted := by
  cases hend : r.current.content.isEnd with
  | true =>
    rw [← htokens, tokens_of_end hend] at hss
    have hnil : ss = [] := List.eq_nil_of_length_eq_zero (Nat.le_zero.1 (hss.length_le fun _ _ => Stmt.Yields.filled))
    exact ⟨[], r, statements_of_end hend, by rw [hnil], hr.noted⟩
  | false =>
    obtain ⟨m, rfl⟩ : ∃ j, m = j + 1 := ⟨m - 1, by omega⟩
    have hsees : Sees g.limit (Untroubled noted) { r with recovering := false } (rest ++ []) :=
      ⟨fun _ => Untroubled.shift, ⟨hr.sound, hr.noted⟩, rfl, by rw [List.append_nil]; exact htokens,
        by rwa [List.append_nil]⟩
    obtain ⟨ss', after, hread, hbare, hafter⟩ := hcomplete.statements hss hc hn rfl
      (fun _ => Token.isEnd_of_opensStatement) (fun s => ⟨by simp, by simp⟩) (m + 1) hm _ _ hsees
    exact ⟨ss', after, (statements_calm (by rw [hend]; rfl)).trans hread, hbare, hafter.kept.noted⟩

end Resume

end Grammar

/-- The tokens before the semicolon of a malformed statement. None of them is a brace or a semicolon, none but
the first can start a statement, the first does not continue the statement before, and no statement is written
with them and the semicolon. -/
structure Malformed (us : List Token) : Prop where
  flat : ∀ t ∈ us, t ≠ .symbol .leftBrace ∧ t ≠ .symbol .rightBrace ∧ t ≠ .symbol .semicolon
  first : ∀ t ∈ us.head?, t ≠ .keyword .for_ ∧ t ≠ .keyword .else_ ∧ t ≠ .keyword .finally_
  more : ∀ t ∈ us.tail, t.startsStatement = false
  unread : ∀ s : Stmt, s.Canonical → ¬s.Yields (us ++ [.symbol .semicolon])

namespace Malformed

variable {us : List Token} (h : Malformed us)
include h

theorem plain : ∀ t ∈ us, t.Plain := by
  intro t ht
  obtain ⟨hleft, -, hsemicolon⟩ := h.flat t ht
  refine ⟨hleft, hsemicolon, ?_⟩
  cases us with
  | nil => cases ht
  | cons u us =>
    rcases List.mem_cons.1 ht with rfl | ht
    · exact (h.first t rfl).1
    · rintro rfl
      cases h.more _ ht

theorem stopsAt (s : Stmt) (rest : List Token) : s.StopsAt (us ++ .symbol .semicolon :: rest) := by
  cases us with
  | nil => exact Stmt.stopsAt_cons (by simp) (by simp)
  | cons u us => exact Stmt.stopsAt_cons (h.first u rfl).2.1 (h.first u rfl).2.2

end Malformed

namespace Grammar

open Reader

/-- The statements before and behind a malformed one are read, and one error is noted. -/
theorem statements_around {source : String} {g : Grammar} {n m : Nat} {r : Reader} {us ts rest : List Token}
    {ss ss' : List Stmt} (hcomplete : g.Complete n) (hsound : g.Sound) (hhalting : g.Halting rest)
    (hus : Malformed us) (hss : Joined Stmt.Yields ss ts) (hc : ∀ s ∈ ss, s.Canonical)
    (hss' : Joined Stmt.Yields ss' rest) (hc' : ∀ s ∈ ss', s.Canonical) (hfits : Addressable source.toList)
    (hplaced : r.Placed source) (hr : r.Untroubled []) (hcalm : r.recovering = false)
    (htokens : r.tokens = ts ++ (us ++ .symbol .semicolon :: rest)) (hn : r.tokens.length < n)
    (hm : r.tokens.length < m) (hlimit : r.tokens.length < g.limit) :
    ∃ out after e, g.statements Token.isEnd m r = .ok out after ∧
      Stmt.bareList out = Stmt.bareList ss ++ Stmt.bareList ss' ∧ after.latestErrors = [e] := by
  rw [htokens] at hn hm hlimit
  simp only [List.length_append, List.length_cons] at hn hm hlimit
  have hlength := hss.length_le fun _ _ => Stmt.Yields.filled
  obtain ⟨j, rfl⟩ : ∃ j, m = ss.length + (j + 1) := ⟨m - ss.length - 1, by omega⟩
  have hsees : r.Sees g.limit (fun r => r.Placed source ∧ r.Untroubled [])
      (ts ++ (us ++ .symbol .semicolon :: rest)) :=
    ⟨fun _ h => ⟨h.1.leads_shift.placed, h.2.shift⟩, ⟨hplaced, hr⟩, hcalm, htokens,
      by simp only [List.length_append, List.length_cons]; omega⟩
  obtain ⟨out, r₁, hout, hr₁, hloop⟩ := hcomplete.statements_ahead hss hc (by omega)
    (fun _ => Token.isEnd_of_opensStatement) (fun s => hus.stopsAt s rest) (j + 1) _ r hsees
  obtain ⟨hplaced₁, hclean⟩ := hr₁.kept
  have hlimit₁ : r₁.tokens.length < g.limit := by
    rw [hr₁.tokens]
    exact hr₁.short
  obtain ⟨e, k, hk, hfail⟩ := statement_fails hsound hhalting hclean (hplaced₁.consistent hr₁.calm)
    hlimit₁ hus.plain hr₁.tokens hus.unread
  have hrecover := recover_skip (e := e) hr₁.tokens (fun t ht => (hus.flat t ht).2.2)
    (fun t ht => ⟨(hus.flat t (List.mem_of_mem_tail ht)).2.1, hus.more t ht⟩) hfits hplaced₁ hclean.sound
    hr₁.calm hlimit₁ hk
  have hopen : (r₁.current.content.isEnd || r₁.current.content.isEnd) = false := by
    rw [not_end_of_tokens hr₁.tokens]
    rfl
  have hround : g.statements Token.isEnd (j + 1) r₁ =
      g.statements Token.isEnd j ((r₁.skip (us.length + 1)).noting e) := by
    rw [statements_fail hopen hr₁.calm hfail, bind_of_ok hrecover]
  have hbehind : ((r₁.skip (us.length + 1)).noting e).tokens = rest := by
    have hall : r₁.tokens = (us ++ [.symbol .semicolon]) ++ rest := by
      rw [hr₁.tokens, List.append_assoc]
      rfl
    have hskip := skip_tokens hall
    rw [List.length_append] at hskip
    exact hskip
  have hnoted : ((r₁.skip (us.length + 1)).noting e).Untroubled [e] :=
    ⟨(hclean.skip _).sound, congrArg (e :: ·) (hclean.skip _).noted⟩
  obtain ⟨out', after, hread, hout', hafter⟩ :=
    statements_after (m := j) hcomplete hss' hc' (by omega) (by omega) hnoted hbehind (by omega)
  refine ⟨out ++ out', after, e, ?_, ?_, hafter⟩
  · rw [hloop, bind_of_ok (hround.trans hread)]
    rfl
  · rw [← hout, ← hout', Stmt.bareList_eq, Stmt.bareList_eq, Stmt.bareList_eq, List.map_append]

end Grammar

/-- The same of the statements and errors of a source. -/
theorem Parsed.ofSource_around {source : String} {us ts rest : List Token} {ss ss' : List Stmt}
    (hfits : Addressable source.toList) (hsound : ItemsSound (lex source))
    (htokens : sourceTokens source = ts ++ (us ++ .symbol .semicolon :: rest))
    (hus : Malformed us) (hss : Joined Stmt.Yields ss ts) (hc : ∀ s ∈ ss, s.Canonical)
    (hss' : Joined Stmt.Yields ss' rest) (hc' : ∀ s ∈ ss', s.Canonical) :
    (∃ e, (ofSource source).errors = [e]) ∧
      Stmt.bareList (ofSource source).program.statements = Stmt.bareList ss ++ Stmt.bareList ss' := by
  have hhead : rest.head? ≠ some (.keyword .else_) := by
    cases hss' with
    | nil => simp
    | cons hy _ =>
      obtain ⟨t, vs, rfl, ht⟩ := hy.head
      rintro ⟨⟩
      cases ht
  have hstart : (Reader.start (scan source)).Untroubled [] := by
    obtain ⟨hnone, hitems⟩ := (Reader.start_flawless _).2 (scan_sound.2 hsound)
    exact ⟨hitems, hnone⟩
  have hcomplete := Grammar.complete_upTo (Reader.start (scan source)).remaining
    (2 * (Reader.start (scan source)).remaining)
  have hlength := Reader.tokens_length_lt (Reader.start (scan source))
  obtain ⟨out, after, e, hread, hbare, hnoted⟩ := Grammar.statements_around hcomplete
    (Grammar.sound_upTo _ _) (Grammar.halting_upTo hhead _ _) hus hss hc hss' hc' hfits
    (Reader.start_placed source) hstart (Reader.start_recovering _)
    ((Reader.start_tokens_eq source).trans htokens) (by omega) hlength hlength
  obtain ⟨hprogram, -, herrors⟩ := ofItems_read hread
  refine ⟨⟨e, ?_⟩, ?_⟩
  · rw [ofSource, herrors, Reader.errors, hnoted]
    exact List.mergeSort_singleton e
  · rw [ofSource, hprogram, hbare]

end Scriptlet
