import Scriptlet.Program.Parser

/-! How rules run: what rules that are put together come to, and the loop over statements, once it is known
what their parts do. -/
namespace Scriptlet

namespace Rule

variable {α β : Type} {rule : Rule α}

theorem ok_of_bind {next : α → Rule β} {r r₂ : Reader} {b : β} (h : (rule >>= next) r = .ok b r₂) :
    ∃ a r₁, rule r = .ok a r₁ ∧ next a r₁ = .ok b r₂ := by
  simp only [Bind.bind, EStateM.bind] at h
  split at h
  · next a r₁ hrule => exact ⟨a, r₁, hrule, h⟩
  · cases h

theorem bind_of_ok {next : α → Rule β} {r r₁ : Reader} {a : α} (h : rule r = .ok a r₁) :
    (rule >>= next) r = next a r₁ := by
  simp only [Bind.bind, EStateM.bind, h]

theorem bind_of_error {next : α → Rule β} {r r₁ : Reader} {e : ParseError} (h : rule r = .error e r₁) :
    (rule >>= next) r = .error e r₁ := by
  simp only [Bind.bind, EStateM.bind, h]

theorem current_bind (next : Located Token → Rule α) (r : Reader) :
    (Rule.current >>= next) r = next r.current r := rfl

theorem attempt_of_ok {r r₁ : Reader} {a : α} (h : rule r = .ok a r₁) : attempt rule r = .ok (.ok a) r₁ := by
  rw [attempt, h]

theorem attempt_of_error {r r₁ : Reader} {e : ParseError} (h : rule r = .error e r₁) :
    attempt rule r = .ok (.error e) r₁ := by
  rw [attempt, h]

theorem get_bind (next : Reader → Rule α) (r : Reader) : (get >>= next) r = next r r := rfl

end Rule

namespace Grammar

open Rule

variable {g : Grammar}

theorem report_of_recovering (e : ParseError) {r : Reader} (h : r.recovering = true) :
    report e r = .ok () r := by
  show EStateM.Result.ok () (if r.recovering = true then r else _) = _
  rw [if_pos h]

theorem report_of_calm (e : ParseError) {r : Reader} (h : r.recovering = false) :
    report e r = .ok () { r with recovering := true, latestErrors := e :: r.latestErrors } := by
  show EStateM.Result.ok () (if r.recovering = true then r else _) = _
  rw [if_neg (by rw [h]; decide)]

variable {stop : Token → Bool} {n : Nat} {r r₁ : Reader}

theorem statements_stop (h : (stop r.current.content || r.current.content.isEnd) = true) :
    g.statements stop n r = .ok [] r := by
  cases n with
  | zero => rfl
  | succ n =>
    unfold Grammar.statements
    rw [current_bind, if_pos h]
    rfl

theorem statements_of_end (h : r.current.content.isEnd = true) : g.statements stop n r = .ok [] r :=
  statements_stop (by rw [h, Bool.or_true])

theorem statements_round (h : (stop r.current.content || r.current.content.isEnd) = false)
    (hcalm : r.recovering = false) : g.statements stop (n + 1) r = (attempt g.statement >>= fun result =>
      match result with
      | .ok s => g.statements stop n >>= fun ss => pure (s :: ss)
      | .error e => g.recover r.current.span e >>= fun _ => g.statements stop n) r := by
  have hsame : { r with recovering := false } = r := by rw [← hcalm]
  rw [Grammar.statements, current_bind, h, if_neg (by decide)]
  exact congrArg (attempt g.statement >>= _) hsame

theorem statements_step {s : Stmt} (h : (stop r.current.content || r.current.content.isEnd) = false)
    (hcalm : r.recovering = false) (hs : g.statement r = .ok s r₁) :
    g.statements stop (n + 1) r = (g.statements stop n >>= fun ss => pure (s :: ss)) r₁ := by
  rw [statements_round h hcalm, bind_of_ok (attempt_of_ok hs)]

theorem statements_fail {e : ParseError} (h : (stop r.current.content || r.current.content.isEnd) = false)
    (hcalm : r.recovering = false) (hs : g.statement r = .error e r₁) :
    g.statements stop (n + 1) r = (g.recover r.current.span e >>= fun _ => g.statements stop n) r₁ := by
  rw [statements_round h hcalm, bind_of_ok (attempt_of_error hs)]

/-- A statement starts with no error noted since. -/
theorem statements_calm (h : (stop r.current.content || r.current.content.isEnd) = false) :
    g.statements stop (n + 1) r = g.statements stop (n + 1) { r with recovering := false } := by
  rw [Grammar.statements, current_bind, current_bind, h, if_neg (by decide)]
  rfl

end Grammar

end Scriptlet
