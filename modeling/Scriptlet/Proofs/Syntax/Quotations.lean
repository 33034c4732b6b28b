import Scriptlet.Proofs.Syntax.Places
import Scriptlet.Proofs.Syntax.Positions

/-! Texts between quotation marks. The literal of any text is read back as that text up to its closing mark and no
farther, whatever stands behind it. -/
namespace Scriptlet

/-- A text between backticks, where nothing is escaped. -/
def Text.template (s : String) : String := String.singleton Lexeme.backtick ++ s ++ String.singleton Lexeme.backtick

namespace Lexeme

/-- A template ends at the first backtick. -/
theorem read_template {cs : List Char} (h : backtick ∉ cs) (rest : List Char) :
    read backtick (cs ++ [backtick] ++ rest) = found (.string (String.ofList cs)) (cs ++ [backtick]).length := by
  have hread : read backtick (cs ++ [backtick] ++ rest) = template (cs ++ [backtick] ++ rest) := rfl
  have hbefore : ∀ c ∈ cs, decide (c ≠ backtick) = true := by
    intro c hc
    rw [decide_eq_true_eq]
    rintro rfl
    exact h hc
  have htake : (cs ++ backtick :: rest).takeWhile (· ≠ backtick) = cs := by
    rw [List.takeWhile_append_of_pos hbefore, List.takeWhile_cons]
    simp
  have hlength : (cs ++ [backtick]).length = cs.length + 1 := List.length_append
  rw [hread, template, hlength, List.append_assoc, List.singleton_append, htake, List.drop_left]
  rfl

end Lexeme

end Scriptlet
