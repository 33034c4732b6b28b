import Scriptlet.Decimal.Layout
import Scriptlet.Text.Quoted
import Scriptlet.Value.Store

/-! Values written for people. A container inside itself is written with dots. -/
namespace Scriptlet

inductive Cell where
  | array (r : Nat)
  | map (r : Nat)
  deriving DecidableEq

namespace Value

/-- A value, given how the containers in it are written. Strings are quoted when they stand inside
something else. -/
def textWith (s : Store) (cell : Cell → String) (quoted : Bool) : Value → String
  | null => "null"
  | undefined => "undefined"
  | bool value => if value then "true" else "false"
  | int value => toString value.toInt
  | float value => Decimal.shown value
  | string value => if quoted then Text.quoted value else value
  | array r => cell (.array r)
  | map r => cell (.map r)
  | function r =>
    match (s.functions[r]?).bind (·.name) with
    | some name => "<func " ++ name ++ ">"
    | none => "<lambda>"
  | native f => "<native " ++ f.name ++ ">"
  | error message none => "error: " ++ message
  | error message (some data) => "error: " ++ message ++ " (" ++ textWith s cell true data ++ ")"
  | class_ r => "<class " ++ s.className r ++ ">"
  | instance_ r => "<" ++ (s.instances[r]?).elim "" (fun i => s.className i.class_) ++ " instance>"

end Value

namespace Store

def dots : Cell → String
  | .array _ => "[...]"
  | .map _ => "\x7b...\x7d"

/-- A container inside the `open_` ones. Each level opens one more, so a limit above the number of
containers is never reached. -/
def cellText (s : Store) : (limit : Nat) → (open_ : List Cell) → Cell → String
  | 0, _, c => dots c
  | n + 1, open_, c =>
    if c ∈ open_ then dots c
    else
      let inner (v : Value) : String := v.textWith s (cellText s n (c :: open_)) true
      match c with
      | .array r => "[" ++ ", ".intercalate ((s.array r).toList.map inner) ++ "]"
      | .map r =>
        "\x7b" ++ ", ".intercalate ((s.map r).entries.map fun e =>
          Text.quoted e.1 ++ ": " ++ inner e.2) ++ "\x7d"

def cellLimit (s : Store) : Nat := s.arrays.size + s.maps.size + 1

def display (s : Store) (v : Value) : String := v.textWith s (s.cellText s.cellLimit []) false

def inspect (s : Store) (v : Value) : String := v.textWith s (s.cellText s.cellLimit []) true

end Store

end Scriptlet
