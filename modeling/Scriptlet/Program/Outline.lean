/-! Trees of named parts, as a dump of a program shows them: on one line, or with each part on a line
of its own. -/
namespace Scriptlet

inductive Outline where
  | leaf (text : String)
  | record (name : String) (fields : List (String × Outline))
  | wrap (name : String) (content : Outline)
  | list (items : List Outline)

namespace Outline

def option : Option Outline → Outline
  | none => leaf "None"
  | some o => wrap "Some" o

mutual

def line : Outline → String
  | leaf text => text
  | record name fields => name ++ " \x7b " ++ ", ".intercalate (fieldLines fields) ++ " \x7d"
  | wrap name content => name ++ "(" ++ content.line ++ ")"
  | list items => "[" ++ ", ".intercalate (lines items) ++ "]"

def lines : List Outline → List String
  | [] => []
  | o :: os => o.line :: lines os

def fieldLines : List (String × Outline) → List String
  | [] => []
  | (name, o) :: fs => (name ++ ": " ++ o.line) :: fieldLines fs

end

def indent (depth : Nat) : String := String.ofList (List.replicate (4 * depth) ' ')

/-- Parts on lines of their own, one level below `depth`, each with a comma behind it. -/
def stacked (depth : Nat) (parts : List String) : String :=
  String.join (parts.map fun p => indent (depth + 1) ++ p ++ ",\n") ++ indent depth

mutual

def page (depth : Nat) : Outline → String
  | leaf text => text
  | record name fields => name ++ " \x7b\n" ++ stacked depth (fieldPages (depth + 1) fields) ++ "\x7d"
  | wrap name content => name ++ "(\n" ++ stacked depth [content.page (depth + 1)] ++ ")"
  | list [] => "[]"
  | list items => "[\n" ++ stacked depth (pages (depth + 1) items) ++ "]"

def pages (depth : Nat) : List Outline → List String
  | [] => []
  | o :: os => o.page depth :: pages depth os

def fieldPages (depth : Nat) : List (String × Outline) → List String
  | [] => []
  | (name, o) :: fs => (name ++ ": " ++ o.page depth) :: fieldPages depth fs

end

end Outline

end Scriptlet
