/-! File names: their parts, and the file that an imported name means. -/
namespace Scriptlet.Path

/-- Puts a mark for an absolute path, or for one that starts at the current directory, before the
other parts. -/
def mark (path : String) : List String :=
  match path.toList with
  | '/' :: _ => ["/"]
  | ['.'] | '.' :: '/' :: _ => ["."]
  | _ => []

/-- The parts of a path. Two paths are the same when their parts are: doubled or trailing slashes and
inner dots do not count. -/
def parts (path : String) : List String :=
  mark path ++ ((path.toList.splitOn '/').map String.ofList).filter fun p => p ≠ "" ∧ p ≠ "."

/-- What stands behind the last dot of a name, unless the dot opens the name. -/
def extension? (name : List Char) : Option (List Char) :=
  let reversed := name.reverse
  let after := reversed.takeWhile (· ≠ '.')
  match reversed.dropWhile (· ≠ '.') with
  | [] | ['.'] => none
  | _ => some after.reverse

def ending? (path : String) : Option String :=
  match (parts path).getLast? with
  | none | some "/" | some "." | some ".." => none
  | some name => (extension? name.toList).map String.ofList

/-- The file of an imported name, which may leave out the ending. -/
def ofModule (target : String) : String :=
  if ending? target = some "nt" then target else target ++ ".nt"

end Scriptlet.Path
