import Scriptlet.Diagnostic.Failure

/-! Files that can be read, by their paths. -/
namespace Scriptlet

abbrev Files := String → Except FileError (List UInt8)

structure Directory where
  files : List (String × List UInt8) := []

namespace Directory

inductive Entry where
  | file (content : List UInt8)
  | directory
  | missing

def entry (d : Directory) (names : List String) : Entry :=
  match d.files.find? fun f => f.1.splitOn "/" = names with
  | some f => .file f.2
  | none =>
    if names.isEmpty || d.files.any fun f => names.isPrefixOf (f.1.splitOn "/") then .directory
    else .missing

def longestName : Nat := 255

def longestPath : Nat := 4095

/-- Why a name that a directory does not hold cannot be found there. -/
def absent (name : String) : FileError :=
  if longestName < name.utf8ByteSize then .nameTooLong else .notFound

/-- A path that has left the directory. Only the directories above are known to be there. -/
def outside (parts : List String) : FileError :=
  match parts.find? fun p => p ≠ "" ∧ p ≠ "." ∧ p ≠ ".." with
  | some name => absent name
  | none => .isDirectory

/-- Follows the parts of a path from the directory that `names` lead to. -/
def walk (d : Directory) : (names : List String) → (parts : List String) → Except FileError (List UInt8)
  | names, [] =>
    match d.entry names with
    | .file content => .ok content
    | .directory => .error .isDirectory
    | .missing => .error .notFound
  | names, part :: rest =>
    match d.entry names with
    | .file _ => .error .notDirectory
    | .missing => .error .notFound
    | .directory =>
      if part = "" || part = "." then walk d names rest
      else if part = ".." then
        if names.isEmpty then .error (outside rest) else walk d names.dropLast rest
      else
        match d.entry (names ++ [part]) with
        | .missing => .error (absent part)
        | _ => walk d (names ++ [part]) rest

def read (d : Directory) : Files := fun path =>
  let parts := path.splitOn "/"
  if path.contains '\x00' then .error .invalidName
  else if path.isEmpty then .error .notFound
  else if longestPath < path.utf8ByteSize then .error .nameTooLong
  else if path.startsWith "/" then .error (outside parts)
  else d.walk [] parts

end Directory

end Scriptlet
