import Scriptlet.Program.Warning

/-! Warnings about one source, kept until someone takes them, and counted. -/
namespace Scriptlet

/-- `kept` holds the warnings that were not taken, the oldest first. `count` goes on when warnings are
taken. -/
structure WarningLog where
  path : String
  source : String
  kept : List Warning := []
  count : Nat := 0

namespace WarningLog

def emit (l : WarningLog) (w : Warning) : WarningLog :=
  { l with kept := l.kept ++ [w], count := l.count + 1 }

def pop (l : WarningLog) : Option Warning × WarningLog :=
  (l.kept.getLast?, { l with kept := l.kept.dropLast })

def take (l : WarningLog) : List Warning × WarningLog := (l.kept, { l with kept := [] })

def resetCount (l : WarningLog) : WarningLog := { l with count := 0 }

end WarningLog

end Scriptlet
