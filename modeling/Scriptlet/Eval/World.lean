import Scriptlet.Value.Basic

/-! What a program takes from the world around it: lines of the standard input, and the time of day. Two readers share
the standard input, that of the shell and that of the running program. Each has a buffer of its own, and the
program's reader fills its buffer with all that the shell's holds. -/
namespace Scriptlet

/-- The bytes up to the first line break, and the break. -/
def firstLine (bytes : List UInt8) : List UInt8 :=
  bytes.takeWhile (· ≠ 10) ++ (bytes.dropWhile (· ≠ 10)).take 1

def laterLines (bytes : List UInt8) : List UInt8 := (bytes.dropWhile (· ≠ 10)).drop 1

/-- What the reader of the program holds, what the reader of the shell holds, and what the reads to come
will give. -/
structure Stdin where
  own : List UInt8 := []
  shared : List UInt8 := []
  reads : List (List UInt8) := []

namespace Stdin

/-- What the shell has not read yet. -/
def stream (s : Stdin) : List UInt8 := s.shared ++ s.reads.flatten

/-- Takes a line out of a buffer, which is filled again as long as there is no line break in it: the line,
what the buffer then holds, and the reads that are left. -/
def takeLine (buffer : List UInt8) :
    List (List UInt8) → List UInt8 × List UInt8 × List (List UInt8)
  | [] => (firstLine buffer, laterLines buffer, [])
  | chunk :: chunks =>
    if 10 ∈ buffer then (firstLine buffer, laterLines buffer, chunk :: chunks)
    else
      let (line, rest, chunks) := takeLine chunk chunks
      (buffer ++ line, rest, chunks)

/-- The next line that the shell reads. It is empty at the end of the input. -/
def shellLine (s : Stdin) : List UInt8 × Stdin :=
  let (line, shared, reads) := takeLine s.shared s.reads
  (line, { s with shared, reads })

/-- The next line that the program reads. Whatever the shell's reader holds goes over to the program's. -/
def nextLine (s : Stdin) : List UInt8 × Stdin :=
  if 10 ∈ s.own then (firstLine s.own, { s with own := laterLines s.own })
  else
    let (line, own, reads) := takeLine s.shared s.reads
    (s.own ++ line, { own, reads })

def capacity : Nat := 8192

def chunks (bytes : List UInt8) : List (List UInt8) :=
  if bytes = [] then [] else bytes.take capacity :: chunks (bytes.drop capacity)
termination_by bytes.length
decreasing_by
  simp only [List.length_drop, capacity]
  have := List.length_pos_iff.2 ‹_›
  omega

instance : Coe (List UInt8) Stdin := ⟨fun bytes => { reads := chunks bytes }⟩

instance {α : Type} : CoeDep (List α) ([] : List α) Stdin := ⟨{}⟩

end Stdin

/-- The time of day in seconds, as it is read one time after another. A reading may fail. -/
structure Clock where
  readings : Nat → Except String Float
  count : Nat := 0

namespace Clock

instance : Coe Float Clock := ⟨fun now => { readings := fun _ => .ok now }⟩

instance {n : Nat} : OfNat Clock n := ⟨Float.ofNat n⟩

/-- What a function is told of the time; only one of them asks for it. -/
def tell (c : Clock) : Builtin → Except String Float × Clock
  | .clock => (c.readings c.count, { c with count := c.count + 1 })
  | _ => (.ok 0.0, c)

end Clock

end Scriptlet
