import Scriptlet.Proofs.Serving

/-! What is read from the standard input. However the bytes come in, the shell's reader gives their lines one after
another; and a program that reads takes some of them from the front, which the shell will not see. -/
namespace Scriptlet

theorem firstLine_append_laterLines (bytes : List UInt8) : firstLine bytes ++ laterLines bytes = bytes := by
  rw [firstLine, laterLines, List.append_assoc, List.take_append_drop, List.takeWhile_append_dropWhile]

theorem firstLine_eq_nil_iff {bytes : List UInt8} : firstLine bytes = [] ↔ bytes = [] := by
  refine ⟨fun h => ?_, fun h => by rw [h]; rfl⟩
  cases bytes with
  | nil => rfl
  | cons b bytes => by_cases hb : b = 10 <;> simp [firstLine, hb] at h

theorem laterLines_length_lt {bytes : List UInt8} (h : bytes ≠ []) :
    (laterLines bytes).length < bytes.length := by
  have hlength := congrArg List.length (firstLine_append_laterLines bytes)
  have hpos := List.length_pos_iff.2 (mt firstLine_eq_nil_iff.1 h)
  rw [List.length_append] at hlength
  omega

/-- A line break in front of other bytes ends the line. -/
theorem lines_append_of_mem {front : List UInt8} (h : 10 ∈ front) (bytes : List UInt8) :
    firstLine (front ++ bytes) = firstLine front ∧ laterLines (front ++ bytes) = laterLines front ++ bytes := by
  induction front with
  | nil => cases h
  | cons b front ih =>
    by_cases hb : b = 10
    · simp [firstLine, laterLines, hb]
    · have hmem : 10 ∈ front := (List.mem_cons.1 h).resolve_left (Ne.symm hb)
      simpa [firstLine, laterLines, hb] using ih hmem

/-- Without one, the line goes on. -/
theorem lines_append_of_not_mem {front : List UInt8} (h : 10 ∉ front) (bytes : List UInt8) :
    firstLine (front ++ bytes) = front ++ firstLine bytes ∧ laterLines (front ++ bytes) = laterLines bytes := by
  have hne : ∀ b ∈ front, decide (b ≠ 10) = true := fun b hb => decide_eq_true fun he => h (he ▸ hb)
  rw [firstLine, laterLines, List.takeWhile_append_of_pos hne, List.dropWhile_append_of_pos hne, firstLine,
    laterLines, List.append_assoc]
  exact ⟨rfl, rfl⟩

def splitLines (bytes : List UInt8) : List (List UInt8) :=
  bytes.foldr (fun b lines =>
    match lines with
    | line :: rest => if b = 10 then [b] :: lines else (b :: line) :: rest
    | [] => [[b]]) []

theorem splitLines_cons (b : UInt8) (bytes : List UInt8) :
    splitLines (b :: bytes) = firstLine (b :: bytes) :: splitLines (laterLines (b :: bytes)) := by
  induction bytes generalizing b with
  | nil => by_cases hb : b = 10 <;> simp [splitLines, firstLine, laterLines, hb]
  | cons b' bytes ih =>
    have hstep : splitLines (b :: b' :: bytes) =
        match splitLines (b' :: bytes) with
        | line :: rest => if b = 10 then [b] :: splitLines (b' :: bytes) else (b :: line) :: rest
        | [] => [[b]] := rfl
    rw [hstep, ih b']
    by_cases hb : b = 10
    · have hfirst : firstLine (b :: b' :: bytes) = [b] := by simp [firstLine, hb]
      have hlater : laterLines (b :: b' :: bytes) = b' :: bytes := by simp [laterLines, hb]
      rw [hfirst, hlater, ih b']
      exact if_pos hb
    · have hfirst : firstLine (b :: b' :: bytes) = b :: firstLine (b' :: bytes) := by simp [firstLine, hb]
      have hlater : laterLines (b :: b' :: bytes) = laterLines (b' :: bytes) := by simp [laterLines, hb]
      rw [hfirst, hlater]
      exact if_neg hb

namespace Stdin

/-- A line is taken off the bytes, wherever they are cut. -/
theorem takeLine_eq (buffer : List UInt8) (chunks : List (List UInt8)) :
    (takeLine buffer chunks).1 = firstLine (buffer ++ chunks.flatten) ∧
      (takeLine buffer chunks).2.1 ++ (takeLine buffer chunks).2.2.flatten =
        laterLines (buffer ++ chunks.flatten) := by
  induction chunks generalizing buffer with
  | nil => simp [takeLine]
  | cons chunk chunks ih =>
    rw [takeLine]
    by_cases h : 10 ∈ buffer
    · obtain ⟨hfirst, hlater⟩ := lines_append_of_mem h (chunk :: chunks).flatten
      rw [if_pos h, hfirst, hlater]
      exact ⟨rfl, rfl⟩
    · obtain ⟨hfirst, hlater⟩ := lines_append_of_not_mem h (chunk :: chunks).flatten
      rw [if_neg h, hfirst, hlater]
      exact ⟨congrArg (buffer ++ ·) (ih chunk).1, (ih chunk).2⟩

theorem shellLine_fst (s : Stdin) : s.shellLine.1 = firstLine s.stream := (takeLine_eq s.shared s.reads).1

theorem shellLine_stream (s : Stdin) : s.shellLine.2.stream = laterLines s.stream :=
  (takeLine_eq s.shared s.reads).2

/-- The program takes bytes from the front of what the shell has not read. -/
theorem nextLine_stream (s : Stdin) : s.nextLine.2.stream <:+ s.stream := by
  unfold nextLine
  split
  · exact List.suffix_rfl
  · obtain ⟨hfirst, hlater⟩ := takeLine_eq s.shared s.reads
    have hstream : s.stream = (firstLine s.stream ++ (takeLine s.shared s.reads).2.1) ++
        (takeLine s.shared s.reads).2.2.flatten := by
      rw [List.append_assoc, hlater]
      exact (firstLine_append_laterLines s.stream).symm
    exact ⟨_, hstream.symm⟩

end Stdin

namespace Likeness

/-- No other code may stand in the place of code, and of the input no more is left than these bytes. -/
def reading (bytes : List UInt8) : Likeness where
  span := Eq
  expr := Eq
  stmt := Eq
  input a b := a = b ∧ a.stream <:+ bytes
  nextLine := by
    rintro a _ ⟨rfl, h⟩
    exact ⟨rfl, rfl, a.nextLine_stream.trans h⟩

theorem reading_reflexive (bytes : List UInt8) : (reading bytes).Reflexive :=
  ⟨fun _ => rfl, fun _ => rfl, fun _ => rfl, fun _ => rfl⟩

theorem reading_simulation (bytes : List UInt8) : (reading bytes).Simulation := by
  constructor
  · rintro e _ rfl
    exact (reading_reflexive bytes).exprMatch e
  · rintro s _ rfl
    exact (reading_reflexive bytes).stmtMatch s

theorem reading_tells (bytes : List UInt8) : (reading bytes).Tells := by
  constructor
  · rintro a _ rfl told
    exact rfl
  · rintro a _ rfl path source cause s _ rfl
    exact rfl

end Likeness

namespace Session

def stream (s : Session) : List UInt8 := s.machine.input.stream

/-- A run that ends takes bytes from the front of the input only. -/
theorem run_stream {s : Session} {files : Files} (hhost : s.context.host = Module.host files)
    (path source : String) (h : (s.run path source).1 ≠ .unfinished) :
    (s.run path source).2.stream <:+ s.stream := by
  have hserves := Likeness.serves_modules hhost (Likeness.reading_reflexive s.stream)
    (Likeness.reading_tells s.stream)
  have hleads := (Likeness.reading_simulation s.stream).leads hserves enough s.context.natives
  have hfollows := hleads.runSource (Likeness.reading_reflexive s.stream) (Likeness.reading_tells s.stream)
    s.env path source s.machine s.machine
    ((Likeness.reading_reflexive s.stream).machine s.machine ⟨rfl, List.suffix_rfl⟩)
  unfold run perform at h ⊢
  dsimp only at h ⊢
  generalize (evaluator enough).runSource s.context s.env path source s.machine = r at h hfollows ⊢
  cases r with
  | error signal m => exact (h rfl).elim
  | ok r m =>
    obtain ⟨_, hresult, -⟩ := hfollows trivial
    cases hresult with
    | ok _ hm => cases r <;> exact hm.input.2

end Session

end Scriptlet
