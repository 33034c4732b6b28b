import Scriptlet.Proofs.CallDepth
import Scriptlet.Proofs.Reading

/-! A loop that evaluates lines. It tries what was typed after every line, and keeps what stops in the middle
of a construct. Such an attempt changes nothing, for only a source that cannot be parsed is unfinished; so the
lines fall into chunks, and the loop does what running each chunk once does. A run may read lines itself; these
the loop does not see. -/
namespace Scriptlet

/-- Lines that the loop takes together: empty ones that it skips, then those of one source. -/
structure Chunk where
  blanks : Nat := 0
  lines : List String := []

namespace Chunk

def typed (k : Chunk) : List String := List.replicate k.blanks "" ++ k.lines

def source (k : Chunk) : String := String.join (k.lines.map (· ++ "\n"))

def prompt (k : Chunk) : String := if k.lines = [] then ">> " else ".. "

def prompts (k : Chunk) : String :=
  String.join (List.replicate (k.blanks + min 1 k.lines.length) ">> " ++
    List.replicate (k.lines.length - 1) ".. ")

def push (k : Chunk) (line : String) : Chunk := { k with lines := k.lines ++ [line] }

def skip (k : Chunk) : Chunk := { k with blanks := k.blanks + 1 }

theorem typed_push (k : Chunk) (line : String) : (k.push line).typed = k.typed ++ [line] := by
  simp [typed, push]

theorem typed_skip {k : Chunk} (h : k.lines = []) : k.skip.typed = k.typed ++ [""] := by
  simp [typed, skip, h, List.replicate_succ']

theorem source_push (k : Chunk) (line : String) : (k.push line).source = k.source ++ line ++ "\n" := by
  simp [source, push, String.append_assoc]

theorem source_eq_empty (k : Chunk) : k.source = "" ↔ k.lines = [] := by
  constructor
  · intro h
    cases hlines : k.lines with
    | nil => rfl
    | cons line lines =>
      rw [source, hlines] at h
      have hlength := congrArg (fun s => s.toList.length) h
      simp at hlength
  · intro h
    simp [source, h]

theorem prompts_push (k : Chunk) (line : String) : (k.push line).prompts = k.prompts ++ k.prompt := by
  cases hlines : k.lines with
  | nil => simp [prompts, prompt, push, hlines, List.replicate_succ']
  | cons first lines => simp [prompts, prompt, push, hlines, List.replicate_succ', String.append_assoc]

theorem prompts_skip {k : Chunk} (h : k.lines = []) : k.skip.prompts = k.prompts ++ k.prompt := by
  simp [prompts, prompt, skip, h, List.replicate_succ']

end Chunk

/-- How the user sees the end of a run: an undefined value not at all, any other value or a failure once. -/
inductive Outcome.Shown (render : List Diagnostic → String) (store : Store) : Outcome → Answer → Prop
  | undefined : Shown render store (.value .undefined) {}
  | value {v : Value} (h : v ≠ .undefined) :
    Shown render store (.value v) { stdout := store.inspect v ++ "\n" }
  | failure (f : Failure) : Shown render store (.failure f) { stderr := render f.diagnostics }

theorem Outcome.shown_result (render : List Diagnostic → String) (store : Store) {outcome : Outcome}
    (h : outcome ≠ .unfinished) : outcome.Shown render store (Evaluation.result render store outcome) := by
  cases outcome with
  | unfinished => exact (h rfl).elim
  | failure f => exact .failure f
  | value v =>
    by_cases hv : v = .undefined
    · rw [hv]
      exact .undefined
    · have hresult : Evaluation.result render store (.value v) = { stdout := store.inspect v ++ "\n" } := by
        cases v with
        | undefined => exact (hv rfl).elim
        | _ => rfl
      rw [hresult]
      exact .value hv

namespace Session

/-- The source stops in the middle of a construct, and an attempt to run it leaves the session as it was. -/
def Futile (s : Session) (source : String) : Prop :=
  ∃ f : Failure, f.isUnfinished = true ∧ s.run "<repl>" source = (.failure f, s)

/-- Nothing was written or noticed since it was last taken. -/
def Drained (s : Session) : Prop := s.machine.output = "" ∧ s.machine.notices = #[]

theorem drained_drain (s : Session) : s.drain.2.Drained := ⟨rfl, rfl⟩

theorem Drained.drain_eq {s : Session} (h : s.Drained) : s.drain.2 = s := by
  obtain ⟨context, env, store, depth, input, output, notices, importing, clock⟩ := s
  obtain ⟨houtput, hnotices⟩ := h
  dsimp only at houtput hnotices
  rw [houtput, hnotices]
  rfl

theorem run_of_load_error {s : Session} {path source : String} {f : Failure}
    (h : loadSource s.context.options.optimize path source = .error f) :
    s.run path source = (.failure f, s) := by
  have hrun : (evaluator enough).runSource s.context s.env path source = pure (.error f) := by
    unfold Evaluator.runSource
    rw [h]
  unfold run perform
  dsimp only
  rw [hrun]
  rfl

/-- What was loaded ends with a value, with an error of its own, or not at all. -/
theorem run_of_load_ok {s : Session} {path source : String} {loaded : Loaded}
    (h : loadSource s.context.options.optimize path source = .ok loaded) :
    (∃ value, (s.run path source).1 = .value value) ∨
    (∃ e, (s.run path source).1 = .failure (.runtime path source e)) ∨
    (s.run path source).1 = .unfinished := by
  let m := { s.machine with notices := s.machine.notices ++ loaded.notices path }
  have hnotify : Action.notify (loaded.notices path) s.machine = .ok () m := rfl
  unfold run perform Evaluator.runSource
  simp only [h]
  rw [bind_ok hnotify]
  cases hend : (evaluator enough).run s.context s.env loaded.program m with
  | ok r m' =>
    rw [bind_ok hend]
    cases r with
    | ok value => exact .inl ⟨value, rfl⟩
    | error e => exact .inr (.inl ⟨e, rfl⟩)
  | error signal m' =>
    rw [bind_error hend]
    exact .inr (.inr rfl)

/-- Only a source that cannot be parsed is unfinished, and of such a source nothing is run. -/
theorem futile_iff (s : Session) (source : String) :
    s.Futile source ↔ Evaluation.isUnfinished (s.run "<repl>" source).1 = true := by
  constructor
  · rintro ⟨f, hf, hrun⟩
    rw [hrun]
    exact hf
  · intro h
    cases hload : loadSource s.context.options.optimize "<repl>" source with
    | error f =>
      have hrun := run_of_load_error hload
      rw [hrun] at h
      exact ⟨f, h, hrun⟩
    | ok loaded =>
      rcases run_of_load_ok hload with ⟨value, he⟩ | ⟨e, he⟩ | he <;> rw [he] at h <;> cases h

/-- So it is unfinished in every session with these options. -/
theorem Futile.everywhere {s t : Session} {source : String} (h : s.Futile source)
    (ht : t.context.options = s.context.options) : t.Futile source := by
  obtain ⟨f, hf, hrun⟩ := h
  cases hload : loadSource s.context.options.optimize "<repl>" source with
  | error g =>
    have hg := run_of_load_error hload
    rw [hrun] at hg
    cases hg
    exact ⟨f, hf, run_of_load_error (by rw [ht, hload])⟩
  | ok loaded => rcases run_of_load_ok hload with ⟨value, he⟩ | ⟨e, he⟩ | he <;> rw [hrun] at he <;> cases he; cases hf

end Session

/-- An attempt to run the source is futile in every session with these options. -/
def Options.Futile (o : Options) (source : String) : Prop :=
  ∀ s : Session, s.context.options = o → s.Futile source

theorem Session.futile_options (s : Session) (source : String) :
    s.context.options.Futile source ↔ s.Futile source :=
  ⟨fun h => h s rfl, fun h _ ht => h.everywhere ht⟩

namespace Chunk

/-- The lines wait for more: there is nothing yet, or every attempt to run them was futile and none of them
gave up. -/
structure Waits (k : Chunk) (o : Options) : Prop where
  goesOn : "" ∉ k.lines
  futile : ∀ {part}, part ≠ [] → part <+: k.lines → o.Futile { k with lines := part }.source

/-- The lines are run: those before the last one wait for more, and then an attempt was not futile or an empty
line gave up. -/
structure Complete (k : Chunk) (o : Options) : Prop where
  nonempty : k.lines ≠ []
  start : k.lines.head? ≠ some ""
  waits : { k with lines := k.lines.dropLast }.Waits o
  last : ¬o.Futile k.source ∨ k.lines.getLast? = some ""

variable {k : Chunk} {o : Options} {line : String}

theorem waits_empty (o : Options) : Waits {} o where
  goesOn := by simp
  futile hne hpart := (hne (List.prefix_nil.1 hpart)).elim

theorem Waits.skip (h : k.Waits o) : k.skip.Waits o := ⟨h.goesOn, h.futile⟩

/-- One more line, after which the attempt was futile. -/
theorem Waits.push (h : k.Waits o) (hline : line ≠ "") (hfutile : o.Futile (k.push line).source) :
    (k.push line).Waits o where
  goesOn := by simpa [Chunk.push] using ⟨h.goesOn, hline⟩
  futile {part} hne hpart := by
    rcases List.prefix_concat_iff.1 hpart with heq | hpart
    · rw [heq]
      exact hfutile
    · exact h.futile hne hpart

/-- One more line, if it can be the first one, after which the lines were run. -/
theorem Waits.complete (h : k.Waits o) (hline : k.lines = [] → line ≠ "")
    (hrun : ¬o.Futile (k.push line).source ∨ line = "") : (k.push line).Complete o where
  nonempty := by simp [Chunk.push]
  start := by
    cases hlines : k.lines with
    | nil => simpa [Chunk.push, hlines] using hline hlines
    | cons first lines =>
      have hfirst : first ≠ "" := fun he => h.goesOn (by simp [hlines, he])
      simpa [Chunk.push, hlines] using hfirst
  waits := by simpa [Chunk.push] using h
  last := by simpa [Chunk.push] using hrun

theorem Complete.of_push (h : (k.push line).Complete o) :
    (k.lines = [] → line ≠ "") ∧ (¬o.Futile (k.push line).source ∨ line = "") := by
  refine ⟨fun hempty hline => h.start ?_, by simpa [Chunk.push] using h.last⟩
  simp [Chunk.push, hempty, hline]

end Chunk

namespace Evaluation

variable {render : List Diagnostic → String} {s : Session} {k : Chunk} {line : String}

/-- An empty line is skipped where nothing is pending. -/
theorem respond_blank (h : k.lines = []) :
    (⟨s, k.source⟩ : Evaluation).respond render "" = ({}, some ⟨s, k.skip.source⟩) := by
  have hempty : k.source = "" := (k.source_eq_empty).2 h
  unfold respond
  rw [if_pos ⟨rfl, hempty⟩]
  rfl

/-- After a futile attempt the line is pending, and nothing else has changed. -/
theorem respond_futile (hs : s.Drained) (hline : line ≠ "") (hexit : line ≠ exitWord)
    (h : s.Futile (k.push line).source) :
    (⟨s, k.source⟩ : Evaluation).respond render line = ({}, some ⟨s, (k.push line).source⟩) := by
  obtain ⟨f, hf, hrun⟩ := h
  unfold respond
  rw [if_neg fun h => hline h.1, if_neg hexit, ← k.source_push line]
  dsimp only
  rw [hrun]
  exact (if_pos ⟨hf, hline⟩).trans (by rw [hs.drain_eq])

/-- Otherwise the lines are run. If the run ends the loop goes on, with nothing pending. -/
theorem respond_complete (render : List Diagnostic → String) {outcome : Outcome} {left : Session}
    (hline : k.lines = [] → line ≠ "")
    (hexit : line ≠ exitWord) (h : ¬s.Futile (k.push line).source ∨ line = "")
    (hrun : s.run "<repl>" (k.push line).source = (outcome, left)) :
    (⟨s, k.source⟩ : Evaluation).respond render line =
      ({ stdout := left.machine.output ++ (result render left.store outcome).stdout
         stderr := Notice.texts left.machine.notices.toList ++ (result render left.store outcome).stderr },
        if outcome.ended then some ⟨left.drain.2, ""⟩ else none) := by
  have hblank : ¬(line = "" ∧ k.source = "") := fun h => hline ((k.source_eq_empty).1 h.2) h.1
  have hgoes : ¬(isUnfinished outcome ∧ line ≠ "") := by
    rintro ⟨hunfinished, hne⟩
    refine h.elim (fun h => h ((s.futile_iff _).2 ?_)) hne
    rw [hrun]
    exact hunfinished
  unfold respond
  rw [if_neg hblank, if_neg hexit, ← k.source_push line]
  dsimp only
  rw [hrun]
  exact if_neg hgoes

end Evaluation

def Session.afterLine (s : Session) : Session := s.setStdin s.machine.input.shellLine.2

inductive Session.Reads : Session → List (List UInt8) → Session → Prop
  | nil (s : Session) : Reads s [] s
  | snoc {s s' : Session} {lines : List (List UInt8)} (h : Reads s lines s') (hmore : s'.stream ≠ []) :
    Reads s (lines ++ [firstLine s'.stream]) s'.afterLine

/-- Lines of a chunk as the loop has read them, and the session then. -/
structure Intake where
  chunk : Chunk := {}
  bytes : List (List UInt8) := []
  session : Session

/-- The lines are text, and none is the exit word. -/
structure Intake.From (p : Intake) (s : Session) : Prop where
  reads : s.Reads p.bytes p.session
  lines : p.bytes.map Dialogue.readLine? = p.chunk.typed.map some
  plain : exitWord ∉ p.chunk.typed

/-- A chunk that was run: how the run ended and what it left, how its end was shown, and which bytes of the input
the run took. -/
structure Turn extends Intake where
  outcome : Outcome
  left : Session
  shown : Answer
  taken : List UInt8

namespace Turn

def stdout (t : Turn) : String := t.chunk.prompts ++ t.left.machine.output ++ t.shown.stdout

def stderr (t : Turn) : String := Notice.texts t.left.machine.notices.toList ++ t.shown.stderr

/-- The chunk is read and run once, in the session that has read it. -/
structure Runs (render : List Diagnostic → String) (t : Turn) (s : Session) : Prop where
  read : t.From s
  complete : t.chunk.Complete s.context.options
  run : t.session.run "<repl>" t.chunk.source = (t.outcome, t.left)
  shown : t.outcome.Shown render t.left.store t.shown
  taken : t.session.stream = t.taken ++ t.left.stream

end Turn

/-- Chunks are run one after another, each in the session that the one before it left. -/
inductive Session.Turns (render : List Diagnostic → String) : Session → List Turn → Session → Prop
  | nil (s : Session) : Turns render s [] s
  | cons {s s' : Session} {t : Turn} {ts : List Turn} (ht : t.Runs render s)
    (hts : Turns render t.left.drain.2 ts s') : Turns render s (t :: ts) s'

/-- Why the loop ends, with these lines pending: what the user sees of it, and the exit code. -/
inductive Intake.Stops (render : List Diagnostic → String) (p : Intake) : Answer → Nat → Prop
  | ended (h : p.session.stream = []) : Stops render p {} 0
  | exit (h : Dialogue.readLine? (firstLine p.session.stream) = some exitWord) : Stops render p {} 0
  | spoiled (h : Dialogue.readLine? (firstLine p.session.stream) = none) :
    Stops render p { stderr := render (Failure.file .invalidText).diagnostics } 1
  | endless {line : String} {left : Session} (hmore : p.session.stream ≠ [])
    (hline : Dialogue.readLine? (firstLine p.session.stream) = some line) (hexit : line ≠ exitWord)
    (hcomplete : (p.chunk.push line).Complete p.session.context.options)
    (hrun : p.session.afterLine.run "<repl>" (p.chunk.push line).source = (.unfinished, left)) :
    Stops render p
      { stdout := left.machine.output, stderr := Notice.texts left.machine.notices.toList } 0

namespace Session

variable {render : List Diagnostic → String} {s s' : Session}

theorem afterLine_stream (s : Session) : s.afterLine.stream = laterLines s.stream :=
  s.machine.input.shellLine_stream

theorem Reads.stream {lines : List (List UInt8)} (h : s.Reads lines s') :
    s.stream = lines.flatten ++ s'.stream := by
  induction h with
  | nil => rfl
  | @snoc s' lines h hmore ih =>
    rw [ih, afterLine_stream, List.flatten_append, List.append_assoc]
    simp [firstLine_append_laterLines]

theorem Reads.splitLines {lines : List (List UInt8)} (h : s.Reads lines s') :
    splitLines s.stream = lines ++ Scriptlet.splitLines s'.stream := by
  induction h with
  | nil => rfl
  | @snoc s' lines h hmore ih =>
    obtain ⟨b, bytes, hstream⟩ := List.exists_cons_of_ne_nil hmore
    rw [ih, afterLine_stream, hstream, splitLines_cons, List.append_assoc]
    rfl

/-- All that the loop reads and all that the runs take is the input, in order. -/
theorem Turns.stream {turns : List Turn} (h : s.Turns render turns s') :
    s.stream = (turns.flatMap fun t => t.bytes.flatten ++ t.taken) ++ s'.stream := by
  induction h with
  | nil => rfl
  | cons ht _ ih =>
    rw [ht.read.reads.stream, ht.taken, List.flatMap_cons, List.append_assoc, ← ih]
    simp only [List.append_assoc]
    rfl

/-- Where no run reads, the loop reads the lines of the input. -/
theorem Turns.splitLines {turns : List Turn} (h : s.Turns render turns s')
    (hnone : ∀ t ∈ turns, t.taken = []) :
    splitLines s.stream = turns.flatMap (·.bytes) ++ Scriptlet.splitLines s'.stream := by
  induction h with
  | nil => rfl
  | @cons s s' t ts ht _ ih =>
    obtain ⟨ht0, hts0⟩ := List.forall_mem_cons.1 hnone
    have hstream : t.session.stream = t.left.drain.2.stream := by
      rw [ht.taken, ht0]
      rfl
    rw [ht.read.reads.splitLines, hstream, ih hts0, List.flatMap_cons, List.append_assoc]

end Session

theorem Intake.From.push {p : Intake} {s : Session} {line : String} {chunk : Chunk} (h : p.From s)
    (hmore : p.session.stream ≠ []) (hline : Dialogue.readLine? (firstLine p.session.stream) = some line)
    (hexit : line ≠ exitWord) (htyped : chunk.typed = p.chunk.typed ++ [line]) :
    Intake.From ⟨chunk, p.bytes ++ [firstLine p.session.stream], p.session.afterLine⟩ s where
  reads := h.reads.snoc hmore
  lines := by simp [h.lines, hline, htyped]
  plain := by
    rw [htyped]
    simpa using ⟨h.plain, hexit.symm⟩

namespace Evaluation

variable {render : List Diagnostic → String} {s : Session} {k : Chunk} {line : String}

theorem dialogue_prompt (s : Session) (k : Chunk) : (dialogue render).prompt ⟨s, k.source⟩ = k.prompt := by
  simp only [dialogue, Chunk.prompt, k.source_eq_empty]

theorem dialogue_takeLine (s : Session) (pending : String) :
    (dialogue render).takeLine ⟨s, pending⟩ = (firstLine s.stream, ⟨s.afterLine, pending⟩) :=
  congrArg (·, (⟨s.afterLine, pending⟩ : Evaluation)) s.machine.input.shellLine_fst

/-- One round of a loop that goes on. -/
theorem run_goes_on {e : Evaluation} {answer : Answer} (hmore : s.stream ≠ [])
    (hline : Dialogue.readLine? (firstLine s.stream) = some line)
    (h : respond render ⟨s.afterLine, k.source⟩ line = (answer, some e)) (limit : Nat) (out err : String) :
    (dialogue render).run (limit + 1) ⟨s, k.source⟩ { stdout := out, stderr := err } =
      (dialogue render).run limit e
        { stdout := out ++ k.prompt ++ answer.stdout, stderr := err ++ answer.stderr } := by
  have hrespond : (dialogue render).respond ⟨s.afterLine, k.source⟩ line = (answer, some e) := h
  rw [Dialogue.run]
  simp only [dialogue_prompt, dialogue_takeLine, firstLine_eq_nil_iff, hmore, if_false, hline, hrespond]

/-- The last round. -/
theorem run_stops {p : Intake} {answer : Answer} {code : Nat} (h : p.Stops render answer code) (limit : Nat)
    (out err : String) :
    (dialogue render).run (limit + 1) ⟨p.session, p.chunk.source⟩ { stdout := out, stderr := err } =
      ({ stdout := out ++ p.chunk.prompt ++ answer.stdout, stderr := err ++ answer.stderr, code },
        ⟨p.session.afterLine, p.chunk.source⟩) := by
  have hnone : Dialogue.readLine? (firstLine []) = some "" := by decide
  rw [Dialogue.run]
  simp only [dialogue_prompt, dialogue_takeLine, firstLine_eq_nil_iff]
  cases h with
  | ended h => simp [h]
  | exit h =>
    have hmore : p.session.stream ≠ [] := by
      intro hempty
      rw [hempty, hnone] at h
      exact absurd h (by decide)
    have hrespond : (dialogue render).respond ⟨p.session.afterLine, p.chunk.source⟩ exitWord = ({}, none) := by
      show respond render ⟨p.session.afterLine, p.chunk.source⟩ exitWord = _
      unfold respond
      rw [if_neg (fun h => absurd h.1 (by decide)), if_pos rfl]
    simp [hmore, h, hrespond]
  | spoiled h =>
    have hmore : p.session.stream ≠ [] := by
      intro hempty
      rw [hempty, hnone] at h
      cases h
    simp [hmore, h, Report.failed, dialogue]
  | @endless line left hmore hline hexit hcomplete hrun =>
    obtain ⟨hfirst, hlast⟩ := hcomplete.of_push
    rw [show p.session.context.options = p.session.afterLine.context.options from rfl,
      Session.futile_options] at hlast
    have hrespond : (dialogue render).respond ⟨p.session.afterLine, p.chunk.source⟩ line = _ :=
      respond_complete render hfirst hexit hlast hrun
    simp [hmore, hline, hrespond, result, Outcome.ended]

/-- From what a loop has read of a chunk it goes on to run chunks, and ends with a rest. It shows what the runs
show. -/
structure Follows (render : List Diagnostic → String) (s : Session) (p : Intake) (limit : Nat)
    (turns : List Turn) (last : Session) (rest : Intake) (answer : Answer) (code : Nat) : Prop where
  ran : s.Turns render turns last
  read : rest.From last
  waits : rest.chunk.Waits s.context.options
  stops : rest.Stops render answer code
  shows : ∀ out err, (dialogue render).run limit ⟨p.session, p.chunk.source⟩
      { stdout := out ++ p.chunk.prompts, stderr := err } =
    ({ stdout := out ++ String.join (turns.map Turn.stdout) ++ rest.chunk.prompts ++ rest.chunk.prompt ++
         answer.stdout
       stderr := err ++ String.join (turns.map Turn.stderr) ++ answer.stderr
       code },
      ⟨rest.session.afterLine, rest.chunk.source⟩)

variable {s : Session} {p : Intake} {limit : Nat} {turns : List Turn} {last : Session} {rest : Intake}
  {answer : Answer} {code : Nat}

/-- Where the loop stops, the chunk in progress is the rest. -/
theorem follows_stop (hp : p.From s) (hwaits : p.chunk.Waits s.context.options)
    (hstops : p.Stops render answer code) (limit : Nat) :
    Follows render s p (limit + 1) [] s p answer code where
  ran := .nil s
  read := hp
  waits := hwaits
  stops := hstops
  shows out err := by simpa using run_stops hstops limit (out ++ p.chunk.prompts) err

/-- A line that joins the chunk in progress: the loop goes on with the longer chunk. -/
theorem Follows.join {p' : Intake} (h : Follows render s p' limit turns last rest answer code)
    (hmore : p.session.stream ≠ []) (hline : Dialogue.readLine? (firstLine p.session.stream) = some line)
    (hrespond : respond render ⟨p.session.afterLine, p.chunk.source⟩ line =
      ({}, some ⟨p'.session, p'.chunk.source⟩))
    (hprompts : p'.chunk.prompts = p.chunk.prompts ++ p.chunk.prompt) :
    Follows render s p (limit + 1) turns last rest answer code :=
  { h with
    shows := fun out err => by
      have hshows := h.shows out err
      rw [hprompts] at hshows
      rw [run_goes_on hmore hline hrespond, ← hshows]
      simp [String.append_assoc] }

/-- A line that completes the chunk in progress: it is run, and the loop goes on with an empty chunk. -/
theorem Follows.complete {t : Turn}
    (h : Follows render t.left.drain.2 ⟨{}, [], t.left.drain.2⟩ limit turns last rest answer code)
    (ht : t.Runs render s) (hcontext : t.left.context = s.context) (hchunk : t.chunk = p.chunk.push line)
    (hmore : p.session.stream ≠ []) (hline : Dialogue.readLine? (firstLine p.session.stream) = some line)
    (hrespond : respond render ⟨p.session.afterLine, p.chunk.source⟩ line =
      ({ stdout := t.left.machine.output ++ t.shown.stdout, stderr := t.stderr }, some ⟨t.left.drain.2, ""⟩)) :
    Follows render s p (limit + 1) (t :: turns) last rest answer code where
  ran := .cons ht h.ran
  read := h.read
  waits := hcontext ▸ h.waits
  stops := h.stops
  shows out err := by
    have hshows := h.shows (out ++ t.stdout) (err ++ t.stderr)
    rw [show ({} : Chunk).prompts = "" from rfl, String.append_empty] at hshows
    rw [run_goes_on hmore hline hrespond]
    have hprompts : t.chunk.prompts = p.chunk.prompts ++ p.chunk.prompt := by
      rw [hchunk, p.chunk.prompts_push line]
    refine Eq.trans ?_ (hshows.trans ?_)
    · simp only [Turn.stdout, hprompts, String.append_assoc]
      rfl
    · simp [String.append_assoc]

/-- The turn that a line makes which completes the chunk in progress, if the run of the chunk ends. -/
theorem exists_turn {files : Files} (hhost : s.context.host = Module.host files) (hp : p.From s)
    (hcontext : p.session.context = s.context) (hmore : p.session.stream ≠ [])
    (hline : Dialogue.readLine? (firstLine p.session.stream) = some line) (hexit : line ≠ exitWord)
    (hcomplete : (p.chunk.push line).Complete s.context.options)
    (hend : (p.session.afterLine.run "<repl>" (p.chunk.push line).source).1 ≠ .unfinished) :
    ∃ t : Turn, t.Runs render s ∧ t.chunk = p.chunk.push line ∧ t.left.context = s.context ∧
      t.left.stream.length ≤ p.session.afterLine.stream.length ∧
      respond render ⟨p.session.afterLine, p.chunk.source⟩ line =
        ({ stdout := t.left.machine.output ++ t.shown.stdout, stderr := t.stderr },
          some ⟨t.left.drain.2, ""⟩) := by
  have hready : p.session.afterLine.context = s.context := hcontext
  obtain ⟨taken, htaken⟩ := Session.run_stream (by rw [hready, hhost]) "<repl>" (p.chunk.push line).source hend
  have hleft := (Session.run_context p.session.afterLine "<repl>" (p.chunk.push line).source).trans hready
  obtain ⟨hfirst, hlast⟩ := hcomplete.of_push
  rw [← hready, Session.futile_options] at hlast
  cases hdone : p.session.afterLine.run "<repl>" (p.chunk.push line).source with
  | mk outcome left =>
    rw [hdone] at hend htaken hleft
    have hended : outcome.ended = true := by
      cases outcome with
      | unfinished => exact (hend rfl).elim
      | _ => rfl
    have hrespond := respond_complete render (k := p.chunk) hfirst hexit hlast hdone
    rw [hended, if_pos rfl] at hrespond
    have hlength := congrArg List.length htaken
    rw [List.length_append] at hlength
    exact ⟨{ chunk := p.chunk.push line
             bytes := p.bytes ++ [firstLine p.session.stream]
             session := p.session.afterLine
             outcome, left, taken
             shown := result render left.store outcome },
      ⟨hp.push hmore hline hexit (p.chunk.typed_push line), hcomplete, hdone,
        Outcome.shown_result render left.store hend, htaken.symm⟩,
      rfl, hleft, hlength ▸ Nat.le_add_left _ _, hrespond⟩

/-- From every chunk in progress the loop goes on so, as long as its limit allows for the bytes that are left. -/
theorem exists_follows (render : List Diagnostic → String) {files : Files}
    (hhost : s.context.host = Module.host files) (hp : p.From s)
    (hcontext : p.session.context = s.context) (hdrained : p.session.Drained)
    (hwaits : p.chunk.Waits s.context.options) (hlimit : p.session.stream.length < limit) :
    ∃ turns last rest answer code, Follows render s p limit turns last rest answer code := by
  induction limit generalizing s p with
  | zero => cases hlimit
  | succ limit ih =>
    by_cases hmore : p.session.stream = []
    · exact ⟨_, _, _, _, _, follows_stop hp hwaits (.ended hmore) limit⟩
    cases hline : Dialogue.readLine? (firstLine p.session.stream) with
    | none => exact ⟨_, _, _, _, _, follows_stop hp hwaits (.spoiled hline) limit⟩
    | some line =>
    by_cases hexit : line = exitWord
    · exact ⟨_, _, _, _, _, follows_stop hp hwaits (.exit (hexit ▸ hline)) limit⟩
    have hafter : p.session.afterLine.stream.length < limit := by
      have hshorter := laterLines_length_lt hmore
      rw [p.session.afterLine_stream]
      omega
    have hoptions : p.session.afterLine.context.options = s.context.options :=
      congrArg Context.options hcontext
    -- the line is skipped, or it is tried with the ones before it, and then waits or is run with them
    by_cases hblank : p.chunk.lines = [] ∧ line = ""
    · obtain ⟨hempty, rfl⟩ := hblank
      obtain ⟨turns, last, rest, answer, code, hlater⟩ :=
        ih hhost (hp.push hmore hline hexit (Chunk.typed_skip hempty)) hcontext hdrained hwaits.skip hafter
      exact ⟨turns, last, rest, answer, code,
        hlater.join hmore hline (respond_blank hempty) (Chunk.prompts_skip hempty)⟩
    have hfirst : p.chunk.lines = [] → line ≠ "" := fun hempty h => hblank ⟨hempty, h⟩
    by_cases hfutile : s.context.options.Futile (p.chunk.push line).source ∧ line ≠ ""
    · obtain ⟨turns, last, rest, answer, code, hlater⟩ :=
        ih hhost (hp.push hmore hline hexit (p.chunk.typed_push line)) hcontext hdrained
          (hwaits.push hfutile.2 hfutile.1) hafter
      exact ⟨turns, last, rest, answer, code, hlater.join hmore hline
        (respond_futile hdrained hfutile.2 hexit (hfutile.1 _ hoptions)) (p.chunk.prompts_push line)⟩
    have hrun : ¬s.context.options.Futile (p.chunk.push line).source ∨ line = "" :=
      (not_and_or.1 hfutile).imp_right not_not.1
    have hcomplete := hwaits.complete hfirst hrun
    by_cases hend : (p.session.afterLine.run "<repl>" (p.chunk.push line).source).1 = .unfinished
    · exact ⟨_, _, _, _, _, follows_stop hp hwaits (.endless hmore hline hexit
        (congrArg Context.options hcontext ▸ hcomplete) (Prod.ext hend rfl)) limit⟩
    · obtain ⟨t, ht, hchunk, hleft, hfewer, hrespond⟩ :=
        exists_turn hhost hp hcontext hmore hline hexit hcomplete hend
      obtain ⟨turns, last, rest, answer, code, hlater⟩ :=
        ih (s := t.left.drain.2) (p := ⟨{}, [], t.left.drain.2⟩)
          ((congrArg Context.host hleft).trans hhost) ⟨.nil _, rfl, nofun⟩ rfl t.left.drained_drain
          (Chunk.waits_empty _) (Nat.lt_of_le_of_lt hfewer hafter)
      exact ⟨t :: turns, last, rest, answer, code, hlater.complete ht hleft hchunk hmore hline hrespond⟩

end Evaluation

end Scriptlet
