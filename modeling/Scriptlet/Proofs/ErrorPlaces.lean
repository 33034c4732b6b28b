import Scriptlet.Proofs.CallDepth
import Scriptlet.Proofs.Imports

/-! Where the errors of a run point to. A run fails at a node of the code that it executes: of the program that
it was given, of a function or class that was stored before, or of a module. -/
namespace Scriptlet

def FunctionBody.marks : FunctionBody → List Mark
  | block body => body.marks
  | expression body => body.marks

def Store.marks (s : Store) : List Mark :=
  s.functions.toList.flatMap (fun f => f.body.marks) ++ s.classes.toList.flatMap fun k => marksMembers k.members

/-- A program was loaded, and the span is that of one of its nodes. -/
def Span.IsNodeOf (span : Span) (loading : Except Failure Loaded) : Prop :=
  ∃ loaded, loading = .ok loaded ∧ .place span ∈ loaded.program.marks

/-- Only a run fails with an error of the run. -/
theorem loadSource_ne_runtime {optimize : Bool} {path source path' source' : String} {e : RuntimeError} :
    loadSource optimize path source ≠ .error (.runtime path' source' e) := by
  unfold loadSource loadParsed
  cases parse source with
  | error errors => exact nofun
  | ok p => cases optimize <;> exact nofun

/-- The files that the programs of the sources import, and those that these import in turn. -/
inductive Module.Imported (options : Options) (files : Files) (sources : List (String × String)) : String → Prop
  | byProgram {x : String × String} {loaded : Loaded} {target : String} (hx : x ∈ sources)
    (hload : loadSource options.optimize x.1 x.2 = .ok loaded) (htarget : target ∈ loaded.program.targets) :
    Imported options files sources (Path.ofModule target)
  | byModule {file : String} {loaded : Loaded} {target : String} (h : Imported options files sources file)
    (hload : loadFile options.optimize file (files file) = .ok loaded)
    (htarget : target ∈ loaded.program.targets) : Imported options files sources (Path.ofModule target)

theorem Module.Imported.mono {options : Options} {files : Files} {sources sources' : List (String × String)}
    (hsources : sources ⊆ sources') {file : String} (h : Imported options files sources file) :
    Imported options files sources' file := by
  induction h with
  | byProgram hx hload htarget => exact .byProgram (hsources hx) hload htarget
  | byModule _ hload htarget ih => exact .byModule ih hload htarget

namespace Span

variable (options : Options) (files : Files) (sources : List (String × String)) (span : Span)

/-- The span is that of a node of a module that the sources import. -/
def IsNodeOfModule : Prop :=
  ∃ file, Module.Imported options files sources file ∧
    span.IsNodeOf (loadFile options.optimize file (files file))

/-- The span is that of a node of one of the sources, or of a module that they import. -/
def IsCodeOf : Prop :=
  (∃ x ∈ sources, span.IsNodeOf (loadSource options.optimize x.1 x.2)) ∨ span.IsNodeOfModule options files sources

variable {options files sources span} {sources' : List (String × String)} (hsources : sources ⊆ sources')
include hsources

theorem IsNodeOfModule.mono (h : span.IsNodeOfModule options files sources) :
    span.IsNodeOfModule options files sources' := by
  obtain ⟨file, hfile, hnode⟩ := h
  exact ⟨file, hfile.mono hsources, hnode⟩

theorem IsCodeOf.mono (h : span.IsCodeOf options files sources) : span.IsCodeOf options files sources' := by
  rcases h with ⟨x, hx, hnode⟩ | hmodule
  · exact .inl ⟨x, hsources hx, hnode⟩
  · exact .inr (hmodule.mono hsources)

end Span

namespace Domain

theorem body_iff {D : Domain} (body : FunctionBody) : D.Body body ↔ ∀ k ∈ body.marks, D.mark k := by
  cases body with
  | block body => exact body.within_iff
  | expression body => exact body.within_iff

section Owns

variable {D : Domain} {s : Store}

theorem mem_store_marks {k : Mark} : k ∈ s.marks ↔
    (∃ f ∈ s.functions, k ∈ f.body.marks) ∨ ∃ c ∈ s.classes, k ∈ marksMembers c.members := by
  simp [Store.marks]

theorem Owns.mark (h : D.Owns s) {k : Mark} (hk : k ∈ s.marks) : D.mark k := by
  rcases mem_store_marks.1 hk with ⟨f, hf, hk⟩ | ⟨c, hc, hk⟩
  · exact (body_iff f.body).1 (h.functions f hf) k hk
  · exact (withinMembers_iff c.members).1 (h.classes c hc) k hk

/-- Which code a domain has is a matter of the marks in the store alone. -/
theorem Owns.of_marks (h : D.Owns s) {D' : Domain} (hfree : D.free → D'.free)
    (hmarks : ∀ k ∈ s.marks, D.mark k → D'.mark k) : D'.Owns s where
  frames f hf e he := (h.frames f hf e he).imp_left hfree
  arrays a ha v hv := (h.arrays a ha v hv).imp_left hfree
  maps d hd e he := (h.maps d hd e he).imp_left hfree
  functions f hf := (body_iff f.body).2 fun k hk =>
    hmarks k (mem_store_marks.2 (.inl ⟨f, hf, hk⟩)) ((body_iff f.body).1 (h.functions f hf) k hk)
  classes c hc := (withinMembers_iff c.members).2 fun k hk =>
    hmarks k (mem_store_marks.2 (.inr ⟨c, hc, hk⟩)) ((withinMembers_iff c.members).1 (h.classes c hc) k hk)

end Owns

/-- Code at the places, which imports nothing but what the sources do. -/
def ofSources (options : Options) (files : Files) (sources : List (String × String)) (P : Span → Prop) : Domain :=
  ofCode P (fun target => Module.Imported options files sources (Path.ofModule target)) False

section OfSources

variable {options : Options} {files : Files} {sources : List (String × String)} {P : Span → Prop}

/-- Whatever is evaluated stays at the places, if modules that are imported do. -/
theorem ofSources_tracking
    (hfiles : ∀ span, Span.IsNodeOfModule options files sources span → P span)
    (n : Nat) : (ofSources options files sources P).Tracking [] (Module.context options files)
      (Module.host files) (evaluator n) (evaluator n) := by
  have hserves : (ofSources options files sources P).Serves (Module.context options files) .idle fun _ => True := by
    refine serves_modules (D := ofSources options files sources P) ofCode_names
      (fun {target bytes source loaded} hmark _ hbytes hsource hload => ?_) (fun _ _ _ => trivial)
      (fun _ _ hread => ?_) fun _ _ => rfl
    · have himported : Module.Imported options files sources (Path.ofModule target) := hmark.resolve_left id
      have hfile := (loadFile_eq_loadSource hbytes hsource).trans hload
      exact ofCode_within hload (fun span hspan => hfiles span ⟨_, himported, loaded, hfile, hspan⟩)
        fun _ htarget => .byModule himported hfile htarget
    · cases hread
  have ht := tracking hserves (fun _ _ => rfl) n (L := []) trivial ofCode_names
  rw [Observer.idle_evaluator] at ht
  exact ht

theorem ofSources_within {path source : String} (hmem : (path, source) ∈ sources)
    (hsource : ∀ span, Span.IsNodeOf span (loadSource options.optimize path source) → P span) (loaded : Loaded)
    (hload : loadSource options.optimize path source = .ok loaded) :
    loaded.program.Within (ofSources options files sources P).mark :=
  ofCode_within hload (fun span hspan => hsource span ⟨loaded, hload, hspan⟩)
    fun _ htarget => .byProgram hmem hload htarget

/-- The code in the store stays in the domain when more may be imported, if its places do. -/
theorem Owns.ofSources {s : Store} {sources' : List (String × String)} {P' : Span → Prop}
    (h : (ofSources options files sources P).Owns s) (hsources : sources ⊆ sources')
    (hplaces : ∀ span, .place span ∈ s.marks → P span → P' span) :
    (ofSources options files sources' P').Owns s := by
  refine h.of_marks id fun k hk hmark => ?_
  cases k with
  | place span => exact hplaces span hk hmark
  | name text => exact hmark
  | literal value => trivial
  | target module => exact hmark.mono hsources

end OfSources

end Domain

namespace Session

/-- A run that comes to an end leaves code from the places, and fails at one of them. -/
theorem run_places {P : Span → Prop} {options : Options} {files : Files} {sources : List (String × String)}
    (hfiles : ∀ span, Span.IsNodeOfModule options files sources span → P span)
    {s : Session} (hcontext : s.context = Module.context options files)
    (hs : (Domain.ofSources options files sources P).Ready [] s.machine) {path source : String}
    (hmem : (path, source) ∈ sources)
    (hsource : ∀ span, Span.IsNodeOf span (loadSource options.optimize path source) → P span)
    (hend : (s.run path source).1 ≠ .unfinished) :
    (Domain.ofSources options files sources P).Ready [] (s.run path source).2.machine ∧
      ∀ path' source' e, (s.run path source).1 = .failure (.runtime path' source' e) →
        path' = path ∧ source' = source ∧ P e.span := by
  have hsame := (Domain.ofSources_tracking hfiles enough).runSource s.env
    (Domain.ofSources_within hmem hsource) s.machine hs
  have hcontext' : (Module.context options files).hosted (Module.host files) = Module.context options files := rfl
  rw [hcontext', ← hcontext] at hsame
  unfold Session.run Session.perform at hend ⊢
  dsimp only at hend ⊢
  generalize (evaluator enough).runSource s.context s.env path source s.machine = r at hsame hend ⊢
  cases hsame with
  | @ok r m hr hm =>
    cases r with
    | ok value => exact ⟨hm, nofun⟩
    | error f =>
      refine ⟨hm, fun path' source' e he => ?_⟩
      cases he
      rcases hr _ rfl with hload | ⟨e', he', hplace⟩
      · exact (loadSource_ne_runtime hload).elim
      · cases he'
        exact ⟨rfl, rfl, hplace⟩
  | error => exact (hend rfl).elim
  | exhausted => exact (hend rfl).elim
  | quit hq => exact hq.elim

/-- The sessions that come of running sources one after another, each to its end, with these sources. What was
written may be taken in between. -/
inductive Reached (s : Session) : List (String × String) → Session → Prop
  | start : Reached s [] s
  | run {earlier : List (String × String)} {t : Session} (h : Reached s earlier t) (path source : String)
    (hend : (t.run path source).1 ≠ .unfinished) : Reached s ((path, source) :: earlier) (t.run path source).2
  | drain {earlier : List (String × String)} {t : Session} (h : Reached s earlier t) : Reached s earlier t.drain.2

/-- The code that is stored comes of the sources and of the modules that they import. -/
theorem Reached.places {options : Options} {files : Files} {input : Stdin} {clock : Clock}
    {earlier : List (String × String)} {s : Session}
    (h : Reached (Session.start (Module.context options files) input clock) earlier s) :
    s.context = Module.context options files ∧
      (Domain.ofSources options files earlier (Span.IsCodeOf options files earlier)).Ready [] s.machine := by
  induction h with
  | start => exact ⟨rfl, Domain.ready_start _ _ input clock⟩
  | @run earlier t _ path source hend ih =>
    obtain ⟨hcontext, hready⟩ := ih
    have hsub : earlier ⊆ (path, source) :: earlier := List.subset_cons_self _ _
    have hstore := hready.store.ofSources hsub fun _ _ hspan => hspan.mono hsub
    have hrun := run_places (fun _ => .inr) hcontext ⟨hstore, hready.importing⟩ List.mem_cons_self
      (fun span hspan => .inl ⟨_, List.mem_cons_self, hspan⟩) hend
    exact ⟨(run_context t path source).trans hcontext, hrun.1⟩
  | drain _ ih => exact ⟨ih.1, ih.2.store, ih.2.importing⟩

end Session

/-- An error of a run carries the path and the source that were run. It points to a node of the program that was
loaded from them, or of a function or class that an earlier run has stored, which is then of the program of an
earlier source, or of a module that one of these programs imports. -/
theorem runtime_errors_point_into_code_that_ran {options : Options} {files : Files} {input : Stdin}
    {clock : Clock} {earlier : List (String × String)} {s : Session}
    (hs : Session.Reached (.start (Module.context options files) input clock) earlier s)
    {path source path' source' : String} {e : RuntimeError}
    (h : (s.run path source).1 = .failure (.runtime path' source' e)) :
    path' = path ∧ source' = source ∧
      (e.span.IsNodeOf (loadSource options.optimize path source) ∨
        (.place e.span ∈ s.store.marks ∧
          ∃ x ∈ earlier, e.span.IsNodeOf (loadSource options.optimize x.1 x.2)) ∨
        e.span.IsNodeOfModule options files ((path, source) :: earlier)) := by
  obtain ⟨hcontext, hready⟩ := hs.places
  have hend : (s.run path source).1 ≠ .unfinished := by
    rw [h]
    exact nofun
  have hsub : earlier ⊆ (path, source) :: earlier := List.subset_cons_self _ _
  have hstore : (Domain.ofSources options files ((path, source) :: earlier) fun span =>
      span.IsNodeOf (loadSource options.optimize path source) ∨ .place span ∈ s.store.marks ∨
        span.IsNodeOfModule options files ((path, source) :: earlier)).Owns s.store :=
    hready.store.ofSources hsub fun _ hstored _ => .inr (.inl hstored)
  have hrun := Session.run_places (fun _ hmodule => .inr (.inr hmodule)) hcontext ⟨hstore, hready.importing⟩
    List.mem_cons_self (fun _ => .inl) hend
  obtain ⟨hpath, hsource, hplace⟩ := hrun.2 path' source' e h
  refine ⟨hpath, hsource, hplace.imp_right ?_⟩
  rintro (hstored | hmodule)
  · have hcode : e.span.IsCodeOf options files earlier := hready.store.mark hstored
    exact hcode.imp (fun hx => ⟨hstored, hx⟩) fun hmodule => hmodule.mono hsub
  · exact .inr hmodule

/-- What an error of a run carries, and the place that it points to. -/
def Outcome.runtime? : Outcome → Option (String × String × Span)
  | failure (.runtime path source e) => some (path, source, e.span)
  | _ => none

def Outcome.isFinished : Outcome → Bool
  | unfinished => false
  | _ => true

theorem Outcome.eq_failure_of_runtime? {outcome : Outcome} {path source : String} {span : Span}
    (h : outcome.runtime? = some (path, source, span)) :
    ∃ e, outcome = .failure (.runtime path source e) ∧ e.span = span := by
  cases outcome with
  | failure f =>
    cases f with
    | runtime path' source' e =>
      cases h
      exact ⟨e, rfl, rfl⟩
    | _ => cases h
  | _ => cases h

def Mark.place? : Mark → Option Span
  | place span => some span
  | _ => none

/-- The span is that of a node, for programs that can be evaluated. -/
def Span.isNodeOf (span : Span) (loading : Except Failure Loaded) : Bool :=
  loading.toOption.any fun loaded => loaded.program.marks.any fun k => k.place? == some span

theorem Span.IsNodeOf.isNodeOf {span : Span} {loading : Except Failure Loaded} (h : span.IsNodeOf loading) :
    span.isNodeOf loading = true := by
  obtain ⟨loaded, rfl, hspan⟩ := h
  exact List.any_eq_true.2 ⟨_, hspan, by simp [Mark.place?]⟩

def Session.alone : Session := .start (Module.context {} fun _ => .error .notFound) [] 0

/-- The session after a line with a function that fails where it is called. -/
def Session.declaring : Session := (alone.run "<repl>" "func f() \x7b return missing; \x7d").2

theorem Session.declaring_fails : ∃ e, (declaring.run "<repl>" "f();").1 = .failure (.runtime "<repl>" "f();" e) ∧
    e.span = ⟨18, 25⟩ :=
  Outcome.eq_failure_of_runtime? (by decide +kernel)

theorem Span.not_isNodeOf_call : ¬Span.IsNodeOf ⟨18, 25⟩ (loadSource true "<repl>" "f();") := by
  intro h
  have hnot : Span.isNodeOf ⟨18, 25⟩ (loadSource true "<repl>" "f();") = false := by decide +kernel
  rw [h.isNodeOf] at hnot
  cases hnot

/-- The error of a line that calls the function of another line points into the other line. -/
theorem runtime_errors_point_into_code_that_ran_before :
    Session.Reached .alone [("<repl>", "func f() \x7b return missing; \x7d")] .declaring ∧
    ∃ e, (Session.declaring.run "<repl>" "f();").1 = .failure (.runtime "<repl>" "f();" e) ∧
      .place e.span ∈ Session.declaring.store.marks ∧
      e.span.IsNodeOf (loadSource true "<repl>" "func f() \x7b return missing; \x7d") := by
  have hreached : Session.Reached .alone [("<repl>", "func f() \x7b return missing; \x7d")] .declaring := by
    refine .run .start _ _ fun h => ?_
    have hvalue : (Session.alone.run "<repl>" "func f() \x7b return missing; \x7d").1.isFinished = true := by
      decide +kernel
    rw [h] at hvalue
    cases hvalue
  obtain ⟨e, hfails, hspan⟩ := Session.declaring_fails
  refine ⟨hreached, e, hfails, ?_⟩
  have hplace := (runtime_errors_point_into_code_that_ran hreached hfails).2.2
  rcases hplace with hnode | ⟨hstored, x, hx, hnode⟩ | ⟨_, _, hnode⟩
  · rw [hspan] at hnode
    exact (Span.not_isNodeOf_call hnode).elim
  · cases List.mem_singleton.1 hx
    exact ⟨hstored, hnode⟩
  · obtain ⟨_, hload, -⟩ := hnode
    cases hload

/-- It points to no node of the line that it carries, and not even into that line. -/
theorem function_errors_point_outside_calling_source :
    ∃ e, (Session.declaring.run "<repl>" "f();").1 = .failure (.runtime "<repl>" "f();" e) ∧
      "f();".utf8ByteSize < e.span.stop ∧ ¬e.span.IsNodeOf (loadSource true "<repl>" "f();") := by
  obtain ⟨e, hfails, hspan⟩ := Session.declaring_fails
  refine ⟨e, hfails, ?_, ?_⟩
  · rw [hspan]
    decide +kernel
  · rw [hspan]
    exact Span.not_isNodeOf_call

end Scriptlet
