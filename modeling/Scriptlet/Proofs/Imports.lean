import Mathlib.Data.List.Dedup
import Mathlib.Data.List.Perm.Subperm
import Scriptlet.Proofs.Hosting
import Scriptlet.Proofs.Syntax.RoundTrip
import Scriptlet.Proofs.Tracking

/-! Modules that are imported. -/
namespace Scriptlet

/-- What a program ends with is its answer, so nothing but giving up leaves a run. -/
theorem Evaluator.run_error {ev : Evaluator} {c : Context} {env : Env} {p : Program} {m m' : Machine}
    {signal : Signal} (h : ev.run c env p m = .error signal m') : signal = .exhausted := by
  unfold Evaluator.run at h
  cases hall : ev.executeAll c env .undefined p.statements m with
  | ok value t =>
    rw [bind_ok (Action.attempt_ok hall)] at h
    cases h
  | error s t =>
    by_cases hx : s = .exhausted
    · subst hx
      rw [bind_error (attempt_exhausted hall)] at h
      cases h
      rfl
    · rw [bind_ok (attempt_error hall hx)] at h
      cases s with
      | exhausted => exact (hx rfl).elim
      | _ => cases h

theorem Evaluator.runSource_error {ev : Evaluator} {c : Context} {env : Env} {path source : String}
    {m m' : Machine} {signal : Signal} (h : ev.runSource c env path source m = .error signal m') :
    signal = .exhausted := by
  unfold Evaluator.runSource at h
  cases hload : loadSource c.options.optimize path source with
  | error f =>
    simp only [hload] at h
    cases h
  | ok loaded =>
    have hnotify : Action.notify (loaded.notices path) m =
      .ok () { m with notices := m.notices ++ loaded.notices path } := rfl
    simp only [hload] at h
    rw [bind_ok hnotify] at h
    cases hrun : ev.run c env loaded.program { m with notices := m.notices ++ loaded.notices path } with
    | ok r t =>
      rw [bind_ok hrun] at h
      cases r <;> cases h
    | error s t =>
      rw [bind_error hrun] at h
      cases h
      exact Evaluator.run_error hrun

namespace Domain

variable {D : Domain} {L : List (List String)}

/-- While a module runs it is being imported, and afterwards it is not. -/
theorem Tracks.importing {α β : Type} {V : α → Prop} {W : β → Prop} {p : List String} {run run' : Action α}
    (hrun : D.Tracks (L ++ [p]) V run run')
    (hends : ∀ {m m' signal}, run m = .error signal m' → signal = .exhausted) {finish finish' : α → Action β}
    (hfinish : ∀ a, V a → D.Tracks L W (finish a) (finish' a)) :
    D.Tracks L W
      (do
        modify fun m => { m with importing := L ++ [p] }
        let a ← run
        modify fun m => { m with importing := m.importing.dropLast }
        finish a)
      (do
        modify fun m => { m with importing := L ++ [p] }
        let a ← run'
        modify fun m => { m with importing := m.importing.dropLast }
        finish' a) := by
  intro m hm
  have hend := hrun { m with importing := L ++ [p] } ⟨hm.store, rfl⟩
  show D.SameEnd L W ((run >>= _) { m with importing := L ++ [p] })
    ((run' >>= _) { m with importing := L ++ [p] })
  generalize he : run { m with importing := L ++ [p] } = r at hend
  generalize he' : run' { m with importing := L ++ [p] } = r' at hend
  cases hend with
  | @ok a m' ha hm' =>
    rw [bind_ok he, bind_ok he']
    refine hfinish a ha { m' with importing := m'.importing.dropLast } ⟨hm'.store, ?_⟩
    simp [hm'.importing]
  | error hs =>
    rw [hends he] at hs
    exact hs.elim
  | exhausted =>
    rw [bind_error he, bind_error he']
    exact .exhausted
  | quit hq =>
    rw [bind_error he']
    exact .quit hq _

/-- The native that imports keeps to the domain, where the files that may be read hold programs of the domain
and the modules that may be asked for are good to be imported. -/
theorem serves_modules {options : Options} {files : Files} {o : Observer}
    {Good : List (List String) → Prop} (hnames : D.Names Module.natives)
    (hfiles : ∀ {target bytes source loaded}, D.free ∨ D.mark (.target target) →
      o.reads (Path.ofModule target) = true → files (Path.ofModule target) = .ok bytes →
      Text.decode? bytes = some source →
      loadSource options.optimize (Path.ofModule target) source = .ok loaded → loaded.program.Within D.mark)
    (hgood : ∀ {L target}, Good L → D.free ∨ D.mark (.target target) →
      Path.parts (Path.ofModule target) ∉ L → Good (L ++ [Path.parts (Path.ofModule target)]))
    (hquits : ∀ {target bytes}, D.free ∨ D.mark (.target target) → files (Path.ofModule target) = .ok bytes →
      o.reads (Path.ofModule target) = false → D.quits)
    (hquiet : ∀ L, Good L → o.alarms L = false) : D.Serves (Module.context options files) o Good := by
  intro ev ev' hev L hL id arguments env hasks hvs
  refine .lookThen fun s _ => ?_
  have hmark : D.free ∨ D.mark (.target ((arguments.head?.map s.display).getD "")) := by
    rcases hasks with hfree | ⟨target, hmark, rfl⟩
    · exact .inl hfree
    · exact .inr hmark
  generalize (arguments.head?.map s.display).getD "" = target at hmark ⊢
  refine .getThen fun m hm => ?_
  rw [hm.importing]
  dsimp only
  split
  · exact .pure trivial
  · next hnew =>
    split
    · exact .pure trivial
    · next bytes hbytes =>
      split
      · exact .pure trivial
      · next source hsource =>
        have hgood' := hgood hL hmark hnew
        refine Tracks.importing (V := fun _ => True) ?_ (fun {m m' signal} h => ?_) fun r _ => ?_
        · by_cases hread : o.reads (Path.ofModule target) = true
          · rw [if_pos hread]
            have hrun := (hev hgood' hnames).runSource env fun _ h => hfiles hmark hread hbytes hsource h
            exact (hrun.mono fun _ _ => trivial).watch (hquiet _ hgood')
          · rw [if_neg hread]
            exact .quit (hquits hmark hbytes (Bool.eq_false_iff.2 hread)) _
        · exact Evaluator.runSource_error h
        · cases r with
          | ok value => exact .pure (.inr rfl)
          | error f => exact (Tracks.notify _).bind fun _ _ => .pure trivial

end Domain

/-- The word that imports is a keyword, so no name of a program is that word. -/
theorem loadSource_names {optimize : Bool} {path source : String} {loaded : Loaded}
    (h : loadSource optimize path source = .ok loaded) :
    loaded.program.Within fun k => k ≠ .name "import" := by
  have hparse {p : Program} (hp : parse source = .ok p) : p.Within fun k => k ≠ .name "import" := by
    refine parse_within ⟨fun _ => nofun, fun _ => nofun⟩ hp fun t ht => ⟨?_, fun _ => nofun⟩
    rintro x rfl hx
    cases hx
    have hreadable := (sourceTokens_readable _ ht).1.2
    exact absurd hreadable (by decide)
  unfold loadSource loadParsed at h
  split at h
  · cases h
  · next p hp =>
    split at h
    · cases h
      rw [p.optimize_eq]
      exact Program.Within.fold (fun _ => nofun) (hparse hp)
    · cases h
      exact hparse hp

theorem loadFile_eq_loadSource {optimize : Bool} {path source : String} {content : Except FileError (List UInt8)}
    {bytes : List UInt8} (hcontent : content = .ok bytes) (hsource : Text.decode? bytes = some source) :
    loadFile optimize path content = loadSource optimize path source := by
  unfold loadFile
  rw [hcontent]
  dsimp only
  rw [hsource]

def Mark.target? : Mark → Option String
  | target module => some module
  | _ => none

def Program.targets (p : Program) : List String := p.marks.filterMap Mark.target?

namespace Module

theorem natives_name {name : String} {f : Native} (h : natives.get? name = some f) (hname : name ≠ "import") :
    (Value.native f).isHosted = false := by
  unfold natives at h
  rw [Dictionary.get?_insert_other _ hname] at h
  have hstandard : ∀ e ∈ Native.standard.entries, (Value.native e.2).isHosted = false := by decide
  exact hstandard _ (Domain.mem_of_get? h)

def targetsOf (options : Options) (files : Files) (path : String) : List String :=
  match loadFile options.optimize path (files path) with
  | .ok loaded => loaded.program.targets
  | .error _ => []

def targetsIn (options : Options) (files : Files) (main : Program) (read : List String) : List String :=
  main.targets ++ read.flatMap (targetsOf options files)

def pathsIn (options : Options) (files : Files) (main : Program) (read : List String) : List (List String) :=
  ((targetsIn options files main read).map fun target => Path.parts (Path.ofModule target)).dedup

/-- No other file is there to be read. -/
def Covers (options : Options) (files : Files) (main : Program) (read : List String) : Prop :=
  ∀ target ∈ targetsIn options files main read, ∀ bytes, files (Path.ofModule target) = .ok bytes →
    Path.ofModule target ∈ read

end Module

/-- The action leaves the modules that are being imported as they were, however it comes to an end. -/
def Action.KeepsImports {α : Type} (action : Action α) : Prop :=
  ∀ m, Finished (action m) → (action.after m).importing = m.importing

/-- Everything that the evaluator does, natives of the host among it, leaves the modules that are being
imported as they were. -/
structure Evaluator.KeepsImports (ev : Evaluator) (c : Context) : Prop where
  evaluate : ∀ env e, (ev.evaluate c env e).KeepsImports
  execute : ∀ env s, (ev.execute c env s).KeepsImports
  call : ∀ env callee arguments span, (ev.call c env callee arguments span).KeepsImports
  run : ∀ env p, (ev.run c env p).KeepsImports
  runSource : ∀ env path source, (ev.runSource c env path source).KeepsImports
  respond : ∀ id arguments env, (c.host.respond id (ev.runner c) arguments env).KeepsImports

/-- Two evaluators in contexts of their own do the same, whatever they do from the machine. -/
structure Evaluator.AgreeFrom (ev ev' : Evaluator) (c c' : Context) (m : Machine) : Prop where
  evaluate : ∀ env e, ev.evaluate c env e m = ev'.evaluate c' env e m
  execute : ∀ env s, ev.execute c env s m = ev'.execute c' env s m
  call : ∀ env callee arguments span,
    ev.call c env callee arguments span m = ev'.call c' env callee arguments span m
  run : ∀ env p, ev.run c env p m = ev'.run c' env p m
  runSource : ∀ env path source, ev.runSource c env path source m = ev'.runSource c' env path source m

namespace Domain

def whole : Domain where
  mark _ := True
  free := True
  quits := False

theorem whole_names (natives : Dictionary Native) : whole.Names natives := fun _ _ _ _ => .inl trivial

theorem ready_whole (m : Machine) : whole.Ready m.importing m where
  store :=
    { frames := fun _ _ _ _ => .inl trivial
      arrays := fun _ _ _ _ => .inl trivial
      maps := fun _ _ _ _ => .inl trivial
      functions := fun f _ => by
        cases f.body with
        | block body => exact body.within_iff.2 fun _ _ => trivial
        | expression body => exact body.within_iff.2 fun _ _ => trivial
      classes := fun k _ => (withinMembers_iff k.members).2 fun _ _ => trivial }
  importing := rfl

variable {α : Type} {V : α → Prop} {action action' : Action α}

theorem Tracks.keepsImports (h : ∀ L, whole.Tracks L V action action') : action.KeepsImports := by
  intro m hfinished
  have hend := h m.importing m (ready_whole m)
  unfold Action.after
  generalize action m = r at hend hfinished ⊢
  generalize action' m = r' at hend
  cases hend with
  | ok _ hm => exact hm.importing
  | error _ hm => exact hm.importing
  | exhausted => exact (hfinished rfl).elim
  | quit hq => exact hq.elim

theorem Tracks.same {m : Machine} (h : whole.Tracks m.importing V action action') : action m = action' m := by
  have hend := h m (ready_whole m)
  generalize action m = r at hend ⊢
  generalize action' m = r' at hend ⊢
  cases hend with
  | ok => rfl
  | error => rfl
  | exhausted => rfl
  | quit hq => exact hq.elim

variable {c : Context} {h : Host} {ev ev' : Evaluator}

theorem Tracking.agreeFrom {m : Machine} (ht : whole.Tracking m.importing c h ev ev') :
    ev.AgreeFrom ev' c (c.hosted h) m where
  evaluate env e := (ht.evaluate env (e.within_iff.2 fun _ _ => trivial)).same
  execute env s := (ht.execute env (s.within_iff.2 fun _ _ => trivial)).same
  call env _ _ _ := (ht.call env (.inl (.inl trivial)) (fun _ _ => .inl trivial) trivial).same
  run env p := (ht.run env (p.within_iff.2 fun _ _ => trivial)).same
  runSource env _ _ := (ht.runSource env fun loaded _ => loaded.program.within_iff.2 fun _ _ => trivial).same

theorem Tracking.keepsImports (ht : ∀ L, whole.Tracking L c h ev ev')
    (hrespond : ∀ L id arguments env, whole.Tracks L whole.Answers
      (c.host.respond id (ev.runner c) arguments env) (h.respond id (ev'.runner (c.hosted h)) arguments env)) :
    ev.KeepsImports c where
  evaluate env e := Tracks.keepsImports fun L => (ht L).evaluate env (e.within_iff.2 fun _ _ => trivial)
  execute env s := Tracks.keepsImports fun L => (ht L).execute env (s.within_iff.2 fun _ _ => trivial)
  call env _ _ _ := Tracks.keepsImports fun L =>
    (ht L).call env (.inl (.inl trivial)) (fun _ _ => .inl trivial) trivial
  run env p := Tracks.keepsImports fun L => (ht L).run env (p.within_iff.2 fun _ _ => trivial)
  runSource env _ _ := Tracks.keepsImports fun L =>
    (ht L).runSource env fun loaded _ => loaded.program.within_iff.2 fun _ _ => trivial
  respond id arguments env := Tracks.keepsImports fun L => hrespond L id arguments env

/-- Nothing needs to be known of the files where everything is allowed. -/
theorem whole_serves (options : Options) (files : Files) {o : Observer} {Good : List (List String) → Prop}
    (hgood : ∀ {L p}, Good L → p ∉ L → Good (L ++ [p])) (hreads : ∀ path, o.reads path = true)
    (hquiet : ∀ L, Good L → o.alarms L = false) : whole.Serves (Module.context options files) o Good :=
  serves_modules (whole_names _) (fun _ _ _ _ _ => Program.within_iff _ |>.2 fun _ _ => trivial)
    (fun hL _ hnew => hgood hL hnew)
    (fun {target _} _ _ hread => absurd (hreads (Path.ofModule target)) (by simp [hread])) hquiet

end Domain

theorem evaluator_keepsImports (options : Options) (files : Files) (n : Nat) :
    (evaluator n).KeepsImports (Module.context options files) := by
  have hserves : Domain.whole.Serves (Module.context options files) .idle fun _ => True :=
    Domain.whole_serves options files (fun _ _ => trivial) (fun _ => rfl) fun _ _ => rfl
  have ht (L : List (List String)) (natives : Dictionary Native) :=
    Domain.tracking hserves (fun _ _ => rfl) n (L := L) trivial (Domain.whole_names natives)
  simp only [Observer.idle_evaluator] at ht
  exact Domain.Tracking.keepsImports (fun L => ht L Module.natives) fun L id arguments env =>
    hserves (fun _ _ _ => ht _ _) trivial id env (.inl trivial) fun _ _ => .inl trivial

namespace Observer

/-- The observer who gives an alarm where a module is being imported twice. -/
def ofRepeats (alarm : Signal) : Observer where
  alarms importing := !decide importing.Nodup
  alarm := alarm
  reads _ := true

/-- The observer who gives an alarm where a module is being imported twice, or more modules are than there are
paths, and who lets only certain files be read. -/
def ofPaths (alarm : Signal) (paths : List (List String)) (read : List String) : Observer where
  alarms importing := !decide (importing.Nodup ∧ importing.length ≤ paths.length)
  alarm := alarm
  reads path := decide (path ∈ read)

end Observer

theorem nodup_concat {α : Type} {as : List α} {a : α} (has : as.Nodup) (ha : a ∉ as) : (as ++ [a]).Nodup := by
  rw [← List.concat_eq_append]
  exact has.concat ha

/-- An alarm that is given where a module is being imported twice is never given. -/
theorem evaluator_agreeFrom_ofRepeats (options : Options) (files : Files) (n : Nat) {m : Machine}
    (hm : m.importing.Nodup) (alarm : Signal) :
    (evaluator n).AgreeFrom ((Observer.ofRepeats alarm).evaluator n) (Module.context options files)
      ((Module.context options files).hosted ((Observer.ofRepeats alarm).host (Module.host files))) m := by
  have hquiet (L : List (List String)) (hL : L.Nodup) : (Observer.ofRepeats alarm).alarms L = false := by
    simpa [Observer.ofRepeats] using hL
  have hserves : Domain.whole.Serves (Module.context options files) (.ofRepeats alarm) List.Nodup :=
    Domain.whole_serves options files nodup_concat (fun _ => rfl) hquiet
  exact (Domain.tracking hserves hquiet n hm (Domain.whole_names Module.natives)).agreeFrom

theorem ofPaths_quiet (alarm : Signal) {paths L : List (List String)} (read : List String) (hL : L.Nodup)
    (hsubset : L ⊆ paths) : (Observer.ofPaths alarm paths read).alarms L = false := by
  have hlength : L.length ≤ paths.length := (hL.subperm hsubset).length_le
  simp [Observer.ofPaths, hL, hlength]

namespace Domain

/-- Code at certain places that asks for certain modules, and uses no native of the host as a value. -/
def ofCode (place : Span → Prop) (target : String → Prop) (quits : Prop) : Domain where
  mark
    | .place span => place span
    | .name text => text ≠ "import"
    | .target module => target module
    | .literal _ => True
  free := False
  quits := quits

theorem ofCode_names {place : Span → Prop} {target : String → Prop} {quits : Prop} :
    (ofCode place target quits).Names Module.natives :=
  fun _ _ hf hname => .inr (Module.natives_name hf hname)

theorem ofCode_within {place : Span → Prop} {target : String → Prop} {quits : Prop} {optimize : Bool}
    {path source : String} {loaded : Loaded} (h : loadSource optimize path source = .ok loaded)
    (hplaces : ∀ span, .place span ∈ loaded.program.marks → place span)
    (htargets : ∀ module ∈ loaded.program.targets, target module) :
    loaded.program.Within (ofCode place target quits).mark := by
  refine (Program.within_iff _).2 fun k hk => ?_
  cases k with
  | name text =>
    have hname := (Program.within_iff _).1 (loadSource_names h) _ hk
    exact fun he => hname (he ▸ rfl)
  | target module => exact htargets module (List.mem_filterMap.2 ⟨_, hk, rfl⟩)
  | place span => exact hplaces span hk
  | literal value => trivial

/-- The modules are those that the program or a file that is read names. An observer may quit where the files
that are read are not all there are. -/
def ofImports (options : Options) (files : Files) (main : Program) (read : List String) : Domain :=
  ofCode (fun _ => True) (· ∈ Module.targetsIn options files main read) (¬Module.Covers options files main read)

section OfImports

variable {options : Options} {files : Files} {main : Program} {read : List String}

theorem ofImports_serves (alarm : Signal) :
    (ofImports options files main read).Serves (Module.context options files)
      (.ofPaths alarm (Module.pathsIn options files main read) read)
      fun L => L.Nodup ∧ L ⊆ Module.pathsIn options files main read := by
  refine serves_modules (D := ofImports options files main read) ofCode_names
    (fun {target bytes source loaded} _ hread hbytes hsource hload => ?_) (fun {L target} hL hmark hnew => ?_)
    (fun {target bytes} hmark hbytes hread hcovers => ?_) fun L hL => ?_
  · -- the file is one of those that are read, so what it names counts
    have hfile : loadFile options.optimize (Path.ofModule target) (files (Path.ofModule target)) = .ok loaded :=
      (loadFile_eq_loadSource hbytes hsource).trans hload
    refine ofCode_within hload (fun _ _ => trivial) fun target' ht =>
      List.mem_append_right _ (List.mem_flatMap.2 ⟨Path.ofModule target, ?_, ?_⟩)
    · exact of_decide_eq_true hread
    · rw [Module.targetsOf, hfile]
      exact ht
  · have htarget : target ∈ Module.targetsIn options files main read := hmark.resolve_left id
    have hpath : Path.parts (Path.ofModule target) ∈ Module.pathsIn options files main read :=
      List.mem_dedup.2 (List.mem_map_of_mem htarget)
    exact ⟨nodup_concat hL.1 hnew,
      List.append_subset.2 ⟨hL.2, List.cons_subset.2 ⟨hpath, List.nil_subset _⟩⟩⟩
  · have htarget : target ∈ Module.targetsIn options files main read := hmark.resolve_left id
    exact of_decide_eq_false hread (hcovers target htarget bytes hbytes)
  · exact ofPaths_quiet alarm read hL.1 hL.2

theorem ofImports_tracking (alarm : Signal) (n : Nat) {o : Observer}
    (ho : o = .ofPaths alarm (Module.pathsIn options files main read) read) :
    (ofImports options files main read).Tracking [] (Module.context options files)
      (o.host (Module.host files)) (evaluator n) (o.evaluator n) := by
  subst ho
  exact tracking (ofImports_serves alarm) (fun L hL => ofPaths_quiet alarm read hL.1 hL.2) n
    ⟨List.nodup_nil, List.nil_subset _⟩ ofCode_names

end OfImports

end Domain

/-- A new session belongs to every domain. -/
theorem Domain.ready_start (D : Domain) (c : Context) (input : Stdin) (clock : Clock) :
    D.Ready [] (Session.start c input clock).machine where
  store := by
    constructor <;> simp [Session.start, Store.newGlobal, Dictionary.empty]
  importing := rfl

/-- The run of a source in a session, as the observer sees it. -/
def Observer.run (o : Observer) (n : Nat) (s : Session) (path source : String) :
    EStateM.Result Signal Machine (Except Failure Value) :=
  (o.evaluator n).runSource (s.context.hosted (o.host s.context.host)) s.env path source s.machine

/-- An alarm that is given where a module is being imported twice, or more modules are than the program and the
files that are read name, is not given in the run of the program. -/
theorem ofPaths_run {options : Options} {files : Files} {path source : String} {loaded : Loaded}
    (h : loadSource options.optimize path source = .ok loaded) (read : List String) (n : Nat)
    (alarm : Signal) {s : Session} (hs : s.context = Module.context options files)
    (hm : (Domain.ofImports options files loaded.program read).Ready [] s.machine) {o : Observer}
    (ho : o = .ofPaths alarm (Module.pathsIn options files loaded.program read) read) :
    o.run n s path source = (evaluator n).runSource s.context s.env path source s.machine ∨
      ¬Module.Covers options files loaded.program read ∧
        ∃ m, o.run n s path source = .error .exhausted m := by
  have hwithin : ∀ l, loadSource options.optimize path source = .ok l →
      l.program.Within (Domain.ofImports options files loaded.program read).mark := by
    intro l hl
    rw [h] at hl
    cases hl
    exact Domain.ofCode_within h (fun _ _ => trivial) fun _ => List.mem_append_left _
  have hend := (Domain.ofImports_tracking alarm n ho).runSource s.env hwithin s.machine hm
  unfold Observer.run
  rw [hs]
  have hhost : (Module.context options files).host = Module.host files := rfl
  rw [hhost]
  generalize (evaluator n).runSource (Module.context options files) s.env path source s.machine = r at hend ⊢
  generalize (o.evaluator n).runSource ((Module.context options files).hosted (o.host (Module.host files)))
    s.env path source s.machine = r' at hend ⊢
  cases hend with
  | ok => exact .inl rfl
  | error => exact .inl rfl
  | exhausted => exact .inl rfl
  | quit hq => exact .inr ⟨hq, _, rfl⟩

/-- The list of modules that are being imported is balanced: whatever comes to an end leaves it as it was, a
native that imports among it, with success or without. No module is in it twice: from a list without repeats, an
observer who gives an alarm wherever something is evaluated with a repeat, also in what a module runs, never gives
it. It is bounded: in the run of a program, an observer who also gives the alarm where more modules are being
imported than the import statements of the program and of the files that are read name never gives it either,
unless another file is there and is read. -/
theorem imports_balanced_and_bounded (options : Options) (files : Files) :
    (∀ n, (evaluator n).KeepsImports (Module.context options files)) ∧
    (∀ n m, m.importing.Nodup → ∀ alarm,
      (evaluator n).AgreeFrom ((Observer.ofRepeats alarm).evaluator n) (Module.context options files)
        ((Module.context options files).hosted ((Observer.ofRepeats alarm).host (Module.host files))) m) ∧
    ∀ path source loaded, loadSource options.optimize path source = .ok loaded →
      ∀ read input clock n alarm,
        let s := Session.start (Module.context options files) input clock
        let o := Observer.ofPaths alarm (Module.pathsIn options files loaded.program read) read
        o.run n s path source = (evaluator n).runSource s.context s.env path source s.machine ∨
          ¬Module.Covers options files loaded.program read ∧
            ∃ m, o.run n s path source = .error .exhausted m :=
  ⟨evaluator_keepsImports options files,
    fun n _ hm alarm => evaluator_agreeFrom_ofRepeats options files n hm alarm,
    fun _ _ _ h read input clock n alarm =>
      ofPaths_run h read n alarm rfl (Domain.ready_start _ _ input clock) rfl⟩

def Files.cycle : Files := fun path =>
  if path = "a.nt" then .ok "import b;".toUTF8.data.toList
  else if path = "b.nt" then .ok "import a;".toUTF8.data.toList
  else .error .notFound

/-- The run of a program that imports one of them ends with a failure, with no module left behind. -/
theorem imports_balanced_and_bounded_cycle :
    ∃ loaded, loadSource true "main.nt" "import a;" = .ok loaded ∧
      Module.Covers {} Files.cycle loaded.program ["a.nt", "b.nt"] ∧
      Module.pathsIn {} Files.cycle loaded.program ["a.nt", "b.nt"] = [["b.nt"], ["a.nt"]] ∧
      let s := Session.start (Module.context {} Files.cycle) [] 0
      ∃ f m, (evaluator 30).runSource s.context s.env "main.nt" "import a;" s.machine = .ok (.error f) m ∧
        m.importing = [] ∧
        (∀ alarm, (Observer.ofRepeats alarm).run 30 s "main.nt" "import a;" = .ok (.error f) m) ∧
        ∀ alarm, (Observer.ofPaths alarm [["b.nt"], ["a.nt"]] ["a.nt", "b.nt"]).run 30 s "main.nt" "import a;" =
          .ok (.error f) m := by
  have htargets : (loadSource true "main.nt" "import a;").toOption.any
    (fun l => decide (l.program.targets = ["a"])) = true := by decide +kernel
  cases hload : loadSource true "main.nt" "import a;" with
  | error f =>
    rw [hload] at htargets
    cases htargets
  | ok loaded =>
    rw [hload] at htargets
    have hin : Module.targetsIn {} Files.cycle loaded.program ["a.nt", "b.nt"] = ["a", "b", "a"] := by
      have hfiles : ["a.nt", "b.nt"].flatMap (Module.targetsOf {} Files.cycle) = ["b", "a"] := by decide +kernel
      rw [Module.targetsIn, of_decide_eq_true htargets, hfiles]
      rfl
    have hpaths : Module.pathsIn {} Files.cycle loaded.program ["a.nt", "b.nt"] = [["b.nt"], ["a.nt"]] := by
      rw [Module.pathsIn, hin]
      decide +kernel
    have hcovers : Module.Covers {} Files.cycle loaded.program ["a.nt", "b.nt"] := by
      have hread : ∀ target ∈ ["a", "b", "a"], Path.ofModule target ∈ ["a.nt", "b.nt"] := by decide +kernel
      intro target ht _ _
      exact hread target (hin ▸ ht)
    obtain ⟨hkeeps, hrepeats, hbounded⟩ := imports_balanced_and_bounded {} Files.cycle
    refine ⟨loaded, rfl, hcovers, hpaths, ?_⟩
    intro s
    have hfails : (((evaluator 30).runSource s.context s.env "main.nt" "import a;").run' s.machine).any
      (fun r => r.toOption.isNone) = true := by decide +kernel
    delta EStateM.run' EStateM.run at hfails
    cases hrun : (evaluator 30).runSource s.context s.env "main.nt" "import a;" s.machine with
    | error signal m =>
      rw [hrun] at hfails
      cases hfails
    | ok r m =>
      rw [hrun] at hfails
      cases r with
      | ok value => cases hfails
      | error f =>
        refine ⟨f, m, rfl, ?_, fun alarm => ?_, fun alarm => ?_⟩
        · have hafter := (hkeeps 30).runSource s.env "main.nt" "import a;" s.machine
          have hcontext : s.context = Module.context {} Files.cycle := rfl
          rw [hcontext] at hrun
          unfold Action.after at hafter
          rw [hrun] at hafter
          exact hafter trivial
        · have hagree := hrepeats 30 s.machine List.nodup_nil alarm
          exact (hagree.runSource s.env "main.nt" "import a;").symm.trans hrun
        · have hend := hbounded "main.nt" "import a;" loaded hload ["a.nt", "b.nt"] [] 0 30 alarm
          rw [hpaths] at hend
          exact (hend.resolve_right fun hnot => hnot.1 hcovers).trans hrun

end Scriptlet
