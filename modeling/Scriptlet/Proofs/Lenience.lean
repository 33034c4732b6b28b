import Scriptlet.Proofs.Hosting

/-! Options that are more lenient: undeclared names may be assigned to, and calls may nest deeper. They make
a difference only to runs that fail without them. Such a failure ends the run at once, unless a `finally`
block goes on after it. -/
namespace Scriptlet

def Stmt.hasCleanup : Stmt → Bool
  | .try_ _ _ cleanup _ => cleanup.isSome
  | _ => false

/-- No `finally` block stands in the program, nor in the functions and methods that it declares. -/
def Program.CleanupFree (p : Program) : Prop :=
  ∀ s ∈ p.statements, s.Throughout (fun _ s => s.hasCleanup = false) false

/-- The errors that lenient options avoid. -/
def RuntimeCause.isAvoidable : RuntimeCause → Bool
  | .undefinedVariable _ | .stackOverflow _ => true
  | _ => false

/-- Code without `finally` blocks, in which an avoidable error is the end. -/
def Discipline.cleanupFree : Discipline where
  code inLoop s := inLoop = true ∧ ∃ place, s.Throughout (fun _ s => s.hasCleanup = false) place
  bodies := true
  releases cause := cause.isAvoidable = true
  jump h _ := h.1
  part h ht := by
    obtain ⟨hin, place, hs⟩ := h
    obtain ⟨_, ht'⟩ := ht.elsewhere false place
    refine ⟨?_, _, hs.part ht'⟩
    rcases ht.inside with h | ⟨h, _⟩ | h
    · exact h
    · exact h.trans hin
    · exact h
  cleanup h := by
    obtain ⟨_, _, hs⟩ := h
    cases hs.here

/-- Strict options, and the same with lenient ones in their place. -/
theorem Discipline.cleanupFree_admits {o o' : Options} (hoptimize : o'.optimize = o.optimize)
    (hstrict : o.implicitDeclarations = false) (hdepth : o.maxCallDepth ≤ o'.maxCallDepth) :
    cleanupFree.Admits o o' :=
  ⟨hoptimize, .inr ⟨hstrict, fun _ => rfl⟩, .inr ⟨hdepth, fun _ => rfl⟩⟩

/-- Lenient options change no run of a program without `finally` blocks that ends under strict ones, be it
with a value or with an error that they do not avoid: it ends with the same result, and leaves the same
machine with the same output and the same bindings. -/
theorem lenient_options_change_no_good_run (o : Options) (lenient : Bool) {k k' : Nat} (hk : k ≤ k')
    (p : Program) (hp : p.CleanupFree) (input : Stdin) (clock : Clock)
    (r : Except RuntimeError Value) (m : Machine)
    (hend : p.EndsAlone { o with implicitDeclarations := false, maxCallDepth := k } input clock r m)
    (hr : ∀ e, r = .error e → e.cause.isAvoidable = false) :
    p.EndsAlone { o with implicitDeclarations := lenient, maxCallDepth := k' } input clock r m := by
  obtain ⟨least, hleast⟩ := hend
  refine ⟨least, fun n hn => ?_⟩
  have hstrict := hleast n hn
  have ho : Discipline.cleanupFree.Admits { o with implicitDeclarations := false, maxCallDepth := k }
      { o with implicitDeclarations := lenient, maxCallDepth := k' } :=
    Discipline.cleanupFree_admits rfl rfl hk
  let c : Context := { options := { o with implicitDeclarations := false, maxCallDepth := k } }
  have hev := Discipline.companions_self (c := c) ho (Discipline.serves_plain rfl) 0 n
  have hcode : ∀ s ∈ p.statements, Discipline.cleanupFree.code true s := fun s hs => ⟨rfl, false, hp s hs⟩
  -- the third case is a strict run that ends with an avoidable error, which `hr` rules out
  rcases hev.run _ hcode (Discipline.ready_start _ c input clock) with
    ⟨r', m', hrun, hrun', -⟩ | ⟨m', hrun, -⟩ | ⟨e, m', hc, hrun⟩
  · cases hstrict.symm.trans hrun
    exact hrun'
  · cases hstrict.symm.trans hrun
  · cases hstrict.symm.trans hrun
    exact (Bool.false_ne_true ((hr e rfl).symm.trans hc)).elim

/-- `func f(n) { return n < 2 ? f(n + 1) : n; } f(0);` -/
def Program.callsThreeDeep : Program :=
  let n : Identifier := ⟨"n", default⟩
  let call (e : Expr) : Expr := .call (.identifier ⟨"f", default⟩) [e] default
  let int (i : Int64) : Expr := .literal (.int i) default
  let result : Expr := .ternary (.binary (.relate .less) (.identifier n) (int 2) default)
    (call (.binary (.compute .add) (.identifier n) (int 1) default)) (.identifier n) default
  ⟨[.function (.mk ⟨"f", default⟩ [n] (.mk [.return_ (some result) default] default) default),
    .expression (call (int 0)) default], default⟩

theorem Program.callsThreeDeep_cleanupFree : Program.callsThreeDeep.CleanupFree := by
  intro s hs
  rcases List.mem_cons.1 hs with rfl | hs
  · refine .mk rfl fun ht => ?_
    cases ht with
    | function ht =>
      rw [List.mem_singleton.1 ht]
      exact .mk rfl nofun
  · rw [List.mem_singleton.1 hs]
    exact .mk rfl nofun

/-- Calls that just fit into the limit. -/
theorem lenient_options_change_no_good_run_three_deep :
    Program.callsThreeDeep.CleanupFree ∧ ∃ m,
      Program.callsThreeDeep.EndsAlone { implicitDeclarations := false, maxCallDepth := 3 } [] 0
        (.ok (.int 2)) m ∧
      Program.callsThreeDeep.EndsAlone { implicitDeclarations := true, maxCallDepth := 5 } [] 0
        (.ok (.int 2)) m := by
  have hend : ∃ m, Program.callsThreeDeep.EndsAlone { implicitDeclarations := false, maxCallDepth := 3 }
      [] 0 (.ok (.int 2)) m := Program.ends_of_int (k := 20) rfl (by decide +kernel)
  obtain ⟨m, hend⟩ := hend
  have hp := Program.callsThreeDeep_cleanupFree
  exact ⟨hp, m, hend, lenient_options_change_no_good_run {} true (by decide) _ hp [] 0 _ m hend nofun⟩

end Scriptlet
