import Scriptlet.Proofs.Hosting

/-! Jumps get no further than the loop or the function that they stand in. An expression ends with none, a
loop takes every break and continue of its body, and code that has them only in loops never ends with an
error about one. -/
namespace Scriptlet

/-- Every break and continue of the program stands in a loop of the same body, that of a function or
method or the program itself. -/
def Program.Confined (p : Program) : Prop :=
  ∀ s ∈ p.statements, s.Throughout (fun inLoop s => s.isLoopJump = true → inLoop = true) false

def Discipline.confined : Discipline where
  code := Stmt.Throughout fun inLoop s => s.isLoopJump = true → inLoop = true
  bodies := false
  releases _ := False
  jump h := h.here
  part h ht := h.part ht
  cleanup _ _ := id

theorem Program.Confined.ends {p : Program} (hp : p.Confined) {o : Options} {input : Stdin}
    {clock : Clock} {e : RuntimeError} {m : Machine} (h : p.EndsAlone o input clock (.error e) m) :
    e.cause.isStrayJump = false := by
  obtain ⟨n, hn⟩ := h
  have ho := Discipline.Admits.refl .confined o
  have hhost : Discipline.confined.Serves { options := o } o := Discipline.serves_plain rfl
  have hev := Discipline.companions_self ho hhost 0 n
  have hready := Discipline.ready_start .confined { options := o } input clock
  rcases hev.run (Session.start { options := o } input clock).env hp hready with
    ⟨r, m', hr, _, _, hstray⟩ | ⟨m', hr, _⟩ | ⟨_, _, hc, _⟩
  · cases (hn n (Nat.le_refl n)).symm.trans hr
    exact hstray e rfl rfl rfl
  · cases (hn n (Nat.le_refl n)).symm.trans hr
  · exact hc.elim

/-- On any machine, no expression ends with a return, a break or a continue, and no loop with a break or a
continue. So a program that has breaks and continues only in loops never ends with an error about one. -/
theorem jumps_stay_inside :
    (∀ c : Context, c.host.Faithful → ∀ n env m signal m',
      (∀ e, (evaluator n).evaluate c env e m = .error signal m' →
        signal.isReturn = false ∧ signal.isLoopJump = false) ∧
      ∀ s : Stmt, s.isLoop = true → (evaluator n).execute c env s m = .error signal m' →
        signal.isLoopJump = false) ∧
    ∀ p : Program, p.Confined → ∀ o input clock r m, p.EndsAlone o input clock r m → ∀ span,
      r ≠ .error ⟨.breakOutsideLoop, span⟩ ∧ r ≠ .error ⟨.continueOutsideLoop, span⟩ := by
  refine ⟨fun c hc n env m signal m' => ?_, fun p hp o input clock r m hend span => ?_⟩
  · have hev := Discipline.companions_unconfined hc m.depth n
    have hm : Discipline.unconfined.Ready m.depth m := Discipline.ready_unconfined rfl
    constructor
    · intro e he
      rcases (hev.evaluate env e).signal_of_error (fun _ => id) hm he with hs | rfl
      · exact ⟨hs.noReturn, Bool.eq_false_iff.2 fun hj => Bool.false_ne_true (hs.jump hj)⟩
      · exact ⟨rfl, rfl⟩
    · intro s hloop he
      rcases (hev.execute false env s (.inr hloop)).signal_of_error (fun _ => id) hm he with hs | rfl
      · exact Bool.eq_false_iff.2 fun hj => Bool.false_ne_true (hs.jump hj)
      · rfl
  · constructor
    · rintro rfl
      exact Bool.false_ne_true (hp.ends hend).symm
    · rintro rfl
      exact Bool.false_ne_true (hp.ends hend).symm

/-- `func f() { while (true) break; return 1; } f();` -/
def Program.breaksInCall : Program :=
  let body : List Stmt :=
    [.whileLoop (.literal (.bool true) default) (.break_ default) default,
      .return_ (some (.literal (.int 1) default)) default]
  ⟨[.function (.mk ⟨"f", default⟩ [] (.mk body default) default),
    .expression (.call (.identifier ⟨"f", default⟩) [] default) default], default⟩

theorem Program.breaksInCall_confined : Program.breaksInCall.Confined := by
  intro s hs
  rcases List.mem_cons.1 hs with rfl | hs
  · refine .mk nofun fun ht => ?_
    cases ht with
    | function ht =>
      rcases List.mem_cons.1 ht with rfl | ht
      · refine .mk nofun fun hb => ?_
        cases hb
        exact .mk (fun _ => rfl) nofun
      · rw [List.mem_singleton.1 ht]
        exact .mk nofun nofun
  · rw [List.mem_singleton.1 hs]
    exact .mk nofun nofun

/-- A call whose body breaks out of a loop and then returns, and the loop alone. -/
theorem jumps_stay_inside_call :
    Program.breaksInCall.Confined ∧
    (∃ m, Program.breaksInCall.EndsAlone {} [] 0 (.ok (.int 1)) m) ∧
    (∀ r m, Program.breaksInCall.EndsAlone {} [] 0 r m → r ≠ .error ⟨.breakOutsideLoop, default⟩) ∧
    Host.plain.Faithful ∧
    ∀ env m signal m', (evaluator 9).execute {} env
      (.whileLoop (.literal (.bool true) default) (.break_ default) default) m = .error signal m' →
      signal.isLoopJump = false := by
  have hend : ∃ m, Program.breaksInCall.EndsAlone {} [] 0 (.ok (.int 1)) m :=
    Program.ends_of_int (k := 9) rfl (by decide +kernel)
  refine ⟨Program.breaksInCall_confined, hend, fun r m h => ?_, Host.plain_faithful, ?_⟩
  · exact (jumps_stay_inside.2 _ Program.breaksInCall_confined {} [] 0 r m h default).1
  · intro env m signal m'
    exact (jumps_stay_inside.1 {} Host.plain_faithful 9 env m signal m').2 _ rfl

end Scriptlet
