import Scriptlet.Proofs.Domain
import Scriptlet.Proofs.Following
import Scriptlet.Proofs.Keeping

/-! Actions that stay within a domain. Such an action ends with a value of the domain, or with a signal from one
of its places, and leaves the list of modules that are being imported as it was. Another action tracks it: it
comes to the same end, unless it quits. The rules of evaluation track the same rules where their parts do,
also when the hosts differ. -/
namespace Scriptlet

abbrev Context.hosted (c : Context) (h : Host) : Context := { c with host := h }

namespace Domain

variable (D : Domain)

/-- The signals of the domain. To run out of levels is not one of them. -/
def Leaves : Signal → Prop
  | .return_ value => D.Tame value
  | .break_ span => D.mark (.place span)
  | .continue_ span => D.mark (.place span)
  | .throw value span => D.Tame value ∧ D.mark (.place span)
  | .error e => D.mark (.place e.span)
  | .exhausted => False

/-- The machine belongs to the domain, and these modules are being imported. -/
structure Ready (importing : List (List String)) (m : Machine) : Prop where
  store : D.Owns m.store
  importing : m.importing = importing

section Tracks

variable {α β : Type} (L : List (List String))

/-- The same end, within the domain or out of levels, unless the second one quits. -/
inductive SameEnd (V : α → Prop) : EStateM.Result Signal Machine α → EStateM.Result Signal Machine α → Prop
  | ok {a : α} {m : Machine} (ha : V a) (hm : D.Ready L m) : SameEnd V (.ok a m) (.ok a m)
  | error {signal : Signal} {m : Machine} (hs : D.Leaves signal) (hm : D.Ready L m) :
    SameEnd V (.error signal m) (.error signal m)
  | exhausted {m : Machine} : SameEnd V (.error .exhausted m) (.error .exhausted m)
  | quit {m : Machine} (hq : D.quits) (r : EStateM.Result Signal Machine α) :
    SameEnd V r (.error .exhausted m)

/-- From every machine of the domain, the second action comes to the same end as the first or quits. -/
def Tracks (V : α → Prop) (action action' : Action α) : Prop :=
  ∀ m, D.Ready L m → D.SameEnd L V (action m) (action' m)

def Any : α → Prop := fun _ => True

def Answers : Except String Value → Prop
  | .ok value => D.Tame value
  | .error _ => True

namespace Tracks

variable {D L} {V : α → Prop} {W : β → Prop} {action action' : Action α} {next next' : α → Action β}

theorem pure {a : α} (ha : V a) : D.Tracks L V (pure a) (pure a) := fun _ hm => .ok ha hm

theorem throw {signal : Signal} (hs : D.Leaves signal) :
    D.Tracks L V (throw signal : Action α) (throw signal) := fun _ hm => .error hs hm

theorem exhausted : D.Tracks L V (MonadExcept.throw Signal.exhausted : Action α)
    (MonadExcept.throw Signal.exhausted) := fun _ _ => .exhausted

theorem quit (hq : D.quits) (action : Action α) :
    D.Tracks L V action (MonadExcept.throw Signal.exhausted) := fun _ _ => .quit hq _

theorem fail (cause : RuntimeCause) {span : Span} (h : D.mark (.place span)) :
    D.Tracks L V (Action.fail cause span : Action α) (Action.fail cause span) := throw h

/-- A failure is the end, whatever would come after it. -/
theorem failThen (cause : RuntimeCause) {span : Span} (h : D.mark (.place span)) (next next' : α → Action β) :
    D.Tracks L W (Action.fail cause span >>= next) (Action.fail cause span >>= next') :=
  fun _ hm => .error h hm

theorem ofExcept {span : Span} (hs : D.mark (.place span)) {result : Except RuntimeCause α}
    (h : ∀ a, result = .ok a → V a) :
    D.Tracks L V (Action.ofExcept span result) (Action.ofExcept span result) := by
  cases result with
  | ok a => exact pure (h a rfl)
  | error cause => exact fail cause hs

theorem mono {V' : α → Prop} (hV : ∀ a, V a → V' a) (h : D.Tracks L V action action') :
    D.Tracks L V' action action' := by
  intro m hm
  have hend := h m hm
  generalize action m = r at hend ⊢
  generalize action' m = r' at hend ⊢
  cases hend with
  | ok ha hm => exact .ok (hV _ ha) hm
  | error hs hm => exact .error hs hm
  | exhausted => exact .exhausted
  | quit hq => exact .quit hq _

theorem update {f : Store → α × Store} (h : ∀ s, D.Owns s → V (f s).1 ∧ D.Owns (f s).2) :
    D.Tracks L V (Action.update f) (Action.update f) :=
  fun m hm => .ok (h m.store hm.store).1 ⟨(h m.store hm.store).2, hm.importing⟩

/-- A change to anything but the store and the modules that are being imported. -/
theorem modifyRest {f : Machine → Machine} (hs : ∀ m, (f m).store = m.store)
    (hi : ∀ m, (f m).importing = m.importing) : D.Tracks L Any (modify f : Action Unit) (modify f) :=
  fun m hm => .ok trivial ⟨(hs m).symm ▸ hm.store, (hi m).trans hm.importing⟩

theorem bind (h : D.Tracks L V action action') (hn : ∀ a, V a → D.Tracks L W (next a) (next' a)) :
    D.Tracks L W (action >>= next) (action' >>= next') := by
  intro m hm
  have hfirst := h m hm
  generalize he : action m = first at hfirst
  generalize he' : action' m = first' at hfirst
  cases hfirst with
  | @ok a m' ha hm' =>
    rw [bind_ok he, bind_ok he']
    exact hn a ha m' hm'
  | error hs hm' =>
    rw [bind_error he, bind_error he']
    exact .error hs hm'
  | exhausted =>
    rw [bind_error he, bind_error he']
    exact .exhausted
  | quit hq =>
    rw [bind_error he']
    exact .quit hq _

theorem discard (h : D.Tracks L V action action') : D.Tracks L Any (discard action) (discard action') := by
  rw [Action.discard_eq, Action.discard_eq]
  exact h.bind fun _ _ => pure trivial

/-- What is read off a store is read off one of the domain. -/
theorem lookThen {f : Store → α} (h : ∀ s, D.Owns s → D.Tracks L W (next (f s)) (next' (f s))) :
    D.Tracks L W (Action.look f >>= next) (Action.look f >>= next') := fun m hm => h m.store hm.store m hm

theorem getThen {next next' : Machine → Action β}
    (h : ∀ m, D.Ready L m → D.Tracks L W (next m) (next' m)) :
    D.Tracks L W (get >>= next) (get >>= next') := fun m hm => h m hm m hm

/-- Signals may be taken by what follows. -/
theorem attemptThen {next next' : Except Signal α → Action β} (h : D.Tracks L V action action')
    (hok : ∀ a, V a → D.Tracks L W (next (.ok a)) (next' (.ok a)))
    (herror : ∀ signal, D.Leaves signal → D.Tracks L W (next (.error signal)) (next' (.error signal))) :
    D.Tracks L W (Action.attempt action >>= next) (Action.attempt action' >>= next') := by
  intro m hm
  have hfirst := h m hm
  generalize he : action m = first at hfirst
  generalize he' : action' m = first' at hfirst
  cases hfirst with
  | @ok a m' ha hm' =>
    rw [bind_ok (Action.attempt_ok he), bind_ok (Action.attempt_ok he')]
    exact hok a ha m' hm'
  | @error signal m' hs hm' =>
    have hx : signal ≠ .exhausted := by
      rintro rfl
      exact hs
    rw [bind_ok (attempt_error he hx), bind_ok (attempt_error he' hx)]
    exact herror signal hs m' hm'
  | exhausted =>
    rw [bind_error (attempt_exhausted he), bind_error (attempt_exhausted he')]
    exact .exhausted
  | quit hq =>
    rw [bind_error (attempt_exhausted he')]
    exact .quit hq _

end Tracks

namespace Tracks

variable {D L} {c : Context} (env : Env)

theorem lookup (hnatives : D.Names c.natives) {id : Identifier} (hid : id.Within D.mark) :
    D.Tracks L D.Tame (c.lookup env id) (c.lookup env id) := by
  refine .lookThen fun s hs => ?_
  split
  · next hv => exact .pure (hs.get? hv)
  · split
    · next hv => exact .pure (hnatives _ _ hv hid.1)
    · exact .fail _ hid.2

/-- A name that is called means a value of the domain if the name belongs to it. -/
theorem lookupCallee {name : String} {span : Span} (hs : D.mark (.place span)) {V : Value → Prop}
    (hbound : ∀ v, D.Tame v → V v) (hnative : ∀ f, c.natives.get? name = some f → V (.native f)) :
    D.Tracks L V (c.lookupCallee env name span) (c.lookupCallee env name span) := by
  refine .lookThen fun s hs' => ?_
  split
  · next v hv =>
    refine .pure ?_
    unfold Context.callee? at hv
    split at hv
    · next bound native hb hn =>
      cases hv
      split
      · exact hbound _ (hs'.get? hb)
      · exact hnative _ hn
    · next bound hb _ =>
      cases hv
      exact hbound _ (hs'.get? hb)
    · obtain ⟨f, hf, rfl⟩ := Option.map_eq_some_iff.1 hv
      exact hnative f hf
  · exact .fail _ hs

theorem enclose : D.Tracks L Any (Action.enclose env) (Action.enclose env) :=
  .update fun _ hs => ⟨trivial, hs.enclose env⟩

theorem define (name : String) {value : Value} (hv : D.Tame value) (constant : Bool) :
    D.Tracks L Any (Action.define env name value constant) (Action.define env name value constant) :=
  .update fun _ hs => ⟨trivial, hs.bind _ name hv⟩

theorem assign {target : Identifier} (ht : target.Within D.mark) {value : Value} (hv : D.Tame value) :
    D.Tracks L D.Tame (c.assign env target value) (c.assign env target value) := by
  refine Tracks.bind (V := Any) (.update fun _ hs => ⟨trivial, hs.assign env target.name hv⟩)
    fun refusal _ => ?_
  split
  · exact .pure hv
  · exact .fail _ ht.2
  · split
    · exact (define env _ hv false).bind fun _ _ => .pure hv
    · exact .fail _ ht.2

theorem compute (op : ComputeOp) (x y : Value) {span : Span} (hs : D.mark (.place span)) :
    D.Tracks L D.Tame (compute op x y span) (compute op x y span) :=
  .lookThen fun _ _ => .ofExcept hs fun _ hv => .inr (compute_plain hv)

theorem relate (op : RelateOp) (x y : Value) {span : Span} (hs : D.mark (.place span)) :
    D.Tracks L D.Tame (relate op x y span) (relate op x y span) :=
  .lookThen fun _ _ => .ofExcept hs fun _ hv => .inr (relate_plain hv)

theorem member (object : Value) {name : Identifier} (hname : name.Within D.mark) {span : Span}
    (hs : D.mark (.place span)) : D.Tracks L D.Tame (object.member name span) (object.member name span) := by
  cases object with
  | map r =>
    refine .lookThen fun s hs => .pure ?_
    cases hv : (s.map r).get? name.name with
    | none => exact .inr rfl
    | some v => exact hs.map r _ (mem_of_get? hv)
  | instance_ r =>
    refine .lookThen fun s hs => ?_
    split
    · next v hv =>
      obtain ⟨i, -, hv⟩ := Option.bind_eq_some_iff.1 hv
      exact .pure (hs.getLocal? hv)
    · exact .fail _ hname.2
  | _ => exact .fail _ hs

theorem write (text : String) : D.Tracks L Any (Action.write text) (Action.write text) :=
  .modifyRest (fun _ => rfl) fun _ => rfl

theorem notify (notices : List Notice) : D.Tracks L Any (Action.notify notices) (Action.notify notices) :=
  .modifyRest (fun _ => rfl) fun _ => rfl

theorem readLine (prompt : Option Value) {span : Span} (hs : D.mark (.place span)) :
    D.Tracks L D.Tame (readLine prompt span) (readLine prompt span) := by
  have hline : D.Tracks L Any Action.nextLine Action.nextLine :=
    fun _ hm => .ok trivial ⟨hm.store, hm.importing⟩
  have hread : D.Tracks L D.Tame (Scriptlet.readLine none span) (Scriptlet.readLine none span) := by
    refine hline.bind fun line _ => ?_
    split
    · exact .pure (.inr rfl)
    · split
      · exact .pure (.inr rfl)
      · exact .fail _ hs
  cases prompt with
  | none => exact hread
  | some prompt => exact .lookThen fun s _ => (write _).bind fun _ _ => hread

theorem newFunction {f : Function} (hf : D.Body f.body) :
    D.Tracks L D.Tame (newFunction f) (newFunction f) := .update fun _ hs => ⟨.inr rfl, hs.newFunction hf⟩

theorem declareFunction {f : FunctionDecl} (hf : f.Within D.mark) :
    D.Tracks L Any (declareFunction env f) (declareFunction env f) := by
  obtain ⟨name, parameters, body, span⟩ := f
  have hbody : D.Body (.block body) := hf.2.2.2
  exact (newFunction hbody).bind fun _ hv => define env name.name hv false

theorem declareClass (hnatives : D.Names c.natives) (name : Identifier) {parent : Option Identifier}
    (hp : ∀ id ∈ parent, id.Within D.mark) {members : List Member} (hm : WithinMembers D.mark members) :
    D.Tracks L Any (Evaluator.declareClass c env name parent members)
      (Evaluator.declareClass c env name parent members) := by
  have hnew (r : Option Nat) : D.Tracks L Any
      (do
        let value ← Action.update fun s => s.newClass ⟨name.name, r, members, env⟩
        Action.define env name.name value false)
      (do
        let value ← Action.update fun s => s.newClass ⟨name.name, r, members, env⟩
        Action.define env name.name value false) :=
    Tracks.bind (V := D.Tame) (.update fun _ hs => ⟨.inr rfl, hs.newClass hm⟩) fun _ hv =>
      define env name.name hv false
  cases parent with
  | none => exact hnew none
  | some id =>
    have hid := hp id rfl
    refine (lookup env hnatives hid).bind fun value _ => ?_
    cases value with
    | class_ r => exact hnew (some r)
    | _ => exact .failThen _ hid.2 _ _

theorem bindParameters (names : List String) {values : List Value} (hvs : ∀ v ∈ values, D.Tame v) :
    D.Tracks L Any (Evaluator.bindParameters env names values)
      (Evaluator.bindParameters env names values) := by
  induction names generalizing values with
  | nil => exact .pure trivial
  | cons name names ih =>
    cases values with
    | nil => exact .pure trivial
    | cons value values =>
      obtain ⟨hv, hvs⟩ := List.forall_mem_cons.1 hvs
      exact (define env name hv false).bind fun _ _ => ih hvs

end Tracks
end Tracks

/-- What a native of the host may be asked: anything if it is a value, and else for a module of the domain. -/
def Asks (arguments : List Value) : Prop :=
  D.free ∨ ∃ target, D.mark (.target target) ∧ arguments = [.string target]

/-- Evaluators that keep to the domain, the second with another host. -/
structure Tracking (L : List (List String)) (c : Context) (h : Host) (ev ev' : Evaluator) : Prop where
  limit : ev'.limit = ev.limit
  evaluate : ∀ env {e : Expr}, e.Within D.mark →
    D.Tracks L D.Tame (ev.evaluate c env e) (ev'.evaluate (c.hosted h) env e)
  execute : ∀ env {s : Stmt}, s.Within D.mark →
    D.Tracks L D.Tame (ev.execute c env s) (ev'.execute (c.hosted h) env s)
  call : ∀ env {callee : Value} {arguments : List Value} {span : Span},
    D.Tame callee ∨ D.Asks arguments → (∀ v ∈ arguments, D.Tame v) → D.mark (.place span) →
    D.Tracks L D.Tame (ev.call c env callee arguments span) (ev'.call (c.hosted h) env callee arguments span)

namespace Tracking

variable {D} {L : List (List String)} {c : Context} {h : Host} {ev ev' : Evaluator}
  (ht : D.Tracking L c h ev ev')
include ht

theorem evaluateAll (env : Env) {es : List Expr} (hes : Expr.WithinList D.mark es) :
    D.Tracks L (fun vs => ∀ v ∈ vs, D.Tame v) (ev.evaluateAll c env es)
      (ev'.evaluateAll (c.hosted h) env es) := by
  induction es with
  | nil => exact .pure (by simp)
  | cons e es ih =>
    exact (ht.evaluate env hes.1).bind fun value hv => (ih hes.2).bind fun values hvs =>
      .pure (List.forall_mem_cons.2 ⟨hv, hvs⟩)

theorem evaluateEntries (env : Env) {entries : Dictionary Value} (hv : ∀ e ∈ entries.entries, D.Tame e.2)
    {es : List (Entry Expr)} (hes : Expr.WithinEntries D.mark es) :
    D.Tracks L (fun d => ∀ e ∈ d.entries, D.Tame e.2) (ev.evaluateEntries c env entries es)
      (ev'.evaluateEntries (c.hosted h) env entries es) := by
  induction es generalizing entries with
  | nil => exact .pure hv
  | cons e es ih =>
    obtain ⟨key, value, span⟩ := e
    refine (ht.evaluate env hes.2.1).bind fun value hvalue => ih (fun e he => ?_) hes.2.2
    rcases mem_insertEntry he with heq | hmem
    · rw [heq]
      exact hvalue
    · exact hv e hmem

theorem evaluateTexts (env : Env) {es : List Expr} (hes : Expr.WithinList D.mark es) :
    D.Tracks L Any (ev.evaluateTexts c env es) (ev'.evaluateTexts (c.hosted h) env es) := by
  induction es with
  | nil => exact .pure trivial
  | cons e es ih =>
    exact (ht.evaluate env hes.1).bind fun value _ => .lookThen fun s _ =>
      (ih hes.2).bind fun texts _ => .pure trivial

theorem evaluateOption (env : Env) {e : Option Expr} (he : ∀ x ∈ e, x.Within D.mark) :
    D.Tracks L D.Tame (ev.evaluateOption c env e) (ev'.evaluateOption (c.hosted h) env e) := by
  cases e with
  | none => exact .pure (.inr rfl)
  | some e => exact ht.evaluate env (he e rfl)

theorem evaluateCallee (hnatives : D.Names c.natives) (env : Env) {e : Expr} (he : e.Within D.mark) :
    D.Tracks L D.Tame (ev.evaluateCallee c env e) (ev'.evaluateCallee (c.hosted h) env e) := by
  have hvalue := ht.evaluate env he
  cases e with
  | identifier id => exact .lookupCallee env he.2 (fun _ hv => hv) fun f hf => hnatives _ f hf he.1
  | _ => exact hvalue

theorem evaluateStep (hnatives : D.Names c.natives) (env : Env) {e : Expr} (he : e.Within D.mark) :
    D.Tracks L D.Tame (ev.evaluateStep c env e) (ev'.evaluateStep (c.hosted h) env e) := by
  cases e with
  | identifier id => exact .lookup env hnatives he
  | literal value span =>
    refine .pure (.inr ?_)
    cases value <;> rfl
  | binary op left right span =>
    have hleft := ht.evaluate env he.2.1
    have hright := ht.evaluate env he.2.2
    cases op with
    | logic op =>
      cases op with
      | and =>
        refine hleft.bind fun value hv => ?_
        split
        · exact hright
        · exact .pure hv
      | or =>
        refine hleft.bind fun value hv => ?_
        split
        · exact .pure hv
        · exact hright
    | compute op => exact hleft.bind fun x _ => hright.bind fun y _ => .compute op x y he.1
    | relate op => exact hleft.bind fun x _ => hright.bind fun y _ => .relate op x y he.1
  | unary op operand span =>
    exact (ht.evaluate env he.2).bind fun value _ => .ofExcept he.1 fun _ hv => .inr (unary_plain hv)
  | step op target span =>
    refine (Tracks.lookup env hnatives he.2).bind fun current _ => ?_
    cases op with
    | increment => exact (Tracks.compute _ _ _ he.1).bind fun value hv => .assign env he.2 hv
    | decrement => exact (Tracks.compute _ _ _ he.1).bind fun value hv => .assign env he.2 hv
  | ternary condition resolution alternative span =>
    refine (ht.evaluate env he.2.1).bind fun value _ => ?_
    split
    · exact ht.evaluate env he.2.2.1
    · exact ht.evaluate env he.2.2.2
  | assign target op value span =>
    have hvalue := ht.evaluate env he.2.2
    cases op with
    | none => exact hvalue.bind fun value hv => .assign env he.2.1 hv
    | some op =>
      exact hvalue.bind fun value _ => (Tracks.lookup env hnatives he.2.1).bind fun current _ =>
        (Tracks.compute op current value he.1).bind fun value hv => .assign env he.2.1 hv
  | call callee arguments span =>
    exact (ht.evaluateCallee hnatives env he.2.1).bind fun callee hcallee =>
      (ht.evaluateAll env he.2.2).bind fun arguments hvs => ht.call env (.inl hcallee) hvs he.1
  | member object name span =>
    exact (ht.evaluate env he.2.1).bind fun object _ => .member object he.2.2 he.1
  | index object key span =>
    exact (ht.evaluate env he.2.1).bind fun object _ => (ht.evaluate env he.2.2).bind fun key _ =>
      .lookThen fun _ hs => .ofExcept he.1 fun _ hv => hs.at_ hv
  | list items span =>
    refine (ht.evaluateAll env he.2).bind fun items hvs => .update fun _ hs => ⟨.inr rfl, hs.newArray ?_⟩
    exact fun v hv => hvs v (List.mem_toArray.1 hv)
  | map entries span =>
    exact (ht.evaluateEntries env (by simp [Dictionary.empty]) he.2).bind fun entries hvs =>
      .update fun _ hs => ⟨.inr rfl, hs.newMap hvs⟩
  | lambda parameters body span =>
    have hbody : D.Body (.expression body) := he.2.2
    exact .newFunction hbody
  | input prompt span =>
    cases prompt with
    | none => exact .readLine none he
    | some prompt => exact (ht.evaluate env he.2).bind fun prompt _ => .readLine (some prompt) he.1
  | nested inner span => exact ht.evaluate env he.2

theorem executeAll (env : Env) {last : Value} (hlast : D.Tame last) {ss : List Stmt}
    (hss : Stmt.WithinList D.mark ss) :
    D.Tracks L D.Tame (ev.executeAll c env last ss) (ev'.executeAll (c.hosted h) env last ss) := by
  induction ss generalizing last with
  | nil => exact .pure hlast
  | cons s ss ih => exact (ht.execute env hss.1).bind fun value hv => ih hv hss.2

theorem executeBlock (env : Env) {b : Block} (hb : b.Within D.mark) :
    D.Tracks L D.Tame (ev.executeBlock c env b) (ev'.executeBlock (c.hosted h) env b) := by
  obtain ⟨statements, span⟩ := b
  exact ht.executeAll env (.inr rfl) hb.2

theorem executeEnclosed (env : Env) {b : Block} (hb : b.Within D.mark) :
    D.Tracks L D.Tame (ev.executeEnclosed c env b) (ev'.executeEnclosed (c.hosted h) env b) :=
  (Tracks.enclose env).bind fun inner _ => ht.executeBlock inner hb

theorem declare (env : Env) {d : Declaration} (hd : d.Within D.mark) :
    D.Tracks L Any (ev.declare c env d) (ev'.declare (c.hosted h) env d) := by
  obtain ⟨kind, bindings, span⟩ := d
  obtain ⟨-, hbs⟩ := hd
  dsimp only at hbs
  unfold Evaluator.declare
  dsimp only
  induction bindings with
  | nil => exact .pure trivial
  | cons b bs ih =>
    obtain ⟨hb, hbs⟩ := List.forall_mem_cons.1 hbs
    exact (ht.evaluateOption env hb.2).bind fun value hv =>
      (Tracks.define env b.name.name hv _).bind fun _ _ => ih hbs

theorem holds (env : Env) {condition : Option Expr} (hc : ∀ e ∈ condition, e.Within D.mark) :
    D.Tracks L Any (ev.holds c env condition) (ev'.holds (c.hosted h) env condition) := by
  cases condition with
  | none => exact .pure trivial
  | some e => exact (ht.evaluate env (hc e rfl)).bind fun value _ => .pure trivial

theorem executeRound (env : Env) {body : Stmt} (hbody : body.Within D.mark) :
    D.Tracks L Any (ev.executeRound c env body) (ev'.executeRound (c.hosted h) env body) := by
  refine (ht.execute env hbody).attemptThen (fun value _ => .pure trivial) fun signal hs => ?_
  cases signal with
  | break_ span => exact .pure trivial
  | continue_ span => exact .pure trivial
  | _ => exact .throw hs

theorem loop (env : Env) {condition update : Option Expr} (hc : ∀ e ∈ condition, e.Within D.mark)
    (hu : ∀ e ∈ update, e.Within D.mark) {body : Stmt} (hbody : body.Within D.mark) (rounds : Nat) :
    D.Tracks L Any (ev.loop c env condition update body rounds)
      (ev'.loop (c.hosted h) env condition update body rounds) := by
  induction rounds with
  | zero => exact .exhausted
  | succ rounds ih =>
    refine (ht.holds env hc).bind fun goesOn _ => ?_
    split
    · refine (ht.executeRound env hbody).bind fun again _ => ?_
      split
      · exact (ht.evaluateOption env hu).discard.bind fun _ _ => ih
      · exact .pure trivial
    · exact .pure trivial

theorem startLoop (env : Env) {initializer : Option Initializer}
    (hi : ∀ i ∈ initializer, i.Within D.mark) :
    D.Tracks L Any (ev.startLoop c env initializer) (ev'.startLoop (c.hosted h) env initializer) := by
  cases initializer with
  | none => exact .pure trivial
  | some first =>
    have hfirst := hi first rfl
    cases first with
    | declare d => exact ht.declare env hfirst
    | expression e span => exact (ht.evaluate env hfirst.2).discard

theorem executeCases (env : Env) (subject : Value) {cs : List Case} (hcs : WithinCases D.mark cs) :
    D.Tracks L Any (ev.executeCases c env subject cs) (ev'.executeCases (c.hosted h) env subject cs) := by
  induction cs with
  | nil => exact .pure trivial
  | cons k cs ih =>
    obtain ⟨value, body, span⟩ := k
    obtain ⟨-, hvalue, hbody, hcs⟩ := hcs
    have hhere := (ht.execute env hbody).discard
    cases value with
    | none => exact hhere
    | some e =>
      refine (ht.evaluate env (hvalue e rfl)).bind fun value _ => .lookThen fun s _ => ?_
      dsimp only
      cases s.equal value subject with
      | true => exact hhere
      | false => exact ih hcs

theorem executeHandled (env : Env) {body : Block} (hbody : body.Within D.mark) {handler : Option Handler}
    (hhandler : WithinHandler D.mark handler) :
    D.Tracks L D.Tame (ev.executeHandled c env body handler)
      (ev'.executeHandled (c.hosted h) env body handler) := by
  refine (ht.executeEnclosed env hbody).attemptThen (fun value hv => .pure hv) fun signal hs => ?_
  cases handler with
  | none => cases signal <;> exact .throw hs
  | some handler =>
    obtain ⟨parameter, body⟩ := handler
    have hcaught (inner : Env) := ht.executeBlock inner hhandler.2
    cases signal with
    | throw value span =>
      refine (Tracks.enclose env).bind fun inner _ => ?_
      cases parameter with
      | none => exact hcaught inner
      | some parameter =>
        exact (Tracks.define inner parameter.name hs.1 false).bind fun _ _ => hcaught inner
    | _ => exact .throw hs

theorem executeTry (env : Env) {body : Block} (hbody : body.Within D.mark) {handler : Option Handler}
    (hhandler : WithinHandler D.mark handler) {cleanup : Option Block}
    (hcleanup : WithinCleanup D.mark cleanup) :
    D.Tracks L Any (ev.executeTry c env body handler cleanup)
      (ev'.executeTry (c.hosted h) env body handler cleanup) := by
  have hfirst := ht.executeHandled env hbody hhandler
  cases cleanup with
  | none => exact hfirst.attemptThen (fun value _ => .pure trivial) fun signal hs => .throw hs
  | some cleanup =>
    have hlast := (ht.executeEnclosed env hcleanup).discard
    exact hfirst.attemptThen (fun value _ => hlast.bind fun _ _ => .pure trivial)
      fun signal hs => hlast.bind fun _ _ => .throw hs

theorem executeStep (hnatives : D.Names c.natives) (env : Env) {s : Stmt} (hs : s.Within D.mark) :
    D.Tracks L D.Tame (ev.executeStep c env s) (ev'.executeStep (c.hosted h) env s) := by
  have hdone {action action' : Action Unit} (h : D.Tracks L Any action action') :
      D.Tracks L D.Tame (action >>= fun _ => pure .undefined) (action' >>= fun _ => pure .undefined) :=
    h.bind fun _ _ => .pure (.inr rfl)
  cases s with
  | expression e span => exact ht.evaluate env hs.2
  | block body => exact ht.executeEnclosed env hs
  | return_ value span => exact (ht.evaluateOption env hs.2).bind fun value hv => .throw hv
  | break_ span => exact .throw hs
  | continue_ span => exact .throw hs
  | throw value span => exact (ht.evaluate env hs.2).bind fun value hv => .throw ⟨hv, hs.1⟩
  | declare d => exact hdone (ht.declare env hs)
  | function f => exact hdone (.declareFunction env hs)
  | class_ name parent members span =>
    exact hdone (.declareClass env hnatives name hs.2.2.1 hs.2.2.2)
  | conditional condition resolution alternative span =>
    cases alternative with
    | none =>
      refine (ht.evaluate env hs.2.1).bind fun value _ => ?_
      split
      · exact hdone (ht.execute env hs.2.2).discard
      · exact .pure (.inr rfl)
    | some alternative =>
      refine (ht.evaluate env hs.2.1).bind fun value _ => ?_
      split
      · exact hdone (ht.execute env hs.2.2.1).discard
      · exact hdone (ht.execute env hs.2.2.2).discard
  | whileLoop condition body span =>
    have hcondition : ∀ e ∈ some condition, e.Within D.mark := by simpa using hs.2.1
    have hupdate : ∀ e ∈ (none : Option Expr), e.Within D.mark := by simp
    have hloop := ht.loop env hcondition hupdate hs.2.2 ev.limit
    unfold Evaluator.executeStep
    rw [ht.limit]
    exact hdone hloop
  | forLoop header body span =>
    have hloop (inner : Env) := ht.loop inner hs.2.1.2.1 hs.2.1.2.2 hs.2.2 ev.limit
    unfold Evaluator.executeStep
    rw [ht.limit]
    exact (Tracks.enclose env).bind fun inner _ =>
      (ht.startLoop inner hs.2.1.1).bind fun _ _ => hdone (hloop inner)
  | switch subject cases span =>
    exact (ht.evaluate env hs.2.1).bind fun subject _ => hdone (ht.executeCases env subject hs.2.2)
  | try_ body handler cleanup span => exact hdone (ht.executeTry env hs.2.1 hs.2.2.1 hs.2.2.2)
  | import_ target span =>
    -- whatever the name means, it is asked for a module of the domain
    have hasks : D.Asks [.string target] := .inr ⟨target, hs.1, rfl⟩
    have hstring : ∀ v ∈ [Value.string target], D.Tame v :=
      List.forall_mem_singleton.2 (.inr rfl)
    exact (Tracks.lookupCallee env hs.2 (V := Any) (fun _ _ => trivial) fun _ _ => trivial).bind
      fun native _ => hdone (ht.call env (.inr hasks) hstring hs.2).discard
  | print values span =>
    exact (ht.evaluateTexts env hs.2).bind fun texts _ => hdone (.write _)
  | pass span => exact .pure (.inr rfl)

theorem executeBody (env : Env) {body : FunctionBody} (hbody : D.Body body) :
    D.Tracks L D.Tame (ev.executeBody c env body) (ev'.executeBody (c.hosted h) env body) := by
  cases body with
  | block body => exact (ht.executeBlock env hbody).discard.bind fun _ _ => .pure (.inr rfl)
  | expression body => exact ht.evaluate env hbody

theorem declareMembers (env : Env) {ms : List Member} (hms : WithinMembers D.mark ms) :
    D.Tracks L Any (ev.declareMembers c env ms) (ev'.declareMembers (c.hosted h) env ms) := by
  induction ms with
  | nil => exact .pure trivial
  | cons member ms ih =>
    cases member with
    | field d => exact (ht.declare env hms.1).bind fun _ _ => ih hms.2
    | method f => exact (Tracks.declareFunction env hms.1).bind fun _ _ => ih hms.2

theorem declareLineage (env : Env) {ks : List Class} (hks : ∀ k ∈ ks, WithinMembers D.mark k.members) :
    D.Tracks L Any (ev.declareLineage c env ks) (ev'.declareLineage (c.hosted h) env ks) := by
  induction ks with
  | nil => exact .pure trivial
  | cons k ks ih =>
    obtain ⟨hk, hks⟩ := List.forall_mem_cons.1 hks
    exact (ht.declareMembers env hk).bind fun _ _ => ih hks

theorem instantiate (r : Nat) (k : Class) {arguments : List Value} (hvs : ∀ v ∈ arguments, D.Tame v)
    {span : Span} (hs : D.mark (.place span)) :
    D.Tracks L D.Tame (ev.instantiate c r k arguments span)
      (ev'.instantiate (c.hosted h) r k arguments span) := by
  refine (Tracks.enclose k.closure).bind fun env _ => .lookThen fun s hs' => ?_
  have hlineage : ∀ k ∈ s.lineage r, WithinMembers D.mark k.members :=
    fun k hk => hs'.classes k (mem_classes_of_lineage hk)
  refine (ht.declareLineage env hlineage).bind fun _ _ => .lookThen fun s hs' => ?_
  have hnew : D.Tracks L D.Tame (Action.update fun s => s.newInstance ⟨r, env⟩)
      (Action.update fun s => s.newInstance ⟨r, env⟩) := .update fun _ hs => ⟨.inr rfl, hs.newInstance _⟩
  cases hinit : s.getLocal? env "init" with
  | some init => exact (ht.call env (.inl (hs'.getLocal? hinit)) hvs hs).discard.bind fun _ _ => hnew
  | none =>
    dsimp only
    split
    · exact .failThen _ hs _ _
    · exact hnew

omit ht in
/-- What leaves the body of a function is taken by the call, or leaves the call as well. -/
theorem finishCall {signal : Signal} (hs : D.Leaves signal) :
    D.Tracks L D.Tame (Evaluator.finishCall (.error signal)) (Evaluator.finishCall (.error signal)) := by
  cases signal with
  | return_ value => exact .pure hs
  | break_ span => exact .fail _ hs
  | continue_ span => exact .fail _ hs
  | _ => exact .throw hs

theorem callFunction {f : Function} (hf : D.Body f.body) {arguments : List Value}
    (hvs : ∀ v ∈ arguments, D.Tame v) {span : Span} (hs : D.mark (.place span)) :
    D.Tracks L D.Tame (ev.callFunction c f arguments span)
      (ev'.callFunction (c.hosted h) f arguments span) := by
  have hdepth (g : Nat → Nat) : D.Tracks L Any (modify fun m => { m with depth := g m.depth } : Action Unit)
      (modify fun m => { m with depth := g m.depth }) := .modifyRest (fun _ => rfl) fun _ => rfl
  unfold Evaluator.callFunction
  split
  · exact .failThen _ hs _ _
  · refine .getThen fun m hm => ?_
    split
    · exact .failThen _ hs _ _
    · refine (Tracks.enclose f.closure).bind fun env _ =>
        (Tracks.bindParameters env f.parameters hvs).bind fun _ _ =>
          (hdepth (· + 1)).bind fun _ _ => ?_
      exact (ht.executeBody env hf).attemptThen
        (fun value hv => (hdepth (· - 1)).bind fun _ _ => .pure hv)
        fun signal hs => (hdepth (· - 1)).bind fun _ _ => finishCall hs

/-- `hrespond` is about the natives that the hosts add, which may run programs of their own. -/
theorem callStep
    (hrespond : ∀ id {arguments} env, D.Asks arguments → (∀ v ∈ arguments, D.Tame v) →
      D.Tracks L D.Answers (c.host.respond id (ev.runner c) arguments env)
        (h.respond id (ev'.runner (c.hosted h)) arguments env))
    (env : Env) {callee : Value} {arguments : List Value} {span : Span}
    (hcallee : D.Tame callee ∨ D.Asks arguments) (hvs : ∀ v ∈ arguments, D.Tame v)
    (hs : D.mark (.place span)) :
    D.Tracks L D.Tame (ev.callStep c env callee arguments span)
      (ev'.callStep (c.hosted h) env callee arguments span) := by
  cases callee with
  | function r =>
    refine .lookThen fun s hs' => ?_
    split
    · next f hf => exact ht.callFunction (hs'.functions f (Array.mem_of_getElem? hf)) hvs hs
    · exact .fail _ hs
  | class_ r =>
    refine .lookThen fun s hs' => ?_
    split
    · exact ht.instantiate r _ hvs hs
    · exact .fail _ hs
  | native f =>
    have hnative : D.Tracks L D.Answers (ev.callNative c env f arguments)
        (ev'.callNative (c.hosted h) env f arguments) := by
      cases f with
      | builtin f =>
        have htime : D.Tracks L Any (Action.tellTime f) (Action.tellTime f) :=
          fun _ hm => .ok trivial ⟨hm.store, hm.importing⟩
        refine htime.bind fun now _ => .update fun s hs' => ?_
        obtain ⟨hvalue, howns⟩ := hs'.builtin f now hvs
        refine ⟨?_, howns⟩
        cases hanswer : (f.apply now arguments s).1 with
        | ok value => exact hvalue value hanswer
        | error message => trivial
      | host id name arity =>
        have hasks : D.Asks arguments := by
          rcases hcallee with htame | hasks
          · exact .inl (htame.resolve_right nofun)
          · exact hasks
        exact hrespond id env hasks hvs
    have hanswer (next : Except String Value → Action Value) (hok : ∀ value, next (.ok value) = pure value)
        (herror : ∀ message, next (.error message) = Action.fail (.native f.name message) span) :
        D.Tracks L D.Tame (ev.callNative c env f arguments >>= next)
          (ev'.callNative (c.hosted h) env f arguments >>= next) := by
      refine hnative.bind fun answer ha => ?_
      cases answer with
      | ok value =>
        rw [hok]
        exact .pure ha
      | error message =>
        rw [herror]
        exact .fail _ hs
    unfold Evaluator.callStep
    dsimp only
    split
    · split
      · exact .failThen _ hs _ _
      · exact hanswer _ (fun _ => rfl) fun _ => rfl
    · exact hanswer _ (fun _ => rfl) fun _ => rfl
  | _ => exact .fail _ hs

theorem run (env : Env) {p : Program} (hp : p.Within D.mark) :
    D.Tracks L (fun r => ∀ e, r = .error e → D.mark (.place e.span)) (ev.run c env p)
      (ev'.run (c.hosted h) env p) := by
  have herror {e : RuntimeError} (he : D.mark (.place e.span)) :
      ∀ e', (Except.error e : Except RuntimeError Value) = .error e' → D.mark (.place e'.span) := by
    intro e' he'
    cases he'
    exact he
  refine (ht.executeAll env (.inr rfl) hp).attemptThen (fun value _ => .pure nofun) fun signal hs => ?_
  cases signal with
  | return_ value => exact .pure nofun
  | break_ span => exact .pure (herror hs)
  | continue_ span => exact .pure (herror hs)
  | throw value span => exact .lookThen fun s _ => .pure (herror hs.2)
  | error e => exact .pure (herror hs)
  | exhausted => exact .throw hs

/-- A source that is run fails as it is loaded, or with an error from a place of the domain. -/
theorem runSource (env : Env) {path source : String}
    (hload : ∀ loaded, loadSource c.options.optimize path source = .ok loaded →
      loaded.program.Within D.mark) :
    D.Tracks L (fun r => ∀ f, r = .error f → loadSource c.options.optimize path source = .error f ∨
        ∃ e, f = .runtime path source e ∧ D.mark (.place e.span))
      (ev.runSource c env path source) (ev'.runSource (c.hosted h) env path source) := by
  unfold Evaluator.runSource
  dsimp only
  split
  · next f hf =>
    refine .pure fun f' hf' => .inl ?_
    cases hf'
    exact hf
  · next loaded hloaded =>
    refine (Tracks.notify _).bind fun _ _ => (ht.run env (hload loaded hloaded)).bind fun r hr => ?_
    cases r with
    | ok value => exact .pure nofun
    | error e =>
      refine .pure fun f hf => .inr ⟨e, ?_, hr e rfl⟩
      cases hf
      rfl

end Tracking

end Domain

/-- Someone who looks at a run. They give an alarm, with a signal, where something is evaluated while certain
modules are being imported, and quit at a module's file that they do not let be read. -/
structure Observer where
  alarms : List (List String) → Bool
  alarm : Signal
  reads : String → Bool

namespace Observer

variable (o : Observer)

def watch {α : Type} : Action α → Action α := Action.heeding (fun m => o.alarms m.importing) o.alarm

def evaluator : Nat → Evaluator := overseen (fun m => o.alarms m.importing) o.alarm

def host (h : Host) : Host where
  respond id run arguments env := h.respond id
    (fun natives env path source =>
      if o.reads path then o.watch (run natives env path source) else throw .exhausted) arguments env

def idle : Observer where
  alarms _ := false
  alarm := .exhausted
  reads _ := true

theorem idle_evaluator (n : Nat) : idle.evaluator n = Scriptlet.evaluator n := overseen_never _ n

end Observer

namespace Domain

variable {D : Domain} {L : List (List String)} {c : Context}

theorem Tracks.watch {α : Type} {V : α → Prop} {o : Observer} (hL : o.alarms L = false)
    {action action' : Action α} (h : D.Tracks L V action action') :
    D.Tracks L V action (o.watch action') := by
  intro m hm
  have hquiet : o.watch action' m = action' m := by simp [Observer.watch, Action.heeding, hm.importing, hL]
  rw [hquiet]
  exact h m hm

/-- The natives of the host keep to the domain, observed or not, when they are given runners that do. What is
being imported is always good. -/
def Serves (D : Domain) (c : Context) (o : Observer) (Good : List (List String) → Prop) : Prop :=
  ∀ {ev ev' : Evaluator},
    (∀ {L}, Good L → ∀ {natives}, D.Names natives →
      D.Tracking L { c with natives } (o.host c.host) ev ev') →
    ∀ {L}, Good L → ∀ id {arguments} env, D.Asks arguments → (∀ v ∈ arguments, D.Tame v) →
      D.Tracks L D.Answers (c.host.respond id (ev.runner c) arguments env)
        ((o.host c.host).respond id (ev'.runner (c.hosted (o.host c.host))) arguments env)

/-- An observer of a run within the domain sees the same run, and has no alarm to give where nothing but good
is being imported. -/
theorem tracking {o : Observer} {Good : List (List String) → Prop} (hserves : D.Serves c o Good)
    (hquiet : ∀ L, Good L → o.alarms L = false) (n : Nat) {L : List (List String)} (hL : Good L)
    {natives : Dictionary Native} (hnatives : D.Names natives) :
    D.Tracking L { c with natives } (o.host c.host) (evaluator n) (o.evaluator n) := by
  induction n generalizing L natives with
  | zero =>
    exact ⟨rfl, fun _ _ _ => .exhausted, fun _ _ _ => .exhausted, fun _ _ _ _ _ _ _ => .exhausted⟩
  | succ n ih =>
    -- natives may run programs with names of their own while more is being imported, so the hypothesis is
    -- for all natives and all that is good
    have here := ih hL hnatives
    have hwatch {V : Value → Prop} {action action' : Action Value} (h : D.Tracks L V action action') :
        D.Tracks L V action (o.watch action') := h.watch (hquiet L hL)
    refine ⟨rfl, fun env e he => ?_, fun env s hs => ?_, fun env callee arguments span hcallee hvs hs => ?_⟩
    · rw [evaluator_evaluate]
      exact hwatch (here.evaluateStep hnatives env he)
    · rw [evaluator_execute]
      exact hwatch (here.executeStep hnatives env hs)
    · rw [evaluator_call]
      exact hwatch (here.callStep (fun id _ env => hserves (fun hL _ hn => ih hL hn) hL id env) env hcallee
        hvs hs)

end Domain
end Scriptlet
