import Scriptlet.Proofs.Syntax.Progress
import Scriptlet.Proofs.Syntax.Running

/-! Sources that are cut off. A reader of a source and a reader of one that goes on behind it see the same
tokens up to the end of the first. `Follows` says of a rule that succeeds without errors on the whole what it
does on the source that is cut off: it does the same, or comes to the end and yields what it has, or comes to
the end and fails there. The lemmas are about the simple rules and the ways in which rules are combined. -/
namespace Scriptlet

/-- A source that is cut off, the whole that goes on behind it, and the tokens of the whole behind the cut. -/
structure Cut where
  source : String
  whole : String
  next : Located Token
  behind : List (Located Token)

namespace Reader

variable {k : Cut} {source : String} {r r' : Reader}

structure Done (source : String) (r : Reader) : Prop where
  placed : r.Placed source
  flawless : r.Flawless
  calm : r.recovering = false
  ended : r.current.content.isEnd = true

/-- Two readers at the same token, or the first of them at the end of its source. -/
structure Abreast (k : Cut) (r r' : Reader) : Prop where
  placed : r.Placed k.source
  placed' : r'.Placed k.whole
  flawless : r.Flawless
  calm : r.recovering = false
  calm' : r'.recovering = false
  stream : r'.stream = r.stream ++ k.next :: k.behind

/-- The error `b` was noted, and there is no token left. -/
structure Noted (r : Reader) (b : ParseError) : Prop where
  noted : r.latestErrors = [b]
  recovering : r.recovering = true
  ended : r.current.content.isEnd = true

/-- A rule that failed with `e` at the end of the source is to blame for the error `b`: for one that was noted
on the way, or else for its own. -/
def Blames (source : String) (r : Reader) (e b : ParseError) : Prop := r.Done source ∧ b = e ∨ r.Noted b

/-- The tokens that can still be taken, with and without their places. -/
theorem tokens_eq_map (r : Reader) : r.tokens = r.stream.map (·.content) := by
  have htoken : Item.token? = fun i => i.located?.map (·.content) := by
    funext i
    obtain ⟨content, span, position⟩ := i
    cases content with
    | error cause => rfl
    | ok t => cases t <;> rfl
  have hrow : r.ahead = r.row.map (·.content) := by
    rw [ahead, row, itemTokens, htoken, List.map_cons, List.map_cons, List.map_filterMap]
  rw [tokens, stream, hrow, List.takeWhile_map]
  rfl

namespace Done

variable (h : r.Done source)
include h

theorem consistent : r.Consistent := h.placed.consistent h.calm

theorem tokens : r.tokens = [] := tokens_of_end h.ended

theorem shift : r.shift.Done source where
  placed := h.placed.leads_shift.placed
  flawless := r.shift_flawless.2 h.flawless
  calm := r.shift_recovering.trans h.calm
  ended := by
    rw [shift_current]
    exact h.consistent.ended h.ended

theorem blames (e : ParseError) : r.Blames source e e := .inl ⟨h, rfl⟩

end Done

namespace Abreast

variable (h : r.Abreast k r')
include h

theorem consistent : r.Consistent := h.placed.consistent h.calm

theorem current_eq (hend : r.current.content.isEnd = false) : r'.current = r.current := by
  have hstream := h.stream
  rw [stream_of_not_end hend] at hstream
  cases hend' : r'.current.content.isEnd with
  | true =>
    rw [stream_of_end hend'] at hstream
    cases hstream
  | false =>
    rw [stream_of_not_end hend'] at hstream
    exact (List.cons.inj hstream).1

theorem shift (hend : r.current.content.isEnd = false) : r.shift.Abreast k r'.shift where
  placed := h.placed.leads_shift.placed
  placed' := h.placed'.leads_shift.placed
  flawless := r.shift_flawless.2 h.flawless
  calm := r.shift_recovering.trans h.calm
  calm' := r'.shift_recovering.trans h.calm'
  stream := by
    rw [h.placed'.stream_shift, h.placed.stream_shift, h.stream, stream_of_not_end hend]
    rfl

theorem tokens' : r'.tokens = r.tokens ++ (k.next :: k.behind).map (·.content) := by
  rw [tokens_eq_map, tokens_eq_map, h.stream, List.map_append]

theorem short {limit : Nat} (hl : r'.tokens.length < limit) : r.tokens.length < limit := by
  rw [h.tokens', List.length_append] at hl
  omega

theorem short_passed {limit : Nat} {r₁ r₁' : Reader} {ts : List Token} (h₁ : r₁.Abreast k r₁')
    (hts : r.tokens = ts ++ r₁.tokens) (hl : r'.tokens.length < limit) : r₁'.tokens.length < limit := by
  rw [h.tokens', hts] at hl
  rw [h₁.tokens']
  simp only [List.length_append] at hl ⊢
  omega

/-- At the end of the source that is cut off, the other reader sees the first token behind the cut. -/
theorem done (hend : r.current.content.isEnd = true) : r.Done k.source :=
  ⟨h.placed, h.flawless, h.calm, hend⟩

theorem current_next (hend : r.current.content.isEnd = true) : r'.current = k.next := by
  have hstream := h.stream
  rw [stream_of_end hend, List.nil_append] at hstream
  cases hend' : r'.current.content.isEnd with
  | true =>
    rw [stream_of_end hend'] at hstream
    cases hstream
  | false =>
    rw [stream_of_not_end hend'] at hstream
    exact (List.cons.inj hstream).1

end Abreast

/-- Readers at any place, and readers that are not at the end. -/
def Anywhere (_ : Reader) : Prop := True

def Inside (r : Reader) : Prop := r.current.content.isEnd = false

end Reader

namespace Rule

open Reader

theorem eq_end {t : Token} (h : t.isEnd = true) : t = .endOfFile := by
  cases t with
  | endOfFile => rfl
  | _ => cases h

variable {α β : Type}

/-- What a rule does at a reader of the source that is cut off when at one of the whole it yields `a'` without
errors: the same, or at the end something in line with it, or it fails at the end. -/
inductive Outcome (k : Cut) (rule : Rule α) (r : Reader) (a' : α) (r₁' : Reader) (D : α → α → Prop)
    (E : ParseCause → List Token → Prop) : Prop
  | abreast {r₁ : Reader} {ts : List Token} (hrule : rule r = .ok a' r₁) (hts : r.tokens = ts ++ r₁.tokens)
    (hr : r₁.Abreast k r₁')
  | done {a : α} {r₁ : Reader} (hrule : rule r = .ok a r₁) (hr : r₁.Done k.source) (hd : D a a')
  | failed {e b : ParseError} {r₁ : Reader} (hrule : rule r = .error e r₁) (hr : r₁.Blames k.source e b)
    (he : E b.content r.tokens)

/-- What is said of an error at the end of a rule and the tokens before it, when the rule before it took more
tokens. -/
def Under (E : ParseCause → List Token → Prop) (P : List Token → List Token → Prop) (c : ParseCause)
    (us : List Token) : Prop := ∀ ts, P ts us → E c (ts ++ us)

/-- Errors that were noted stay noted. -/
structure Lasting (rule : Rule α) : Prop where
  of_ok : ∀ {r a r₁}, rule r = .ok a r₁ → r₁.latestErrors = [] → r.latestErrors = []
  of_error : ∀ {r e r₁}, rule r = .error e r₁ → r₁.latestErrors = [] → r.latestErrors = []

/-- Where the rule succeeds on the whole without errors, the outcome on the source that is cut off is one of
those above. -/
structure Follows (k : Cut) (limit : Nat) (At : Reader → Prop) (rule : Rule α) (D : α → α → Prop)
    (E : ParseCause → List Token → Prop) : Prop where
  lasting : Lasting rule
  outcome : ∀ {r r' a' r₁'}, At r → r.Abreast k r' → r'.tokens.length < limit → rule r' = .ok a' r₁' →
    r₁'.latestErrors = [] → Outcome k rule r a' r₁' D E

/-- At the end of the source that is cut off, `rule` yields something in line with what `rule'` yields on the
whole, or fails. -/
def Rests (k : Cut) (rule rule' : Rule α) (D : α → α → Prop) (B : ParseCause → Prop) : Prop :=
  ∀ r r' a' r₁', r.Done k.source → rule' r' = .ok a' r₁' → (∃ a, rule r = .ok a r ∧ D a a') ∨
    ∃ e r₁, rule r = .error e r₁ ∧ r₁.Done k.source ∧ B e.content

def Fails (k : Cut) (rule : Rule α) (B : ParseCause → Prop) : Prop :=
  ∀ r : Reader, r.Done k.source → ∃ e r₁, rule r = .error e r₁ ∧ r₁.Done k.source ∧ B e.content

/-- At the end of a source the rule fails because of that. -/
def Needs (rule : Rule α) : Prop :=
  ∀ r : Reader, r.current.content.isEnd = true → ∃ e, rule r = .error e r ∧ e.content = .unexpectedEnd

variable {k : Cut} {limit : Nat} {At : Reader → Prop} {rule rule' : Rule α} {D D₁ : α → α → Prop}
  {E F : ParseCause → List Token → Prop} {B : ParseCause → Prop}

theorem Needs.bind (h : Needs rule) (next : α → Rule β) : Needs (rule >>= next) := by
  intro r hend
  obtain ⟨e, hrule, he⟩ := h r hend
  refine ⟨e, ?_, he⟩
  simp only [Bind.bind, EStateM.bind, hrule]

theorem Needs.map (h : Needs rule) (f : α → β) : Needs (f <$> rule) := by
  intro r hend
  obtain ⟨e, hrule, he⟩ := h r hend
  refine ⟨e, ?_, he⟩
  simp only [Functor.map, EStateM.map, hrule]

theorem Needs.fails (h : Needs rule) (hb : B .unexpectedEnd) : Fails k rule B := by
  intro r hr
  obtain ⟨e, hrule, he⟩ := h r hr.ended
  exact ⟨e, r, hrule, hr, he ▸ hb⟩

theorem Fails.bind (h : Fails k rule B) (next : α → Rule β) : Fails k (rule >>= next) B := by
  intro r hr
  obtain ⟨e, r₁, hrule, hr₁, he⟩ := h r hr
  refine ⟨e, r₁, ?_, hr₁, he⟩
  simp only [Bind.bind, EStateM.bind, hrule]

theorem Fails.rests (h : Fails k rule B) : Rests k rule rule' D B :=
  fun r _ _ _ hr _ => .inr (h r hr)

theorem Needs.rests (h : Needs rule) (hb : B .unexpectedEnd) : Rests k rule rule' D B := (h.fails hb).rests

theorem Rests.pure {a : α} (h : ∀ {r' a' r₁'}, rule' r' = .ok a' r₁' → D a a') : Rests k (pure a) rule' D B :=
  fun _ _ _ _ _ hrule' => .inl ⟨a, rfl, h hrule'⟩

/-- Only what the rule does at the end of a source matters. -/
theorem Rests.congr {rule₁ : Rule α} (h : Rests k rule₁ rule' D B)
    (he : ∀ r : Reader, r.current.content.isEnd = true → rule r = rule₁ r) : Rests k rule rule' D B := by
  intro r r' a' r₁' hr hrule'
  rw [he r hr.ended]
  exact h r r' a' r₁' hr hrule'

theorem Outcome.congr {r r₁' : Reader} {a' : α} (h : Outcome k rule r a' r₁' D E) (he : rule' r = rule r) :
    Outcome k rule' r a' r₁' D E := by
  cases h with
  | abreast hrule hts hr => exact .abreast (he.trans hrule) hts hr
  | done hrule hr hd => exact .done (he.trans hrule) hr hd
  | failed hrule hr hb => exact .failed (he.trans hrule) hr hb

theorem Rests.outcome (h : Rests k rule rule' D fun c => E c []) {r r' r₁' : Reader} {a' : α}
    (hr : r.Done k.source) (hrule' : rule' r' = .ok a' r₁') : Outcome k rule r a' r₁' D E := by
  rcases h _ _ _ _ hr hrule' with ⟨a, hrule, hd⟩ | ⟨e, r₁, hrule, hr₁, he⟩
  · exact .done hrule hr hd
  · refine .failed hrule (hr₁.blames e) ?_
    rw [hr.tokens]
    exact he

/-- The outcome of a rule behind one that took `ts`. -/
theorem Outcome.after {next : α → Rule β} {D' : β → β → Prop} {r r₁ r₂' : Reader} {a : α} {b' : β}
    {ts : List Token} (h : Outcome k (next a) r₁ b' r₂' D' E) (hfirst : rule r = .ok a r₁)
    (hts : r.tokens = ts ++ r₁.tokens) (he : ∀ c, E c r₁.tokens → F c (ts ++ r₁.tokens)) :
    Outcome k (rule >>= next) r b' r₂' D' F := by
  cases h with
  | @abreast r₂ us hsecond hus hr₂ =>
    have hall : r.tokens = (ts ++ us) ++ r₂.tokens := by rw [hts, hus, List.append_assoc]
    exact .abreast ((bind_of_ok hfirst).trans hsecond) hall hr₂
  | done hsecond hr₂ hd => exact .done ((bind_of_ok hfirst).trans hsecond) hr₂ hd
  | failed hsecond hr₂ he₂ =>
    refine .failed ((bind_of_ok hfirst).trans hsecond) hr₂ ?_
    rw [hts]
    exact he _ he₂

namespace Lasting

theorem pure (a : α) : Lasting (pure a) where
  of_ok hrule hnone := by
    cases hrule
    exact hnone
  of_error hrule := by cases hrule

theorem bind {next : α → Rule β} (h : Lasting rule) (hn : ∀ a, Lasting (next a)) :
    Lasting (rule >>= next) where
  of_ok hrule hnone := by
    obtain ⟨a, r₁, hfirst, hsecond⟩ := ok_of_bind hrule
    exact h.of_ok hfirst ((hn a).of_ok hsecond hnone)
  of_error {r e r₂} hrule hnone := by
    cases hfirst : rule r with
    | ok a r₁ =>
      rw [bind_of_ok hfirst] at hrule
      exact h.of_ok hfirst ((hn a).of_error hrule hnone)
    | error e₁ r₁ =>
      rw [bind_of_error hfirst] at hrule
      cases hrule
      exact h.of_error hfirst hnone

/-- A rule that fails where it stands. -/
theorem fail (h : ∀ r, ∃ e, rule r = .error e r) : Lasting rule where
  of_ok {r a r₁} hrule := by
    obtain ⟨e, he⟩ := h r
    rw [he] at hrule
    cases hrule
  of_error {r e₁ r₁} hrule hnone := by
    obtain ⟨e, he⟩ := h r
    rw [he] at hrule
    cases hrule
    exact hnone

theorem take : Lasting Rule.take where
  of_ok {r t r₁} hrule hnone := by
    cases hrule
    exact r.shift_unnoted hnone
  of_error hrule := by cases hrule

/-- What a rule does may depend on the reader. -/
theorem choose (rules : Reader → Rule α) (h : ∀ r, rule r = rules r r) (hl : ∀ r, Lasting (rules r)) :
    Lasting rule where
  of_ok {r _ _} hrule hnone := (hl r).of_ok ((h r).symm.trans hrule) hnone
  of_error {r _ _} hrule hnone := (hl r).of_error ((h r).symm.trans hrule) hnone

theorem look {next : Located Token → Rule α} (h : ∀ t, Lasting (next t)) : Lasting (Rule.current >>= next) :=
  .choose (fun r => next r.current) (fun _ => rfl) fun r => h r.current

theorem get {next : Reader → Rule α} (h : ∀ r, Lasting (next r)) : Lasting (MonadState.get >>= next) :=
  .choose next (fun _ => rfl) h

theorem attempt (h : Lasting rule) : Lasting (attempt rule) where
  of_ok {r a r₁} hattempt hnone := by
    cases hrule : rule r with
    | ok b r₂ =>
      rw [Rule.attempt, hrule] at hattempt
      cases hattempt
      exact h.of_ok hrule hnone
    | error e r₂ =>
      rw [Rule.attempt, hrule] at hattempt
      cases hattempt
      exact h.of_error hrule hnone
  of_error {r e r₁} hattempt := by
    cases hrule : rule r with
    | ok b r₂ =>
      rw [Rule.attempt, hrule] at hattempt
      cases hattempt
    | error e r₂ =>
      rw [Rule.attempt, hrule] at hattempt
      cases hattempt

end Lasting

namespace Follows

theorem weaken (h : Follows k limit Anywhere rule D E) : Follows k limit At rule D E :=
  ⟨h.lasting, fun _ => h.outcome trivial⟩

theorem mono (h : Follows k limit At rule D E) (hd : ∀ a a', D a a' → D₁ a a')
    (he : ∀ c ts, E c ts → F c ts) : Follows k limit At rule D₁ F where
  lasting := h.lasting
  outcome ha hr hl hrule' hnone := by
    cases h.outcome ha hr hl hrule' hnone with
    | abreast hrule hts hr₁ => exact .abreast hrule hts hr₁
    | done hrule hr₁ hd₁ => exact .done hrule hr₁ (hd _ _ hd₁)
    | failed hrule hr₁ he₁ => exact .failed hrule hr₁ (he _ _ he₁)

theorem pure (a : α) : Follows k limit At (pure a) D E where
  lasting := .pure a
  outcome _ hr _ hrule' _ := by
    cases hrule'
    exact .abreast rfl (List.nil_append _).symm hr

theorem throw (e : ParseError) : Follows k limit At (throw e : Rule α) D E where
  lasting := .fail fun _ => ⟨e, rfl⟩
  outcome _ _ _ hrule' := by cases hrule'

/-- One rule after another, where `P` is known of what the first yields and the tokens that it takes and
leaves. -/
theorem chain {next : α → Rule β} {D' : β → β → Prop} {P : α → List Token → List Token → Prop}
    (h : Follows k limit At rule D F)
    (hp : ∀ {r a r₁ ts}, r.Consistent → r.tokens.length < limit → rule r = .ok a r₁ → r₁.latestErrors = [] →
      r.tokens = ts ++ r₁.tokens → P a ts r₁.tokens)
    (hn : ∀ a, Follows k limit Anywhere (next a) D' (Under F (P a)))
    (hi : ∀ a a' ts, D a a' → P a ts [] → Rests k (next a) (next a') D' fun c => F c ts) :
    Follows k limit At (rule >>= next) D' F where
  lasting := h.lasting.bind fun a => (hn a).lasting
  outcome {r r' b' r₂'} ha hr hl hrule' hnone := by
    obtain ⟨a', r₁', hfirst', hsecond'⟩ := ok_of_bind hrule'
    cases h.outcome ha hr hl hfirst' ((hn a').lasting.of_ok hsecond' hnone) with
    | @abreast r₁ ts hfirst hts hr₁ =>
      have hknown := hp hr.consistent (hr.short hl) hfirst hr₁.flawless.1 hts
      have hl₁ := hr.short_passed hr₁ hts hl
      exact ((hn a').outcome trivial hr₁ hl₁ hsecond' hnone).after hfirst hts fun _ he => he ts hknown
    | @done a r₁ hfirst hr₁ hd =>
      have htokens : r.tokens = r.tokens ++ r₁.tokens := by rw [hr₁.tokens, List.append_nil]
      have hknown := hp hr.consistent (hr.short hl) hfirst hr₁.flawless.1 htokens
      rw [hr₁.tokens] at hknown
      rcases hi a a' _ hd hknown _ _ _ _ hr₁ hsecond' with ⟨b, hsecond, hb⟩ | ⟨e, r₂, hsecond, hr₂, he⟩
      · exact .done ((bind_of_ok hfirst).trans hsecond) hr₁ hb
      · exact .failed ((bind_of_ok hfirst).trans hsecond) (hr₂.blames e) he
    | failed hfirst hr₁ he => exact .failed (bind_of_error hfirst) hr₁ he

theorem bind {next : α → Rule β} {D' : β → β → Prop} {P : α → List Token → List Token → Prop}
    (h : Follows k limit At rule D F) (ht : Takes limit rule P)
    (hn : ∀ a, Follows k limit Anywhere (next a) D' (Under F (P a)))
    (hi : ∀ a a' ts, D a a' → P a ts [] → Rests k (next a) (next a') D' fun c => F c ts) :
    Follows k limit At (rule >>= next) D' F := by
  refine h.chain ?_ hn hi
  intro r a r₁ ts hc hl hrule hnone hts
  have hresult := ht r hc hl
  rw [hrule] at hresult
  obtain ⟨us, hpasses, hknown⟩ := hresult
  obtain rfl := List.append_cancel_right (hts.symm.trans hpasses.tokens)
  exact hknown hnone

/-- After a rule that takes what it needs or fails. -/
theorem bind_must {next : α → Rule β} {D' : β → β → Prop} {P : α → List Token → List Token → Prop}
    (h : Follows k limit At rule (fun _ _ => False) F) (ht : Takes limit rule P)
    (hn : ∀ a, Follows k limit Anywhere (next a) D' (Under F (P a))) :
    Follows k limit At (rule >>= next) D' F :=
  h.bind ht hn fun _ _ _ hd => hd.elim

/-- The last step of a rule, which takes nothing. -/
theorem yield {f : α → β} {D' : β → β → Prop} (h : Follows k limit At rule D E)
    (hd : ∀ a a', D a a' → D' (f a) (f a')) :
    Follows k limit At (rule >>= fun a => Pure.pure (f a)) D' E := by
  refine h.chain (P := fun _ _ _ => True) (fun _ _ _ _ _ => trivial) (fun _ => .pure _)
    fun a a' _ had _ => .pure ?_
  rintro _ _ _ ⟨⟩
  exact hd a a' had

theorem map {f : α → β} {D' : β → β → Prop} (h : Follows k limit At rule D E)
    (hd : ∀ a a', D a a' → D' (f a) (f a')) : Follows k limit At (f <$> rule) D' E := by
  have hbind : f <$> rule = rule >>= fun a => Pure.pure (f a) := by
    funext r
    simp only [Functor.map, EStateM.map, Bind.bind, EStateM.bind]
    cases rule r <;> rfl
  rw [hbind]
  exact h.yield hd

/-- The outcomes inside the source and at its end. -/
theorem split (h : Follows k limit Inside rule D E)
    (hcut : ∀ {r r' a' r₁'}, r.Done k.source → r.Abreast k r' → rule r' = .ok a' r₁' →
      Outcome k rule r a' r₁' D E) : Follows k limit Anywhere rule D E where
  lasting := h.lasting
  outcome {r r' a' r₁'} _ hr hl hrule' hnone := by
    cases hend : r.current.content.isEnd with
    | true => exact hcut (hr.done hend) hr hrule'
    | false => exact h.outcome hend hr hl hrule' hnone

/-- A rule that takes one token, if the token is right. -/
theorem single {f : Located Token → Option α} (hsome : ∀ r a, f r.current = some a → rule r = .ok a r.shift)
    (hnone : ∀ r, f r.current = none → ∃ e, rule r = .error e r)
    (hend : (f k.next).isSome = true → ∀ r : Reader, r.current.content.isEnd = true →
      ∃ e, rule r = .error e r ∧ E e.content []) :
    Follows k limit Anywhere rule (fun _ _ => False) E where
  lasting := by
    constructor
    · intro r a r₁ hrule hunnoted
      cases hf : f r.current with
      | none =>
        obtain ⟨e, he⟩ := hnone r hf
        rw [he] at hrule
        cases hrule
      | some b =>
        rw [hsome r b hf] at hrule
        cases hrule
        exact r.shift_unnoted hunnoted
    · intro r e r₁ hrule hunnoted
      cases hf : f r.current with
      | none =>
        obtain ⟨e', he⟩ := hnone r hf
        rw [he] at hrule
        cases hrule
        exact hunnoted
      | some b =>
        rw [hsome r b hf] at hrule
        cases hrule
  outcome {r r' a' r₁'} _ hr _ hrule' _ := by
    have hfound : f r'.current = some a' ∧ r₁' = r'.shift := by
      cases hf : f r'.current with
      | none =>
        obtain ⟨e, he⟩ := hnone r' hf
        rw [he] at hrule'
        cases hrule'
      | some b =>
        rw [hsome r' b hf] at hrule'
        cases hrule'
        exact ⟨rfl, rfl⟩
    obtain ⟨hf, rfl⟩ := hfound
    cases hcut : r.current.content.isEnd with
    | false =>
      rw [hr.current_eq hcut] at hf
      have hts : r.tokens = [r.current.content] ++ r.shift.tokens := tokens_of_not_end hcut
      exact .abreast (hsome r a' hf) hts (hr.shift hcut)
    | true =>
      rw [hr.current_next hcut] at hf
      obtain ⟨e, hrule, he⟩ := hend (by rw [hf]; rfl) r hcut
      refine .failed hrule ((hr.done hcut).blames e) ?_
      rw [tokens_of_end hcut]
      exact he

theorem take : Follows k limit Inside Rule.take (fun _ _ => False) E where
  lasting := .take
  outcome {r r' a' r₁'} hcut hr _ hrule' _ := by
    cases hrule'
    have hts : r.tokens = [r.current.content] ++ r.shift.tokens := tokens_of_not_end hcut
    refine .abreast ?_ hts (hr.shift hcut)
    rw [hr.current_eq hcut]
    rfl

/-- A look at the current token, which the end of the file does not pass. -/
theorem check {test : Token → Bool} {next : Bool → Rule α} (hend : test .endOfFile = false)
    (htrue : Follows k limit Inside (next true) D E) (hfalse : Follows k limit Anywhere (next false) D E)
    (hcut : test k.next.content = true → Rests k (next false) (next true) D fun c => E c []) :
    Follows k limit Anywhere (Rule.check test >>= next) D E where
  lasting := by
    refine .choose (fun r => next (test r.current.content)) (fun _ => rfl) fun r => ?_
    cases test r.current.content with
    | true => exact htrue.lasting
    | false => exact hfalse.lasting
  outcome {r r' a' r₁'} _ hr hl hrule' herrors := by
    replace hrule' : next (test r'.current.content) r' = .ok a' r₁' := hrule'
    have hrule : (Rule.check test >>= next) r = next (test r.current.content) r := rfl
    cases hedge : r.current.content.isEnd with
    | false =>
      rw [hr.current_eq hedge] at hrule'
      cases htest : test r.current.content with
      | true =>
        rw [htest] at hrule hrule'
        exact (htrue.outcome hedge hr hl hrule' herrors).congr hrule
      | false =>
        rw [htest] at hrule hrule'
        exact (hfalse.outcome trivial hr hl hrule' herrors).congr hrule
    | true =>
      rw [eq_end hedge, hend] at hrule
      rw [hr.current_next hedge] at hrule'
      cases hnext : test k.next.content with
      | true =>
        rw [hnext] at hrule'
        exact ((hcut hnext).outcome (hr.done hedge) hrule').congr hrule
      | false =>
        rw [hnext] at hrule'
        exact (hfalse.outcome trivial hr hl hrule' herrors).congr hrule

theorem test {test : Token → Bool} {yes no : Rule α} (hend : test .endOfFile = false)
    (hyes : Follows k limit Inside yes D E) (hno : Follows k limit Anywhere no D E)
    (hcut : test k.next.content = true → Rests k no yes D fun c => E c []) :
    Follows k limit Anywhere (Rule.check test >>= fun b => if b = true then yes else no) D E := by
  refine .check hend ?_ ?_ ?_
  · rw [if_pos rfl]
    exact hyes
  · rw [if_neg (by decide)]
    exact hno
  · rw [if_pos rfl, if_neg (by decide)]
    exact hcut

/-- A choice by the current token, which is the first that is taken. -/
theorem look_head {next : Located Token → Rule α}
    (hn : ∀ t, Follows k limit Inside (next t) D fun c ts => ts.head? = some t.content → E c ts) :
    Follows k limit Inside (Rule.current >>= next) D E where
  lasting := .look fun t => (hn t).lasting
  outcome {r r' a' r₁'} hcut hr hl hrule' hnone := by
    replace hrule' : next r'.current r' = .ok a' r₁' := hrule'
    rw [hr.current_eq hcut] at hrule'
    cases (hn r.current).outcome hcut hr hl hrule' hnone with
    | abreast hrule hts hr₁ => exact .abreast hrule hts hr₁
    | done hrule hr₁ hd => exact .done hrule hr₁ hd
    | failed hrule hr₁ he =>
      refine .failed hrule hr₁ (he ?_)
      rw [tokens_of_not_end hcut]
      rfl

theorem look {next : Located Token → Rule α} (hn : ∀ t, Follows k limit Inside (next t) D E) :
    Follows k limit Inside (Rule.current >>= next) D E :=
  .look_head fun t => (hn t).mono (fun _ _ hd => hd) fun _ _ he _ => he

end Follows

end Rule

end Scriptlet
