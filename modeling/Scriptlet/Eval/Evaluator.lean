import Scriptlet.Eval.Builtin
import Scriptlet.Eval.Machine

/-! Evaluation of programs. The rules below say how each construct is evaluated when an evaluator for
its parts is given; `evaluator n` follows the rules through at most `n` levels. -/
namespace Scriptlet

/-- Runs the source of a path in an environment, with names for natives. -/
abbrev Runner := Dictionary Native → Env → (path source : String) → Action (Except Failure Value)

/-- The natives that the host adds: what the one with a number does with its arguments in the
environment that it is called from. It fails with a message. -/
structure Host where
  respond : (id : Nat) → Runner → List Value → Env → Action (Except String Value)

def Host.plain : Host := ⟨fun _ _ _ _ => pure (.ok .undefined)⟩

/-- What stays the same through the run of a program. -/
structure Context where
  options : Options := {}
  natives : Dictionary Native := Native.standard
  host : Host := .plain

/-- Ways to evaluate expressions, to execute statements and to call values. `limit` bounds the rounds
of a loop. -/
structure Evaluator where
  limit : Nat
  evaluate : Context → Env → Expr → Action Value
  execute : Context → Env → Stmt → Action Value
  call : Context → Env → Value → List Value → Span → Action Value

open Scriptlet.Action

namespace Context

/-- The value of a name: its nearest binding, or else a native. -/
def lookup (c : Context) (env : Env) (id : Identifier) : Action Value := do
  match ← look fun s => s.get? env id.name with
  | some value => return value
  | none =>
    match c.natives.get? id.name with
    | some native => return .native native
    | none => fail (.undefinedVariable id.name) id.span

/-- The value that a call of a name means. A native comes before a binding that cannot be called. -/
def callee? (c : Context) (bound : Option Value) (name : String) : Option Value :=
  match bound, c.natives.get? name with
  | some value, some native => some (if value.isCallable then value else .native native)
  | some value, none => some value
  | none, native => native.map .native

def lookupCallee (c : Context) (env : Env) (name : String) (span : Span) : Action Value := do
  match c.callee? (← look fun s => s.get? env name) name with
  | some value => return value
  | none => fail (.undefinedFunction name) span

def assign (c : Context) (env : Env) (target : Identifier) (value : Value) : Action Value := do
  match ← update fun s => s.assign env target.name value with
  | none => return value
  | some (.constant name) => fail (.constantReassignment name) target.span
  | some (.undefined name) =>
    if c.options.implicitDeclarations then
      define env name value false
      return value
    else fail (.undefinedVariable name) target.span

end Context

def compute (op : ComputeOp) (left right : Value) (span : Span) : Action Value := do
  ofExcept span (← look fun s => op.apply s left right)

def relate (op : RelateOp) (left right : Value) (span : Span) : Action Value := do
  ofExcept span (← look fun s => op.apply s left right)

/-- The element of a container at a key. What is not there is undefined. -/
def Value.at (s : Store) (object key : Value) : Except RuntimeCause Value :=
  match object, key with
  | .array r, .int i =>
    .ok <| if i < 0 then .undefined else (s.array r).getD i.toInt.toNat .undefined
  | .string text, .int i =>
    .ok <| if i < 0 then .undefined
      else (text.toList[i.toInt.toNat]?).elim .undefined fun c => .string c.toString
  | .map r, .string key => .ok (((s.map r).get? key).getD .undefined)
  | .array _, key | .string _, key | .map _, key =>
    .error (.invalidIndex object.typeName key.typeName)
  | object, _ => .error (.notIndexable object.typeName)

def Value.member (object : Value) (name : Identifier) (span : Span) : Action Value := do
  match object with
  | .map r => return (← look fun s => (s.map r).get? name.name).getD .undefined
  | .instance_ r =>
    match ← look fun s => (s.instances[r]?).bind fun i => s.getLocal? i.env name.name with
    | some value => return value
    | none => fail (.unknownMember name.name) name.span
  | object => fail (.noMembers object.typeName) span

/-- Writes a prompt, if there is one, and reads a line. At the end of the input there is none. -/
def readLine (prompt : Option Value) (span : Span) : Action Value := do
  if let some prompt := prompt then
    write (← look fun s => s.display prompt)
  let line ← nextLine
  if line.isEmpty then return .undefined
  match Text.decode? line with
  | some text => return .string (withoutBreaks text)
  | none => fail (.io "stream did not contain valid UTF-8") span

def newFunction (f : Function) : Action Value := update fun s => s.newFunction f

def declareFunction (env : Env) (f : FunctionDecl) : Action Unit := do
  let value ← newFunction ⟨some f.name.name, f.parameters.map (·.name), .block f.body, env⟩
  define env f.name.name value false

namespace Evaluator

variable (ev : Evaluator) (c : Context)

def evaluateAll (env : Env) : List Expr → Action (List Value)
  | [] => return []
  | e :: es => do
    let value ← ev.evaluate c env e
    return value :: (← evaluateAll env es)

def evaluateEntries (env : Env) (entries : Dictionary Value) :
    List (Entry Expr) → Action (Dictionary Value)
  | [] => return entries
  | e :: es => do
    let value ← ev.evaluate c env e.value
    evaluateEntries env (entries.insert e.key value) es

/-- The callee of a call. A name is looked up among what can be called. -/
def evaluateCallee (env : Env) : Expr → Action Value
  | .identifier id => c.lookupCallee env id.name id.span
  | e => ev.evaluate c env e

def evaluateStep (env : Env) : Expr → Action Value
  | .identifier id => c.lookup env id
  | .literal value _ => return .ofLiteral value
  | .binary (.logic .and) left right _ => do
    let value ← ev.evaluate c env left
    if value.isTruthy then ev.evaluate c env right else return value
  | .binary (.logic .or) left right _ => do
    let value ← ev.evaluate c env left
    if value.isTruthy then return value else ev.evaluate c env right
  | .binary (.compute op) left right span => do
    let left ← ev.evaluate c env left
    let right ← ev.evaluate c env right
    compute op left right span
  | .binary (.relate op) left right span => do
    let left ← ev.evaluate c env left
    let right ← ev.evaluate c env right
    relate op left right span
  | .unary op operand span => do
    let value ← ev.evaluate c env operand
    ofExcept span (op.apply value)
  | .step op target span => do
    let current ← c.lookup env target
    let value ← match op with
      | .increment => compute .add current (.int 1) span
      | .decrement => compute .subtract current (.int 1) span
    c.assign env target value
  | .ternary condition resolution alternative _ => do
    let value ← ev.evaluate c env condition
    if value.isTruthy then ev.evaluate c env resolution else ev.evaluate c env alternative
  | .assign target none value _ => do
    let value ← ev.evaluate c env value
    c.assign env target value
  | .assign target (some op) value span => do
    let value ← ev.evaluate c env value
    let current ← c.lookup env target
    let value ← compute op current value span
    c.assign env target value
  | .call callee arguments span => do
    let callee ← ev.evaluateCallee c env callee
    let arguments ← ev.evaluateAll c env arguments
    ev.call c env callee arguments span
  | .member object name span => do
    let object ← ev.evaluate c env object
    object.member name span
  | .index object key span => do
    let object ← ev.evaluate c env object
    let key ← ev.evaluate c env key
    ofExcept span (← look fun s => object.at s key)
  | .list items _ => do
    let items ← ev.evaluateAll c env items
    update fun s => s.newArray items.toArray
  | .map entries _ => do
    let entries ← ev.evaluateEntries c env .empty entries
    update fun s => s.newMap entries
  | .lambda parameters body _ =>
    newFunction ⟨none, parameters.map (·.name), .expression body, env⟩
  | .input none span => readLine none span
  | .input (some prompt) span => do
    let prompt ← ev.evaluate c env prompt
    readLine (some prompt) span
  | .nested inner _ => ev.evaluate c env inner

/-- Executes statements in order. The result is that of the last one. -/
def executeAll (env : Env) (last : Value) : List Stmt → Action Value
  | [] => return last
  | s :: ss => do
    let value ← ev.execute c env s
    executeAll env value ss

def executeBlock (env : Env) (b : Block) : Action Value :=
  ev.executeAll c env .undefined b.statements

def executeEnclosed (env : Env) (b : Block) : Action Value := do
  ev.executeBlock c (← enclose env) b

def evaluateOption (env : Env) : Option Expr → Action Value
  | none => return .undefined
  | some e => ev.evaluate c env e

def declareBindings (env : Env) (constant : Bool) : List Binding → Action Unit
  | [] => return ()
  | b :: bs => do
    let value ← ev.evaluateOption c env b.value
    define env b.name.name value constant
    declareBindings env constant bs

def declare (env : Env) (d : Declaration) : Action Unit :=
  ev.declareBindings c env d.kind.isConstant d.bindings

def declareClass (env : Env) (name : Identifier) (parent : Option Identifier)
    (members : List Member) : Action Unit := do
  let parent ← match parent with
    | none => pure none
    | some id =>
      match ← c.lookup env id with
      | .class_ r => pure (some r)
      | other => fail (.invalidParent id.name other.typeName) id.span
  let value ← update fun s => s.newClass ⟨name.name, parent, members, env⟩
  define env name.name value false

def holds (env : Env) : Option Expr → Action Bool
  | none => return true
  | some e => return (← ev.evaluate c env e).isTruthy

/-- Executes the body of a loop, and says whether the loop goes on after it. -/
def executeRound (env : Env) (body : Stmt) : Action Bool := do
  match ← attempt (ev.execute c env body) with
  | .ok _ | .error (.continue_ _) => return true
  | .error (.break_ _) => return false
  | .error signal => throw signal

/-- Rounds of a loop: condition, body, update. -/
def loop (env : Env) (condition update : Option Expr) (body : Stmt) : Nat → Action Unit
  | 0 => throw .exhausted
  | n + 1 => do
    if ← ev.holds c env condition then
      if ← ev.executeRound c env body then
        discard (ev.evaluateOption c env update)
        loop env condition update body n

def startLoop (env : Env) : Option Initializer → Action Unit
  | none => return ()
  | some (.declare d) => ev.declare c env d
  | some (.expression e _) => discard (ev.evaluate c env e)

/-- Tries cases in order. The default is taken whenever it is reached. -/
def executeCases (env : Env) (subject : Value) : List Case → Action Unit
  | [] => return ()
  | case :: cases => do
    let taken ← match case.value with
      | none => pure true
      | some e => do
        let value ← ev.evaluate c env e
        look fun s => s.equal value subject
    if taken then discard (ev.execute c env case.body) else executeCases env subject cases

def evaluateTexts (env : Env) : List Expr → Action (List String)
  | [] => return []
  | e :: es => do
    let value ← ev.evaluate c env e
    let text ← look fun s => s.display value
    return text :: (← evaluateTexts env es)

/-- A block with what catches its throws. -/
def executeHandled (env : Env) (body : Block) (handler : Option Handler) : Action Value := do
  match ← attempt (ev.executeEnclosed c env body), handler with
  | .ok value, _ => return value
  | .error (.throw value _), some handler =>
    let env ← enclose env
    if let some parameter := handler.parameter then
      define env parameter.name value false
    ev.executeBlock c env handler.body
  | .error signal, _ => throw signal

/-- The cleanup of a block runs however the block ends, and its own signals win. -/
def executeTry (env : Env) (body : Block) (handler : Option Handler) (cleanup : Option Block) :
    Action Unit := do
  let result ← attempt (ev.executeHandled c env body handler)
  if let some cleanup := cleanup then
    discard (ev.executeEnclosed c env cleanup)
  match result with
  | .ok _ => return ()
  | .error signal => throw signal

def executeStep (env : Env) : Stmt → Action Value
  | .expression e _ => ev.evaluate c env e
  | .block body => ev.executeEnclosed c env body
  | .return_ value _ => do
    let value ← ev.evaluateOption c env value
    throw (.return_ value)
  | .break_ span => throw (.break_ span)
  | .continue_ span => throw (.continue_ span)
  | .throw value span => do
    let value ← ev.evaluate c env value
    throw (.throw value span)
  | .declare d => do
    ev.declare c env d
    return .undefined
  | .function f => do
    declareFunction env f
    return .undefined
  | .class_ name parent members _ => do
    declareClass c env name parent members
    return .undefined
  | .conditional condition resolution alternative _ => do
    let value ← ev.evaluate c env condition
    if value.isTruthy then
      discard (ev.execute c env resolution)
    else if let some alternative := alternative then
      discard (ev.execute c env alternative)
    return .undefined
  | .whileLoop condition body _ => do
    ev.loop c env (some condition) none body ev.limit
    return .undefined
  | .forLoop header body _ => do
    let env ← enclose env
    ev.startLoop c env header.initializer
    ev.loop c env header.condition header.update body ev.limit
    return .undefined
  | .switch subject cases _ => do
    let subject ← ev.evaluate c env subject
    ev.executeCases c env subject cases
    return .undefined
  | .try_ body handler cleanup _ => do
    ev.executeTry c env body handler cleanup
    return .undefined
  | .import_ target span => do
    let native ← c.lookupCallee env "import" span
    discard (ev.call c env native [.string target] span)
    return .undefined
  | .print values _ => do
    let texts ← ev.evaluateTexts c env values
    write (" ".intercalate texts ++ "\n")
    return .undefined
  | .pass _ => return .undefined

/-- Runs a program. The result is what it returns at the top level, or else the value of its last
statement. -/
def run (env : Env) (p : Program) : Action (Except RuntimeError Value) := do
  match ← attempt (ev.executeAll c env .undefined p.statements) with
  | .ok value | .error (.return_ value) => return .ok value
  | .error (.break_ span) => return .error ⟨.breakOutsideLoop, span⟩
  | .error (.continue_ span) => return .error ⟨.continueOutsideLoop, span⟩
  | .error (.throw value span) =>
    return .error ⟨.uncaughtThrow (← look fun s => s.display value), span⟩
  | .error (.error e) => return .error e
  | .error .exhausted => throw .exhausted

def runSource (env : Env) (path source : String) : Action (Except Failure Value) := do
  match loadSource c.options.optimize path source with
  | .error f => return .error f
  | .ok loaded =>
    notify (loaded.notices path)
    match ← ev.run c env loaded.program with
    | .ok value => return .ok value
    | .error e => return .error (.runtime path source e)

def runner : Runner := fun natives env path source =>
  ev.runSource { c with natives } env path source

def callNative (env : Env) (f : Native) (arguments : List Value) : Action (Except String Value) :=
  match f with
  | .builtin f => do
    let now ← tellTime f
    update (f.apply now arguments)
  | .host id _ _ => c.host.respond id (ev.runner c) arguments env

/-- What a finished body means to its caller. -/
def finishCall : Except Signal Value → Action Value
  | .ok value | .error (.return_ value) => return value
  | .error (.break_ span) => fail .breakOutsideLoop span
  | .error (.continue_ span) => fail .continueOutsideLoop span
  | .error signal => throw signal

def bindParameters (env : Env) : List String → List Value → Action Unit
  | name :: names, value :: values => do
    define env name value false
    bindParameters env names values
  | _, _ => return ()

def executeBody (env : Env) : FunctionBody → Action Value
  | .block body => do
    discard (ev.executeBlock c env body)
    return .undefined
  | .expression body => ev.evaluate c env body

def callFunction (f : Function) (arguments : List Value) (span : Span) : Action Value := do
  if f.parameters.length ≠ arguments.length then
    fail (.arityMismatch (f.name.getD "lambda") f.parameters.length arguments.length) span
  if c.options.maxCallDepth ≤ (← get).depth then
    fail (.stackOverflow c.options.maxCallDepth) span
  let env ← enclose f.closure
  bindParameters env f.parameters arguments
  modify fun m => { m with depth := m.depth + 1 }
  let result ← attempt (ev.executeBody c env f.body)
  modify fun m => { m with depth := m.depth - 1 }
  finishCall result

def declareMembers (env : Env) : List Member → Action Unit
  | [] => return ()
  | .field d :: ms => do
    ev.declare c env d
    declareMembers env ms
  | .method f :: ms => do
    declareFunction env f
    declareMembers env ms

def declareLineage (env : Env) : List Class → Action Unit
  | [] => return ()
  | k :: ks => do
    ev.declareMembers c env k.members
    declareLineage env ks

/-- A new instance of a class. Its frame holds the members of its ancestors and its own, and `init`
takes the arguments. -/
def instantiate (r : Nat) (k : Class) (arguments : List Value) (span : Span) : Action Value := do
  let env ← enclose k.closure
  ev.declareLineage c env (← look fun s => s.lineage r)
  match ← look fun s => s.getLocal? env "init" with
  | some init => discard (ev.call c env init arguments span)
  | none =>
    if !arguments.isEmpty then fail (.arityMismatch k.name 0 arguments.length) span
  update fun s => s.newInstance ⟨r, env⟩

def callStep (env : Env) (callee : Value) (arguments : List Value) (span : Span) : Action Value := do
  match callee with
  | .function r =>
    match ← look fun s => s.functions[r]? with
    | some f => ev.callFunction c f arguments span
    | none => fail (.notCallable callee.typeName) span
  | .class_ r =>
    match ← look fun s => s.classes[r]? with
    | some k => ev.instantiate c r k arguments span
    | none => fail (.notCallable callee.typeName) span
  | .native f =>
    if let some arity := f.arity then
      if arity ≠ arguments.length then
        fail (.arityMismatch f.name arity arguments.length) span
    match ← ev.callNative c env f arguments with
    | .ok value => return value
    | .error message => fail (.native f.name message) span
  | callee => fail (.notCallable callee.typeName) span

end Evaluator

/-- Runs an action on a stack of its own, so that evaluation may nest deeper than one stack holds. -/
def onFreshStack {α : Type} (action : Action α) : Action α := fun m =>
  (Task.spawn (fun _ => action m) .dedicated).get

@[simp] theorem onFreshStack_eq {α : Type} (action : Action α) : onFreshStack action = action := rfl

def levelsPerStack : Nat := 4096

def atLevel {α : Type} (n : Nat) (action : Action α) : Action α :=
  if n % levelsPerStack = 0 then onFreshStack action else action

@[simp] theorem atLevel_eq {α : Type} (n : Nat) (action : Action α) : atLevel n action = action := by
  simp [atLevel]

/-- The evaluator that follows the rules through `n` levels and gives up below. -/
def evaluator : Nat → Evaluator
  | 0 =>
    { limit := 0
      evaluate := fun _ _ _ => throw .exhausted
      execute := fun _ _ _ => throw .exhausted
      call := fun _ _ _ _ _ => throw .exhausted }
  | n + 1 =>
    { limit := n
      evaluate := fun c env e => atLevel n ((evaluator n).evaluateStep c env e)
      execute := fun c env s => atLevel n ((evaluator n).executeStep c env s)
      call := fun c env callee arguments span =>
        atLevel n ((evaluator n).callStep c env callee arguments span) }

@[simp] theorem evaluator_limit (n : Nat) : (evaluator (n + 1)).limit = n := rfl

@[simp] theorem evaluator_evaluate (n : Nat) (c : Context) (env : Env) (e : Expr) :
    (evaluator (n + 1)).evaluate c env e = (evaluator n).evaluateStep c env e := by
  simp [evaluator]

@[simp] theorem evaluator_execute (n : Nat) (c : Context) (env : Env) (s : Stmt) :
    (evaluator (n + 1)).execute c env s = (evaluator n).executeStep c env s := by
  simp [evaluator]

@[simp] theorem evaluator_call (n : Nat) (c : Context) (env : Env) (callee : Value)
    (arguments : List Value) (span : Span) :
    (evaluator (n + 1)).call c env callee arguments span =
      (evaluator n).callStep c env callee arguments span := by
  simp [evaluator]

end Scriptlet
