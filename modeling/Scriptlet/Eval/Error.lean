import Scriptlet.Program.Error

/-! Why a running program is stopped. -/
namespace Scriptlet

/-- The causes. Operators are given by their text and values by the name of their type. -/
inductive RuntimeCause where
  | undefinedVariable (name : String)
  | undefinedFunction (name : String)
  | constantReassignment (name : String)
  | arityMismatch (name : String) (expected got : Nat)
  | invalidOperands (operator left right : String)
  | invalidOperand (operator operand : String)
  | integerOverflow (operator : String)
  | notCallable (type : String)
  | notIndexable (type : String)
  | invalidIndex (container index : String)
  | noMembers (type : String)
  | unknownMember (name : String)
  | invalidParent (name type : String)
  | stackOverflow (depth : Nat)
  | breakOutsideLoop
  | continueOutsideLoop
  | uncaughtThrow (value : String)
  | native (name message : String)
  | io (message : String)
  deriving DecidableEq

structure RuntimeError where
  cause : RuntimeCause
  span : Span
  deriving DecidableEq

namespace RuntimeCause

def title : RuntimeCause → String
  | undefinedVariable _ => "Undefined variable"
  | undefinedFunction _ => "Undefined function"
  | constantReassignment _ => "Reassignment of constant"
  | arityMismatch .. => "Wrong number of arguments"
  | invalidOperands .. => "Invalid operands"
  | invalidOperand .. => "Invalid operand"
  | integerOverflow _ => "Integer overflow"
  | notCallable _ => "Not callable"
  | notIndexable _ => "Not indexable"
  | invalidIndex .. => "Invalid index"
  | noMembers _ => "No members"
  | unknownMember _ => "Unknown member"
  | invalidParent .. => "Invalid parent class"
  | stackOverflow _ => "Stack overflow"
  | breakOutsideLoop => "`break` outside of a loop"
  | continueOutsideLoop => "`continue` outside of a loop"
  | uncaughtThrow _ => "Uncaught throw"
  | native .. => "Native function failed"
  | io _ => "Input/output failed"

def notes : RuntimeCause → List String
  | undefinedVariable name => [s!"`{name}` is not declared in this scope"]
  | undefinedFunction name => [s!"No function or native named `{name}`"]
  | constantReassignment name => [s!"`{name}` was declared constant"]
  | arityMismatch name expected got => [s!"`{name}` expects {expected} argument(s), got {got}"]
  | invalidOperands operator left right => [s!"Cannot apply `{operator}` to `{left}` and `{right}`"]
  | invalidOperand operator operand => [s!"Cannot apply `{operator}` to `{operand}`"]
  | integerOverflow operator => [s!"The result of `{operator}` does not fit in 64 bits"]
  | notCallable type => [s!"A value of type `{type}` cannot be called"]
  | notIndexable type => [s!"A value of type `{type}` cannot be indexed"]
  | invalidIndex container index => [s!"`{container}` cannot be indexed by `{index}`"]
  | noMembers type => [s!"A value of type `{type}` has no members"]
  | unknownMember name => [s!"No member named `{name}`"]
  | invalidParent name type => [s!"`{name}` is a `{type}`, not a class"]
  | stackOverflow depth => [s!"Call depth exceeded the limit of {depth}"]
  | breakOutsideLoop | continueOutsideLoop => []
  | uncaughtThrow value => [s!"Thrown value: {value}"]
  | native name message => [s!"`{name}`: {message}"]
  | io message => [message]

def hint? : RuntimeCause → Option String
  | stackOverflow _ => some "Raise the limit with `--max-call-depth`"
  | undefinedVariable _ => some "Declare it first with `var`, or run with `--implicit-declarations`"
  | _ => none

end RuntimeCause

def RuntimeError.message (e : RuntimeError) : String :=
  "runtime error: " ++ withNotes e.cause.title e.cause.notes

end Scriptlet
