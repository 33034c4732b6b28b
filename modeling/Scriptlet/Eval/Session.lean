import Scriptlet.Eval.Evaluator

/-! Sources run one after another in one global frame. -/
namespace Scriptlet

/-- A context, the global frame, and the state that the runs so far have left. -/
structure Session where
  context : Context
  env : Env
  machine : Machine

/-- How running a source ends: with a value, with a failure, or not within the steps given. -/
inductive Outcome where
  | value (content : Value)
  | failure (content : Failure)
  | unfinished

def Outcome.ended : Outcome → Bool
  | unfinished => false
  | _ => true

/-- How many levels, and rounds of a loop, a run may take. No run on a real machine takes so many. -/
def enough : Nat := 0x4000000000000000

namespace Session

def start (context : Context) (input : Stdin) (clock : Clock) : Session :=
  let (env, store) := Store.newGlobal {}
  { context, env, machine := { store, input, clock } }

def perform {α : Type} (s : Session) (action : Evaluator → Context → Env → Action α) :
    Except Signal α × Session :=
  match action (evaluator enough) s.context s.env s.machine with
  | .ok a machine => (.ok a, { s with machine })
  | .error signal machine => (.error signal, { s with machine })

def run (s : Session) (path source : String) : Outcome × Session :=
  match s.perform fun ev c env => ev.runSource c env path source with
  | (.ok (.ok value), s) => (.value value, s)
  | (.ok (.error f), s) => (.failure f, s)
  | (.error _, s) => (.unfinished, s)

def store (s : Session) : Store := s.machine.store

def setStdin (s : Session) (input : Stdin) : Session := { s with machine := { s.machine with input } }

def drain (s : Session) : (String × List Notice) × Session :=
  ((s.machine.output, s.machine.notices.toList),
    { s with machine := { s.machine with output := "", notices := #[] } })

end Session

end Scriptlet
