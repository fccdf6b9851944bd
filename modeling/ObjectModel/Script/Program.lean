import ObjectModel.Script.Eval

/-!
Programs and their answers. A step that fails is answered with its failure, and the program goes on
with what the step has changed.
-/

namespace ObjectModel.Script

structure Program where
  steps : List Expr
  functions : Functions := []
  strict : Bool := false
  threadSafe : Bool := true
  /-- Whether the answers tell the lines of the log. -/
  logged : Bool := false

inductive Outcome
  | value (shown : Shown)
  | failure (kind : String) (message : Option String)

structure Answer where
  outcome : Outcome
  notes : List Shown
  log : Option (List String)

/-- How deep a step may go, counting both expressions inside expressions and calls. -/
def depthLimit : Nat := 400000

def logLines (trace : Array Event) (start : Nat) : List String :=
  (trace.toList.drop start).filterMap fun event => event.entry?.map LogEntry.line

namespace Program

def start (p : Program) : Realm Session where
  strict := .bool p.strict
  threadSafe := p.threadSafe
  client := {}

def runStep (p : Program) (e : Expr) (r : Realm Session) : Answer × Realm Session :=
  let start := r.trace.size
  let r := { r with client := { r.client with notes := [] } }
  let computation : ScriptM Outcome := do
    return .value (← answer (← eval p.functions depthLimit e))
  let (outcome, r) :=
    match computation r with
    | .ok outcome r => (outcome, r)
    | .error failure r => (.failure failure.kind failure.message?, r)
  let log := if p.logged then some (logLines r.trace start) else none
  ({ outcome, notes := r.client.notes, log }, r)

def runFrom (p : Program) : List Expr → Realm Session → List Answer × Realm Session
  | [], r => ([], r)
  | e :: rest, r =>
    let (answer, r) := p.runStep e r
    let (answers, r) := p.runFrom rest r
    (answer :: answers, r)

def run (p : Program) : List Answer × Realm Session :=
  p.runFrom p.steps p.start

end Program

end ObjectModel.Script
