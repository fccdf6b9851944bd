import ObjectModel.Script.Shown

/-!
What a script keeps beside the realm: its variables, the function that is running, the notes of the
step and the numbers that records have in the answer.
-/

namespace ObjectModel.Script

structure Frame where
  this : Value
  args : List Value
  locals : List (String × Value) := []

structure Session where
  globals : List (String × Value) := []
  frame : Option Frame := none
  notes : List Shown := []
  numbered : Array ObjectId := #[]

abbrev ScriptM :=
  RealmM Session

namespace Session

def lookup? (s : Session) (name : String) : Option Value :=
  (s.frame.bind (·.locals.lookup name)).or (s.globals.lookup name)

def bind (s : Session) (name : String) (v : Value) : Session :=
  match s.frame with
  | some frame => { s with frame := some { frame with locals := (name, v) :: frame.locals } }
  | none => { s with globals := (name, v) :: s.globals }

def this (s : Session) : Value :=
  match s.frame with
  | some frame => frame.this
  | none => .undefined

def arg (s : Session) (index : Nat) : Value :=
  (s.frame.bind (·.args[index]?)).getD .undefined

end Session

def answer (v : Value) : ScriptM Shown :=
  modifyGet fun r =>
    let (shown, numbering) := present r.heap r.pool v { objects := r.client.numbered }
    (shown, { r with client := { r.client with numbered := numbering.objects } })

def inFrame (frame : Frame) (body : ScriptM Value) : ScriptM Value := fun r =>
  let outside := r.client.frame
  let leave (r : Realm Session) := { r with client := { r.client with frame := outside } }
  match body { r with client := { r.client with frame := some frame } } with
  | .ok v r => .ok v (leave r)
  | .error failure r => .error failure (leave r)

end ObjectModel.Script
