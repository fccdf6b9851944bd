import ObjectModel.Realm.Perform
import ObjectModel.Script.Expr
import ObjectModel.Script.Session

/-!
Evaluation of expressions. `step` evaluates one expression with the help of an evaluator for what
is inside it and for the functions it calls; `eval` puts `step` together with itself to a given
depth.
-/

namespace ObjectModel

namespace Failure

def kind : Failure → String
  | model error => error.kind.className
  | user _ => userErrorName
  | unbound _ => "Unbound"
  | notCallable | badOperands | badDictKey => "TypeError"
  | notRecord => "AttributeError"
  | exhausted => "RecursionError"

def message? : Failure → Option String
  | model error => some error.text
  | user message => some message
  | unbound name => some name
  | _ => none

end Failure

namespace Script

abbrev Functions :=
  List (String × List Expr)

def evalBody (recur : Expr → ScriptM Value) : List Expr → ScriptM Value
  | [] => return .none
  | [e] => recur e
  | e :: rest => do
    let _ ← recur e
    evalBody recur rest

def callFunction (functions : Functions) (recur : Expr → ScriptM Value) : Caller Session :=
  fun name this args =>
    match functions.lookup name with
    | some body => inFrame { this, args } (evalBody recur body)
    | none => throw (.unbound name)

def caught (failure : Failure) : ScriptM Value :=
  Realm.newList [.str failure.kind, .ofOption (failure.message?.map .str)]

def evalFlag (recur : Expr → ScriptM Value) : Option Expr → ScriptM Flag
  | none => return true
  | some e => do
    let v ← recur e
    return (← get).pool.flag v

def step (functions : Functions) (recur : Expr → ScriptM Value) : Expr → ScriptM Value
  | .literal l => return l.value
  | .float x => Realm.newFloat x
  | .list items => do Realm.newList (← items.mapM recur)
  | .dict entries => do
    let entries ← entries.mapM fun (key, value) => do
      let key ← recur key
      let value ← recur value
      if (← get).pool.isDictKey key then return (key, value) else throw .badDictKey
    let id ← Realm.newDict
    Realm.fillDict id ((← get).pool.dictOf entries)
    return .dict id
  | .valueDescriptor value writable enumerable configurable => do
    let value := (← value.mapM recur).getD .undefined
    let slot := .value value (← evalFlag recur writable)
    let enumerable ← evalFlag recur enumerable
    let configurable ← evalFlag recur configurable
    return .descriptor (← Realm.newDescriptor { slot, enumerable, configurable })
  | .accessor get set enumerable configurable => do
    let get := (← get.mapM recur).bind Value.toOption
    let set := (← set.mapM recur).bind Value.toOption
    let enumerable ← evalFlag recur enumerable
    let configurable ← evalFlag recur configurable
    let slot := .accessor get set
    return .descriptor (← Realm.newDescriptor { slot, enumerable, configurable })
  | .variable name => do
    match (← get).client.lookup? name with
    | some v => return v
    | none => throw (.unbound name)
  | .this => return (← get).client.this
  | .arg index => return (← get).client.arg index
  | .operation op => do
    Realm.perform (callFunction functions recur) (← op.mapM recur)
  | .note e => do
    let v ← recur e
    let shown ← answer v
    modify fun r => { r with client := { r.client with notes := r.client.notes ++ [shown] } }
    return v
  | .cond test thenBody elseBody => do
    if ← Realm.truthy (← recur test) then
      evalBody recur thenBody
    else
      evalBody recur elseBody
  | .attempt body => tryCatch (evalBody recur body) caught
  | .bind name e => do
    let v ← recur e
    modify fun r => { r with client := r.client.bind name v }
    return v

/-- Evaluates an expression; whatever lies deeper than the given depth fails. -/
def eval (functions : Functions) : Nat → Expr → ScriptM Value
  | 0, _ => throw .exhausted
  | depth + 1, e => step functions (eval functions depth) e

end Script

end ObjectModel
