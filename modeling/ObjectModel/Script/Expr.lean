import ObjectModel.Operation
import ObjectModel.Value

/-!
The expressions that scripts are made of.
-/

namespace ObjectModel.Script

inductive Literal
  | none
  | undefined
  | bool (b : Bool)
  | int (n : Int)
  | str (text : String)
  | function (name : String)
deriving DecidableEq

def Literal.value : Literal → Value
  | none => .none
  | undefined => .undefined
  | bool b => .bool b
  | int n => .int n
  | str text => .str text
  | function name => .function name

inductive Expr
  | literal (l : Literal)
  | float (x : Binary64)
  | list (items : List Expr)
  /-- A new dict; each key is evaluated before its value. -/
  | dict (entries : List (Expr × Expr))
  /-- A new descriptor; a flag that is absent is set. -/
  | valueDescriptor (value writable enumerable configurable : Option Expr)
  /-- A new descriptor; a flag that is absent is set. -/
  | accessor (get set enumerable configurable : Option Expr)
  | variable (name : String)
  | this
  | arg (index : Nat)
  | operation (op : Operation Expr)
  /-- Writes a value to the notes of the step. -/
  | note (e : Expr)
  | cond (test : Expr) (thenBody elseBody : List Expr)
  /-- A body whose failure is a value. -/
  | attempt (body : List Expr)
  | bind (name : String) (e : Expr)

end ObjectModel.Script
