import ObjectModel.Pool.Content
import ObjectModel.Text.Quoted

/-!
How values are shown in messages and log lines.
-/

namespace ObjectModel.Display

def bracketed (opening closing : String) (items : List String) : String :=
  opening ++ ", ".intercalate items ++ closing

def braced (entries : List (String × String)) : String :=
  bracketed "\x7b" "\x7d" (entries.map fun (key, value) => key ++ ": " ++ value)

def bool (b : Bool) : String :=
  if b then "True" else "False"

def descriptor (shown : Value → String) (d : Descriptor) : String :=
  let flags :=
    s!"enumerable={shown d.enumerable.value}, configurable={shown d.configurable.value})"
  match d.slot with
  | .value value writable =>
    s!"ValueDescriptor(value={shown value}, writable={shown writable.value}, " ++ flags
  | .accessor get set =>
    s!"AccessorDescriptor(get={shown (.ofOption get)}, set={shown (.ofOption set)}, " ++ flags

def record (table : Table) : String :=
  "ObjectRecord(" ++ bracketed "[" "]" (table.keys.map Text.quoted) ++ ")"

def unquoted (shown : Value → String) : Value → String
  | .str text => text
  | v => shown v

def constructor (pool : Pool) (shown : Value → String) (name : Value) : String :=
  if pool.truthy name then s!"[Function: {unquoted shown name}]" else "[Function (anonymous)]"

/--
The text of a value. A dict inside itself is cut off there; nothing else can be inside itself, so
no value is nested deeper than there are things to nest.
-/
def value (heap : Heap) (pool : Pool) (v : Value) : String :=
  go (heap.size + pool.size + 1) [] v
where
  go : Nat → List Nat → Value → String
    | 0, _, _ => "..."
    | depth + 1, within, v =>
      match v with
      | .none => "None"
      | .undefined => "undefined"
      | .bool b => bool b
      | .int n => toString n
      | .float x _ => x.written
      | .str text => Text.quoted text
      | .function name => s!"<fn {name}>"
      | .list id => bracketed "[" "]" ((pool.list id).map (go depth within))
      | .dict id =>
        if id ∈ within then
          "\x7b...\x7d"
        else
          braced ((pool.dict id).map fun (key, value) =>
            (go depth (id :: within) key, go depth (id :: within) value))
      | .descriptor id =>
        match pool.descriptor? id with
        | some d => descriptor (go depth within) d
        | none => "..."
      | .object o =>
        match heap.constructor? o with
        | some c => constructor pool (go depth within) c.name
        | none => record (heap.table o)

def table (heap : Heap) (pool : Pool) (t : Table) : String :=
  let entries := t.entries.map fun (key, d) =>
    (Text.quoted key, descriptor (value heap pool) d)
  "DescriptorTable(" ++ braced entries ++ ")"

end ObjectModel.Display
