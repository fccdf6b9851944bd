import ObjectModel.Descriptor

/-!
What can go wrong: the refusals of the model itself, and the other ways in which a computation ends
without a value.
-/

namespace ObjectModel

inductive ErrorKind
  | model
  | cycle
  | notConfigurable
  | readOnly
  | notExtensible
  | type
deriving DecidableEq, Repr

namespace ErrorKind

def className : ErrorKind → String
  | model => "ObjectModelError"
  | cycle => "CycleError"
  | notConfigurable => "NotConfigurableError"
  | readOnly => "ReadOnlyError"
  | notExtensible => "NotExtensibleError"
  | type => "ObjectModelTypeError"

def name : ErrorKind → String
  | model => "Error"
  | type => "TypeError"
  | kind => kind.className

def defaultMessage : ErrorKind → String
  | cycle => "Cyclic prototype chain"
  | _ => ""

def all : List ErrorKind :=
  [model, cycle, notConfigurable, readOnly, notExtensible, type]

def ofClassName? (text : String) : Option ErrorKind :=
  all.find? (·.className == text)

end ErrorKind

def errorText (name message : String) : String :=
  if message = "" then name else name ++ ": " ++ message

/--
The model's errors, each by its cause. Offending values are held as the text that showed them when
the error arose.
-/
inductive ModelError
  | cycle
  | conflict (key : String) (why : Conflict)
  | undeletable (key : String)
  | noSetter (key : String)
  /-- The own property of the receiver cannot be assigned to. -/
  | readOnly (key : String)
  | notExtensible (key : String)
  | linkFixed
  | invalidKey (shown : String)
  | notDescriptor (shown : String)
  | notObject (what shown : String)
  | badPrototype (shown : String)
  | badReceiver (key shown : String)
  | notConstructor (shown : String)
  | noConstructionPrototype (shown : String)
  | noInstances (shown : String)
  | notFunction (key : String)
  /-- An error that a program raises in its own words. -/
  | raised (kind : ErrorKind) (message : String)
deriving DecidableEq, Repr

namespace ModelError

def kind : ModelError → ErrorKind
  | cycle => .cycle
  | conflict .. | undeletable _ => .notConfigurable
  | noSetter _ | readOnly _ => .readOnly
  | notExtensible _ | linkFixed => .notExtensible
  | raised kind _ => kind
  | _ => .type

def message : ModelError → String
  | cycle => ErrorKind.cycle.defaultMessage
  | conflict key .configurable => s!"Cannot make '{key}' configurable"
  | conflict key .enumerable => s!"Cannot change enumerability of '{key}'"
  | conflict key .kind => s!"Cannot change kind of property '{key}'"
  | conflict key .writable => s!"Cannot make '{key}' writable"
  | conflict key .value => s!"Cannot redefine read-only '{key}'"
  | conflict key .functions => s!"Cannot redefine accessor '{key}'"
  | undeletable key => s!"Cannot delete property '{key}'"
  | noSetter key => s!"Cannot set property '{key}' which has only a getter"
  | readOnly key => s!"Cannot assign to read only property '{key}'"
  | notExtensible key => s!"Cannot add property '{key}', object is not extensible"
  | linkFixed => "Cannot change prototype of a non-extensible object"
  | invalidKey shown => s!"Invalid property key: {shown}"
  | notDescriptor shown => s!"Not a property descriptor: {shown}"
  | notObject what shown => s!"{what} is not an object: {shown}"
  | badPrototype shown => s!"Object prototype may only be an object or None: {shown}"
  | badReceiver key shown => s!"Cannot set property '{key}' of {shown}"
  | notConstructor shown => s!"{shown} is not a constructor"
  | noConstructionPrototype shown => s!"{shown} has no object prototype"
  | noInstances shown => s!"{shown} has non-object prototype in instanceof check"
  | notFunction key => s!"'{key}' is not a function"
  | raised _ message => message

def text (e : ModelError) : String :=
  errorText e.kind.name e.message

end ModelError

def userErrorName : String := "UserError"

inductive Failure
  | model (error : ModelError)
  | user (message : String)
  | unbound (name : String)
  /-- A getter, setter or initializer that is no function was to run. -/
  | notCallable
  | badOperands
  /-- A list, a dict or something with one in it was to be a key of a dict. -/
  | badDictKey
  /-- Something that is no record was taken for one. -/
  | notRecord
  | exhausted
deriving DecidableEq, Repr

end ObjectModel
