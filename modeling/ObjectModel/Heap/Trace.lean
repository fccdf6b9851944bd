import ObjectModel.Heap.Change

/-!
What a computation leaves behind: the changes of the heap, the lines of the log and the refusals
that were passed over, in order.
-/

namespace ObjectModel

inductive LogEntry
  | relinked (o prototype : String) (epoch : Nat)
  | cycleRejected (o : String)
  | definedOwn (o key descriptor : String)
  | writeDropped (message : String)
  | createdConstructor (constructor : String)
  | invoked (constructor : String)
deriving DecidableEq, Repr

namespace LogEntry

def topic : LogEntry → String
  | relinked .. | cycleRejected _ => "objects"
  | definedOwn .. => "descriptors"
  | writeDropped _ => "resolver"
  | createdConstructor _ | invoked _ => "constructors"

def message : LogEntry → String
  | relinked o prototype epoch => s!"Relinked {o} to {prototype} (epoch {epoch})"
  | cycleRejected o => s!"Rejected cyclic relink of {o}"
  | definedOwn o key descriptor => s!"define_own {o}.{key} -> {descriptor}"
  | writeDropped message => s!"Write dropped: {message}"
  | createdConstructor constructor => s!"Created constructor {constructor}"
  | invoked constructor => s!"Invoked {constructor}"

def line (entry : LogEntry) : String :=
  s!"DEBUG protochain.{entry.topic}: {entry.message}"

end LogEntry

inductive Event
  | changed (change : Change)
  | logged (entry : LogEntry)
  /-- A refusal that a realm without strictness did not raise. -/
  | condoned (error : ModelError)

namespace Event

def entry? : Event → Option LogEntry
  | logged entry => some entry
  | _ => none

end Event

namespace Heap

def after (h : Heap) : Event → Heap
  | .changed change => h.apply change
  | _ => h

def replay (events : List Event) : Heap :=
  events.foldl after {}

end Heap

end ObjectModel
