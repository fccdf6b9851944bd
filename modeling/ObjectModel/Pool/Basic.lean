import ObjectModel.Heap.Basic

/-!
The lists, dicts and descriptors that values name, each by its number. None of them changes once it
is made. The pool also knows which descriptor stands for which own property, so that a property
read twice yields the same descriptor.
-/

namespace ObjectModel

structure Pool where
  floats : Nat := 0
  lists : Array (List Value) := #[]
  dicts : Array (List (Value × Value)) := #[]
  descriptors : Array Descriptor := #[]
  /-- For each object the numbers of the descriptors that stand for its properties, by key. -/
  installed : Array (List (String × Nat)) := #[]
deriving Inhabited

namespace Pool

def list (p : Pool) (id : Nat) : List Value :=
  p.lists[id]?.getD []

def dict (p : Pool) (id : Nat) : List (Value × Value) :=
  p.dicts[id]?.getD []

def descriptor? (p : Pool) (id : Nat) : Option Descriptor :=
  p.descriptors[id]?

def size (p : Pool) : Nat :=
  p.lists.size + p.dicts.size + p.descriptors.size

def addFloat (p : Pool) : Pool :=
  { p with floats := p.floats + 1 }

def addList (p : Pool) (items : List Value) : Pool :=
  { p with lists := p.lists.push items }

def addDict (p : Pool) (entries : List (Value × Value)) : Pool :=
  { p with dicts := p.dicts.push entries }

def fillDict (p : Pool) (id : Nat) (entries : List (Value × Value)) : Pool :=
  { p with dicts := p.dicts.setIfInBounds id entries }

def addDescriptor (p : Pool) (d : Descriptor) : Pool :=
  { p with descriptors := p.descriptors.push d }

def modifyInstalled (p : Pool) (o : ObjectId)
    (f : List (String × Nat) → List (String × Nat)) : Pool :=
  { p with installed := (p.installed.rightpad (o + 1) []).modify o f }

def install (p : Pool) (o : ObjectId) (key : String) (id : Nat) : Pool :=
  p.modifyInstalled o fun entries => (key, id) :: entries.filter (·.1 != key)

def uninstall (p : Pool) (o : ObjectId) (key : String) : Pool :=
  p.modifyInstalled o fun entries => entries.filter (·.1 != key)

def uninstallAll (p : Pool) (o : ObjectId) : Pool :=
  p.modifyInstalled o fun _ => []

def installed? (p : Pool) (o : ObjectId) (key : String) : Option Nat :=
  p.installed[o]?.bind (·.lookup key)

end Pool

end ObjectModel
