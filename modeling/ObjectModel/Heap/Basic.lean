import ObjectModel.Table

/-!
The heap of records and the walks along their prototype links. A chain has at most as many members
as the heap has records, which bounds every walk. A record made by hand may be linked to a value
that is no object; such a link has no place in the walks, and `strayEnd?` tells where one is met.
-/

namespace ObjectModel

structure Constructor where
  name : Value
  initializer : Option Value
deriving DecidableEq, Inhabited

structure Record where
  /-- An object, or `none` for no link; a record made by hand may have any value here. -/
  link : Value
  table : Table := .empty
  constructor? : Option Constructor := none
  /-- Whether the record was allocated by the realm rather than made by hand. -/
  counted : Bool := true
deriving Inhabited

structure Heap where
  records : Array Record := #[]
  epoch : Nat := 0
deriving Inhabited

namespace Heap

def size (h : Heap) : Nat :=
  h.records.size

/-- The number of records that the realm has allocated, whether they are in use or not. -/
def objectCount (h : Heap) : Nat :=
  h.records.countP (·.counted)

def link (h : Heap) (o : ObjectId) : Value :=
  (h.records[o]?.map (·.link)).getD .none

def prototype (h : Heap) (o : ObjectId) : Option ObjectId :=
  match h.link o with
  | .object p => some p
  | _ => none

def strayLink? (h : Heap) (o : ObjectId) : Option Value :=
  match h.link o with
  | .object _ | .none => none
  | v => some v

def table (h : Heap) (o : ObjectId) : Table :=
  (h.records[o]?.map (·.table)).getD .empty

def constructor? (h : Heap) (o : ObjectId) : Option Constructor :=
  h.records[o]?.bind (·.constructor?)

def object? (h : Heap) : Value → Option ObjectId
  | .object o => if o < h.size then some o else none
  | _ => none

def chain (h : Heap) (start : Option ObjectId) : List ObjectId :=
  go h.size start
where
  go : Nat → Option ObjectId → List ObjectId
    | 0, _ | _, none => []
    | steps + 1, some o => o :: go steps (h.prototype o)

/-- The value that the chain from `start` ends at, where that is neither an object nor `none`. -/
def strayEnd? (h : Heap) (start : Option ObjectId) : Option Value :=
  (h.chain start).findSome? h.strayLink?

def findProperty (h : Heap) (start : Option ObjectId) (key : String) :
    Option (ObjectId × Descriptor) :=
  go h.size start
where
  go : Nat → Option ObjectId → Option (ObjectId × Descriptor)
    | 0, _ | _, none => none
    | steps + 1, some o =>
      match (h.table o).lookup key with
      | some d => some (o, d)
      | none => go steps (h.prototype o)

def reaches (h : Heap) (start : Option ObjectId) (ancestor : ObjectId) : Bool :=
  go h.size start
where
  go : Nat → Option ObjectId → Bool
    | 0, _ | _, none => false
    | steps + 1, some o => o == ancestor || go steps (h.prototype o)

def ownedAbove (h : Heap) (o : ObjectId) (key : String) : Bool :=
  go (h.size - 1) (h.prototype o)
where
  go : Nat → Option ObjectId → Bool
    | 0, _ | _, none => false
    | steps + 1, some o => (h.table o).contains key || go steps (h.prototype o)

def isPrototypeOf (h : Heap) (ancestor o : ObjectId) : Bool :=
  h.reaches (h.prototype o) ancestor

def constructionPrototype (h : Heap) (o : ObjectId) : Option ObjectId :=
  match (h.table o).lookup "prototype" with
  | some { slot := .value value _, .. } => h.object? value
  | _ => none

end Heap

end ObjectModel
