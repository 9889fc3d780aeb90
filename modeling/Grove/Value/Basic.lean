import Grove.Value.Decimal

/-!
# Plain values

Plain values are what documents are read into, what callers hand in to be stored, and what templates
are filled with. A tree holds only some of them. Containers that occur in several places, or inside
themselves, are kept once in the table of a `Document` and referred to by their position there.
-/
namespace Grove

inductive Container where
  | list
  | tuple
  | dict
  deriving DecidableEq

/-- A point in time on a calendar date, with the offset of its clock in minutes if it is known. -/
structure Moment where
  year : Nat
  month : Nat
  day : Nat
  hour : Nat
  minute : Nat
  second : Nat
  microsecond : Nat
  offset : Option Int
  deriving DecidableEq

/-- An object of a class of which no more is known than how it is told, whether it can be a key and
how many parts it has. -/
structure Object where
  /-- Tells the object from all others. -/
  id : Nat
  typeName : Text
  /-- The name of the type, with the library that defines it if it is named with that. -/
  qualifiedName : Text
  text : Text
  description : Text
  hashable : Bool
  size? : Option Nat
  deriving DecidableEq

inductive Value where
  | null
  | boolean (b : Bool)
  | int (n : Int)
  | float (x : Binary64)
  | fraction (numerator : Int) (denominator : Nat)
  | decimal (x : DecimalNumber)
  | imaginary (unit : Nat)
  | text (s : Text)
  | bytes (data : List UInt8)
  | date (year month day : Nat)
  | moment (m : Moment)
  | set
  | object (o : Object)
  | list (items : List Value)
  | tuple (items : List Value)
  | dict (entries : List (Value × Value))
  /-- A container in the table of the document. -/
  | shared (kind : Container) (id : Nat)
  /-- A key segment, whose name is meant to be text. -/
  | key (name : Value)
  | index (position : Nat)
  /-- A path of parts that are each a `key` or an `index`. -/
  | path (parts : List Value)

instance : Inhabited Value := ⟨.null⟩

/-- A value together with the bodies of the containers that it and they refer to. -/
structure Document where
  bodies : Array Value
  root : Value

/-- A value without shared containers. -/
def Document.ofValue (v : Value) : Document :=
  ⟨#[], v⟩

def Container.typeName : Container → Text
  | .list => "list"
  | .tuple => "tuple"
  | .dict => "dict"

namespace Value

/-- The fraction of a numerator and a denominator, in lowest terms. -/
def quotient (n : Int) (d : Nat) : Value :=
  let g := n.natAbs.gcd d
  .fraction (n / g) (d / g)

def typeName : Value → Text
  | .null => "NoneType"
  | .boolean _ => "bool"
  | .int _ => "int"
  | .float _ => "float"
  | .fraction .. => "Fraction"
  | .decimal _ => "Decimal"
  | .imaginary _ => "complex"
  | .text _ => "str"
  | .bytes _ => "bytes"
  | .date .. => "date"
  | .moment _ => "datetime"
  | .set => "set"
  | .object o => o.typeName
  | .list _ => "list"
  | .tuple _ => "tuple"
  | .dict _ => "dict"
  | .shared kind _ => kind.typeName
  | .key _ => "Key"
  | .index _ => "Index"
  | .path _ => "DataPath"

def qualifiedTypeName : Value → Text
  | .decimal _ => "decimal.Decimal"
  | .date .. => "datetime.date"
  | .moment _ => "datetime.datetime"
  | .object o => o.qualifiedName
  | v => v.typeName

/-- A real number as an exact quotient; `none` for everything else and for what is not finite. -/
def ratio? : Value → Option (Int × Nat)
  | .boolean b => some (if b then 1 else 0, 1)
  | .int n => some (n, 1)
  | .float x => x.ratio?
  | .fraction n d => some (n, d)
  | .decimal x => x.ratio?
  | _ => none

def infinity? : Value → Option Bool
  | .float (.infinite negative) => some negative
  | .decimal (.infinite negative) => some negative
  | _ => none

/-- A whole number, where a truth value counts as 0 or 1. -/
def wholeNumber? : Value → Option Int
  | .boolean b => some (if b then 1 else 0)
  | .int n => some n
  | _ => none

mutual

/-- The type of the first part that keeps a value from being a key of a mapping. -/
def unhashable? : Value → Option Text
  | .list _ => some "list"
  | .dict _ => some "dict"
  | .set => some "set"
  | .shared kind _ => some kind.typeName
  | .object o => if o.hashable then none else some o.typeName
  | .tuple items => unhashableIn? items
  | .key name => name.unhashable?
  | .path parts => unhashableIn? parts
  | _ => none

def unhashableIn? : List Value → Option Text
  | [] => none
  | v :: vs => v.unhashable?.or (unhashableIn? vs)

end

mutual

def replaceShared (follow : Container → Nat → Value) : Value → Value
  | .list items => .list (replaceSharedIn follow items)
  | .tuple items => .tuple (replaceSharedIn follow items)
  | .dict entries => .dict (replaceSharedAmong follow entries)
  | .shared kind id => follow kind id
  | v => v

def replaceSharedIn (follow : Container → Nat → Value) : List Value → List Value
  | [] => []
  | v :: vs => v.replaceShared follow :: replaceSharedIn follow vs

def replaceSharedAmong (follow : Container → Nat → Value) : List (Value × Value) →
    List (Value × Value)
  | [] => []
  | (k, v) :: es => (k, v.replaceShared follow) :: replaceSharedAmong follow es

end

end Value

namespace Document

/-- What a reference stands for, with the references inside followed in turn; one back to an
`active` container stays. The fuel bounds the nesting of containers. -/
def follow (bodies : Array Value) : Nat → List Nat → Container → Nat → Value
  | 0, _, kind, id => .shared kind id
  | fuel + 1, active, kind, id =>
    if active.contains id then .shared kind id
    else
      match bodies[id]? with
      | some body => body.replaceShared (follow bodies fuel (id :: active))
      | none => .shared kind id

/-- The root with every container in place, except where one is inside itself. -/
def expanded (d : Document) : Value :=
  d.root.replaceShared (follow d.bodies (d.bodies.size + 1) [])

end Document

end Grove
