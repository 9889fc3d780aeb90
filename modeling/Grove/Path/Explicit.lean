import Grove.Path.Address
import Grove.Value.Equality

/-!
# Explicit paths

An explicit path is built from parts that are segments already, from text, which becomes a key as it
stands, and from whole numbers, which become positions. It is extended by keys and positions at its
end.
-/
namespace Grove.ExplicitPath

def position (v : Value) : Except Error Value :=
  match v with
  | .int n =>
    if n < 0 then
      match intText n with
      | .error fault => .error (.text fault)
      | .ok _ => .error (.positionNegative n)
    else .ok (.index n.toNat)
  | v => .error (.positionType v.typeName)

def part (v : Value) : Except Error Value :=
  match v with
  | .key name => .ok (.key name)
  | .index n => .ok (.index n)
  | .text name => .ok (.key (.text name))
  | .int n => position (.int n)
  | v => .error (.notSegment v.typeName)

def ofParts (parts : List Value) : Except Error (List Value) :=
  parts.mapM part

def ofText (text : Value) (args : List Value) : Except Error (List Value) := do
  let segments ←
    match text with
    | .text template => (Address.text template).segments args
    | v => Address.unusableSegments v args
  return segments.map fun s =>
    match s with
    | .key name => .key (.text name)
    | .index n => .index n

inductive Step where
  | key (name : Value)
  | index (position : Value)
  | parent

def extend (parts : List Value) : Step → Except Error (List Value)
  | .key name => .ok (parts ++ [.key name])
  | .index n => do return parts ++ [← position n]
  | .parent => .ok parts.dropLast

/-- How many different paths there are among two; fails if one holds a part that cannot be compared
by content. -/
def distinct (a b : List Value) : Except Error Nat :=
  match (Value.path a).unhashable?.or (Value.path b).unhashable? with
  | some typeName => .error (.unhashable typeName)
  | none => .ok (if (Value.path a).same (.path b) then 1 else 2)

end Grove.ExplicitPath
