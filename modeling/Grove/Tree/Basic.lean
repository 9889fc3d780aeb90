import Grove.Number.Shortest
import Grove.Tree.Entries
import Grove.Tree.Kind
import Grove.Value.Basic

/-!
# Trees

A tree is a number, a text, a truth value, a list of trees, or a level: trees by key, in the order
in which the keys came. Trees are pure values; what nodes hold at a time is told as a tree.
-/
namespace Grove

inductive Tree where
  | number (x : Binary64)
  | string (s : Text)
  | boolean (b : Bool)
  | list (items : List Tree)
  | level (entries : List (Text × Tree))

instance : Inhabited Tree := ⟨.level []⟩

def maxStringLength : Nat := 127

namespace Tree

def kind : Tree → Kind
  | .number _ => .number
  | .string _ => .string
  | .boolean _ => .boolean
  | .list _ => .list
  | .level _ => .level

/-- A number as a plain value: whole ones as whole numbers, if that is asked for. -/
def numberValue (integral : Bool) (x : Binary64) : Value :=
  match if integral then x.toInt? else none with
  | some n => .int n
  | none => .float x

mutual

def toValue (integral : Bool) : Tree → Value
  | .number x => numberValue integral x
  | .string s => .text s
  | .boolean b => .boolean b
  | .list items => .list (itemValues integral items)
  | .level entries => .dict (entryValues integral entries)

def itemValues (integral : Bool) : List Tree → List Value
  | [] => []
  | t :: ts => t.toValue integral :: itemValues integral ts

def entryValues (integral : Bool) : List (Text × Tree) → List (Value × Value)
  | [] => []
  | (k, t) :: es => (.text k, t.toValue integral) :: entryValues integral es

end

mutual

def same : Tree → Tree → Bool
  | .number x, u => match u with | .number y => x = y | _ => false
  | .string s, u => match u with | .string t => s = t | _ => false
  | .boolean a, u => match u with | .boolean b => a = b | _ => false
  | .list ts, u => match u with | .list us => sameAll ts us | _ => false
  | .level es, u => match u with | .level fs => sameEntries es fs | _ => false

def sameAll : List Tree → List Tree → Bool
  | [], [] => true
  | t :: ts, u :: us => t.same u && sameAll ts us
  | _, _ => false

def sameEntries : List (Text × Tree) → List (Text × Tree) → Bool
  | [], [] => true
  | (k, t) :: es, (l, u) :: fs => k = l && t.same u && sameEntries es fs
  | _, _ => false

end

mutual

def count : Tree → Nat
  | .list items => 1 + countAll items
  | .level entries => 1 + countEntries entries
  | _ => 1

def countAll : List Tree → Nat
  | [] => 0
  | t :: ts => t.count + countAll ts

def countEntries : List (Text × Tree) → Nat
  | [] => 0
  | (_, t) :: es => t.count + countEntries es

end

end Tree

end Grove
