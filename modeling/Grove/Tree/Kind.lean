import Grove.Text.Basic

/-!
# Kinds of nodes
-/
namespace Grove

/-- What a node holds: one of three scalars, children by position, or children by key. -/
inductive Kind where
  | number
  | string
  | boolean
  | list
  | level
  deriving DecidableEq

namespace Kind

def name : Kind → Text
  | .number => "number"
  | .string => "string"
  | .boolean => "boolean"
  | .list => "list"
  | .level => "level"

def all : List Kind :=
  [.number, .string, .boolean, .list, .level]

def ofName? (word : Text) : Option Kind :=
  all.find? fun kind => kind.name = word

def isScalar : Kind → Bool
  | .list | .level => false
  | _ => true

theorem ofName?_name (kind : Kind) : ofName? kind.name = some kind := by
  cases kind <;> decide

end Kind

end Grove
