import Grove.Tree.Basic
import Grove.Yaml.Folding

/-!
# Writing YAML

Containers are written as blocks: each item behind a dash, each entry as key, colon and value. The
items of a list that is the value of a key are not indented further than the key. A key that is
empty, long or of more than one line stands behind a question mark. Empty containers are written in
brackets.
-/
namespace Grove.Yaml

/-- The step of indentation: the one asked for if it is from 2 to 9, else 2. -/
def indentStep (indent : Int) : Nat :=
  if 1 < indent ∧ indent < 10 then indent.toNat else 2

/-- A number: in digits if it is whole, else in its shortest text with a point in it. -/
def numberChars (x : Binary64) : List CodePoint :=
  match x with
  | .nan => Text.toList ".nan"
  | .infinite false => Text.toList ".inf"
  | .infinite true => Text.toList "-.inf"
  | x =>
    match x.toInt? with
    | some n => Text.signedDecimal n
    | none =>
      let cs := x.chars
      if cs.contains '.' then cs
      else cs.flatMap fun c => if c = CodePoint.scalar 'e' then ['.', '0', 'e'] else [c]

/-- A text at a column, continued at an indentation if it does not fit. -/
def textChars (indent column : Nat) (cs : List CodePoint) : List CodePoint :=
  styledText ⟨indent, true⟩ (.ofText cs) column cs

/-- The end of a line and the indentation of the next one. -/
def lineAt (column : Nat) : List CodePoint :=
  '\n' :: List.replicate column ' '

def simpleKeyChars (k : Text) : List CodePoint :=
  styledText ⟨0, false⟩ (.ofText k.toList) 0 k.toList

/-- What a tree is written behind: nothing, a mark of one character, or the colon of a simple key,
which stands at column `last`. -/
inductive Place where
  | root
  | mark
  | key (last : Nat)

/-- The space in front of a scalar or an empty container, with the column where it starts. -/
def Place.scalarStart (column : Nat) : Place → List CodePoint × Nat
  | .root => ([], column)
  | .mark => ([' '], column + 2)
  | .key last => ([' '], last + 2)

/-- What is written in front of the first item of a list, with the column of its items. -/
def Place.listStart (step column : Nat) : Place → List CodePoint × Nat
  | .root => ([], column)
  | .mark => (List.replicate (step - 1) ' ', column + step)
  | .key _ => (lineAt column, column)

/-- What is written in front of the first entry of a level, with the column of its entries. -/
def Place.levelStart (step column : Nat) : Place → List CodePoint × Nat
  | .root => ([], column)
  | .mark => (List.replicate (step - 1) ' ', column + step)
  | .key _ => (lineAt (column + step), column + step)

/-- A key with its colon, or behind a question mark with the colon on the next line, and the place
of its value. -/
def keyChars (step column : Nat) (k : Text) : List CodePoint × Place :=
  if isSimpleKey k.toList then
    let key := simpleKeyChars k
    (key ++ [CodePoint.scalar ':'], .key (column + key.length))
  else (↑ '?' :: ↑ ' ' :: textChars (column + step) (column + 2) k.toList ++ lineAt column ++
    [CodePoint.scalar ':'], .mark)

mutual

def treeChars (step column : Nat) (place : Place) : Tree → List CodePoint
  | .list (t :: ts) =>
    let (start, inner) := place.listStart step column
    start ++ ↑ '-' :: treeChars step inner .mark t ++ itemsChars step inner ts
  | .level ((k, t) :: es) =>
    let (start, inner) := place.levelStart step column
    let (key, value) := keyChars step inner k
    start ++ key ++ treeChars step inner value t ++ entriesChars step inner es
  | .list [] => (place.scalarStart column).1 ++ [CodePoint.scalar '[', ']']
  | .level [] => (place.scalarStart column).1 ++ [CodePoint.scalar '\x7b', '\x7d']
  | .string s =>
    let (start, first) := place.scalarStart column
    start ++ textChars (column + step) first s.toList
  | .number x => (place.scalarStart column).1 ++ numberChars x
  | .boolean true => (place.scalarStart column).1 ++ Text.toList "true"
  | .boolean false => (place.scalarStart column).1 ++ Text.toList "false"

def itemsChars (step column : Nat) : List Tree → List CodePoint
  | [] => []
  | t :: ts => lineAt column ++ ↑ '-' :: treeChars step column .mark t ++ itemsChars step column ts

def entriesChars (step column : Nat) : List (Text × Tree) → List CodePoint
  | [] => []
  | (k, t) :: es =>
    let (key, value) := keyChars step column k
    lineAt column ++ key ++ treeChars step column value t ++ entriesChars step column es

end

def isWrittenPlain : Tree → Bool
  | .string s => Style.ofText s.toList = .plain
  | .number _ | .boolean _ => true
  | _ => false

def write (indent : Int) (t : Tree) : Text :=
  Text.ofList (treeChars (indentStep indent) 0 .root t ++
    if isWrittenPlain t then Text.toList "\n...\n" else ['\n'])

end Grove.Yaml
