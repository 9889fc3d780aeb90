import Grove.Text.Digit
import Grove.Tree.Basic

/-!
# Writing JSON

Without indentation a document is one line with a blank after each separator; with indentation every
item and every entry has its own line, indented by its depth. Empty containers are always closed at
once. Whole numbers are written without a point. Text is written as it is but for quotes,
backslashes and controls.
-/
namespace Grove.Json

def escapeChar (c : CodePoint) : List CodePoint :=
  if c = '"' then ['\\', '"']
  else if c = '\\' then ['\\', '\\']
  else if c = '\n' then ['\\', 'n']
  else if c = '\r' then ['\\', 'r']
  else if c = '\t' then ['\\', 't']
  else if c = '\x08' then ['\\', 'b']
  else if c = '\x0c' then ['\\', 'f']
  else if c.toNat < 32 then '\\' :: 'u' :: Text.paddedDigits 16 4 c.toNat
  else [c]

def stringChars (s : Text) : List CodePoint :=
  ↑ '"' :: s.toList.flatMap escapeChar ++ [CodePoint.scalar '"']

/-- A number: in digits if it is whole, else in its shortest text. -/
def numberChars (x : Binary64) : List CodePoint :=
  match x with
  | .nan => Text.toList "NaN"
  | .infinite false => Text.toList "Infinity"
  | .infinite true => Text.toList "-Infinity"
  | x =>
    match x.toInt? with
    | some n => Text.signedDecimal n
    | none => x.chars

def gap (indent : Int) (depth : Nat) : List CodePoint :=
  if indent = 0 then [] else '\n' :: List.replicate (indent * depth).toNat ' '

def separator (indent : Int) (depth : Nat) : List CodePoint :=
  if indent = 0 then [',', ' '] else ',' :: gap indent depth

mutual

def treeChars (indent : Int) (depth : Nat) : Tree → List CodePoint
  | .number x => numberChars x
  | .string s => stringChars s
  | .boolean true => Text.toList "true"
  | .boolean false => Text.toList "false"
  | .list [] => ['[', ']']
  | .list (t :: ts) =>
    ↑ '[' :: gap indent (depth + 1) ++ treeChars indent (depth + 1) t ++
      itemsChars indent (depth + 1) ts ++ gap indent depth ++ [CodePoint.scalar ']']
  | .level [] => [CodePoint.scalar '\x7b', '\x7d']
  | .level ((k, t) :: es) =>
    ↑ '\x7b' :: gap indent (depth + 1) ++ stringChars k ++ [CodePoint.scalar ':', ' '] ++
      treeChars indent (depth + 1) t ++
      entriesChars indent (depth + 1) es ++ gap indent depth ++ [CodePoint.scalar '\x7d']

def itemsChars (indent : Int) (depth : Nat) : List Tree → List CodePoint
  | [] => []
  | t :: ts => separator indent depth ++ treeChars indent depth t ++ itemsChars indent depth ts

def entriesChars (indent : Int) (depth : Nat) : List (Text × Tree) → List CodePoint
  | [] => []
  | (k, t) :: es =>
    separator indent depth ++ stringChars k ++ [CodePoint.scalar ':', ' '] ++
      treeChars indent depth t ++
      entriesChars indent depth es

end

def write (indent : Int) (t : Tree) : Text :=
  Text.ofList (treeChars indent 0 t)

end Grove.Json
