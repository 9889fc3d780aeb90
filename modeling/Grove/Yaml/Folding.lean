import Grove.Yaml.Style

/-!
# Folding of text

Text is written from a column on, and a line that has gone beyond the width is ended at the next
single space, or after an escape, and continued at an indentation. Without folding the text stays on
its line.
-/
namespace Grove.Yaml

/-- The column beyond which a line is ended. -/
def width : Nat := 80

/-- Where text goes on after a line end, and whether lines may be ended at all. -/
structure Folding where
  indent : Nat
  fold : Bool

def Folding.newLine (f : Folding) : List CodePoint :=
  '\n' :: List.replicate f.indent ' '

def foldPlain (f : Folding) : Nat → Nat → List CodePoint → List CodePoint
  | spaces, _, [] => List.replicate spaces ' '
  | spaces, column, c :: cs =>
    if c = ' ' then foldPlain f (spaces + 1) column cs
    else if spaces = 1 && width < column && f.fold then
      f.newLine ++ c :: foldPlain f 0 (f.indent + 1) cs
    else List.replicate spaces (CodePoint.scalar ' ') ++ c :: foldPlain f 0 (column + spaces + 1) cs

/-- What single-quoted text is behind: its opening quote, spaces that are due, line ends, or
text. -/
inductive Behind where
  | quote
  | spaces (n : Nat) (first : Bool)
  | breaks
  | text

/-- One character of single-quoted text that is no space and no line end. -/
def singleChar (c : CodePoint) : List CodePoint :=
  if c = '\'' then ['\'', '\''] else [c]

/-- The first or a further line end in a row; a first line feed is written twice. -/
def singleBreak (first : Bool) (c : CodePoint) : List CodePoint :=
  if first && c = '\n' then ['\n', '\n'] else [c]

def foldSingle (f : Folding) : Behind → Nat → List CodePoint → List CodePoint
  | .spaces n _, _, [] => List.replicate n ' '
  | .breaks, _, [] => List.replicate f.indent ' '
  | _, _, [] => []
  | behind, column, c :: cs =>
    if c = ' ' then
      match behind with
      | .quote => foldSingle f (.spaces 1 true) column cs
      | .spaces n first => foldSingle f (.spaces (n + 1) first) column cs
      | .breaks => List.replicate f.indent (CodePoint.scalar ' ') ++
          foldSingle f (.spaces 1 false) f.indent cs
      | .text => foldSingle f (.spaces 1 false) column cs
    else if isTextBreak c then
      match behind with
      | .spaces n _ => List.replicate n (CodePoint.scalar ' ') ++ singleBreak true c ++
          foldSingle f .breaks 0 cs
      | .breaks => singleBreak false c ++ foldSingle f .breaks 0 cs
      | _ => singleBreak true c ++ foldSingle f .breaks 0 cs
    else
      let (before, column) :=
        match behind with
        | .spaces n first =>
          if n = 1 && !first && width < column && f.fold then (f.newLine, f.indent)
          else (List.replicate n ' ', column + n)
        | .breaks => (List.replicate f.indent ' ', f.indent)
        | _ => ([], column)
      before ++ singleChar c ++ foldSingle f .text (column + (singleChar c).length) cs

def needsEscape (c : CodePoint) : Bool :=
  let n := c.toNat
  c = '"' || c = '\\' || n = 0xFEFF || n = 0x2028 || n = 0x2029 ||
    !((0x20 ≤ n && n ≤ 0x7E) || (0xA0 ≤ n && n ≤ 0xD7FF) || (0xE000 ≤ n && n ≤ 0xFFFD))

def capitalHex (places n : Nat) : List CodePoint :=
  (Text.paddedDigits 16 places n).map CodePoint.toUpper

/-- The escape of a character: a letter where there is one, else its number. -/
def escape (c : CodePoint) : List CodePoint :=
  let n := c.toNat
  '\\' ::
    if n = 0 then ['0']
    else if n = 7 then ['a']
    else if n = 8 then ['b']
    else if n = 9 then ['t']
    else if n = 10 then ['n']
    else if n = 11 then ['v']
    else if n = 12 then ['f']
    else if n = 13 then ['r']
    else if n = 27 then ['e']
    else if c = '"' || c = '\\' then [c]
    else if n = 0x85 then ['N']
    else if n = 0x2028 then ['L']
    else if n = 0x2029 then ['P']
    else if n ≤ 0xFF then 'x' :: capitalHex 2 n
    else if n ≤ 0xFFFF then 'u' :: capitalHex 4 n
    else 'U' :: capitalHex 8 n

/-- The end of a line inside double quotes; a space that comes next is kept by a backslash. -/
def escapedNewLine (f : Folding) (next : Option CodePoint) : List CodePoint :=
  ↑ '\\' :: f.newLine ++
    (if next = some (CodePoint.scalar ' ') then [CodePoint.scalar '\\'] else [])

/-- The column behind such a line end. -/
def columnAfter (f : Folding) (next : Option CodePoint) : Nat :=
  f.indent + (if next = some (CodePoint.scalar ' ') then 1 else 0)

/-- Double-quoted text from a column on, up to the closing quote. A line ends before a space, or
next to an escape, but neither before the second nor behind the last but one character. -/
def foldDouble (f : Folding) : Bool → Bool → Nat → List CodePoint → List CodePoint
  | _, _, _, [] => []
  | first, afterEscape, column, c :: cs =>
    let mayEnd := !first && !cs.isEmpty && f.fold
    if needsEscape c then
      let column := column + (escape c).length
      if mayEnd && width + 1 < column then
        escape c ++ escapedNewLine f cs.head? ++ foldDouble f false true (columnAfter f cs.head?) cs
      else escape c ++ foldDouble f false true column cs
    else if mayEnd && (c = ' ' || afterEscape) && width < column then
      escapedNewLine f (some c) ++ c :: foldDouble f false false (columnAfter f (some c) + 1) cs
    else c :: foldDouble f false false (column + 1) cs

def styledText (f : Folding) (style : Style) (column : Nat)
    (cs : List CodePoint) : List CodePoint :=
  match style with
  | .plain => foldPlain f 0 column cs
  | .single => ↑ '\'' :: foldSingle f .quote (column + 1) cs ++ [CodePoint.scalar '\'']
  | .double => ↑ '"' :: foldDouble f true false (column + 1) cs ++ [CodePoint.scalar '"']

end Grove.Yaml
