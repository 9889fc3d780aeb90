import Grove.Text.Digit
import Grove.Yaml.Cursor

/-!
# Presentations of text

Reading the three ways in which text stands in a document: plain, between quotes, and as an indented
block. In plain and quoted text a single line end counts as a space, and each further one as itself.
In a block each line end stays, or is folded in the same way where neither line is indented further.
-/
namespace Grove.Yaml

/-- A line end between two lines of running text, with the further ends behind it, as text. -/
def foldBreaks (first : CodePoint) (others : List CodePoint) : List CodePoint :=
  if first ≠ '\n' then first :: others else if others.isEmpty then [' '] else others

/-! ### Plain text -/

/-- Line ends and spaces after the end of a plain line, up to the next text; `none` at a marker. -/
def plainBreaks : Nat → Cursor → Option (List CodePoint) × Cursor
  | 0, c => (some [], c)
  | fuel + 1, c =>
    if c.sees ' ' then plainBreaks fuel c.advance
    else
      match c.lineBreak? with
      | none => (some [], c)
      | some (x, c) =>
        if c.atDocumentMarker then (none, c)
        else
          let (others, c) := plainBreaks fuel c
          (others.map (x :: ·), c)

/-- What stands between two parts of plain text, and whether a line ended there. Nothing means that
the text is over. -/
def plainSpaces (c : Cursor) : List CodePoint × Bool × Cursor :=
  let (spaces, c) := c.span (· = ' ')
  match c.lineBreak? with
  | none => (spaces, false, c)
  | some (x, c) =>
    if c.atDocumentMarker then ([], true, c)
    else
      match plainBreaks c.rest.length c with
      | (some others, c) => (foldBreaks x others, true, c)
      | (none, c) => ([], true, c)

/-- How many characters of plain text stand in a row. -/
def plainRun (inFlow : Bool) : List CodePoint → Nat
  | [] => 0
  | x :: xs =>
    if isBlank x then 0
    else if x = ':' &&
      (endsWord xs.head? ||
        (inFlow && (xs.head?.any fun y => (Text.toList ",[]\x7b\x7d").contains y)))
    then 0
    else if inFlow && isFlowEnd x then 0
    else plainRun inFlow xs + 1

/-- Plain text whose lines are indented by at least `indent`, with the spaces that precede it; the
flag tells whether the last thing read was a line end. -/
def plainText (inFlow : Bool) (indent : Int) :
    Nat → Bool → List CodePoint → Cursor → List CodePoint × Bool × Cursor
  | 0, ended, _, c => ([], ended, c)
  | fuel + 1, ended, spaces, c =>
    if c.sees '#' then ([], ended, c)
    else
      let n := plainRun inFlow c.rest
      if n = 0 then ([], ended, c)
      else
        let run := c.rest.take n
        let (between, broke, next) := plainSpaces (c.forward n)
        if between.isEmpty || next.sees '#' || (!inFlow && (next.column : Int) < indent) then
          (spaces ++ run, broke, next)
        else
          let (more, ended, last) := plainText inFlow indent fuel broke between next
          (spaces ++ run ++ more, ended, last)

/-! ### Quoted text -/

def escaped? (x : CodePoint) : Option CodePoint :=
  if x = '0' then some '\x00'
  else if x = 'a' then some '\x07'
  else if x = 'b' then some '\x08'
  else if x = 't' || x = '\t' then some '\t'
  else if x = 'n' then some '\n'
  else if x = 'v' then some '\x0b'
  else if x = 'f' then some '\x0c'
  else if x = 'r' then some '\r'
  else if x = 'e' then some '\x1b'
  else if x = ' ' || x = '"' || x = '\\' || x = '/' then some x
  else if x = 'N' then some '\x85'
  else if x = '_' then some '\xa0'
  else if x = 'L' then some '\u2028'
  else if x = 'P' then some '\u2029'
  else none

/-- How many hexadecimal digits follow a letter behind a backslash. -/
def escapeWidth? (x : CodePoint) : Option Nat :=
  if x = 'x' then some 2 else if x = 'u' then some 4 else if x = 'U' then some 8 else none

def charOfCode? (n : Nat) : Option CodePoint :=
  if n < 0x110000 then some (CodePoint.ofNat n) else none

/-- Line ends inside quotes, with the blanks before and behind them; `none` at a marker. -/
def quotedBreaks : Nat → Cursor → Option (List CodePoint × Cursor)
  | 0, _ => none
  | fuel + 1, c =>
    if c.atDocumentMarker then none
    else
      let c := c.skip fun x => x = ' ' || x = '\t'
      match c.lineBreak? with
      | none => some ([], c)
      | some (x, c) => do
        let (others, c) ← quotedBreaks fuel c
        return (x :: others, c)

def quotedText (double : Bool) : Nat → Cursor → Option (List CodePoint × Cursor)
  | 0, _ => none
  | fuel + 1, c =>
    match c.rest with
    | [] => none
    | x :: _ =>
      if x = ' ' || x = '\t' then
        let (spaces, next) := c.span fun y => y = ' ' || y = '\t'
        match next.lineBreak? with
        | some (y, next) => do
          let (others, next) ← quotedBreaks (next.rest.length + 1) next
          let (more, last) ← quotedText double fuel next
          return (foldBreaks y others ++ more, last)
        | none => do
          let (more, last) ← quotedText double fuel next
          return (spaces ++ more, last)
      else if isBreak x then
        match c.lineBreak? with
        | none => none
        | some (y, next) => do
          let (others, next) ← quotedBreaks (next.rest.length + 1) next
          let (more, last) ← quotedText double fuel next
          return (foldBreaks y others ++ more, last)
      else if !double && x = '\'' then
        if c.peekAt 1 = some (CodePoint.scalar '\'') then do
          let (more, last) ← quotedText double fuel (c.forward 2)
          return ('\'' :: more, last)
        else some ([], c.advance)
      else if double && x = '"' then some ([], c.advance)
      else if double && x = '\\' then
        let c := c.advance
        match c.peek with
        | none => none
        | some y =>
          match escaped? y, escapeWidth? y with
          | some z, _ => do
            let (more, last) ← quotedText double fuel c.advance
            return (z :: more, last)
          | none, some width => do
            let ds := (c.advance.rest.take width)
            if ds.length < width then none
            let z ← charOfCode? (← Text.hexNumber? ds)
            let (more, last) ← quotedText double fuel (c.advance.forward width)
            return (z :: more, last)
          | none, none =>
            match c.lineBreak? with
            | none => none
            | some (_, next) => do
              let (others, next) ← quotedBreaks (next.rest.length + 1) next
              let (more, last) ← quotedText double fuel next
              return (others ++ more, last)
      else do
        let (more, last) ← quotedText double fuel c.advance
        return (x :: more, last)

/-! ### Blocks of lines -/

/-- What becomes of the line ends at the end of a block. -/
inductive Chomping where
  | strip
  | clip
  | keep

/-- Line ends and spaces before the first line of a block that is not empty, and the widest
indentation seen there. -/
def blockIndentation : Nat → Nat → Cursor → List CodePoint × Nat × Cursor
  | 0, widest, c => ([], widest, c)
  | fuel + 1, widest, c =>
    if c.sees ' ' then blockIndentation fuel (max widest c.advance.column) c.advance
    else
      match c.lineBreak? with
      | none => ([], widest, c)
      | some (x, c) =>
        let (others, widest, c) := blockIndentation fuel widest c
        (x :: others, widest, c)

def skipToColumn (column : Nat) : Nat → Cursor → Cursor
  | 0, c => c
  | fuel + 1, c => if c.column < column && c.sees ' ' then skipToColumn column fuel c.advance else c

/-- Empty lines of a block, and the cursor at the indentation of the line behind them. -/
def blockBreaks (indent : Nat) : Nat → Cursor → List CodePoint × Cursor
  | 0, c => ([], c)
  | fuel + 1, c =>
    let c := skipToColumn indent indent c
    match c.lineBreak? with
    | none => ([], c)
    | some (x, c) =>
      let (others, c) := blockBreaks indent fuel c
      (x :: others, c)

def startsText (c : Cursor) : Bool :=
  !(c.sees ' ' || c.sees '\t')

/-- The lines of a block from the cursor on, behind the line ends that are due before them; gives
the text and the line ends that are left over at its end, the one of the last line apart. -/
def blockLines (folded : Bool) (indent : Nat) :
    Nat → List CodePoint → Cursor → List CodePoint × List CodePoint × List CodePoint × Cursor
  | 0, breaks, c => ([], [], breaks, c)
  | fuel + 1, breaks, c =>
    let (line, next) := c.span fun x => !isBreak x
    let (ending, next) :=
      match next.lineBreak? with
      | some (x, next) => ([x], next)
      | none => ([], next)
    let (others, after) := blockBreaks indent (next.rest.length + 1) next
    if after.column = indent && after.peek.isSome then
      let between :=
        if folded && ending = [CodePoint.scalar '\n'] && startsText c && startsText after then
          if others.isEmpty then [CodePoint.scalar ' '] else []
        else ending
      let (more, ending, left, last) := blockLines folded indent fuel others after
      (breaks ++ line ++ between ++ more, ending, left, last)
    else (breaks ++ line, ending, others, after)

/-- The digit that gives the indentation of a block, which is not zero. -/
def blockDigit? (c : Cursor) : Option (Nat × Cursor) :=
  match c.peek with
  | some x => if Text.isDigit x then some (x.toNat - '0'.toNat, c.advance) else none
  | none => none

/-- The sign that says what becomes of the line ends at the end of a block. -/
def blockSign? (c : Cursor) : Option (Chomping × Cursor) :=
  if c.sees '+' then some (.keep, c.advance)
  else if c.sees '-' then some (.strip, c.advance)
  else none

/-- The header of a block behind its first character: what becomes of the last line ends, and the
indentation if it is given. -/
def blockHeader (c : Cursor) : Option (Chomping × Option Nat × Cursor) :=
  let (chomping, digit, c) :=
    match blockSign? c with
    | some (chomping, c) =>
      match blockDigit? c with
      | some (d, c) => (chomping, some d, c)
      | none => (chomping, none, c)
    | none =>
      match blockDigit? c with
      | some (d, c) =>
        match blockSign? c with
        | some (chomping, c) => (chomping, some d, c)
        | none => (.clip, some d, c)
      | none => (.clip, none, c)
  if digit = some 0 || !endsField c.peek then none else some (chomping, digit, c)

def skipComment (c : Cursor) : Option Cursor :=
  let c := c.skipSpaces
  let c := if c.sees '#' then c.skipLine else c
  if endsLine c.peek then
    some (match c.lineBreak? with
      | some (_, c) => c
      | none => c)
  else none

/-- A block of lines from behind its first character, inside a collection indented by `indent`. -/
def blockText (folded : Bool) (indent : Int) (c : Cursor) : Option (List CodePoint × Cursor) := do
  let (chomping, digit, c) ← blockHeader c
  let c ← skipComment c
  let least := max 1 (indent + 1).toNat
  let (breaks, column, c) :=
    match digit with
    | none =>
      let (breaks, widest, c) := blockIndentation c.rest.length 0 c
      (breaks, max least widest, c)
    | some d =>
      let column := least + d - 1
      let (breaks, c) := blockBreaks column (c.rest.length + 1) c
      (breaks, column, c)
  let (body, ending, left, last) :=
    if c.column = column && c.peek.isSome then blockLines folded column c.rest.length breaks c
    else ([], [], breaks, c)
  return (match chomping with
    | .strip => (body, last)
    | .clip => (body ++ ending, last)
    | .keep => (body ++ ending ++ left, last))

end Grove.Yaml
