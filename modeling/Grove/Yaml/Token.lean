import Grove.Text.Utf8
import Grove.Yaml.Presentation

/-!
# YAML tokens

A document is cut into tokens. Indentation opens and closes block collections. Whether a token
begins a key is known only when the colon behind it is met, so a slot is left in front of each token
that may begin one, and it is noted which slots have to be filled: with the mark of a key, and in
block context with the start of a mapping when the key is indented further than what surrounds it. A
key of this kind stands on one line and takes at most 1024 characters.
-/
namespace Grove.Yaml

/-- How a tag is written: with a handle, or in full. -/
structure TagText where
  handle : Option Text
  suffix : Text

inductive Directive where
  | version (major : Nat)
  | tag (handle start : Text)
  | other

inductive Token where
  | directive (d : Directive)
  | documentStart
  | documentEnd
  | sequenceStart
  | mappingStart
  | blockEnd
  | flowSequenceStart
  | flowSequenceEnd
  | flowMappingStart
  | flowMappingEnd
  | flowEntry
  | entry
  | key
  | value
  | alias (name : Text)
  | anchor (name : Text)
  | tag (t : TagText)
  | scalar (plain : Bool) (text : List CodePoint)
  | finish

/-! ### Names, tags and directives -/

def readName (c : Cursor) : Option (Text × Cursor) :=
  let (name, c) := c.advance.span isNameChar
  let closed := endsWord c.peek || (c.peek.any fun x => (Text.toList "?:,]\x7d%@`").contains x)
  if name.isEmpty || !closed then none else some (Text.ofList name, c)

/-- The bytes that stand as escapes at the head of a text, and the rest. -/
def escapedBytes : List CodePoint → Option (List UInt8 × Nat)
  | '%' :: a :: b :: rest => do
    let n ← Text.hexNumber? [a, b]
    let (more, k) ← escapedBytes rest
    return (UInt8.ofNat n :: more, k + 3)
  | '%' :: _ => none
  | _ => some ([], 0)

def readTagText : Nat → Cursor → Option (List CodePoint × Cursor)
  | 0, _ => none
  | fuel + 1, c =>
    match c.rest with
    | [] => some ([], c)
    | x :: _ =>
      if x = '%' then do
        let (bytes, n) ← escapedBytes c.rest
        let cs ← (Text.decodeUtf8 bytes).toOption
        let (more, c) ← readTagText fuel (c.forward n)
        return (cs ++ more, c)
      else if isTagChar x then do
        let (more, c) ← readTagText fuel c.advance
        return (x :: more, c)
      else some ([], c)

def readSuffix (c : Cursor) : Option (Text × Cursor) := do
  let (cs, next) ← readTagText (c.rest.length + 1) c
  if next.index = c.index then none else return (Text.ofList cs, next)

def readHandle (c : Cursor) : Option (Text × Cursor) :=
  if !c.sees '!' then none
  else
    let inner := c.advance
    if inner.sees ' ' then some ("!", inner)
    else
      let (name, last) := inner.span isNameChar
      if last.sees '!' then
        some (Text.ofList (↑ '!' :: name ++ [CodePoint.scalar '!']), last.advance)
      else none

/-- Whether an exclamation mark stands in the rest of the word. -/
def hasHandle (cs : List CodePoint) : Bool :=
  (cs.takeWhile fun x => !(endsField (some x))).contains '!'

def readTagWord (c : Cursor) : Option (TagText × Cursor) :=
  if c.peekAt 1 = some (CodePoint.scalar '<') then do
    let (suffix, c) ← readSuffix (c.forward 2)
    if c.sees '>' then some (⟨none, suffix⟩, c.advance) else none
  else if endsWord (c.peekAt 1) then some (⟨none, "!"⟩, c.advance)
  else if hasHandle (c.rest.drop 1) then do
    let (handle, c) ← readHandle c
    let (suffix, c) ← readSuffix c
    return (⟨some handle, suffix⟩, c)
  else do
    let (suffix, c) ← readSuffix c.advance
    return (⟨some "!", suffix⟩, c)

def readTag (c : Cursor) : Option (TagText × Cursor) := do
  let (tag, c) ← readTagWord c
  if endsField c.peek then some (tag, c) else none

def readDigits (c : Cursor) : Option (Nat × Cursor) :=
  let (ds, c) := c.span Text.isDigit
  if ds.isEmpty || 4300 < ds.length then none else some (Text.decimalValue ds, c)

def readVersion (c : Cursor) : Option (Directive × Cursor) := do
  let (major, c) ← readDigits c.skipSpaces
  if c.sees '.' then
    let (_, c) ← readDigits c.advance
    if endsField c.peek then some (.version major, c) else none
  else none

def readHandleMeaning (c : Cursor) : Option (Directive × Cursor) := do
  let (handle, c) ← readHandle c.skipSpaces
  if c.sees ' ' then
    let (start, c) ← readSuffix c.skipSpaces
    if endsField c.peek then some (.tag handle start, c) else none
  else none

def readDirective (c : Cursor) : Option (Directive × Cursor) := do
  let (name, c) := c.advance.span isNameChar
  if name.isEmpty || !endsField c.peek then none
  else
    let (directive, c) ←
      if name = Text.toList "YAML" then readVersion c
      else if name = Text.toList "TAG" then readHandleMeaning c
      else some (.other, c.skipLine)
    let c ← skipComment c
    return (directive, c)

/-! ### Cutting a document into tokens -/

inductive Filling where
  | nothing
  | key
  | mappingAndKey

/-- A token, or a slot by its number. -/
inductive Item where
  | token (t : Token)
  | slot (n : Nat)

/-- A place where a key may have begun. -/
structure PossibleKey where
  slot : Nat
  required : Bool
  index : Nat
  line : Nat
  column : Nat

/-- The state of cutting: the items so far, last first; the fillings of the slots; the columns of
the block collections that are open, innermost first; how deep flow collections are nested; whether
a key may begin here; and where one may have begun, by depth. -/
structure Cutting where
  cursor : Cursor
  items : List Item
  fillings : Array Filling
  indents : List Nat
  depth : Nat
  keyAllowed : Bool
  possible : List (Nat × PossibleKey)

def maxNesting : Nat := 1000

namespace Cutting

def start (cs : List CodePoint) : Cutting :=
  ⟨.start cs, [], #[], [], 0, true, []⟩

/-- The column of the innermost block collection, or -1. -/
def indent (s : Cutting) : Int :=
  match s.indents with
  | column :: _ => column
  | [] => -1

def push (s : Cutting) (t : Token) : Cutting :=
  { s with items := .token t :: s.items }

def moveTo (s : Cutting) (c : Cursor) : Cutting :=
  { s with cursor := c }

/-- Skips spaces, comments and line ends; in block context a key may begin on a new line. -/
def toNextToken : Nat → Cutting → Cutting
  | 0, s => s
  | fuel + 1, s =>
    let c := s.cursor.skipSpaces
    let c := if c.sees '#' then c.skipLine else c
    match c.lineBreak? with
    | some (_, c) =>
      toNextToken fuel { s with cursor := c, keyAllowed := s.keyAllowed || s.depth = 0 }
    | none => s.moveTo c

/-- Forgets places where a key can no longer have begun; fails if one had to. -/
def dropStale (s : Cutting) : Option Cutting :=
  let live (p : PossibleKey) : Bool :=
    p.line = s.cursor.line && s.cursor.index - p.index ≤ 1024
  if s.possible.any fun (_, p) => !live p && p.required then none
  else some { s with possible := s.possible.filter fun (_, p) => live p }

/-- Forgets the place at the present depth; fails if a key had to begin there. -/
def dropPossible (s : Cutting) : Option Cutting :=
  if s.possible.any fun (depth, p) => depth = s.depth && p.required then none
  else some { s with possible := s.possible.filter fun (depth, _) => depth ≠ s.depth }

/-- Leaves a slot here if a key may begin. -/
def savePossible (s : Cutting) : Option Cutting :=
  if s.keyAllowed then do
    let s ← s.dropPossible
    let c := s.cursor
    let required := s.depth = 0 && s.indent = c.column
    let slot := s.fillings.size
    return { s with
      items := .slot slot :: s.items
      fillings := s.fillings.push .nothing
      possible := (s.depth, ⟨slot, required, c.index, c.line, c.column⟩) :: s.possible }
  else some s

/-- Closes the block collections that are indented further than `column`. -/
def unwind (column : Int) : List Nat → Cutting → Cutting
  | [], s => { s with indents := [] }
  | i :: is, s =>
    if column < (i : Int) then unwind column is (s.push .blockEnd)
    else { s with indents := i :: is }

/-- Closes the block collections that end before a column; inside flow collections none does. -/
def closeBlocks (s : Cutting) (column : Int) : Cutting :=
  if s.depth = 0 then unwind column s.indents s else s

def openBlock (s : Cutting) (column : Nat) (t : Token) : Cutting :=
  if s.indent < (column : Int) then { s.push t with indents := column :: s.indents } else s

/-- A token that ends everything in progress: a directive or a marker. -/
def breakOff (s : Cutting) : Option Cutting := do
  let s ← (s.closeBlocks (-1)).dropPossible
  return { s with keyAllowed := false }

def openFlow (s : Cutting) (t : Token) : Option Cutting := do
  let s ← s.savePossible
  if maxNesting ≤ s.depth then none
  else return { s.push t with depth := s.depth + 1, keyAllowed := true, cursor := s.cursor.advance }

def closeFlow (s : Cutting) (t : Token) : Option Cutting := do
  let s ← s.dropPossible
  if s.depth = 0 then none
  else
    return { s.push t with
      depth := s.depth - 1, keyAllowed := false, cursor := s.cursor.advance }

/-- The dash of a sequence or the question mark of a key: both may open a block collection. -/
def blockMark (s : Cutting) (opener t : Token) (keyAllowed : Bool) : Option Cutting := do
  let s ←
    if s.depth = 0 then
      if s.keyAllowed then some (s.openBlock s.cursor.column opener) else none
    else some s
  let s ← { s with keyAllowed := keyAllowed }.dropPossible
  return (s.push t).moveTo s.cursor.advance

/-- The colon of a value, which tells where its key began. -/
def valueMark (s : Cutting) : Option Cutting := do
  let s ←
    match s.possible.find? fun (depth, _) => depth = s.depth with
    | some (_, p) =>
      let opens := s.depth = 0 && s.indent < (p.column : Int)
      some { s with
        possible := s.possible.filter fun (depth, _) => depth ≠ s.depth
        fillings := s.fillings.setIfInBounds p.slot (if opens then .mappingAndKey else .key)
        indents := if opens then p.column :: s.indents else s.indents
        keyAllowed := false }
    | none =>
      if s.depth = 0 then
        if s.keyAllowed then
          some { s.openBlock s.cursor.column .mappingStart with keyAllowed := true }
        else none
      else some { s with keyAllowed := false }
  return (s.push .value).moveTo s.cursor.advance

/-- A token that may be a key on its own or at the head of one. -/
def wordToken (s : Cutting) (t : Token) (c : Cursor) : Option Cutting := do
  let s ← s.savePossible
  return { s.push t with keyAllowed := false, cursor := c }

def plainStarts (s : Cutting) : Bool :=
  match s.cursor.peek with
  | none => false
  | some x =>
    !(isBlank x || isIndicator x) ||
      (!endsWord (s.cursor.peekAt 1) && (x = '-' || (s.depth = 0 && (x = '?' || x = ':'))))

def tokenAt (s : Cutting) (x : CodePoint) : Option Cutting :=
  let c := s.cursor
  let inFlow := s.depth ≠ 0
  let aloneOrFlow := inFlow || endsWord (c.peekAt 1)
  if x = '%' && c.column = 0 then do
    let s ← s.breakOff
    let (d, c) ← readDirective c
    return (s.push (.directive d)).moveTo c
  else if c.column = 0 && c.atMarker '-' then do
    return ((← s.breakOff).push .documentStart).moveTo (c.forward 3)
  else if c.column = 0 && c.atMarker '.' then do
    return ((← s.breakOff).push .documentEnd).moveTo (c.forward 3)
  else if x = '[' then s.openFlow .flowSequenceStart
  else if x = '\x7b' then s.openFlow .flowMappingStart
  else if x = ']' then s.closeFlow .flowSequenceEnd
  else if x = '\x7d' then s.closeFlow .flowMappingEnd
  else if x = ',' then do
    let s ← { s with keyAllowed := true }.dropPossible
    return (s.push .flowEntry).moveTo c.advance
  else if x = '-' && endsWord (c.peekAt 1) then s.blockMark .sequenceStart .entry true
  else if x = '?' && aloneOrFlow then s.blockMark .mappingStart .key (!inFlow)
  else if x = ':' && aloneOrFlow then s.valueMark
  else if x = '*' then do
    let (name, c) ← readName c
    s.wordToken (.alias name) c
  else if x = '&' then do
    let (name, c) ← readName c
    s.wordToken (.anchor name) c
  else if x = '!' then do
    let (t, c) ← readTag c
    s.wordToken (.tag t) c
  else if (x = '|' || x = '>') && !inFlow then do
    let s ← { s with keyAllowed := true }.dropPossible
    let (text, c) ← blockText (x = '>') s.indent c.advance
    return (s.push (.scalar false text)).moveTo c
  else if x = '\'' || x = '"' then do
    let (text, c) ← quotedText (x = '"') (c.rest.length + 1) c.advance
    s.wordToken (.scalar false text) c
  else if s.plainStarts then do
    let (text, ended, c) := plainText inFlow (s.indent + 1) (c.rest.length + 1) false [] c
    let s ← s.wordToken (.scalar true text) c
    return { s with keyAllowed := ended }
  else none

/-- Cuts the rest of a document; the fuel is more than its characters. -/
def run : Nat → Cutting → Option Cutting
  | 0, _ => none
  | fuel + 1, s => do
    let s ← (toNextToken (s.cursor.rest.length + 1) s).dropStale
    let s := s.closeBlocks s.cursor.column
    match s.cursor.peek with
    | none => do
      let s ← s.breakOff
      return s.push .finish
    | some x => do run fuel (← s.tokenAt x)

/-- The tokens of a finished cutting, with the slots filled. -/
def tokens (s : Cutting) : List Token :=
  s.items.reverse.flatMap fun item =>
    match item with
    | .token t => [t]
    | .slot n =>
      match s.fillings[n]? with
      | some .key => [.key]
      | some .mappingAndKey => [.mappingStart, .key]
      | _ => []

end Cutting

/-- The tokens of a document, which may start with a byte order mark. -/
def tokens (cs : List CodePoint) : Option (List Token) :=
  if cs.all isAllowed then
    let s := Cutting.start cs
    let s := if s.cursor.sees '\uFEFF' then s.moveTo s.cursor.advance else s
    (s.run (cs.length + 1)).map Cutting.tokens
  else none

end Grove.Yaml
