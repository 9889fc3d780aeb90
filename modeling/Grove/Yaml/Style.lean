import Grove.Yaml.Char
import Grove.Yaml.Tag

/-!
# Styles of text

How a text may be written: plain if nothing in it can be mistaken for something else and its form
alone makes it text; between single quotes if it needs no escapes and no space touches a line end;
between double quotes always.
-/
namespace Grove.Yaml

inductive Style where
  | plain
  | single
  | double
  deriving DecidableEq

/-- A line end as far as writing is concerned: a carriage return is none. -/
def isTextBreak (c : CodePoint) : Bool :=
  c = '\n' || c = '\x85' || c = '\u2028' || c = '\u2029'

def isSpecial (c : CodePoint) : Bool :=
  let n := c.toNat
  !(c = '\n' || (0x20 ≤ n && n ≤ 0x7E)) &&
    !((n = 0x85 || (0xA0 ≤ n && n ≤ 0xD7FF) || (0xE000 ≤ n && n ≤ 0xFFFD) ||
      (0x10000 ≤ n && n < 0x10FFFF)) && n ≠ 0xFEFF)

/-- Whether `p` holds of two neighbours. -/
def anyNeighbours (p : CodePoint → CodePoint → Bool) : List CodePoint → Bool
  | a :: b :: cs => p a b || anyNeighbours p (b :: cs)
  | _ => false

/-- Whether a colon stands before a blank or at the end. -/
def hasKeyColon : List CodePoint → Bool
  | [] => false
  | c :: cs => (c = ':' && endsWord cs.head?) || hasKeyColon cs

def startsLikeToken (cs : List CodePoint) : Bool :=
  match cs with
  | [] => false
  | c :: rest =>
    (Text.toList "#,[]\x7b\x7d&*!|>'\"%@`").contains c ||
      ((c = '?' || c = '-') && endsWord rest.head?) ||
      (Text.toList "---").isPrefixOf cs || (Text.toList "...").isPrefixOf cs

def looksLikeToken (cs : List CodePoint) : Bool :=
  startsLikeToken cs || hasKeyColon cs || anyNeighbours (fun a b => isBlank a && b = '#') cs

/-- A space or a line end. -/
def isEdge (c : CodePoint) : Bool :=
  c = ' ' || isTextBreak c

def allowsSingle (cs : List CodePoint) : Bool :=
  !cs.any isSpecial && !anyNeighbours (fun a b => a = ' ' && isTextBreak b) cs &&
    !anyNeighbours (fun a b => isTextBreak a && b = ' ') cs

def allowsPlain (cs : List CodePoint) : Bool :=
  !cs.any isSpecial && !cs.any isTextBreak && !(cs.head?.any isEdge) && !(cs.getLast?.any isEdge) &&
    !looksLikeToken cs

def Style.ofText (cs : List CodePoint) : Style :=
  if Tag.ofForm cs = .str && allowsPlain cs then .plain
  else if allowsSingle cs then .single
  else .double

/-- Whether a key is written in front of a colon on one line. Other keys follow a question mark. -/
def isSimpleKey (cs : List CodePoint) : Bool :=
  !cs.isEmpty && !cs.any isTextBreak && cs.length < 123

end Grove.Yaml
