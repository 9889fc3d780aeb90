import Grove.Storage.FileName
import Grove.Text.Blank

/-!
# Locations

A location is a path of a file system as it is written: names from a starting point, which is the
present directory or the root. Empty names and points between slashes are dropped. A name has a
suffix from its last point on, if that is neither its first nor its last character.
-/
namespace Grove

/-- Where a path starts: at the present directory, or at the root, which two slashes stand for as
well. -/
inductive Anchor where
  | present
  | root
  | slashes
  deriving DecidableEq

def Anchor.text : Anchor → Text
  | .present => ""
  | .root => "/"
  | .slashes => "//"

structure Location where
  anchor : Anchor
  names : List Text
  deriving DecidableEq

namespace Location

/-- The present directory. -/
def here : Location :=
  ⟨.present, []⟩

def namesOf (cs : List CodePoint) : List Text :=
  ((Text.splitOn (CodePoint.scalar '/') cs).filter fun part =>
    !part.isEmpty && part ≠ [CodePoint.scalar '.']).map Text.ofList

/-- What the slashes at the start of a text stand for; only exactly two of them are kept. -/
def anchorOf (cs : List CodePoint) : Anchor :=
  match (cs.takeWhile (· = CodePoint.scalar '/')).length with
  | 0 => .present
  | 2 => .slashes
  | _ => .root

def ofText (text : Text) : Location :=
  ⟨anchorOf text.toList, namesOf text.toList⟩

def text (l : Location) : Text :=
  if l.anchor = .present && l.names.isEmpty then "."
  else l.anchor.text ++ Text.intercalate "/" l.names

/-- Whether a location starts at the root. -/
def isAbsolute (l : Location) : Bool :=
  l.anchor ≠ .present

/-- A location seen from another one. -/
def join (base l : Location) : Location :=
  if l.isAbsolute then l else ⟨base.anchor, base.names ++ l.names⟩

def child (l : Location) (name : Text) : Location :=
  { l with names := l.names ++ [name] }

/-- The last name; empty if there is none. -/
def name (l : Location) : Text :=
  l.names.getLast?.getD ""

/-- A name cut before its last point; there is no cut if the point is the first or the last
character. -/
def cutSuffix (name : Text) : Text × Text :=
  let cs := name.toList
  let ending := (cs.reverse.takeWhile (· ≠ CodePoint.scalar '.')).reverse
  let before := cs.take (cs.length - ending.length - 1)
  if !cs.contains '.' || ending.isEmpty || before.isEmpty then (name, "")
  else (Text.ofList before, Text.ofList (↑ '.' :: ending))

/-- The suffix of the last name, with its point. -/
def suffix (l : Location) : Text :=
  (cutSuffix l.name).2

def stem (l : Location) : Text :=
  (cutSuffix l.name).1

def addSuffix (l : Location) (ending : Text) : Location :=
  { l with names := l.names.dropLast ++ [l.name ++ ending] }

/-- The bytes that a location is asked for by. -/
def bytes (l : Location) : Except Error (List UInt8) :=
  l.text.fileBytes

end Location

end Grove
