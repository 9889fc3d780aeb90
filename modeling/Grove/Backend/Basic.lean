import Grove.Storage.Config
import Grove.Text.Lower
import Grove.Tree.Conversion

/-!
# Backends

A backend knows one format: how its text is read into plain values, how a tree is written, which
suffixes its files have, and which texts look like it. From these the rest follows: trees are built
from what is read, and files are found by trying the suffixes.
-/
namespace Grove

structure Backend where
  name : Text
  /-- The name of its kind, for descriptions. -/
  label : Text
  /-- Suffixes in small letters, with their points. -/
  suffixes : List Text
  load : Text → Except Error Document
  dump : StorageConfig → Tree → Except Error Text
  accepts : Text → Bool

namespace Backend

def description (b : Backend) : Text :=
  b.label ++ "(" ++ Text.quoted b.name ++ ")"

/-- Whether a location has one of the suffixes of a backend, whatever the case of its letters. -/
def claims (b : Backend) (l : Location) : Bool :=
  b.suffixes.contains l.suffix.lower

def handles (b : Backend) (storage : Text) : Bool :=
  b.claims (.ofText storage)

/-- The tree of a document; one without content is an empty level. -/
def build (d : Document) : Except Error Tree :=
  match d.root with
  | .null => .ok (.level [])
  | _ => d.toTree

/-- The tree that a text stands for. An error that is not the library's own is put down to the
content. -/
def parse (b : Backend) (text : Text) : Except Error Tree :=
  match (do build (← b.load text)) with
  | .ok t => .ok t
  | .error e => if e.category.isContentFault then .error (.unsupported b.name e) else .error e

/-- The places at which a backend looks for a file, in this order. -/
def candidates (b : Backend) (l : Location) : List Location :=
  l :: if l.name = "" then [] else b.suffixes.map l.addSuffix

/-- The file behind a storage path: the path itself, or with a suffix of the backend added. -/
def locate (b : Backend) (host : Host) (config : StorageConfig) (storage : Text) :
    Except Error (Option Location) := do
  (b.candidates (← config.resolve host storage)).findM? host.files.isFile

/-- The error for a name that no encoding has. -/
def encodingError (name : Text) : Error :=
  match name.encodeUtf8 false with
  | .error fault => .unencodable fault
  | .ok bytes => if bytes.contains 0 then .nullInName else .unknownEncoding name

def readText (host : Host) (config : StorageConfig) (l : Location) : Except Error Text :=
  match host.codecs config.encoding with
  | none => .error (encodingError config.encoding)
  | some codec =>
    match codec ((host.files.content? l).getD []) with
    | .ok cs => .ok (.ofList (Text.unifyLineEnds cs))
    | .error fault =>
      match fault with
      | .undecodable .. => .error (.unreadable l.text fault.message)
      | .other reason => .error (.undecoded reason)

def parseStorage (b : Backend) (host : Host) (config : StorageConfig) (storage : Text) :
    Except Error Tree := do
  match ← b.locate host config storage with
  | none => .error (.noStorage b.name (← config.resolve host storage).text)
  | some l => b.parse (← readText host config l)

def listEntries (b : Backend) (host : Host) (config : StorageConfig) (storage : Text) :
    Except Error (List Text) := do
  let names ← host.files.filesIn (← config.resolve host storage)
  return names.filterMap fun name =>
    let entry := Location.here.child name
    if name.toList.head? ≠ some (CodePoint.scalar '.') && b.claims entry then some entry.stem
    else none

end Backend

end Grove
