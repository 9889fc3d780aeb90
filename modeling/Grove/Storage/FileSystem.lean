import Grove.Storage.Location

/-!
# File systems

A file system holds files, directories and symbolic links, each at its place below the root. A path
is walked part by part, from the root or from the present directory; a link on the way is followed
from the directory that it stands in, up to a number of links.
-/
namespace Grove

inductive Entry where
  | file (content : List UInt8)
  | directory
  /-- The path that is walked in place of the link. -/
  | link (target : List UInt8)

/-- The names that lead down from the root. -/
abbrev Place := List FileName

inductive PathFault where
  | absent
  /-- The path or one of its parts is longer than any file system has it. -/
  | tooLong
  deriving DecidableEq

/-- Entries by their places, and the place of the present directory. -/
structure FileSystem where
  entries : List (Place × Entry)
  present : Place

namespace FileSystem

/-- Nothing but the root, which is the present directory. -/
def empty : FileSystem :=
  ⟨[], []⟩

/-- The entry at a place. The present directory is always there, and so are the directories above
it. -/
def lookup? (fs : FileSystem) (place : Place) : Option Entry :=
  if place.isPrefixOf fs.present then some .directory
  else (fs.entries.find? fun (p, _) => p = place).map (·.2)

def put (fs : FileSystem) (place : Place) (e : Entry) : FileSystem :=
  if fs.entries.any fun (p, _) => p = place then
    { fs with entries := fs.entries.map fun (p, e') => if p = place then (p, e) else (p, e') }
  else { fs with entries := fs.entries ++ [(place, e)] }

/-! ### Paths -/

/-- How many links are followed before a path counts as a loop. -/
def maxLinks : Nat := 40

def maxPath : Nat := 4095

/-- Where a path starts that is met at a place. -/
def origin (place : Place) (path : List UInt8) : Place :=
  if path.head? = some 0x2F then [] else place

def parts (path : List UInt8) : List (List UInt8) :=
  Text.splitOn 0x2F path

/-- Walks parts of a path from a place; a link is followed by `again`. Only a directory has anything
below it, itself included. -/
def walk (fs : FileSystem) (again : Place → List (List UInt8) → Except PathFault Place) :
    Place → List (List UInt8) → Except PathFault Place
  | place, [] => .ok place
  | place, part :: rest =>
    match fs.lookup? place with
    | some .directory =>
      if part = [] || part = [0x2E] then fs.walk again place rest
      else if part = [0x2E, 0x2E] then fs.walk again place.dropLast rest
      else if FileName.maxLength < part.length then .error .tooLong
      else
        match FileName.ofBytes? part with
        | none => .error .absent
        | some name =>
          match fs.lookup? (place ++ [name]) with
          | none => .error .absent
          | some (.link target) =>
            if target = [] then .error .absent
            else again (origin place target) (parts target ++ rest)
          | some _ => fs.walk again (place ++ [name]) rest
    | _ => .error .absent

/-- The place that parts of a path lead to from another one, with links followed up to a number. -/
def follow (fs : FileSystem) : Nat → Place → List (List UInt8) → Except PathFault Place
  | 0, _, _ => .error .absent
  | links + 1, place, parts => fs.walk (fs.follow links) place parts

def place (fs : FileSystem) (path : List UInt8) : Except PathFault Place :=
  if path = [] then .error .absent
  else if maxPath < path.length then .error .tooLong
  else fs.follow (maxLinks + 1) (origin fs.present path) (parts path)

/-! ### Locations -/

/-- Whether a location leads to a file. What cannot be the path of a file leads to none, but a path
that is too long is an error. -/
def isFile (fs : FileSystem) (l : Location) : Except Error Bool :=
  match l.bytes with
  | .error _ => .ok false
  | .ok path =>
    match fs.place path with
    | .error .absent => .ok false
    | .error .tooLong => .error (.nameTooLong l.text)
    | .ok place =>
      match fs.lookup? place with
      | some (.file _) => .ok true
      | _ => .ok false

def content? (fs : FileSystem) (l : Location) : Option (List UInt8) := do
  let place ← (fs.place (← l.bytes.toOption)).toOption
  match ← fs.lookup? place with
  | .file content => some content
  | _ => none

def directory? (fs : FileSystem) (path : List UInt8) : Option Place := do
  let place ← (fs.place path).toOption
  match ← fs.lookup? place with
  | .directory => some place
  | _ => none

def namesIn (fs : FileSystem) (place : Place) : List FileName :=
  fs.entries.filterMap fun (p, _) => if p.dropLast = place then p.getLast? else none

/-- Whether a name in a directory is that of a file, or of a link that leads to one from the
directory. -/
def holdsFile (fs : FileSystem) (l : Location) (place : Place) (name : FileName) : Bool :=
  match fs.lookup? (place ++ [name]) with
  | some (.file _) => true
  | some (.link _) => (fs.isFile (l.child name.text)).toOption.getD false
  | _ => false

/-- The names of the files in the directory that a location leads to; none if it leads to no
directory. -/
def filesIn (fs : FileSystem) (l : Location) : Except Error (List Text) := do
  match fs.directory? (← l.bytes) with
  | some place => return ((fs.namesIn place).filter (fs.holdsFile l place)).map FileName.text
  | none => return []

/-! ### Changes -/

def makeParents (fs : FileSystem) : Place → List FileName → FileSystem
  | _, [] => fs
  | _, [_] => fs
  | above, name :: rest =>
    let place := above ++ [name]
    let fs := if (fs.lookup? place).isSome then fs else fs.put place .directory
    fs.makeParents place rest

/-- The file system with an entry put at names below the present directory, and directories above it
as needed. A file is written through a link that leads to a file. -/
def add (fs : FileSystem) (names : List FileName) (e : Entry) : FileSystem :=
  match names.getLast? with
  | none => fs
  | some name =>
    let fs := fs.makeParents fs.present names
    let find (place : Place) : Place :=
      ((fs.follow (maxLinks + 1) [] (place.map FileName.bytes)).toOption).getD place
    let place := find (fs.present ++ names.dropLast) ++ [name]
    match e with
    | .file _ => fs.put (find place) e
    | .directory => if (fs.lookup? place).isSome then fs else fs.put place e
    | .link _ => fs.put place e

/-- The file system with an entry put at a location below the present directory. -/
def addAt (fs : FileSystem) (l : Location) (e : Entry) : FileSystem :=
  fs.add (l.names.filterMap FileName.ofText?) e

/-- Files, directories and links by their paths, in a present directory without anything else. -/
def ofPaths (present : Place) (entries : List (Text × Entry)) : FileSystem :=
  entries.foldl (fun fs (path, e) => fs.addAt (.ofText path) e) ⟨[], present⟩

end FileSystem

end Grove
