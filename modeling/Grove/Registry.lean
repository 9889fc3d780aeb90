import Grove.Backend.Basic

/-!
# Registries

A registry holds backends by name, in the order of registration. For a storage path it picks the
first backend that claims the suffix, else the first that finds a file of its own; for a text the
first that accepts it. A lenient registry answers failures of the library with nothing, a strict one
hands them on.
-/
namespace Grove

abbrev ConfigId := Nat

/-- Backends by name, the settings they work with unless these are the shared ones, and whether
failures are handed on. -/
structure Registry where
  backends : List (Text × Backend)
  config : Option ConfigId
  strict : Bool

inductive BackendChoice where
  | unspecified
  | named (name : Text)
  | given (b : Backend)

namespace Registry

def empty (config : Option ConfigId) (strict : Bool) : Registry :=
  ⟨[], config, strict⟩

/-- The registry with one more backend. A name is taken once unless `replace` is set; a replacement
keeps the place of what it replaces. -/
def register (r : Registry) (b : Backend) (replace : Bool) : Except Error Registry :=
  if b.name = "" then .error (.unnamedBackend b.label)
  else if (Entries.get? b.name r.backends).isSome && !replace then .error (.nameTaken b.name)
  else .ok { r with backends := Entries.put b.name b r.backends }

/-- A registry with backends registered in order. -/
def ofBackends (backends : List Backend) (config : Option ConfigId) (strict : Bool) :
    Except Error Registry :=
  backends.foldlM (fun r b => r.register b false) (empty config strict)

def unregister (r : Registry) (name : Text) : Except Error (Backend × Registry) :=
  match Entries.get? name r.backends with
  | some b => .ok (b, { r with backends := Entries.erase name r.backends })
  | none => .error (.notRegistered name)

def names (r : Registry) : List Text :=
  Entries.keys r.backends

def description (r : Registry) : Text :=
  "BackendRegistry([" ++ Text.intercalate ", " (r.names.map Text.quoted) ++ "])"

def get (r : Registry) (name : Text) : Except Error Backend :=
  match Entries.get? name r.backends with
  | some b => .ok b
  | none => .error (.noBackendNamed name)

def choose (r : Registry) (choice : BackendChoice) : Except Error Backend :=
  match choice with
  | .given b => .ok b
  | .named name => r.get name
  | .unspecified =>
    match r.backends with
    | (_, b) :: _ => .ok b
    | [] => .error .noBackends

/-- A backend, if it finds a file with a suffix of its own behind a storage path. -/
def ifFinds (host : Host) (config : StorageConfig) (storage : Text) (b : Backend) :
    Except Error (Option Backend) := do
  return if (← b.locate host config storage).any b.claims then some b else none

/-- The first backend that finds a file with a suffix of its own behind a storage path. -/
def finder? (r : Registry) (host : Host) (config : StorageConfig) (storage : Text) :
    Except Error (Option Backend) :=
  r.backends.findSomeM? fun (_, b) => ifFinds host config storage b

def selectForPath (r : Registry) (host : Host) (config : StorageConfig) (storage : Text) :
    Except Error Backend :=
  match r.backends.find? fun (_, b) => b.handles storage with
  | some (_, b) => .ok b
  | none => do
    match ← r.finder? host config storage with
    | some b => return b
    | none => .error (.noneHandles storage)

def selectForString (r : Registry) (text : Text) : Except Error Backend :=
  match r.backends.find? fun (_, b) => b.accepts text with
  | some (_, b) => .ok b
  | none => .error .noneAccepts

/-- A result, where a lenient registry answers a failure of the library with nothing. -/
def settle {α : Type} (r : Registry) (result : Except Error α) : Except Error (Option α) :=
  match result with
  | .ok a => .ok (some a)
  | .error e => if e.category.isFailure && !r.strict then .ok none else .error e

def parseString (r : Registry) (text : Text) (choice : BackendChoice) : Except Error Tree :=
  match choice with
  | .unspecified => do (← r.selectForString text).parse text
  | choice => do (← r.choose choice).parse text

def loadString (r : Registry) (v : Value) (choice : BackendChoice) : Except Error (Option Tree) :=
  r.settle <|
    match v with
    | .text text => r.parseString text choice
    | v => .error (.notText v.typeName)

def parseStorage (r : Registry) (host : Host) (config : StorageConfig) (storage : Text)
    (choice : BackendChoice) : Except Error Tree :=
  if maxPathLength < storage.length then .error .storageTooLong
  else
    match choice with
    | .unspecified => do (← r.selectForPath host config storage).parseStorage host config storage
    | choice => do (← r.choose choice).parseStorage host config storage

def loadStorage (r : Registry) (host : Host) (config : StorageConfig) (storage : Text)
    (choice : BackendChoice) : Except Error (Option Tree) :=
  r.settle (r.parseStorage host config storage choice)

/-- The members of lists, each one once, in the order in which they are met. -/
def distinct (names : List Text) : List Text :=
  (names.foldl (fun seen name => if seen.contains name then seen else name :: seen) []).reverse

def listEntries (r : Registry) (host : Host) (config : StorageConfig) (storage : Text) :
    Except Error (List Text) := do
  return distinct (← r.backends.mapM fun (_, b) => b.listEntries host config storage).flatten

def serialize (r : Registry) (config : StorageConfig) (t : Option Tree) (choice : BackendChoice) :
    Except Error (Option Text) := do
  match ← r.settle (r.choose choice), t with
  | some b, some t => return some (← b.dump config t)
  | _, _ => return none

/-- The tree of a text written in another format, if it can be loaded, and whether reading it back
gives the same tree. -/
def convert (r : Registry) (config : StorageConfig) (text : Text) (source target : BackendChoice) :
    Except Error (Option (Option Text × Bool)) := do
  match ← r.loadString (.text text) source with
  | none => return none
  | some t =>
    match ← r.serialize config (some t) target with
    | none => return some (none, false)
    | some written =>
      let again ← r.loadString (.text written) target
      return some (some written, again.any t.same)

end Registry

end Grove
