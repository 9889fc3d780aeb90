import Grove.Storage.Encoding
import Grove.Storage.FileSystem

/-!
# Hosts

What storage finds on the machine that it runs on: files, the home directories of accounts, and the
encodings that are known by name.
-/
namespace Grove

structure Host where
  files : FileSystem
  /-- The caller's own home directory, if there is one. -/
  home? : Option Text
  /-- The home directories of the accounts. -/
  accounts : List UInt8 → Option Text
  /-- The encodings of text by their names. -/
  codecs : Text → Option Codec

namespace Host

/-- A machine with the encodings at hand, on which nobody has a home directory. -/
def ofFiles (files : FileSystem) : Host :=
  ⟨files, none, fun _ => none, Encoding.codec?⟩

def empty : Host :=
  ofFiles .empty

def home (host : Host) (account : Text) : Except Error Text :=
  if account = "" then
    match host.home? with
    | some home => .ok home
    | none => .error .noHome
  else do
    match host.accounts (← account.fileBytes) with
    | some home => .ok home
    | none => .error .noHome

/-- The location of a home directory, without slashes at the end of its text. -/
def homeLocation (home : Text) : Except Error Location :=
  let cs := (home.toList.reverse.dropWhile (· = CodePoint.scalar '/')).reverse
  if cs.head? = some (CodePoint.scalar '~') then .error .noHome
  else .ok (.ofText (if cs.isEmpty then "/" else .ofList cs))

/-- The account whose home directory a location asks for: its first name behind a tilde. -/
def account? (l : Location) : Option Text :=
  if l.isAbsolute then none
  else
    match (l.names.head?.getD "").toList with
    | '~' :: account => some (.ofList account)
    | _ => none

/-- The location with a home directory in place of a first name that starts with a tilde. -/
def expandHome (host : Host) (l : Location) : Except Error Location :=
  match account? l with
  | none => .ok l
  | some account => do
    let home ← homeLocation (← host.home account)
    return home.join ⟨.present, l.names.tail⟩

end Host

end Grove
