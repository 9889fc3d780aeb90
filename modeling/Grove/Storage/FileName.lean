import Grove.Error
import Grove.Text.Utf8

/-!
# Names of files

A file system names its entries by bytes. In texts these are read as UTF-8 as far as they are, and
every byte that is not stands as a surrogate. Written back, what was read gives the same bytes.
-/
namespace Grove

/-- The bytes that a text stands for where files are asked for. -/
def Text.fileBytes (s : Text) : Except Error (List UInt8) :=
  match s.encodeUtf8 true with
  | .error fault => .error (.unencodable fault)
  | .ok bytes => if bytes.contains 0 then .error .nullInPath else .ok bytes

namespace FileName

def maxLength : Nat := 255

/-- Names are neither empty nor one of the two steps that stay in place and go up, are not too long,
and have neither slashes nor null bytes. -/
def canName (bytes : List UInt8) : Bool :=
  bytes ≠ [] && bytes ≠ [0x2E] && bytes ≠ [0x2E, 0x2E] && !bytes.contains 0x2F &&
    !bytes.contains 0 &&
    bytes.length ≤ maxLength

/-- The surrogate for a byte that is not text. -/
def escape (b : UInt8) : CodePoint :=
  .surrogate ⟨0x400 + b.toNat, Nat.lt_trans (Nat.add_lt_add_left b.toNat_lt _) (by decide)⟩

/-- The code points of bytes, of which the first `used` belong to the character before. -/
def read : Nat → List UInt8 → List CodePoint
  | _, [] => []
  | used + 1, _ :: bytes => read used bytes
  | 0, b :: bytes =>
    match (b :: bytes).toByteArray.utf8DecodeChar? 0 with
    | some c => .scalar c :: read (c.utf8Size - 1) bytes
    | none => escape b :: read 0 bytes

end FileName

/-- The name of an entry of a directory. -/
structure FileName where
  bytes : List UInt8
  valid : FileName.canName bytes = true
  deriving DecidableEq

namespace FileName

def ofBytes? (bytes : List UInt8) : Option FileName :=
  if h : canName bytes = true then some ⟨bytes, h⟩ else none

def ofText? (s : Text) : Option FileName :=
  s.fileBytes.toOption.bind ofBytes?

def text (n : FileName) : Text :=
  .ofList (read 0 n.bytes)

end FileName

end Grove
