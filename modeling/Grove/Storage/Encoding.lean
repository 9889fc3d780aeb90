import Grove.Text.Digit
import Grove.Text.Utf8

/-!
# Encodings

How the bytes of a file become text: the encodings of Unicode with and without a mark of the byte
order, and the single-byte encodings of Western Europe. All line ends of a file become line feeds.
-/
namespace Grove

inductive ByteOrder where
  | little
  | big
  deriving DecidableEq

inductive Encoding where
  | utf8
  | utf8Marked
  | utf16 (order : Option ByteOrder)
  | utf32 (order : Option ByteOrder)
  | ascii
  | latin1
  | windows1252
  deriving DecidableEq

inductive DecodingFault where
  /-- Bytes from one position up to another, with the name of the encoding and the reason. -/
  | undecodable (encoding : Text) (bytes : List UInt8) (first behind : Nat) (reason : Text)
  /-- A fault that is not put down to some of the bytes. -/
  | other (reason : Text)

/-- How bytes are read as code points. -/
abbrev Codec := List UInt8 → Except DecodingFault (List CodePoint)

namespace DecodingFault

/-- The wording of a fault; a single byte is shown. -/
def message : DecodingFault → Text
  | .undecodable encoding bytes first behind reason =>
    let number (n : Nat) := Text.ofList (Text.decimal n)
    let what :=
      match bytes[first]? with
      | some b =>
        if behind = first + 1 then
          "byte 0x" ++ Text.ofList (Text.paddedDigits 16 2 b.toNat) ++
            " in position " ++ number first
        else "bytes in position " ++ number first ++ "-" ++ number (behind - 1)
      | none => "bytes in position " ++ number first ++ "-" ++ number (behind - 1)
    "'" ++ encoding ++ "' codec can't decode " ++ what ++ ": " ++ reason
  | .other reason => reason

end DecodingFault

namespace Encoding

def names : List (Encoding × List Text) :=
  [(.utf8, ["utf_8", "utf8", "u8", "utf", "utf8_ucs2", "utf8_ucs4", "cp65001"]),
    (.utf8Marked, ["utf_8_sig"]),
    (.ascii, ["ascii", "us_ascii", "us", "646", "ansi_x3.4_1968", "ansi_x3_4_1968",
      "ansi_x3.4_1986", "cp367", "csascii", "ibm367", "iso646_us", "iso_646.irv_1991",
      "iso_ir_6"]),
    (.latin1, ["latin_1", "latin1", "latin", "l1", "8859", "iso8859", "iso8859_1",
      "iso_8859_1", "iso_8859_1_1987", "iso_ir_100", "cp819", "csisolatin1", "ibm819"]),
    (.windows1252, ["cp1252", "1252", "windows_1252"]),
    (.utf16 none, ["utf_16", "utf16", "u16"]),
    (.utf16 (some .little), ["utf_16_le", "utf_16le", "unicodelittleunmarked"]),
    (.utf16 (some .big), ["utf_16_be", "utf_16be", "unicodebigunmarked"]),
    (.utf32 none, ["utf_32", "utf32", "u32"]),
    (.utf32 (some .little), ["utf_32_le", "utf_32le"]),
    (.utf32 (some .big), ["utf_32_be", "utf_32be"])]

/-- A name in small letters, with one underscore for each run of characters that are neither
letters, digits nor points; `pending` tells that such a run is open. -/
def normalize : Bool → Bool → List CodePoint → List CodePoint
  | _, _, [] => []
  | begun, pending, c :: cs =>
    if c.isAlphanum || c = '.' then
      (if pending && begun then [CodePoint.scalar '_'] else []) ++
        c.toLower :: normalize true false cs
    else normalize begun true cs

def ofName? (name : Text) : Option Encoding :=
  if name.toList.any fun c => 128 ≤ c.toNat then none
  else
    let word := Text.ofList (normalize false false name.toList)
    (names.find? fun (_, names) => names.contains word).map (·.1)

/-- The characters of the bytes from 128 to 159 in the encoding of Windows; 0 where there is
none. -/
def windowsHigh : List Nat :=
  [0x20AC, 0, 0x201A, 0x192, 0x201E, 0x2026, 0x2020, 0x2021, 0x2C6, 0x2030, 0x160,
    0x2039, 0x152, 0, 0x17D, 0, 0, 0x2018, 0x2019, 0x201C, 0x201D, 0x2022, 0x2013, 0x2014, 0x2DC,
    0x2122, 0x161, 0x203A, 0x153, 0, 0x17E, 0x178]

def decodeSingle (encoding reason : Text) (char : Nat → Option Nat) (all : List UInt8) :
    Nat → List UInt8 → Except DecodingFault (List CodePoint)
  | _, [] => .ok []
  | i, b :: bs =>
    match char b.toNat with
    | some n => do return CodePoint.ofNat n :: (← decodeSingle encoding reason char all (i + 1) bs)
    | none => .error (.undecodable encoding all i (i + 1) reason)

/-- A fault of UTF-8 with the bytes it concerns; positions count from `start`. -/
def utf8Fault (bytes : List UInt8) (start : Nat) : Text.Utf8Fault → DecodingFault
  | .invalidStart i => .undecodable "utf-8" bytes (start + i) (start + i + 1) "invalid start byte"
  | .invalidContinuation i j =>
    .undecodable "utf-8" bytes (start + i) (start + j) "invalid continuation byte"
  | .unexpectedEnd i j =>
    .undecodable "utf-8" bytes (start + i) (start + j) "unexpected end of data"

def unit (order : ByteOrder) (bytes : List UInt8) : Nat :=
  match order with
  | .little => bytes.foldr (fun b n => n * 256 + b.toNat) 0
  | .big => bytes.foldl (fun n b => n * 256 + b.toNat) 0

def orderedName (family : Text) : ByteOrder → Text
  | .little => family ++ "-le"
  | .big => family ++ "-be"

def decodeUtf16 (order : ByteOrder) (all : List UInt8) :
    Nat → List UInt8 → Except DecodingFault (List CodePoint)
  | _, [] => .ok []
  | i, [_] => .error (.undecodable (orderedName "utf-16" order) all i (i + 1) "truncated data")
  | i, a :: b :: rest =>
    let fault := DecodingFault.undecodable (orderedName "utf-16" order) all i
    let n := unit order [a, b]
    if 0xDC00 ≤ n ∧ n < 0xE000 then .error (fault (i + 2) "illegal encoding")
    else if 0xD800 ≤ n ∧ n < 0xDC00 then
      match rest with
      | c :: d :: rest =>
        let m := unit order [c, d]
        if 0xDC00 ≤ m ∧ m < 0xE000 then do
          let more ← decodeUtf16 order all (i + 4) rest
          return CodePoint.ofNat (0x10000 + (n - 0xD800) * 0x400 + (m - 0xDC00)) :: more
        else .error (fault (i + 2) "illegal UTF-16 surrogate")
      | rest => .error (fault (i + 2 + rest.length) "unexpected end of data")
    else do return CodePoint.ofNat n :: (← decodeUtf16 order all (i + 2) rest)

def decodeUtf32 (order : ByteOrder) (all : List UInt8) :
    Nat → List UInt8 → Except DecodingFault (List CodePoint)
  | _, [] => .ok []
  | i, a :: b :: c :: d :: rest =>
    let fault := DecodingFault.undecodable (orderedName "utf-32" order) all i (i + 4)
    let n := unit order [a, b, c, d]
    if 0x110000 ≤ n then .error (fault "code point not in range(0x110000)")
    else if 0xD800 ≤ n ∧ n < 0xE000 then
      .error (fault "code point in surrogate code point range(0xd800, 0xe000)")
    else do return CodePoint.ofNat n :: (← decodeUtf32 order all (i + 4) rest)
  | i, rest =>
    .error (.undecodable (orderedName "utf-32" order) all i (i + rest.length) "truncated data")

/-- The byte order that the mark at the start of units of `size` bytes gives; little if the bytes
are too few for a mark. -/
def markedOrder? (size : Nat) (bytes : List UInt8) : Option (ByteOrder × Nat) :=
  let head := bytes.take size
  if head.length < size then some (.little, 0)
  else if unit .little head = 0xFEFF then some (.little, size)
  else if unit .big head = 0xFEFF then some (.big, size)
  else none

/-- The characters of bytes in an encoding. A missing mark is told only if the bytes are text apart
from that. -/
def decodeChars (e : Encoding) (bytes : List UInt8) : Except DecodingFault (List CodePoint) :=
  match e with
  | .utf8 => (Text.decodeUtf8 bytes).mapError (utf8Fault bytes 0)
  | .utf8Marked =>
    match bytes with
    | 0xEF :: 0xBB :: 0xBF :: rest => (Text.decodeUtf8 rest).mapError (utf8Fault rest 0)
    | [0xEF, 0xBB] => .ok []
    | [0xEF] => .ok []
    | bytes => (Text.decodeUtf8 bytes).mapError (utf8Fault bytes 0)
  | .ascii =>
    decodeSingle "ascii" "ordinal not in range(128)"
      (fun n => if n < 128 then some n else none) bytes 0 bytes
  | .latin1 => .ok (bytes.map fun b => CodePoint.ofNat b.toNat)
  | .windows1252 =>
    let char (n : Nat) : Option Nat :=
      if n < 128 || 160 ≤ n then some n
      else
        match windowsHigh[n - 128]? with
        | some 0 | none => none
        | some m => some m
    decodeSingle "charmap" "character maps to <undefined>" char bytes 0 bytes
  | .utf16 (some order) => decodeUtf16 order bytes 0 bytes
  | .utf32 (some order) => decodeUtf32 order bytes 0 bytes
  | .utf16 none =>
    match markedOrder? 2 bytes with
    | some (order, n) => decodeUtf16 order bytes n (bytes.drop n)
    | none => do
      let _ ← decodeUtf16 .little bytes 0 bytes
      .error (.other "UTF-16 stream does not start with BOM")
  | .utf32 none =>
    match markedOrder? 4 bytes with
    | some (order, n) => decodeUtf32 order bytes n (bytes.drop n)
    | none => do
      let _ ← decodeUtf32 .little bytes 0 bytes
      .error (.other "UTF-32 stream does not start with BOM")

def codec? (name : Text) : Option Codec :=
  (ofName? name).map decodeChars

end Encoding

def Text.unifyLineEnds : List CodePoint → List CodePoint
  | [] => []
  | '\r' :: '\n' :: cs => '\n' :: unifyLineEnds cs
  | '\r' :: cs => '\n' :: unifyLineEnds cs
  | c :: cs => c :: unifyLineEnds cs

end Grove
