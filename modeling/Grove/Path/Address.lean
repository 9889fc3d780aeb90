import Grove.Error
import Grove.Text.Blank

/-!
# Addresses

Callers designate a node by dotted text, which may be a template with arguments, or by an explicit
list of segments. In dotted text a part made of the digits `0` to `9` alone is a position and every
other part is a key; the empty text is the path without segments. The text of a path has at most 256
characters, counted after the arguments have been filled in.
-/
namespace Grove

def maxPathLength : Nat := 256

def Segment.ofPart (part : List CodePoint) : Segment :=
  if !part.isEmpty && part.all Text.isDigit then .index (Text.decimalValue part)
  else .key (Text.ofList part)

def Segment.ofDotted (text : Text) : Except Error (List Segment) :=
  if maxPathLength < text.length then .error (.pathTooLong text.length)
  else if text = "" then .ok []
  else .ok ((Text.splitOn (CodePoint.scalar '.') text.toList).map Segment.ofPart)

def renderPath (template : Text) (args : List Value) : Except Error Text :=
  if args.isEmpty then .ok template
  else (Template.render template args).mapError (.unrendered template)

inductive Address where
  /-- The node itself, or for additions the place behind its last child. -/
  | omitted
  | text (template : Text)
  | path (segments : List Segment)
  /-- A value that designates nothing. -/
  | unusable (v : Value)

namespace Value

def segment? : Value → Option Segment
  | .key (.text name) => some (.key name)
  | .index position => some (.index position)
  | _ => none

/-- How many parts a value has that a text would have characters for. -/
def partCount? : Value → Option Nat
  | .text s => some s.length
  | .bytes data => some data.length
  | .list items => some items.length
  | .tuple items => some items.length
  | .dict entries => some entries.length
  | .set => some 0
  | .object o => o.size?
  | .path parts => some parts.length
  | _ => none

end Value

namespace Address

def ofValue : Value → Address
  | .null => .omitted
  | .text template => .text template
  | v@(.path parts) =>
    match parts.mapM Value.segment? with
    | some segments => .path segments
    | none => .unusable v
  | v => .unusable v

def dottedWithin (segments : List Segment) : Except Error Text :=
  let texts := segments.mapM fun s =>
    match s with
    | .key name => Except.ok name
    | .index position => intText position
  (texts.map fun parts => Text.intercalate "." parts).mapError .text

def wording : Address → Except Error Text
  | .omitted => .ok "None"
  | .text template => .ok template
  | .path segments => dottedWithin segments
  | .unusable v => v.asText.mapError .text

/-- The address in words; empty if there are none. -/
def words (address : Address) : Text :=
  address.wording.toOption.getD ""

/-- A template given as a value with its arguments filled in; only text has places for arguments. -/
def renderValue (template : Value) (args : List Value) : Except Error Value :=
  if args.isEmpty then .ok template
  else
    match template, template.asText with
    | .text s, _ => (renderPath s args).map Value.text
    | _, .error fault => .error (.text fault)
    | .bytes _, .ok shown => .error (.unrendered shown .bytesTemplate)
    | v, .ok shown => .error (.unrendered shown (.notTemplate v.qualifiedTypeName))

/-- What becomes of a value other than text where dotted text is due: the fault, or no segments at
all if the value is empty. -/
def unusableSegments (v : Value) (args : List Value) : Except Error (List Segment) := do
  let v ← renderValue v args
  match v.partCount? with
  | none => .error (.unmeasured v.qualifiedTypeName)
  | some count =>
    if maxPathLength < count then .error (.pathTooLong count)
    else if count = 0 then .ok []
    else
      match v with
      | .bytes _ => .error .bytesPath
      | v => .error (.unsupportedOperation v.typeName "split")

/-- The segments of a path whose text is asked for before anything else. -/
def pathSegments (text : Except Error Text) (segments : List Segment) (args : List Value) :
    Except Error (List Segment) :=
  if args.isEmpty then do
    let text ← text
    if maxPathLength < text.length then .error (.pathTooLong text.length) else .ok segments
  else .error .argumentsToPath

def segments (address : Address) (args : List Value) : Except Error (List Segment) :=
  match address with
  | .omitted => do Segment.ofDotted (← renderPath "" args)
  | .text template => do Segment.ofDotted (← renderPath template args)
  | .path segments => pathSegments (dottedWithin segments) segments args
  | .unusable v@(.path _) => pathSegments (v.asText.mapError .text) [] args
  | .unusable v => unusableSegments v args

end Address

end Grove
