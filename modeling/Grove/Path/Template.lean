import Grove.Number.Format
import Grove.Value.Real
import Grove.Value.Text

/-!
# Templates

A template is text with directives, each a percent sign, flags, a width, a precision and a
conversion letter, and `%%` for the percent sign itself. Each directive takes the next argument, and
all arguments have to be taken. A template is first cut into pieces, which never fails, and then
filled from left to right, so that the first fault in reading order is the one that is told.
-/
namespace Grove

namespace Template

/-- A width or a precision: left out, written down, taken from the arguments, or beyond the
limit. -/
inductive Amount where
  | absent
  | given (n : Nat)
  | argument
  | tooBig
  deriving DecidableEq

structure Spec where
  leftAlign : Bool := false
  plus : Bool := false
  blank : Bool := false
  alternate : Bool := false
  zeroFill : Bool := false
  width : Amount := .absent
  precision : Amount := .absent
  deriving DecidableEq

/-- A piece of a template; a conversion letter comes with its position in the template. -/
inductive Piece where
  | literal (c : CodePoint)
  | directive (spec : Spec) (conversion : CodePoint) (position : Nat)
  | named
  | unfinished (spec : Spec)
  deriving DecidableEq

/-- What may come next inside a directive. -/
inductive Stage where
  | flags
  | widthDigits
  | point
  | precision
  | precisionDigits
  | modifier
  | conversion
  deriving DecidableEq

def maxWidth : Nat := 9223372036854775807

def maxPrecision : Nat := 2147483647

/-- One more digit of an amount up to `limit`. -/
def Amount.push (limit : Nat) (amount : Amount) (c : CodePoint) : Amount :=
  let digit := c.toNat - '0'.toNat
  match amount with
  | .given n => if limit < n * 10 + digit then .tooBig else .given (n * 10 + digit)
  | .tooBig => .tooBig
  | _ => .given digit

/-- A size letter before the conversion letter is skipped. -/
def feedModifier (spec : Spec) (c : CodePoint) : Option (Stage × Spec) :=
  if c = 'h' || c = 'l' || c = 'L' then some (.conversion, spec) else none

def feedPoint (spec : Spec) (c : CodePoint) : Option (Stage × Spec) :=
  if c = '.' then some (.precision, { spec with precision := .given 0 }) else feedModifier spec c

/-- A width is a star or starts with a digit. -/
def feedWidth (spec : Spec) (c : CodePoint) : Option (Stage × Spec) :=
  if c = '*' then some (.point, { spec with width := .argument })
  else if Text.isDigit c then some (.widthDigits, { spec with width := spec.width.push maxWidth c })
  else feedPoint spec c

/-- What a directive becomes with one more character; `none` when that is its conversion letter. -/
def feed (stage : Stage) (spec : Spec) (c : CodePoint) : Option (Stage × Spec) :=
  match stage with
  | .flags =>
    if c = '-' then some (.flags, { spec with leftAlign := true })
    else if c = '+' then some (.flags, { spec with plus := true })
    else if c = ' ' then some (.flags, { spec with blank := true })
    else if c = '#' then some (.flags, { spec with alternate := true })
    else if c = '0' then some (.flags, { spec with zeroFill := true })
    else feedWidth spec c
  | .widthDigits =>
    if Text.isDigit c then some (.widthDigits, { spec with width := spec.width.push maxWidth c })
    else feedPoint spec c
  | .point => feedPoint spec c
  | .precision =>
    if c = '*' then some (.modifier, { spec with precision := .argument })
    else if Text.isDigit c then
      some (.precisionDigits, { spec with precision := spec.precision.push maxPrecision c })
    else feedModifier spec c
  | .precisionDigits =>
    if Text.isDigit c then
      some (.precisionDigits, { spec with precision := spec.precision.push maxPrecision c })
    else feedModifier spec c
  | .modifier => feedModifier spec c
  | .conversion => none

/-- Where the cutting of a template stands. -/
inductive Position where
  | text
  | opened
  | inside (stage : Stage) (spec : Spec)

def cut : Position → Nat → List CodePoint → List Piece
  | .text, _, [] => []
  | .opened, _, [] => [.unfinished {}]
  | .inside _ spec, _, [] => [.unfinished spec]
  | .text, i, c :: cs =>
    if c = '%' then cut .opened (i + 1) cs else .literal c :: cut .text (i + 1) cs
  | .opened, i, c :: cs =>
    if c = '%' then .literal '%' :: cut .text (i + 1) cs
    else if c = '(' then .named :: cut .text (i + 1) cs
    else
      match feed .flags {} c with
      | some (stage, spec) => cut (.inside stage spec) (i + 1) cs
      | none => .directive {} c i :: cut .text (i + 1) cs
  | .inside stage spec, i, c :: cs =>
    match feed stage spec c with
    | some (stage, spec) => cut (.inside stage spec) (i + 1) cs
    | none => .directive spec c i :: cut .text (i + 1) cs

def pieces (template : List CodePoint) : List Piece :=
  cut .text 0 template

end Template

inductive TemplateFault where
  | tooFewArguments
  | tooManyArguments
  | needsMapping
  | unfinished
  | unknownConversion (c : CodePoint) (position : Nat)
  | starNotWhole
  | starWidthRange
  | starPrecisionRange
  | widthTooBig
  | precisionTooBig
  | needsWhole (conversion : CodePoint) (typeName : Text)
  | needsReal (conversion : CodePoint) (typeName : Text)
  | needsFloat (typeName : Text)
  | needsCharacter
  | characterRange
  /-- A value in words that is no whole number, although its type has some. -/
  | unwhole (what : Text)
  | range (fault : RangeFault)
  | text (fault : TextFault)
  | notTemplate (typeName : Text)
  | bytesTemplate
  deriving DecidableEq

namespace TemplateFault

def message : TemplateFault → Text
  | .tooFewArguments => "not enough arguments for format string"
  | .tooManyArguments => "not all arguments converted during string formatting"
  | .needsMapping => "format requires a mapping"
  | .unfinished => "incomplete format"
  | .unknownConversion c position =>
    let shown := if 31 ≤ c.toNat && c.toNat ≤ 126 then c else '?'
    "unsupported format character '" ++ Text.singleton shown ++ "' (0x" ++
      Text.ofList (Text.digits 16 c.toNat) ++ ") at index " ++
      Text.ofList (Text.decimal position)
  | .starNotWhole => "* wants int"
  | .starWidthRange => "Python int too large to convert to C ssize_t"
  | .starPrecisionRange => "Python int too large to convert to C int"
  | .widthTooBig => "width too big"
  | .precisionTooBig => "precision too big"
  | .needsWhole conversion typeName =>
    "%" ++ Text.singleton conversion ++ " format: an integer is required, not " ++ typeName
  | .needsReal conversion typeName =>
    "%" ++ Text.singleton conversion ++ " format: a real number is required, not " ++ typeName
  | .needsFloat typeName => "must be real number, not " ++ typeName
  | .needsCharacter => "%c requires int or char"
  | .characterRange => "%c arg not in range(0x110000)"
  | .unwhole what => "cannot convert " ++ what ++ " to integer"
  | .range fault => fault.message
  | .text fault => fault.message
  | .notTemplate typeName => "unsupported operand type(s) for %: '" ++ typeName ++ "' and 'tuple'"
  | .bytesTemplate => "not all arguments converted during bytes formatting"

end TemplateFault

namespace Template

/-- A directive whose width and precision are known. -/
structure Shape where
  spec : Spec
  leftAlign : Bool
  width : Nat
  precision : Option Nat

/-- Blanks around a text up to the width of a directive. -/
def Shape.pad (shape : Shape) (body : List CodePoint) : List CodePoint :=
  let fill := List.replicate (shape.width - body.length) (CodePoint.scalar ' ')
  if shape.leftAlign then body ++ fill else fill ++ body

/-- A number from its sign, the mark of its base and its digits, padded to the width of a directive
with blanks around it or with zeros before the digits. -/
def Shape.padNumber (shape : Shape) (negative : Bool)
    (mark body : List CodePoint) : List CodePoint :=
  let sign : List CodePoint :=
    if negative then ['-']
    else if shape.spec.plus then ['+']
    else if shape.spec.blank then [' ']
    else []
  let zeros := shape.width - (sign.length + mark.length + body.length)
  if shape.spec.zeroFill && !shape.leftAlign then
    sign ++ mark ++ List.replicate zeros (CodePoint.scalar '0') ++ body
  else shape.pad (sign ++ mark ++ body)

def upperAscii (cs : List CodePoint) : List CodePoint :=
  cs.map CodePoint.toUpper

def wholeArgument (conversion : CodePoint) (v : Value) : Except TemplateFault Int :=
  match v.wholeNumber? with
  | some n => .ok n
  | none =>
    if conversion = 'o' || conversion = 'x' || conversion = 'X' then
      .error (.needsWhole conversion v.qualifiedTypeName)
    else
      match v with
      | .float .nan => .error (.unwhole "float NaN")
      | .float (.infinite _) => .error (.unwhole "float infinity")
      | .decimal (.nan ..) => .error (.unwhole "NaN")
      | .decimal (.infinite _) => .error (.unwhole "Infinity")
      | v =>
        match v.ratio? with
        | some (n, d) => .ok (Int.tdiv n d)
        | none => .error (.needsReal conversion v.qualifiedTypeName)

def formatWhole (shape : Shape) (conversion : CodePoint) (n : Int) :
    Except TemplateFault (List CodePoint) :=
  let precision := shape.precision.getD 0
  let mark (c : CodePoint) : List CodePoint := if shape.spec.alternate then ['0', c] else []
  let shown (base : Nat) := Text.paddedDigits base precision n.natAbs
  if conversion = 'x' then .ok (shape.padNumber (n < 0) (mark 'x') (shown 16))
  else if conversion = 'X' then .ok (shape.padNumber (n < 0) (mark 'X') (upperAscii (shown 16)))
  else if conversion = 'o' then .ok (shape.padNumber (n < 0) (mark 'o') (shown 8))
  else if maxDigits < Text.decimalLength n.natAbs then .error (.text .tooManyDigits)
  else .ok (shape.padNumber (n < 0) [] (shown 10))

def formatFloat (shape : Shape) (conversion : CodePoint) (x : Binary64) : List CodePoint :=
  let style : NumberStyle :=
    if conversion = 'e' || conversion = 'E' then .scientific
    else if conversion = 'f' || conversion = 'F' then .fixed
    else .general
  let body := x.magnitudeChars style shape.spec.alternate (shape.precision.getD 6)
  let body := if conversion.isUpper then upperAscii body else body
  shape.padNumber x.negative [] body

def formatText (shape : Shape) (s : Except TextFault Text) :
    Except TemplateFault (List CodePoint) :=
  match s with
  | .error fault => .error (.text fault)
  | .ok s =>
    .ok (shape.pad (match shape.precision with
      | some count => s.toList.take count
      | none => s.toList))

def formatCharacter (shape : Shape) (v : Value) : Except TemplateFault (List CodePoint) :=
  match v with
  | .text s =>
    match s.toList with
    | [c] => .ok (shape.pad [c])
    | _ => .error .needsCharacter
  | v =>
    match v.wholeNumber? with
    | none => .error .needsCharacter
    | some n =>
      if 0 ≤ n ∧ n < 0x110000 then .ok (shape.pad [CodePoint.ofNat n.toNat])
      else .error .characterRange

def formatArgument (shape : Shape) (conversion : CodePoint) (position : Nat) (v : Value) :
    Except TemplateFault (List CodePoint) :=
  if conversion = 's' then formatText shape v.asText
  else if conversion = 'r' then formatText shape v.description
  else if conversion = 'a' then formatText shape v.asciiDescription
  else if (Text.toList "diuoxX").contains conversion then do
    formatWhole shape conversion (← wholeArgument conversion v)
  else if (Text.toList "eEfFgG").contains conversion then
    match v.anyReal? with
    | some (.ok x) => .ok (formatFloat shape conversion x)
    | some (.error fault) => .error (.range fault)
    | none => .error (.needsFloat v.qualifiedTypeName)
  else if conversion = 'c' then formatCharacter shape v
  else .error (.unknownConversion conversion position)

def nextArgument : List Value → Except TemplateFault (Value × List Value)
  | [] => .error .tooFewArguments
  | v :: vs => .ok (v, vs)

/-- The width of a directive, with its alignment; a negative one from the arguments aligns left, and
the least one has no counterpart, so nothing is filled up. -/
def takeWidth (spec : Spec) (args : List Value) :
    Except TemplateFault ((Bool × Nat) × List Value) :=
  match spec.width with
  | .absent => .ok ((spec.leftAlign, 0), args)
  | .given n => .ok ((spec.leftAlign, n), args)
  | .tooBig => .error .widthTooBig
  | .argument => do
    let (v, rest) ← nextArgument args
    match v.wholeNumber? with
    | none => .error .starNotWhole
    | some n =>
      if maxWidth < n ∨ n < -(maxWidth : Int) - 1 then .error .starWidthRange
      else .ok ((spec.leftAlign || n < 0, if maxWidth < n.natAbs then 0 else n.natAbs), rest)

/-- The precision of a directive; a negative one from the arguments counts as zero. -/
def takePrecision (spec : Spec) (args : List Value) :
    Except TemplateFault (Option Nat × List Value) :=
  match spec.precision with
  | .absent => .ok (none, args)
  | .given n => .ok (some n, args)
  | .tooBig => .error .precisionTooBig
  | .argument => do
    let (v, rest) ← nextArgument args
    match v.wholeNumber? with
    | none => .error .starNotWhole
    | some n =>
      if maxPrecision < n ∨ n < -(maxPrecision : Int) - 1 then .error .starPrecisionRange
      else .ok (some n.toNat, rest)

def takeShape (spec : Spec) (args : List Value) : Except TemplateFault (Shape × List Value) := do
  let ((leftAlign, width), args) ← takeWidth spec args
  let (precision, args) ← takePrecision spec args
  return (⟨spec, leftAlign, width, precision⟩, args)

def fill : List Piece → List Value → Except TemplateFault (List CodePoint)
  | [], [] => .ok []
  | [], _ :: _ => .error .tooManyArguments
  | .literal c :: ps, args => do return c :: (← fill ps args)
  | .named :: _, _ => .error .needsMapping
  | .unfinished spec :: _, args => do
    let _ ← takeShape spec args
    .error .unfinished
  | .directive spec conversion position :: ps, args => do
    let (shape, args) ← takeShape spec args
    let (v, args) ← nextArgument args
    let shown ← formatArgument shape conversion position v
    let rest ← fill ps args
    return shown ++ rest

def render (template : Text) (args : List Value) : Except TemplateFault Text := do
  return Text.ofList (← fill (pieces template.toList) args)

end Template

end Grove
