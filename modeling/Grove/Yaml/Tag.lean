import Grove.Text.Blank
import Grove.Text.Digit

/-!
# Tags

The tags that the library knows, and the tag that plain text gets by its form alone: which words
stand for truth values and for nothing, and how whole numbers, floating-point numbers and times are
written.
-/
namespace Grove.Yaml

/-- What a node of a document is meant as. -/
inductive Tag where
  | null
  | boolean
  | int
  | float
  | merge
  | value
  | yaml
  | timestamp
  | binary
  | orderedMap
  | pairs
  | set
  | str
  | seq
  | map
  | unknown
  deriving DecidableEq

/-- What the full names of the known tags start with. -/
def tagStart : Text := "tag:yaml.org,2002:"

def knownTags : List (Text × Tag) :=
  [("null", .null), ("bool", .boolean), ("int", .int), ("float", .float), ("merge", .merge),
    ("value", .value), ("yaml", .yaml), ("timestamp", .timestamp), ("binary", .binary),
    ("omap", .orderedMap), ("pairs", .pairs), ("set", .set), ("str", .str),
    ("seq", .seq), ("map", .map)]

def Tag.ofName (name : Text) : Tag :=
  match knownTags.find? fun (ending, _) => tagStart ++ ending = name with
  | some (_, tag) => tag
  | none => .unknown

/-! ### Forms of plain text -/

def isDigitOrScore (c : CodePoint) : Bool :=
  Text.isDigit c || c = '_'

def dropSign : List CodePoint → List CodePoint
  | '-' :: cs => cs
  | '+' :: cs => cs
  | cs => cs

/-- One or two digits that are less than sixty. -/
def isSixtieth : List CodePoint → Bool
  | [a] => Text.isDigit a
  | [a, b] => '0' ≤ a && a ≤ '5' && Text.isDigit b
  | _ => false

/-- A digit, and then digits and underscores. -/
def isDigits : List CodePoint → Bool
  | c :: cs => Text.isDigit c && cs.all isDigitOrScore
  | [] => false

/-- Groups of digits to the base sixty between colons, at least two, the first of any length. -/
def isSexagesimal (first : List CodePoint → Bool) (cs : List CodePoint) : Bool :=
  match Text.splitOn (CodePoint.scalar ':') cs with
  | head :: group :: groups => first head && (group :: groups).all isSixtieth
  | _ => false

/-- The form of a whole number, with its sign dropped. -/
def isWholeForm (cs : List CodePoint) : Bool :=
  let startsAboveZero (ds : List CodePoint) : Bool :=
    isDigits ds && ds.head? ≠ some (CodePoint.scalar '0')
  match cs with
  | ['0'] => true
  | '0' :: 'b' :: ds => !ds.isEmpty && ds.all fun c => c = '0' || c = '1' || c = '_'
  | '0' :: 'x' :: ds => !ds.isEmpty && ds.all fun c => (Text.hexValue? c).isSome || c = '_'
  | '0' :: ds => ds.all fun c => ('0' ≤ c && c ≤ '7') || c = '_'
  | cs => startsAboveZero cs || isSexagesimal startsAboveZero cs

/-- The end of a floating-point number: nothing, or an exponent, which has a sign. -/
def isExponent : List CodePoint → Bool
  | [] => true
  | e :: sign :: ds =>
    (e = 'e' || e = 'E') && (sign = '-' || sign = '+') && !ds.isEmpty && ds.all Text.isDigit
  | _ => false

def infinityWords : List (List CodePoint) :=
  List.map Text.toList [".inf", ".Inf", ".INF"]

def nanWords : List (List CodePoint) :=
  List.map Text.toList [".nan", ".NaN", ".NAN"]

def isFloatForm (cs : List CodePoint) : Bool :=
  let body := dropSign cs
  let inPlace :=
    match body.dropWhile isDigitOrScore with
    | '.' :: rest =>
      isDigits (body.takeWhile isDigitOrScore) && isExponent (rest.dropWhile isDigitOrScore)
    | _ => false
  let fractionOnly :=
    match cs with
    | '.' :: d :: rest => Text.isDigit d && isExponent (rest.dropWhile isDigitOrScore)
    | _ => false
  let sexagesimal :=
    match body.dropWhile (· ≠ CodePoint.scalar '.') with
    | '.' :: rest => rest.all isDigitOrScore &&
        isSexagesimal isDigits (body.takeWhile (· ≠ CodePoint.scalar '.'))
    | _ => false
  inPlace || fractionOnly || sexagesimal ||
    infinityWords.contains body || nanWords.contains cs

structure TimeParts where
  year : List CodePoint
  month : List CodePoint
  day : List CodePoint
  /-- Hour, minute, second and fraction, if there is a clock time. -/
  clock : Option (List CodePoint × List CodePoint × List CodePoint × List CodePoint)
  /-- Sign, hours and minutes of the offset; `Z` counts as no offset at all from the prime
  meridian. -/
  zone : Option (CodePoint × List CodePoint × List CodePoint)

/-- Digits at the head of a text, from `least` to `most` of them, as many as there are. -/
def takeDigits (least most : Nat) (cs : List CodePoint) :
    Option (List CodePoint × List CodePoint) :=
  let ds := (cs.take most).takeWhile Text.isDigit
  if ds.length < least then none else some (ds, cs.drop ds.length)

def takeChar (c : CodePoint) : List CodePoint → Option (List CodePoint)
  | x :: xs => if x = c then some xs else none
  | [] => none

def isTabOrSpace (c : CodePoint) : Bool :=
  c = ' ' || c = '\t'

def timeZone? (cs : List CodePoint) :
    Option (Option (CodePoint × List CodePoint × List CodePoint)) :=
  if cs.isEmpty then some none
  else
    match cs.dropWhile isTabOrSpace with
    | ['Z'] => some (some ('+', [CodePoint.scalar '0'], [CodePoint.scalar '0']))
    | sign :: rest =>
      if sign = '-' || sign = '+' then do
        let (hours, rest) ← takeDigits 1 2 rest
        match rest with
        | [] => some (some (sign, hours, [CodePoint.scalar '0']))
        | ':' :: rest => do
          let (minutes, rest) ← takeDigits 2 2 rest
          if rest.isEmpty then some (some (sign, hours, minutes)) else none
        | _ => none
      else none
    | [] => none

def timeClock? (cs : List CodePoint) :
    Option ((List CodePoint × List CodePoint × List CodePoint × List CodePoint) ×
      Option (CodePoint × List CodePoint × List CodePoint)) := do
  let cs ←
    match cs with
    | 'T' :: rest => some rest
    | 't' :: rest => some rest
    | c :: _ => if isTabOrSpace c then some (cs.dropWhile isTabOrSpace) else none
    | [] => none
  let (hour, cs) ← takeDigits 1 2 cs
  let cs ← takeChar ':' cs
  let (minute, cs) ← takeDigits 2 2 cs
  let cs ← takeChar ':' cs
  let (second, cs) ← takeDigits 2 2 cs
  let (fraction, cs) :=
    match cs with
    | '.' :: rest => (rest.takeWhile Text.isDigit, rest.dropWhile Text.isDigit)
    | _ => ([], cs)
  let zone ← timeZone? cs
  return ((hour, minute, second, fraction), zone)

def timeParts? (cs : List CodePoint) : Option TimeParts := do
  let (year, cs) ← takeDigits 4 4 cs
  let cs ← takeChar '-' cs
  let (month, cs) ← takeDigits 1 2 cs
  let cs ← takeChar '-' cs
  let (day, cs) ← takeDigits 1 2 cs
  if cs.isEmpty then return ⟨year, month, day, none, none⟩
  let (clock, zone) ← timeClock? cs
  return ⟨year, month, day, some clock, zone⟩

def isTimeForm (cs : List CodePoint) : Bool :=
  match timeParts? cs with
  | some t => t.clock.isSome || (t.month.length = 2 && t.day.length = 2)
  | none => false

def truthWords : List (List CodePoint) :=
  List.map Text.toList ["yes", "Yes", "YES", "no", "No", "NO", "true", "True", "TRUE",
    "false", "False", "FALSE", "on", "On", "ON", "off", "Off", "OFF"]

def nullWords : List (List CodePoint) :=
  List.map Text.toList ["", "~", "null", "Null", "NULL"]

/-- The text without one line feed at its end. -/
def dropLineFeed (cs : List CodePoint) : List CodePoint :=
  if cs.getLast? = some (CodePoint.scalar '\n') then cs.dropLast else cs

def Tag.ofForm (text : List CodePoint) : Tag :=
  let cs := dropLineFeed text
  if text = [CodePoint.scalar '\n'] then .str
  else if truthWords.contains cs then .boolean
  else if isFloatForm cs then .float
  else if isWholeForm (dropSign cs) then .int
  else if cs = [CodePoint.scalar '<', '<'] then .merge
  else if nullWords.contains cs then .null
  else if isTimeForm cs then .timestamp
  else if cs = [CodePoint.scalar '='] then .value
  else if cs = [CodePoint.scalar '!'] || cs = [CodePoint.scalar '&'] ||
    cs = [CodePoint.scalar '*'] then .yaml
  else .str

end Grove.Yaml
