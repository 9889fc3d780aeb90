import Grove.Number.Reading
import Grove.Text.Quoted
import Grove.Value.Basic

/-!
# Text of plain values

Every value has a text, which is what a template inserts and what a key of a level is made from, and
a description, which puts text between quotes and spells out containers. Both fail for whole numbers
of more than 4300 digits; the text of a key segment fails if its name is not text.
-/
namespace Grove

inductive TextFault where
  | nameNotText (typeName : Text)
  | tooManyDigits
  deriving DecidableEq

namespace TextFault

def message : TextFault → Text
  | .nameNotText typeName => "__str__ returned non-string (type " ++ typeName ++ ")"
  | .tooManyDigits =>
    "Exceeds the limit (4300 digits) for integer string conversion; " ++
      "use sys.set_int_max_str_digits() to increase the limit"

end TextFault

/-- A whole number in decimal digits, within the limit. -/
def intText (n : Int) : Except TextFault Text :=
  if maxDigits < Text.decimalLength n.natAbs then .error .tooManyDigits
  else .ok (Text.ofList (Text.signedDecimal n))

def twoDigits (n : Nat) : Text :=
  Text.ofList (Text.paddedDigits 10 2 n)

/-- A calendar date, year first. -/
def dateText (year month day : Nat) : Text :=
  Text.ofList (Text.paddedDigits 10 4 year) ++ "-" ++ twoDigits month ++ "-" ++ twoDigits day

def callText (name : Text) (arguments : List Text) : Text :=
  name ++ "(" ++ Text.intercalate ", " arguments ++ ")"

/-- An offset in minutes, told as days, which may be negative, and seconds, which may not. -/
def offsetDescription (minutes : Int) : Text :=
  if minutes = 0 then "datetime.timezone.utc"
  else
    let days := minutes.fdiv 1440
    let seconds := minutes.fmod 1440 * 60
    let part (name : Text) (n : Int) : List Text :=
      if n = 0 then [] else [name ++ "=" ++ Text.ofList (Text.signedDecimal n)]
    callText "datetime.timezone"
      [callText "datetime.timedelta" (part "days" days ++ part "seconds" seconds)]

namespace Moment

/-- A moment, date first, with microseconds and the offset of the clock where there are any. -/
def text (m : Moment) : Text :=
  let clock := twoDigits m.hour ++ ":" ++ twoDigits m.minute ++ ":" ++ twoDigits m.second
  let fraction : Text :=
    if m.microsecond = 0 then "" else "." ++ Text.ofList (Text.paddedDigits 10 6 m.microsecond)
  let offset : Text :=
    match m.offset with
    | none => ""
    | some minutes =>
      (if minutes < 0 then "-" else "+") ++ twoDigits (minutes.natAbs / 60) ++ ":" ++
        twoDigits (minutes.natAbs % 60)
  dateText m.year m.month m.day ++ " " ++ clock ++ fraction ++ offset

def description (m : Moment) : Text :=
  let numbers := [m.year, m.month, m.day, m.hour, m.minute] ++
    if m.microsecond ≠ 0 then [m.second, m.microsecond] else if m.second ≠ 0 then [m.second] else []
  let offset := m.offset.toList.map fun minutes => "tzinfo=" ++ offsetDescription minutes
  callText "datetime.datetime" ((numbers.map fun n => Text.ofList (Text.decimal n)) ++ offset)

end Moment

namespace Value

def elided : Container → Text
  | .list => "[...]"
  | .tuple => "(...)"
  | .dict => "\x7b...\x7d"

def bytesText (data : List UInt8) : Text :=
  "b" ++ Text.ofList (Text.quotedWith (fun _ => false) (data.map fun b => CodePoint.ofNat b.toNat))

mutual

def description : Value → Except TextFault Text
  | .null => .ok "None"
  | .boolean b => .ok (if b then "True" else "False")
  | .int n => intText n
  | .float x => .ok x.text
  | .fraction n d => do
    let n ← intText n
    let d ← intText d
    return callText "Fraction" [n, d]
  | .decimal x => .ok (callText "Decimal" ["'" ++ x.text ++ "'"])
  | .imaginary unit => .ok (Text.ofList (Text.decimal unit) ++ "j")
  | .text s => .ok (Text.quoted s)
  | .bytes data => .ok (bytesText data)
  | .date year month day =>
    .ok (callText "datetime.date" ([year, month, day].map fun n => Text.ofList (Text.decimal n)))
  | .moment m => .ok m.description
  | .set => .ok "set()"
  | .object o => .ok o.description
  | .list items => do return "[" ++ Text.intercalate ", " (← descriptions items) ++ "]"
  | .tuple items => do
    let parts ← descriptions items
    return "(" ++ Text.intercalate ", " parts ++ (if parts.length = 1 then ",)" else ")")
  | .dict entries => do
    return "\x7b" ++ Text.intercalate ", " (← entryDescriptions entries) ++ "\x7d"
  | .shared kind _ => .ok (elided kind)
  | .key name => do return callText "Key" ["name=" ++ (← name.description)]
  | .index position => do return callText "Index" ["position=" ++ (← intText position)]
  | .path parts => do return callText "DataPath" (← descriptions parts)

def descriptions : List Value → Except TextFault (List Text)
  | [] => .ok []
  | v :: vs => do
    let d ← v.description
    let ds ← descriptions vs
    return d :: ds

def entryDescriptions : List (Value × Value) → Except TextFault (List Text)
  | [] => .ok []
  | (k, v) :: es => do
    let k ← k.description
    let v ← v.description
    let ds ← entryDescriptions es
    return (k ++ ": " ++ v) :: ds

end

def partText : Value → Except TextFault Text
  | .key (.text name) => .ok name
  | .key name => .error (.nameNotText name.typeName)
  | .index position => intText position
  | v => v.description

/-- The text of a value: text as it is, a path with points between its parts, all else as
described. -/
def asText : Value → Except TextFault Text
  | .text s => .ok s
  | .fraction n d => do
    let n ← intText n
    if d = 1 then return n
    let d ← intText d
    return n ++ "/" ++ d
  | .decimal x => .ok x.text
  | .date year month day => .ok (dateText year month day)
  | .moment m => .ok m.text
  | .object o => .ok o.text
  | .path parts => do return Text.intercalate "." (← parts.mapM partText)
  | v@(.key _) => v.partText
  | v@(.index _) => v.partText
  | v => v.description

def asciiDescription (v : Value) : Except TextFault Text := do
  let s ← v.description
  return Text.ofList (s.toList.flatMap fun c => if c.toNat < 128 then [c] else Text.numericEscape c)

end Value

end Grove
