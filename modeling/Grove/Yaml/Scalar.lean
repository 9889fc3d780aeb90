import Grove.Number.Reading
import Grove.Text.Base64
import Grove.Value.Real
import Grove.Yaml.Fault
import Grove.Yaml.Tag

/-!
# Values of scalars

The plain value that the text of a scalar stands for under its tag. Underscores between digits are
dropped, a zero in front makes octal digits, and groups between colons count to the base sixty.
-/
namespace Grove.Yaml

/-- Why a scalar has no value: its text is not fit for its tag or has not even the form for it, or a
number is beyond floating point. -/
inductive ScalarFault where
  | unfit
  | form (fault : FormFault)
  | range (fault : RangeFault)

/-- A value, or a fault if there is none. -/
def orUnfit {α : Type} (v : Option α) : Except ScalarFault α :=
  match v with
  | some v => .ok v
  | none => .error .unfit

/-- A sign in front of a text that is not empty, as the factor 1 or -1, and the rest. -/
def takeFactor (cs : List CodePoint) : Except ScalarFault (Int × List CodePoint) :=
  match cs with
  | [] => .error (.form .noDigits)
  | '-' :: rest => .ok (-1, rest)
  | '+' :: rest => .ok (1, rest)
  | cs => .ok (1, cs)

def wholeMagnitude (cs : List CodePoint) : Except ScalarFault Int :=
  match cs with
  | [] => .error (.form .noDigits)
  | ['0'] => .ok 0
  | '0' :: 'b' :: ds => orUnfit (readInt? 2 ds)
  | '0' :: 'x' :: ds => orUnfit (readInt? 16 ds)
  | '0' :: _ => orUnfit (readInt? 8 cs)
  | cs =>
    if cs.contains ':' then do
      let groups ← (Text.splitOn (CodePoint.scalar ':') cs).mapM fun ds => orUnfit (readInt? 10 ds)
      return groups.foldl (fun n group => n * 60 + group) 0
    else orUnfit (readInt? 10 cs)

def intValue (text : List CodePoint) : Except ScalarFault Value := do
  let (factor, cs) ← takeFactor (text.filter (· ≠ '_'))
  return .int (factor * (← wholeMagnitude cs))

/-- The sum of groups, the last one first, that count to the base sixty. -/
def sexagesimalSum : Nat → Binary64 → List Binary64 → Except ScalarFault Binary64
  | _, sum, [] => .ok sum
  | base, sum, x :: xs => do
    let unit ← (wholeToFloat base).mapError .range
    sexagesimalSum (base * 60) (sum.add (x.mul unit)) xs

def floatValue (text : List CodePoint) : Except ScalarFault Value := do
  let (factor, cs) ← takeFactor (lowerAscii (text.filter (· ≠ '_')))
  let sign := Binary64.ofInt factor
  if cs.isEmpty then .error .unfit
  else if cs = Text.toList ".inf" then .ok (.float (.infinite (factor < 0)))
  else if cs = Text.toList ".nan" then .ok (.float .nan)
  else if cs.contains ':' then do
    let groups ← (Text.splitOn (CodePoint.scalar ':') cs).mapM fun ds => orUnfit (readFloat? ds)
    return .float (sign.mul (← sexagesimalSum 1 (.zero false) groups.reverse))
  else do return .float (sign.mul (← orUnfit (readFloat? cs)))

/-- Whether a text spells the one value that is no number, and not one that is made for the
occasion. -/
def spellsNan (text : List CodePoint) : Bool :=
  match takeFactor (lowerAscii (text.filter (· ≠ '_'))) with
  | .ok (_, cs) => cs = Text.toList ".nan"
  | .error _ => false

def daysInMonth (year month : Nat) : Nat :=
  if month = 2 then
    if year % 4 = 0 && (year % 100 ≠ 0 || year % 400 = 0) then 29 else 28
  else if month = 4 || month = 6 || month = 9 || month = 11 then 30
  else 31

def timeValue (text : List CodePoint) : Except ScalarFault Value := do
  let t ←
    match timeParts? (dropLineFeed text) with
    | some t => .ok t
    | none => .error (.form .noTime)
  let number := Text.decimalValue
  let (year, month, day) := (number t.year, number t.month, number t.day)
  if year = 0 || month = 0 || 12 < month || day = 0 || daysInMonth year month < day then
    .error .unfit
  else
    match t.clock with
    | none => return .date year month day
    | some (hour, minute, second, fraction) => do
      let (hour, minute, second) := (number hour, number minute, number second)
      let digits := fraction.take 6
      let microsecond :=
        number (digits ++ List.replicate (6 - digits.length) (CodePoint.scalar '0'))
      let offset : Option Int :=
        t.zone.map fun (sign, hours, minutes) =>
          let size : Int := number hours * 60 + number minutes
          if sign = '-' then -size else size
      if 23 < hour || 59 < minute || 59 < second then .error .unfit
      else if offset.any fun o => 1440 ≤ o.natAbs then .error .unfit
      else return .moment ⟨year, month, day, hour, minute, second, microsecond, offset⟩

def truthValue (text : List CodePoint) : Except ScalarFault Value :=
  let word := lowerAscii text
  if word = Text.toList "yes" || word = Text.toList "true" || word = Text.toList "on" then
    .ok (.boolean true)
  else if word = Text.toList "no" || word = Text.toList "false" || word = Text.toList "off" then
    .ok (.boolean false)
  else .error (.form (.noTruth (Text.ofList word)))

/-- The value of a text under a tag; `none` if the tag is not one of scalars. -/
def scalarValue (tag : Tag) (text : List CodePoint) : Except ScalarFault Value :=
  match tag with
  | .null => .ok .null
  | .boolean => truthValue text
  | .int => intValue text
  | .float => floatValue text
  | .timestamp => timeValue text
  | .binary =>
    if text.all fun c => c.toNat < 128 then do return .bytes (← orUnfit (Text.decodeBase64 text))
    else .error .unfit
  | .str => .ok (.text (Text.ofList text))
  | _ => .error .unfit

end Grove.Yaml
