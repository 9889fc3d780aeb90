import Grove.Value.Basic

/-!
# Equality of plain values

Numbers of all types are equal when they stand for the same number, so the truth values equal 1
and 0. Everything else is equal only within its type. A mapping keeps one entry for equal keys:
the first key at its first position, with the last value.
-/
namespace Grove

/-- Days from the start of year 0 to a date of the Gregorian calendar, by counting from March. -/
def dayNumber (year month day : Nat) : Int :=
  let y : Int := if month ≤ 2 then (year : Int) - 1 else year
  let m : Int := if month ≤ 2 then month + 9 else month - 3
  365 * y + y.fdiv 4 - y.fdiv 100 + y.fdiv 400 + (153 * m + 2) / 5 + day

/-- Microseconds from the start of year 0 by a moment's own clock, less the offset of that clock. -/
def Moment.instant (m : Moment) : Int :=
  let minutes := (dayNumber m.year m.month m.day * 24 + m.hour) * 60 + m.minute - m.offset.getD 0
  (minutes * 60 + m.second) * 1000000 + m.microsecond

/-- The same instant; a clock without an offset agrees only with clocks that have none either. -/
def Moment.same (a b : Moment) : Bool :=
  a.offset.isSome = b.offset.isSome && a.instant = b.instant

namespace Value

mutual

def same : Value → Value → Bool
  | .null, w => match w with | .null => true | _ => false
  | .text s, w => match w with | .text t => s = t | _ => false
  | .bytes s, w => match w with | .bytes t => s = t | _ => false
  | .date y m d, w => match w with | .date y' m' d' => y = y' && m = m' && d = d' | _ => false
  | .moment a, w => match w with | .moment b => a.same b | _ => false
  | .imaginary a, w => match w with | .imaginary b => a = b | _ => false
  | .set, w => match w with | .set => true | _ => false
  | .object o, w => match w with | .object o' => o.id = o'.id | _ => false
  | .list xs, w => match w with | .list ys => sameAll xs ys | _ => false
  | .tuple xs, w => match w with | .tuple ys => sameAll xs ys | _ => false
  | .dict es, w =>
    match w with
    | .dict fs => es.length = fs.length && sameEntries es fs
    | _ => false
  | .shared _ i, w => match w with | .shared _ j => i = j | _ => false
  | .key a, w => match w with | .key b => a.same b | _ => false
  | .index i, w => match w with | .index j => i = j | _ => false
  | .path xs, w => match w with | .path ys => sameAll xs ys | _ => false
  | .boolean b, w => sameNumber (.boolean b) w
  | .int n, w => sameNumber (.int n) w
  | .float x, w => sameNumber (.float x) w
  | .fraction n d, w => sameNumber (.fraction n d) w
  | .decimal x, w => sameNumber (.decimal x) w
where
  /-- Equality of a number with a value. -/
  sameNumber (v w : Value) : Bool :=
    match v, w with
    | .float x, .float y => x.sameNumber y
    | v, w =>
      match v.ratio?, w.ratio?, v.infinity?, w.infinity? with
      | some (n, d), some (n', d'), _, _ => n * d' = n' * d
      | _, _, some negative, some negative' => negative = negative'
      | _, _, _, _ => false

def sameAll : List Value → List Value → Bool
  | [], [] => true
  | x :: xs, y :: ys => x.same y && sameAll xs ys
  | _, _ => false

/-- Every entry has an equal one among the others. -/
def sameEntries : List (Value × Value) → List (Value × Value) → Bool
  | [], _ => true
  | (k, v) :: es, fs => fs.any (fun (k', v') => k.same k' && v.same v') && sameEntries es fs

end

/-- Sets the value of a key in place, or adds the entry at the end; `eq` is equality of keys. -/
def putEntry {κ : Type} (eq : κ → κ → Bool) (k : κ) (v : Value) :
    List (κ × Value) → List (κ × Value)
  | [] => [(k, v)]
  | (k', v') :: es => if eq k' k then (k', v) :: es else (k', v') :: putEntry eq k v es

def dictOf (entries : List (Value × Value)) : List (Value × Value) :=
  entries.foldl (fun es (k, v) => putEntry same k v es) []

end Value

end Grove
