import Grove.Json.Fault
import Grove.Number.Reading
import Grove.Value.Basic

/-!
# JSON tokens

A text is cut into tokens, each with the place where it starts. A number is the longest beginning of
the text that has the form of one. Where no token starts, the last token says what is wrong there;
whether that fault is the one to be told is up to the reader of the tokens, who may have expected
something else.
-/
namespace Grove.Json

inductive Token where
  | openBrace
  | closeBrace
  | openBracket
  | closeBracket
  | colon
  | comma
  | string (s : Text)
  | whole (negative : Bool) (digits : List CodePoint)
  | fixed (v : Value)
  | finish
  /-- No token; `quoted` tells whether a string was begun. -/
  | bad (quoted : Bool) (fault : Fault)

/-- A token with the place where it starts. -/
structure Lexeme where
  token : Token
  place : Place

/-- The characters that may stand between tokens. -/
def isSpace (c : CodePoint) : Bool :=
  c = ' ' || c = '\t' || c = '\n' || c = '\r'

/-- Where the reading of a string stands: between characters, behind a backslash, or inside a
numeric escape, with the place of its `u`, the digits to come and their value so far. -/
inductive StringState where
  | plain
  | escaped (backslash : Place)
  | hex (mark : Place) (left : Nat) (value : Nat)

def simpleEscape? (c : CodePoint) : Option CodePoint :=
  if c = '"' || c = '\\' || c = '/' then some c
  else if c = 'b' then some '\x08'
  else if c = 'f' then some '\x0c'
  else if c = 'n' then some '\n'
  else if c = 'r' then some '\r'
  else if c = 't' then some '\t'
  else none

/-- A code unit that opens a pair of escapes for one character. -/
def isHighUnit (n : Nat) : Bool :=
  0xD800 ≤ n && n < 0xDC00

/-- A code unit that closes such a pair. -/
def isLowUnit (n : Nat) : Bool :=
  0xDC00 ≤ n && n < 0xE000

/-- Code units of numeric escapes as code points: pairs are joined, and a unit without its partner
stays a surrogate. -/
def joinUnits : List (Nat ⊕ CodePoint) → List CodePoint
  | [] => []
  | .inr c :: rest => c :: joinUnits rest
  | .inl n :: .inl m :: rest =>
    if isHighUnit n && isLowUnit m then
      CodePoint.ofNat (0x10000 + (n - 0xD800) * 0x400 + (m - 0xDC00)) :: joinUnits rest
    else CodePoint.ofNat n :: joinUnits (.inl m :: rest)
  | .inl n :: rest => CodePoint.ofNat n :: joinUnits rest

/-- Reads a string from behind its opening quote at `start`: its characters, with the code units of
numeric escapes apart, and how many characters it takes with its closing quote. -/
def readString (start : Place) :
    StringState → Place → List CodePoint → Except Fault (List (Nat ⊕ CodePoint) × Nat)
  | .plain, _, [] => .error (.malformed .unterminated start)
  | .escaped _, _, [] => .error (.malformed .unterminated start)
  | .hex mark _ _, _, [] => .error (.malformed .badUnicodeEscape mark)
  | .plain, p, c :: cs =>
    if c = '"' then .ok ([], 1)
    else if c = '\\' then do
      let (units, n) ← readString start (.escaped p) (p.after c) cs
      return (units, n + 1)
    else if c.toNat < 32 then .error (.malformed .controlCharacter p)
    else do
      let (units, n) ← readString start .plain (p.after c) cs
      return (.inr c :: units, n + 1)
  | .escaped backslash, p, c :: cs =>
    if c = 'u' then do
      let (units, n) ← readString start (.hex p 4 0) (p.after c) cs
      return (units, n + 1)
    else
      match simpleEscape? c with
      | none => .error (.malformed .badEscape backslash)
      | some d => do
        let (units, n) ← readString start .plain (p.after c) cs
        return (.inr d :: units, n + 1)
  | .hex mark left value, p, c :: cs =>
    match Text.hexValue? c with
    | none => .error (.malformed .badUnicodeEscape mark)
    | some d =>
      if left = 1 then
        if cs.isEmpty then .error (.malformed .badUnicodeEscape mark)
        else do
          let (units, n) ← readString start .plain (p.after c) cs
          return (.inl (value * 16 + d) :: units, n + 1)
      else do
        let (units, n) ← readString start (.hex mark (left - 1) (value * 16 + d)) (p.after c) cs
        return (units, n + 1)

/-- The fraction of a number, if at least one digit follows the point. -/
def spanFraction (cs : List CodePoint) : List CodePoint :=
  match cs with
  | '.' :: rest => rest.takeWhile Text.isDigit
  | _ => []

/-- The exponent of a number, if at least one digit follows its mark and sign: its value and
length. -/
def spanExponent (cs : List CodePoint) : Option (Int × Nat) :=
  match cs with
  | c :: rest =>
    if c = 'e' || c = 'E' then
      let (negative, body) := takeSign rest
      let ds := body.takeWhile Text.isDigit
      if ds.isEmpty then none
      else
        let k : Int := Text.decimalValue ds
        some (if negative then -k else k, 1 + (rest.length - body.length) + ds.length)
    else none
  | [] => none

def readNumber (cs : List CodePoint) : Option (Token × Nat) :=
  let (negative, body) :=
    match cs with
    | '-' :: rest => (true, rest)
    | _ => (false, cs)
  let whole : List CodePoint :=
    match body with
    | '0' :: _ => ['0']
    | _ => body.takeWhile Text.isDigit
  if whole.isEmpty then none
  else
    let behind := body.drop whole.length
    let fraction := spanFraction behind
    let behind := if fraction.isEmpty then behind else behind.drop (1 + fraction.length)
    let size := (if negative then 1 else 0) + whole.length +
      (if fraction.isEmpty then 0 else 1 + fraction.length)
    match spanExponent behind with
    | none =>
      if fraction.isEmpty then some (.whole negative whole, size)
      else
        some (.fixed (.float (.ofDecimal negative (Text.decimalValue (whole ++ fraction))
          (-fraction.length))), size)
    | some (k, n) =>
      some (.fixed (.float (.ofDecimal negative (Text.decimalValue (whole ++ fraction))
        (k - fraction.length))), size + n)

def words : List (List CodePoint × Value) :=
  [(Text.toList "null", .null), (Text.toList "true", .boolean true),
    (Text.toList "false", .boolean false), (Text.toList "NaN", .float .nan),
    (Text.toList "Infinity", .float (.infinite false)),
    (Text.toList "-Infinity", .float (.infinite true))]

/-- The token that starts with `c` at the head of a text, and how many characters follow `c` in
it. -/
def readToken (p : Place) (c : CodePoint) (cs : List CodePoint) : Token × Nat :=
  if c = '\x7b' then (.openBrace, 0)
  else if c = '\x7d' then (.closeBrace, 0)
  else if c = '[' then (.openBracket, 0)
  else if c = ']' then (.closeBracket, 0)
  else if c = ':' then (.colon, 0)
  else if c = ',' then (.comma, 0)
  else if c = '"' then
    match readString p .plain (p.after c) cs with
    | .ok (units, n) => (.string (Text.ofList (joinUnits units)), n)
    | .error fault => (.bad true fault, 0)
  else
    match words.find? fun (word, _) => word.isPrefixOf (c :: cs) with
    | some (word, v) => (.fixed v, word.length - 1)
    | none =>
      match readNumber (c :: cs) with
      | some (token, n) => (token, n - 1)
      | none => (.bad false (.malformed .value p), 0)

/-- The lexemes of a text from a place on, after `skip` characters that belong to the token
before. -/
def lexFrom : Nat → Place → List CodePoint → List Lexeme
  | _, p, [] => [⟨.finish, p⟩]
  | skip + 1, p, c :: cs => lexFrom skip (p.after c) cs
  | 0, p, c :: cs =>
    if isSpace c then lexFrom 0 (p.after c) cs
    else
      let (token, n) := readToken p c cs
      ⟨token, p⟩ :: lexFrom n (p.after c) cs

def lex (cs : List CodePoint) : List Lexeme :=
  lexFrom 0 .start cs

end Grove.Json
