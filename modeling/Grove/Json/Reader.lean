import Grove.Json.Token
import Grove.Tree.Entries

/-!
# Reading JSON

The tokens of a text are taken one by one. What has been read of the containers that are still open
is kept on a stack, and what may come next is one of a few cases, so that each token either moves
the state on or is a fault at its own place. Containers are open at most `maxNesting` deep.
-/
namespace Grove.Json

def maxNesting : Nat := 1000

/-- A container that is still open: the items so far, last first, or the entries so far and the key
whose value is due. -/
inductive Frame where
  | items (done : List Value)
  | entries (done : List (Text × Value)) (key : Text)

inductive Expected where
  | value
  | firstItem
  | firstKey (done : List (Text × Value))
  | nextKey (done : List (Text × Value))
  | colon (done : List (Text × Value)) (key : Text)
  | separator
  | finish (result : Value)

structure Reading where
  stack : List Frame
  expected : Expected

def object (entries : List (Text × Value)) : Value :=
  .dict (entries.map fun (k, v) => (.text k, v))

def Reading.complete (stack : List Frame) (v : Value) : Reading :=
  match stack with
  | [] => ⟨[], .finish v⟩
  | .items done :: rest => ⟨.items (v :: done) :: rest, .separator⟩
  | .entries done key :: rest => ⟨.entries (Entries.put key v done) key :: rest, .separator⟩

def wholeValue (negative : Bool) (digits : List CodePoint) : Except Fault Value :=
  if maxDigits < digits.length then .error (.tooManyDigits digits.length)
  else
    let n : Int := Text.decimalValue digits
    .ok (.int (if negative then -n else n))

def Reading.value (stack : List Frame) (l : Lexeme) : Except Fault Reading :=
  match l.token with
  | .openBracket =>
    if maxNesting ≤ stack.length then .error .tooDeep else .ok ⟨.items [] :: stack, .firstItem⟩
  | .openBrace =>
    if maxNesting ≤ stack.length then .error .tooDeep else .ok ⟨stack, .firstKey []⟩
  | .string s => .ok (.complete stack (.text s))
  | .whole negative digits => do return .complete stack (← wholeValue negative digits)
  | .fixed v => .ok (.complete stack v)
  | .bad _ fault => .error fault
  | _ => .error (.malformed .value l.place)

def Reading.key (stack : List Frame) (done : List (Text × Value)) (l : Lexeme) :
    Except Fault Reading :=
  match l.token with
  | .string s => .ok ⟨stack, .colon done s⟩
  | .bad true fault => .error fault
  | _ => .error (.malformed .propertyName l.place)

def Reading.next (r : Reading) (l : Lexeme) : Except Fault Reading :=
  match r.expected, l.token with
  | .value, _ => Reading.value r.stack l
  | .firstItem, .closeBracket =>
    match r.stack with
    | .items _ :: rest => .ok (.complete rest (.list []))
    | stack => Reading.value stack l
  | .firstItem, _ => Reading.value r.stack l
  | .firstKey _, .closeBrace => .ok (.complete r.stack (object []))
  | .firstKey done, _ => Reading.key r.stack done l
  | .nextKey done, _ => Reading.key r.stack done l
  | .colon done key, .colon => .ok ⟨.entries done key :: r.stack, .value⟩
  | .colon _ _, _ => .error (.malformed .colon l.place)
  | .separator, token =>
    match r.stack, token with
    | .items _ :: _, .comma => .ok ⟨r.stack, .value⟩
    | .items done :: rest, .closeBracket => .ok (.complete rest (.list done.reverse))
    | .entries done _ :: rest, .comma => .ok ⟨rest, .nextKey done⟩
    | .entries done _ :: rest, .closeBrace => .ok (.complete rest (object done))
    | _, _ => .error (.malformed .comma l.place)
  | .finish v, .finish => .ok ⟨r.stack, .finish v⟩
  | .finish _, _ => .error (.malformed .extraData l.place)

def Reading.run (r : Reading) : List Lexeme → Except Fault Reading
  | [] => .ok r
  | l :: ls => do (← r.next l).run ls

def read (cs : List CodePoint) : Except Fault Value :=
  match cs with
  | '\uFEFF' :: _ => .error (.malformed .byteOrderMark .start)
  | cs => do
    match (← Reading.run ⟨[], .value⟩ (lex cs)).expected with
    | .finish v => return v
    | _ => .error .tooDeep

/-- Whether a text looks like JSON: its first character that is no blank opens a container. -/
def looksLike (cs : List CodePoint) : Bool :=
  match Text.trimStart cs with
  | c :: _ => c = '\x7b' || c = '['
  | [] => false

end Grove.Json
