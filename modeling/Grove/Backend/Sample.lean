import Grove.Backend.Json
import Grove.Backend.Yaml
import Grove.Value.Equality

/-!
# Sample backends

Small formats that show what a backend needs: lines of keys and values, a format that keeps a text
as it is, and one without a name, which cannot be registered.
-/
namespace Grove.Backend

/-- The entries of lines of the form `key=value`; empty lines are skipped, and `n` counts the
others. -/
def lineEntries (n : Nat) : List (List CodePoint) → Except Error (List (Value × Value))
  | [] => .ok []
  | line :: rest =>
    if line.isEmpty then lineEntries n rest
    else if line.contains '=' then do
      let key := line.takeWhile (· ≠ CodePoint.scalar '=')
      let value := line.drop (key.length + 1)
      let entries ← lineEntries (n + 1) rest
      return (.text (Text.ofList key), .text (Text.ofList value)) :: entries
    else .error (.malformedLine n)

def entryLines : List (Value × Value) → Except Error (List Text)
  | [] => .ok []
  | (k, v) :: es => do
    let key ← k.asText.mapError .text
    let value ← v.asText.mapError .text
    let lines ← entryLines es
    return (key ++ "=" ++ value ++ "\n") :: lines

def keyValue : Backend where
  name := "kv"
  label := "KvBackend"
  suffixes := [".kv"]
  load text := do
    return .ofValue (.dict (Value.dictOf (← lineEntries 0 (Text.lines text.toList))))
  dump _ t :=
    match t.toValue true with
    | .dict entries => do return Text.intercalate "" (← entryLines entries)
    | v => .error (.unsupportedOperation v.typeName "items")
  accepts text := text.toList.contains '='

def sizeOf? : Tree → Option Nat
  | .list items => some items.length
  | .level entries => some entries.length
  | .string s => some s.length
  | _ => none

def echo : Backend where
  name := "echo"
  label := "EchoBackend"
  suffixes := [".echo", ".json"]
  load text := .ok (.ofValue (.dict [(.text "text", .text text)]))
  dump config t :=
    match sizeOf? t with
    | some n =>
      .ok (Text.ofList (Text.decimal n) ++ " at " ++ Text.ofList (Text.signedDecimal config.indent))
    | none => .error (.unmeasured (t.toValue true).typeName)
  accepts _ := true

def nameless : Backend :=
  { json with name := "", label := "NamelessBackend" }

def catalogue : List (Text × Backend) :=
  [("json", json), ("yaml", yaml), ("kv", keyValue), ("echo", echo), ("nameless", nameless)]

end Grove.Backend
