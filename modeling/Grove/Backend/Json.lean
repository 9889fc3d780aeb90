import Grove.Backend.Basic
import Grove.Json.Reader
import Grove.Json.Writer

/-!
# The JSON backend

Objects are levels, arrays are lists, and null entries are dropped.
-/
namespace Grove.Backend

def jsonError : Json.Fault → Error
  | .tooDeep => .tooDeep
  | fault => .json fault

def json : Backend where
  name := "json"
  label := "JsonBackend"
  suffixes := [".json"]
  load text := (Json.read text.toList).map Document.ofValue |>.mapError jsonError
  dump config t := .ok (Json.write config.indent t)
  accepts text := Json.looksLike text.toList

end Grove.Backend
