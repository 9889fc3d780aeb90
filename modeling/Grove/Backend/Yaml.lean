import Grove.Backend.Basic
import Grove.Yaml.Reader
import Grove.Yaml.Writer

/-!
# The YAML backend

Mappings are levels in the order of their keys, and sequences are lists. It accepts every text, so
it is best asked last.
-/
namespace Grove.Backend

def yamlError : Yaml.Fault → Error
  | .malformed => .yaml
  | .form fault => .yamlForm fault
  | .range fault => .beyondFloat fault

def yaml : Backend where
  name := "yaml"
  label := "YamlBackend"
  suffixes := [".yaml", ".yml"]
  load text := (Yaml.read text.toList).mapError yamlError
  dump config t := .ok (Yaml.write config.indent t)
  accepts _ := true

end Grove.Backend
