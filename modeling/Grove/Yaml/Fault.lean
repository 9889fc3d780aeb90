import Grove.Text.Basic

/-!
# Faults of the form of a scalar

A tag that is written out may stand in front of a text that has not even the form of its values.
Such a text is no malformed document: the lookup of the word, of the first digit or of the parts of
the time fails.
-/
namespace Grove.Yaml

/-- Why a text has not the form of the values of its tag. -/
inductive FormFault where
  /-- A word, in small letters, that stands for no truth value. -/
  | noTruth (word : Text)
  /-- A number without a first character. -/
  | noDigits
  /-- A time without parts. -/
  | noTime
  deriving DecidableEq

def FormFault.text : FormFault → Text
  | .noTruth word => word
  | .noDigits => "string index out of range"
  | .noTime => "'NoneType' object has no attribute 'groupdict'"

end Grove.Yaml
