import Grove.Failure
import Grove.Json.Fault
import Grove.Path.Segment
import Grove.Path.Template
import Grove.Text.Utf8
import Grove.Tree.Kind
import Grove.Yaml.Fault

/-!
# Errors

An error is a cause. The text it is raised with and the category it belongs to are read off the
cause, its wording off both. Operations that answer with a default say by category which errors they
absorb.
-/
namespace Grove

/-- Why an operation failed. -/
inductive Error where
  | text (fault : TextFault)
  | unrendered (template : Text) (fault : TemplateFault)
  | pathTooLong (length : Nat)
  | argumentsToPath
  | unmeasured (typeName : Text)
  | bytesPath
  | unsupportedOperation (typeName operation : Text)
  | notSegment (typeName : Text)
  | positionType (typeName : Text)
  | positionNegative (n : Int)
  | unhashable (typeName : Text)
  | noRoot
  | emptyTarget
  | noSegment (segment : Segment) (reached : List Segment) (kind : Kind)
  | notReal (typeName : Text)
  | notString (typeName : Text)
  | notBoolean (typeName : Text)
  | stringTooLong (length : Nat)
  | numberRange (fault : RangeFault)
  | keyTooLong (length : Nat)
  | inconvertible (typeName : Text)
  | selfReferencing (container : Container)
  | mismatch (expected : Kind) (path : Text) (found : Kind)
  | notPlaced (path : Text)
  /-- A failure of a class, raised with a text. -/
  | raised (failure : FailureClass) (text : Text)
  | json (fault : Json.Fault)
  | yaml
  | yamlForm (fault : Yaml.FormFault)
  | tooDeep
  | malformedLine (number : Nat)
  | beyondFloat (fault : RangeFault)
  | unsupported (backend : Text) (cause : Error)
  | unnamedBackend (label : Text)
  | nameTaken (name : Text)
  | notRegistered (name : Text)
  | noBackendNamed (name : Text)
  | noBackends
  | noneAccepts
  | noneHandles (storage : Text)
  | notText (typeName : Text)
  | storageTooLong
  | noStorage (backend : Text) (path : Text)
  | unreadable (path : Text) (reason : Text)
  | unknownEncoding (name : Text)
  | undecoded (reason : Text)
  | noHome
  | unencodable (fault : Text.SurrogateFault)
  | nullInPath
  | nullInName
  | nameTooLong (path : Text)
  | missingFile (path : Text)
  deriving Inhabited

namespace Error

def inQuotes (s : Text) : Text :=
  "'" ++ s ++ "'"

def number (n : Nat) : Text :=
  Text.ofList (Text.decimal n)

/-- The wording of surrogates that stand for no bytes; a single one is shown. -/
def unencodableText (fault : Text.SurrogateFault) : Text :=
  let what :=
    if fault.behind = fault.first + 1 then
      "character '\\u" ++ Text.ofList (Text.paddedDigits 16 4 fault.number) ++ "' in position " ++
        number fault.first
    else "characters in position " ++ number fault.first ++ "-" ++ number (fault.behind - 1)
  "'utf-8' codec can't encode " ++ what ++ ": surrogates not allowed"

def category : Error → Category
  | .text .tooManyDigits => .fault .value
  | .text (.nameNotText _) => .fault .type
  | .unrendered .. | .noRoot | .emptyTarget | .noSegment .. => .failure .pathNotFound
  | .pathTooLong _ | .stringTooLong _ | .numberRange _ | .keyTooLong _ | .storageTooLong =>
    .failure .limitExceeded
  | .argumentsToPath | .unmeasured _ | .bytesPath | .notSegment _ | .positionType _ |
      .unhashable _ | .notReal _ | .notString _ | .notBoolean _ | .inconvertible _ => .fault .type
  | .positionNegative _ | .selfReferencing _ | .malformedLine _ | .unnamedBackend _ | .nameTaken _ |
      .unencodable _ | .nullInPath | .nullInName | .undecoded _ => .fault .value
  | .mismatch .. => .failure .typeMismatch
  | .notPlaced _ => .unclassified
  | .raised failure _ => .failure failure.kind
  | .json _ | .yaml | .unsupported .. | .notText _ | .noStorage .. | .unreadable .. =>
    .failure .backendFailure
  | .yamlForm (.noTruth _) => .fault .key
  | .yamlForm .noDigits => .fault .lookup
  | .unsupportedOperation .. | .yamlForm .noTime => .fault .attribute
  | .tooDeep => .fault .recursion
  | .beyondFloat _ => .fault .overflow
  | .notRegistered _ => .fault .key
  | .noBackendNamed _ | .noBackends | .noneAccepts | .noneHandles _ => .failure .backendUnavailable
  | .unknownEncoding _ => .fault .lookup
  | .noHome => .fault .runtime
  | .nameTooLong _ => .fault .system
  | .missingFile _ => .fault .missingFile

/-- The text that an error is raised with. -/
def argument : Error → Text
  | .text fault => fault.message
  | .unrendered template fault =>
    "Cannot render path template " ++ inQuotes template ++ ": " ++ fault.message
  | .pathTooLong length => "Path length " ++ number length ++ " exceeds limit of 256"
  | .argumentsToPath => "DataPath does not accept substitution arguments"
  | .unmeasured typeName => "object of type " ++ inQuotes typeName ++ " has no len()"
  | .bytesPath => "a bytes-like object is required, not 'str'"
  | .unsupportedOperation typeName operation =>
    inQuotes typeName ++ " object has no attribute " ++ inQuotes operation
  | .notSegment typeName => "path part must be str, int, Key or Index, not " ++ typeName
  | .positionType typeName => "Index position must be int, not " ++ typeName
  | .positionNegative n =>
    "Index position must be non-negative, got " ++ Text.ofList (Text.signedDecimal n)
  | .unhashable typeName => "unhashable type: " ++ inQuotes typeName
  | .noRoot => "No data to resolve the path against"
  | .emptyTarget => "Empty path has no write target"
  | .noSegment segment reached kind =>
    let place := Segment.dotted reached
    "Path segment " ++ inQuotes segment.text ++ " not found under " ++
      inQuotes (if place = "" then "<root>" else place) ++ " (" ++ kind.name ++ ")"
  | .notReal typeName => "number value must be real, not " ++ typeName
  | .notString typeName => "string value must be str, not " ++ typeName
  | .notBoolean typeName => "boolean value must be bool, not " ++ typeName
  | .stringTooLong length => "String length " ++ number length ++ " exceeds limit of 127"
  | .numberRange fault => "Number out of float range: " ++ fault.message
  | .keyTooLong length => "Key length " ++ number length ++ " exceeds limit of 256"
  | .inconvertible typeName => "Cannot convert " ++ typeName ++ " to a DataNode"
  | .selfReferencing container => "Cannot convert self-referencing " ++ container.typeName
  | .mismatch expected path found =>
    "Expected " ++ expected.name ++ " at " ++ inQuotes path ++ ", found " ++ found.name
  | .notPlaced path => "Cannot set value at " ++ inQuotes path
  | .raised _ words => words
  | .json fault => "Cannot parse JSON: " ++ fault.message
  | .yaml => "Cannot parse YAML"
  | .yamlForm fault => fault.text
  | .tooDeep => "maximum recursion depth exceeded"
  | .malformedLine n =>
    "dictionary update sequence element #" ++ number n ++ " has length 1; 2 is required"
  | .beyondFloat fault => fault.message
  | .unsupported backend cause =>
    "Unsupported " ++ backend ++ " content: " ++ cause.category.wording cause.argument
  | .unnamedBackend label => label ++ " has no name"
  | .nameTaken name => "Backend " ++ inQuotes name ++ " is already registered"
  | .notRegistered name => name
  | .noBackendNamed name => "No backend named " ++ inQuotes name
  | .noBackends => "No backends registered"
  | .noneAccepts => "No backend accepts the given string"
  | .noneHandles storage => "No backend handles storage " ++ inQuotes storage
  | .notText typeName => "Expected str, not " ++ typeName
  | .storageTooLong => "Storage path length exceeds limit of 256"
  | .noStorage backend path => "No " ++ backend ++ " storage found at " ++ inQuotes path
  | .unreadable path reason => "Cannot read " ++ inQuotes path ++ ": " ++ reason
  | .unknownEncoding name => "unknown encoding: " ++ name
  | .undecoded reason => reason
  | .noHome => "Could not determine home directory."
  | .unencodable fault => unencodableText fault
  | .nullInPath => "embedded null byte"
  | .nullInName => "embedded null character"
  | .nameTooLong path => "[Errno 36] File name too long: " ++ Text.quoted path
  | .missingFile path => "[Errno 2] No such file or directory: " ++ Text.quoted path

def message (e : Error) : Text :=
  e.category.wording e.argument

def kind? (e : Error) : Option ErrorKind :=
  match e.category with
  | .failure kind => some kind
  | _ => none

end Error

end Grove
