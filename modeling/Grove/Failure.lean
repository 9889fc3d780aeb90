import Grove.Text.Quoted

/-!
# Kinds, classes and categories of errors

A failure of the library has one of a few kinds, and there is one class of failures for each kind.
Some classes belong to a class of general faults as well, and whoever catches that one catches them.
The general class of missing keys puts its text between quotes; a class of failures that belongs to
it says whether it does, too.
-/
namespace Grove

inductive ErrorKind where
  | allocationFailure
  | pathNotFound
  | typeMismatch
  | backendUnavailable
  | limitExceeded
  | backendFailure
  deriving DecidableEq

/-- The classes of failures. -/
inductive FailureClass where
  | allocation
  | pathNotFound
  | typeMismatch
  | limitExceeded
  | backendUnavailable
  | backend
  deriving DecidableEq

inductive FaultClass where
  | type
  | value
  | key
  | lookup
  | attribute
  | overflow
  | recursion
  | runtime
  | system
  | missingFile
  deriving DecidableEq

/-- The categories of errors: the failures of the library, with or without a kind, and the general
faults. -/
inductive Category where
  | failure (kind : ErrorKind)
  | unclassified
  | fault (general : FaultClass)
  deriving DecidableEq

namespace ErrorKind

def name : ErrorKind → Text
  | .allocationFailure => "allocation_failure"
  | .pathNotFound => "path_not_found"
  | .typeMismatch => "type_mismatch"
  | .backendUnavailable => "backend_unavailable"
  | .limitExceeded => "limit_exceeded"
  | .backendFailure => "backend_failure"

/-- Every kind, in the order in which they are listed. -/
def all : List ErrorKind :=
  [.allocationFailure, .pathNotFound, .typeMismatch, .backendUnavailable, .limitExceeded,
    .backendFailure]

def failureClass : ErrorKind → FailureClass
  | .allocationFailure => .allocation
  | .pathNotFound => .pathNotFound
  | .typeMismatch => .typeMismatch
  | .backendUnavailable => .backendUnavailable
  | .limitExceeded => .limitExceeded
  | .backendFailure => .backend

end ErrorKind

def FaultClass.wording (general : FaultClass) (text : Text) : Text :=
  match general with
  | .key => Text.quoted text
  | _ => text

namespace FailureClass

def kind : FailureClass → ErrorKind
  | .allocation => .allocationFailure
  | .pathNotFound => .pathNotFound
  | .typeMismatch => .typeMismatch
  | .limitExceeded => .limitExceeded
  | .backendUnavailable => .backendUnavailable
  | .backend => .backendFailure

def general? : FailureClass → Option FaultClass
  | .pathNotFound => some .key
  | .typeMismatch => some .type
  | .limitExceeded => some .value
  | _ => none

/-- Whether a class keeps the text of its failures as it is, whatever the general faults do. -/
def keepsText : FailureClass → Bool
  | .pathNotFound => true
  | _ => false

def wording (c : FailureClass) (text : Text) : Text :=
  if c.keepsText then text
  else
    match c.general? with
    | some general => general.wording text
    | none => text

@[simp] theorem kind_failureClass (kind : ErrorKind) : kind.failureClass.kind = kind := by
  cases kind <;> rfl

@[simp] theorem failureClass_kind (c : FailureClass) : c.kind.failureClass = c := by
  cases c <;> rfl

/-- No class of failures changes the text. -/
@[simp] theorem wording_eq (c : FailureClass) (text : Text) : c.wording text = text := by
  cases c <;> rfl

end FailureClass

namespace Category

def isFailure : Category → Bool
  | .failure _ | .unclassified => true
  | .fault _ => false

def isContentFault : Category → Bool
  | .fault .type | .fault .value | .fault .overflow | .fault .recursion => true
  | _ => false

def wording (c : Category) (text : Text) : Text :=
  match c with
  | .failure kind => kind.failureClass.wording text
  | .unclassified => text
  | .fault general => general.wording text

/-- Whether whoever catches a class of general faults catches the errors of a category. -/
def isCaughtAs (c : Category) (general : FaultClass) : Bool :=
  match c with
  | .failure kind => kind.failureClass.general? = some general
  | .unclassified => false
  | .fault g => g = general

end Category

end Grove
