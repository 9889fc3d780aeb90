import Grove.Proofs.Registry.Strictness
import Grove.Workspace.Basic

/-!
# Writing without the base

The base of storage paths is there to find files. A backend that does not look at it writes a tree
the same wherever files are looked for. JSON and YAML do not look at it.
-/
namespace Grove

namespace Backend

/-- What a backend writes does not depend on the base of storage paths. -/
def Blind (b : Backend) : Prop :=
  ∀ (config : StorageConfig) (base : Location) (t : Tree),
    b.dump { config with base } t = b.dump config t

theorem blind_json : json.Blind :=
  fun _ _ _ => rfl

theorem blind_yaml : yaml.Blind :=
  fun _ _ _ => rfl

end Backend

/-- Through a backend that does not look at the base, a tree is written the same, whatever the
base. -/
theorem Registry.serialize_base_eq {r : Registry} {choice : BackendChoice}
    (blind : ∀ b, r.choose choice = .ok b → b.Blind) (config : StorageConfig) (base : Location)
    (t : Option Tree) :
    r.serialize { config with base } t choice = r.serialize config t choice := by
  change (r.withStrict r.strict).serialize _ t choice =
    (r.withStrict r.strict).serialize config t choice
  cases hchoose : r.choose choice with
  | ok b =>
    rw [serialize_of_choose r r.strict hchoose, serialize_of_choose r r.strict hchoose]
    cases t with
    | none => rfl
    | some t => simp only [blind b hchoose config base t]
  | error e =>
    rw [serialize_of_choose_error r r.strict hchoose, serialize_of_choose_error r r.strict hchoose]

/-- The backend that a choice stands for at a registry that writes by the shared settings. -/
def Workspace.writer? (w : Workspace) (id : Option RegistryId)
    (choice : BackendChoice) : Option Backend :=
  if (w.registry id).config.isNone then ((w.registry id).choose choice).toOption else none

end Grove
