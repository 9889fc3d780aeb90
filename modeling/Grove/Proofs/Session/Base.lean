import Grove.Proofs.Session.Trail

/-!
# The shared base

What depends on the base of storage paths are the commands that look for files through a registry
that works with the shared settings, or ask where it looks, and those that write by these settings
through a backend that looks at the base. Everything else that a session does is the same wherever
the base is set, up to the handles of what was loaded in between, as long as nothing makes use of
that.
-/
namespace Grove.Session

open Workspace

/-- Two trails have the same, but for what was loaded by way of the base. -/
def Trail.Agrees (t t' : Trail) : Prop :=
  ∃ (s : Session) (f : NodeId → NodeId) (g : OwnerId → OwnerId) (f' : NodeId →
    NodeId) (g' : OwnerId → OwnerId), s.Underlies f g t ∧ s.Underlies f' g' t'

/-- Two sessions over the same files differ only in where they set the base of storage paths. If no
step mentions a tree that was loaded by way of the base, then every step that does not depend on the
base is reported the same in both; and as far as both have come, they have the same, up to handles,
but for what was loaded by way of the base. What depends on it is the question for it; registries
that work with the shared settings, when they look for files or are asked where they look; and
writing by these settings through a backend that looks at the base, which JSON and YAML do not. -/
theorem base_does_not_leak (host : Host) {xs ys : List Step}
    (same : withoutBase xs = withoutBase ys)
    (spares : (Trail.fresh host).Throughout Trail.Spares xs)
    (spares' : (Trail.fresh host).Throughout Trail.Spares ys) :
    (Session.fresh host).reports xs = (Session.fresh host).reports ys ∧
      (∀ front front', front <+: xs → front' <+: ys → withoutBase front = withoutBase front' →
        (front.foldl Trail.after (.fresh host)).Agrees (front'.foldl Trail.after (.fresh host))) ∧
      (∀ (s : Session) c, s.DependsOnBase c ↔
        c = .base ∨
          (∃ on what id, c = .use on what ∧ what.readsSettings = true ∧ s.registry on = .ok id ∧
            (s.workspace.registry id).config = none) ∨
          ∃ b, s.writer? c = some b ∧ ¬ b.Blind) ∧
      Backend.json.Blind ∧ Backend.yaml.Blind := by
  have run {steps : List Step} (spares : (Trail.fresh host).Throughout Trail.Spares steps) :=
    (Underlies.fresh host).run (.fresh host) spares
  refine ⟨?reports, ?agrees, ?depends, Backend.blind_json, Backend.blind_yaml⟩
  case reports =>
    calc (Session.fresh host).reports xs
      _ = (Session.fresh host).passed (withoutBase xs) := (run spares).1
      _ = (Session.fresh host).passed (withoutBase ys) := by rw [same]
      _ = (Session.fresh host).reports ys := (run spares').1.symm
  case agrees =>
    intro front front' hfront hfront' hsame
    obtain ⟨-, f, g, h⟩ := run (spares.of_prefix hfront)
    obtain ⟨-, f', g', h'⟩ := run (spares'.of_prefix hfront')
    rw [hsame] at h
    exact ⟨_, f, g, f', g', h, h'⟩
  case depends =>
    intro s c
    rw [DependsOnBase, readsBase_iff, or_assoc]

/-- A file below each of two directories. -/
def twoPlaces : Host :=
  .ofFiles (.ofPaths [] [("a/t.json", .file [116, 114, 117, 101]), ("b/t.json", .file [91, 93])])

/-- A relative path is loaded from two places, one tree unlike the other, while a registry with
settings of its own loads from the same file in both sessions and what it loaded is written the
same. -/
theorem base_does_not_leak_into_settings :
    let steps : List Step := [(.use none (.loadStorage "t.json" .unspecified), some "loaded"),
      (.makeRegistry [.json] (.own ⟨⟨.root, ["b"]⟩, "utf-8", 2⟩) true, some "own"),
      (.use (some "own") (.loadStorage "t.json" .unspecified), some "tree"),
      (.use none (.serialize (some "tree") .unspecified), none)]
    let xs := (.setBase ⟨.root, ["a"]⟩, none) :: steps
    let ys := (.setBase ⟨.root, ["b"]⟩, none) :: steps ++ [(.setBase ⟨.root, ["a"]⟩, none)]
    withoutBase xs = withoutBase ys ∧
      (Trail.fresh twoPlaces).Throughout Trail.Spares xs ∧
      (Trail.fresh twoPlaces).Throughout Trail.Spares ys ∧
      (xs.foldl Trail.after (.fresh twoPlaces)).nodes = [0] ∧
      (Session.fresh twoPlaces).reports xs = (Session.fresh twoPlaces).reports ys ∧
      (xs.foldl Trail.after (.fresh twoPlaces)).Agrees
          (ys.foldl Trail.after (.fresh twoPlaces)) := by
  intro steps xs ys
  have same : withoutBase xs = withoutBase ys := by rfl
  have spares : (Trail.fresh twoPlaces).Throughout Trail.Spares xs := by decide +kernel
  have spares' : (Trail.fresh twoPlaces).Throughout Trail.Spares ys := by decide +kernel
  obtain ⟨reports, agrees, -⟩ := base_does_not_leak twoPlaces same spares spares'
  refine ⟨same, spares, spares', by decide +kernel, reports, ?_⟩
  exact agrees xs ys List.prefix_rfl List.prefix_rfl same

/-- A registry that is given the shared settings loads from where the base is set, and a backend
that writes the base writes it where no settings are given. -/
theorem base_does_not_leak_shared :
    let telling : Backend := { Backend.json with dump := fun config _ => .ok config.base.text }
    let steps : List Step := [(.sharedConfig, some "shared"),
      (.makeRegistry [.json] (.named "shared") true, some "given"),
      (.use (some "given") (.loadStorage "t.json" .unspecified), none),
      (.makeNode (.ofValue (.list [])), some "node"),
      (.use none (.serialize (some "node") (.given telling)), none)]
    let xs := (.setBase ⟨.root, ["a"]⟩, none) :: steps
    let ys := (.setBase ⟨.root, ["b"]⟩, none) :: steps
    withoutBase xs = withoutBase ys ∧
      ((Session.fresh twoPlaces).runAll xs)[3]? = some ⟨.ok (.owned (some (.boolean true))), none⟩ ∧
      ((Session.fresh twoPlaces).runAll ys)[3]? = some ⟨.ok (.owned (some (.list []))), none⟩ ∧
      ((Session.fresh twoPlaces).runAll xs)[5]? = some ⟨.ok (.text "/a"), none⟩ ∧
      ((Session.fresh twoPlaces).runAll ys)[5]? = some ⟨.ok (.text "/b"), none⟩ := by
  refine ⟨?_, ?_, ?_, ?_, ?_⟩
  · rfl
  · rfl
  · rfl
  · rfl
  · rfl

end Grove.Session
