import Grove.Proofs.Session.Mirroring

/-!
# Trails of sessions

Registries that work with the shared settings have the base of storage paths in common, and anybody
may set it. What is loaded by way of the base is noted along a session. Two sessions that differ in
where they set the base are not compared step by step, since one may load where the other one fails.
Each is compared with a session that neither sets the base nor does anything that reads it: it stays
within both.
-/
namespace Grove.Session

open Workspace

variable {s : Session} {c : Command}

/-! ### Commands that read the base -/

/-- What a command that depends on the base may do. -/
inductive Peeks (s : Session) : Effect → Prop
  | tell (a : Answer) : Peeks s (s.told a)
  | hold (t : Tree) (id : Option RegistryId) :
      Peeks s (handed (s.workspace.hold t id).2 (s.workspace.hold t id).1)

theorem peeks_of_readsBase (reads : s.readsBase c = true) : Yields s.Peeks (s.perform c) := by
  cases c with
  | base => exact yields_ok (.tell _)
  | use on what =>
    refine .bind fun id _ => ?_
    cases what with
    | selectForPath | listEntries => exact .bind fun _ _ => yields_ok (.tell _)
    | settings => exact yields_ok (.tell _)
    | loadStorage storage choice => exact yields_handedOption (.tell _) fun t _ => .hold t id
    | _ => cases reads
  | _ => cases reads

/-- A command that reads the base changes nothing, or holds one more tree, for which a name may
stand afterwards. -/
theorem run_of_readsBase (reads : s.readsBase c = true) (name : Option Text) :
    (s.run c name).1 = s ∨
      ∃ t id, (s.run c name).1.workspace = (s.workspace.hold t id).2 ∧
        ∀ key, Entries.get? key (s.run c name).1.names = Entries.get? key s.names ∨
          Entries.get? key (s.run c name).1.names =
            some (.start (.owner s.workspace.owners.size)) := by
  have peeks := peeks_of_readsBase reads
  simp only [get?_names_run]
  unfold Session.run
  revert peeks
  generalize s.perform c = x
  intro peeks
  cases x with
  | error refusal => exact Or.inl rfl
  | ok e =>
    cases peeks e rfl with
    | tell a =>
      refine Or.inl ?_
      cases name <;> rfl
    | hold t id =>
      refine Or.inr ⟨t, id, rfl, fun key => ?_⟩
      by_cases hkey : name = some key
      · exact Or.inr (if_pos hkey)
      · exact Or.inl (if_neg hkey)

/-- A command that writes leaves the session as it is. -/
theorem run_of_writer? {b : Backend} (writes : s.writer? c = some b) (name : Option Text) :
    (s.run c name).1 = s := by
  have tells : Yields (fun e => ∃ a, e = s.told a) (s.perform c) := by
    cases c with
    | write => exact .bind fun _ _ => .bind fun _ _ => yields_ok ⟨_, rfl⟩
    | use on what =>
      refine .bind fun id _ => ?_
      cases what with
      | serialize data choice =>
        cases data with
        | none => exact .bind fun _ _ => yields_ok ⟨_, rfl⟩
        | some name => exact .bind fun _ _ => .bind fun _ _ => yields_ok ⟨_, rfl⟩
      | _ => cases writes
    | _ => cases writes
  unfold Session.run
  cases hperform : s.perform c with
  | error refusal => rfl
  | ok e =>
    obtain ⟨a, rfl⟩ := tells e hperform
    cases name <;> rfl

/-- What reads the base is the question for it, and registries that work with the shared settings
when they look for files or are asked where they look. -/
theorem readsBase_iff :
    s.readsBase c = true ↔ c = .base ∨ ∃ on what id, c = .use on what ∧ what.readsSettings = true ∧
    s.registry on = .ok id ∧ (s.workspace.registry id).config = none := by
  constructor
  · intro reads
    cases c with
    | base => exact Or.inl rfl
    | use on what =>
      obtain ⟨hwhat, hown⟩ := Bool.and_eq_true_iff.mp reads
      cases hon : s.registry on with
      | error refusal =>
        rw [hon] at hown
        cases hown
      | ok id =>
        rw [hon] at hown
        exact Or.inr ⟨on, what, id, rfl, hwhat, hon, Option.isNone_iff_eq_none.mp hown⟩
    | _ => cases reads
  · rintro (rfl | ⟨on, what, id, rfl, hwhat, hon, hown⟩)
    · rfl
    · simp [readsBase, hwhat, hon, hown]

/-! ### Trails -/

abbrev Step := Command × Option Text

/-- The steps but for those that set the base. -/
def withoutBase (steps : List Step) : List Step :=
  steps.filter fun step => !step.1.setsBase

open Classical in
/-- The report on a step, unless it depends on the base. -/
noncomputable def report? (s : Session) (step : Step) : Option Report :=
  if s.DependsOnBase step.1 then none else some (s.run step.1 step.2).2

/-- The reports on steps, with gaps for those that depend on the base, and without those that set
it. -/
noncomputable def reports (s : Session) : List Step → List (Option Report)
  | [] => []
  | step :: rest =>
    let later := (s.run step.1 step.2).1.reports rest
    if step.1.setsBase then later else s.report? step :: later

/-- A session with the handles of what was loaded by way of the base. -/
structure Trail where
  session : Session
  nodes : List NodeId
  owners : List OwnerId

namespace Trail

def fresh (host : Host) : Trail :=
  ⟨.fresh host, [], []⟩

/-- The trail after a step. If the step reads the base, what it brings in is noted. -/
def after (t : Trail) (step : Step) : Trail :=
  let s := (t.session.run step.1 step.2).1
  let nodes := t.session.workspace.store.nodes.size
  let owners := t.session.workspace.owners.size
  if t.session.readsBase step.1 then
    { session := s
      nodes := t.nodes ++ List.range' nodes (s.workspace.store.nodes.size - nodes)
      owners := t.owners ++ List.range' owners (s.workspace.owners.size - owners) }
  else { t with session := s }

theorem session_after (t : Trail) (step : Step) :
    (t.after step).session = (t.session.run step.1 step.2).1 := by
  unfold after
  split <;> rfl

/-- A name stands for a tree that was loaded by way of the base. -/
def Loaded (t : Trail) (name : Text) : Prop :=
  ∃ id ∈ t.owners, Entries.get? name t.session.names = some (.start (.owner id))

/-- A step mentions no tree that was loaded by way of the base. -/
def Spares (t : Trail) (step : Step) : Prop :=
  ∀ name ∈ step.1.mentions, ¬ t.Loaded name

/-- A condition holds of every step and the trail up to it. -/
def Throughout (P : Trail → Step → Prop) (t : Trail) : List Step → Prop
  | [] => True
  | step :: rest => P t step ∧ (t.after step).Throughout P rest

instance (t : Trail) (name : Text) : Decidable (t.Loaded name) :=
  inferInstanceAs (Decidable (∃ id ∈ t.owners, _))

instance : DecidableRel Spares := fun _ step =>
  inferInstanceAs (Decidable (∀ name ∈ step.1.mentions, _))

instance decidableThroughout (P : Trail → Step → Prop) [DecidableRel P] (t : Trail) :
    (steps : List Step) → Decidable (t.Throughout P steps)
  | [] => isTrue trivial
  | step :: rest =>
    have := decidableThroughout P (t.after step) rest
    inferInstanceAs (Decidable (P t step ∧ _))

theorem Throughout.of_prefix {P : Trail → Step → Prop} {t : Trail} {front steps : List Step}
    (h : t.Throughout P steps) (hfront : front <+: steps) : t.Throughout P front := by
  induction front generalizing t steps with
  | nil => trivial
  | cons step front ih =>
    obtain ⟨back, rfl⟩ := hfront
    exact ⟨h.1, ih h.2 ⟨back, rfl⟩⟩

end Trail

/-- A session has all that a trail has, but for what was loaded by way of the base, and nothing
else. -/
structure Underlies (f : NodeId → NodeId) (g : OwnerId → OwnerId) (s : Session)
    (t : Trail) : Prop where
  workspace : s.workspace.Embeds f g t.session.workspace
  nodes : ∀ n, n ∈ t.nodes ↔ n ∉ Set.range f
  owners : ∀ id, id ∈ t.owners ↔ id ∉ Set.range g
  names : ∀ name, ¬ t.Loaded name →
    Entries.get? name t.session.names = (Entries.get? name s.names).map (Reference.rename f g)

namespace Underlies

theorem fresh (host : Host) : (Session.fresh host).Underlies id id (.fresh host) where
  workspace := .refl _
  nodes n := by simp [Trail.fresh]
  owners i := by simp [Trail.fresh]
  names _ _ := rfl

variable {f : NodeId → NodeId} {g : OwnerId → OwnerId} {t : Trail} {step : Step}
  (h : s.Underlies f g t)

include h

theorem mirrors (spared : t.Spares step) : Mirrors f g step.1.mentions s t.session where
  workspace := h.workspace
  names name hname := h.names name (spared name hname)

/-- Setting the base changes nothing else. -/
theorem after_setBase (sets : step.1.setsBase = true) : s.Underlies f g (t.after step) := by
  obtain ⟨c, name⟩ := step
  cases c with
  | setBase base =>
    cases name <;> exact ⟨h.workspace.setBase base, h.nodes, h.owners, h.names⟩
  | _ => cases sets

/-- One more tree, noted as brought in, leaves a gap in what there is, and only its owner's name is
lost. -/
theorem held (sound : s.Sound) {u : Session} {tree : Tree} {id : Option RegistryId}
    (hworkspace : u.workspace = (t.session.workspace.hold tree id).2)
    (hnames : ∀ key, Entries.get? key u.names = Entries.get? key t.session.names ∨
      Entries.get? key u.names = some (.start (.owner t.session.workspace.owners.size))) :
    s.Underlies (Spreads.skip f s.workspace.store.nodes.size tree.count)
      (Spreads.skip g s.workspace.owners.size 1)
      ⟨u, t.nodes ++ List.range' t.session.workspace.store.nodes.size tree.count,
        t.owners ++ List.range' t.session.workspace.owners.size 1⟩ where
  workspace := by
    rw [hworkspace]
    exact h.workspace.held sound.reached.sound tree id
  nodes n := by
    simp only [List.mem_append, h.nodes, List.mem_range'_1, h.workspace.store.spreads.range_skip]
    tauto
  owners i := by
    simp only [List.mem_append, h.owners, List.mem_range'_1, h.workspace.owners.range_skip]
    tauto
  names name unloaded := by
    have kept : Entries.get? name u.names = Entries.get? name t.session.names := by
      rcases hnames name with kept | brought
      · exact kept
      · refine absurd ⟨_, List.mem_append_right _ ?_, brought⟩ unloaded
        exact List.mem_range'_1.mpr ⟨Nat.le_refl _, Nat.lt_succ_self _⟩
    have before : ¬ t.Loaded name := by
      rintro ⟨i, hi, hget⟩
      exact unloaded ⟨i, List.mem_append_left _ hi, kept.trans hget⟩
    rw [kept, h.names name before]
    -- Names stand for what there was, and there the gap changes nothing.
    apply Option.map_congr
    intro r hr
    cases r with
    | registry | config => rfl
    | start a =>
      exact congrArg Reference.start (Start.rename_skip (sound.known hr) f g tree.count 1).symm

/-- What reads the base leaves everything as it was, but for what it loads. -/
theorem after_readsBase (reads : t.session.readsBase step.1 = true) (sound : s.Sound) :
    ∃ f' g', s.Underlies f' g' (t.after step) := by
  unfold Trail.after
  rw [if_pos reads]
  rcases run_of_readsBase reads step.2 with same | ⟨tree, id, hworkspace, hnames⟩
  · refine ⟨f, g, ?_⟩
    simp only [same, Nat.sub_self, List.range'_zero, List.append_nil]
    exact h
  · have hnodes : (t.session.workspace.hold tree id).2.store.nodes.size -
        t.session.workspace.store.nodes.size =
        tree.count :=
      (congrArg (· - _) (Store.size_plant _ tree)).trans (Nat.add_sub_cancel_left ..)
    have howners : (t.session.workspace.hold tree id).2.owners.size -
        t.session.workspace.owners.size = 1 :=
      (congrArg (· - _) (Array.size_push _)).trans (Nat.add_sub_cancel_left ..)
    simp only [hworkspace, hnodes, howners]
    exact ⟨_, _, h.held sound hworkspace hnames⟩

omit h in
theorem after_of_not_readsBase (reads : t.session.readsBase step.1 = false) :
    t.after step = { t with session := (t.session.run step.1 step.2).1 } := by
  simp [Trail.after, reads]

/-- What depends on the base leaves everything as it was, but for what it loads. -/
theorem after_dependsOnBase (depends : t.session.DependsOnBase step.1) (sound : s.Sound) :
    ∃ f' g', s.Underlies f' g' (t.after step) := by
  cases reads : t.session.readsBase step.1 with
  | true => exact h.after_readsBase reads sound
  | false =>
    rcases depends with hreads | ⟨b, writes, -⟩
    · cases reads.symm.trans hreads
    · rw [after_of_not_readsBase reads, run_of_writer? writes]
      exact ⟨f, g, h⟩

/-- What neither sets the base nor depends on it is done to both. -/
theorem after_apart (sound : s.Sound) (spared : t.Spares step) (sets : step.1.setsBase = false)
    (apart : ¬ s.DependsOnBase step.1) :
    (s.run step.1 step.2).1.Underlies f g (t.after step) ∧
      (t.session.run step.1 step.2).2 = (s.run step.1 step.2).2 := by
  have mirrors := h.mirrors spared
  have reads : t.session.readsBase step.1 = false := by
    rw [mirrors.readsBase_eq]
    simpa using fun hreads => apart (Or.inl hreads)
  rw [after_of_not_readsBase reads]
  refine ⟨⟨?workspace, h.nodes, h.owners, ?names⟩, mirrors.report_run sound apart sets step.2⟩
  case workspace => exact mirrors.workspace_run sound apart sets step.2
  case names =>
    intro name unloaded
    rcases mirrors.names_run sound apart sets step.2 name with same | ⟨kept', kept⟩
    · exact same
    · have before : ¬ t.Loaded name := by
        rintro ⟨i, hi, hget⟩
        exact unloaded ⟨i, hi, kept'.trans hget⟩
      exact kept'.trans ((h.names name before).trans (congrArg _ kept.symm))

end Underlies

/-! ### Sessions that pass over the base -/

open Classical in
/-- The session after a step, which is passed over if it depends on the base. -/
noncomputable def pass (s : Session) (step : Step) : Session :=
  if s.DependsOnBase step.1 then s else (s.run step.1 step.2).1

/-- The reports of a session that passes over what depends on the base. -/
noncomputable def passed (s : Session) : List Step → List (Option Report)
  | [] => []
  | step :: rest => s.report? step :: (s.pass step).passed rest

theorem Sound.pass (h : s.Sound) (step : Step) : (s.pass step).Sound := by
  unfold Session.pass
  split
  · exact h
  · exact h.run _ _

variable {f : NodeId → NodeId} {g : OwnerId → OwnerId} {t : Trail}

/-- Unless it sets the base, a step is reported the same, and what it brings in is there in both or
noted. -/
theorem Underlies.pass (h : s.Underlies f g t) (sound : s.Sound) {step : Step}
    (spared : t.Spares step) (sets : step.1.setsBase = false) :
    t.session.report? step = s.report? step ∧ ∃ f' g',
      (s.pass step).Underlies f' g' (t.after step) := by
  have same : t.session.DependsOnBase step.1 ↔ s.DependsOnBase step.1 :=
    (h.mirrors spared).dependsOnBase_iff
  unfold report? Session.pass
  by_cases depends : s.DependsOnBase step.1
  · rw [if_pos (same.mpr depends), if_pos depends, if_pos depends]
    exact ⟨rfl, h.after_dependsOnBase (same.mpr depends) sound⟩
  · rw [if_neg (mt same.mp depends), if_neg depends, if_neg depends]
    obtain ⟨after, report⟩ := h.after_apart sound spared sets depends
    exact ⟨congrArg some report, f, g, after⟩

/-- So are all steps. -/
theorem Underlies.run (h : s.Underlies f g t) (sound : s.Sound) {steps : List Step}
    (spares : t.Throughout Trail.Spares steps) :
    t.session.reports steps = s.passed (withoutBase steps) ∧
      ∃ f' g', ((withoutBase steps).foldl Session.pass s).Underlies f' g'
        (steps.foldl Trail.after t) := by
  induction steps generalizing s f g t with
  | nil => exact ⟨rfl, f, g, h⟩
  | cons step rest ih =>
    obtain ⟨hspares, spares⟩ := spares
    cases sets : step.1.setsBase with
    | true =>
      obtain ⟨reports, after⟩ := ih (h.after_setBase sets) sound spares
      rw [Trail.session_after] at reports
      simp only [withoutBase, List.filter_cons, sets, Session.reports]
      exact ⟨reports, after⟩
    | false =>
      obtain ⟨report, f', g', next⟩ := h.pass sound hspares sets
      obtain ⟨reports, after⟩ := ih next (sound.pass step) spares
      rw [Trail.session_after] at reports
      simp only [withoutBase, List.filter_cons, sets, Session.reports]
      exact ⟨congrArg₂ List.cons report reports, after⟩

end Grove.Session
