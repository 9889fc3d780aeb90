import Grove.Proofs.Document.Containment
import Grove.Proofs.Result
import Grove.Proofs.Tree.Merging
import Grove.Tree.Conversion

/-!
# The normal form of a document

What conversion makes of a document, given back as a plain value, can be told without trees. Every
reference is replaced by what it stands for; then empty values go from containers, every sequence
becomes a list, texts are cut, numbers become the nearest ones, and of the entries of a mapping with
the same text as a key the first gives the place and the last the value.
-/
namespace Grove

/-! ### Documents unfolded -/

mutual

/-- The value with every reference replaced by what it stands for. -/
inductive Document.Unfolds (d : Document) : Value → Value → Prop
  | list {items items' : List Value}
      (h : d.UnfoldsAll items items') : Unfolds d (.list items) (.list items')
  | tuple {items items' : List Value}
      (h : d.UnfoldsAll items items') : Unfolds d (.tuple items) (.tuple items')
  | dict {entries entries' : List (Value × Value)} (h : d.UnfoldsEntries entries entries') :
      Unfolds d (.dict entries) (.dict entries')
  | shared {kind : Container} {id : Nat} {body v : Value} (hbody : d.bodies[id]? = some body)
      (h : d.Unfolds body v) :
      Unfolds d (.shared kind id) v
  | other {v : Value} (inPlace : v.container? = none)
      (here : ∀ kind id, v ≠ .shared kind id) : Unfolds d v v

inductive Document.UnfoldsAll (d : Document) : List Value → List Value → Prop
  | nil : UnfoldsAll d [] []
  | cons {v v' : Value} {vs vs' : List Value} (head : d.Unfolds v v') (tail : d.UnfoldsAll vs vs') :
      UnfoldsAll d (v :: vs) (v' :: vs')

inductive Document.UnfoldsEntries (d : Document) : List (Value × Value) →
    List (Value × Value) → Prop
  | nil : UnfoldsEntries d [] []
  | cons (k : Value) {v v' : Value} {es es' : List (Value × Value)} (head : d.Unfolds v v')
      (tail : d.UnfoldsEntries es es') : UnfoldsEntries d ((k, v) :: es) ((k, v') :: es')

end

/-! ### Normal forms -/

mutual

/-- The normal form of a value without references, if it has one. -/
def Value.normal? : Value → Option Value
  | .boolean b => some (.boolean b)
  | .text s => some (.text (Text.ofList (s.toList.take maxStringLength)))
  | .list items => (Value.normalItems? items).map .list
  | .tuple items => (Value.normalItems? items).map .list
  | .dict entries =>
    (Value.namedEntries? entries).map fun es =>
      .dict ((Entries.merged es).map fun (k, v) => (.text k, v))
  | v =>
    match v.real? with
    | some (.ok x) =>
      some (match x.toInt? with
        | some n => .int n
        | none => .float x)
    | _ => none

def Value.normalItems? : List Value → Option (List Value)
  | [] => some []
  | .null :: vs => Value.normalItems? vs
  | v :: vs => do return (← v.normal?) :: (← Value.normalItems? vs)

/-- The texts of keys with the normal forms of their values, less the entries with an empty
value. -/
def Value.namedEntries? : List (Value × Value) → Option (List (Text × Value))
  | [] => some []
  | (_, .null) :: es => Value.namedEntries? es
  | (k, v) :: es => do return (← k.asText.toOption, ← v.normal?) :: (← Value.namedEntries? es)

end

namespace Document

variable {d : Document}

mutual

/-- There is one way to unfold a value at most. -/
theorem Unfolds.unique {v u u' : Value} : d.Unfolds v u → d.Unfolds v u' → u = u'
  | .list h, .list h' => congrArg Value.list (h.unique h')
  | .tuple h, .tuple h' => congrArg Value.tuple (h.unique h')
  | .dict h, .dict h' => congrArg Value.dict (h.unique h')
  | .shared hbody h, .shared hbody' h' => by
    rw [hbody] at hbody'
    cases hbody'
    exact h.unique h'
  | .shared _ _, .other _ here => absurd rfl (here _ _)
  | .other _ here, .shared _ _ => absurd rfl (here _ _)
  | .other _ _, .other _ _ => rfl

theorem UnfoldsAll.unique {vs us us' : List Value} : d.UnfoldsAll vs us →
    d.UnfoldsAll vs us' → us = us'
  | .nil, .nil => rfl
  | .cons head tail, .cons head' tail' => by rw [head.unique head', tail.unique tail']

theorem UnfoldsEntries.unique {es us us' : List (Value × Value)} :
    d.UnfoldsEntries es us → d.UnfoldsEntries es us' → us = us'
  | .nil, .nil => rfl
  | .cons k head tail, .cons _ head' tail' => by rw [head.unique head', tail.unique tail']

end

/-- What is in place of a value unfolds it, and its normal form is the plain value of a tree. -/
structure Shows (d : Document) (v v' : Value) (t : Tree) : Prop where
  unfolds : d.Unfolds v v'
  normal : v'.normal? = some (t.toValue true)

theorem Shows.ne_null {v v' : Value} {t : Tree} (h : d.Shows v v' t) : v' ≠ .null := by
  rintro rfl
  cases h.normal

/-- A number is shown by the number that it is converted to. -/
theorem shows_number {v : Value} {x : Except RangeFault Binary64} {t : Tree}
    (hreal : v.real? = some x) (h : Tree.ofReal x = .ok t) : d.Shows v v t := by
  cases x with
  | error fault => cases h
  | ok x =>
    cases h
    cases v with
    | int | fraction | float =>
      refine ⟨.other rfl nofun, ?_⟩
      rw [Value.normal?, hreal]
      · rfl
      all_goals nofun
    | _ => cases hreal

theorem normalItems?_cons {v : Value} (h : v ≠ .null) (vs : List Value) :
    Value.normalItems? (v :: vs) =
    (do return (← v.normal?) :: (← Value.normalItems? vs)) := by
  rw [Value.normalItems?]
  exact h

theorem namedEntries?_cons (k : Value) {v : Value} (h : v ≠ .null) (es : List (Value × Value)) :
    Value.namedEntries? ((k, v) :: es) =
      (do return (← k.asText.toOption, ← v.normal?) :: (← Value.namedEntries? es)) := by
  rw [Value.namedEntries?]
  exact h

def held (es : List (Text × Tree)) : List (Text × Value) :=
  es.map fun (k, t) => (k, t.toValue true)

theorem entryValues_eq (es : List (Text × Tree)) :
    Tree.entryValues true es = (held es).map fun (k, v) => (.text k, v) := by
  induction es with
  | nil => rfl
  | cons e es ih => exact congrArg ((.text e.1, e.2.toValue true) :: ·) ih

theorem asText_of_levelKey {k : Value} {name : Text} (h : Tree.levelKey k = .ok name) :
    k.asText = .ok name := by
  unfold Tree.levelKey at h
  split at h
  · cases h
  · next hname =>
    split at h
    · cases h
    · cases h
      exact hname

section

variable {follow : Container → Nat → Except Error Tree} {replace : Container → Nat → Value}

mutual

/-- A value that is converted is shown by the tree, if every reference that is converted is. -/
theorem shows_convert
    (shared : ∀ kind id t, follow kind id = .ok t → d.Shows (.shared kind id) (replace kind id) t) :
    (v : Value) → ∀ t, Tree.convert follow v = .ok t → d.Shows v (v.replaceShared replace) t
  | .boolean b, t, h => by
    cases h
    exact ⟨.other rfl nofun, rfl⟩
  | .text s, t, h => by
    cases h
    exact ⟨.other rfl nofun, rfl⟩
  | .list items, t, h => by
    obtain ⟨ts, hts, h⟩ := ok_of_bind h
    cases h
    obtain ⟨hunfolds, hnormal⟩ := shows_convertItems shared items ts hts
    refine ⟨.list hunfolds, ?_⟩
    rw [Value.replaceShared, Value.normal?, hnormal]
    rfl
  | .tuple items, t, h => by
    obtain ⟨ts, hts, h⟩ := ok_of_bind h
    cases h
    obtain ⟨hunfolds, hnormal⟩ := shows_convertItems shared items ts hts
    refine ⟨.tuple hunfolds, ?_⟩
    rw [Value.replaceShared, Value.normal?, hnormal]
    rfl
  | .dict entries, t, h => by
    obtain ⟨level, hlevel, h⟩ := ok_of_bind h
    cases h
    obtain ⟨hunfolds, named, hnamed, hput⟩ := shows_convertEntries shared entries [] level hlevel
    refine ⟨.dict hunfolds, ?_⟩
    rw [Value.replaceShared, Value.normal?, hnamed, Option.map_some,
      ← Entries.putAll_eq_merged, Tree.toValue, entryValues_eq, hput]
    rfl
  | .shared kind id, t, h => shared kind id t h
  | .int _, _, h | .fraction .., _, h => shows_number rfl h
  | .float x, _, h => shows_number (x := .ok x) rfl h
  | .null, _, h | .decimal _, _, h | .imaginary _, _, h | .bytes _, _, h | .date .., _,
    h | .moment _, _, h | .set, _, h
  | .object _, _, h | .key _, _, h | .index _, _, h | .path _, _, h => by cases h

theorem shows_convertItems
    (shared : ∀ kind id t, follow kind id = .ok t → d.Shows (.shared kind id) (replace kind id) t) :
    (vs : List Value) → ∀ ts, Tree.convertItems follow vs = .ok ts →
      d.UnfoldsAll vs (Value.replaceSharedIn replace vs) ∧
        Value.normalItems? (Value.replaceSharedIn replace vs) = some (Tree.itemValues true ts)
  | [], ts, h => by
    cases h
    exact ⟨.nil, rfl⟩
  | v :: vs, ts, h => by
    by_cases hnull : v = .null
    · subst hnull
      obtain ⟨hunfolds, hnormal⟩ := shows_convertItems shared vs ts h
      exact ⟨.cons (.other rfl nofun) hunfolds, hnormal⟩
    · rw [Tree.convertItems] at h
      · obtain ⟨t, ht, h⟩ := ok_of_bind h
        obtain ⟨rest, hrest, h⟩ := ok_of_bind h
        cases h
        have hshows := shows_convert shared v t ht
        obtain ⟨hunfolds, hnormal⟩ := shows_convertItems shared vs rest hrest
        refine ⟨.cons hshows.unfolds hunfolds, ?_⟩
        rw [Value.replaceSharedIn, normalItems?_cons hshows.ne_null, hshows.normal, hnormal]
        rfl
      · exact hnull

theorem shows_convertEntries
    (shared : ∀ kind id t, follow kind id = .ok t → d.Shows (.shared kind id) (replace kind id) t) :
    (es : List (Value × Value)) → ∀ level level', Tree.convertEntries follow level es = .ok level' →
      d.UnfoldsEntries es (Value.replaceSharedAmong replace es) ∧
        ∃ named, Value.namedEntries? (Value.replaceSharedAmong replace es) = some named ∧
          held level' = Entries.putAll (held level) named
  | [], level, level', h => by
    cases h
    exact ⟨.nil, [], rfl, rfl⟩
  | (k, v) :: es, level, level', h => by
    by_cases hnull : v = .null
    · subst hnull
      obtain ⟨_, -, h⟩ := ok_of_bind h
      obtain ⟨hunfolds, hnamed⟩ := shows_convertEntries shared es level level' h
      exact ⟨.cons k (.other rfl nofun) hunfolds, hnamed⟩
    · rw [Tree.convertEntries] at h
      · obtain ⟨name, hname, h⟩ := ok_of_bind h
        obtain ⟨t, ht, h⟩ := ok_of_bind h
        have hshows := shows_convert shared v t ht
        obtain ⟨hunfolds, named, hnamed, hput⟩ := shows_convertEntries shared es _ level' h
        refine ⟨.cons k hshows.unfolds hunfolds, (name, t.toValue true) :: named, ?_, ?_⟩
        · rw [Value.replaceSharedAmong, namedEntries?_cons k hshows.ne_null,
            asText_of_levelKey hname, hshows.normal, hnamed]
          rfl
        · rw [hput, held, ← Entries.put_map]
          rfl
      · exact hnull

end

end

/-- A container that is converted is shown where it is followed: the active ones and the fuel are
the same. -/
theorem shows_sharedTree (d : Document) (fuel : Nat) (active : List Nat) (kind : Container)
    (id : Nat) (t : Tree) (h : sharedTree d.bodies fuel active kind id = .ok t) :
    d.Shows (.shared kind id) (Document.follow d.bodies fuel active kind id) t := by
  induction fuel generalizing active kind id t with
  | zero => cases h
  | succ fuel ih =>
    rw [sharedTree] at h
    rw [Document.follow]
    by_cases hactive : active.contains id
    · rw [if_pos hactive] at h
      cases h
    · rw [if_neg hactive] at h ⊢
      cases hbody : d.bodies[id]? with
      | none =>
        rw [hbody] at h
        cases h
      | some body =>
        rw [hbody] at h
        have hshows := shows_convert (ih (id :: active)) body t h
        exact ⟨.shared hbody hshows.unfolds, hshows.normal⟩

/-- A document that is converted is shown by its expansion. -/
theorem shows_toTree {t : Tree} (h : d.toTree = .ok t) : d.Shows d.root d.expanded t :=
  shows_convert (shows_sharedTree d _ _) d.root t h

end Document

end Grove
