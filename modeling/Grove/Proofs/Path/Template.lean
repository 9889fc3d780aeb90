import Grove.Proofs.Path.Dotted
import Grove.Proofs.Store.Resolution

/-!
# Templates with points between their parts

The arguments of a template are put in before the text is cut into segments. An argument without a
point in it is still one segment then: nothing in it is taken for a directive or for a point between
segments, and a word that is not made of digits alone stays a key. So the template stands for the
explicit path of its parts.
-/
namespace Grove

namespace Template

/-! ### Filling one stretch after the other -/

/-- A stretch of a template takes arguments and is filled in as a text, whatever comes behind it. -/
def Fills (source : List CodePoint) (args : List Value) (text : List CodePoint) : Prop :=
  ∀ i rest more, fill (cut .text i (source ++ rest)) (args ++ more) =
    (fill (cut .text (i + source.length) rest) more).map (text ++ ·)

section

variable {source source' text text' : List CodePoint} {args args' : List Value}

theorem fills_nil : Fills [] [] [] := by
  intro i rest more
  cases hfill : fill (cut .text i rest) more <;> simp [hfill, Except.map]

theorem Fills.append (h : Fills source args text) (h' : Fills source' args' text') :
    Fills (source ++ source') (args ++ args') (text ++ text') := by
  intro i rest more
  rw [List.append_assoc, List.append_assoc, h, h', List.length_append, Nat.add_assoc]
  cases fill (cut .text (i + (source.length + source'.length)) rest) more <;> simp [Except.map]

/-- A template that is filled in to its end is the text of its stretches. -/
theorem Fills.render (h : Fills source args text) :
    render (Text.ofList source) args = .ok (Text.ofList text) := by
  have hfill := h 0 [] []
  simp only [List.append_nil] at hfill
  rw [Template.render, pieces, Text.toList_ofList, hfill]
  simp [cut, fill, Except.map, bind, Except.bind, pure, Except.pure]

theorem fills_char {c : CodePoint} (h : c ≠ '%') : Fills [c] [] [c] := by
  intro i rest more
  simp [cut, h, fill, Except.map, bind, Except.bind, pure, Except.pure]

theorem fills_percent : Fills [CodePoint.scalar '%', '%'] [] [CodePoint.scalar '%'] := by
  intro i rest more
  simp [cut, fill, Except.map, bind, Except.bind, pure, Except.pure]

end

/-- Text in which each percent sign is written twice. -/
def escaped (cs : List CodePoint) : List CodePoint :=
  cs.flatMap fun c : CodePoint => if c = '%' then ['%', '%'] else [c]

theorem fills_escaped (cs : List CodePoint) : Fills (escaped cs) [] cs := by
  induction cs with
  | nil => exact fills_nil
  | cons c cs ih =>
    have hc : Fills (if c = '%' then ['%', '%'] else [c]) [] [c] := by
      split
      · next h => exact h ▸ fills_percent
      · next h => exact fills_char h
    exact hc.append ih

/-! ### Directives without flags, width and precision -/

/-- The shape of a directive that is a letter and nothing else. -/
def bare : Shape :=
  ⟨{}, false, 0, none⟩

@[simp] theorem pad_bare (body : List CodePoint) : bare.pad body = body := by
  simp [Shape.pad, bare]

theorem padNumber_bare (body : List CodePoint) : bare.padNumber false [] body = body := by
  simp [Shape.padNumber, bare, Shape.pad]

theorem fills_directive {c : CodePoint} {v : Value} {shown : List CodePoint}
    (letter : feed .flags {} c = none) (hc : c ≠ '%') (hopen : c ≠ '(')
    (h : ∀ position, formatArgument bare c position v = .ok shown) :
    Fills [CodePoint.scalar '%', c] [v] shown := by
  intro i rest more
  have hcut : cut .text i (↑ '%' :: c :: rest) =
      .directive {} c (i + 1) :: cut .text (i + 1 + 1) rest := by
    simp [cut, letter, hc, hopen]
  have hshape : takeShape {} (v :: more) = .ok (bare, v :: more) := rfl
  show fill (cut .text i (↑ '%' :: c :: rest)) (v :: more) = _
  rw [hcut, fill, hshape]
  simp only [bind, Except.bind, nextArgument, h]
  rfl

theorem formatText_bare (s : Text) : formatText bare (.ok s) = .ok s.toList := by
  rw [formatText, pad_bare]
  rfl

theorem formatWhole_bare {n : Nat} (fits : Text.decimalLength n ≤ maxDigits) :
    formatWhole bare 'd' n = .ok (Text.decimal n) := by
  have hsign : decide ((n : Int) < 0) = false := by simp
  have hshown : bare.padNumber false [] (Text.paddedDigits 10 0 n) = Text.decimal n := by
    rw [padNumber_bare, Text.paddedDigits, Nat.zero_sub]
    rfl
  show (if maxDigits < Text.decimalLength n then Except.error (TemplateFault.text .tooManyDigits)
    else Except.ok (bare.padNumber (decide ((n : Int) < 0)) [] (Text.paddedDigits 10 0 n))) = _
  rw [if_neg (Nat.not_lt.mpr fits), hsign, hshown]

theorem asText_int {n : Nat} (fits : Text.decimalLength n ≤ maxDigits) :
    (Value.int n).asText = .ok (Text.ofList (Text.decimal n)) := by
  show intText n = _
  rw [intText_position, if_neg (Nat.not_lt.mpr fits)]
  rfl

/-! ### Parts of a dotted template -/

/-- A part of a dotted template: text that stands for itself, or a place for an argument. -/
inductive Item where
  | literal (text : Text)
  /-- A text in the place of `%s`. -/
  | word (s : Text)
  /-- A whole number in the place of `%s`. -/
  | numeral (n : Nat)
  /-- A whole number in the place of `%d`. -/
  | whole (n : Nat)

namespace Item

def source : Item → List CodePoint
  | .literal text => escaped text.toList
  | .word _ | .numeral _ => [CodePoint.scalar '%', 's']
  | .whole _ => [CodePoint.scalar '%', 'd']

def argument? : Item → Option Value
  | .literal _ => none
  | .word s => some (.text s)
  | .numeral n | .whole n => some (.int n)

def filled : Item → List CodePoint
  | .literal text => text.toList
  | .word s => s.toList
  | .numeral n | .whole n => Text.decimal n

/-- The segment that is meant: a key for a text, a position for a number, and either for text of the
template. -/
def segment : Item → Segment
  | .literal text =>
    if text ≠ "" ∧ text.toList.all Text.isDigit then .index (Text.decimalValue text.toList)
    else .key text
  | .word s => .key s
  | .numeral n | .whole n => .index n

/-- What an explicit path is built from in its place: the argument, or the segment that the text
is. -/
def part (item : Item) : Value :=
  item.argument?.getD item.segment.value

/-- Nothing in it is a point between segments, and a text that is an argument does not look like a
position. -/
def Plain : Item → Prop
  | .literal text => ↑ '.' ∉ text.toList
  | .word s => (Segment.key s).Faithful
  | .numeral _ | .whole _ => True

theorem fills {item : Item} (short : item.filled.length ≤ maxDigits) :
    Fills item.source item.argument?.toList item.filled := by
  cases item with
  | literal text => exact fills_escaped text.toList
  | word s => exact fills_directive (by decide) (by decide) (by decide) fun _ => formatText_bare s
  | numeral n =>
    refine fills_directive (by decide) (by decide) (by decide) fun _ => ?_
    show formatText bare (Value.int n).asText = _
    rw [asText_int short, formatText_bare, Text.toList_ofList]
    rfl
  | whole n => exact fills_directive (by decide) (by decide) (by decide) fun _ =>
    formatWhole_bare short

theorem Plain.point_notMem {item : Item} (h : item.Plain) : ↑ '.' ∉ item.filled := by
  cases item with
  | literal text => exact h
  | word s => exact h.1
  | numeral n | whole n => exact fun hmem => absurd (Text.isDigit_of_mem_decimal hmem) (by decide)

theorem Plain.ofPart_filled {item : Item} (h : item.Plain) :
    Segment.ofPart item.filled = item.segment := by
  cases item with
  | literal text =>
    have hposition : (!text.toList.isEmpty && text.toList.all Text.isDigit) = true ↔
        text ≠ "" ∧ text.toList.all Text.isDigit = true := by
      rw [Segment.isPosition_iff, ne_eq, Text.toList_eq_nil_iff, List.all_eq_true]
    simp only [filled, segment, Segment.ofPart, hposition, Text.ofList_toList]
  | word s => exact Segment.Faithful.ofPart_text (s := .key s) h
  | numeral n | whole n =>
    have hindex := Segment.Faithful.ofPart_text (s := .index n) trivial
    rwa [Segment.text, Text.toList_ofList] at hindex

end Item

/-! ### Dotted templates -/

def ofItems (items : List Item) : Text :=
  Text.ofList (Text.joinWith '.' (items.map Item.source))

def arguments (items : List Item) : List Value :=
  items.filterMap Item.argument?

def filledText (items : List Item) : Text :=
  Text.ofList (Text.joinWith '.' (items.map Item.filled))

variable {items : List Item}

theorem fills_items (short : ∀ item ∈ items, item.filled.length ≤ maxDigits) :
    Fills (Text.joinWith '.' (items.map Item.source)) (arguments items)
      (Text.joinWith '.' (items.map Item.filled)) := by
  induction items with
  | nil => exact fills_nil
  | cons item rest ih =>
    obtain ⟨hitem, hrest⟩ := List.forall_mem_cons.mp short
    have hargs : arguments (item :: rest) = item.argument?.toList ++ arguments rest := by
      rw [arguments, List.filterMap_cons]
      cases item.argument? <;> rfl
    have first := Item.fills hitem
    rw [hargs]
    cases rest with
    | nil =>
      have hnone : arguments [] = [] := rfl
      rw [hnone, List.append_nil]
      exact first
    | cons next rest =>
      have point : Fills [CodePoint.scalar '.'] [] [CodePoint.scalar '.'] := fills_char (by decide)
      exact first.append (point.append (ih hrest))

theorem render_ofItems (short : ∀ item ∈ items, item.filled.length ≤ maxDigits) :
    render (ofItems items) (arguments items) = .ok (filledText items) :=
  (fills_items short).render

section

variable (plain : ∀ item ∈ items, item.Plain)

include plain

/-- Filled in, the parts are what the text is cut into at its points. -/
theorem splitOn_filledText (hne : items ≠ []) :
    Text.splitOn (CodePoint.scalar '.') (filledText items).toList = items.map Item.filled := by
  rw [filledText, Text.toList_ofList]
  refine Text.splitOn_joinWith (mt List.map_eq_nil_iff.mp hne) ?_
  intro part hpart
  obtain ⟨item, hitem, rfl⟩ := List.mem_map.mp hpart
  exact (plain item hitem).point_notMem

theorem length_filled_le {item : Item} (hitem : item ∈ items) :
    item.filled.length ≤ (filledText items).length := by
  have hmem : item.filled ∈ Text.splitOn (CodePoint.scalar '.') (filledText items).toList := by
    rw [splitOn_filledText plain (List.ne_nil_of_mem hitem)]
    exact List.mem_map_of_mem hitem
  exact Text.length_le_of_mem_splitOn hmem

theorem ofParts_filledText (given : filledText items ≠ "") :
    Segment.ofParts (filledText items) = items.map Item.segment := by
  have hne : items ≠ [] := by
    rintro rfl
    exact given rfl
  rw [Segment.ofParts, if_neg given, splitOn_filledText plain hne, List.map_map]
  exact List.map_congr_left fun item hitem => (plain item hitem).ofPart_filled

/-- A dotted template with the arguments of its parts stands for the segments that the parts
mean. -/
theorem segments_ofItems (taken : arguments items ≠ []) (given : filledText items ≠ "")
    (short : (filledText items).length ≤ maxPathLength) :
    renderPath (ofItems items) (arguments items) = .ok (filledText items) ∧
      (Address.text (ofItems items)).segments (arguments items) = .ok (items.map Item.segment) := by
  have hitems : ∀ item ∈ items, item.filled.length ≤ maxDigits := by
    intro item hitem
    exact Nat.le_trans (length_filled_le plain hitem) (Nat.le_trans short (by decide))
  have hrender : renderPath (ofItems items) (arguments items) = .ok (filledText items) := by
    rw [renderPath, List.isEmpty_eq_false_iff.mpr taken, render_ofItems hitems]
    rfl
  refine ⟨hrender, ?_⟩
  show (renderPath (ofItems items) (arguments items) >>= Segment.ofDotted) = _
  rw [hrender]
  exact Segment.ofDotted_eq_ok_iff.mpr ⟨short, (ofParts_filledText plain given).symm⟩

end

end Template

namespace ExplicitPath

open Template

theorem part_item (item : Item) : ExplicitPath.part item.part = .ok item.segment.value := by
  cases item with
  | literal text =>
    show ExplicitPath.part (Item.literal text).segment.value = _
    cases (Item.literal text).segment <;> rfl
  | word s => rfl
  | numeral n | whole n =>
    show position (.int n) = _
    rw [position, if_neg (Int.not_lt.mpr (Int.natCast_nonneg n)), Int.toNat_natCast]
    rfl

/-- The arguments themselves, and the segments that the other texts are, make the path of what the
parts mean. -/
theorem ofParts_items (items : List Item) :
    ofParts (items.map Item.part) = .ok ((items.map Item.segment).map Segment.value) := by
  have hparts : ExplicitPath.part ∘ Item.part = fun item =>
      pure item.segment.value := funext part_item
  rw [ofParts, List.mapM_map, hparts, List.mapM_pure, List.map_map]
  rfl

end ExplicitPath

namespace Address

/-- An explicit path is the address of its segments. -/
theorem ofValue_segments (path : List Segment) :
    ofValue (.path (path.map Segment.value)) = .path path := by
  have hsegment : Value.segment? ∘ Segment.value = fun s => pure (id s) := by
    funext s
    cases s <;> rfl
  have hsegments : (path.map Segment.value).mapM Value.segment? = some path := by
    rw [List.mapM_map, hsegment, List.mapM_pure, List.map_id]
    rfl
  simp only [ofValue, hsegments]

end Address

namespace Store

variable {s : Store} {root : Option NodeId} {p q : Address} {args args' : List Value}

/-- Addresses that stand for the same segments find the same. -/
theorem find_congr (h : p.segments args = q.segments args') :
    s.find root p args = s.find root q args' := by
  cases root with
  | none => rfl
  | some id => rw [find, find, h]

/-- Where the same is found, the accessors answer the same; only the wording of a lookup tells the
addresses apart. -/
theorem scalar_congr (h : s.find root p args = s.find root q args') (kind : Kind)
    (default : Value) :
    s.scalar root kind default p args = s.scalar root kind default q args' := by
  cases hfind : s.find root p args with
  | ok n => rw [scalar_of_find hfind, scalar_of_find (h ▸ hfind)]
  | error e =>
    rw [scalar, scalar, lookup, lookup, ← h, hfind]

theorem listSize_congr (h : s.find root p args = s.find root q args') :
    s.listSize root p args = s.listSize root q args' := by
  rw [listSize, listSize, resolve, resolve, h]

theorem hasKey_congr (h : s.find root p args = s.find root q args') :
    s.hasKey root p args = s.hasKey root q args' := by
  rw [hasKey, hasKey, resolve, resolve, h]

end Store

namespace Template

/-- A dotted template with its arguments stands for the same segments as the explicit path that is
built from the arguments, where a word that is an argument has no point and does not look like a
position. So from every root both find the same, and the accessors answer the same. -/
theorem template_equals_path {items : List Item} (taken : arguments items ≠ [])
    (plain : ∀ item ∈ items, item.Plain) (given : filledText items ≠ "")
    (short : (filledText items).length ≤ maxPathLength) :
    renderPath (ofItems items) (arguments items) = .ok (filledText items) ∧
    (Address.text (ofItems items)).segments (arguments items) = .ok (items.map Item.segment) ∧
    ∃ parts, ExplicitPath.ofParts (items.map Item.part) = .ok parts ∧
      (Address.ofValue (.path parts)).segments [] = .ok (items.map Item.segment) ∧
      ∀ (s : Store) (root : Option NodeId),
        s.find root (.text (ofItems items)) (arguments items) =
          s.find root (.ofValue (.path parts)) [] ∧
        s.resolve root (.text (ofItems items)) (arguments items) =
          s.resolve root (.ofValue (.path parts)) [] ∧
        s.hasKey root (.text (ofItems items)) (arguments items) =
          s.hasKey root (.ofValue (.path parts)) [] ∧
        s.listSize root (.text (ofItems items)) (arguments items) =
          s.listSize root (.ofValue (.path parts)) [] ∧
        ∀ kind default, s.scalar root kind default (.text (ofItems items)) (arguments items) =
          s.scalar root kind default (.ofValue (.path parts)) [] := by
  obtain ⟨hrender, hsegments⟩ := segments_ofItems plain taken given short
  have hpath : (Address.path (items.map Item.segment)).segments [] =
      .ok (items.map Item.segment) := by
    refine (Address.segments_eq_ok_iff (show (Address.path _).Keyed from trivial)).mpr ⟨?_, rfl⟩
    rw [Address.written, ← ofParts_filledText plain given, Segment.dotted_ofParts]
    exact Nat.le_trans (Segment.length_trimmed_le _) short
  rw [← Address.ofValue_segments] at hpath
  refine ⟨hrender, hsegments, _, ExplicitPath.ofParts_items items, hpath, ?_⟩
  intro s root
  have hfind : s.find root (.text (ofItems items)) (arguments items) =
      s.find root (.ofValue (.path _)) [] :=
    Store.find_congr (hsegments.trans hpath.symm)
  refine ⟨hfind, ?_, Store.hasKey_congr hfind, Store.listSize_congr hfind, Store.scalar_congr hfind⟩
  rw [Store.resolve, Store.resolve, hfind]

/-- A percent sign of the template, a word that looks like a directive, and positions from an
argument and from digits of the template. -/
theorem template_equals_path_percent :
    let s : Store :=
      ⟨#[.level [("100%", 1)], .level [("%d", 2)], .list [3, 4], .boolean true,
        .list [5], .string "x"]⟩
    let args : List Value := [.text "%d", .int 1]
    renderPath "100%%.%s.%d.00" args = .ok "100%.%d.1.00" ∧ ∃ parts,
      ExplicitPath.ofParts [.key (.text "100%"), .text "%d", .int 1, .index 0] = .ok parts ∧
        s.resolve (some 0) (.text "100%%.%s.%d.00") args = .ok (some 5) ∧
        s.resolve (some 0) (.ofValue (.path parts)) [] = .ok (some 5) := by
  intro s args
  let items : List Item := [.literal "100%", .word "%d", .whole 1, .literal "00"]
  have plain : ∀ item ∈ items, item.Plain := by
    have hword : (Segment.key "%d").Faithful :=
      ⟨by decide, fun digits => absurd (digits.2 '%' (by decide)) (by decide)⟩
    intro item hitem
    simp only [items, List.mem_cons, List.not_mem_nil, or_false] at hitem
    rcases hitem with rfl | rfl | rfl | rfl
    · exact show ↑ '.' ∉ Text.toList "100%" by decide
    · exact hword
    · trivial
    · exact show ↑ '.' ∉ Text.toList "00" by decide
  have taken : arguments items ≠ [] := List.cons_ne_nil _ _
  obtain ⟨hrender, -, parts, hparts, -, same⟩ :=
    template_equals_path taken plain (by decide) (by decide)
  obtain ⟨-, hresolve, -⟩ := same s (some 0)
  have found : s.resolve (some 0) (.text "100%%.%s.%d.00") args = .ok (some 5) := rfl
  exact ⟨hrender, parts, hparts, found, hresolve.symm.trans found⟩

end Template

end Grove
