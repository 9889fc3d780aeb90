/-!
# Code points and texts

A text is a sequence of code points. A surrogate, which stands for half of a character elsewhere, is
a code point of its own here, so that a text may hold one without its other half.
-/
namespace Grove

/-- A code point: a character, or one of the surrogates from U+D800 on. -/
inductive CodePoint where
  | scalar (c : Char)
  | surrogate (i : Fin 2048)
  deriving DecidableEq

namespace CodePoint

instance : Coe Char CodePoint := ⟨.scalar⟩

instance : Inhabited CodePoint := ⟨'\x00'⟩

/-- The number of a code point. -/
def toNat : CodePoint → Nat
  | .scalar c => c.toNat
  | .surrogate i => 0xD800 + i

/-- The code point with a number; numbers from `0x110000` on have none and give the first one. -/
def ofNat (n : Nat) : CodePoint :=
  if h : 0xD800 ≤ n ∧ n < 0xE000 then .surrogate ⟨n - 0xD800, by omega⟩ else .scalar (Char.ofNat n)

instance : LE CodePoint := ⟨fun a b => a.toNat ≤ b.toNat⟩

instance (a b : CodePoint) : Decidable (a ≤ b) := inferInstanceAs (Decidable (a.toNat ≤ b.toNat))

def isSurrogate : CodePoint → Bool
  | .scalar _ => false
  | .surrogate _ => true

/-- A capital letter of ASCII. -/
def isUpper : CodePoint → Bool
  | .scalar c => c.isUpper
  | .surrogate _ => false

/-- A letter or a digit of ASCII. -/
def isAlphanum : CodePoint → Bool
  | .scalar c => c.isAlphanum
  | .surrogate _ => false

def toUpper : CodePoint → CodePoint
  | .scalar c => c.toUpper
  | c => c

def toLower : CodePoint → CodePoint
  | .scalar c => c.toLower
  | c => c

@[simp] theorem toNat_scalar (c : Char) : (scalar c).toNat = c.toNat := rfl

/-- No character has the number of a surrogate. -/
theorem toNat_lt_or_le (c : Char) : c.toNat < 0xD800 ∨ 0xE000 ≤ c.toNat ∧ c.toNat < 0x110000 := by
  have h := c.valid
  simp only [UInt32.isValidChar, Nat.isValidChar] at h
  have hval : c.val.toNat = c.toNat := rfl
  omega

theorem toNat_lt (c : CodePoint) : c.toNat < 0x110000 := by
  cases c with
  | scalar c =>
    rw [toNat_scalar]
    rcases toNat_lt_or_le c with h | h <;> omega
  | surrogate i =>
    rw [toNat]
    omega

@[simp] theorem ofNat_toNat (c : CodePoint) : ofNat c.toNat = c := by
  cases c with
  | scalar c =>
    have hscalar : ¬ (0xD800 ≤ c.toNat ∧ c.toNat < 0xE000) := by
      rcases toNat_lt_or_le c with h | h <;> omega
    rw [toNat_scalar, ofNat, dif_neg hscalar, Char.ofNat_toNat]
  | surrogate i =>
    have hsurrogate : 0xD800 ≤ 0xD800 + i.val ∧ 0xD800 + i.val < 0xE000 := by omega
    rw [toNat, ofNat, dif_pos hsurrogate]
    simp

theorem toNat_ofNat {n : Nat} (h : n < 0x110000) : (ofNat n).toNat = n := by
  rw [ofNat]
  split
  · next hsurrogate =>
    exact Nat.add_sub_cancel' hsurrogate.1
  · next hscalar =>
    have hvalid : n.isValidChar := by
      rw [Nat.isValidChar]
      omega
    rw [toNat_scalar, Char.ofNat, dif_pos hvalid]
    rfl

theorem toNat_inj {a b : CodePoint} : a.toNat = b.toNat ↔ a = b := by
  constructor
  · intro h
    rw [← ofNat_toNat a, h, ofNat_toNat]
  · rintro rfl
    rfl

end CodePoint

structure Text where
  ofList ::
  toList : List CodePoint
  deriving DecidableEq

namespace Text

/-- The text that is written as a literal. -/
@[coe] def lit (s : String) : Text :=
  ⟨s.toList.map .scalar⟩

instance : Coe String Text := ⟨lit⟩

instance : Inhabited Text := ⟨""⟩

def append (s t : Text) : Text :=
  ⟨s.toList ++ t.toList⟩

instance : Append Text := ⟨append⟩

def length (s : Text) : Nat :=
  s.toList.length

def singleton (c : CodePoint) : Text :=
  ⟨[c]⟩

def intercalate (separator : Text) : List Text → Text
  | [] => ""
  | [s] => s
  | s :: t :: rest => s ++ separator ++ intercalate separator (t :: rest)

/-- A text as far as it is made of characters, with the replacement character for each surrogate. -/
def shown (s : Text) : String :=
  String.ofList (s.toList.map fun c =>
    match c with
    | .scalar c => c
    | .surrogate _ => '\uFFFD')

def le (s t : Text) : Bool :=
  leFrom s.toList t.toList
where
  leFrom : List CodePoint → List CodePoint → Bool
    | [], _ => true
    | _ :: _, [] => false
    | a :: as, b :: bs => a.toNat < b.toNat || (a = b && leFrom as bs)

@[simp] theorem toList_ofList (cs : List CodePoint) : (ofList cs).toList = cs := rfl

@[simp] theorem ofList_toList (s : Text) : ofList s.toList = s := rfl

@[simp] theorem toList_lit (s : String) : (lit s).toList = s.toList.map .scalar := rfl

@[simp] theorem toList_append (s t : Text) : (s ++ t).toList = s.toList ++ t.toList := rfl

theorem toList_inj {s t : Text} : s.toList = t.toList ↔ s = t := by
  cases s
  cases t
  simp

@[simp] theorem lit_inj {s t : String} : lit s = lit t ↔ s = t := by
  rw [← toList_inj, toList_lit, toList_lit,
    List.map_inj_right (fun _ _ h => CodePoint.scalar.inj h), String.toList_inj]

@[simp] theorem length_toList (s : Text) : s.toList.length = s.length := rfl

@[simp] theorem length_ofList (cs : List CodePoint) : (ofList cs).length = cs.length := rfl

@[simp] theorem length_append (s t : Text) : (s ++ t).length = s.length + t.length :=
  List.length_append

@[simp] theorem length_empty : ("" : Text).length = 0 := rfl

@[simp] theorem toList_eq_nil_iff {s : Text} : s.toList = [] ↔ s = "" := by
  rw [← toList_inj]
  rfl

@[simp] theorem ofList_eq_empty_iff {cs : List CodePoint} : ofList cs = "" ↔ cs = [] := by
  rw [← toList_inj]
  rfl

theorem append_assoc (s t u : Text) : s ++ t ++ u = s ++ (t ++ u) :=
  toList_inj.mp (List.append_assoc ..)

@[simp] theorem intercalate_cons_cons (separator s t : Text) (rest : List Text) :
    intercalate separator (s :: t :: rest) = s ++ separator ++ intercalate separator (t :: rest) :=
  rfl

@[simp] theorem empty_append (s : Text) : "" ++ s = s := rfl

@[simp] theorem append_empty (s : Text) : s ++ "" = s :=
  toList_inj.mp (List.append_nil _)

end Text

end Grove
