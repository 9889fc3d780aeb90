import Grove.Proofs.Yaml.Token

/-!
# Tokens of values and keys

A written scalar is one token, in whatever way its lines were ended, and an empty container is two.
A key in front of a colon is found at the colon, which fills the slot that was left in front of the
key, unless the key takes too many characters: then the document cannot be read.
-/
namespace Grove.Yaml

/-- What may be written of a scalar that is read as `text`, plain or not. -/
inductive Presents (f : Folding) : List CodePoint → Bool → List CodePoint → Prop where
  | plain (column : Nat) {text : List CodePoint} (h : PlainText text) (hne : text ≠ []) :
      Presents f (foldPlain f 0 column text) true text
  | single (column : Nat) {cs : List CodePoint} (h : SingleText cs)
      (hbreaks : cs.any isTextBreak = true → 0 < f.indent) :
      Presents f (↑ '\'' :: (foldSingle f .quote column cs ++ [CodePoint.scalar '\''])) false
        (rereadSingle false cs)
  | double (column : Nat) (cs : List CodePoint) :
      Presents f (↑ '"' :: (foldDouble f true false column cs ++ [CodePoint.scalar '"'])) false
        (rereadDouble f true false column cs)

def reread (f : Folding) (column : Nat) (cs : List CodePoint) : List CodePoint :=
  match Style.ofText cs with
  | .plain => cs
  | .single => rereadSingle false cs
  | .double => rereadDouble f true false (column + 1) cs

theorem presents_styledText {f : Folding} (column : Nat) {cs : List CodePoint}
    (hbreaks : cs.any isTextBreak = true → 0 < f.indent) :
    Presents f (styledText f (.ofText cs) column cs) (Style.ofText cs = .plain)
      (reread f column cs) := by
  unfold reread
  rcases Style.ofText_cases cs with ⟨hstyle, hform, hcs⟩ | ⟨hstyle, hcs⟩ | hstyle
  · have hne : cs ≠ [] := by
      rintro rfl
      exact absurd hform (by decide)
    rw [hstyle]
    exact .plain column hcs hne
  · rw [hstyle]
    exact .single (column + 1) hcs hbreaks
  · rw [hstyle]
    exact .double (column + 1) cs

/-! ## The token of a scalar -/

theorem head?_foldPlain_spaces (f : Folding) (n column : Nat) (cs : List CodePoint) :
    ∃ y, (foldPlain f (n + 1) column cs).head? = some y ∧ (y = ' ' ∨ y = '\n') := by
  induction cs generalizing n with
  | nil => exact ⟨' ', rfl, Or.inl rfl⟩
  | cons c cs ih =>
    rw [foldPlain]
    split
    · exact ih (n + 1)
    · split
      · exact ⟨'\n', rfl, Or.inr rfl⟩
      · exact ⟨' ', rfl, Or.inl rfl⟩

theorem foldPlain_cons (f : Folding) (column : Nat) {x : CodePoint} (hx : x ≠ ' ')
    (cs : List CodePoint) :
    foldPlain f 0 column (x :: cs) = x :: foldPlain f 0 (column + 1) cs :=
  foldPlain_word f column (w := [x]) (by simpa using hx) cs

/-- A character that is neither a space nor a line end comes first in written plain text only if it
does so in the text itself. -/
theorem foldPlain_eq_cons {f : Folding} {column : Nat}
    {cs rest more : List CodePoint} {x : CodePoint} (hx : x ≠ ' ' ∧ x ≠ '\n')
    (hrest : rest.head? ≠ some x) (h : foldPlain f 0 column cs ++ rest = x :: more) :
    ∃ cs' column', cs = x :: cs' ∧ foldPlain f 0 column' cs' ++ rest = more := by
  cases cs with
  | nil =>
    have heq : rest = x :: more := h
    rw [heq] at hrest
    exact absurd rfl hrest
  | cons c cs =>
    by_cases hc : c = ' '
    · have hspaces : foldPlain f 0 column (c :: cs) = foldPlain f 1 column cs := by
        rw [foldPlain, if_pos hc]
      obtain ⟨y, hy, hkind⟩ := head?_foldPlain_spaces f 0 column cs
      have hhead : (foldPlain f 0 column (c :: cs) ++ rest).head? = some y := by
        rw [hspaces, List.head?_append, hy]
        rfl
      rw [h] at hhead
      cases hhead
      rcases hkind with hkind | hkind
      · exact absurd hkind hx.1
      · exact absurd hkind hx.2
    · rw [foldPlain_cons f column hc] at h
      cases h
      exact ⟨cs, column + 1, rfl, rfl⟩

/-- Written plain text is no marker of a document unless the text starts like one. -/
theorem atMarker_foldPlain {f : Folding} {column : Nat} {cs rest : List CodePoint} {x : CodePoint}
    (hx : x ≠ ' ' ∧ x ≠ '\n') (hrest : rest.head? ≠ some x)
    (hcs : [x, x, x].isPrefixOf cs = false) {c : Cursor}
    (hc : c.rest = foldPlain f 0 column cs ++ rest) : c.atMarker x = false := by
  unfold Cursor.atMarker
  split
  · next a b d more heq =>
    rw [Bool.eq_false_iff]
    intro hmark
    simp only [Bool.and_eq_true, decide_eq_true_eq] at hmark
    obtain ⟨⟨⟨rfl, rfl⟩, rfl⟩, -⟩ := hmark
    rw [hc] at heq
    obtain ⟨cs₁, column₁, rfl, h₁⟩ := foldPlain_eq_cons hx hrest heq
    obtain ⟨cs₂, column₂, rfl, h₂⟩ := foldPlain_eq_cons hx hrest h₁
    obtain ⟨cs₃, column₃, rfl, -⟩ := foldPlain_eq_cons hx hrest h₂
    simp at hcs
  · rfl

/-- Written plain text starts plain text. -/
theorem plainStart_foldPlain (f : Folding) (column : Nat) {cs : List CodePoint}
    (h : PlainText cs) (hne : cs ≠ []) (rest : List CodePoint) :
    ∃ x more, foldPlain f 0 column cs ++ rest = x :: more ∧ PlainStart x more.head? ∧
      isInline x = true := by
  obtain ⟨x, xs, rfl⟩ := List.exists_cons_of_ne_nil hne
  have hstart := h.start x xs rfl
  have hspace := ne_space_of_isBlank hstart.word
  have hx := h.words.inline x List.mem_cons_self
  refine ⟨x, foldPlain f 0 (column + 1) xs ++ rest, by rw [foldPlain_cons f column hspace]; rfl,
    ⟨hstart.word, ?_, hstart.indicator⟩, hx.1⟩
  intro hsign
  have hnext := hstart.sign hsign
  cases xs with
  | nil => cases hnext
  | cons y ys =>
    have hblank : isBlank y = false := hnext
    rw [foldPlain_cons f _ (ne_space_of_isBlank hblank)]
    exact hblank

/-- The first characters of what is written of a scalar. -/
theorem Presents.startsToken {f : Folding} {chars text : List CodePoint} {plain : Bool}
    (h : Presents f chars plain text) (rest : List CodePoint) :
    ∃ x more, chars ++ rest = x :: more ∧ Cutting.StartsToken (x :: more) := by
  cases h with
  | plain column h hne =>
    obtain ⟨x, more, hx, hstart, -⟩ := plainStart_foldPlain f column h hne rest
    refine ⟨x, more, hx, Cutting.startsToken_cons ⟨ne_space_of_isBlank hstart.word, ?_, ?_⟩ more⟩
    · rintro rfl
      rcases hstart.indicator rfl with h | h | h <;> exact absurd h (by decide)
    · exact isBreak_of_isBlank hstart.word
  | single => exact ⟨_, _, rfl, Cutting.startsToken_cons (by decide) _⟩
  | double => exact ⟨_, _, rfl, Cutting.startsToken_cons (by decide) _⟩

theorem Presents.length_pos {f : Folding} {chars text : List CodePoint} {plain : Bool}
    (h : Presents f chars plain text) :
    0 < chars.length := by
  cases h with
  | plain column h hne =>
    have hfolded := length_le_foldPlain f 0 column text
    have hpos := List.length_pos_iff.mpr hne
    omega
  | single => exact Nat.succ_pos _
  | double => exact Nat.succ_pos _

namespace Cutting

section

variable {s : Cutting} {rest : List CodePoint} {column : Nat} {done : List Token}
  {indents : List Nat} {allowed : Bool}

/-- Quoted text is one token. -/
theorem tokenAt_quoted {q : CodePoint} {piece text : List CodePoint}
    (hs : Stands s (q :: (piece ++ q :: rest)) column done indents allowed)
    (hq : q = '"' ∨ q = '\'') (h : Quotes (q = '"') piece (q :: rest) text)
    (hrest : rest.head? ≠ some (CodePoint.scalar '\'')) :
    s.tokenAt q = s.wordToken (.scalar false text)
      (s.cursor.forward (q :: (piece ++ [q])).length) := by
  have hread := quotedText_of_quotes (by rcases hq with rfl | rfl <;> rfl) h hrest hs.rest
  have hdash : s.cursor.atMarker '-' = false :=
    Cursor.atMarker_eq_false hs.rest (by rcases hq with rfl | rfl <;> nofun)
  have hpoint : s.cursor.atMarker '.' = false :=
    Cursor.atMarker_eq_false hs.rest (by rcases hq with rfl | rfl <;> nofun)
  rcases hq with rfl | rfl
  · simp at hread
    simp [tokenAt, hdash, hpoint, hread]
  · simp at hread
    simp [tokenAt, hdash, hpoint, hread]

/-- Plain text is one token; behind a line end a key may begin again. -/
theorem tokenAt_plain {x : CodePoint} {more text : List CodePoint} {ended : Bool} {next : Cursor}
    (hs : Stands s (x :: more) column done indents allowed) (hstart : PlainStart x more.head?)
    (hdash : s.cursor.atMarker '-' = false) (hpoint : s.cursor.atMarker '.' = false)
    (hread : plainText false (s.indent + 1) (s.cursor.rest.length + 1) false [] s.cursor =
      (text, ended, next)) :
    s.tokenAt x = (s.wordToken (.scalar true text) next).map ({ · with keyAllowed := ended }) := by
  have hpeek : s.cursor.peek = some x := Cursor.peek_eq hs.rest
  have hnext := peekAt_one hs.rest
  have hne {c : CodePoint} (hc : isIndicator c = true) (hsign : c ≠ '-' ∧ c ≠ '?' ∧ c ≠ ':') :
      x ≠ c := by
    rintro rfl
    rcases hstart.indicator hc with h | h | h
    · exact hsign.1 h
    · exact hsign.2.1 h
    · exact hsign.2.2 h
  have hmark {c : CodePoint} (hc : c = '-' ∨ c = '?' ∨ c = ':') :
      (decide (x = c) && endsWord (s.cursor.peekAt 1)) = false := by
    rw [hnext]
    by_cases hx : x = c
    · rw [hstart.sign (hx ▸ hc), Bool.and_false]
    · simp [hx]
  have hstarts : s.plainStarts = true := by
    rw [plainStarts, hpeek]
    simp only [hstart.word, hnext, hs.depth]
    by_cases hx : isIndicator x = true
    · have hsign := hstart.indicator hx
      rw [hstart.sign hsign]
      simp [hsign]
    · simp [hx]
  have hmarks := And.intro (@hmark '-' (by decide))
    (And.intro (@hmark '?' (by decide)) (@hmark ':' (by decide)))
  unfold tokenAt
  simp only [hs.depth, hdash, hpoint, hmarks, hstarts, hread, Bool.and_false,
    Bool.false_eq_true, if_false, ne_eq, not_true_eq_false, decide_false, Bool.false_or,
    hne (c := '%') rfl (by decide), hne (c := '[') rfl (by decide),
    hne (c := '\x7b') rfl (by decide), hne (c := ']') rfl (by decide),
    hne (c := '\x7d') rfl (by decide), hne (c := ',') rfl (by decide),
    hne (c := '*') rfl (by decide), hne (c := '&') rfl (by decide), hne (c := '!') rfl (by decide),
    hne (c := '|') rfl (by decide), hne (c := '>') rfl (by decide), hne (c := '\'') rfl (by decide),
    hne (c := '"') rfl (by decide), Bool.false_and, Bool.or_self, if_true]
  cases s.wordToken (.scalar true text) next <;> rfl

/-- Written plain text is one token, up to where it stops. -/
theorem tokenAt_foldPlain {f : Folding} {column' : Nat} {text : List CodePoint}
    {ended : Bool} {next : Cursor} (h : PlainText text) (hne : text ≠ [])
    (hs : Stands s (foldPlain f 0 column' text ++ rest) column done indents allowed)
    (hfold : f.fold = true → 0 < f.indent ∧ s.indent + 1 ≤ f.indent)
    (hin : s.indent ≤ s.cursor.column) (hdash : rest.head? ≠ some (CodePoint.scalar '-'))
    (hpoint : rest.head? ≠ some (CodePoint.scalar '.'))
    (hstop : PlainStops (s.indent + 1)
      (s.cursor.forward (foldPlain f 0 column' text).length) ended next) :
    ∃ x xs, foldPlain f 0 column' text ++ rest = x :: xs ∧ StartsToken (x :: xs) ∧
      s.tokenAt x = (s.wordToken (.scalar true text) next).map
        ({ · with keyAllowed := ended }) := by
  obtain ⟨x, xs, hx, hstart, -⟩ := plainStart_foldPlain f column' h hne rest
  have hfirst : StartsToken (x :: xs) := by
    obtain ⟨y, ys, hy, hyes⟩ := (Presents.plain (f := f) column' h hne).startsToken rest
    rw [hx] at hy
    rwa [hy]
  have hlength : text.length ≤ s.cursor.rest.length + 1 := by
    have hfolded := length_le_foldPlain f 0 column' text
    rw [hs.rest, List.length_append]
    omega
  have hread := plainText_foldPlain f hfold h.words hne hlength column' hs.rest
    (Int.add_le_add_right hin 1) false []
    hstop
  refine ⟨x, xs, hx, hfirst, ?_⟩
  exact tokenAt_plain (hx ▸ hs) hstart
    (atMarker_foldPlain (x := '-') (by decide) hdash h.dashes hs.rest)
    (atMarker_foldPlain (x := '.') (by decide) hpoint h.points hs.rest) hread

/-! ## Values -/

/-- The text is no marker of a document. -/
def NoMarker (rest : List CodePoint) : Prop :=
  ∀ c : Cursor, c.rest = rest → c.atDocumentMarker = false

/-- What makes plain text stop at the end of its line: the next line is indented no further than the
innermost block, or it is the marker of the end of the document. -/
def PlainEnds (indents : List Nat) (k : Nat) (more : List CodePoint) : Prop :=
  (∃ i, indents.head? = some i ∧ k ≤ i ∧
    NoMarker (List.replicate k (CodePoint.scalar ' ') ++ more)) ∨
    indents = [] ∧ k = 0 ∧ ∀ c : Cursor, c.rest = more → c.atDocumentMarker = true

theorem plainStops_line {d : Cursor} {k : Nat} {more : List CodePoint} (hs : s.indents = indents)
    (hd : d.rest = ↑ '\n' :: (List.replicate k (CodePoint.scalar ' ') ++ more))
    (hmore : StartsToken more) (h : PlainEnds indents k more) :
    PlainStops (s.indent + 1) d true (d.forward (k + 1)) := by
  refine ⟨by rw [hd]; rfl, ?_⟩
  have hadvance : d.advance.rest = List.replicate k (CodePoint.scalar ' ') ++ more := by
    rw [Cursor.rest_advance, hd]
    rfl
  have hcolumn : (d.forward (k + 1)).column = k := by rw [Cursor.forward_newLine hd]
  rcases h with ⟨i, hi, hk, hmarker⟩ | ⟨-, rfl, hmarker⟩
  · have hindent : s.indent = i := by
      unfold indent
      rw [hs]
      cases indents with
      | nil => cases hi
      | cons j js =>
        cases hi
        rfl
    refine ⟨[CodePoint.scalar ' '], plainSpaces_newLine hd (hmarker _ hadvance) fun x hx =>
      ⟨(hmore x hx).1, (hmore x hx).2.2⟩, ?_⟩
    rw [hcolumn, hindent]
    have hlt : (k : Int) < i + 1 := by omega
    simp [hlt]
  · exact ⟨[], plainSpaces_marker hd (hmarker _ hadvance), rfl⟩

/-- Quoted text that is a value is read up to the next token. -/
theorem Stands.quoted {q : CodePoint} {piece text more : List CodePoint} {k : Nat}
    (hs : Stands s (q ::
      (piece ++ q :: ↑ '\n' :: (List.replicate k (CodePoint.scalar ' ') ++ more))) column
        done indents allowed)
    (hq : q = '"' ∨ q = '\'')
    (h : Quotes (q = '"') piece
      (q :: ↑ '\n' :: (List.replicate k (CodePoint.scalar ' ') ++ more)) text)
    (hin : Inside indents column) (hmore : StartsToken more) :
    Leads s true (Stands · more k (done ++ [.scalar false text]) indents true) := by
  have htoken := tokenAt_quoted hs.ready hq h nofun
  have hrest : (s.cursor.forward (q :: (piece ++ [q])).length).rest =
      ↑ '\n' :: (List.replicate k (CodePoint.scalar ' ') ++ more) := by
    rw [Cursor.rest_forward, hs.rest]
    simp
  obtain ⟨s', hword, hcursor, hends, -⟩ := wordToken_spec hs.ready rfl hin (.scalar false text)
    (s.cursor.line_le_forward (q :: (piece ++ [q])).length)
  rw [hrest] at hends
  have hstart : StartsToken
      (q :: (piece ++ q :: ↑ '\n' :: (List.replicate k (CodePoint.scalar ' ') ++ more))) := by
    rcases hq with rfl | rfl <;> exact startsToken_cons (by decide) _
  have hlength : s'.cursor.rest.length ≤
      (piece ++ q :: ↑ '\n' :: (List.replicate k (CodePoint.scalar ' ') ++ more)).length := by
    rw [hends.rest]
    simp only [List.length_append, List.length_cons]
    omega
  have hgo : Leads s true (Ends · (↑ '\n' :: (List.replicate k (CodePoint.scalar ' ') ++ more))
      (done ++ [.scalar false text]) indents) :=
    hs.step hstart hin.le ⟨s', htoken.trans hword, hends, hlength⟩
  exact hgo.andThen fun _ h => h.line hmore

/-- Plain text that is a value is read up to the next token. -/
theorem Stands.plain {f : Folding} {text more : List CodePoint} {k column' : Nat}
    (h : PlainText text) (hne : text ≠ [])
    (hs : Stands s (foldPlain f 0 column' text ++
      ↑ '\n' :: (List.replicate k (CodePoint.scalar ' ') ++ more)) column done indents allowed)
    (hin : Inside indents column) (hmore : StartsToken more) (hfold : f.fold = true → 0 < f.indent)
    (hindent : ∀ i, indents.head? = some i → i < f.indent) (hends : PlainEnds indents k more) :
    Leads s true (Stands · more k (done ++ [.scalar true text]) indents true) := by
  have hdrop : (s.cursor.forward (foldPlain f 0 column' text).length).rest =
      ↑ '\n' :: (List.replicate k (CodePoint.scalar ' ') ++ more) := by
    rw [Cursor.rest_forward, hs.rest, List.drop_left]
  have hfolded : s.indent < (f.indent : Int) := indent_lt hs.indents hindent
  have hcolumn : s.indent ≤ (s.cursor.column : Int) :=
    Int.le_of_lt (hs.column ▸ indent_lt hs.indents hin)
  obtain ⟨x, xs, hx, hfirst, htoken⟩ :=
    tokenAt_foldPlain h hne hs.ready (fun hf => ⟨hfold hf, hfolded⟩) hcolumn nofun
    nofun (plainStops_line hs.indents hdrop hmore hends)
  generalize hd : s.cursor.forward (foldPlain f 0 column' text).length = d at hdrop htoken
  have hmove := Cursor.forward_newLine hdrop
  have hline : s.cursor.line < (d.forward (k + 1)).line := by
    rw [hmove, ← hd]
    exact Nat.lt_succ_of_le (Cursor.line_le_forward _ _)
  rw [hx] at hs
  obtain ⟨s', hword, hcursor, hends, hold⟩ :=
    wordToken_spec hs.ready rfl hin (.scalar true text) (Nat.le_of_lt hline)
  have hrest : (d.forward (k + 1)).rest = more := by rw [hmove]
  refine hs.step hfirst hin.le ⟨{ s' with keyAllowed := true }, ?_, ?_, ?_⟩
  · rw [htoken, hword]
    rfl
  · refine ⟨?_, ?_, hends.tokens, hends.indents, rfl, hends.depth, hends.slotted,
      fun e he => ⟨(hends.settled e he).1, ?_⟩⟩
    · exact (congrArg Cursor.rest hcursor).trans hrest
    · rw [show ({ s' with keyAllowed := true } : Cutting).cursor = s'.cursor from rfl, hcursor,
        hmove]
    · rw [show ({ s' with keyAllowed := true } : Cutting).cursor = s'.cursor from rfl, hcursor]
      exact Nat.lt_of_le_of_lt (hold e he) hline
  · have hcount := congrArg List.length hx
    simp only [List.length_append, List.length_cons, List.length_replicate] at hcount
    rw [show ({ s' with keyAllowed := true } : Cutting).cursor = s'.cursor from rfl, hcursor, hrest]
    omega

/-- A scalar that is a value is read up to the next token. -/
theorem Stands.scalar {f : Folding} {chars text more : List CodePoint} {plain : Bool} {k : Nat}
    (hp : Presents f chars plain text)
    (hs : Stands s (chars ++ ↑ '\n' :: (List.replicate k (CodePoint.scalar ' ') ++ more)) column
      done indents allowed)
    (hin : Inside indents column) (hmore : StartsToken more) (hfold : f.fold = true → 0 < f.indent)
    (hindent : ∀ i, indents.head? = some i → i < f.indent)
    (hends : plain = true → PlainEnds indents k more) :
    Leads s true (Stands · more k (done ++ [.scalar plain text]) indents true) := by
  cases hp with
  | plain column' h hne => exact hs.plain h hne hin hmore hfold hindent (hends rfl)
  | single column' h hbreaks =>
    have hquotes := quotes_foldSingle hfold
      (startsWord_cons (x := '\'') (by decide)
        (↑ '\n' :: (List.replicate k (CodePoint.scalar ' ') ++ more))) h hbreaks
          column' (Or.inl rfl)
    exact Stands.quoted (by simpa using hs) (Or.inr rfl) hquotes hin hmore
  | double column' cs =>
    have hquotes := quotes_foldDouble hfold
      (startsWord_cons (x := '"') (by decide)
        (↑ '\n' :: (List.replicate k (CodePoint.scalar ' ') ++ more))) true false column' cs
    exact Stands.quoted (by simpa using hs) (Or.inl rfl) hquotes hin hmore

/-! ## Empty containers -/

theorem any_required {ps : List (Nat × PossibleKey)} (h : ∀ e ∈ ps, e.2.required = false)
    (q : Nat × PossibleKey → Bool) : (ps.any fun e => q e && e.2.required) = false := by
  rw [List.any_eq_false]
  intro e he
  rw [h e he, Bool.and_false]
  exact Bool.false_ne_true

theorem dropStale_of_optional (h : ∀ e ∈ s.possible, e.2.required = false) :
    ∃ ps, s.dropStale = some { s with possible := ps } ∧ ∀ e ∈ ps, e ∈ s.possible := by
  have hany := any_required h fun e =>
    !(decide (e.2.line = s.cursor.line) && decide (s.cursor.index - e.2.index ≤ 1024))
  rw [dropStale]
  simp only [hany, Bool.false_eq_true, if_false]
  exact ⟨_, rfl, fun e he => List.mem_of_mem_filter he⟩

theorem dropPossible_of_optional (h : ∀ e ∈ s.possible, e.2.required = false) :
    ∃ ps, s.dropPossible = some { s with possible := ps } ∧ ∀ e ∈ ps, e ∈ s.possible := by
  have hany := any_required h fun e => decide (e.1 = s.depth)
  rw [dropPossible]
  simp only [hany, Bool.false_eq_true, if_false]
  exact ⟨_, rfl, fun e he => List.mem_of_mem_filter he⟩

/-- What a state between two brackets is in: what a state behind a value is in, inside one flow
collection. -/
structure Between (s : Cutting) (rest : List CodePoint) (done : List Token)
    (indents : List Nat) : Prop where
  rest : s.cursor.rest = rest
  tokens : s.tokens = done
  indents : s.indents = indents
  depth : s.depth = 1
  slotted : s.Slotted
  settled : ∀ e ∈ s.possible, e.2.required = false ∧ e.2.line ≤ s.cursor.line

/-- The bracket that opens. -/
theorem Stands.openBracket {x : CodePoint} {start : Token}
    (hs : Stands s (x :: rest) column done indents allowed) (hpossible : s.possible = [])
    (hin : Inside indents column)
    (hx : x = '[' ∧ start = .flowSequenceStart ∨ x = '\x7b' ∧ start = .flowMappingStart) :
    ∃ s', s.tokenAt x = some s' ∧ Between s' rest (done ++ [start]) indents := by
  have hdash : s.cursor.atMarker '-' = false :=
    Cursor.atMarker_eq_false hs.rest (by rcases hx with ⟨rfl, -⟩ | ⟨rfl, -⟩ <;> nofun)
  have hpoint : s.cursor.atMarker '.' = false :=
    Cursor.atMarker_eq_false hs.rest (by rcases hx with ⟨rfl, -⟩ | ⟨rfl, -⟩ <;> nofun)
  have htoken : s.tokenAt x = s.openFlow start := by
    rcases hx with ⟨rfl, rfl⟩ | ⟨rfl, rfl⟩ <;> simp [tokenAt, hdash, hpoint]
  have hinline : isInline x = true := by rcases hx with ⟨rfl, -⟩ | ⟨rfl, -⟩ <;> decide
  obtain ⟨t, hsave, -, hdepth, hends, -⟩ := savePossible_spec hs hpossible hin
  have hmove := Cursor.advance_inline hends.rest hinline
  refine ⟨{ t.push start with depth := 1, keyAllowed := true, cursor := t.cursor.advance }, ?_, ?_⟩
  · rw [htoken, openFlow, hsave, Option.bind_eq_bind, Option.bind_some,
      if_neg (by rw [hdepth]; decide), hdepth]
    rfl
  · refine ⟨congrArg Cursor.rest hmove, ?_, hends.indents, rfl,
      hends.slotted.push start, fun e he => ?_⟩
    · exact (tokens_push t start).trans (congrArg (· ++ [start]) hends.tokens)
    · obtain ⟨hrequired, hline⟩ := hends.settled e he
      exact ⟨hrequired, Nat.le_trans hline (Nat.le_of_eq (congrArg Cursor.line hmove).symm)⟩

/-- The bracket that closes. -/
theorem run_closeBracket {y : CodePoint} {close : Token} (hrest : s.cursor.rest = y :: rest)
    (hdepth : s.depth = 1) (hoptional : ∀ e ∈ s.possible, e.2.required = false)
    (hy : y = ']' ∧ close = .flowSequenceEnd ∨ y = '\x7d' ∧ close = .flowMappingEnd) :
    ∃ ps, (∀ e ∈ ps, e ∈ s.possible) ∧ ∀ fuel, s.run (fuel + 1) =
      ({ s.push close with
        depth := 0, keyAllowed := false, possible := ps, cursor := s.cursor.advance } : Cutting).run
          fuel := by
  have hstart : StartsToken s.cursor.rest := by
    rw [hrest]
    rcases hy with ⟨rfl, -⟩ | ⟨rfl, -⟩ <;> exact startsToken_cons (by decide) _
  obtain ⟨ps, hstale, hps⟩ := dropStale_of_optional hoptional
  have hclose : closeBlocks { s with possible := ps } (s.cursor.column : Nat) =
      { s with possible := ps } :=
    if_neg
      (by rw [show ({ s with possible := ps } : Cutting).depth = s.depth from rfl, hdepth]; decide)
  obtain ⟨qs, hdrop, hqs⟩ := dropPossible_of_optional (s := { s with possible := ps })
    fun e he => hoptional e (hps e he)
  refine ⟨qs, fun e he => hps e (hqs e he), fun fuel => ?_⟩
  have hdash : s.cursor.atMarker '-' = false :=
    Cursor.atMarker_eq_false hrest (by rcases hy with ⟨rfl, -⟩ | ⟨rfl, -⟩ <;> nofun)
  have hpoint : s.cursor.atMarker '.' = false :=
    Cursor.atMarker_eq_false hrest (by rcases hy with ⟨rfl, -⟩ | ⟨rfl, -⟩ <;> nofun)
  have htoken : tokenAt { s with possible := ps } y =
      closeFlow { s with possible := ps } close := by
    rcases hy with ⟨rfl, rfl⟩ | ⟨rfl, rfl⟩ <;> simp [tokenAt, hdash, hpoint]
  have hflow : closeFlow { s with possible := ps } close = some { s.push close with
      depth := 0, keyAllowed := false, possible := qs, cursor := s.cursor.advance } := by
    have hone : s.depth - 1 = 0 := by rw [hdepth]
    have hne : ¬ s.depth = 0 := by rw [hdepth]; decide
    rw [closeFlow, hdrop, Option.bind_eq_bind, Option.bind_some]
    simp only [hne, hone, if_false]
    rfl
  have hpeek : s.cursor.peek = some y := Cursor.peek_eq hrest
  rw [run_of_tokenAt hstart hstale hclose hpeek, htoken, hflow]
  rfl

theorem Between.closeBracket {y : CodePoint} {close : Token}
    (h : Between s (y :: rest) done indents)
    (hy : y = ']' ∧ close = .flowSequenceEnd ∨ y = '\x7d' ∧ close = .flowMappingEnd) :
    ∃ s', Ends s' rest (done ++ [close]) indents ∧ ∀ fuel, s.run (fuel + 1) = s'.run fuel := by
  obtain ⟨ps, hps, hrun⟩ := run_closeBracket h.rest h.depth (fun e he => (h.settled e he).1) hy
  have hinline : isInline y = true := by rcases hy with ⟨rfl, -⟩ | ⟨rfl, -⟩ <;> decide
  have hmove := Cursor.advance_inline h.rest hinline
  refine ⟨_, ?_, hrun⟩
  refine ⟨congrArg Cursor.rest hmove, ?_, h.indents, rfl, h.slotted.push close, fun e he => ?_⟩
  · exact (tokens_push s close).trans (congrArg (· ++ [close]) h.tokens)
  · obtain ⟨hrequired, hline⟩ := h.settled e (hps e he)
    exact ⟨hrequired, Nat.le_trans hline (Nat.le_of_eq (congrArg Cursor.line hmove).symm)⟩

/-- The two brackets of an empty container. -/
theorem Stands.brackets {x y : CodePoint} {start close : Token} {more : List CodePoint} {k : Nat}
    (hs : Stands s (x :: y :: ↑ '\n' :: (List.replicate k (CodePoint.scalar ' ') ++ more)) column
      done indents allowed)
    (hx : x = '[' ∧ y = ']' ∧ start = .flowSequenceStart ∧ close = .flowSequenceEnd ∨
      x = '\x7b' ∧ y = '\x7d' ∧ start = .flowMappingStart ∧ close = .flowMappingEnd)
    (hin : Inside indents column) (hmore : StartsToken more) :
    Leads s true (Stands · more k (done ++ [start, close]) indents true) := by
  have hfirst : StartsToken
      (x :: y :: ↑ '\n' :: (List.replicate k (CodePoint.scalar ' ') ++ more)) := by
    rcases hx with ⟨rfl, -⟩ | ⟨rfl, -⟩ <;> exact startsToken_cons (by decide) _
  obtain ⟨u, htoken, hbetween⟩ := hs.ready.openBracket rfl hin
    (hx.imp (fun h => ⟨h.1, h.2.2.1⟩) fun h => ⟨h.1, h.2.2.1⟩)
  obtain ⟨v, hends, hclose⟩ :=
    hbetween.closeBracket (hx.imp (fun h => ⟨h.2.1, h.2.2.2⟩) fun h => ⟨h.2.1, h.2.2.2⟩)
  rw [List.append_assoc] at hends
  have hgo : Leads s true (Ends · (↑ '\n' :: (List.replicate k (CodePoint.scalar ' ') ++ more))
      (done ++ [start, close]) indents) := by
    refine ⟨v, 2, hends, ?_, fun fuel => ?_⟩
    · rw [hends.rest, hs.rest]
      simp only [List.length_cons]
      omega
    · rw [hs.run_token hfirst hin.le, htoken]
      exact hclose fuel
  exact hgo.andThen fun _ h => h.line hmore

/-! ## Keys -/

theorem setIfInBounds_push (fillings : Array Filling) (a b : Filling) :
    (fillings.push a).setIfInBounds fillings.size b = fillings.push b := by
  refine Array.ext_getElem? fun i => ?_
  by_cases hi : i = fillings.size
  · subst hi
    simp
  · simp [Array.getElem?_push, hi, Ne.symm hi]

theorem plainStops_colon {d : Cursor} (m : Int) (hd : d.rest = ↑ ':' :: rest)
    (hrest : endsWord rest.head? = true) :
    PlainStops m d false d := by
  have hrun : plainRun false d.rest = 0 := by
    rw [hd, plainRun, if_neg (by decide), if_pos (by simp [hrest])]
  have hspan : d.span (· = ' ') = ([], d) :=
    Cursor.span_eq (show d.rest = [] ++ _ from hd) (List.forall_mem_nil _) fun x hx => by
      cases hx; rfl
  have hbreak : d.lineBreak? = none := by
    refine Cursor.lineBreak?_eq_none fun x hx => ?_
    rw [hd] at hx
    cases hx
    decide
  refine ⟨hrun, [], ?_, rfl⟩
  simp only [plainSpaces, hspan, hbreak]

theorem wordToken_allow (s : Cutting) (t : Token) (c : Cursor) :
    (s.wordToken t c).map ({ · with keyAllowed := false }) = s.wordToken t c := by
  rw [wordToken]
  cases s.savePossible <;> rfl

/-- A key that is written on one line is one token in front of its colon. -/
theorem tokenAt_key {f : Folding} {chars text : List CodePoint} {plain : Bool}
    (hp : Presents f chars plain text) (hfold : f.fold = false)
    (hs : Stands s (chars ++ ↑ ':' :: rest) column done indents allowed)
    (hrest : endsWord rest.head? = true) (hin : ∀ i, indents.head? = some i → i ≤ column) :
    ∃ x xs, chars ++ ↑ ':' :: rest = x :: xs ∧ StartsToken (x :: xs) ∧
      s.tokenAt x = s.wordToken (.scalar plain text) (s.cursor.forward chars.length) := by
  have hnever {p : Prop} : f.fold = true → p :=
    fun h => absurd (hfold.symm.trans h) Bool.false_ne_true
  cases hp with
  | plain column' h hne =>
    have hdrop : (s.cursor.forward (foldPlain f 0 column' text).length).rest = ↑ ':' :: rest := by
      rw [Cursor.rest_forward, hs.rest, List.drop_left]
    have hcolumn : s.indent ≤ (s.cursor.column : Int) := hs.column ▸ indent_le hs.indents hin
    obtain ⟨x, xs, hx, hstart, htoken⟩ :=
      tokenAt_foldPlain h hne hs hnever hcolumn (by simp) (by simp)
      (plainStops_colon _ hdrop hrest)
    exact ⟨x, xs, hx, hstart, htoken.trans (wordToken_allow _ _ _)⟩
  | single column' h hbreaks =>
    have hquotes := quotes_foldSingle hnever
      (startsWord_cons (x := '\'') (by decide) (↑ ':' :: rest)) h hbreaks column'
      (Or.inl rfl)
    refine ⟨_, _, rfl, startsToken_cons (by decide) _, ?_⟩
    exact tokenAt_quoted (by simpa using hs) (Or.inr rfl) hquotes nofun
  | double column' cs =>
    have hquotes := quotes_foldDouble hnever
      (startsWord_cons (x := '"') (by decide) (↑ ':' :: rest)) true false column'
      cs
    refine ⟨_, _, rfl, startsToken_cons (by decide) _, ?_⟩
    exact tokenAt_quoted (by simpa using hs) (Or.inl rfl) hquotes nofun

/-- The state behind a key, in front of its colon. -/
def behindKey (s : Cutting) (t : Token) (c : Cursor) : Cutting :=
  { s.leaveSlot.push t with keyAllowed := false, cursor := c }

theorem valueMark_behindKey (hdepth : s.depth = 0) (t : Token) (c : Cursor) :
    (s.behindKey t c).valueMark = some ((({ s.behindKey t c with
      possible := []
      fillings := s.fillings.push
        (if s.indent < (s.cursor.column : Int) then .mappingAndKey else .key)
      indents := if s.indent < (s.cursor.column : Int) then s.cursor.column :: s.indents
        else s.indents } : Cutting).push
        .value).moveTo c.advance) := by
  have hindent : (s.behindKey t c).indent = s.indent := rfl
  have hfind : ((s.behindKey t c).possible.find? fun e => e.1 = (s.behindKey t c).depth) =
      some (s.depth, s.keyHere) := by
    simp [behindKey, leaveSlot, push]
  have hfilter : ((s.behindKey t c).possible.filter fun e => e.1 ≠ 0) = [] := by
    simp [behindKey, leaveSlot, push, hdepth]
  have hzero : (s.behindKey t c).depth = 0 := hdepth
  have hset (filling : Filling) :
      (s.behindKey t c).fillings.setIfInBounds s.fillings.size filling = s.fillings.push filling :=
    setIfInBounds_push _ _ _
  rw [valueMark, hfind]
  simp only [hfilter, hzero, hindent, keyHere, hset, decide_true, Bool.true_and, decide_eq_true_eq]
  rfl

/-- The colon behind a key fills the slot that was left in front of the key. -/
theorem valueMark_key (hs : Stands s rest column done indents true) (t : Token) {c : Cursor}
    {rest' : List CodePoint} (hrest : c.rest = ↑ ':' :: rest') {column' : Nat}
    (hcolumn : c.column = column') :
    ∃ s', (s.behindKey t c).valueMark = some s' ∧ Stands s' rest' (column' + 1)
      (done ++ (if opens indents column then [.mappingStart] else []) ++ [.key, t, .value])
      (if opens indents column then column :: indents else indents) false := by
  have hindent : s.indent < (column : Int) ↔ opens indents column = true := indent_lt_iff hs.indents
  have hmove := Cursor.advance_inline hrest (by decide)
  have hslot (filling : Filling) (b : List Nat) : Stands ({ s.behindKey t c with
      possible := []
      fillings := s.fillings.push filling
      indents := b } : Cutting) (↑ ':' :: rest') column'
        (done ++ itemTokens #[filling] (.slot 0) ++ [t]) b false := by
    refine ⟨hrest, hcolumn, ?_, rfl, rfl, hs.depth, ?_, nofun⟩
    · have hfilled := flatMap_slot hs.slotted filling
      rw [← tokens_eq, hs.tokens] at hfilled
      rw [tokens_eq, ← hfilled]
      simp [behindKey, leaveSlot, Cutting.push, itemTokens]
    · have hslots := hs.slotted.leaveSlot.push t
      intro n hn
      have hlt := hslots n hn
      rw [Array.size_push]
      have hsize : (s.leaveSlot.push t).fillings.size = s.fillings.size + 1 := Array.size_push _
      omega
  refine ⟨_, valueMark_behindKey hs.depth t c, ?_⟩
  rw [hs.column, hs.indents]
  by_cases hopens : opens indents column = true
  · have hs' := ((hslot .mappingAndKey (column :: indents)).push .value).advance (by decide)
    have hdone : done ++ itemTokens #[.mappingAndKey] (.slot 0) ++ [t] ++ [.value] =
        done ++ [.mappingStart] ++ [.key, t, .value] := by
      simp [itemTokens]
    rw [hdone] at hs'
    simp only [if_pos (hindent.mpr hopens), if_pos hopens]
    exact hs'
  · have hs' := ((hslot .key indents).push .value).advance (by decide)
    have hdone : done ++ itemTokens #[.key] (.slot 0) ++ [t] ++ [.value] =
        done ++ [] ++ [.key, t, .value] := by
      simp [itemTokens]
    rw [hdone] at hs'
    simp only [if_neg (mt hindent.mp hopens), if_neg hopens]
    exact hs'

/-- Behind a key only the key itself may have begun. -/
theorem dropStale_behindKey (t : Token) {c : Cursor} {n : Nat} (hline : c.line = s.cursor.line)
    (hindex : c.index = s.cursor.index + n) :
    (s.behindKey t c).dropStale =
      if n ≤ 1024 then some (s.behindKey t c)
      else if s.keyHere.required then none else some { s.behindKey t c with possible := [] } := by
  have hpossible : (s.behindKey t c).possible = [(s.depth, s.keyHere)] := rfl
  have hcursor : (s.behindKey t c).cursor = c := rfl
  have hlive : (decide (s.keyHere.line = c.line) && decide (c.index - s.keyHere.index ≤ 1024)) =
      decide (n ≤ 1024) := by
    have hdistance : c.index - s.cursor.index = n := by omega
    rw [show s.keyHere.line = s.cursor.line from rfl,
      show s.keyHere.index = s.cursor.index from rfl, hline, hdistance,
      decide_eq_true rfl, Bool.true_and]
  rw [dropStale, hpossible]
  simp only [hcursor, List.any_cons, List.any_nil, List.filter_cons, List.filter_nil, hlive]
  by_cases hn : n ≤ 1024
  · simp [hn, ← hpossible]
    rfl
  · simp [hn]

/-- A colon behind a key that is no longer remembered ends the reading. -/
theorem valueMark_lost (hdepth : s.depth = 0) (hallowed : s.keyAllowed = false)
    (hpossible : s.possible = []) :
    s.valueMark = none := by
  rw [valueMark, hpossible]
  simp [hdepth, hallowed]

/-- The colon behind a key is read if the key takes at most 1024 characters. -/
theorem run_colon (hs : Stands s rest column done indents true) (t : Token) {c : Cursor} {n : Nat}
    {rest' : List CodePoint} (hrest : c.rest = ↑ ':' :: rest')
    (hrest' : endsWord rest'.head? = true) (hline : c.line = s.cursor.line)
    (hindex : c.index = s.cursor.index + n) (hcolumn : c.column = column + n)
    (hin : ∀ i, indents.head? = some i → i ≤ column) (fuel : Nat) :
    (s.behindKey t c).run (fuel + 1) =
      if n ≤ 1024 then (s.behindKey t c).valueMark.bind (·.run fuel) else none := by
  have hstart : StartsToken (s.behindKey t c).cursor.rest := by
    rw [show (s.behindKey t c).cursor = c from rfl, hrest]
    exact startsToken_cons (by decide) rest'
  have hle : ∀ i, s.indents.head? = some i → i ≤ c.column := fun i hi => by
    rw [hs.indents] at hi
    rw [hcolumn]
    exact Nat.le_trans (hin i hi) (Nat.le_add_right _ _)
  have hpeek : c.peek = some (CodePoint.scalar ':') := Cursor.peek_eq hrest
  have hkept (ps : List (Nat × PossibleKey)) :
      closeBlocks { s.behindKey t c with possible := ps } (c.column : Nat) =
      { s.behindKey t c with possible := ps } :=
    (if_pos (show ({ s.behindKey t c with possible := ps } : Cutting).depth =
      0 from hs.depth)).trans
      (unwind_open rfl hle)
  have hstep (ps : List (Nat × PossibleKey)) :
      ({ s.behindKey t c with possible := ps } : Cutting).tokenAt ':' =
      ({ s.behindKey t c with possible := ps } : Cutting).valueMark :=
    (tokenAt_mark (s := { s.behindKey t c with possible := ps }) hrest hs.depth hrest').2.2 rfl
  have hdrop := dropStale_behindKey (s := s) t hline hindex
  by_cases hn : n ≤ 1024
  · rw [if_pos hn] at hdrop ⊢
    exact (run_of_tokenAt hstart hdrop (hkept _) hpeek fuel).trans
      (congrArg (Option.bind · (·.run fuel)) (hstep _))
  · rw [if_neg hn] at hdrop ⊢
    by_cases hrequired : s.keyHere.required = true
    · rw [if_pos hrequired] at hdrop
      rw [run, toNextToken_here hstart, hdrop]
      rfl
    · rw [if_neg hrequired] at hdrop
      have hlost : ({ s.behindKey t c with possible := [] } : Cutting).tokenAt ':' = none :=
        (hstep []).trans (valueMark_lost hs.depth rfl rfl)
      exact (run_of_tokenAt hstart hdrop (hkept []) hpeek fuel).trans
        (congrArg (Option.bind · (·.run fuel)) hlost)

/-- A key that is written on one line is read with its colon if it takes at most 1024 characters;
else nothing is. -/
theorem Stands.key {f : Folding} {chars text : List CodePoint} {plain : Bool}
    (hp : Presents f chars plain text) (hfold : f.fold = false)
    (hinline : ∀ x ∈ chars, isInline x = true)
    (hs : Stands s (chars ++ ↑ ':' :: rest) column done indents true)
    (hrest : endsWord rest.head? = true) (hin : ∀ i, indents.head? = some i → i ≤ column) :
    Leads s (decide (chars.length ≤ 1024)) (Stands · rest (column + chars.length + 1)
      (done ++ (if opens indents column then [.mappingStart] else []) ++
        [.key, .scalar plain text, .value])
      (if opens indents column then column :: indents else indents) false) := by
  have hpos := hp.length_pos
  obtain ⟨x, xs, hx, hstart, htoken⟩ := tokenAt_key hp hfold hs.ready hrest hin
  have hmove := Cursor.forward_inline hs.rest hinline
  generalize hr : ({ s with possible := [] } : Cutting) = r at htoken
  have hready : Stands r (chars ++ ↑ ':' :: rest) column done indents true := hr ▸ hs.ready
  have hcursor : r.cursor = s.cursor := by rw [← hr]
  have hword : r.wordToken (.scalar plain text) (r.cursor.forward chars.length) =
      some (r.behindKey (.scalar plain text) (r.cursor.forward chars.length)) := by
    rw [wordToken, savePossible_eq (by rw [← hr]), if_pos hready.keyAllowed]
    rfl
  rw [← hcursor] at hmove
  have hfirst (fuel : Nat) : s.run (fuel + 1) =
      (r.behindKey (.scalar plain text) (r.cursor.forward chars.length)).run fuel := by
    rw [hx] at hs
    rw [hs.run_token hstart hin, hr, htoken, hword]
    rfl
  have hrest' : (r.cursor.forward chars.length).rest = ↑ ':' :: rest := by rw [hmove]
  have hcolumn : (r.cursor.forward chars.length).column = column + chars.length := by
    rw [hmove, hready.column]
  have hsecond := run_colon hready (.scalar plain text) hrest' hrest (by rw [hmove])
    (by rw [hmove]) hcolumn hin
  have hcount : s.cursor.rest.length = chars.length + (rest.length + 1) := by
    rw [hs.rest, List.length_append, List.length_cons]
  by_cases hlong : chars.length ≤ 1024
  · obtain ⟨s', hvalue, hs'⟩ := valueMark_key hready (.scalar plain text) hrest' hcolumn
    rw [decide_eq_true hlong]
    refine ⟨s', 2, hs', ?_, fun fuel => ?_⟩
    · rw [hs'.rest]
      omega
    · rw [hfirst, hsecond, if_pos hlong, hvalue]
      rfl
  · rw [decide_eq_false hlong]
    refine ⟨2, by omega, fun fuel => ?_⟩
    rw [hfirst, hsecond, if_neg hlong]

end

end Cutting

end Grove.Yaml
