import Grove.Json.Reader
import Grove.Proofs.Json.Number
import Grove.Proofs.Tree.Plain

/-!
# Documents read back

The tokens of a written tree do not depend on the layout. Reading them completes the plain value of
the tree over whatever containers are open, as long as these are not too many.
-/
namespace Grove.Json

/-! ## Writing as tokens -/

mutual

def treeTokens : Tree → List Token
  | .number x => [numberToken x]
  | .string s => [.string s]
  | .boolean b => [.fixed (.boolean b)]
  | .list [] => [.openBracket, .closeBracket]
  | .list (t :: ts) => .openBracket :: (treeTokens t ++ itemsTokens ts ++ [.closeBracket])
  | .level [] => [.openBrace, .closeBrace]
  | .level ((k, t) :: es) =>
    .openBrace :: .string k :: .colon :: (treeTokens t ++ entriesTokens es ++ [.closeBrace])

def itemsTokens : List Tree → List Token
  | [] => []
  | t :: ts => .comma :: (treeTokens t ++ itemsTokens ts)

def entriesTokens : List (Text × Tree) → List Token
  | [] => []
  | (k, t) :: es => .comma :: .string k :: .colon :: (treeTokens t ++ entriesTokens es)

end

theorem stops_cons {c : CodePoint} (h : c = ',' ∨ c = ']' ∨ c = '\x7d' ∨ c = '\n')
    (cs : List CodePoint) :
    Stops (c :: cs) := by
  intro b hb
  cases hb
  exact h

theorem stops_nil : Stops [] := by
  intro c hc
  cases hc

theorem isSpace_of_mem_gap {indent : Int} {depth : Nat} {c : CodePoint} (h : c ∈ gap indent depth) :
    isSpace c = true := by
  unfold gap at h
  split at h
  · cases h
  · rcases List.mem_cons.mp h with rfl | h
    · decide
    · rw [List.eq_of_mem_replicate h]
      decide

theorem lexes_gap (indent : Int) (depth : Nat) (rest : List CodePoint) :
    Lexes (gap indent depth) rest [] :=
  lexes_spaces (fun _ hc => isSpace_of_mem_gap hc) rest

theorem lexes_separator (indent : Int) (depth : Nat) (rest : List CodePoint) :
    Lexes (separator indent depth) rest [.comma] := by
  unfold separator
  split
  · exact (lexes_comma ([CodePoint.scalar ' '] ++ rest)).append
      (lexes_spaces (by simp [isSpace]) rest)
  · exact (lexes_comma (gap indent depth ++ rest)).append (lexes_gap indent depth rest)

theorem lexes_nil (rest : List CodePoint) : Lexes [] rest [] :=
  lexes_spaces (by simp) rest

theorem lexes_key (k : Text) (rest : List CodePoint) :
    Lexes (stringChars k ++ [CodePoint.scalar ':', ' ']) rest [.string k, .colon] :=
  (lexes_stringChars k _).append (lexes_colon rest)

theorem lexes_trueWord (rest : List CodePoint) :
    Lexes (Text.toList "true") rest [.fixed (.boolean true)] :=
  lexes_word (by simp [words]) rest

theorem lexes_falseWord (rest : List CodePoint) :
    Lexes (Text.toList "false") rest [.fixed (.boolean false)] :=
  lexes_word (by simp [words]) rest

theorem stops_gap (indent : Int) (depth : Nat) {rest : List CodePoint} (h : Stops rest) :
    Stops (gap indent depth ++ rest) := by
  unfold gap
  split
  · exact h
  · exact stops_cons (by simp) _

theorem stops_separator (indent : Int) (depth : Nat) (rest : List CodePoint) :
    Stops (separator indent depth ++ rest) := by
  unfold separator
  split <;> exact stops_cons (by simp) _

theorem stops_itemsChars (indent : Int) (depth : Nat) (ts : List Tree) {rest : List CodePoint}
    (h : Stops rest) :
    Stops (itemsChars indent depth ts ++ rest) := by
  cases ts with
  | nil => exact h
  | cons t ts =>
    rw [itemsChars, List.append_assoc, List.append_assoc]
    exact stops_separator indent depth _

theorem stops_entriesChars (indent : Int) (depth : Nat) (es : List (Text × Tree))
    {rest : List CodePoint} (h : Stops rest) : Stops (entriesChars indent depth es ++ rest) := by
  cases es with
  | nil => exact h
  | cons e es =>
    obtain ⟨k, t⟩ := e
    simp only [entriesChars, List.append_assoc]
    exact stops_separator indent depth _

mutual

/-- A written tree is cut into the tokens of the tree, whatever the layout. -/
theorem lexes_treeChars (indent : Int) :
    (t : Tree) → ∀ (depth : Nat) {rest : List CodePoint}, Stops rest →
    Lexes (treeChars indent depth t) rest (treeTokens t)
  | .number x, _, _, h => lexes_numberChars x h
  | .string s, _, rest, _ => lexes_stringChars s rest
  | .boolean true, _, rest, _ => lexes_trueWord rest
  | .boolean false, _, rest, _ => lexes_falseWord rest
  | .list [], _, rest, _ => (lexes_openBracket (↑ ']' :: rest)).append (lexes_closeBracket rest)
  | .list (t :: ts), depth, rest, h => by
    have hend := (lexes_gap indent depth (↑ ']' :: rest)).append (lexes_closeBracket rest)
    have hstop : Stops ((gap indent depth ++ [CodePoint.scalar ']']) ++ rest) := by
      rw [List.append_assoc]
      exact stops_gap indent depth (stops_cons (by simp) rest)
    have hitems := (lexes_itemsChars indent ts (depth + 1) hstop).append hend
    have hmore : Stops
        ((itemsChars indent (depth + 1) ts ++ (gap indent depth ++ [CodePoint.scalar ']'])) ++
            rest) := by
      rw [List.append_assoc]
      exact stops_itemsChars indent (depth + 1) ts hstop
    have htree := (lexes_treeChars indent t (depth + 1) hmore).append hitems
    have hopen := (lexes_openBracket _).append ((lexes_gap indent (depth + 1) _).append htree)
    simpa only [treeChars, treeTokens, List.append_assoc, List.singleton_append, List.nil_append,
      List.cons_append] using hopen
  | .level [], _, rest, _ => (lexes_openBrace (↑ '\x7d' :: rest)).append (lexes_closeBrace rest)
  | .level ((k, t) :: es), depth, rest, h => by
    have hend := (lexes_gap indent depth (↑ '\x7d' :: rest)).append (lexes_closeBrace rest)
    have hstop : Stops ((gap indent depth ++ [CodePoint.scalar '\x7d']) ++ rest) := by
      rw [List.append_assoc]
      exact stops_gap indent depth (stops_cons (by simp) rest)
    have hentries := (lexes_entriesChars indent es (depth + 1) hstop).append hend
    have hmore : Stops
        ((entriesChars indent (depth + 1) es ++ (gap indent depth ++ [CodePoint.scalar '\x7d'])) ++
            rest) := by
      rw [List.append_assoc]
      exact stops_entriesChars indent (depth + 1) es hstop
    have htree := (lexes_treeChars indent t (depth + 1) hmore).append hentries
    have hopen := (lexes_openBrace _).append
      ((lexes_gap indent (depth + 1) _).append ((lexes_key k _).append htree))
    simpa only [treeChars, treeTokens, List.append_assoc, List.singleton_append, List.nil_append,
      List.cons_append] using hopen

theorem lexes_itemsChars (indent : Int) : (ts : List Tree) →
    ∀ (depth : Nat) {rest : List CodePoint}, Stops rest →
    Lexes (itemsChars indent depth ts) rest (itemsTokens ts)
  | [], _, rest, _ => lexes_nil rest
  | t :: ts, depth, rest, h => by
    have htree := (lexes_treeChars indent t depth (stops_itemsChars indent depth ts h)).append
      (lexes_itemsChars indent ts depth h)
    have hall := (lexes_separator indent depth _).append htree
    simpa only [itemsChars, itemsTokens, List.append_assoc, List.singleton_append] using hall

theorem lexes_entriesChars (indent : Int) : (es : List (Text × Tree)) →
    ∀ (depth : Nat) {rest : List CodePoint},
    Stops rest → Lexes (entriesChars indent depth es) rest (entriesTokens es)
  | [], _, rest, _ => lexes_nil rest
  | (k, t) :: es, depth, rest, h => by
    have htree := (lexes_treeChars indent t depth (stops_entriesChars indent depth es h)).append
      (lexes_entriesChars indent es depth h)
    have hall := (lexes_separator indent depth _).append ((lexes_key k _).append htree)
    simpa only [entriesChars, entriesTokens, List.append_assoc,
      List.singleton_append, List.cons_append, List.nil_append] using hall

end

/-! ## Reading the tokens -/

/-- Reading the tokens, wherever they stand, leads from one state to another. -/
def Runs (r : Reading) (tokens : List Token) (r' : Reading) : Prop :=
  ∀ ls more, ls.map (·.token) = tokens → r.run (ls ++ more) = r'.run more

theorem Runs.append {r r' r'' : Reading} {ts us : List Token} (h : Runs r ts r')
    (h' : Runs r' us r'') :
    Runs r (ts ++ us) r'' := by
  intro ls more hls
  obtain ⟨ks, ms, rfl, hks, hms⟩ := List.map_eq_append_iff.mp hls
  rw [List.append_assoc, h ks _ hks, h' ms _ hms]

theorem runs_of_next {r r' : Reading} {t : Token} (h : ∀ p, r.next ⟨t, p⟩ = .ok r') :
    Runs r [t] r' := by
  intro ls more hls
  obtain ⟨l, ks, rfl, rfl, hks⟩ := List.map_eq_cons_iff.mp hls
  cases List.map_eq_nil_iff.mp hks
  show (r.next l).bind (fun r => r.run more) = _
  rw [h l.place]
  rfl

theorem Runs.cons {r r' r'' : Reading} {t : Token} {ts : List Token}
    (h : ∀ p, r.next ⟨t, p⟩ = .ok r') (h' : Runs r' ts r'') : Runs r (t :: ts) r'' :=
  (runs_of_next h).append h'

theorem wholeValue_decimal {x : Binary64} {n : Int} (h : x.toInt? = some n) :
    wholeValue (n < 0) (Text.decimal n.natAbs) = .ok (.int n) := by
  have hlen : (Text.decimal n.natAbs).length ≤ 309 := Binary64.decimalLength_of_toInt? h
  rw [wholeValue, if_neg (by rw [maxDigits]; omega), Text.decimalValue_decimal]
  by_cases hn : n < 0
  · simp [hn, abs_of_neg hn]
  · simp [hn, abs_of_nonneg (not_lt.mp hn)]

theorem value_numberToken (stack : List Frame) (x : Binary64) (p : Place) :
    Reading.value stack ⟨numberToken x, p⟩ = .ok (.complete stack (Tree.numberValue true x)) := by
  unfold numberToken Tree.numberValue
  rw [if_pos rfl]
  cases h : x.toInt? with
  | some n =>
    show (do return Reading.complete stack (← wholeValue _ _)) = _
    rw [wholeValue_decimal h]
    rfl
  | none => rfl

/-- Where the first item is due, a token that closes nothing is read as a value. -/
theorem next_firstItem (stack : List Frame) {t : Token} (h : t ≠ .closeBracket) (p : Place) :
    Reading.next ⟨stack, .firstItem⟩ ⟨t, p⟩ = Reading.next ⟨stack, .value⟩ ⟨t, p⟩ := by
  cases t <;> first | rfl | exact absurd rfl h

theorem treeTokens_eq_cons (t : Tree) : ∃ first more, treeTokens t = first :: more ∧
    first ≠ .closeBracket ∧ ∀ quoted fault, first ≠ .bad quoted fault := by
  cases t with
  | number x =>
    refine ⟨numberToken x, [], rfl, ?_⟩
    unfold numberToken
    split <;> exact ⟨nofun, nofun⟩
  | string | boolean => exact ⟨_, [], rfl, nofun, nofun⟩
  | list items => cases items <;> exact ⟨_, _, rfl, nofun, nofun⟩
  | level entries => cases entries <;> exact ⟨_, _, rfl, nofun, nofun⟩

theorem next_openBracket {stack : List Frame} (h : stack.length < maxNesting) (p : Place) :
    Reading.next ⟨stack, .value⟩ ⟨.openBracket, p⟩ = .ok ⟨.items [] :: stack, .firstItem⟩ :=
  if_neg (Nat.not_le.mpr h)

theorem next_openBrace {stack : List Frame} (h : stack.length < maxNesting) (p : Place) :
    Reading.next ⟨stack, .value⟩ ⟨.openBrace, p⟩ = .ok ⟨stack, .firstKey []⟩ :=
  if_neg (Nat.not_le.mpr h)

theorem Runs.firstItem {stack : List Frame} {t : Tree} {r : Reading}
    (h : Runs ⟨stack, .value⟩ (treeTokens t) r) : Runs ⟨stack, .firstItem⟩ (treeTokens t) r := by
  obtain ⟨first, more, htokens, hne, -⟩ := treeTokens_eq_cons t
  intro ls rest hls
  rw [← h ls rest hls]
  rw [htokens] at hls
  obtain ⟨l, ks, rfl, rfl, -⟩ := List.map_eq_cons_iff.mp hls
  rw [List.cons_append, Reading.run, Reading.run, next_firstItem stack hne]

mutual

/-- Reading the tokens of a tree completes its plain value. -/
theorem runs_treeTokens : (t : Tree) → t.Fits → ∀ stack :
    List Frame, stack.length + t.depth ≤ maxNesting →
    Runs ⟨stack, .value⟩ (treeTokens t) (.complete stack (t.toValue true))
  | .number x, _, stack, _ => runs_of_next fun p => value_numberToken stack x p
  | .string _, _, _, _ => runs_of_next fun _ => rfl
  | .boolean _, _, _, _ => runs_of_next fun _ => rfl
  | .list [], _, stack, h => by
    have hlt : stack.length < maxNesting := h
    exact Runs.cons (next_openBracket hlt) (runs_of_next fun _ => rfl)
  | .list (t :: ts), hfits, stack, h => by
    rw [Tree.depth, Tree.depthAll] at h
    have hfirst :=
      (runs_treeTokens t hfits.1 (.items [] :: stack) (by rw [List.length_cons]; omega)).firstItem
    have hmore := runs_itemsTokens ts hfits.2 stack [t.toValue true] (by omega)
    rw [treeTokens, List.append_assoc]
    exact Runs.cons (next_openBracket (by omega)) (hfirst.append hmore)
  | .level [], _, stack, h => by
    have hlt : stack.length < maxNesting := h
    exact Runs.cons (next_openBrace hlt) (runs_of_next fun _ => rfl)
  | .level ((k, t) :: es), hfits, stack, h => by
    rw [Tree.depth, Tree.depthEntries] at h
    have hfirst := runs_treeTokens t hfits.2.1.2 (.entries [] k :: stack)
      (by rw [List.length_cons]; omega)
    have hmore := runs_entriesTokens es hfits.2.2 stack [(k, t.toValue true)] k hfits.1 (by omega)
    rw [treeTokens, List.append_assoc]
    exact Runs.cons (next_openBrace (by omega)) (Runs.cons (fun _ => rfl) (Runs.cons (fun _ => rfl)
      (hfirst.append hmore)))

theorem runs_itemsTokens : (ts : List Tree) → Tree.AllFit ts →
    ∀ (stack : List Frame) (done : List Value),
    stack.length + 1 + Tree.depthAll ts ≤ maxNesting →
    Runs ⟨.items done :: stack, .separator⟩ (itemsTokens ts ++ [.closeBracket])
      (.complete stack (.list (done.reverse ++ Tree.itemValues true ts)))
  | [], _, stack, done, _ => by
    rw [Tree.itemValues, List.append_nil]
    exact runs_of_next fun _ => rfl
  | t :: ts, hfits, stack, done, h => by
    rw [Tree.depthAll] at h
    have hfirst := runs_treeTokens t hfits.1 (.items done :: stack)
      (by rw [List.length_cons]; omega)
    have hmore := runs_itemsTokens ts hfits.2 stack (t.toValue true :: done) (by omega)
    rw [List.reverse_cons, List.append_assoc] at hmore
    rw [itemsTokens, List.cons_append, List.append_assoc]
    exact Runs.cons (fun _ => rfl) (hfirst.append hmore)

theorem runs_entriesTokens : (es : List (Text × Tree)) → Tree.EntriesFit es →
    ∀ (stack : List Frame) (done : List (Text × Value)) (key : Text),
    (Entries.keys done ++ Entries.keys es).Nodup →
      stack.length + 1 + Tree.depthEntries es ≤ maxNesting →
    Runs ⟨.entries done key :: stack, .separator⟩ (entriesTokens es ++ [.closeBrace])
      (.complete stack (.dict ((done.map fun (k, v) => (.text k, v)) ++ Tree.entryValues true es)))
  | [], _, stack, done, key, _, _ => by
    rw [Tree.entryValues, List.append_nil]
    exact runs_of_next fun _ => rfl
  | (k, t) :: es, hfits, stack, done, key, hnodup, h => by
    rw [Tree.depthEntries] at h
    have hk : k ∉ Entries.keys done := by
      intro hmem
      exact (List.nodup_append.mp hnodup).2.2 k hmem k List.mem_cons_self rfl
    have hfirst := runs_treeTokens t hfits.1.2 (.entries done k :: stack)
      (by rw [List.length_cons]; omega)
    have hmore := runs_entriesTokens es hfits.2 stack (done ++ [(k, t.toValue true)]) k
      (by simpa [Entries.keys, List.map_append, List.append_assoc] using hnodup) (by omega)
    rw [List.map_append, List.append_assoc, ← Entries.put_of_notMem hk] at hmore
    rw [entriesTokens, List.cons_append, List.cons_append, List.cons_append, List.append_assoc]
    exact Runs.cons (fun _ => rfl)
      (Runs.cons (fun _ => rfl) (Runs.cons (fun _ => rfl) (hfirst.append hmore)))

end

theorem readToken_byteOrderMark (p : Place) (cs : List CodePoint) :
    readToken p '\uFEFF' cs = (.bad false (.malformed .value p), 0) := by
  rw [readToken, find?_words_eq_none (by simp)]
  rfl

/-- What is written does not start with a byte order mark, since that is no token. -/
theorem treeChars_head (indent : Int) (t : Tree) (rest : List CodePoint) :
    treeChars indent 0 t ≠ ↑ '\uFEFF' :: rest := by
  intro h
  obtain ⟨ls, q, hls, htokens⟩ := lexes_treeChars indent t 0 stops_nil .start
  obtain ⟨first, more, hfirst, -, hbad⟩ := treeTokens_eq_cons t
  obtain ⟨l, ks, rfl, rfl, -⟩ := List.map_eq_cons_iff.mp (htokens.trans hfirst)
  have hlex : lexFrom 0 .start (↑ '\uFEFF' :: rest) =
      ⟨.bad false (.malformed .value .start), .start⟩ ::
          lexFrom 0 (Place.start.after '\uFEFF') rest := by
    rw [lexFrom, readToken_byteOrderMark]
    rfl
  rw [h, List.append_nil, hlex] at hls
  exact hbad _ _ (congrArg Lexeme.token (List.cons.inj hls).1).symm

/-- A document that was written is read as the plain value of its tree. -/
theorem read_write (indent : Int) {t : Tree} (hfits : t.Fits) (hdepth : t.depth ≤ maxNesting) :
    read (write indent t).toList = .ok (t.toValue true) := by
  obtain ⟨ls, q, hls, htokens⟩ := lexes_treeChars indent t 0 stops_nil .start
  have hrun := runs_treeTokens t hfits [] (by simpa using hdepth) ls (lexFrom 0 q []) htokens
  rw [write, Text.toList_ofList]
  unfold read
  split
  · next rest hbom => exact absurd hbom (treeChars_head indent t rest)
  · rw [lex, ← List.append_nil (treeChars indent 0 t), hls, hrun]
    rfl

end Grove.Json
