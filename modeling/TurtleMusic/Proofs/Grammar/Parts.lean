import TurtleMusic.Proofs.Grammar.Growing

/-!
# Growing part by part

A round replaces every character by its own rule, so no character has a say in what another one grows into. A text may be cut before it grows and its growth may be halted after any round: the parts, grown on one after the other, are the parts of what the whole grows into. Nor does it matter in which order a valid grammar lists its symbols, each with its rule: no symbol is listed twice, so each has one rule wherever it stands.
-/

namespace TurtleMusic.Grammar

/-! ### Parts and rounds -/

theorem expand_append (rules : Rules) (generations : Nat) (left right : List Char) :
    expand rules generations (left ++ right) = expand rules generations left ++ expand rules generations right := by
  -- The parts change with every round, so the induction is over all parts at once.
  induction generations generalizing left right with
  | zero => rfl
  | succ generations ih => rw [expand, substitute_append, ih, expand, expand]

theorem expand_add (rules : Rules) (first later : Nat) (text : List Char) :
    expand rules (first + later) text = expand rules later (expand rules first text) := by
  induction first generalizing text with
  | zero => rw [Nat.zero_add, expand]
  | succ first ih => rw [Nat.succ_add, expand, expand, ih]

/-! ### Valid grammars -/

theorem distinct_iff_nodup (symbols : List String) : distinct symbols = true ↔ symbols.Nodup := by
  induction symbols with
  | nil => exact iff_of_true rfl List.nodup_nil
  | cons symbol rest ih =>
    rw [distinct, Bool.and_eq_true, ih, List.nodup_cons, Bool.not_eq_true', List.contains_eq_mem, decide_eq_false_iff_not]

structure Valid (grammar : Grammar) : Prop where
  sameCount : grammar.alphabet.length = grammar.rules.length
  single : ∀ symbol ∈ grammar.alphabet, symbol.length = 1
  nodup : grammar.alphabet.Nodup

theorem validate_eq_ok_iff (grammar : Grammar) : grammar.validate = .ok () ↔ grammar.Valid := by
  rw [validate]
  constructor
  · intro hvalid
    split at hvalid
    · cases hvalid
    · next hcount =>
      split at hvalid
      · cases hvalid
      · next hsingle =>
        split at hvalid
        · next hdistinct =>
          exact ⟨Decidable.not_not.1 hcount, by simpa using hsingle, (distinct_iff_nodup _).1 hdistinct⟩
        · cases hvalid
  · rintro ⟨hcount, hsingle, hnodup⟩
    have hnone : (grammar.alphabet.find? fun symbol => symbol.length ≠ 1) = none := by simpa using hsingle
    rw [if_neg (Decidable.not_not.2 hcount), hnone]
    exact if_pos ((distinct_iff_nodup _).2 hnodup)

/-! ### Symbols and their rules -/

section Entries

variable {entries : List (String × String)}

/-- A key that is listed once is new where it is listed. -/
theorem key_not_mem_of_nodup {before after : List (String × String)} {entry : String × String}
    (hnodup : ((before ++ entry :: after).map Prod.fst).Nodup) : entry.1 ∉ before.map Prod.fst := by
  rw [List.map_append, List.map_cons, List.nodup_append] at hnodup
  exact fun hmem => hnodup.2.2 _ hmem _ List.mem_cons_self rfl

theorem record_of_new {key : String} (hnew : key ∉ entries.map Prod.fst) (value : String) :
    record key value entries = entries ++ [(key, value)] := by
  induction entries with
  | nil => rfl
  | cons entry rest ih =>
    rw [List.map_cons, List.mem_cons, not_or] at hnew
    rw [record, if_neg (Ne.symm hnew.1), ih hnew.2, List.cons_append]

theorem foldl_record_of_nodup {recorded : List (String × String)} (hnodup : ((recorded ++ entries).map Prod.fst).Nodup) :
    entries.foldl (fun recorded entry => record entry.1 entry.2 recorded) recorded = recorded ++ entries := by
  induction entries generalizing recorded with
  | nil => rw [List.foldl_nil, List.append_nil]
  | cons entry rest ih =>
    have hnew := key_not_mem_of_nodup hnodup
    rw [List.append_cons] at hnodup
    rw [List.foldl_cons, record_of_new hnew, ih hnodup, ← List.append_cons]

/-- Entries whose keys differ are recorded as they are. -/
theorem recordAll_of_nodup (hnodup : (entries.map Prod.fst).Nodup) : recordAll entries = entries :=
  foldl_record_of_nodup hnodup

theorem lookup_eq_some_iff_mem (hnodup : (entries.map Prod.fst).Nodup) {key value : String} :
    entries.lookup key = some value ↔ (key, value) ∈ entries := by
  rw [List.lookup_eq_some_iff]
  constructor
  · rintro ⟨before, after, rfl, _⟩
    exact List.mem_append_right before List.mem_cons_self
  · intro hmem
    obtain ⟨before, after, rfl⟩ := List.append_of_mem hmem
    refine ⟨before, after, rfl, fun earlier hearlier => bne_iff_ne.2 ?_⟩
    rintro rfl
    exact key_not_mem_of_nodup hnodup (List.mem_map.2 ⟨earlier, hearlier, rfl⟩)

/-- Where keys differ, the order of the entries does not tell which rule a symbol has. -/
theorem rulesOf_perm {others : List (String × String)} (hnodup : (entries.map Prod.fst).Nodup) (hperm : entries.Perm others) :
    rulesOf entries = rulesOf others := by
  funext c
  have hothers : (others.map Prod.fst).Nodup := (hperm.map Prod.fst).nodup hnodup
  have hlookup : entries.lookup c.toString = others.lookup c.toString := by
    ext rule
    rw [lookup_eq_some_iff_mem hnodup, lookup_eq_some_iff_mem hothers, hperm.mem_iff]
  rw [rulesOf, rulesOf, hlookup]

/-- Where they do not, the last entry wins. -/
example : rulesOf (recordAll [("A", "AB"), ("A", "B")]) 'A' = some ['B'] ∧
    rulesOf (recordAll [("A", "B"), ("A", "AB")]) 'A' = some ['A', 'B'] := by decide

end Entries

/-! ### Grammars in another order -/

/-- The second grammar lists the symbols of the first one in another order, each with the rule that it has there. -/
structure Reordered (grammar reordered : Grammar) : Prop where
  sameAxiom : reordered.axiomText = grammar.axiomText
  sameCount : reordered.alphabet.length = reordered.rules.length
  perm : (grammar.alphabet.zip grammar.rules).Perm (reordered.alphabet.zip reordered.rules)

section Reordered

variable {grammar reordered : Grammar}

theorem Valid.map_fst_zip (hvalid : grammar.Valid) : (grammar.alphabet.zip grammar.rules).map Prod.fst = grammar.alphabet :=
  List.map_fst_zip (Nat.le_of_eq hvalid.sameCount)

theorem Valid.nodup_keys (hvalid : grammar.Valid) : ((grammar.alphabet.zip grammar.rules).map Prod.fst).Nodup := by
  rw [hvalid.map_fst_zip]
  exact hvalid.nodup

theorem Valid.ruleEntries_eq (hvalid : grammar.Valid) : grammar.ruleEntries = grammar.alphabet.zip grammar.rules :=
  recordAll_of_nodup hvalid.nodup_keys

theorem Reordered.alphabet_perm (hreordered : Reordered grammar reordered) (hvalid : grammar.Valid) :
    grammar.alphabet.Perm reordered.alphabet := by
  have hperm := hreordered.perm.map Prod.fst
  rwa [hvalid.map_fst_zip, List.map_fst_zip (Nat.le_of_eq hreordered.sameCount)] at hperm

theorem Reordered.valid (hreordered : Reordered grammar reordered) (hvalid : grammar.Valid) : reordered.Valid where
  sameCount := hreordered.sameCount
  single symbol hsymbol := hvalid.single symbol ((hreordered.alphabet_perm hvalid).mem_iff.2 hsymbol)
  nodup := (hreordered.alphabet_perm hvalid).nodup hvalid.nodup

theorem Reordered.rulesOf_eq (hreordered : Reordered grammar reordered) (hvalid : grammar.Valid) :
    rulesOf reordered.ruleEntries = rulesOf grammar.ruleEntries := by
  rw [(hreordered.valid hvalid).ruleEntries_eq, hvalid.ruleEntries_eq, rulesOf_perm hvalid.nodup_keys hreordered.perm]

theorem Reordered.production_eq (hreordered : Reordered grammar reordered) (hvalid : grammar.Valid) (generations : Int) :
    reordered.production generations = grammar.production generations := by
  rw [production, production, (validate_eq_ok_iff _).2 hvalid, (validate_eq_ok_iff _).2 (hreordered.valid hvalid),
    hreordered.rulesOf_eq hvalid, hreordered.sameAxiom]

end Reordered

/-- A character grows in one round into its replacement, and stays if it has none. Texts that stand side by side grow into what each of them grows into on its own, and their growth may be halted after any round and taken up again. And a valid grammar that lists its symbols in another order, each with its rule, is valid still and grows the same text after any number of rounds. -/
theorem texts_grow_part_by_part :
    (∀ (rules : Rules) (c : Char), expandText c.toString rules 1 = .ok ((rules c).getD [c])) ∧
    (∀ (rules : Rules) (left right : String) (first later : Int), 0 ≤ first → 0 ≤ later →
      ∃ leftHalf rightHalf leftText rightText,
        expandText left rules first = .ok leftHalf ∧ expandText (String.ofList leftHalf) rules later = .ok leftText ∧
        expandText right rules first = .ok rightHalf ∧ expandText (String.ofList rightHalf) rules later = .ok rightText ∧
        expandText (left ++ right) rules (first + later) = .ok (leftText ++ rightText)) ∧
    ∀ grammar reordered : Grammar, grammar.validate = .ok () → Reordered grammar reordered →
      reordered.validate = .ok () ∧
        (∀ generations, reordered.production generations = grammar.production generations) ∧
        ∀ generations, 0 ≤ generations → ∃ text, grammar.production generations = .ok text := by
  refine ⟨fun rules c => ?_, fun rules left right first later hfirst hlater => ?_,
    fun grammar reordered haccepted hreordered => ?_⟩
  · have hround : expand rules 1 [c] = (rules c).getD [c] ++ substitute rules [] := substitute_cons rules c []
    rw [expandText_of_nonneg (by decide), Int.toNat_one, Char.toString_eq_singleton, String.toList_singleton, hround,
      substitute_nil, List.append_nil]
  · refine ⟨_, _, _, _, expandText_of_nonneg hfirst left rules, expandText_of_nonneg hlater _ rules,
      expandText_of_nonneg hfirst right rules, expandText_of_nonneg hlater _ rules, ?_⟩
    rw [expandText_of_nonneg (Int.add_nonneg hfirst hlater), Int.toNat_add hfirst hlater, expand_add, String.toList_append,
      expand_append, expand_append, String.toList_ofList, String.toList_ofList]
  · have hvalid := (validate_eq_ok_iff grammar).1 haccepted
    exact ⟨(validate_eq_ok_iff reordered).2 (hreordered.valid hvalid), hreordered.production_eq hvalid,
      fun _ hgenerations => ⟨_, production_eq_ok haccepted hgenerations⟩⟩

/-- The grammar of the Fibonacci word. -/
def fibonacci : Grammar := ⟨["A", "B"], "A", ["AB", "A"]⟩

theorem texts_grow_part_by_part_fibonacci :
    (0 : Int) ≤ 2 ∧ (0 : Int) ≤ 3 ∧
      (∃ leftHalf rightHalf leftText rightText, let rules := rulesOf fibonacci.ruleEntries
        expandText "A[" rules 2 = .ok leftHalf ∧ expandText (String.ofList leftHalf) rules 3 = .ok leftText ∧
          expandText "B]" rules 2 = .ok rightHalf ∧ expandText (String.ofList rightHalf) rules 3 = .ok rightText ∧
          expandText ("A[" ++ "B]") rules (2 + 3) = .ok (leftText ++ rightText)) ∧
      fibonacci.validate = .ok () ∧ Reordered fibonacci ⟨["B", "A"], "A", ["A", "AB"]⟩ ∧
      (⟨["B", "A"], "A", ["A", "AB"]⟩ : Grammar).production 4 = .ok "ABAABABA".toList := by
  obtain ⟨_, hparts, horder⟩ := texts_grow_part_by_part
  have hvalid : fibonacci.validate = .ok () := rfl
  have hreordered : Reordered fibonacci ⟨["B", "A"], "A", ["A", "AB"]⟩ := ⟨rfl, rfl, List.Perm.swap _ _ _⟩
  refine ⟨by decide, by decide, hparts _ "A[" "B]" 2 3 (by decide) (by decide), hvalid, hreordered, ?_⟩
  rw [(horder _ _ hvalid hreordered).2.1]
  rfl

end TurtleMusic.Grammar
