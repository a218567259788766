import TurtleMusic.Grammar.Basic
import TurtleMusic.Proofs.Grammar.Nesting

/-!
# Growing well-nested texts

A round of an L-system puts a text in the place of each character. Where the brackets themselves have no rule, they keep pairing as they did, and what stands between them is replaced by texts whose brackets pair among themselves. So a grammar whose axiom and rules are well nested grows nothing but well-nested texts, however long it grows.
-/

namespace TurtleMusic.Grammar

/-- The rules leave brackets alone and put well-nested texts in the place of other characters. -/
structure KeepsNesting (rules : Rules) : Prop where
  opening : rules '[' = none
  closing : rules ']' = none
  nested : ∀ {c : Char} {replacement : List Char}, rules c = some replacement → Nested replacement

theorem substitute_cons (rules : Rules) (c : Char) (rest : List Char) :
    substitute rules (c :: rest) = (rules c).getD [c] ++ substitute rules rest :=
  List.flatMap_cons

variable {rules : Rules} {text : List Char}

theorem KeepsNesting.getD (hrules : KeepsNesting rules) {c : Char} (hopen : c ≠ '[') (hclose : c ≠ ']') :
    Nested ((rules c).getD [c]) := by
  cases hreplacement : rules c with
  | none => exact Nested.plain hopen hclose Nested.nil
  | some replacement => exact hrules.nested hreplacement

theorem Nested.substitute (hrules : KeepsNesting rules) (htext : Nested text) : Nested (substitute rules text) := by
  induction htext with
  | nil => exact Nested.nil
  | plain hopen hclose _ ih =>
    rw [substitute_cons]
    exact (hrules.getD hopen hclose).append ih
  | scope _ _ ihinner ihrest =>
    rw [substitute_cons, substitute_append, substitute_cons, hrules.opening, hrules.closing]
    exact Nested.scope ihinner ihrest

theorem Nested.expand (hrules : KeepsNesting rules) (generations : Nat) (htext : Nested text) :
    Nested (expand rules generations text) := by
  induction generations generalizing text with
  | zero => exact htext
  | succ generations ih => exact ih (htext.substitute hrules)

/-! ### The rules of a grammar -/

theorem mem_record {key value : String} {entry : String × String} {entries : List (String × String)}
    (hentry : entry ∈ record key value entries) : entry = (key, value) ∨ entry ∈ entries := by
  induction entries with
  | nil => exact .inl (List.mem_singleton.1 hentry)
  | cons first rest ih =>
    rw [record] at hentry
    split at hentry
    · exact (List.mem_cons.1 hentry).imp_right (List.mem_cons_of_mem first)
    · rcases List.mem_cons.1 hentry with rfl | hlater
      · exact .inr List.mem_cons_self
      · exact (ih hlater).imp_right (List.mem_cons_of_mem first)

theorem mem_foldl_record {entry : String × String} {entries recorded : List (String × String)}
    (hentry : entry ∈ entries.foldl (fun recorded entry => record entry.1 entry.2 recorded) recorded) :
    entry ∈ recorded ∨ entry ∈ entries := by
  induction entries generalizing recorded with
  | nil => exact .inl hentry
  | cons first rest ih =>
    rcases ih hentry with hrecorded | hlater
    · rcases mem_record hrecorded with rfl | hbefore
      · exact .inr List.mem_cons_self
      · exact .inl hbefore
    · exact .inr (List.mem_cons_of_mem first hlater)

/-- Recording makes up no entry. -/
theorem mem_recordAll {entry : String × String} {entries : List (String × String)} (hentry : entry ∈ recordAll entries) :
    entry ∈ entries :=
  (mem_foldl_record hentry).resolve_left List.not_mem_nil

theorem rulesOf_eq_some {entries : List (String × String)} {c : Char} {replacement : List Char}
    (hrule : rulesOf entries c = some replacement) : ∃ rule, (c.toString, rule) ∈ entries ∧ rule.toList = replacement := by
  obtain ⟨rule, hlookup, hreplacement⟩ := Option.map_eq_some_iff.1 hrule
  obtain ⟨before, after, rfl, _⟩ := List.lookup_eq_some_iff.1 hlookup
  exact ⟨rule, List.mem_append_right before List.mem_cons_self, hreplacement⟩

/-- A rule that is applied is one of the grammar's, and belongs to a symbol of the alphabet. -/
theorem ruleEntries_eq_some {grammar : Grammar} {c : Char} {replacement : List Char}
    (hrule : rulesOf grammar.ruleEntries c = some replacement) :
    c.toString ∈ grammar.alphabet ∧ ∃ rule ∈ grammar.rules, rule.toList = replacement := by
  obtain ⟨rule, hentry, hreplacement⟩ := rulesOf_eq_some hrule
  obtain ⟨hsymbol, hmem⟩ := List.of_mem_zip (mem_recordAll hentry)
  exact ⟨hsymbol, rule, hmem, hreplacement⟩

theorem keepsNesting_ruleEntries {grammar : Grammar} (hopen : "[" ∉ grammar.alphabet) (hclose : "]" ∉ grammar.alphabet)
    (hrules : ∀ rule ∈ grammar.rules, Nested rule.toList) : KeepsNesting (rulesOf grammar.ruleEntries) where
  opening := Option.eq_none_iff_forall_ne_some.2 fun _ hrule => hopen (ruleEntries_eq_some hrule).1
  closing := Option.eq_none_iff_forall_ne_some.2 fun _ hrule => hclose (ruleEntries_eq_some hrule).1
  nested := by
    intro c replacement hrule
    obtain ⟨_, rule, hmem, rfl⟩ := ruleEntries_eq_some hrule
    exact hrules rule hmem

theorem expandText_of_nonneg {generations : Int} (hgenerations : 0 ≤ generations) (axiomText : String) (rules : Rules) :
    expandText axiomText rules generations = .ok (expand rules generations.toNat axiomText.toList) :=
  if_neg (Int.not_lt.2 hgenerations)

theorem production_eq_ok {grammar : Grammar} (hvalid : grammar.validate = .ok ()) {generations : Int}
    (hgenerations : 0 ≤ generations) :
    grammar.production generations =
      .ok (expand (rulesOf grammar.ruleEntries) generations.toNat grammar.axiomText.toList) := by
  rw [production, hvalid, Except.bind, expandText_of_nonneg hgenerations]

/-- A valid grammar whose axiom and rules have paired brackets, and whose alphabet has no bracket, grows after any number of rounds a text whose brackets pair. -/
theorem production_checkBrackets {grammar : Grammar} (hvalid : grammar.validate = .ok ())
    (hstart : checkBrackets grammar.axiomText.toList = .ok ())
    (hrules : ∀ rule ∈ grammar.rules, checkBrackets rule.toList = .ok ())
    (hopen : "[" ∉ grammar.alphabet) (hclose : "]" ∉ grammar.alphabet) {generations : Int} (hgenerations : 0 ≤ generations) :
    ∃ text, grammar.production generations = .ok text ∧ checkBrackets text = .ok () := by
  have hnested : ∀ rule ∈ grammar.rules, Nested rule.toList := fun rule hrule =>
    (checkBrackets_eq_ok_iff rule.toList).1 (hrules rule hrule)
  have hgrown : Nested (expand (rulesOf grammar.ruleEntries) generations.toNat grammar.axiomText.toList) :=
    ((checkBrackets_eq_ok_iff _).1 hstart).expand (keepsNesting_ruleEntries hopen hclose hnested) generations.toNat
  exact ⟨_, production_eq_ok hvalid hgenerations, (checkBrackets_eq_ok_iff _).2 hgrown⟩

/-- A branching plant. -/
def plant : Grammar := ⟨["A", "g"], "A", ["g[+A]g[-A]+A", "gg"]⟩

theorem production_checkBrackets_plant :
    plant.validate = .ok () ∧ checkBrackets plant.axiomText.toList = .ok () ∧
      (∀ rule ∈ plant.rules, checkBrackets rule.toList = .ok ()) ∧ "[" ∉ plant.alphabet ∧ "]" ∉ plant.alphabet ∧
      ∃ text, plant.production 3 = .ok text ∧ checkBrackets text = .ok () := by
  have hvalid : plant.validate = .ok () := by rfl
  have hstart : checkBrackets plant.axiomText.toList = .ok () := by rfl
  have hrules : ∀ rule ∈ plant.rules, checkBrackets rule.toList = .ok () := by
    simp only [checkBrackets_eq_ok_iff]
    decide
  have hopen : "[" ∉ plant.alphabet := by decide
  have hclose : "]" ∉ plant.alphabet := by decide
  exact ⟨hvalid, hstart, hrules, hopen, hclose,
    production_checkBrackets hvalid hstart hrules hopen hclose (by decide)⟩

end TurtleMusic.Grammar
