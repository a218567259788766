import TurtleMusic.Proofs.Corpus.Following
import Mathlib.Algebra.BigOperators.Fin

/-!
# Relative frequencies

The tables of a model hold how often one note follows another, or follows two others, relative to everything that follows there. Only the melodies in the active key count, each for itself, and neither their order nor the names of their keys leave a trace; nor does the way in which the model came to be in its key.
-/

namespace TurtleMusic

open TurtleMusic.Number

/-! ### What a source lists -/

namespace CorpusSource

/-- The melodies under all names and numbers of a key. -/
def melodiesIn (source : CorpusSource) (key : PitchClass) : List Melody :=
  (source.filter fun entry => entry.1.pitchClass.toOption = some key).flatMap (·.2)

def linesIn (source : CorpusSource) (key : PitchClass) : List Corpus.Line :=
  (source.melodiesIn key).filterMap (·.pitchClasses.toOption)

/-- No key is unknown and every note is one. -/
structure Readable (source : CorpusSource) : Prop where
  keys : ∀ entry ∈ source, ∃ key, entry.1.pitchClass = .ok key
  melodies : ∀ entry ∈ source, ∀ melody ∈ entry.2, ∃ line, melody.pitchClasses = .ok line

/-- One source lists the melodies of another, in an order and under names of the keys of its own. -/
structure Relists (other source : CorpusSource) : Prop where
  keys : ∀ entry ∈ other, ∃ key, entry.1.pitchClass = .ok key
  melodies : ∀ key, (other.melodiesIn key).Perm (source.melodiesIn key)

theorem Relists.readable {other source : CorpusSource} (hrelists : Relists other source) (hreadable : source.Readable) :
    other.Readable := by
  refine ⟨hrelists.keys, fun entry hentry melody hmelody => ?_⟩
  obtain ⟨key, hkey⟩ := hrelists.keys entry hentry
  have hlisted : melody ∈ other.melodiesIn key :=
    List.mem_flatMap.2 ⟨entry, List.mem_filter.2 ⟨hentry, by simp [hkey, Except.toOption]⟩, hmelody⟩
  obtain ⟨own, hown, hmem⟩ := List.mem_flatMap.1 ((hrelists.melodies key).mem_iff.1 hlisted)
  exact hreadable.melodies own (List.mem_filter.1 hown).1 melody hmem

theorem Relists.lines {other source : CorpusSource} (hrelists : Relists other source) (key : PitchClass) :
    (other.linesIn key).Perm (source.linesIn key) :=
  (hrelists.melodies key).filterMap _

/-! ### Filing -/

theorem inKey_extend (filed : FiledLines) (key own : PitchClass) (lines : List Corpus.Line) :
    (filed.extend key lines).inKey own = filed.inKey own ++ if own = key then lines else [] := by
  induction filed with
  | nil => exact FiledLines.inKey_cons key lines [] own
  | cons entry rest ih =>
    obtain ⟨named, before⟩ := entry
    rw [FiledLines.extend, FiledLines.inKey_cons]
    dsimp only
    by_cases hnamed : named = key
    · rw [if_pos hnamed, FiledLines.inKey_cons, hnamed]
      split
      · rfl
      · exact (List.append_nil _).symm
    · rw [if_neg hnamed, FiledLines.inKey_cons, ih]
      split
      · next hown => rw [if_neg (hown ▸ hnamed), List.append_nil]
      · rfl

theorem fileEntry_eq_ok_iff {filed after : FiledLines} {entry : KeyRef × List Melody} :
    CorpusModel.fileEntry filed entry = .ok after ↔
      ∃ key lines, entry.1.pitchClass = .ok key ∧ entry.2.mapM Melody.pitchClasses = .ok lines ∧
        filed.extend key lines = after := by
  rw [CorpusModel.fileEntry, Except.bind_eq_ok_iff]
  constructor
  · rintro ⟨key, hkey, hresult⟩
    obtain ⟨lines, hlines, hafter⟩ := Except.bind_eq_ok_iff.1 hresult
    exact ⟨key, lines, hkey, hlines, Except.ok.inj hafter⟩
  · rintro ⟨key, lines, hkey, hlines, rfl⟩
    exact ⟨key, hkey, Except.bind_eq_ok_iff.2 ⟨lines, hlines, rfl⟩⟩

theorem Readable.tail {entry : KeyRef × List Melody} {rest : CorpusSource} (hreadable : Readable (entry :: rest)) :
    Readable rest :=
  ⟨(List.forall_mem_cons.1 hreadable.keys).2, (List.forall_mem_cons.1 hreadable.melodies).2⟩

theorem Readable.filing_isOk {source : CorpusSource} (hreadable : source.Readable) (filed : FiledLines) :
    ∃ after, source.foldlM CorpusModel.fileEntry filed = .ok after := by
  induction source generalizing filed with
  | nil => exact ⟨filed, rfl⟩
  | cons entry rest ih =>
    obtain ⟨key, hkey⟩ := (List.forall_mem_cons.1 hreadable.keys).1
    obtain ⟨lines, hlines⟩ := Except.mapM_isOk (List.forall_mem_cons.1 hreadable.melodies).1
    rw [List.foldlM_cons, fileEntry_eq_ok_iff.2 ⟨key, lines, hkey, hlines, rfl⟩]
    exact ih hreadable.tail _

theorem Readable.file_isOk {source : CorpusSource} (hreadable : source.Readable) :
    ∃ filed, CorpusModel.file source = .ok filed :=
  hreadable.filing_isOk []

theorem readable_of_filing {source : CorpusSource} {filed after : FiledLines}
    (hfiling : source.foldlM CorpusModel.fileEntry filed = .ok after) : source.Readable := by
  induction source generalizing filed with
  | nil => exact ⟨nofun, nofun⟩
  | cons entry rest ih =>
    rw [List.foldlM_cons] at hfiling
    obtain ⟨first, hfirst, hrest⟩ := Except.bind_eq_ok_iff.1 hfiling
    obtain ⟨key, lines, hkey, hlines, _⟩ := fileEntry_eq_ok_iff.1 hfirst
    exact ⟨List.forall_mem_cons.2 ⟨⟨key, hkey⟩, (ih hrest).keys⟩,
      List.forall_mem_cons.2 ⟨fun melody hmelody => Except.isOk_of_mem_of_mapM hlines hmelody, (ih hrest).melodies⟩⟩

theorem readable_of_file {source : CorpusSource} {filed : FiledLines} (hfile : CorpusModel.file source = .ok filed) :
    source.Readable :=
  readable_of_filing hfile

theorem linesIn_cons {entry : KeyRef × List Melody} {key : PitchClass} {lines : List Corpus.Line}
    (hkey : entry.1.pitchClass = .ok key) (hlines : entry.2.mapM Melody.pitchClasses = .ok lines) (rest : CorpusSource)
    (own : PitchClass) : linesIn (entry :: rest) own = (if own = key then lines else []) ++ rest.linesIn own := by
  by_cases hown : own = key
  · have hentry : melodiesIn (entry :: rest) own = entry.2 ++ rest.melodiesIn own := by
      simp [melodiesIn, hkey, Except.toOption, hown]
    rw [linesIn, hentry, List.filterMap_append, Except.filterMap_of_mapM hlines, if_pos hown, linesIn]
  · have hentry : melodiesIn (entry :: rest) own = rest.melodiesIn own := by
      simp [melodiesIn, hkey, Except.toOption, Ne.symm hown]
    rw [linesIn, hentry, if_neg hown, List.nil_append, linesIn]

/-- Filing a source adds what it lists under each key. -/
theorem inKey_of_filing {source : CorpusSource} {filed after : FiledLines}
    (hfiling : source.foldlM CorpusModel.fileEntry filed = .ok after) (key : PitchClass) :
    after.inKey key = filed.inKey key ++ source.linesIn key := by
  induction source generalizing filed with
  | nil =>
    cases hfiling
    exact (List.append_nil _).symm
  | cons entry rest ih =>
    rw [List.foldlM_cons] at hfiling
    obtain ⟨first, hfirst, hrest⟩ := Except.bind_eq_ok_iff.1 hfiling
    obtain ⟨named, lines, hnamed, hlines, rfl⟩ := fileEntry_eq_ok_iff.1 hfirst
    rw [ih hrest, inKey_extend, linesIn_cons hnamed hlines, List.append_assoc]

theorem inKey_of_file {source : CorpusSource} {filed : FiledLines} (hfile : CorpusModel.file source = .ok filed)
    (key : PitchClass) : filed.inKey key = source.linesIn key :=
  inKey_of_filing hfile key

end CorpusSource

/-! ### Counting -/

namespace Corpus

/-- How often some notes stand in a row inside a line, over all lines. -/
def occurrences (notes : Line) (lines : List Line) : Nat :=
  (lines.map fun line => line.tails.countP (notes.isPrefixOf ·)).sum

theorem count_pairs (current next : PitchClass) (line : Line) :
    (pairs line).count (current, next) = line.tails.countP ([current, next].isPrefixOf ·) := by
  induction line with
  | nil => rfl
  | cons first rest ih =>
    rw [List.tails_cons, List.countP_cons, ← ih]
    cases rest with
    | nil => simp [pairs]
    | cons second later =>
      rw [show pairs (first :: second :: later) = (first, second) :: pairs (second :: later) from rfl, List.count_cons]
      simp [List.isPrefixOf, eq_comm (a := first), eq_comm (a := second)]

theorem count_triples (previous current next : PitchClass) (line : Line) :
    (triples line).count (previous, current, next) = line.tails.countP ([previous, current, next].isPrefixOf ·) := by
  induction line with
  | nil => rfl
  | cons first rest ih =>
    rw [List.tails_cons, List.countP_cons, ← ih]
    rcases rest with _ | ⟨second, _ | ⟨third, later⟩⟩
    · simp [triples]
    · simp [triples]
    · rw [show triples (first :: second :: third :: later) = (first, second, third) :: triples (second :: third :: later)
        from rfl, List.count_cons]
      simp [List.isPrefixOf, eq_comm (a := first), eq_comm (a := second), eq_comm (a := third)]

theorem count_flatMap_pairs (current next : PitchClass) (lines : List Line) :
    (lines.flatMap pairs).count (current, next) = occurrences [current, next] lines := by
  rw [List.count_flatMap, occurrences]
  exact congrArg List.sum (List.map_congr_left fun line _ => count_pairs current next line)

theorem count_flatMap_triples (previous current next : PitchClass) (lines : List Line) :
    (lines.flatMap triples).count (previous, current, next) = occurrences [previous, current, next] lines := by
  rw [List.count_flatMap, occurrences]
  exact congrArg List.sum (List.map_congr_left fun line _ => count_triples previous current next line)

theorem length_flatMap_pairs (lines : List Line) :
    (lines.flatMap pairs).length = (lines.map fun line => line.length - 1).sum := by
  rw [List.length_flatMap]
  refine congrArg List.sum (List.map_congr_left fun line _ => ?_)
  rw [pairs, List.length_zip, List.length_tail]
  omega

/-! ### Dividing -/

/-- A row that says how the counts share in their sum. -/
structure RelativeFrequencies (row : Row Rat) (counts : PitchClass → Nat) : Prop where
  quotient : ∑ other, counts other ≠ 0 → ∀ next, row.get next = (counts next : Rat) / (∑ other, counts other : Nat)
  silent : ∑ other, counts other = 0 → ∀ next, row.get next = 0
  whole : (∑ next, row.get next = 1) ∨ ∀ next, row.get next = 0

theorem shares_relativeFrequencies (counts : PitchClass → Nat) : RelativeFrequencies (shares counts) counts := by
  have htotal : Number.sum ((List.ofFn counts).map (tally : Nat → Rat)) = ((∑ other, counts other : Nat) : Rat) := by
    rw [sum_rat, List.map_ofFn, List.sum_ofFn, Nat.cast_sum]
    exact Finset.sum_congr rfl fun other _ => tally_rat (counts other)
  have hquotient : ∑ other, counts other ≠ 0 →
      ∀ next, (shares counts : Row Rat).get next = (counts next : Rat) / (∑ other, counts other : Nat) := by
    intro hsum next
    rw [shares_get, htotal, if_neg (not_le.2 (Nat.cast_pos.2 (Nat.pos_of_ne_zero hsum))), tally_rat]
  have hsilent : ∑ other, counts other = 0 → ∀ next, (shares counts : Row Rat).get next = 0 := by
    intro hsum next
    rw [shares_get, htotal, hsum, Nat.cast_zero, if_pos le_rfl]
  refine ⟨hquotient, hsilent, ?_⟩
  by_cases hsum : ∑ other, counts other = 0
  · exact .inr (hsilent hsum)
  · left
    rw [Finset.sum_congr rfl fun next _ => hquotient hsum next, ← Finset.sum_div, ← Nat.cast_sum]
    exact div_self (Nat.cast_ne_zero.2 hsum)

/-! ### Order -/

variable {W : Type} [Weight W] {lines others : List Line}

theorem Counts.pairTable_perm (hperm : others.Perm lines) :
    (ofLines others : Counts W).pairTable = (ofLines lines).pairTable := by
  refine Vector.ext fun place hplace => ?_
  have hcount : ∀ pair, (others.flatMap pairs).count pair = (lines.flatMap pairs).count pair :=
    (hperm.flatMap_right pairs).count_eq
  have hothers := ofLines_pairTable_get (W := W) others ⟨place, hplace⟩
  simp only [hcount] at hothers
  exact hothers.trans (ofLines_pairTable_get lines ⟨place, hplace⟩).symm

theorem Counts.tripleTable_perm (hperm : others.Perm lines) :
    (ofLines others : Counts W).tripleTable = (ofLines lines).tripleTable := by
  refine Vector.ext fun previous hprevious => Vector.ext fun current hcurrent => ?_
  have hcount : ∀ triple, (others.flatMap triples).count triple = (lines.flatMap triples).count triple :=
    (hperm.flatMap_right triples).count_eq
  have hothers := ofLines_tripleTable_get (W := W) others ⟨previous, hprevious⟩ ⟨current, hcurrent⟩
  simp only [hcount] at hothers
  exact hothers.trans (ofLines_tripleTable_get lines ⟨previous, hprevious⟩ ⟨current, hcurrent⟩).symm

theorem Counts.observations_perm (hperm : others.Perm lines) :
    (ofLines others : Counts W).observations = (ofLines lines : Counts W).observations := by
  rw [ofLines_observations, ofLines_observations]
  exact (hperm.flatMap_right pairs).length_eq

end Corpus

theorem MarkovOrder.ofNumber_isOk {number : Int} (hnumber : number = 1 ∨ number = 2) :
    ∃ order, ofNumber number = .ok order := by
  rcases hnumber with rfl | rfl <;> exact ⟨_, rfl⟩

namespace CorpusModel

variable {W : Type} [Weight W]

/-! ### Updates -/

inductive Update where
  | setKey (key : KeyRef)
  | analyze
  deriving DecidableEq, Repr

/-- The key an update moves to, if it asks for one that there is. -/
def Update.key? : Update → Option PitchClass
  | setKey key => key.pitchClass.toOption
  | analyze => none

/-- A key that there is not is refused and changes nothing. -/
def update (model : CorpusModel W) : Update → CorpusModel W
  | .setKey key =>
    match model.setKey key with
    | .ok (_, moved, _) => moved
    | .error _ => model
  | .analyze => model.analyze.1

def afterUpdates (model : CorpusModel W) (updates : List Update) : CorpusModel W := updates.foldl update model

variable {order : MarkovOrder} {filed : FiledLines}

theorem update_ofFiled (key : PitchClass) (made : Update) :
    (ofFiled order filed key : CorpusModel W).update made = ofFiled order filed (made.key?.getD key) := by
  cases made with
  | analyze => rfl
  | setKey named =>
    rw [update, setKey, Update.key?]
    cases named.pitchClass with
    | error => rfl
    | ok asked => exact moveTo_ofFiled order filed key asked

/-- A model always is as if made in the last key that it was moved to. -/
theorem afterUpdates_ofFiled (key : PitchClass) (updates : List Update) :
    (ofFiled order filed key : CorpusModel W).afterUpdates updates =
      ofFiled order filed ((updates.filterMap Update.key?).getLast?.getD key) := by
  induction updates generalizing key with
  | nil => rfl
  | cons made rest ih =>
    rw [afterUpdates, List.foldl_cons, update_ofFiled]
    refine (ih _).trans (congrArg (ofFiled order filed) ?_)
    cases hkey : made.key? with
    | none => rw [List.filterMap_cons_none hkey, Option.getD_none]
    | some own => rw [List.filterMap_cons_some hkey, List.getLast?_cons, Option.getD_some, Option.getD_some]

/-! ### What a model says -/

/-- The model says of the lines how often notes follow each other in them. -/
structure Measures (model : CorpusModel Rat) (lines : List Corpus.Line) : Prop where
  pairs : ∀ current, Corpus.RelativeFrequencies (model.table.get current) fun next =>
    Corpus.occurrences [current, next] lines
  triples : ∀ previous current, Corpus.RelativeFrequencies ((model.pairTable.get previous).get current) fun next =>
    Corpus.occurrences [previous, current, next] lines
  observations : model.observations = (lines.map fun line => line.length - 1).sum

theorem ofFiled_measures (order : MarkovOrder) (filed : FiledLines) (key : PitchClass) :
    (ofFiled order filed key).Measures (filed.inKey key) := by
  have hcounted : (ofFiled order filed key : CorpusModel Rat).Counted := ofFiled_counted order filed key
  refine ⟨fun current => ?_, fun previous current => ?_,
    (Corpus.Counts.ofLines_observations _).trans (Corpus.length_flatMap_pairs _)⟩
  · rw [hcounted.table_get]
    simp only [Corpus.count_flatMap_pairs]
    exact Corpus.shares_relativeFrequencies _
  · rw [hcounted.pairTable_get]
    simp only [Corpus.count_flatMap_triples]
    exact Corpus.shares_relativeFrequencies _

theorem make_eq {source : CorpusSource} {key : KeyRef} {active : PitchClass} {number : Int}
    (hnumber : MarkovOrder.ofNumber number = .ok order) (hfiled : file source = .ok filed) (hkey : key.pitchClass = .ok active) :
    make source key number = .ok ((ofFiled order filed active : CorpusModel W), silence filed active) := by
  rw [make, hnumber, hfiled, hkey]
  rfl

/-- However a model came to be in its key, its tables are the relative frequencies of what its source lists under that key, and so are those of a model made from another listing. -/
theorem afterUpdates_measures {source : CorpusSource} (hreadable : source.Readable) {key : KeyRef} {active : PitchClass}
    (hkey : key.pitchClass = .ok active) {number : Int} (hnumber : number = 1 ∨ number = 2) (updates : List Update) :
    ∃ made : CorpusModel Rat × List Report, make source key number = .ok made ∧
      let model := made.1.afterUpdates updates
      model.key = (updates.filterMap Update.key?).getLast?.getD active ∧ model.Measures (source.linesIn model.key) ∧
        ∀ other named, CorpusSource.Relists other source → named.pitchClass = .ok model.key →
          ∃ fresh : CorpusModel Rat × List Report, make other named number = .ok fresh ∧
            fresh.1.table = model.table ∧ fresh.1.pairTable = model.pairTable ∧ fresh.1.observations = model.observations := by
  obtain ⟨order, horder⟩ := MarkovOrder.ofNumber_isOk hnumber
  obtain ⟨filed, hfiled⟩ := hreadable.file_isOk
  refine ⟨_, make_eq horder hfiled hkey, ?_⟩
  dsimp only
  rw [afterUpdates_ofFiled]
  generalize (updates.filterMap Update.key?).getLast?.getD active = last
  refine ⟨rfl, ?_, fun other named hrelists hnamed => ?_⟩
  · rw [← CorpusSource.inKey_of_file hfiled]
    exact ofFiled_measures order filed last
  · obtain ⟨refiled, hrefiled⟩ := (hrelists.readable hreadable).file_isOk
    have hperm : (refiled.inKey last).Perm (filed.inKey last) := by
      rw [CorpusSource.inKey_of_file hrefiled, CorpusSource.inKey_of_file hfiled]
      exact hrelists.lines last
    exact ⟨_, make_eq horder hrefiled hnamed, Corpus.Counts.pairTable_perm hperm, Corpus.Counts.tripleTable_perm hperm,
      Corpus.Counts.observations_perm hperm⟩

/-- Melodies in two keys, one of them under two names. -/
def enharmonic : CorpusSource :=
  [(.name "Db", [.text "C4q [64]q Rq C4q"]), (.number 60, [.notes [.integer 60]]),
    (.name "C#", [.notes [.integer 60, .text "E", .integer 67]])]

/-- The same melodies in another order. -/
def relisted : CorpusSource :=
  [(.name "Db", [.notes [.integer 60, .text "E", .integer 67], .text "C4q [64]q Rq C4q"]), (.name "C", [.notes [.integer 60]])]

example : enharmonic.linesIn 1 = [[0, 4, 0], [0, 4, 7]] := by rfl

theorem enharmonic_readable : enharmonic.Readable := CorpusSource.readable_of_file rfl

theorem relisted_readable : relisted.Readable := CorpusSource.readable_of_file rfl

theorem relisted_relists : CorpusSource.Relists relisted enharmonic := by
  refine ⟨relisted_readable.keys, fun key => ?_⟩
  fin_cases key
  case «1» => exact List.Perm.swap _ _ []
  all_goals exact List.Perm.refl _

theorem afterUpdates_measures_enharmonic :
    let updates := [.setKey (.name "C"), .analyze, .setKey (.name "H"), .setKey (.name "C#")]
    ∃ made : CorpusModel Rat × List Report, make enharmonic (.number 0) 2 = .ok made ∧
      let model := made.1.afterUpdates updates
      model.key = 1 ∧ model.Measures (enharmonic.linesIn 1) ∧
        ∃ fresh : CorpusModel Rat × List Report, make relisted (.number 13) 2 = .ok fresh ∧
          fresh.1.table = model.table ∧ fresh.1.pairTable = model.pairTable ∧ fresh.1.observations = model.observations := by
  intro updates
  have hkey : (KeyRef.number 0).pitchClass = .ok 0 := rfl
  obtain ⟨made, hmade, hlast, hmeasures, hfresh⟩ := afterUpdates_measures enharmonic_readable hkey (.inr rfl) updates
  have hmoved : (made.1.afterUpdates updates).key = 1 := hlast.trans rfl
  rw [hmoved] at hmeasures hfresh
  exact ⟨made, hmade, hmoved, hmeasures, hfresh relisted (.number 13) relisted_relists rfl⟩

end CorpusModel

end TurtleMusic
