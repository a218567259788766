import TurtleMusic.Corpus.Model
import TurtleMusic.Proofs.Chance.Draw
import TurtleMusic.Proofs.Outcome

/-!
# Counted corpora

A model's tables are always those of the melodies in its active key: making a model counts them, and so does moving it to another key. Shares of counts are never negative, so a note can be drawn from any counted corpus.
-/

namespace TurtleMusic

open TurtleMusic.Number TurtleMusic.Chance

variable {σ W : Type} [Weight W]

namespace Corpus

/-- The notes that follow each other directly, pair by pair. -/
def pairs (line : Line) : List (PitchClass × PitchClass) := line.zip line.tail

/-- The notes that follow each other directly, three by three. -/
def triples (line : Line) : List (PitchClass × PitchClass × PitchClass) := line.zip (line.tail.zip line.tail.tail)

/-- Counts as shares of their sum. -/
def shares (counts : PitchClass → Nat) : Row W :=
  normalize (Vector.ofFn fun next => tally (counts next))

theorem get_change {α : Type} (row : Row α) (place other : PitchClass) (f : α → α) :
    (change row place f).get other = if other = place then f (row.get other) else row.get other := by
  have hget : (change row place f).get other = if place.val = other.val then f (row.get place) else row.get other :=
    Vector.getElem_setIfInBounds other.isLt
  rw [hget]
  by_cases hplace : other = place
  · rw [if_pos hplace, if_pos (congrArg Fin.val hplace.symm), hplace]
  · rw [if_neg hplace, if_neg fun heq => hplace (Fin.ext heq.symm)]

theorem get_replicate {α : Type} (value : α) (place : PitchClass) : Vector.get (Vector.replicate 12 value) place = value :=
  Vector.getElem_replicate place.isLt

theorem repeat_add {α : Type} (f : α → α) (first second : Nat) (start : α) :
    Nat.repeat f (first + second) start = Nat.repeat f second (Nat.repeat f first start) := by
  induction second with
  | zero => rfl
  | succ second ih => exact congrArg f ih

theorem repeat_count_singleton {α β : Type} [BEq α] (f : β → β) (own other : α) (start : β) :
    Nat.repeat f ([own].count other) start = if own == other then f start else start := by
  rw [List.count_singleton]
  split <;> rfl

namespace Counts

/-- The counts after some pairs and triples of notes were counted as well. -/
structure Adds (before after : Counts W) (pairs : List (PitchClass × PitchClass))
    (triples : List (PitchClass × PitchClass × PitchClass)) : Prop where
  afterOne : ∀ current next, (after.afterOne.get current).get next =
    Nat.repeat more (pairs.count (current, next)) ((before.afterOne.get current).get next)
  afterTwo : ∀ previous current next, ((after.afterTwo.get previous).get current).get next =
    Nat.repeat more (triples.count (previous, current, next)) (((before.afterTwo.get previous).get current).get next)
  observations : after.observations = before.observations + pairs.length

variable {before counts after : Counts W}

theorem Adds.refl (counts : Counts W) : Adds counts counts [] [] := ⟨fun _ _ => rfl, fun _ _ _ => rfl, rfl⟩

theorem Adds.trans {pairs others : List (PitchClass × PitchClass)} {triples rest : List (PitchClass × PitchClass × PitchClass)}
    (hfirst : Adds before counts pairs triples) (hsecond : Adds counts after others rest) :
    Adds before after (pairs ++ others) (triples ++ rest) := by
  refine ⟨fun current next => ?_, fun previous current next => ?_, ?_⟩
  · rw [hsecond.afterOne, hfirst.afterOne, List.count_append, repeat_add]
  · rw [hsecond.afterTwo, hfirst.afterTwo, List.count_append, repeat_add]
  · rw [hsecond.observations, hfirst.observations, List.length_append, Nat.add_assoc]

/-- The second note of a line has one before it. -/
theorem note_second (counts : Counts W) (previous current : PitchClass) :
    Adds counts (counts.note none (some previous) current) [(previous, current)] [] := by
  refine ⟨fun own next => ?_, fun _ _ _ => rfl, rfl⟩
  rw [repeat_count_singleton]
  simp only [note, get_change]
  grind [get_change]

/-- Every later note has two. -/
theorem note_third (counts : Counts W) (earlier previous current : PitchClass) :
    Adds counts (counts.note (some earlier) (some previous) current) [(previous, current)] [(earlier, previous, current)] := by
  refine ⟨(counts.note_second previous current).afterOne, fun first second next => ?_, rfl⟩
  rw [repeat_count_singleton]
  simp only [note, get_change]
  grind [get_change]

theorem read_third (counts : Counts W) (earlier previous : PitchClass) (line : Line) :
    Adds counts (counts.read (some earlier) (some previous) line) (pairs (previous :: line))
      (triples (earlier :: previous :: line)) := by
  induction line generalizing counts earlier previous with
  | nil => exact Adds.refl counts
  | cons current rest ih => exact (counts.note_third earlier previous current).trans (ih _ previous current)

/-- A line adds the notes that follow each other in it, two by two and three by three. -/
theorem line_adds (counts : Counts W) (line : Line) : Adds counts (counts.line line) (pairs line) (triples line) := by
  match line with
  | [] | [_] => exact Adds.refl counts
  | first :: second :: rest => exact (counts.note_second first second).trans (read_third _ first second rest)

theorem foldl_line_adds (counts : Counts W) (lines : List Line) :
    Adds counts (lines.foldl line counts) (lines.flatMap pairs) (lines.flatMap triples) := by
  induction lines generalizing counts with
  | nil => exact Adds.refl counts
  | cons line rest ih => exact (counts.line_adds line).trans (ih _)

theorem ofLines_observations (lines : List Line) :
    (ofLines lines : Counts W).observations = (lines.flatMap pairs).length := by
  rw [ofLines, (foldl_line_adds empty lines).observations, empty, Nat.zero_add]

theorem normalize_of_tallies {row : Row W} {count : PitchClass → Nat} (hrow : ∀ next, row.get next = tally (count next)) :
    normalize row = shares count := by
  refine congrArg normalize (Vector.ext fun place hplace => ?_)
  rw [Vector.getElem_ofFn]
  exact hrow ⟨place, hplace⟩

theorem ofLines_pairTable_get (lines : List Line) (current : PitchClass) :
    (ofLines lines : Counts W).pairTable.get current = shares fun next => (lines.flatMap pairs).count (current, next) := by
  refine (Vector.getElem_map _ current.isLt).trans (normalize_of_tallies fun next => ?_)
  have hcell := (foldl_line_adds (empty : Counts W) lines).afterOne current next
  rwa [empty, get_replicate, get_replicate] at hcell

theorem ofLines_tripleTable_get (lines : List Line) (previous current : PitchClass) :
    ((ofLines lines : Counts W).tripleTable.get previous).get current =
      shares fun next => (lines.flatMap triples).count (previous, current, next) := by
  have hplane : (ofLines lines : Counts W).tripleTable.get previous = ((ofLines lines).afterTwo.get previous).map normalize :=
    Vector.getElem_map _ previous.isLt
  rw [hplane]
  refine (Vector.getElem_map _ current.isLt).trans (normalize_of_tallies fun next => ?_)
  have hcell := (foldl_line_adds (empty : Counts W) lines).afterTwo previous current next
  rwa [empty, get_replicate, get_replicate, get_replicate] at hcell

end Counts

end Corpus

namespace CorpusModel

/-- The tables are those of the melodies in the active key. -/
def Counted (model : CorpusModel W) : Prop := model = ofFiled model.order model.filed model.key

theorem ofFiled_counted (order : MarkovOrder) (filed : FiledLines) (key : PitchClass) :
    (ofFiled order filed key : CorpusModel W).Counted := rfl

/-- A model that is made has the melodies of its source filed, and they are counted in the active key. -/
theorem make_ok {source : CorpusSource} {key : KeyRef} {order : Int} {made : CorpusModel W × List Report}
    (hmade : make source key order = .ok made) :
    ∃ number filed active, MarkovOrder.ofNumber order = .ok number ∧ file source = .ok filed ∧ key.pitchClass = .ok active ∧
      made = (ofFiled number filed active, silence filed active) := by
  obtain ⟨number, hnumber, hfiling⟩ := Except.bind_eq_ok_iff.1 hmade
  obtain ⟨filed, hfiled, hasking⟩ := Except.bind_eq_ok_iff.1 hfiling
  obtain ⟨active, hactive, hresult⟩ := Except.bind_eq_ok_iff.1 hasking
  cases hresult
  exact ⟨number, filed, active, hnumber, hfiled, hactive, rfl⟩

theorem make_counted {source : CorpusSource} {key : KeyRef} {order : Int} {made : CorpusModel W × List Report}
    (hmade : make source key order = .ok made) : made.1.Counted := by
  obtain ⟨number, filed, active, _, _, _, rfl⟩ := make_ok hmade
  exact ofFiled_counted number filed active

/-- Made in another key, a model has the same melodies filed. -/
theorem make_rekeyed {source : CorpusSource} {key other : KeyRef} {order : Int} {made : CorpusModel W × List Report}
    (hmade : make source key order = .ok made) {active : PitchClass} (hother : other.pitchClass = .ok active) :
    ∃ told, make source other order = .ok ((ofFiled made.1.order made.1.filed active : CorpusModel W), told) := by
  obtain ⟨number, filed, _, hnumber, hfiled, _, rfl⟩ := make_ok hmade
  rw [make, hnumber, hfiled, hother]
  exact ⟨_, rfl⟩

/-- The melodies that are counted. -/
def heard (model : CorpusModel W) : List Corpus.Line := model.filed.inKey model.key

theorem Counted.table_get {model : CorpusModel W} (hcounted : model.Counted) (current : PitchClass) :
    model.table.get current = Corpus.shares fun next => (model.heard.flatMap Corpus.pairs).count (current, next) := by
  rw [show model.table = (Corpus.Counts.ofLines model.heard).pairTable from congrArg table hcounted]
  exact Corpus.Counts.ofLines_pairTable_get _ current

theorem Counted.pairTable_get {model : CorpusModel W} (hcounted : model.Counted) (previous current : PitchClass) :
    (model.pairTable.get previous).get current =
      Corpus.shares fun next => (model.heard.flatMap Corpus.triples).count (previous, current, next) := by
  rw [show model.pairTable = (Corpus.Counts.ofLines model.heard).tripleTable from congrArg pairTable hcounted]
  exact Corpus.Counts.ofLines_tripleTable_get _ previous current

/-- Moving a counted model to a key counts its melodies in that key. -/
theorem moveTo_ofFiled (order : MarkovOrder) (filed : FiledLines) (own key : PitchClass) :
    ((ofFiled order filed own : CorpusModel W).moveTo key).2.1 = ofFiled order filed key := by
  rw [moveTo]
  split
  · next hkey =>
    rw [hkey]
    rfl
  · rfl

theorem moveTo_counted {model : CorpusModel W} (hcounted : model.Counted) (key : PitchClass) :
    (model.moveTo key).2.1.Counted := by
  rw [moveTo]
  split
  · exact hcounted
  · exact ofFiled_counted _ _ _

end CorpusModel

variable [LawfulWeight W]

theorem Corpus.shares_not_neg (counts : PitchClass → Nat) : ∀ share ∈ (shares counts : Row W).toList, ¬share < 0 := by
  intro share hshare
  obtain ⟨next, _, rfl⟩ := Vector.mem_iff_getElem.1 (Vector.mem_toList_iff.1 hshare)
  simp only [shares, normalize, Vector.getElem_map, Vector.getElem_ofFn]
  split
  · exact LawfulWeight.zero_not_neg
  · next htotal => exact LawfulWeight.div_not_neg (tally_not_neg _) htotal

namespace CorpusModel

theorem chances_not_neg {model : CorpusModel W} (hcounted : model.Counted) (current : PitchClass)
    (previous : Option PitchClass) : ∀ chance ∈ (model.chances current previous).toList, ¬chance < 0 := by
  have hrow : ∃ counts, model.chances current previous = Corpus.shares counts := by
    unfold chances
    split
    · dsimp only
      split
      · exact ⟨_, hcounted.pairTable_get _ current⟩
      · exact ⟨_, hcounted.table_get current⟩
    · exact ⟨_, hcounted.table_get current⟩
  obtain ⟨counts, hcounts⟩ := hrow
  rw [hcounts]
  exact Corpus.shares_not_neg counts

theorem next_isOk [Source σ W] {model : CorpusModel W} (hcounted : model.Counted) (current previous : Option PitchClass)
    (source : σ) : ∃ drawn, model.next current previous source = .ok drawn := by
  cases current with
  | none => exact ⟨_, rfl⟩
  | some current =>
    obtain ⟨drawn, hdrawn⟩ := chooseColumn_isOk (chances_not_neg hcounted current previous) source
    rw [next, hdrawn]
    exact ⟨_, rfl⟩

end CorpusModel

end TurtleMusic
