import TurtleMusic.Chance.Script
import TurtleMusic.Proofs.Harmony.Progression
import Mathlib.Data.List.Chain

/-!
# Walks through a key

Every progression that is sampled leaves the tonic, moves on as the weights allow and ends with the first tonic it meets or is given. The sampler joins progressions at the tonic they share, so what it hands out is one walk however many progressions it is cut from, until it is reset.
-/

namespace TurtleMusic

open TurtleMusic.Number TurtleMusic.Chance

/-- The weights let one chord follow another. -/
def ScaleChord.LeadsTo (chord next : ScaleChord) : Prop := 0 < chord.chance next

namespace ScaleChord

instance (chord next : ScaleChord) : Decidable (chord.LeadsTo next) := inferInstanceAs (Decidable (0 < chord.chance next))

theorem leadsTo_tonic {chord : ScaleChord} (hchord : chord ≠ tonic) : chord.LeadsTo tonic := by
  cases chord with
  | tonic => exact absurd rfl hchord
  | _ => decide

/-- The tonic does not lead to itself. -/
theorem LeadsTo.apart {chord next : ScaleChord} (hleads : chord.LeadsTo next) : ¬(chord = tonic ∧ next = tonic) := by
  rintro ⟨rfl, rfl⟩
  exact absurd hleads (by decide)

end ScaleChord

namespace Progression

/-- A progression as it can be sampled: from tonic to tonic with none in between, each chord led to by the one before it, and closed in time. -/
structure Legal (limit : Nat) (chords : List ScaleChord) : Prop where
  opens : chords.head? = some .tonic
  closes : chords.getLast? = some .tonic
  between : ∀ chord ∈ chords.tail.dropLast, chord ≠ .tonic
  atLeast : 3 ≤ chords.length
  atMost : chords.length ≤ limit + 1
  leads : chords.IsChain ScaleChord.LeadsTo

/-- A walk: it starts on the tonic, each chord is led to by the one before it, and no tonic follows another. -/
structure Walk (chords : List ScaleChord) : Prop where
  opens : ∀ first ∈ chords.head?, first = .tonic
  leads : chords.IsChain ScaleChord.LeadsTo
  apart : chords.IsChain fun chord next => ¬(chord = .tonic ∧ next = .tonic)

/-! ### Calls -/

inductive Call where
  | sample
  | next
  | reset
  deriving DecidableEq, Repr

/-- What a call gives back. -/
inductive Answer where
  | sampled (chords : List ScaleChord)
  | handed (chord : ScaleChord)
  | reset
  deriving DecidableEq, Repr

def Answer.handed? : Answer → Option ScaleChord
  | handed chord => some chord
  | sampled _ | reset => none

variable {σ : Type} (W : Type) [Weight W] [Source σ W]

def call (progression : Progression) (source : σ) : Call → Except Fault (Answer × Progression × σ)
  | .sample => (progression.sample W source).map fun drawn => (.sampled drawn.1, progression, drawn.2)
  | .next => (progression.next W source).map fun drawn => (.handed drawn.1.current, drawn.1, drawn.2)
  | .reset => .ok (.reset, progression.reset, source)

/-- What calls give back, one after the other. -/
def answers (progression : Progression) (source : σ) : List Call → Except Fault (List Answer)
  | [] => .ok []
  | made :: rest => do
    let (answer, progression, source) ← progression.call W source made
    return answer :: (← answers progression source rest)

variable {W} [LawfulWeight W]

/-! ### Sampling -/

theorem leadsTo_of_choose {chord : ScaleChord} {source : σ} {drawn : ScaleChord × σ}
    (hchoose : choose (options W chord) source = .ok drawn) : chord.LeadsTo drawn.1 := by
  obtain ⟨option, hoption, hdrawn, _⟩ := choose_weighty hchoose
  obtain ⟨next, hnext, rfl⟩ := List.mem_map.1 hoption
  exact hdrawn ▸ of_decide_eq_true (List.mem_filter.1 hnext).2

/-- A way from a chord home to the tonic, over at most so many others. -/
def Homeward (chord : ScaleChord) (most : Nat) (way : List ScaleChord) : Prop :=
  ∃ inner, way = inner ++ [.tonic] ∧ (∀ chord ∈ inner, chord ≠ .tonic) ∧ inner.length ≤ most ∧
    (chord :: way).IsChain ScaleChord.LeadsTo

theorem homeward_tonic {chord : ScaleChord} (hleads : chord.LeadsTo .tonic) (most : Nat) : Homeward chord most [.tonic] :=
  ⟨[], rfl, fun _ hmem => absurd hmem List.not_mem_nil, Nat.zero_le most, List.isChain_pair.2 hleads⟩

theorem Homeward.cons {chord next : ScaleChord} {most : Nat} {way : List ScaleChord} (hway : Homeward next most way)
    (hleads : chord.LeadsTo next) (haway : next ≠ .tonic) : Homeward chord (most + 1) (next :: way) := by
  obtain ⟨inner, rfl, hinner, hlength, hchain⟩ := hway
  exact ⟨next :: inner, rfl, List.forall_mem_cons.2 ⟨haway, hinner⟩, Nat.succ_le_succ hlength,
    List.isChain_cons_cons.2 ⟨hleads, hchain⟩⟩

theorem wander_homeward {chord : ScaleChord} {room : Nat} {source : σ} {drawn : List ScaleChord × σ}
    (hwander : wander W chord room source = .ok drawn) : Homeward chord (room + 1) drawn.1 := by
  induction room generalizing chord source drawn with
  | zero =>
    obtain ⟨⟨next, left⟩, hchoose, hresult⟩ := Except.bind_eq_ok_iff.1 hwander
    have hleads : chord.LeadsTo next := leadsTo_of_choose hchoose
    dsimp only at hresult
    split at hresult
    · next hhome =>
      cases hresult
      exact hhome ▸ homeward_tonic (hhome ▸ hleads) 1
    · next haway =>
      cases hresult
      exact (homeward_tonic (ScaleChord.leadsTo_tonic haway) 0).cons hleads haway
  | succ room ih =>
    obtain ⟨⟨next, left⟩, hchoose, hresult⟩ := Except.bind_eq_ok_iff.1 hwander
    have hleads : chord.LeadsTo next := leadsTo_of_choose hchoose
    dsimp only at hresult
    split at hresult
    · next hhome =>
      cases hresult
      exact hhome ▸ homeward_tonic (hhome ▸ hleads) _
    · next haway =>
      obtain ⟨_, hrest, hdrawn⟩ := Except.bind_eq_ok_iff.1 hresult
      cases hdrawn
      exact (ih hrest).cons hleads haway

/-- Whatever is rolled, a progression that is sampled is legal. -/
theorem sample_legal {progression : Progression} (hlimit : 2 ≤ progression.maxLength) {source : σ}
    {drawn : List ScaleChord × σ} (hsample : progression.sample W source = .ok drawn) :
    Legal progression.maxLength drawn.1 := by
  obtain ⟨⟨way, left⟩, hwander, rfl⟩ := Except.map_eq_ok_iff.1 hsample
  obtain ⟨inner, rfl, hinner, hlength, hchain⟩ := wander_homeward hwander
  have hsome : inner ≠ [] := by
    rintro rfl
    exact (List.isChain_pair.1 hchain).apart ⟨rfl, rfl⟩
  have hpos := List.length_pos_iff.2 hsome
  refine ⟨rfl, ?_, ?_, ?_, ?_, hchain⟩
  · rw [← List.cons_append]
    exact List.getLast?_concat
  · rw [List.tail_cons, List.dropLast_concat]
    exact hinner
  · rw [List.length_cons, List.length_append, List.length_singleton]
    omega
  · rw [List.length_cons, List.length_append, List.length_singleton]
    omega

/-! ### Handing out -/

/-- What has been handed out since the last reset is a walk that ends where the sampler stands in its progression. -/
structure Handing (limit : Nat) (progression : Progression) (handed : List ScaleChord) : Prop where
  maxLength : progression.maxLength = limit
  walk : Walk handed
  stands : (progression.chords = [] ∧ handed = []) ∨
    Legal limit progression.chords ∧ 0 < progression.position ∧ progression.position ≤ progression.chords.length ∧
      handed.getLast? = progression.chords[progression.position - 1]?

theorem walk_nil : Walk [] := ⟨fun _ hfirst => absurd hfirst (Option.not_mem_none _), List.isChain_nil, List.isChain_nil⟩

theorem walk_tonic : Walk [.tonic] :=
  ⟨fun _ hfirst => (Option.mem_some_iff.1 hfirst).symm, List.isChain_singleton _, List.isChain_singleton _⟩

theorem Walk.concat {handed : List ScaleChord} {last next : ScaleChord} (hwalk : Walk handed)
    (hlast : handed.getLast? = some last) (hleads : last.LeadsTo next) : Walk (handed ++ [next]) := by
  have hconcat : ∀ {follows : ScaleChord → ScaleChord → Prop}, handed.IsChain follows → follows last next →
      (handed ++ [next]).IsChain follows := by
    intro follows hchain hfollows
    refine hchain.append (List.isChain_singleton next) fun own hown first hfirst => ?_
    rw [hlast, Option.mem_some_iff] at hown
    rw [List.head?_singleton, Option.mem_some_iff] at hfirst
    exact hown ▸ hfirst ▸ hfollows
  have hnonempty : handed ≠ [] := by
    rintro rfl
    cases hlast
  refine ⟨?_, hconcat hwalk.leads hleads, hconcat hwalk.apart hleads.apart⟩
  rw [List.head?_append_of_ne_nil _ hnonempty]
  exact hwalk.opens

theorem handing_reset (progression : Progression) : Handing progression.maxLength progression.reset [] :=
  ⟨rfl, walk_nil, .inl ⟨rfl, rfl⟩⟩

theorem Legal.eq_cons {limit : Nat} {chords : List ScaleChord} (hlegal : Legal limit chords) :
    ∃ second rest, chords = .tonic :: second :: rest ∧ ScaleChord.tonic.LeadsTo second := by
  obtain ⟨hopens, _, _, hatLeast, _, hleads⟩ := hlegal
  match chords with
  | [] | [_] | [_, _] => exact absurd hatLeast (by simp)
  | first :: second :: third :: rest =>
    obtain rfl : first = .tonic := Option.some.inj hopens
    exact ⟨second, third :: rest, rfl, (List.isChain_cons_cons.1 hleads).1⟩

/-- Within a progression the next chord is the one behind the last. -/
theorem Handing.step {limit : Nat} {progression : Progression} {handed : List ScaleChord}
    (hhanding : Handing limit progression handed) (hleft : progression.position < progression.chords.length) :
    Handing limit { progression with
      current := progression.chords[progression.position], position := progression.position + 1 }
        (handed ++ [progression.chords[progression.position]]) := by
  obtain ⟨hlimit, hwalk, ⟨hempty, _⟩ | ⟨hlegal, hpos, _, hlast⟩⟩ := hhanding
  · rw [hempty] at hleft
    exact absurd hleft (Nat.not_lt_zero _)
  · refine ⟨hlimit, ?_, .inr ⟨hlegal, Nat.succ_pos _, hleft, ?_⟩⟩
    · rw [List.getElem?_eq_getElem (by omega)] at hlast
      have hleads := hlegal.leads.getElem (progression.position - 1) (by omega)
      simp only [Nat.sub_add_cancel hpos] at hleads
      exact hwalk.concat hlast hleads
    · rw [List.getLast?_concat, Nat.add_sub_cancel, List.getElem?_eq_getElem hleft]

/-- A used-up progression ends on the tonic that the next one starts with. -/
theorem Handing.last {limit : Nat} {progression : Progression} {handed : List ScaleChord}
    (hhanding : Handing limit progression handed) (hused : ¬progression.position < progression.chords.length) :
    (progression.chords.isEmpty = true ∧ handed = []) ∨
      (progression.chords.isEmpty = false ∧ handed.getLast? = some .tonic) := by
  obtain ⟨_, _, ⟨hempty, hnone⟩ | ⟨hlegal, hpos, hle, hlast⟩⟩ := hhanding
  · exact .inl ⟨List.isEmpty_iff.2 hempty, hnone⟩
  · refine .inr ⟨List.isEmpty_eq_false_iff.2 fun hempty => ?_, ?_⟩
    · rw [hempty, List.length_nil] at hle
      omega
    · rw [hlast, ← hlegal.closes, List.getLast?_eq_getElem?]
      congr 1
      omega

theorem Handing.next {limit : Nat} (hlimit : 2 ≤ limit) {progression moved : Progression} {handed : List ScaleChord}
    (hhanding : Handing limit progression handed) {source left : σ} (hnext : progression.next W source = .ok (moved, left)) :
    Handing limit moved (handed ++ [moved.current]) := by
  rw [Progression.next] at hnext
  split at hnext
  · next hleft =>
    cases hnext
    exact hhanding.step hleft
  · next hused =>
    have hmax := hhanding.maxLength
    obtain ⟨⟨chords, later⟩, hsample, hresult⟩ := Except.bind_eq_ok_iff.1 hnext
    cases hresult
    have hlegal : Legal limit chords := hmax ▸ sample_legal (hmax ▸ hlimit) hsample
    obtain ⟨second, rest, hchords, hleads⟩ := hlegal.eq_cons
    rcases hhanding.last hused with ⟨hempty, rfl⟩ | ⟨hsome, hlast⟩
    · dsimp only
      rw [hempty, hchords]
      rw [hchords] at hlegal
      exact ⟨hmax, walk_tonic, .inr ⟨hlegal, Nat.one_pos, by simp, rfl⟩⟩
    · dsimp only
      rw [hsome, hchords]
      rw [hchords] at hlegal
      refine ⟨hmax, hhanding.walk.concat hlast hleads, .inr ⟨hlegal, Nat.succ_pos _, by simp, ?_⟩⟩
      exact List.getLast?_concat

/-! ### Whole histories -/

theorem answers_legal {limit : Nat} (hlimit : 2 ≤ limit) {progression : Progression} {handed : List ScaleChord}
    (hhanding : Handing limit progression handed) {source : σ} {calls : List Call} {given : List Answer}
    (hgiven : progression.answers W source calls = .ok given) :
    (∀ chords, .sampled chords ∈ given → Legal limit chords) ∧
      ∃ first others, given.splitOn .reset = first :: others ∧ Walk (handed ++ first.filterMap Answer.handed?) ∧
        ∀ stretch ∈ others, Walk (stretch.filterMap Answer.handed?) := by
  induction calls generalizing progression handed source given with
  | nil =>
    cases hgiven
    exact ⟨fun _ hmem => absurd hmem List.not_mem_nil, [], [], by simp, by simpa using hhanding.walk, by simp⟩
  | cons made rest ih =>
    obtain ⟨⟨answer, moved, left⟩, hcall, hrest⟩ := Except.bind_eq_ok_iff.1 hgiven
    obtain ⟨later, hlater, hresult⟩ := Except.bind_eq_ok_iff.1 hrest
    cases hresult
    cases made with
    | sample =>
      obtain ⟨⟨chords, _⟩, hsample, heq⟩ := Except.map_eq_ok_iff.1 hcall
      cases heq
      have hmax := hhanding.maxLength
      have hlegal : Legal limit chords := hmax ▸ sample_legal (hmax ▸ hlimit) hsample
      obtain ⟨hsampled, first, others, hsplit, hwalk, hothers⟩ := ih hhanding hlater
      refine ⟨?_, .sampled chords :: first, others, ?_, hwalk, hothers⟩
      · intro own hown
        rcases List.mem_cons.1 hown with heq | hmem
        · cases heq
          exact hlegal
        · exact hsampled own hmem
      · rw [List.splitOn_cons_eq_if_modifyHead, hsplit]
        rfl
    | next =>
      obtain ⟨⟨advanced, _⟩, hnext, heq⟩ := Except.map_eq_ok_iff.1 hcall
      cases heq
      obtain ⟨hsampled, first, others, hsplit, hwalk, hothers⟩ := ih (hhanding.next hlimit hnext) hlater
      refine ⟨?_, .handed advanced.current :: first, others, ?_, ?_, hothers⟩
      · intro own hown
        rcases List.mem_cons.1 hown with heq | hmem
        · cases heq
        · exact hsampled own hmem
      · rw [List.splitOn_cons_eq_if_modifyHead, hsplit]
        rfl
      · simpa [Answer.handed?] using hwalk
    | reset =>
      cases hcall
      have hstart : Handing limit progression.reset [] := hhanding.maxLength ▸ handing_reset progression
      obtain ⟨hsampled, first, others, hsplit, hwalk, hothers⟩ := ih hstart hlater
      refine ⟨?_, [], first :: others, ?_, by simpa using hhanding.walk, List.forall_mem_cons.2 ⟨hwalk, hothers⟩⟩
      · intro own hown
        rcases List.mem_cons.1 hown with heq | hmem
        · cases heq
        · exact hsampled own hmem
      · rw [List.splitOn_cons_eq_if_modifyHead, hsplit]
        rfl

theorem call_isOk (progression : Progression) (source : σ) (made : Call) :
    ∃ drawn, progression.call W source made = .ok drawn := by
  cases made with
  | sample =>
    obtain ⟨drawn, hdrawn⟩ := wander_isOk (W := W) .tonic (progression.maxLength - 2) source
    exact ⟨_, by rw [call, sample, hdrawn]; rfl⟩
  | next =>
    obtain ⟨drawn, hdrawn⟩ := next_isOk (W := W) progression source
    exact ⟨_, by rw [call, hdrawn]; rfl⟩
  | reset => exact ⟨_, rfl⟩

theorem answers_isOk (progression : Progression) (source : σ) (calls : List Call) :
    ∃ given, progression.answers W source calls = .ok given := by
  induction calls generalizing progression source with
  | nil => exact ⟨[], rfl⟩
  | cons made rest ih =>
    obtain ⟨drawn, hcall⟩ := call_isOk (W := W) progression source made
    obtain ⟨later, hlater⟩ := ih drawn.2.1 drawn.2.2
    exact ⟨drawn.1 :: later, Except.bind_eq_ok_iff.2 ⟨drawn, hcall, Except.bind_eq_ok_iff.2 ⟨later, hlater, rfl⟩⟩⟩

/-- A sampler never fails. Whatever is rolled and however its calls follow each other, it samples legal progressions only, and what it hands out between resets is a walk. -/
theorem answers_walk {limit : Int} (hlimit : 2 ≤ limit) (source : σ) (calls : List Call) :
    ∃ progression given, make limit = .ok progression ∧ progression.answers W source calls = .ok given ∧
      (∀ chords, .sampled chords ∈ given → Legal limit.toNat chords) ∧
      ∀ stretch ∈ given.splitOn .reset, Walk (stretch.filterMap Answer.handed?) := by
  obtain ⟨given, hgiven⟩ := answers_isOk (W := W) { maxLength := limit.toNat } source calls
  have hlegal : 2 ≤ limit.toNat := by omega
  obtain ⟨hsampled, first, others, hsplit, hwalk, hothers⟩ :=
    answers_legal hlegal (handing_reset { maxLength := limit.toNat }) hgiven
  refine ⟨_, given, if_neg (by omega), hgiven, hsampled, ?_⟩
  rw [hsplit]
  exact List.forall_mem_cons.2 ⟨hwalk, hothers⟩

theorem answers_walk_four :
    (2 : Int) ≤ 4 ∧ ∃ progression given, make 4 = .ok progression ∧
      progression.answers Rat (⟨#[3 / 4, 1 / 2, 1 / 3], 0⟩ : Script Rat) [.next, .sample, .next, .next, .reset, .next] =
        .ok given ∧
      (∀ chords, .sampled chords ∈ given → Legal 4 chords) ∧
      ∀ stretch ∈ given.splitOn .reset, Walk (stretch.filterMap Answer.handed?) :=
  ⟨by decide, answers_walk (by decide) _ _⟩

end Progression

end TurtleMusic
