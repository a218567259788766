import Mathlib.Algebra.Ring.Nat
import TurtleMusic.Proofs.Score.Timeline

/-!
# One slot by itself

A score is a single stream of tokens that keeps switching between voices and layers. Whatever the switches are, a slot sounds as if its own tokens stood alone: they are laid one after another on a clock of their own, and what is read in other slots leaves no trace in it.
-/

namespace TurtleMusic

namespace Token

/-- The token chooses a voice or a layer. -/
def switches : Token → Bool
  | voice _ | layer _ => true
  | _ => false

/-- What a token makes happen at the time at which it is read. -/
def kinds : Token → List EventKind
  | tempo beatsPerMinute => [.tempo beatsPerMinute]
  | instrument number => [.program number]
  | control controller value => [.control controller value]
  | notes first others => (first :: others).map fun note => .note note.pitch note.codes.units
  | _ => []

variable {token : Token}

theorem length_of_switches (hswitches : token.switches = true) : token.length = 0 := by
  cases token with
  | voice | layer => rfl
  | _ => cases hswitches

theorem kinds_of_switches (hswitches : token.switches = true) : token.kinds = [] := by
  cases token with
  | voice | layer => rfl
  | _ => cases hswitches

theorem length_le_of_mem_kinds {kind : EventKind} (hkind : kind ∈ token.kinds) : kind.length ≤ token.length := by
  cases token with
  | notes first others =>
    obtain ⟨note, hnote, rfl⟩ := List.mem_map.1 hkind
    rw [length, List.foldl_map]
    exact Reading.le_longest hnote
  | tempo | instrument | control =>
    rw [List.mem_singleton.1 hkind]
    exact Nat.zero_le _
  | _ => exact absurd hkind List.not_mem_nil

/-! ### The slot chosen -/

/-- The voice that tokens, newest first, chose last; nought if they chose none. -/
def voiceOf : List Token → Int
  | [] => 0
  | voice number :: _ => number
  | _ :: older => voiceOf older

/-- The layer that tokens, newest first, chose last in a voice; nought if they chose none in it. -/
def layerOf (asked : Int) : List Token → Int
  | [] => 0
  | layer number :: older => if asked = voiceOf older then number else layerOf asked older
  | _ :: older => layerOf asked older

/-- The slot that is chosen after tokens, newest first: a voice that is chosen again goes back to its last layer. -/
def slotOf (older : List Token) : Slot := (voiceOf older, layerOf (voiceOf older) older)

end Token

/-! ### Tokens on a clock of their own -/

/-- A token and the time at which it is read. -/
structure Placed where
  start : Nat
  token : Token

namespace Placed

def stop (placed : Placed) : Nat := placed.start + placed.token.length

def events (slot : Slot) (placed : Placed) : List Event :=
  placed.token.kinds.map fun kind => ⟨placed.start, slot.1, slot.2, kind⟩

theorem span_of_mem_events {placed : Placed} {slot : Slot} {event : Event} (hevent : event ∈ placed.events slot) :
    event.start = placed.start ∧ event.stop ≤ placed.stop := by
  obtain ⟨kind, hkind, rfl⟩ := List.mem_map.1 hevent
  exact ⟨rfl, Nat.add_le_add_left (Token.length_le_of_mem_kinds hkind) _⟩

/-- Tokens laid one after another: each starts when those before it have passed. -/
def inOrder (start : Nat) (tokens : List Token) : List Placed :=
  tokens.mapIdx fun place token => ⟨start + ((tokens.take place).map Token.length).sum, token⟩

theorem inOrder_cons (start : Nat) (token : Token) (rest : List Token) :
    inOrder start (token :: rest) = ⟨start, token⟩ :: inOrder (start + token.length) rest := by
  simp only [inOrder, List.mapIdx_cons, List.take_zero, List.map_nil, List.sum_nil, Nat.add_zero, List.take_succ_cons,
    List.map_cons, List.sum_cons, Nat.add_assoc]

theorem le_start_of_mem_inOrder {start : Nat} {tokens : List Token} {placed : Placed}
    (hplaced : placed ∈ inOrder start tokens) : start ≤ placed.start := by
  obtain ⟨place, _, rfl⟩ := List.mem_mapIdx.1 hplaced
  exact Nat.le_add_right _ _

theorem pairwise_inOrder (start : Nat) (tokens : List Token) :
    (inOrder start tokens).Pairwise fun earlier later => earlier.stop ≤ later.start := by
  induction tokens generalizing start with
  | nil => exact List.Pairwise.nil
  | cons token rest ih =>
    rw [inOrder_cons]
    exact List.pairwise_cons.2 ⟨fun later hlater => le_start_of_mem_inOrder hlater, ih _⟩

end Placed

namespace Reading

/-! ### One token -/

theorem events_step (reading : Reading) (token : Token) :
    (reading.step token).1 = Placed.events reading.slot ⟨reading.clock reading.slot, token⟩ := by
  cases token with
  | notes first others =>
    simp only [step, Placed.events, Token.kinds, List.map_map]
    rfl
  | _ => rfl

theorem slot_step (reading : Reading) {token : Token} (hstays : token.switches = false) :
    (reading.step token).2.slot = reading.slot := by
  cases token with
  | voice | layer => cases hstays
  | _ => rfl

/-! ### Layers gone back to -/

/-- The layer in which a voice is read when it is chosen next. -/
def layerIn (reading : Reading) (asked : Int) : Int :=
  if asked = reading.voice then reading.layer else reading.layers.get asked 0

theorem layerIn_voice (reading : Reading) (number asked : Int) :
    (reading.step (.voice number)).2.layerIn asked = reading.layerIn asked := by
  have hkept : (reading.step (.voice number)).2.layerIn asked =
      (reading.layers.set reading.voice reading.layer).get asked 0 := by
    rw [layerIn, step]
    split
    · next hasked => rw [hasked]
    · rfl
  rw [hkept, Kept.get_set]
  rfl

theorem layerIn_layer (reading : Reading) (number asked : Int) :
    (reading.step (.layer number)).2.layerIn asked = if asked = reading.voice then number else reading.layerIn asked := by
  rw [layerIn, layerIn, step]
  split <;> rfl

theorem chosen_through (older : List Token) :
    (through older).voice = Token.voiceOf older ∧ ∀ asked, (through older).layerIn asked = Token.layerOf asked older := by
  induction older with
  | nil => exact ⟨rfl, fun asked => ite_self 0⟩
  | cons newest older ih =>
    obtain ⟨hvoice, hlayer⟩ := ih
    cases newest with
    | voice number => exact ⟨rfl, fun asked => (layerIn_voice _ number asked).trans (hlayer asked)⟩
    | layer number =>
      refine ⟨hvoice, fun asked => ?_⟩
      rw [Token.layerOf, ← hvoice, ← hlayer asked]
      exact layerIn_layer _ number asked
    | _ => exact ⟨hvoice, hlayer⟩

theorem slot_through (older : List Token) : (through older).slot = Token.slotOf older := by
  obtain ⟨hvoice, hlayer⟩ := chosen_through older
  have hown : (through older).layerIn (through older).voice = (through older).layer := if_pos rfl
  rw [slot, Token.slotOf, ← hlayer, ← hvoice, hown]

/-! ### The tokens of a slot -/

/-- The tokens that are read while a slot is chosen, but for those that choose a voice or a layer. -/
def tokensIn (slot : Slot) (reading : Reading) : List Token → List Token
  | [] => []
  | token :: rest =>
    if reading.slot = slot ∧ token.switches = false then token :: tokensIn slot (reading.step token).2 rest
    else tokensIn slot (reading.step token).2 rest

/-- The texts, behind tokens newest first, that are read while a slot is chosen, but for those that choose a voice or a layer. -/
def textsIn (slot : Slot) (older : List Token) : List (List Char) → List (List Char)
  | [] => []
  | text :: rest =>
    match Token.read text with
    | .error _ => textsIn slot older rest
    | .ok token =>
      if Token.slotOf older = slot ∧ token.switches = false then text :: textsIn slot (token :: older) rest
      else textsIn slot (token :: older) rest

theorem tokensIn_here {slot : Slot} {reading : Reading} (hslot : reading.slot = slot) {token : Token}
    (hstays : token.switches = false) (rest : List Token) :
    tokensIn slot reading (token :: rest) = token :: tokensIn slot (reading.step token).2 rest := by
  rw [tokensIn, if_pos ⟨hslot, hstays⟩]

theorem tokensIn_switch (slot : Slot) (reading : Reading) {token : Token} (hswitches : token.switches = true)
    (rest : List Token) : tokensIn slot reading (token :: rest) = tokensIn slot (reading.step token).2 rest := by
  rw [tokensIn, if_neg fun hhere => absurd (hswitches.symm.trans hhere.2) (by decide)]

theorem tokensIn_elsewhere {slot : Slot} {reading : Reading} (hslot : reading.slot ≠ slot) (token : Token)
    (rest : List Token) : tokensIn slot reading (token :: rest) = tokensIn slot (reading.step token).2 rest := by
  rw [tokensIn, if_neg fun hhere => hslot hhere.1]

theorem filter_events_step (slot : Slot) (reading : Reading) (token : Token) :
    (reading.step token).1.filter (·.slot = slot) = if reading.slot = slot then (reading.step token).1 else [] := by
  have hown : ∀ event ∈ (reading.step token).1, event.slot = reading.slot := fun event hevent =>
    (span_of_mem_step hevent).1
  split
  · next hslot => exact List.filter_eq_self.2 fun event hevent => decide_eq_true ((hown event hevent).trans hslot)
  · next hslot =>
    exact List.filter_eq_nil_iff.2 fun event hevent hsame => hslot ((hown event hevent).symm.trans (of_decide_eq_true hsame))

/-- The events of a slot are those of its own tokens, laid one after another from its clock on. -/
theorem filter_run (slot : Slot) (reading : Reading) (tokens : List Token) :
    (reading.run tokens).filter (·.slot = slot) =
      (Placed.inOrder (reading.clock slot) (reading.tokensIn slot tokens)).flatMap (Placed.events slot) := by
  induction tokens generalizing reading with
  | nil => rfl
  | cons token rest ih =>
    -- The clock of the slot carries the induction: its own tokens move it, those of other slots do not.
    have hclock := clock_step reading token slot
    rw [run, List.filter_append, filter_events_step, ih]
    by_cases hslot : reading.slot = slot
    · subst hslot
      rw [if_pos rfl] at hclock ⊢
      rw [hclock, events_step]
      cases hswitches : token.switches with
      | false => rw [tokensIn_here rfl hswitches, Placed.inOrder_cons, List.flatMap_cons]
      | true =>
        rw [tokensIn_switch _ _ hswitches, Token.length_of_switches hswitches, Nat.add_zero, Placed.events,
          Token.kinds_of_switches hswitches, List.map_nil, List.nil_append]
    · rw [if_neg hslot, List.nil_append, tokensIn_elsewhere hslot, hclock, if_neg (Ne.symm hslot), Nat.add_zero]

/-! ### The tokens of a slot alone -/

theorem switches_of_mem_tokensIn {slot : Slot} {tokens : List Token} {reading : Reading} {token : Token}
    (htoken : token ∈ reading.tokensIn slot tokens) : token.switches = false := by
  induction tokens generalizing reading with
  | nil => exact absurd htoken List.not_mem_nil
  | cons first rest ih =>
    rw [tokensIn] at htoken
    split at htoken
    · next hhere =>
      rcases List.mem_cons.1 htoken with rfl | hlater
      · exact hhere.2
      · exact ih hlater
    · exact ih htoken

variable {reading : Reading} {tokens : List Token}

/-- Without a switch, everything is read in one slot. -/
theorem tokensIn_self (hstay : ∀ token ∈ tokens, token.switches = false) :
    reading.tokensIn reading.slot tokens = tokens := by
  induction tokens generalizing reading with
  | nil => rfl
  | cons token rest ih =>
    rw [List.forall_mem_cons] at hstay
    have hrest : tokensIn (reading.step token).2.slot (reading.step token).2 rest = rest := ih hstay.2
    rw [slot_step reading hstay.1] at hrest
    rw [tokensIn_here rfl hstay.1, hrest]

theorem slot_of_mem_run (hstay : ∀ token ∈ tokens, token.switches = false) {event : Event}
    (hevent : event ∈ reading.run tokens) : event.slot = reading.slot := by
  induction tokens generalizing reading with
  | nil => exact absurd hevent List.not_mem_nil
  | cons token rest ih =>
    rw [List.forall_mem_cons] at hstay
    rw [run, List.mem_append] at hevent
    rcases hevent with hown | hlater
    · exact (span_of_mem_step hown).1
    · exact (ih hstay.2 hlater).trans (slot_step reading hstay.1)

theorem run_eq_inOrder (reading : Reading) (hstay : ∀ token ∈ tokens, token.switches = false) :
    reading.run tokens =
      (Placed.inOrder (reading.clock reading.slot) tokens).flatMap (Placed.events reading.slot) := by
  have hall : (reading.run tokens).filter (·.slot = reading.slot) = reading.run tokens :=
    List.filter_eq_self.2 fun event hevent => decide_eq_true (slot_of_mem_run hstay hevent)
  rw [← hall, filter_run, tokensIn_self hstay]

/-! ### Tokens of other slots -/

theorem tokensIn_append (slot : Slot) (reading : Reading) (left right : List Token) :
    reading.tokensIn slot (left ++ right) = reading.tokensIn slot left ++ (reading.past left).tokensIn slot right := by
  induction left generalizing reading with
  | nil => rfl
  | cons token rest ih =>
    rw [List.cons_append, tokensIn, tokensIn, ih]
    split <;> rfl

theorem step_clocks (reading : Reading) (clocks : Kept Slot Nat) (token : Token) :
    ∃ later, (step { reading with clocks := clocks } token).2 = { (reading.step token).2 with clocks := later } := by
  cases token <;> exact ⟨_, rfl⟩

/-- Which tokens belong to a slot does not depend on the clocks. -/
theorem tokensIn_clocks (slot : Slot) (reading : Reading) (clocks : Kept Slot Nat) (tokens : List Token) :
    tokensIn slot { reading with clocks := clocks } tokens = reading.tokensIn slot tokens := by
  induction tokens generalizing reading clocks with
  | nil => rfl
  | cons token rest ih =>
    obtain ⟨later, hlater⟩ := step_clocks reading clocks token
    rw [tokensIn, tokensIn, hlater, ih]
    rfl

/-- Without a switch, reading only moves clocks. -/
theorem past_stay (reading : Reading) (hstay : ∀ token ∈ tokens, token.switches = false) :
    ∃ clocks, reading.past tokens = { reading with clocks := clocks } := by
  induction tokens generalizing reading with
  | nil => exact ⟨reading.clocks, rfl⟩
  | cons token rest ih =>
    rw [List.forall_mem_cons] at hstay
    obtain ⟨clocks, hrest⟩ := ih (reading.step token).2 hstay.2
    refine ⟨clocks, hrest.trans ?_⟩
    cases token with
    | voice | layer => cases hstay.1
    | _ => rfl

theorem tokensIn_aside {slot : Slot} (hslot : reading.slot ≠ slot) (hstay : ∀ token ∈ tokens, token.switches = false) :
    reading.tokensIn slot tokens = [] := by
  induction tokens generalizing reading with
  | nil => rfl
  | cons token rest ih =>
    rw [List.forall_mem_cons] at hstay
    rw [tokensIn_elsewhere hslot]
    exact ih (slot_step reading hstay.1 ▸ hslot) hstay.2

/-- Tokens that are read while another slot is chosen leave the tokens of a slot as they are. -/
theorem tokensIn_insert {slot : Slot} {before aside : List Token} (hslot : (reading.past before).slot ≠ slot)
    (hstay : ∀ token ∈ aside, token.switches = false) (after : List Token) :
    reading.tokensIn slot (before ++ (aside ++ after)) = reading.tokensIn slot (before ++ after) := by
  obtain ⟨clocks, hpast⟩ := past_stay (reading.past before) hstay
  rw [tokensIn_append, tokensIn_append, tokensIn_append, tokensIn_aside hslot hstay, List.nil_append, hpast]
  exact congrArg (reading.tokensIn slot before ++ ·) (tokensIn_clocks slot (reading.past before) clocks after)

/-! ### Texts -/

theorem mapM_read_textsIn (slot : Slot) {texts : List (List Char)} {tokens : List Token}
    (htokens : texts.mapM Token.read = .ok tokens) (older : List Token) :
    (textsIn slot older texts).mapM Token.read = .ok ((through older).tokensIn slot tokens) := by
  rw [Except.mapM_eq_ok_iff] at htokens ⊢
  induction htokens generalizing older with
  | nil => exact .nil
  | @cons text token _ _ hread _ ih =>
    have hrest := ih (token :: older)
    rw [textsIn, hread, tokensIn, slot_through]
    dsimp only
    split
    · exact .cons hread hrest
    · exact hrest

end Reading

namespace Event

/-- The events of one slot. -/
def inSlot (slot : Slot) (events : List Event) : List Event := events.filter (·.slot = slot)

theorem ofTexts_eq_ok_iff {texts : List (List Char)} {events : List Event} :
    ofTexts texts = .ok events ↔ ∃ tokens, texts.mapM Token.read = .ok tokens ∧ ofTokens tokens = events :=
  Except.map_eq_ok_iff

/-- What a slot sounds is told by its own tokens, laid one after another from the beginning. -/
theorem inSlot_ofTokens (slot : Slot) (tokens : List Token) :
    inSlot slot (ofTokens tokens) =
      (Placed.inOrder 0 (Reading.tokensIn slot {} tokens)).flatMap (Placed.events slot) :=
  Reading.filter_run slot {} tokens

/-- After choosing a slot first, its own tokens alone make the same events. -/
theorem ofTokens_alone (slot : Slot) (tokens : List Token) :
    ofTokens (.voice slot.1 :: .layer slot.2 :: Reading.tokensIn slot {} tokens) = inSlot slot (ofTokens tokens) := by
  rw [inSlot_ofTokens]
  exact Reading.run_eq_inOrder (Reading.past {} [.voice slot.1, .layer slot.2])
    fun _ => Reading.switches_of_mem_tokensIn

/-- The texts of a passage are tokens that, behind the texts before it, are read while another slot is chosen. -/
def Aside (slot : Slot) (before passage : List (List Char)) : Prop :=
  ∃ earlier aside, before.mapM Token.read = .ok earlier ∧ passage.mapM Token.read = .ok aside ∧
    Token.slotOf earlier.reverse ≠ slot ∧ ∀ token ∈ aside, token.switches = false

variable {slot : Slot} {texts others before passage after : List (List Char)} {events otherEvents : List Event}

theorem ofTexts_alone (hevents : ofTexts texts = .ok events) (voice layer : Nat) :
    ofTexts ((Token.voice voice).text :: (Token.layer layer).text :: Reading.textsIn (voice, layer) [] texts) =
      .ok (inSlot (voice, layer) events) := by
  obtain ⟨tokens, htokens, rfl⟩ := ofTexts_eq_ok_iff.1 hevents
  have hown := Except.mapM_eq_ok_iff.1 (Reading.mapM_read_textsIn (voice, layer) htokens [])
  have hvoice : Token.read (Token.voice voice).text = .ok (.voice voice) := Token.read_text (Int.natCast_nonneg voice)
  have hlayer : Token.read (Token.layer layer).text = .ok (.layer layer) := Token.read_text (Int.natCast_nonneg layer)
  exact ofTexts_eq_ok_iff.2
    ⟨_, Except.mapM_eq_ok_iff.2 (.cons hvoice (.cons hlayer hown)), ofTokens_alone (voice, layer) tokens⟩

theorem inSlot_ofTexts (slot : Slot) (hevents : ofTexts texts = .ok events) :
    ∃ own, (Reading.textsIn slot [] texts).mapM Token.read = .ok own ∧
      inSlot slot events = (Placed.inOrder 0 own).flatMap (Placed.events slot) := by
  obtain ⟨tokens, htokens, rfl⟩ := ofTexts_eq_ok_iff.1 hevents
  exact ⟨_, Reading.mapM_read_textsIn slot htokens [], inSlot_ofTokens slot tokens⟩

/-- Scores that agree in the tokens of a slot agree in its events. -/
theorem inSlot_congr (hevents : ofTexts texts = .ok events) (hothers : ofTexts others = .ok otherEvents)
    (hsame : Reading.textsIn slot [] others = Reading.textsIn slot [] texts) :
    inSlot slot otherEvents = inSlot slot events := by
  obtain ⟨own, hown, hplaced⟩ := inSlot_ofTexts slot hevents
  obtain ⟨otherOwn, hotherOwn, hotherPlaced⟩ := inSlot_ofTexts slot hothers
  rw [hsame, hown] at hotherOwn
  cases hotherOwn
  rw [hplaced, hotherPlaced]

/-- Tokens that are read while another slot is chosen make no difference to the events of a slot. -/
theorem inSlot_insert {earlier aside : List Token} (hslot : Token.slotOf earlier.reverse ≠ slot)
    (hstay : ∀ token ∈ aside, token.switches = false) (later : List Token) :
    inSlot slot (ofTokens (earlier ++ (aside ++ later))) = inSlot slot (ofTokens (earlier ++ later)) := by
  have hpast : (Reading.past {} earlier).slot ≠ slot := by
    rwa [← earlier.reverse_reverse, Reading.past_reverse, Reading.slot_through]
  rw [inSlot_ofTokens, inSlot_ofTokens, Reading.tokensIn_insert hpast hstay]

theorem ofTexts_insert (haside : Aside slot before passage) (hevents : ofTexts (before ++ after) = .ok events) :
    ∃ longer, ofTexts (before ++ (passage ++ after)) = .ok longer ∧ inSlot slot longer = inSlot slot events := by
  obtain ⟨earlier, aside, hbefore, hpassage, hslot, hstay⟩ := haside
  obtain ⟨tokens, htokens, rfl⟩ := ofTexts_eq_ok_iff.1 hevents
  obtain ⟨first, later, hfirst, hafter, rfl⟩ := Except.mapM_append_eq_ok_iff.1 htokens
  cases hbefore.symm.trans hfirst
  have hrest := Except.mapM_append_eq_ok_iff.2 ⟨aside, later, hpassage, hafter, rfl⟩
  have hlonger := Except.mapM_append_eq_ok_iff.2 ⟨earlier, aside ++ later, hbefore, hrest, rfl⟩
  exact ⟨_, ofTexts_eq_ok_iff.2 ⟨_, hlonger, rfl⟩, inSlot_insert hslot hstay later⟩

theorem ofTexts_delete (haside : Aside slot before passage)
    (hevents : ofTexts (before ++ (passage ++ after)) = .ok events) :
    ∃ shorter, ofTexts (before ++ after) = .ok shorter ∧ inSlot slot shorter = inSlot slot events := by
  obtain ⟨tokens, htokens, rfl⟩ := ofTexts_eq_ok_iff.1 hevents
  obtain ⟨earlier, _, hbefore, hrest, rfl⟩ := Except.mapM_append_eq_ok_iff.1 htokens
  obtain ⟨_, later, _, hafter, rfl⟩ := Except.mapM_append_eq_ok_iff.1 hrest
  have hkept := Except.mapM_append_eq_ok_iff.2 ⟨earlier, later, hbefore, hafter, rfl⟩
  have hshorter : ofTexts (before ++ after) = .ok (ofTokens (earlier ++ later)) := ofTexts_eq_ok_iff.2 ⟨_, hkept, rfl⟩
  obtain ⟨longer, hlonger, hsame⟩ := ofTexts_insert haside hshorter
  rw [hevents] at hlonger
  cases hlonger
  exact ⟨_, hshorter, hsame.symm⟩

/-- Every slot is read on its own clock. Its events are those of its own tokens alone, each laid where the tokens of the slot before it end; they depend on nothing else, and tokens read in other slots can be put in or taken out. -/
theorem ofTexts_slots_apart (hevents : ofTexts texts = .ok events) (voice layer : Nat) :
    let slot : Slot := (voice, layer)
    let own := Reading.textsIn slot [] texts
    ofTexts ((Token.voice voice).text :: (Token.layer layer).text :: own) = .ok (inSlot slot events) ∧
      (∃ tokens, own.mapM Token.read = .ok tokens ∧
        inSlot slot events = (Placed.inOrder 0 tokens).flatMap (Placed.events slot) ∧
        (Placed.inOrder 0 tokens).Pairwise (fun earlier later => earlier.stop ≤ later.start) ∧
        ∀ placed ∈ Placed.inOrder 0 tokens, ∀ event ∈ placed.events slot,
          event.start = placed.start ∧ event.stop ≤ placed.stop) ∧
      (∀ others otherEvents, ofTexts others = .ok otherEvents → Reading.textsIn slot [] others = own →
        inSlot slot otherEvents = inSlot slot events) ∧
      ∀ before passage after, Aside slot before passage →
        (texts = before ++ after → ∃ longer, ofTexts (before ++ (passage ++ after)) = .ok longer ∧
          inSlot slot longer = inSlot slot events) ∧
        (texts = before ++ (passage ++ after) → ∃ shorter, ofTexts (before ++ after) = .ok shorter ∧
          inSlot slot shorter = inSlot slot events) := by
  intro slot own
  obtain ⟨tokens, htokens, hplaced⟩ := inSlot_ofTexts slot hevents
  refine ⟨ofTexts_alone hevents voice layer, ⟨tokens, htokens, hplaced, Placed.pairwise_inOrder 0 tokens, ?_⟩, ?_, ?_⟩
  · exact fun placed _ event hevent => Placed.span_of_mem_events hevent
  · exact fun others otherEvents hothers hsame => inSlot_congr hevents hothers hsame
  · intro before passage after haside
    constructor
    · rintro rfl
      exact ofTexts_insert haside hevents
    · rintro rfl
      exact ofTexts_delete haside hevents

/-- A voice that is left and chosen again goes back to its second layer. -/
def returning : List (List Char) := ["V0", "L2", "[60]q", "V1", "[50]h+[53]q", "V0", "Ri", "[61]q"].map String.toList

/-- Its events, in all its slots. -/
def returningEvents : List Event :=
  [⟨0, 0, 2, .note 60 32⟩, ⟨0, 1, 0, .note 50 64⟩, ⟨0, 1, 0, .note 53 32⟩, ⟨48, 0, 2, .note 61 32⟩]

theorem ofTexts_slots_apart_returning :
    ofTexts returning = .ok returningEvents ∧
      Reading.textsIn (0, 2) [] returning = ["[60]q", "Ri", "[61]q"].map String.toList ∧
      ofTexts (["V0", "L2", "[60]q", "Ri", "[61]q"].map String.toList) =
        .ok [⟨0, 0, 2, .note 60 32⟩, ⟨48, 0, 2, .note 61 32⟩] ∧
      Aside (0, 2) (returning.take 4) ["Rw".toList] ∧
      ∃ longer, ofTexts (returning.take 4 ++ (["Rw".toList] ++ returning.drop 4)) = .ok longer ∧
        inSlot (0, 2) longer = inSlot (0, 2) returningEvents := by
  have hevents : ofTexts returning = .ok returningEvents := by rfl
  have haside : Aside (0, 2) (returning.take 4) ["Rw".toList] :=
    ⟨[.voice 0, .layer 2, .notes ⟨60, [.q]⟩ [], .voice 1], [.pause [.w]], by rfl, by rfl, by decide, by decide⟩
  obtain ⟨halone, _, _, hinsert⟩ := ofTexts_slots_apart hevents 0 2
  exact ⟨hevents, by rfl, halone, haside, (hinsert _ _ _ haside).1 (List.take_append_drop 4 returning).symm⟩

end Event

end TurtleMusic
