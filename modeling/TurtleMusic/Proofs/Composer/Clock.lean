import TurtleMusic.Proofs.Composer.Moments

/-!
# Clock, beat and count

Three numbers are kept beside the tokens of a score: the time gone by, the beat, and how many events have sounded. The clock shows the time that the tokens take up, although these are joined and encoded anew while it runs; the beat is the quarter note that the clock is in; and one event is counted for every drawing character that finds the turtle under a horizontal heading. The heading is a matter of turns alone, so with none of them, or with half turns only, every drawing character counts.
-/

namespace TurtleMusic

/-- The clock shows the time that the tokens take up, and the beat is the quarter note that the clock is in. -/
structure Score.Clocked (score : Score) : Prop where
  position : score.position = span score.written
  beat : (score.beat : Int) = 1 + score.position / 32 % 4

theorem Score.beat_repeat_nextBeat {score : Score} {quarters : Nat} (hbeat : score.beat = 1 + quarters % 4) (count : Nat) :
    (Nat.repeat nextBeat count score).beat = 1 + (quarters + count) % 4 := by
  induction count with
  | zero => exact hbeat
  | succ count ih =>
    simp only [Nat.repeat, nextBeat, ih, beatsPerMeasure]
    split <;> omega

namespace Composer

open TurtleMusic.Number TurtleMusic.Chance TurtleMusic.Grammar

variable {σ W : Type} [Weight W] {composer before after : Composer σ W} {depth : Nat}

/-! ### Strokes -/

omit [Weight W] in
/-- Passing a length moves the beat on by the quarter notes that the clock passes. -/
theorem beat_advance {length : Int} (hposition : 0 ≤ composer.score.position) (hlength : 0 ≤ length)
    (hbeat : (composer.score.beat : Int) = 1 + composer.score.position / 32 % 4) :
    ((composer.advance length).score.beat : Int) = 1 + (composer.score.position + length) / 32 % 4 := by
  obtain ⟨quarters, hquarters⟩ := Int.eq_ofNat_of_zero_le (Int.ediv_nonneg hposition (show (0 : Int) ≤ 32 by decide))
  have hbefore : ({ composer.score with position := composer.score.position + length } : Score).beat = 1 + quarters % 4 := by
    dsimp only
    omega
  have hafter := Score.beat_repeat_nextBeat hbefore
    ((composer.score.position + length) / 32 - composer.score.position / 32).toNat
  rw [advance]
  dsimp only
  rw [hafter]
  omega

omit [Weight W] in
/-- Choosing a stroke writes bar lines at most. -/
theorem Chosen.marks (hchosen : Chosen composer after) :
    ∃ marks, after.score.written = marks ++ composer.score.written ∧ ∀ mark ∈ marks, mark.Composed ∧ mark.IsMark := by
  obtain ⟨count, hwritten⟩ := hchosen.written
  refine ⟨_, hwritten, fun mark hmark => ?_⟩
  rw [List.eq_of_mem_replicate hmark]
  exact ⟨trivial, trivial⟩

variable [Source σ W]

theorem horizontalStroke_clocked {sounding : Bool} (hunder : Underway depth composer) (hclocked : composer.score.Clocked)
    (hstroke : composer.horizontalStroke sounding = .ok after) : after.score.Clocked := by
  obtain ⟨stroke, chosen, score, hchosen, hwrite, rfl⟩ := horizontalStroke_ok hstroke
  have hkept := chooseStroke_chosen hchosen
  have hpos := chooseStroke_length_pos hunder.fit.valid hunder.measure hchosen
  have hspan := (Score.write_writes (hkept.scored hunder.scored).composed hwrite).span_eq
  -- Bar lines may have been written since, but they take no time.
  have hready : span chosen.score.written = span composer.score.written := by
    obtain ⟨bars, hwritten, hbars⟩ := hkept.marks
    rw [hwritten, span_marks fun bar hbar => (hbars bar hbar).2]
  have hposition : score.position = composer.score.position := by
    rw [(Score.write_sameContext hwrite).position, hkept.score]
  have hbeat : score.beat = composer.score.beat := by
    rw [(Score.write_counts hwrite).1, hkept.score]
  have hclock := hclocked.position
  have hnow : ((({ chosen with score } : Composer σ W).advance stroke.length).score.beat : Int) =
      1 + (score.position + stroke.length) / 32 % 4 := by
    apply beat_advance
    · rw [hposition]
      omega
    · exact Int.le_of_lt hpos
    · rw [hbeat, hposition]
      exact hclocked.beat
  obtain ⟨beat, hadvance⟩ := advance_eq { chosen with score } stroke.length
  rw [hadvance] at hnow ⊢
  constructor
  · dsimp only
    omega
  · exact hnow

/-- A drawing stroke lets pitches sound, be it a note or a chord; a moving one does not. -/
theorem chooseStroke_silent_iff {sounding : Bool} {stroke : Stroke} (hvalid : composer.config.Valid)
    (hchoose : composer.chooseStroke sounding = .ok (stroke, after)) : stroke.pitches = [] ↔ sounding = false := by
  obtain ⟨rfl, hsound⟩ | ⟨rfl, rfl, _⟩ := chooseStroke_ok hchoose
  · suffices hpitches : stroke.pitches ≠ [] by simpa using hpitches
    obtain ⟨_, _, _, hchord⟩ | ⟨_, _, _, rfl⟩ | ⟨_, _, rfl⟩ := chooseSound_ok hsound
    · obtain ⟨chosen, _, tones, _, htones, rfl, _⟩ := chooseChord_ok hchord
      have hvoices := hvalid.harmonyVoices
      rw [(takeLength_chosen composer).config] at htones ⊢
      rw [ScaleChord.triad_eq_ok _ _ _ hvalid.span, Except.ok.injEq] at htones
      have hroom : composer.config.harmonyVoices.toNat ≠ 0 := by omega
      simp only [Stroke.pitches, ne_eq, List.take_eq_nil_iff, hroom, false_or, ← htones, List.map_eq_nil_iff,
        ScaleChord.openTones]
      cases chosen.current <;> exact List.cons_ne_nil _ _
    · simp [Stroke.pitches]
    · simp [Stroke.pitches]
  · simp [Stroke.pitches]

theorem horizontalStroke_events {sounding : Bool} (hvalid : composer.config.Valid)
    (hstroke : composer.horizontalStroke sounding = .ok after) :
    after.score.events = composer.score.events + if sounding then 1 else 0 := by
  obtain ⟨stroke, chosen, score, hchosen, hwrite, rfl⟩ := horizontalStroke_ok hstroke
  have hsilent := chooseStroke_silent_iff hvalid hchosen
  have hready : chosen.score.events = composer.score.events := by rw [(chooseStroke_chosen hchosen).score]
  obtain ⟨beat, hadvance⟩ := advance_eq { chosen with score } stroke.length
  rw [hadvance]
  dsimp only
  rw [(Score.write_counts hwrite).2, hready]
  cases sounding <;> simp [hsilent]

/-! ### Between strokes -/

/-- Beat and count stand still while no stroke along the time axis is made. -/
theorem Stepped.counts {behind : List Char} {act : Act} {outcome : Nat}
    (hstepped : Stepped composer behind act depth outcome after) (hunder : Underway depth composer)
    (hquiet : ∀ sounding, act ≠ .stroke sounding) :
    after.score.beat = composer.score.beat ∧ after.score.events = composer.score.events := by
  cases hstepped with
  | stroke => exact absurd rfl (hquiet _)
  | idle | turn => exact ⟨rfl, rfl⟩
  | stepPitch _ hstep =>
    obtain ⟨pitch, _, rfl⟩ := stepPitch_ok hstep
    exact ⟨rfl, rfl⟩
  | openBranch =>
    by_cases hbelow : depth < 255
    · rw [openBranch_eq hunder.branched hbelow]
      exact ⟨rfl, rfl⟩
    · rw [openBranch_flat hunder.branched (Nat.not_lt.1 hbelow)]
      exact ⟨rfl, rfl⟩
  | closeBranch _ hclose =>
    obtain ⟨_, _, _, _, rfl⟩ | ⟨_, rfl⟩ := closeBranch_cases hunder.branched hclose
    all_goals exact ⟨rfl, rfl⟩
  | shiftHue times =>
    rw [shiftHue_eq]
    exact ⟨rfl, rfl⟩

/-- Every act is a stroke along the time axis, or goes by quietly with beat and count standing still. -/
theorem Stepped.stroke_or_still {behind : List Char} {act : Act} {outcome : Nat}
    (hstepped : Stepped composer behind act depth outcome after) (hunder : Underway depth composer) :
    (∃ sounding, act = .stroke sounding ∧ composer.horizontalStroke sounding = .ok after) ∨
      ((∀ sounding, act ≠ .stroke sounding) ∧ Quiet composer after ∧ after.score.beat = composer.score.beat ∧
        after.score.events = composer.score.events) := by
  by_cases hact : ∃ sounding, act = .stroke sounding
  · obtain ⟨sounding, rfl⟩ := hact
    cases hstepped with
    | stroke _ hstroke => exact .inl ⟨sounding, rfl, hstroke⟩
  · have hother : ∀ sounding, act ≠ .stroke sounding := not_exists.1 hact
    have hquiet := (hstepped.stroke_or_quiet hunder).resolve_left fun hstroke => hact (hstroke.imp fun _ => And.left)
    exact .inr ⟨hother, hquiet.2, hstepped.counts hunder hother⟩

/-- An act counts an event just if it is a drawing stroke along the time axis. -/
theorem Stepped.events {behind : List Char} {act : Act} {outcome : Nat}
    (hstepped : Stepped composer behind act depth outcome after) (hunder : Underway depth composer) :
    after.score.events = composer.score.events + if act = .stroke true then 1 else 0 := by
  obtain ⟨sounding, rfl, hstroke⟩ | ⟨hother, _, _, hevents⟩ := hstepped.stroke_or_still hunder
  · simpa using horizontalStroke_events hunder.fit.valid hstroke
  · rw [hevents, if_neg (hother true), Nat.add_zero]

theorem Stepped.clocked {behind : List Char} {act : Act} {outcome : Nat}
    (hstepped : Stepped composer behind act depth outcome after) (hunder : Underway depth composer)
    (hclocked : composer.score.Clocked) : after.score.Clocked := by
  obtain ⟨sounding, _, hstroke⟩ | ⟨_, hquiet, hbeat, _⟩ := hstepped.stroke_or_still hunder
  · exact horizontalStroke_clocked hunder hclocked hstroke
  · obtain ⟨marks, hwritten, hmarks⟩ := hquiet.written
    constructor
    · rw [hquiet.position, hwritten, span_marks fun mark hmark => (hmarks mark hmark).1]
      exact hclocked.position
    · rw [hbeat, hquiet.position]
      exact hclocked.beat

omit [Source σ W] in
theorem begun_clocked (composer : Composer σ W) : composer.begun.score.Clocked := by
  constructor <;> simp [begun, Score.start, Score.append, Score.reset, span, Token.span]

/-! ### Headings -/

omit [Source σ W] [Weight W] in
theorem strokeAct_eq_stroke_iff (composer : Composer σ W) (sounding : Bool) :
    composer.strokeAct sounding = .stroke sounding ↔ composer.turtle.direction.isHorizontal = true := by
  rw [strokeAct]
  split
  · next hhorizontal => simp [hhorizontal]
  · next hhorizontal => split <;> simp [hhorizontal]

omit [Source σ W] [Weight W] in
/-- Only the drawing character makes drawing strokes, and only under a horizontal heading. -/
theorem act_eq_draw_iff (composer : Composer σ W) (symbol : Char) :
    composer.act symbol = .stroke true ↔ symbol = 'g' ∧ composer.turtle.direction.isHorizontal = true := by
  have hdrawing : composer.act 'g' = .stroke true ↔ composer.turtle.direction.isHorizontal = true :=
    composer.strokeAct_eq_stroke_iff true
  constructor
  · intro hact
    have hcomes := composer.act_comesTo symbol
    rw [hact] at hcomes
    cases hcomes with
    | draw hdraw =>
      subst hdraw
      exact ⟨rfl, hdrawing.1 hact⟩
  · rintro ⟨rfl, hhorizontal⟩
    exact hdrawing.2 hhorizontal

omit [Source σ W] [Weight W] in
theorem act_ne_turn (composer : Composer σ W) {symbol : Char} (hplus : symbol ≠ '+') (hminus : symbol ≠ '-') (times : Int) :
    composer.act symbol ≠ .turn times := by
  intro hact
  have hcomes := composer.act_comesTo symbol
  rw [hact] at hcomes
  cases hcomes with
  | turn _ hturn => exact hturn.elim hplus hminus

/-- The headings under which the drawing characters of a text find the turtle. -/
def headingsFrom (behind : List Char) (composer : Composer σ W) (index : Nat) : List Char → List Direction
  | [] => []
  | symbol :: rest =>
    match composer.step index symbol (rest ++ behind) with
    | .error _ => []
    | .ok (after, _) =>
      (if symbol = 'g' then [composer.turtle.direction] else []) ++ headingsFrom behind after (index + 1) rest

/-- The headings under which the drawing characters find the turtle in a pass up to some place of its production. -/
def headingsOf (composer : Composer σ W) (before behind : List Char) : List Direction :=
  match composer.begin with
  | .error _ => []
  | .ok (begun, _) => headingsFrom behind begun 0 before

variable {behind text : List Char} {index : Nat}

theorem length_headingsFrom (hwalk : walkOver behind composer index text = .ok after) :
    (headingsFrom behind composer index text).length = text.count 'g' := by
  induction text generalizing composer index with
  | nil => rfl
  | cons symbol rest ih =>
    obtain ⟨⟨now, reports⟩, hstep, hrest⟩ := Except.bind_eq_ok_iff.1 hwalk
    rw [headingsFrom, hstep]
    dsimp only
    rw [List.length_append, ih hrest, List.count_cons, Nat.add_comm]
    by_cases hdraw : symbol = 'g' <;> simp [hdraw]

/-- A pass over some characters counts the drawing ones that find the turtle under a horizontal heading. -/
theorem headingsFrom_events (hunder : Underway depth composer) (hclosing : Closing depth (text ++ behind))
    (hwalk : walkOver behind composer index text = .ok after) :
    after.score.events = composer.score.events + (headingsFrom behind composer index text).countP (·.isHorizontal) := by
  induction text generalizing composer depth index with
  | nil =>
    cases hwalk
    rfl
  | cons symbol rest ih =>
    obtain ⟨⟨now, reports⟩, hstep, hrest⟩ := Except.bind_eq_ok_iff.1 hwalk
    have hstepped := stepped_of_carryOut hclosing (step_ok hunder.handlers hstep)
    rw [ih (hstepped.underway hunder) hclosing.tail hrest, hstepped.events hunder, headingsFrom, hstep]
    dsimp only
    rw [List.countP_append, Nat.add_assoc]
    by_cases hdraw : symbol = 'g' <;> simp [act_eq_draw_iff, hdraw]

/-! ### Half turns -/

omit [Source σ W] [Weight W] in
/-- Every pose that the turtle is in or goes back to heads along the time axis. -/
def Level (composer : Composer σ W) : Prop :=
  ∀ pose ∈ composer.turtle.pose :: composer.turtle.outer, 180 ∣ pose.yaw ∧ pose.angle = composer.config.angle

omit [Source σ W] [Weight W] in
theorem Level.isHorizontal (hlevel : composer.Level) : composer.turtle.direction.isHorizontal = true := by
  have hyaw := (hlevel _ List.mem_cons_self).1
  have hheading : composer.turtle.pose.yaw % 360 = 0 ∨ composer.turtle.pose.yaw % 360 = 180 := by omega
  rw [Turtle.direction, Pose.direction, Direction.ofYaw]
  rcases hheading with hheading | hheading <;> rw [hheading] <;> rfl

omit [Source σ W] [Weight W] in
theorem Level.of_sameHeading (hlevel : composer.Level) (hconfig : after.config = composer.config)
    (hyaw : after.turtle.pose.yaw = composer.turtle.pose.yaw) (hangle : after.turtle.pose.angle = composer.turtle.pose.angle)
    (houter : after.turtle.outer = composer.turtle.outer) : after.Level := by
  rw [Level, List.forall_mem_cons] at hlevel ⊢
  rw [hyaw, hangle, houter, hconfig]
  exact hlevel

theorem Stepped.level {act : Act} {outcome : Nat} (hstepped : Stepped composer behind act depth outcome after)
    (hunder : Underway depth composer) (hturns : (∀ times, act ≠ .turn times) ∨ 180 ∣ composer.config.angle)
    (hlevel : composer.Level) : after.Level := by
  cases hstepped with
  | idle => exact hlevel
  | turn times =>
    have hangle := hturns.resolve_left fun hnone => hnone times rfl
    rw [Level, List.forall_mem_cons] at hlevel ⊢
    obtain ⟨⟨hyaw, hsame⟩, houter⟩ := hlevel
    have hsum : 180 ∣ composer.turtle.pose.yaw + times * composer.turtle.pose.angle :=
      dvd_add hyaw ((hsame ▸ hangle).mul_left times)
    refine ⟨⟨?_, hsame⟩, houter⟩
    simp only [Turtle.turn, Turtle.setYaw]
    omega
  | stroke _ hstroke =>
    have hsame := horizontalStroke_sameSetting hstroke
    obtain ⟨stroke, chosen, score, hchosen, _, rfl⟩ := horizontalStroke_ok hstroke
    obtain ⟨beat, hadvance⟩ := advance_eq { chosen with score } stroke.length
    apply hlevel.of_sameHeading hsame.config
    all_goals
      rw [hadvance]
      dsimp only
      rw [(chooseStroke_chosen hchosen).turtle]
      rfl
  | stepPitch _ hstep =>
    obtain ⟨pitch, _, rfl⟩ := stepPitch_ok hstep
    exact hlevel.of_sameHeading rfl rfl rfl rfl
  | openBranch =>
    by_cases hbelow : depth < 255
    · rw [openBranch_eq hunder.branched hbelow]
      intro pose hpose
      apply hlevel
      simpa [Turtle.openScope] using hpose
    · rw [openBranch_flat hunder.branched (Nat.not_lt.1 hbelow)]
      exact hlevel.of_sameHeading rfl rfl rfl rfl
  | closeBranch _ hclose =>
    obtain ⟨pose, outer, _, houter, rfl⟩ | ⟨_, rfl⟩ := closeBranch_cases hunder.branched hclose
    · intro inner hinner
      exact hlevel inner (List.mem_cons_of_mem _ (houter ▸ hinner))
    · exact hlevel.of_sameHeading rfl rfl rfl rfl
  | shiftHue times =>
    rw [shiftHue_eq]
    exact hlevel.of_sameHeading rfl rfl rfl rfl

/-- Without turns, or with half turns only, the heading is always horizontal. -/
theorem headingsFrom_level (hunder : Underway depth composer) (hclosing : Closing depth (text ++ behind))
    (hlevel : composer.Level) (hturns : (∀ symbol ∈ text, symbol ≠ '+' ∧ symbol ≠ '-') ∨ 180 ∣ composer.config.angle)
    (hwalk : walkOver behind composer index text = .ok after) :
    ∀ heading ∈ headingsFrom behind composer index text, heading.isHorizontal = true := by
  induction text generalizing composer depth index with
  | nil => exact fun _ hheading => absurd hheading List.not_mem_nil
  | cons symbol rest ih =>
    obtain ⟨⟨now, reports⟩, hstep, hrest⟩ := Except.bind_eq_ok_iff.1 hwalk
    have hstepped := stepped_of_carryOut hclosing (step_ok hunder.handlers hstep)
    rw [List.forall_mem_cons] at hturns
    have hturn : (∀ times, composer.act symbol ≠ .turn times) ∨ 180 ∣ composer.config.angle :=
      hturns.imp_left fun hnone => composer.act_ne_turn hnone.1.1 hnone.1.2
    have hlater := ih (hstepped.underway hunder) hclosing.tail (hstepped.level hunder hturn hlevel)
      (by rw [hstepped.sameSetting.config]; exact hturns.imp_left And.right) hrest
    rw [headingsFrom, hstep]
    intro heading hheading
    rcases List.mem_append.1 hheading with hhere | hthere
    · by_cases hdraw : symbol = 'g'
      · rw [if_pos hdraw, List.mem_singleton] at hhere
        rw [hhere]
        exact hlevel.isHorizontal
      · rw [if_neg hdraw] at hhere
        exact absurd hhere List.not_mem_nil
    · exact hlater heading hthere

/-- A pass starts with the turtle heading along the time axis, whatever came before it. -/
theorem Reached.begun_level {config : Config} (hreached : Reached config composer) : composer.begun.Level := by
  obtain ⟨key, corpus, source, restart, _, hcomes⟩ := hreached.comesFrom
  have hturtle : composer.begun.turtle = (Turtle.make composer.config.angle config.hueStep {}).setY
      (Pitch.clampInto composer.config.low composer.config.high composer.score.key.tonic) :=
    congrArg (fun turtle : Turtle => turtle.setY _) (hcomes.home composer.config.angle)
  rw [Level, hturtle]
  intro pose hpose
  rw [Turtle.setY, Turtle.make, List.mem_singleton] at hpose
  rw [hpose]
  exact ⟨Int.dvd_zero 180, rfl⟩

variable [LawfulWeight W]

/-- Wherever a pass has come to, the clock shows the time that the tokens written take up, the beat is the quarter note the clock is in, and as many events are counted as drawing characters have found the turtle under a horizontal heading. Without turns before the place, or with half turns only, these are all drawing characters. At the end of the production the pass is done. -/
theorem clock_follows_strokes {config : Config} (hreached : Reached config composer)
    (hhandlers : composer.handlers = defaultHandlers) {before behind : List Char} (hnested : Nested (before ++ behind)) :
    ∃ now, composer.passTo before behind = .ok now ∧
      now.score.position = span now.score.tokens ∧
      (now.score.beat : Int) = 1 + now.score.position / 32 % 4 ∧
      (composer.headingsOf before behind).length = before.count 'g' ∧
      now.score.events = (composer.headingsOf before behind).countP (·.isHorizontal) ∧
      ((∀ symbol ∈ before, symbol ≠ '+' ∧ symbol ≠ '-') ∨ config.angle % 180 = 0 →
        now.score.events = before.count 'g') ∧
      (behind = [] → ∃ reports, composer.compose before = ⟨now, ⟨reports, .ok ()⟩⟩) := by
  obtain ⟨hfit, hconfig⟩ := hreached.fitWith
  have hbegun := begun_underway hfit hhandlers
  obtain ⟨now, hpass, hwalk, _⟩ := passTo_isOk hfit hhandlers hnested
  obtain ⟨told, hbegin⟩ := begin_eq_ok hfit.valid
  have hclosing : Closing 0 (before ++ behind) := hnested
  have hclocked := (walkOver_keeps (fun _ now => now.score.Clocked)
    (fun hunder hstepped hclocked => hstepped.clocked hunder hclocked) hbegun hclosing hwalk (begun_clocked composer)).2
  have hheadings : composer.headingsOf before behind = headingsFrom behind composer.begun 0 before := by
    rw [headingsOf, hbegin]
  have hlength := length_headingsFrom hwalk
  have hevents := headingsFrom_events hbegun hclosing hwalk
  rw [show composer.begun.score.events = 0 from rfl, Nat.zero_add] at hevents
  rw [hheadings]
  refine ⟨now, hpass, ?_, hclocked.beat, hlength, hevents, fun hturns => ?_, ?_⟩
  · rw [Score.tokens, span_reverse]
    exact hclocked.position
  · have hangle : (∀ symbol ∈ before, symbol ≠ '+' ∧ symbol ≠ '-') ∨ 180 ∣ composer.begun.config.angle :=
      hturns.imp_right fun hhalf => Int.dvd_of_emod_eq_zero (show composer.config.angle % 180 = 0 from hconfig ▸ hhalf)
    rw [hevents, List.countP_eq_length.2 (headingsFrom_level hbegun hclosing hreached.begun_level hangle hwalk), hlength]
  · rintro rfl
    rw [List.append_nil] at hnested
    exact compose_of_passTo ((checkBrackets_eq_ok_iff before).2 hnested) hpass

/-- Without turns every drawing character counts, be it in a branch, and notes and rests take up the time on the clock. -/
theorem clock_follows_strokes_unturned :
    ∃ composer now : Composer (Script Float) Float, Reached { markov := true } composer ∧ composer.corpus.isSome ∧
      composer.passTo "g#g[rXg".toList "g]".toList = .ok now ∧ now.score.position = span now.score.tokens ∧
      (now.score.beat : Int) = 1 + now.score.position / 32 % 4 ∧ now.score.events = 3 := by
  have hnested : Nested ("g#g[rXg".toList ++ "g]".toList) := by decide
  obtain ⟨composer, hreached, hhandlers, hcorpus⟩ := exists_reached_markov
  obtain ⟨now, hnow, hposition, hbeat, _, _, hcount, _⟩ := clock_follows_strokes hreached hhandlers hnested
  exact ⟨composer, now, hreached, hcorpus, hnow, hposition, hbeat, hcount (.inl (by simp))⟩

end Composer

end TurtleMusic
