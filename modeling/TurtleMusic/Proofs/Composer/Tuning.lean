import TurtleMusic.Proofs.Composer.Setting
import TurtleMusic.Proofs.Composer.Settings
import TurtleMusic.Proofs.Pitch.Degree

/-!
# Pitches a composer may write

Five ways lead to a pitch: the start of a pass, a diatonic step, the corpus, the end of a branch and a chord. Each leaves the turtle on a pitch of the range, with the degree that belongs to it; and as long as no corpus has a say, on a pitch of the scale.
-/

namespace TurtleMusic.Composer

open TurtleMusic.Number TurtleMusic.Chance

variable {σ W : Type} [Weight W] {composer before after : Composer σ W}

/-- The pitch lies in the range, and on the scale if no corpus has a say. -/
structure Allowed (composer : Composer σ W) (pitch : Int) : Prop where
  low : composer.config.low ≤ pitch
  high : pitch ≤ composer.config.high
  scale : composer.config.markov = false ∨ composer.corpus = none → InScale composer.score.keyClass.toPitch pitch

omit [Weight W] in
theorem SameSetting.keyClass (hsame : SameSetting before after) : after.score.keyClass = before.score.keyClass :=
  congrArg Key.tonicClass hsame.key

omit [Weight W] in
theorem SameSetting.allowed (hsame : SameSetting before after) {pitch : Int} (hallowed : before.Allowed pitch) :
    after.Allowed pitch := by
  refine ⟨?_, ?_, ?_⟩
  · rw [hsame.config]
    exact hallowed.low
  · rw [hsame.config]
    exact hallowed.high
  · rw [hsame.config, hsame.corpus, hsame.keyClass]
    exact hallowed.scale

/-- Pitch and degree belong together, here and in the scopes around. -/
structure Tuned (composer : Composer σ W) : Prop where
  height : composer.Allowed composer.turtle.pose.y
  degree : composer.score.degree = composer.heightDegree composer.turtle.pose.y
  outer : ∀ pose ∈ composer.turtle.outer, composer.Allowed pose.y

/-- The tokens are such as composing writes, and their pitches such as may be written. -/
structure Scored (composer : Composer σ W) : Prop where
  composed : ∀ token ∈ composer.score.written, token.Composed
  pitches : ∀ token ∈ composer.score.written, ∀ pitch ∈ token.pitches, composer.Allowed pitch

omit [Weight W] in
/-- What keeps height and degree and opens at most a scope at the same pose keeps the tuning. -/
theorem Tuned.of_sameHeight (htuned : before.Tuned) (hsame : SameSetting before after)
    (hheight : after.turtle.pose.y = before.turtle.pose.y) (hdegree : after.score.degree = before.score.degree)
    (houter : ∀ pose ∈ after.turtle.outer, pose = before.turtle.pose ∨ pose ∈ before.turtle.outer) : after.Tuned where
  height := hheight ▸ hsame.allowed htuned.height
  degree := by rw [hdegree, hheight, htuned.degree, heightDegree, heightDegree, hsame.keyClass]
  outer := by
    intro pose hpose
    rcases houter pose hpose with rfl | hbefore
    · exact hsame.allowed htuned.height
    · exact hsame.allowed (htuned.outer pose hbefore)

omit [Weight W] in
/-- Going back to a pose of the scopes around keeps the tuning if the degree is found anew. -/
theorem Tuned.of_scope (htuned : before.Tuned) (hsame : SameSetting before after)
    (houter : before.turtle.outer = after.turtle.pose :: after.turtle.outer)
    (hdegree : after.score.degree = after.heightDegree after.turtle.pose.y) : after.Tuned where
  height := hsame.allowed (htuned.outer _ (houter ▸ List.mem_cons_self))
  degree := hdegree
  outer pose hpose := hsame.allowed (htuned.outer pose (houter ▸ List.mem_cons_of_mem _ hpose))

omit [Weight W] in
/-- Marks keep a score in order. -/
theorem Scored.of_marks (hscored : before.Scored) (hsame : SameSetting before after) {marks : List Token}
    (hwritten : after.score.written = marks ++ before.score.written)
    (hmarks : ∀ mark ∈ marks, mark.Composed ∧ mark.IsMark) : after.Scored := by
  constructor
  · intro token htoken
    rw [hwritten, List.mem_append] at htoken
    exact htoken.elim (fun hmark => (hmarks token hmark).1) (hscored.composed token)
  · intro token htoken pitch hpitch
    rw [hwritten, List.mem_append] at htoken
    rcases htoken with hmark | hbefore
    · rw [(hmarks token hmark).2.pitches_eq] at hpitch
      exact absurd hpitch List.not_mem_nil
    · exact hsame.allowed (hscored.pitches token hbefore pitch hpitch)

omit [Weight W] in
theorem Scored.of_sameTokens (hscored : before.Scored) (hsame : SameSetting before after)
    (hwritten : after.score.written = before.score.written) : after.Scored :=
  hscored.of_marks hsame (hwritten.trans (List.nil_append _).symm) fun _ hmark => absurd hmark List.not_mem_nil

/-! ### The start of a pass -/

omit [Weight W] in
theorem allowed_tonic (hvalid : composer.config.Valid) :
    composer.Allowed (Pitch.clampInto composer.config.low composer.config.high composer.score.key.tonic) := by
  obtain ⟨hlow, hhigh⟩ := Pitch.clampInto_mem hvalid.span composer.score.key.tonic
  refine ⟨hlow, hhigh, fun _ => inScale_tonic _ ?_⟩
  rw [Pitch.clampInto_emod]
  exact composer.score.key.tonic_emod

/-! ### Diatonic steps -/

omit [Weight W] in
theorem stepPitch_tuned {up : Bool} (hvalid : composer.config.Valid) (htuned : composer.Tuned)
    (hstep : composer.stepPitch up = .ok after) : after.Tuned := by
  obtain ⟨pitch, hpitch, rfl⟩ := stepPitch_ok hstep
  rw [Pitch.wrap_eq_ok hvalid.span, Except.ok.injEq] at hpitch
  subst hpitch
  have hdegree : composer.score.degree = Degree.ofPitch composer.turtle.pose.y composer.score.keyClass.toPitch :=
    htuned.degree
  have hclass := Pitch.wrapInto_emod composer.config.low composer.config.high
    (Degree.step composer.turtle.pose.y composer.score.degree up).1
  obtain ⟨hlow, hhigh⟩ := Pitch.wrapInto_mem hvalid.span (Degree.step composer.turtle.pose.y composer.score.degree up).1
  refine ⟨⟨hlow, hhigh, fun hplain => ?_⟩, ?_, fun pose hpose => ?_⟩
  · refine InScale.of_emod_eq ?_ hclass
    rw [hdegree]
    exact Degree.step_inScale (htuned.height.scale hplain) up
  · change (Degree.step composer.turtle.pose.y composer.score.degree up).2 =
      Degree.ofPitch (Pitch.wrapInto _ _ (Degree.step composer.turtle.pose.y composer.score.degree up).1)
        composer.score.keyClass.toPitch
    rw [Degree.ofPitch_of_emod_eq hclass, hdegree]
    exact Degree.step_ofPitch _ _ up
  · obtain ⟨hposeLow, hposeHigh, hposeScale⟩ := htuned.outer pose hpose
    exact ⟨hposeLow, hposeHigh, hposeScale⟩

/-! ### Strokes -/

variable [Source σ W]

/-- Where there is a corpus to follow and chance rules, only the range has to be kept. -/
theorem followCorpus_tuned (hvalid : composer.config.Valid) (hmarkov : composer.config.markov = true)
    (htuned : composer.Tuned) (hfollow : composer.followCorpus = .ok after) : after.Tuned := by
  have hsame := (followCorpus_chosen hfollow).sameSetting
  obtain ⟨source, _, rfl⟩ | ⟨corpus, source, pitch, pitchClass, hcorpus, _, hpitch, rfl⟩ := followCorpus_ok hfollow
  · exact htuned.of_sameHeight hsame rfl rfl fun pose hpose => .inr hpose
  · rw [Pitch.nearest_eq_ok hvalid.span, Except.ok.injEq] at hpitch
    obtain ⟨hlow, hhigh⟩ := Pitch.clampInto_mem hvalid.span
      (Pitch.nearestUnbounded composer.turtle.pose.y pitchClass.toPitch (some composer.config.high))
    rw [hpitch] at hlow hhigh
    refine ⟨⟨hlow, hhigh, fun hplain => ?_⟩, rfl, fun pose hpose => hsame.allowed (htuned.outer pose hpose)⟩
    rcases hplain with hplain | hnone
    · exact absurd (hmarkov.symm.trans hplain) (by decide)
    · rw [hnone] at hcorpus
      cases hcorpus

/-- The tones of a chord are tones of the scale, brought into the range. -/
theorem chooseChord_allowed {progression : Progression} {length : Int} {stroke : Stroke} (hvalid : composer.config.Valid)
    (hchoose : composer.chooseChord progression length = .ok (stroke, after)) :
    ∀ pitch ∈ stroke.pitches, composer.Allowed pitch := by
  obtain ⟨chosen, source, tones, _, htones, rfl, _⟩ := chooseChord_ok hchoose
  rw [ScaleChord.triad_eq_ok _ _ _ hvalid.span, Except.ok.injEq] at htones
  intro pitch hpitch
  have hmem := List.mem_of_mem_take hpitch
  rw [← htones] at hmem
  obtain ⟨tone, htone, rfl⟩ := List.mem_map.1 hmem
  obtain ⟨hlow, hhigh⟩ := Pitch.clampInto_mem hvalid.span tone
  exact ⟨hlow, hhigh, fun _ => (ScaleChord.openTones_inScale _ _ _ tone htone).of_emod_eq (Pitch.clampInto_emod _ _ tone)⟩

theorem takeLength_height (composer : Composer σ W) :
    composer.takeLength.2.turtle = composer.turtle ∧ composer.takeLength.2.score.degree = composer.score.degree := by
  rw [takeLength]
  split
  · split
    · refine ⟨rfl, ?_⟩
      simp only [startMeasure]
      split <;> rfl
    · exact ⟨rfl, rfl⟩
  · exact ⟨rfl, rfl⟩

theorem takeLength_tuned (htuned : composer.Tuned) : composer.takeLength.2.Tuned := by
  obtain ⟨hturtle, hdegree⟩ := takeLength_height composer
  apply htuned.of_sameHeight (takeLength_chosen composer).sameSetting (by rw [hturtle]) hdegree
  exact fun pose hpose => .inr (hturtle ▸ hpose)

/-- What is chosen may be written, and leaves pitch and degree together. -/
theorem chooseStroke_tuned {sounding : Bool} {stroke : Stroke} (hvalid : composer.config.Valid) (htuned : composer.Tuned)
    (hchoose : composer.chooseStroke sounding = .ok (stroke, after)) :
    after.Tuned ∧ ∀ pitch ∈ stroke.pitches, after.Allowed pitch := by
  have htaken := takeLength_tuned htuned
  have htakenValid : composer.takeLength.2.config.Valid := (takeLength_chosen composer).config ▸ hvalid
  obtain ⟨_, hsound⟩ | ⟨_, rfl, rfl⟩ := chooseStroke_ok hchoose
  · have hsame := (chooseSound_chosen hsound).sameSetting
    obtain ⟨progression, _, _, hchord⟩ | ⟨hmarkov, _, hfollow, rfl⟩ | ⟨_, rfl, rfl⟩ := chooseSound_ok hsound
    · refine ⟨?_, fun pitch hpitch => hsame.allowed (chooseChord_allowed htakenValid hchord pitch hpitch)⟩
      obtain ⟨_, _, _, _, _, _, rfl⟩ := chooseChord_ok hchord
      exact htaken.of_sameHeight hsame rfl rfl fun pose hpose => .inr hpose
    · have hfollowed := followCorpus_tuned htakenValid hmarkov htaken hfollow
      exact ⟨hfollowed, fun pitch hpitch => List.mem_singleton.1 hpitch ▸ hfollowed.height⟩
    · exact ⟨htaken, fun pitch hpitch => List.mem_singleton.1 hpitch ▸ htaken.height⟩
  · exact ⟨htaken, fun pitch hpitch => absurd hpitch List.not_mem_nil⟩

theorem horizontalStroke_tuned {sounding : Bool} (hvalid : composer.config.Valid) (htuned : composer.Tuned)
    (hstroke : composer.horizontalStroke sounding = .ok after) : after.Tuned := by
  obtain ⟨stroke, chosen, score, hchosen, hwrite, rfl⟩ := horizontalStroke_ok hstroke
  have hsame := written_sameSetting hwrite stroke.length
  have hdegree := (Score.write_sameContext hwrite).degree
  obtain ⟨beat, hadvance⟩ := advance_eq { chosen with score } stroke.length
  rw [hadvance] at hsame ⊢
  exact (chooseStroke_tuned hvalid htuned hchosen).1.of_sameHeight hsame rfl hdegree fun pose hpose => .inr hpose

/-! ### Tokens -/

omit [Weight W] [Source σ W] in
theorem Chosen.scored (hchosen : Chosen before after) (hscored : before.Scored) : after.Scored := by
  obtain ⟨count, hwritten⟩ := hchosen.written
  apply hscored.of_marks hchosen.sameSetting hwritten
  intro mark hmark
  rw [List.eq_of_mem_replicate hmark]
  exact ⟨trivial, trivial⟩

theorem horizontalStroke_scored {sounding : Bool} (hvalid : composer.config.Valid) (htuned : composer.Tuned)
    (hscored : composer.Scored) (hstroke : composer.horizontalStroke sounding = .ok after) : after.Scored := by
  obtain ⟨stroke, chosen, score, hchosen, hwrite, rfl⟩ := horizontalStroke_ok hstroke
  have hbefore := (chooseStroke_chosen hchosen).scored hscored
  have hallowed := (chooseStroke_tuned hvalid htuned hchosen).2
  have hchosenValid : chosen.config.Valid := (chooseStroke_chosen hchosen).config ▸ hvalid
  have hwrites := Score.write_writes hbefore.composed hwrite
  have hsame := written_sameSetting hwrite stroke.length
  obtain ⟨beat, hadvance⟩ := advance_eq { chosen with score } stroke.length
  rw [hadvance] at hsame ⊢
  constructor
  · exact hwrites.composed hbefore.composed fun pitch hpitch =>
      Int.le_trans hchosenValid.low (hallowed pitch hpitch).low
  · intro token htoken pitch hpitch
    exact hsame.allowed (hwrites.pitches hbefore.pitches hallowed token htoken pitch hpitch)

end TurtleMusic.Composer
