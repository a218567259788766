import TurtleMusic.Proofs.Score.Reading

/-!
# Music apart from controllers

Controller values stand among the notes and rests of a score but take no time and choose no voice. Scores that differ only in them sound the same notes; and as long as their newest tokens are the same as well, a stroke is written into both alike.
-/

namespace TurtleMusic

/-! ### Tokens -/

def Token.isControl : Token → Bool
  | control _ _ => true
  | _ => false

/-- The tokens without the controller values. -/
def music (written : List Token) : List Token := written.filter fun token => !token.isControl

theorem music_cons (newest : Token) (older : List Token) :
    music (newest :: older) = if newest.isControl then music older else newest :: music older := by
  cases hcontrol : newest.isControl <;> simp [music, hcontrol]

theorem music_append (newer older : List Token) : music (newer ++ older) = music newer ++ music older :=
  List.filter_append newer older

/-- Tokens with the same music whose newest ones are the same. -/
structure Matched (written other : List Token) : Prop where
  sounding : music other = music written
  newest : other.head? = written.head?

theorem Matched.cons {older others : List Token} (hmusic : music others = music older) (newest : Token) :
    Matched (newest :: older) (newest :: others) :=
  ⟨by rw [music_cons, music_cons, hmusic], rfl⟩

/-- What is below the newest token has the same music as well. -/
theorem Matched.older {newest : Token} {older others : List Token} (hmatched : Matched (newest :: older) (newest :: others)) :
    music others = music older := by
  have hsounding := hmatched.sounding
  rw [music_cons, music_cons] at hsounding
  split at hsounding
  · exact hsounding
  · exact (List.cons.inj hsounding).2

theorem Matched.append {older others : List Token} (hmatched : Matched older others) (marks : List Token) :
    Matched (marks ++ older) (marks ++ others) := by
  induction marks with
  | nil => exact hmatched
  | cons mark rest ih => exact Matched.cons ih.sounding mark

/-! ### Writing -/

namespace Score

variable {score after : Score} {tokens : List Token}

theorem append_matched (hmatched : Matched score.written tokens) (token : Token) :
    Matched (score.append token).written (token :: tokens) :=
  Matched.cons hmatched.sounding token

/-- Where the newest tokens are the same, replacing them leaves the music the same. -/
theorem replaceNewest_matched (hmatched : Matched score.written tokens) {newest : Token} (hnewest : score.written.head? = some newest)
    (token : Token) : Matched (score.replaceNewest token).written (token :: tokens.tail) := by
  obtain ⟨older, holder⟩ := List.head?_eq_some_iff.1 hnewest
  obtain ⟨others, hothers⟩ := List.head?_eq_some_iff.1 (hmatched.newest.trans hnewest)
  rw [holder, hothers] at hmatched
  rw [replaceNewest, holder, hothers]
  exact Matched.cons hmatched.older token

theorem addNote_matched (hmatched : Matched score.written tokens) {pitch length : Int} {extend : Bool}
    (hwrite : score.addNote pitch length extend = .ok after) :
    ∃ later, ({ score with written := tokens } : Score).addNote pitch length extend = .ok { after with written := later } ∧
      Matched after.written later := by
  rw [addNote_eq] at hwrite ⊢
  obtain ⟨codes, hcodes, rfl⟩ := Except.map_eq_ok_iff.1 hwrite
  rw [hcodes, hmatched.newest]
  cases hlonger : score.written.head?.filter fun newest => extend && newest.solePitch? == some pitch with
  | none => exact ⟨_, rfl, append_matched hmatched _⟩
  | some newest =>
    obtain ⟨hnewest, _⟩ := Option.filter_eq_some_iff.1 hlonger
    exact ⟨_, rfl, replaceNewest_matched hmatched hnewest _⟩

theorem addRest_matched (hmatched : Matched score.written tokens) {length : Int}
    (hwrite : score.addRest length true = .ok after) :
    ∃ later, ({ score with written := tokens } : Score).addRest length true = .ok { after with written := later } ∧
      Matched after.written later := by
  rw [addRest_eq, if_pos rfl] at hwrite ⊢
  rw [hmatched.newest]
  cases hbefore : score.written.head?.bind Token.restUnits? with
  | none =>
    rw [hbefore] at hwrite
    obtain ⟨codes, hcodes, rfl⟩ := Except.map_eq_ok_iff.1 hwrite
    dsimp only
    rw [hcodes]
    exact ⟨_, rfl, append_matched hmatched _⟩
  | some before =>
    rw [hbefore] at hwrite
    obtain ⟨newest, hnewest, _⟩ := Option.bind_eq_some_iff.1 hbefore
    obtain ⟨codes, hcodes, rfl⟩ := Except.map_eq_ok_iff.1 hwrite
    dsimp only
    rw [hcodes]
    exact ⟨_, rfl, replaceNewest_matched hmatched hnewest _⟩

/-- A stroke is written alike into scores that differ in older controller values only. -/
theorem write_matched (hmatched : Matched score.written tokens) {stroke : Stroke} (hwrite : score.write stroke = .ok after) :
    ∃ later, ({ score with written := tokens } : Score).write stroke = .ok { after with written := later } ∧
      Matched after.written later := by
  cases stroke with
  | note pitch length extend =>
    obtain ⟨noted, hnote, rfl⟩ := Except.map_eq_ok_iff.1 hwrite
    obtain ⟨later, hlater, hkept⟩ := addNote_matched hmatched hnote
    exact ⟨later, Except.map_eq_ok_iff.2 ⟨_, hlater, rfl⟩, hkept⟩
  | harmony pitches length =>
    cases pitches with
    | nil => exact addRest_matched hmatched hwrite
    | cons first others =>
      rw [write, addHarmony_cons] at hwrite
      obtain ⟨codes, hcodes, rfl⟩ := Except.map_eq_ok_iff.1 hwrite
      refine ⟨_, ?_, append_matched hmatched _⟩
      rw [write, addHarmony_cons]
      exact Except.map_eq_ok_iff.2 ⟨codes, hcodes, rfl⟩
  | rest length => exact addRest_matched hmatched hwrite

end Score

/-! ### Reading -/

def Event.isNote (event : Event) : Bool :=
  match event.kind with
  | .note _ _ => true
  | _ => false

namespace Reading

theorem step_control {token : Token} (hcontrol : token.isControl = true) (reading : Reading) :
    (reading.step token).1.filter Event.isNote = [] ∧ (reading.step token).2 = reading := by
  cases token with
  | control => exact ⟨rfl, rfl⟩
  | _ => cases hcontrol

theorem through_music (written : List Token) : through (music written) = through written := by
  induction written with
  | nil => rfl
  | cons newest older ih =>
    rw [music_cons]
    split
    · next hcontrol => exact ih.trans (step_control hcontrol (through older)).2.symm
    · rw [through, ih, through]

/-- Without the controller values the same notes are read. -/
theorem heard_music (written : List Token) :
    (heard (music written)).filter Event.isNote = (heard written).filter Event.isNote := by
  induction written with
  | nil => rfl
  | cons newest older ih =>
    rw [music_cons]
    split
    · next hcontrol =>
      rw [heard, List.filter_append, (step_control hcontrol (through older)).1, List.append_nil, ih]
    · rw [heard, heard, through_music, List.filter_append, List.filter_append, ih]

end Reading

end TurtleMusic
