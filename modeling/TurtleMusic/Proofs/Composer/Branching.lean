import TurtleMusic.Proofs.Composer.Setting

/-!
# Branches at every depth

How many branches are open settles the rest: which kinds of branches they are, how many voices and layers there are and how many scopes the turtle has. Sixteen layers make a voice, the sixteenth voice runs out of layers at 255 branches, and branches opened beyond that share its last layer.
-/

namespace TurtleMusic.Composer

variable {σ W : Type} {composer : Composer σ W} {depth : Nat}

/-- The kind of a branch that is opened inside this many others. -/
def branchAt (depth : Nat) : Branch :=
  if 255 ≤ depth then .flat else if depth % 16 = 15 then .voice else .layer

/-- The kinds of this many branches, innermost first. -/
def branchesAt : (depth : Nat) → List Branch
  | 0 => []
  | depth + 1 => branchAt depth :: branchesAt depth

/-- Branches, voices, layers and scopes are those of this many open branches. -/
structure Branched (depth : Nat) (composer : Composer σ W) : Prop where
  branches : composer.branches = branchesAt depth
  voices : composer.score.voices = (min depth 255 / 16 : Nat) + 1
  layers : composer.score.layers = (min depth 255 % 16 : Nat) + 1
  outer : composer.turtle.outer.length = min depth 255

theorem Branched.of_same {after : Composer σ W} (hbranched : Branched depth composer)
    (hbranches : after.branches = composer.branches) (hvoices : after.score.voices = composer.score.voices)
    (hlayers : after.score.layers = composer.score.layers) (houter : after.turtle.outer = composer.turtle.outer) :
    Branched depth after :=
  ⟨hbranches.trans hbranched.branches, hvoices.trans hbranched.voices, hlayers.trans hbranched.layers,
    houter ▸ hbranched.outer⟩

/-! ### Opening -/

/-- The tokens that open a branch inside this many others, newest first. -/
def openingMarks (depth : Nat) (instrument : Int) : List Token :=
  if depth % 16 = 15 then [.layer 0, .instrument instrument, .voice ((depth + 1) / 16 : Nat)]
  else [.layer ((depth + 1) % 16 : Nat)]

theorem openingMarks_plain (depth : Nat) (instrument : Int) :
    ∀ mark ∈ openingMarks depth instrument, mark.IsMark ∧ mark ≠ .measure := by
  rw [openingMarks]
  split <;> simp [Token.IsMark]

theorem setVoices_of_mem {voices : Int} (hpos : 0 < voices) (hmax : voices ≤ Score.maxVoices) (score : Score) :
    score.setVoices voices = { score with voices := voices } :=
  if_pos ⟨hpos, hmax⟩

theorem setLayers_of_mem {layers : Int} (hpos : 0 < layers) (hmax : layers ≤ Score.maxLayers) (score : Score) :
    score.setLayers layers = { score with layers := layers } :=
  if_pos ⟨hpos, hmax⟩

theorem openBranch_eq (hbranched : Branched depth composer) (hbelow : depth < 255) :
    composer.openBranch = { composer with
      turtle := composer.turtle.openScope
      score := { composer.score with
        written := openingMarks depth composer.score.instrument ++ composer.score.written
        voices := ((depth + 1) / 16 : Nat) + 1
        layers := ((depth + 1) % 16 : Nat) + 1 }
      branches := branchesAt (depth + 1) } := by
  obtain ⟨hbranches, hvoices, hlayers, _⟩ := hbranched
  rw [show min depth 255 = depth by omega] at hvoices hlayers
  rw [branchesAt, branchAt, if_neg (Nat.not_le.2 hbelow), openingMarks, ← hbranches]
  have hmaxVoices : Score.maxVoices = 16 := rfl
  have hmaxLayers : Score.maxLayers = 16 := rfl
  by_cases hlast : depth % 16 = 15
  · have hfull : ¬composer.score.layers < Score.maxLayers := by omega
    have hroom : composer.score.voices < Score.maxVoices := by omega
    have hvoice : composer.score.voices = ((depth + 1) / 16 : Nat) := by omega
    have hlayer : ((depth + 1) % 16 : Nat) = 0 := by omega
    have hvoicesPos : 0 < composer.score.voices + 1 := by omega
    refine ((if_neg hfull).trans (if_pos hroom)).trans ?_
    dsimp only
    rw [setVoices_of_mem hvoicesPos (Int.add_one_le_of_lt hroom), setLayers_of_mem (by decide) (by decide),
      if_pos hlast, if_pos hlast, hlayer, ← hvoice]
    rfl
  · have hroom : composer.score.layers < Score.maxLayers := by omega
    have hvoice : composer.score.voices = ((depth + 1) / 16 : Nat) + 1 := by omega
    have hlayer : composer.score.layers = ((depth + 1) % 16 : Nat) := by omega
    have hlayersPos : 0 < composer.score.layers + 1 := by omega
    refine (if_pos hroom).trans ?_
    rw [setLayers_of_mem hlayersPos (Int.add_one_le_of_lt hroom), if_neg hlast, if_neg hlast, ← hvoice, ← hlayer]
    rfl

theorem openBranch_flat (hbranched : Branched depth composer) (habove : 255 ≤ depth) :
    composer.openBranch = { composer with branches := branchesAt (depth + 1) } := by
  obtain ⟨hbranches, hvoices, hlayers, _⟩ := hbranched
  rw [show min depth 255 = 255 by omega] at hvoices hlayers
  have hmaxVoices : Score.maxVoices = 16 := rfl
  have hmaxLayers : Score.maxLayers = 16 := rfl
  rw [branchesAt, branchAt, if_pos habove, ← hbranches]
  exact (if_neg (by omega)).trans (if_neg (by omega))

theorem openBranch_branched (hbranched : Branched depth composer) : Branched (depth + 1) composer.openBranch := by
  by_cases hbelow : depth < 255
  · rw [openBranch_eq hbranched hbelow]
    have hmin : min (depth + 1) 255 = depth + 1 := by omega
    refine ⟨rfl, by rw [hmin], by rw [hmin], ?_⟩
    have houter := hbranched.outer
    simp only [Turtle.openScope, List.length_cons]
    omega
  · rw [openBranch_flat hbranched (Nat.not_lt.1 hbelow)]
    have hmin : min (depth + 1) 255 = min depth 255 := by omega
    exact ⟨rfl, hmin ▸ hbranched.voices, hmin ▸ hbranched.layers, hmin ▸ hbranched.outer⟩

theorem openBranch_marks (hbranched : Branched depth composer) :
    ∃ marks, composer.openBranch.score.written = marks ++ composer.score.written ∧
      ∀ mark ∈ marks, mark.Composed ∧ mark.IsMark := by
  by_cases hbelow : depth < 255
  · refine ⟨openingMarks depth composer.score.instrument, by rw [openBranch_eq hbranched hbelow], ?_⟩
    rw [openingMarks]
    split <;> simp [Token.Composed, Token.IsMark]
  · exact ⟨[], by rw [openBranch_flat hbranched (Nat.not_lt.1 hbelow)]; rfl, by simp⟩

/-! ### Closing -/

/-- The tokens that go back to this many branches, newest first. -/
def closingMarks (depth : Nat) : List Token :=
  if depth % 16 = 15 then [.layer (depth % 16 : Nat), .voice (depth / 16 : Nat)] else [.layer (depth % 16 : Nat)]

theorem closingMarks_plain (depth : Nat) : ∀ mark ∈ closingMarks depth, mark.IsMark ∧ mark ≠ .measure := by
  rw [closingMarks]
  split <;> simp [Token.IsMark]

theorem closeScope_eq {pose : Pose} {outer : List Pose} (houter : composer.turtle.outer = pose :: outer) :
    composer.closeScope = .ok { composer with
      turtle := { composer.turtle with pose := pose, outer := outer }
      score := { composer.score with degree := composer.heightDegree pose.y } } := by
  rw [closeScope, Turtle.closeScope_of_cons houter]
  rfl

theorem closeBranch_eq (hbranched : Branched (depth + 1) composer) (hbelow : depth < 255) :
    ∃ pose outer, composer.turtle.outer = pose :: outer ∧
      composer.closeBranch = .ok { composer with
        turtle := { composer.turtle with pose := pose, outer := outer }
        score := { composer.score with
          degree := composer.heightDegree pose.y
          written := closingMarks depth ++ composer.score.written
          voices := (depth / 16 : Nat) + 1
          layers := (depth % 16 : Nat) + 1 }
        branches := branchesAt depth } := by
  obtain ⟨hbranches, hvoices, hlayers, hscopes⟩ := hbranched
  rw [show min (depth + 1) 255 = depth + 1 by omega] at hvoices hlayers hscopes
  obtain ⟨pose, outer, houter⟩ := List.exists_cons_of_length_eq_add_one hscopes
  refine ⟨pose, outer, houter, ?_⟩
  have hmaxVoices : Score.maxVoices = 16 := rfl
  have hmaxLayers : Score.maxLayers = 16 := rfl
  rw [branchesAt, branchAt, if_neg (Nat.not_le.2 hbelow)] at hbranches
  have hclosed : ({ composer with branches := branchesAt depth } : Composer σ W).closeScope = .ok _ :=
    closeScope_eq houter
  rw [closeBranch, hbranches, closingMarks]
  by_cases hlast : depth % 16 = 15
  · have hvoice : composer.score.voices - 1 = (depth / 16 : Nat) + 1 := by omega
    have hvoicesMax : ((depth / 16 : Nat) : Int) + 1 ≤ Score.maxVoices := by omega
    rw [if_pos hlast, if_pos hlast]
    dsimp only
    rw [hclosed, Except.map, hvoice, setVoices_of_mem (by omega) hvoicesMax, setLayers_of_mem (by decide) (by decide), hlast]
    simp only [Score.append, Int.add_sub_cancel]
    rfl
  · have hlayer : composer.score.layers - 1 = (depth % 16 : Nat) + 1 := by omega
    have hlayersMax : ((depth % 16 : Nat) : Int) + 1 ≤ Score.maxLayers := by omega
    have hvoice : composer.score.voices = (depth / 16 : Nat) + 1 := by omega
    rw [if_neg hlast, if_neg hlast]
    dsimp only
    rw [hclosed, Except.map, hlayer, setLayers_of_mem (by omega) hlayersMax, ← hvoice]
    simp only [Score.append, Int.add_sub_cancel]
    rfl

theorem closeBranch_flat (hbranched : Branched (depth + 1) composer) (habove : 255 ≤ depth) :
    composer.closeBranch = .ok { composer with branches := branchesAt depth } := by
  have hbranches := hbranched.branches
  rw [branchesAt, branchAt, if_pos habove] at hbranches
  rw [closeBranch, hbranches]

/-- Closing a branch leads back to the pose and the slot it was opened in; one without a slot of its own is just closed. -/
theorem closeBranch_cases {after : Composer σ W} (hbranched : Branched (depth + 1) composer)
    (hclose : composer.closeBranch = .ok after) :
    (∃ pose outer, depth < 255 ∧ composer.turtle.outer = pose :: outer ∧ after = { composer with
        turtle := { composer.turtle with pose := pose, outer := outer }
        score := { composer.score with
          degree := composer.heightDegree pose.y
          written := closingMarks depth ++ composer.score.written
          voices := (depth / 16 : Nat) + 1
          layers := (depth % 16 : Nat) + 1 }
        branches := branchesAt depth }) ∨
      255 ≤ depth ∧ after = { composer with branches := branchesAt depth } := by
  by_cases hbelow : depth < 255
  · obtain ⟨pose, outer, houter, heq⟩ := closeBranch_eq hbranched hbelow
    cases heq.symm.trans hclose
    exact .inl ⟨pose, outer, hbelow, houter, rfl⟩
  · have habove := Nat.not_lt.1 hbelow
    cases (closeBranch_flat hbranched habove).symm.trans hclose
    exact .inr ⟨habove, rfl⟩

theorem closeBranch_branched {after : Composer σ W} (hbranched : Branched (depth + 1) composer)
    (hclose : composer.closeBranch = .ok after) : Branched depth after := by
  obtain ⟨pose, outer, hbelow, houter, rfl⟩ | ⟨habove, rfl⟩ := closeBranch_cases hbranched hclose
  · have hmin : min depth 255 = depth := by omega
    have hscopes := hbranched.outer
    rw [houter, List.length_cons] at hscopes
    exact ⟨rfl, by rw [hmin], by rw [hmin], by dsimp only; omega⟩
  · have hmin : min (depth + 1) 255 = min depth 255 := by omega
    exact ⟨rfl, hmin ▸ hbranched.voices, hmin ▸ hbranched.layers, hmin ▸ hbranched.outer⟩

theorem closeBranch_marks {after : Composer σ W} (hbranched : Branched (depth + 1) composer) (hclose : composer.closeBranch = .ok after) :
    ∃ marks, after.score.written = marks ++ composer.score.written ∧ ∀ mark ∈ marks, mark.Composed ∧ mark.IsMark := by
  obtain ⟨pose, outer, _, _, rfl⟩ | ⟨_, rfl⟩ := closeBranch_cases hbranched hclose
  · refine ⟨closingMarks depth, rfl, ?_⟩
    rw [closingMarks]
    split <;> simp [Token.Composed, Token.IsMark]
  · exact ⟨[], rfl, by simp⟩

theorem closeBranch_isOk (hbranched : Branched (depth + 1) composer) : ∃ after, composer.closeBranch = .ok after := by
  by_cases hbelow : depth < 255
  · obtain ⟨pose, outer, _, heq⟩ := closeBranch_eq hbranched hbelow
    exact ⟨_, heq⟩
  · exact ⟨_, closeBranch_flat hbranched (Nat.not_lt.1 hbelow)⟩

end TurtleMusic.Composer
