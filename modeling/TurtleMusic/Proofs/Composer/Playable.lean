import TurtleMusic.Proofs.Composer.Totality

/-!
# Pitch and degree through a pass

Wherever a pass has come to, the turtle stands on a pitch of the range and the score knows its degree. So do all pitches written on the way lie in the range, and on the scale as long as no corpus has a say.
-/

namespace TurtleMusic.Composer

open TurtleMusic.Number TurtleMusic.Chance TurtleMusic.Grammar

variable {σ W : Type} [Weight W] [Source σ W] [LawfulWeight W] {composer : Composer σ W}

theorem pitches_playable {config : Config} (hreached : Reached config composer)
    (hhandlers : composer.handlers = defaultHandlers) {before behind : List Char} (hnested : Nested (before ++ behind)) :
    ∃ now, composer.passTo before behind = .ok now ∧
      (config.low ≤ now.turtle.pose.y ∧ now.turtle.pose.y ≤ config.high) ∧
      now.score.degree = Degree.ofPitch now.turtle.pose.y now.score.keyClass.toPitch ∧
      (∀ token ∈ now.score.tokens, ∀ pitch ∈ token.pitches, config.low ≤ pitch ∧ pitch ≤ config.high) ∧
      (config.markov = false ∨ composer.corpus = none →
        ∀ token ∈ now.score.tokens, ∀ pitch ∈ token.pitches, pitch % 12 ∈ scaleClasses now.score.keyClass.toPitch) := by
  obtain ⟨hfit, hconfig⟩ := hreached.fitWith
  obtain ⟨now, hpass, hwalk, hunder⟩ := passTo_isOk hfit hhandlers hnested
  have hsame := walkOver_sameSetting (begun_underway hfit hhandlers) hnested hwalk
  have hnowConfig : now.config = config := hsame.config.trans hconfig
  have hallowed : ∀ token ∈ now.score.tokens, ∀ pitch ∈ token.pitches, now.Allowed pitch :=
    fun token htoken => hunder.scored.pitches token (List.mem_reverse.1 htoken)
  refine ⟨now, hpass, ?_, hunder.tuned.degree, ?_, ?_⟩
  · exact hnowConfig ▸ ⟨hunder.tuned.height.low, hunder.tuned.height.high⟩
  · exact fun token htoken pitch hpitch =>
      hnowConfig ▸ ⟨(hallowed token htoken pitch hpitch).low, (hallowed token htoken pitch hpitch).high⟩
  · intro hplain token htoken pitch hpitch
    refine (hallowed token htoken pitch hpitch).scale (hplain.imp (fun hmarkov => hnowConfig ▸ hmarkov) fun hnone => ?_)
    rw [hsame.corpus, begun, hnone]
    rfl

theorem pitches_playable_markov :
    ∃ composer now : Composer (Script Float) Float, Reached { markov := true } composer ∧ composer.corpus.isSome ∧
      composer.passTo "g[+g".toList "g]".toList = .ok now ∧ (24 ≤ now.turtle.pose.y ∧ now.turtle.pose.y ≤ 108) ∧
      now.score.degree = Degree.ofPitch now.turtle.pose.y now.score.keyClass.toPitch := by
  have hnested : Nested ("g[+g".toList ++ "g]".toList) := by decide
  obtain ⟨composer, hreached, hhandlers, hcorpus⟩ := exists_reached_markov
  obtain ⟨now, hnow, hrange, hdegree, _⟩ := pitches_playable hreached hhandlers hnested
  exact ⟨composer, now, hreached, hcorpus, hnow, hrange, hdegree⟩

end TurtleMusic.Composer
