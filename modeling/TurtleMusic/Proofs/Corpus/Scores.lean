import TurtleMusic.Corpus.Melody
import TurtleMusic.Proofs.Composer.Legible
import TurtleMusic.Proofs.Composer.Totality

/-!
# Scores given for melodies

The text of a score can be given for a melody. A melody looks only at how each word begins, while a score is read word by word to the end of each; still both find the same notes, namely the first of every word that begins with a bracket, and a melody takes no other word of a score for a note.
-/

namespace TurtleMusic

/-! ### Words of a text -/

namespace Text

theorem not_blank_of_isDigit {c : Char} (hdigit : c.isDigit = true) : isBlank c = false := by
  obtain ⟨hlow, hhigh⟩ := toNat_mem_of_isDigit hdigit
  simp only [isBlank, isWhiteSpace, Bool.or_eq_false_iff, Bool.and_eq_false_iff, decide_eq_false_iff_not, beq_eq_false_iff_ne]
  omega

/-- A blank parts the words before it from those behind it. -/
theorem words_append_blank {c : Char} (hc : isBlank c = true) (before behind : List Char) :
    words (before ++ c :: behind) = words before ++ words behind := by
  rw [words, List.splitOnP_append_cons before behind hc, List.filter_append]
  rfl

theorem words_eq_singleton {text : List Char} (hsome : text ≠ []) (hplain : ∀ c ∈ text, isBlank c = false) :
    words text = [text] := by
  rw [words, List.splitOnP_eq_singleton hplain]
  simp [hsome]

/-- Words with single blanks between them are the words of a text. -/
theorem words_intercalate {texts : List (List Char)} (htexts : ∀ text ∈ texts, text ≠ [] ∧ ∀ c ∈ text, isBlank c = false) :
    words ([' '].intercalate texts) = texts := by
  induction texts with
  | nil => rfl
  | cons text rest ih =>
    rw [List.forall_mem_cons] at htexts
    obtain ⟨⟨hsome, hplain⟩, hrest⟩ := htexts
    cases rest with
    | nil => rw [List.intercalate_singleton, words_eq_singleton hsome hplain]
    | cons next rest =>
      rw [List.intercalate_cons_cons, List.append_assoc, List.singleton_append, words_append_blank (by decide),
        words_eq_singleton hsome hplain, ih hrest, List.singleton_append]

end Text

namespace Token

theorem not_blank_of_mem_number {number : Int} (hnumber : 0 ≤ number) {c : Char} (hmem : c ∈ (toString number).toList) :
    Text.isBlank c = false := by
  obtain ⟨n, rfl⟩ := Int.eq_ofNat_of_zero_le hnumber
  rw [Text.toList_toString_natCast] at hmem
  exact Text.not_blank_of_isDigit (Text.isDigit_of_mem_toDigits hmem)

theorem not_blank_of_mem_codes {codes : Codes} {c : Char} (hmem : c ∈ codes.text) : Text.isBlank c = false := by
  obtain ⟨code, _, rfl⟩ := List.mem_map.1 hmem
  cases code <;> decide

theorem not_blank_of_mem_note {note : WrittenNote} (hnote : note.Readable) {c : Char} (hmem : c ∈ note.text) :
    Text.isBlank c = false := by
  rw [WrittenNote.text, List.cons_append, List.mem_cons, List.mem_append, List.mem_cons] at hmem
  rcases hmem with rfl | hdigit | rfl | hcode
  · decide
  · exact not_blank_of_mem_number hnote.1 hdigit
  · decide
  · exact not_blank_of_mem_codes hcode

/-- The text of a readable token is a word. -/
theorem text_word {token : Token} (htoken : token.Readable) :
    token.text ≠ [] ∧ ∀ c ∈ token.text, Text.isBlank c = false := by
  cases token with
  | tempo number | voice number | layer number | instrument number =>
    exact ⟨List.cons_ne_nil _ _, List.forall_mem_cons.2 ⟨by decide, fun c => not_blank_of_mem_number htoken⟩⟩
  | notes first others =>
    refine ⟨List.cons_ne_nil _ _, fun c hmem => ?_⟩
    rw [text, List.mem_append, List.mem_flatMap] at hmem
    rcases hmem with hmem | ⟨note, hnote, hmem⟩
    · exact not_blank_of_mem_note htoken.1 hmem
    · rcases List.mem_cons.1 hmem with rfl | hmem
      · decide
      · exact not_blank_of_mem_note (htoken.2 note hnote) hmem
  | pause codes => exact ⟨List.cons_ne_nil _ _, List.forall_mem_cons.2 ⟨by decide, fun c => not_blank_of_mem_codes⟩⟩
  | measure => exact ⟨List.cons_ne_nil _ _, List.forall_mem_singleton.2 (by decide)⟩
  | control controller value =>
    refine ⟨List.cons_ne_nil _ _, fun c hmem => ?_⟩
    rw [text, List.mem_append, List.mem_cons] at hmem
    rcases hmem with hmem | rfl | hmem
    · exact List.forall_mem_cons.2 ⟨by decide, fun c => not_blank_of_mem_number htoken.1⟩ c hmem
    · decide
    · exact not_blank_of_mem_number htoken.2 hmem
  | verbatim text => exact htoken.elim

end Token

namespace Score

/-- The words of a readable score's text are the texts of its tokens. -/
theorem words_text {score : Score} (hreadable : ∀ token ∈ score.written, token.Readable) :
    Text.words score.text.toList = score.tokenTexts := by
  have htexts : (score.tokens.map fun token => String.ofList token.text).map String.toList = score.tokenTexts := by
    rw [List.map_map, tokenTexts]
    exact List.map_congr_left fun token _ => String.toList_ofList
  rw [text, String.toList_intercalate, htexts]
  refine Text.words_intercalate fun text hmem => ?_
  obtain ⟨token, htoken, rfl⟩ := List.mem_map.1 hmem
  exact Token.text_word (hreadable token (List.mem_reverse.1 htoken))

/-- A readable score can be read from its text as well as from its tokens. -/
theorem ofText_text {score : Score} (hreadable : ∀ token ∈ score.written, token.Readable) :
    Event.ofText score.text = score.events? := by
  rw [Event.ofText, score.words_text hreadable, events?]

end Score

/-! ### Beginnings of words -/

/-- The class of a token's first note, if the token is of notes. -/
def Token.leadingClass? : Token → Option PitchClass
  | notes first _ => some (PitchClass.ofPitch first.pitch)
  | _ => none

namespace Melody

/-- The note that a melody takes a word for. -/
def heard? (word : List Char) : Option PitchClass := (numbered? word).or (named? word)

theorem readTokens_eq (text : List Char) : readTokens text = (Text.words text).filterMap heard? := rfl

/-- The number of a note is read from any word that begins with the note. -/
theorem numbered?_of_readNote? {part word : List Char} {note : WrittenNote} (hread : Token.readNote? part = some note)
    (hbegins : part <+: word) : numbered? word = some (PitchClass.ofPitch note.pitch) := by
  obtain ⟨digits, codes, pitch, hpart, hdigits, hnumber, hpitch, _⟩ := Token.readNote?_cases hread
  -- A line feed behind the note is not part of what is read, but what is read still begins the word.
  obtain ⟨more, rfl⟩ := (Token.dropFinalLineFeed_isPrefix part).trans hbegins
  have hbracket : Text.isDigit ']' = false := by decide
  rw [hpart, List.cons_append, List.append_assoc, List.cons_append, numbered?,
    Text.dropWhile_isDigit_append hdigits hbracket, Text.takeWhile_isDigit_append hdigits hbracket, hnumber, hpitch]
  rfl

/-- A word that begins with none of the letters that name notes, and with no bracket, is no note. -/
theorem heard?_eq_none {word : List Char} {letter : Char} (hword : word.head? = some letter) (hbracket : letter ≠ '[')
    (hletter : PitchClass.natural? letter = none) : heard? word = none := by
  obtain ⟨rest, rfl⟩ := List.head?_eq_some_iff.1 hword
  have hnumbered : numbered? (letter :: rest) = none := by
    rw [numbered?]
    simp [hbracket]
  rw [heard?, hnumbered, Option.none_or, named?, hletter, Option.map_none]

/-- A melody takes a word that is read as a token for the first of its notes; those that begin with a bracket have one, and no others do. -/
theorem heard?_of_read {word : List Char} {token : Token} (hread : Token.read word = .ok token) :
    heard? word = token.leadingClass? ∧ (word.head? = some '[' ↔ token.leadingClass?.isSome) := by
  have hother : ∀ letter, word.head? = some letter → letter ≠ '[' → PitchClass.natural? letter = none →
      token.leadingClass? = none →
        heard? word = token.leadingClass? ∧ (word.head? = some '[' ↔ token.leadingClass?.isSome) := by
    intro letter hword hbracket hletter htoken
    rw [htoken, heard?_eq_none hword hbracket hletter, hword]
    simp [hbracket]
  rcases Token.read_cases hread with ⟨rfl, rfl⟩ | ⟨codes, hrest, rfl⟩ | ⟨hword, hnotes⟩ | hcontrol | hnumbered
  · exact hother '|' rfl (by decide) rfl rfl
  · exact hother 'R' (Token.readRest?_cases hrest).1 (by decide) rfl rfl
  · obtain ⟨part, _, first, others, hbegins, hfirst, _, rfl⟩ := Token.readNotes?_cases hnotes
    refine ⟨?_, by simp [hword, Token.leadingClass?]⟩
    rw [heard?, numbered?_of_readNote? hfirst hbegins, Option.some_or]
    rfl
  · obtain ⟨hword, controller, value, rfl⟩ := Token.readControl?_cases hcontrol
    exact hother 'X' hword (by decide) rfl rfl
  · obtain ⟨letter, number, hword, htoken⟩ := Token.readNumbered?_cases hnumbered
    simp only [List.mem_cons, Prod.mk.injEq, List.not_mem_nil, or_false] at htoken
    rcases htoken with ⟨rfl, rfl⟩ | ⟨rfl, rfl⟩ | ⟨rfl, rfl⟩ | ⟨rfl, rfl⟩ <;> exact hother _ hword (by decide) rfl rfl

end Melody

/-! ### Events of words -/

/-- The class of a note, if the event is one. -/
def Event.pitchClass? (event : Event) : Option PitchClass :=
  match event.kind with
  | .note pitch _ => some (PitchClass.ofPitch pitch)
  | _ => none

namespace Reading

/-- The events of each token in turn. -/
def parts (reading : Reading) : List Token → List (List Event)
  | [] => []
  | token :: rest => (reading.step token).1 :: parts (reading.step token).2 rest

theorem flatten_parts (reading : Reading) (tokens : List Token) : (reading.parts tokens).flatten = reading.run tokens := by
  induction tokens generalizing reading with
  | nil => rfl
  | cons token rest ih => rw [parts, List.flatten_cons, ih, run]

/-- The first note that a token is read as is the one that leads it. -/
theorem findSome?_step (reading : Reading) (token : Token) :
    (reading.step token).1.findSome? Event.pitchClass? = token.leadingClass? := by
  cases token <;> rfl

end Reading

namespace Melody

theorem filterMap_heard? {words : List (List Char)} {tokens : List Token}
    (hread : List.Forall₂ (fun word token => Token.read word = .ok token) words tokens) :
    words.filterMap heard? = tokens.filterMap Token.leadingClass? := by
  induction hread with
  | nil => rfl
  | cons hword _ ih => rw [List.filterMap_cons, List.filterMap_cons, (heard?_of_read hword).1, ih]

/-- What a melody takes words for are the first notes of those that begin with a bracket. -/
theorem map_filterMap_heard? {words : List (List Char)} {tokens : List Token}
    (hread : List.Forall₂ (fun word token => Token.read word = .ok token) words tokens) (reading : Reading) :
    (words.filterMap heard?).map some =
      ((words.zip (reading.parts tokens)).filter fun read => read.1.head? = some '[').map
        fun read => read.2.findSome? Event.pitchClass? := by
  induction hread generalizing reading with
  | nil => rfl
  | @cons word token words tokens hword _ ih =>
    obtain ⟨hheard, hbracket⟩ := heard?_of_read hword
    rw [Reading.parts, List.zip_cons_cons]
    cases hleading : token.leadingClass? with
    | none =>
      rw [hleading] at hheard hbracket
      rw [List.filterMap_cons_none hheard, List.filter_cons_of_neg (by simp [hbracket]), ih]
    | some pc =>
      rw [hleading] at hheard hbracket
      rw [List.filterMap_cons_some hheard, List.filter_cons_of_pos (by simp [hbracket]), List.map_cons, List.map_cons, ih,
        reading.findSome?_step, hleading]

end Melody

/-! ### Scores -/

open TurtleMusic.Number TurtleMusic.Chance TurtleMusic.Grammar

/-- The text of any score that can be read is a melody: it has a note for each word that begins with a bracket, in their order, and that is the first of the notes that the word is read as. A finished score can be read, so its text is a melody that has a note for each of its tokens of notes and for no other token. -/
theorem score_text_as_melody :
    (∀ (text : String) (events : List Event), Event.ofText text = .ok events →
      ∃ tokens melody, (Text.words text.toList).mapM Token.read = .ok tokens ∧ (Reading.parts {} tokens).flatten = events ∧
        Melody.pitchClasses (.text text) = .ok melody ∧
        melody.map some = (((Text.words text.toList).zip (Reading.parts {} tokens)).filter fun read =>
          read.1.head? = some '[').map fun read => read.2.findSome? Event.pitchClass?) ∧
    ∀ {σ W : Type} [Weight W] [LawfulWeight W] [Source σ W] {config : Config} {composer : Composer σ W},
      Composer.Reached config composer → composer.handlers = Composer.defaultHandlers → 0 ≤ config.instrument →
      ∀ production : List Char, Nested production →
        ∃ after reports, composer.compose production = ⟨after, ⟨reports, .ok ()⟩⟩ ∧
          (∃ events, Event.ofText after.score.text = .ok events) ∧
          Melody.pitchClasses (.text after.score.text) = .ok (after.score.tokens.filterMap Token.leadingClass?) := by
  constructor
  · intro text events hevents
    obtain ⟨tokens, htokens, rfl⟩ := Except.map_eq_ok_iff.1 hevents
    refine ⟨tokens, Melody.read text, htokens, Reading.flatten_parts {} tokens, rfl, ?_⟩
    exact Melody.map_filterMap_heard? (Except.mapM_eq_ok_iff.1 htokens) {}
  · intro σ W _ _ _ config composer hreached hhandlers hinstrument production hnested
    obtain ⟨hfit, hconfig⟩ := hreached.fitWith
    obtain ⟨after, reports, hcompose, hwalk, _⟩ := Composer.compose_walk hfit hhandlers hnested
    have hreadable := Composer.readable_of_walkOver hfit hhandlers (hconfig ▸ hinstrument) hnested hwalk
    have htokens := Except.mapM_eq_ok_iff.1 (Score.mapM_read_tokenTexts hreadable)
    refine ⟨after, reports, hcompose, ⟨_, (Score.ofText_text hreadable).trans (Score.events?_eq_ok hreadable)⟩, ?_⟩
    rw [Melody.pitchClasses, Melody.read, Melody.readTokens_eq, Score.words_text hreadable, Melody.filterMap_heard? htokens]

/-- Digits of two scripts and notes that start together, and a score that leaves its notes to chance. -/
theorem score_text_as_melody_digits :
    Melody.pitchClasses (.text "T120 [६०]q+[64]i Rq | X1=2 [٦٢]h") = .ok [0, 2] ∧
    ∃ composer after : Composer (Script Float) Float, ∃ reports, Composer.Reached { markov := true } composer ∧
      composer.compose "gg[+gf]r".toList = ⟨after, ⟨reports, .ok ()⟩⟩ ∧
      Melody.pitchClasses (.text after.score.text) = .ok (after.score.tokens.filterMap Token.leadingClass?) := by
  obtain ⟨htexts, hscores⟩ := score_text_as_melody
  constructor
  · have hread : (Text.words "T120 [६०]q+[64]i Rq | X1=2 [٦٢]h".toList).mapM Token.read =
        .ok [.tempo 120, .notes ⟨60, [.q]⟩ [⟨64, [.i]⟩], .pause [.q], .measure, .control 1 2, .notes ⟨62, [.h]⟩ []] := by
      decide
    obtain ⟨tokens, melody, htokens, _, hmelody, hnotes⟩ := htexts _ _ (Except.map_eq_ok_iff.2 ⟨_, hread, rfl⟩)
    cases hread.symm.trans htokens
    have hclasses : melody.map some = [0, 2].map some := hnotes.trans (by decide)
    rw [hmelody, List.map_injective_iff.2 (Option.some_injective _) hclasses]
  · obtain ⟨composer, hreached, hhandlers, _⟩ := Composer.exists_reached_markov
    obtain ⟨after, reports, hcompose, _, hmelody⟩ :=
      hscores hreached hhandlers (by decide) "gg[+gf]r".toList (by decide)
    exact ⟨composer, after, reports, hreached, hcompose, hmelody⟩

end TurtleMusic
