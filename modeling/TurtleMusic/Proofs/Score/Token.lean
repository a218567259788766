import TurtleMusic.Score.Token
import TurtleMusic.Proofs.Score.Length
import TurtleMusic.Proofs.Text.Digit

/-!
# Tokens read back

A token whose numbers are not negative and whose lengths are not empty is read back from its text. Reading tries the kinds of tokens one after the other and is told apart by the first character; none of the characters it looks for occurs inside a number or a length.
-/

namespace TurtleMusic

/-- The note is written as reading expects it. -/
def WrittenNote.Readable (note : WrittenNote) : Prop := 0 ≤ note.pitch ∧ note.codes ≠ []

namespace Token

/-- The token is written as reading expects it. -/
def Readable : Token → Prop
  | tempo number | voice number | layer number | instrument number => 0 ≤ number
  | notes first others => first.Readable ∧ ∀ note ∈ others, note.Readable
  | pause codes => codes ≠ []
  | measure => True
  | control controller value => 0 ≤ controller ∧ 0 ≤ value
  | verbatim _ => False

/-! ### Characters of a text -/

/-- A character that may stand in the text of a note or a number. -/
def IsPlain (c : Char) : Prop := c ≠ '\n' ∧ c ≠ '+'

instance (c : Char) : Decidable (IsPlain c) := inferInstanceAs (Decidable (c ≠ '\n' ∧ c ≠ '+'))

theorem isPlain_of_isDigit {c : Char} (hdigit : c.isDigit = true) : IsPlain c := by
  constructor <;>
  · rintro rfl
    simp at hdigit

theorem isPlain_of_mem_text {codes : Codes} {c : Char} (hmem : c ∈ codes.text) : IsPlain c := by
  obtain ⟨code, _, rfl⟩ := List.mem_map.1 hmem
  cases code <;> decide

theorem dropFinalLineFeed_eq {text : List Char} (htext : '\n' ∉ text) : dropFinalLineFeed text = text := by
  rw [dropFinalLineFeed, if_neg]
  intro hlast
  exact htext (List.mem_of_getLast? hlast)

/-! ### Notes -/

theorem isPlain_of_mem_noteText {note : WrittenNote} (hnote : note.Readable) {c : Char} (hmem : c ∈ note.text) :
    IsPlain c := by
  obtain ⟨pitch, codes⟩ := note
  obtain ⟨n, rfl⟩ := Int.eq_ofNat_of_zero_le hnote.1
  rw [WrittenNote.text, Text.toList_toString_natCast, List.cons_append, List.mem_cons, List.mem_append,
    List.mem_cons] at hmem
  rcases hmem with rfl | hdigit | rfl | hcode
  · decide
  · exact isPlain_of_isDigit (Text.isDigit_of_mem_toDigits hdigit)
  · decide
  · exact isPlain_of_mem_text hcode

theorem readNote?_text {note : WrittenNote} (hnote : note.Readable) : readNote? note.text = some note := by
  have hdrop := dropFinalLineFeed_eq fun hmem => (isPlain_of_mem_noteText hnote hmem).1 rfl
  obtain ⟨pitch, codes⟩ := note
  obtain ⟨n, rfl⟩ := Int.eq_ofNat_of_zero_le hnote.1
  have hbracket : Text.isDigit ']' = false := by decide
  simp only [readNote?, hdrop]
  simp only [WrittenNote.text, Text.toList_toString_natCast, List.cons_append,
    Text.takeWhile_isDigit_toDigits n hbracket, Text.dropWhile_isDigit_toDigits n hbracket]
  rw [Text.natural?_toDigits, Codes.readSome?_text hnote.2]
  rfl

/-- The notes of a token are parted by plus signs and hold none. -/
theorem splitOn_notesText {first : WrittenNote} {others : List WrittenNote} (hfirst : first.Readable)
    (hothers : ∀ note ∈ others, note.Readable) :
    (notes first others).text.splitOn '+' = (first :: others).map WrittenNote.text := by
  have hplain : ∀ note : WrittenNote, note.Readable → '+' ∉ note.text :=
    fun note hnote hmem => (isPlain_of_mem_noteText hnote hmem).2 rfl
  induction others generalizing first with
  | nil =>
    rw [text, List.flatMap_nil, List.append_nil, List.splitOn_eq_singleton (hplain first hfirst)]
    rfl
  | cons note rest ih =>
    rw [List.forall_mem_cons] at hothers
    rw [text, List.flatMap_cons, List.cons_append, List.splitOn_append_cons_self_of_not_mem (hplain first hfirst)]
    exact congrArg (first.text :: ·) (ih hothers.1 hothers.2)

theorem mapM_readNote?_text {written : List WrittenNote} (hwritten : ∀ note ∈ written, note.Readable) :
    (written.map WrittenNote.text).mapM readNote? = some written := by
  induction written with
  | nil => rfl
  | cons note rest ih =>
    rw [List.forall_mem_cons] at hwritten
    rw [List.map_cons, List.mapM_cons, readNote?_text hwritten.1, ih hwritten.2]
    rfl

/-! ### Telling tokens apart -/

theorem readRest?_eq_none {text : List Char} {c : Char} {rest : List Char} (htext : dropFinalLineFeed text = c :: rest)
    (hc : c ≠ 'R') : readRest? text = none := by
  rw [readRest?, htext]
  split
  · rename_i heq
    exact absurd (List.cons.inj heq).1 hc
  · rfl

theorem readControl?_eq_none {text : List Char} {c : Char} {rest : List Char}
    (htext : dropFinalLineFeed text = c :: rest) (hc : c ≠ 'X') : readControl? text = none := by
  rw [readControl?, htext]
  split
  · rename_i heq
    exact absurd (List.cons.inj heq).1 hc
  · rfl

theorem dropFinalLineFeed_numbered {letter : Char} (hletter : IsPlain letter) (n : Nat) :
    dropFinalLineFeed (letter :: Nat.toDigits 10 n) = letter :: Nat.toDigits 10 n := by
  apply dropFinalLineFeed_eq
  intro hmem
  rcases List.mem_cons.1 hmem with hhead | hdigit
  · exact hletter.1 hhead.symm
  · exact (isPlain_of_isDigit (Text.isDigit_of_mem_toDigits hdigit)).1 rfl

/-- A letter that begins no other kind of token is followed by a number. -/
theorem read_numbered {letter : Char} {token : Token} {n : Nat} (hletter : letter ∉ ['\n', '+', '|', 'R', '[', 'X'])
    (htoken : readNumbered? (letter :: Nat.toDigits 10 n) = some token) :
    read (letter :: Nat.toDigits 10 n) = .ok token := by
  simp only [List.mem_cons, List.not_mem_nil, or_false, not_or] at hletter
  obtain ⟨hfeed, hplus, hbar, hrest, hbracket, hcontrol⟩ := hletter
  have hdrop := dropFinalLineFeed_numbered ⟨hfeed, hplus⟩ n
  rw [read, if_neg fun heq => hbar (List.cons.inj heq).1, readRest?_eq_none hdrop hrest]
  dsimp only
  rw [List.head?_cons, if_neg fun heq => hbracket (Option.some.inj heq), readControl?_eq_none hdrop hcontrol, htoken]
  rfl

theorem read_numberedText {letter : Char} {token : Token} {number : Int} (hnumber : 0 ≤ number)
    (hletter : letter ∉ ['\n', '+', '|', 'R', '[', 'X'])
    (htoken : ∀ n : Nat, number = n → readNumbered? (letter :: Nat.toDigits 10 n) = some token) :
    read (letter :: (toString number).toList) = .ok token := by
  obtain ⟨n, rfl⟩ := Int.eq_ofNat_of_zero_le hnumber
  rw [Text.toList_toString_natCast]
  exact read_numbered hletter (htoken n rfl)

theorem read_pauseText {codes : Codes} (hcodes : codes ≠ []) : read (pause codes).text = .ok (pause codes) := by
  have hdrop : dropFinalLineFeed ('R' :: codes.text) = 'R' :: codes.text := by
    apply dropFinalLineFeed_eq
    intro hmem
    rcases List.mem_cons.1 hmem with hhead | hcode
    · exact absurd hhead (by decide)
    · exact (isPlain_of_mem_text hcode).1 rfl
  have hrest : readRest? ('R' :: codes.text) = some codes := by
    simp only [readRest?, hdrop]
    exact Codes.readSome?_text hcodes
  rw [text, read, if_neg (by simp), hrest]

theorem read_notesText {first : WrittenNote} {others : List WrittenNote} (hfirst : first.Readable)
    (hothers : ∀ note ∈ others, note.Readable) : read (notes first others).text = .ok (notes first others) := by
  have hsplit : (notes first others).text.splitOn '+' = _ := splitOn_notesText hfirst hothers
  have hnotes : readNotes? (notes first others).text = some (notes first others) := by
    rw [readNotes?, hsplit, mapM_readNote?_text (List.forall_mem_cons.2 ⟨hfirst, hothers⟩)]
    rfl
  have hfeed : '\n' ∉ (notes first others).text := by
    intro hmem
    rw [text, List.mem_append, List.mem_flatMap] at hmem
    rcases hmem with hmem | ⟨note, hnote, hmem⟩
    · exact (isPlain_of_mem_noteText hfirst hmem).1 rfl
    · rcases List.mem_cons.1 hmem with hplus | hmem
      · exact absurd hplus (by decide)
      · exact (isPlain_of_mem_noteText (hothers note hnote) hmem).1 rfl
  have htext : ∃ rest, (notes first others).text = '[' :: rest := ⟨_, rfl⟩
  obtain ⟨rest, hrest⟩ := htext
  rw [hrest] at hnotes hfeed
  rw [hrest, read, if_neg (by simp), readRest?_eq_none (dropFinalLineFeed_eq hfeed) (by decide)]
  dsimp only
  rw [List.head?_cons, if_pos rfl, hnotes]

theorem read_controlText {controller value : Int} (hcontroller : 0 ≤ controller) (hvalue : 0 ≤ value) :
    read (control controller value).text = .ok (control controller value) := by
  obtain ⟨n, rfl⟩ := Int.eq_ofNat_of_zero_le hcontroller
  obtain ⟨m, rfl⟩ := Int.eq_ofNat_of_zero_le hvalue
  have htext : (control n m).text = 'X' :: (Nat.toDigits 10 n ++ '=' :: Nat.toDigits 10 m) := by
    rw [← Text.toList_toString_natCast, ← Text.toList_toString_natCast]
    rfl
  have hplain : ∀ c ∈ 'X' :: (Nat.toDigits 10 n ++ '=' :: Nat.toDigits 10 m), IsPlain c := by
    intro c hmem
    rw [List.mem_cons, List.mem_append, List.mem_cons] at hmem
    rcases hmem with rfl | hdigit | rfl | hdigit
    · decide
    · exact isPlain_of_isDigit (Text.isDigit_of_mem_toDigits hdigit)
    · decide
    · exact isPlain_of_isDigit (Text.isDigit_of_mem_toDigits hdigit)
  have hdrop := dropFinalLineFeed_eq fun hmem => (hplain _ hmem).1 rfl
  have hequals : Text.isDigit '=' = false := by decide
  have hcontrol : readControl? ('X' :: (Nat.toDigits 10 n ++ '=' :: Nat.toDigits 10 m)) = some (control n m) := by
    simp only [readControl?, hdrop, Text.takeWhile_isDigit_toDigits n hequals, Text.dropWhile_isDigit_toDigits n hequals,
      Text.natural?_toDigits]
    rfl
  rw [htext, read, if_neg (by simp), readRest?_eq_none hdrop (by decide)]
  dsimp only
  rw [if_neg (by simp), hcontrol]
  rfl

/-! ### All tokens -/

theorem read_text {token : Token} (htoken : token.Readable) : read token.text = .ok token := by
  cases token with
  | tempo number =>
    apply read_numberedText htoken (by decide)
    intro n hn
    simp only [readNumbered?, dropFinalLineFeed_numbered (show IsPlain 'T' by decide), Text.natural?_toDigits, hn]
    rfl
  | voice number =>
    apply read_numberedText htoken (by decide)
    intro n hn
    simp only [readNumbered?, dropFinalLineFeed_numbered (show IsPlain 'V' by decide), Text.natural?_toDigits, hn]
    rfl
  | layer number =>
    apply read_numberedText htoken (by decide)
    intro n hn
    simp only [readNumbered?, dropFinalLineFeed_numbered (show IsPlain 'L' by decide), Text.natural?_toDigits, hn]
    rfl
  | instrument number =>
    apply read_numberedText htoken (by decide)
    intro n hn
    simp only [readNumbered?, dropFinalLineFeed_numbered (show IsPlain 'I' by decide), Text.natural?_toDigits, hn]
    rfl
  | notes first others => exact read_notesText htoken.1 htoken.2
  | pause codes => exact read_pauseText htoken
  | measure => rfl
  | control controller value => exact read_controlText htoken.1 htoken.2
  | verbatim text => exact htoken.elim

/-! ### What reading yields -/

theorem dropFinalLineFeed_isPrefix (text : List Char) : dropFinalLineFeed text <+: text := by
  rw [dropFinalLineFeed]
  split
  · exact List.dropLast_prefix text
  · exact List.prefix_rfl

theorem head?_eq_of_dropFinalLineFeed {text rest : List Char} {c : Char} (htext : dropFinalLineFeed text = c :: rest) :
    text.head? = some c := by
  obtain ⟨more, hmore⟩ := dropFinalLineFeed_isPrefix text
  rw [← hmore, htext, List.cons_append, List.head?_cons]

theorem readRest?_cases {text : List Char} {codes : Codes} (hread : readRest? text = some codes) :
    text.head? = some 'R' ∧ codes ≠ [] := by
  rw [readRest?] at hread
  split at hread
  · next htext => exact ⟨head?_eq_of_dropFinalLineFeed htext, Codes.readSome?_ne_nil hread⟩
  · cases hread

/-- A note is a row of digits between brackets and the codes behind it. -/
theorem readNote?_cases {text : List Char} {note : WrittenNote} (hread : readNote? text = some note) :
    ∃ digits codes, ∃ pitch : Nat, dropFinalLineFeed text = '[' :: (digits ++ ']' :: codes) ∧
      (∀ c ∈ digits, Text.isDigit c = true) ∧ Text.natural? digits = some pitch ∧ note.pitch = pitch ∧ note.codes ≠ [] := by
  rw [readNote?] at hread
  split at hread
  · next rest htext =>
    split at hread
    · next codes hcodes =>
      obtain ⟨pitch, hpitch, hnote⟩ := Option.bind_eq_some_iff.1 hread
      obtain ⟨length, hlength, hnote⟩ := Option.bind_eq_some_iff.1 hnote
      cases hnote
      refine ⟨rest.takeWhile Text.isDigit, codes, pitch, ?_, List.all_eq_true.1 List.all_takeWhile, hpitch, rfl,
        Codes.readSome?_ne_nil hlength⟩
      rw [htext, ← hcodes, List.takeWhile_append_dropWhile]
    · cases hread
  · cases hread

theorem readable_of_readNote? {text : List Char} {note : WrittenNote} (hread : readNote? text = some note) :
    note.Readable := by
  obtain ⟨_, _, pitch, _, _, _, hpitch, hcodes⟩ := readNote?_cases hread
  exact ⟨hpitch ▸ Int.natCast_nonneg pitch, hcodes⟩

/-- Notes are read part by part, and the text goes on with the others behind the first. -/
theorem readNotes?_cases {text : List Char} {token : Token} (hread : readNotes? text = some token) :
    ∃ (part : List Char) (parts : List (List Char)) (first : WrittenNote) (others : List WrittenNote), part <+: text ∧
      readNote? part = some first ∧ parts.mapM readNote? = some others ∧ token = notes first others := by
  obtain ⟨written, hwritten, htoken⟩ := Option.bind_eq_some_iff.1 hread
  have hwhole : ['+'].intercalate (text.splitOn '+') = text := List.intercalate_splitOn '+'
  cases hparts : text.splitOn '+' with
  | nil => exact absurd hparts (List.splitOn_ne_nil '+' text)
  | cons part parts =>
    rw [hparts, List.mapM_cons] at hwritten
    obtain ⟨first, hfirst, hwritten⟩ := Option.bind_eq_some_iff.1 hwritten
    obtain ⟨others, hothers, hwritten⟩ := Option.bind_eq_some_iff.1 hwritten
    cases hwritten
    cases htoken
    refine ⟨part, parts, first, others, ?_, hfirst, hothers, rfl⟩
    rw [← hwhole, hparts]
    cases parts with
    | nil => exact ⟨[], by rw [List.append_nil, List.intercalate_singleton]⟩
    | cons next rest =>
      rw [List.intercalate_cons_cons, List.append_assoc]
      exact List.prefix_append part _

theorem readable_of_mapM_readNote? {parts : List (List Char)} {written : List WrittenNote}
    (hread : parts.mapM readNote? = some written) : ∀ note ∈ written, note.Readable := by
  induction parts generalizing written with
  | nil =>
    cases hread
    exact List.forall_mem_nil _
  | cons part rest ih =>
    rw [List.mapM_cons] at hread
    obtain ⟨note, hnote, hread⟩ := Option.bind_eq_some_iff.1 hread
    obtain ⟨others, hothers, hread⟩ := Option.bind_eq_some_iff.1 hread
    cases hread
    exact List.forall_mem_cons.2 ⟨readable_of_readNote? hnote, ih hothers⟩

theorem readable_of_readNotes? {text : List Char} {token : Token} (hread : readNotes? text = some token) :
    token.Readable := by
  obtain ⟨_, _, first, others, _, hfirst, hothers, rfl⟩ := readNotes?_cases hread
  exact ⟨readable_of_readNote? hfirst, readable_of_mapM_readNote? hothers⟩

theorem readControl?_cases {text : List Char} {token : Token} (hread : readControl? text = some token) :
    text.head? = some 'X' ∧ ∃ controller value : Nat, token = control controller value := by
  rw [readControl?] at hread
  split at hread
  · next htext =>
    refine ⟨head?_eq_of_dropFinalLineFeed htext, ?_⟩
    split at hread
    · obtain ⟨controller, _, htoken⟩ := Option.bind_eq_some_iff.1 hread
      obtain ⟨value, _, htoken⟩ := Option.bind_eq_some_iff.1 htoken
      cases htoken
      exact ⟨controller, value, rfl⟩
    · cases hread
  · cases hread

theorem readNumbered?_cases {text : List Char} {token : Token} (hread : readNumbered? text = some token) :
    ∃ letter, ∃ number : Nat, text.head? = some letter ∧ (letter, token) ∈
      [('T', tempo number), ('V', voice number), ('L', layer number), ('I', instrument number)] := by
  rw [readNumbered?] at hread
  split at hread
  case h_5 => cases hread
  all_goals
    next htext =>
    obtain ⟨_, hnumber, rfl⟩ := Option.map_eq_some_iff.1 hread
    obtain ⟨number, _, hnumber⟩ := Option.bind_eq_some_iff.1 hnumber
    cases hnumber
    exact ⟨_, number, head?_eq_of_dropFinalLineFeed htext, by simp⟩

/-- What is read as a token is one of five kinds of text. -/
theorem read_cases {text : List Char} {token : Token} (hread : read text = .ok token) :
    (text = ['|'] ∧ token = measure) ∨ (∃ codes, readRest? text = some codes ∧ token = pause codes) ∨
      (text.head? = some '[' ∧ readNotes? text = some token) ∨ readControl? text = some token ∨
      readNumbered? text = some token := by
  rw [read] at hread
  split at hread
  · next htext =>
    cases hread
    exact .inl ⟨htext, rfl⟩
  · split at hread
    · next codes hrest =>
      cases hread
      exact .inr (.inl ⟨codes, hrest, rfl⟩)
    · split at hread
      · next hbracket =>
        split at hread
        · next hnotes =>
          cases hread
          exact .inr (.inr (.inl ⟨hbracket, hnotes⟩))
        · cases hread
      · split at hread
        · next hother =>
          cases hread
          rcases Option.or_eq_some_iff.1 hother with hcontrol | ⟨_, hnumbered⟩
          · exact .inr (.inr (.inr (.inl hcontrol)))
          · exact .inr (.inr (.inr (.inr hnumbered)))
        · cases hread

/-- A token that was read could have been written. -/
theorem readable_of_read {text : List Char} {token : Token} (hread : read text = .ok token) : token.Readable := by
  rcases read_cases hread with ⟨_, rfl⟩ | ⟨codes, hrest, rfl⟩ | ⟨_, hnotes⟩ | hcontrol | hnumbered
  · trivial
  · exact (readRest?_cases hrest).2
  · exact readable_of_readNotes? hnotes
  · obtain ⟨_, controller, value, rfl⟩ := readControl?_cases hcontrol
    exact ⟨Int.natCast_nonneg controller, Int.natCast_nonneg value⟩
  · obtain ⟨letter, number, _, htoken⟩ := readNumbered?_cases hnumbered
    simp only [List.mem_cons, Prod.mk.injEq, List.not_mem_nil, or_false] at htoken
    rcases htoken with ⟨_, rfl⟩ | ⟨_, rfl⟩ | ⟨_, rfl⟩ | ⟨_, rfl⟩ <;> exact Int.natCast_nonneg number

/-! ### What is not read -/

/-- A negative number is written with a sign, which reading does not know. -/
theorem read_instrument_of_neg {number : Int} (hnumber : number < 0) :
    read (instrument number).text = .error (.unknownToken (String.ofList (instrument number).text)) := by
  obtain ⟨n, rfl⟩ := Int.eq_negSucc_of_lt_zero hnumber
  have htext : (instrument (Int.negSucc n)).text = 'I' :: '-' :: Nat.toDigits 10 (n + 1) := by
    change 'I' :: ("-" ++ (n + 1).repr).toList = _
    rw [String.toList_append, Nat.toList_repr]
    rfl
  have hdrop : dropFinalLineFeed ('I' :: '-' :: Nat.toDigits 10 (n + 1)) = 'I' :: '-' :: Nat.toDigits 10 (n + 1) := by
    apply dropFinalLineFeed_eq
    intro hmem
    simp only [List.mem_cons] at hmem
    rcases hmem with hletter | hsign | hdigit
    · exact absurd hletter (by decide)
    · exact absurd hsign (by decide)
    · exact (isPlain_of_isDigit (Text.isDigit_of_mem_toDigits hdigit)).1 rfl
  have hnone : Text.natural? ('-' :: Nat.toDigits 10 (n + 1)) = none := by
    have hsign : Text.isDigit '-' = false := by decide
    simp [Text.natural?, hsign]
  have hnumbered : readNumbered? ('I' :: '-' :: Nat.toDigits 10 (n + 1)) = none := by
    simp only [readNumbered?, hdrop, hnone]
    rfl
  rw [htext, read, if_neg (by simp), readRest?_eq_none hdrop (by decide)]
  dsimp only
  rw [List.head?_cons, if_neg (by decide), readControl?_eq_none hdrop (by decide), hnumbered]
  rfl

end Token

end TurtleMusic
