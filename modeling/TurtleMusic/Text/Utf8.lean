/-!
# UTF-8 text files

Reading bytes as UTF-8. A byte sequence that is no text is refused at its first ill-formed part, with the bytes of that part: the longest start of a character that stands there, or the one byte that cannot start any. Text files may end their lines with a carriage return, with a line feed or with both; all three read as a line feed.
-/

namespace TurtleMusic.Text

/-- Why bytes are no text: where the ill-formed part starts, its bytes and what is wrong with it. -/
inductive Utf8Flaw where
  | invalidStart
  | invalidContinuation
  | unexpectedEnd
  deriving DecidableEq, Repr

structure Utf8Fault where
  flaw : Utf8Flaw
  position : Nat
  length : Nat
  byte : UInt8
  deriving DecidableEq, Repr

/-- What a first byte promises: how many bytes follow it, the bits it gives and the bounds of the byte after it. -/
private structure Lead where
  following : Nat
  bits : Nat
  low : UInt8 := 0x80
  high : UInt8 := 0xbf

private def lead? (byte : UInt8) : Option Lead :=
  if byte < 0x80 then some ⟨0, byte.toNat, 0x80, 0xbf⟩
  else if byte < 0xc2 then none
  else if byte < 0xe0 then some ⟨1, byte.toNat % 32, 0x80, 0xbf⟩
  else if byte < 0xf0 then
    some ⟨2, byte.toNat % 16, if byte = 0xe0 then 0xa0 else 0x80, if byte = 0xed then 0x9f else 0xbf⟩
  else if byte < 0xf5 then
    some ⟨3, byte.toNat % 8, if byte = 0xf0 then 0x90 else 0x80, if byte = 0xf4 then 0x8f else 0xbf⟩
  else none

/-- Takes up to `following` continuation bytes, the first of them within its own bounds. The answer is the number of bytes taken, the bits gathered and what is left. -/
private def gather (following : Nat) (low high : UInt8) (taken bits : Nat) (bytes : List UInt8) : Nat × Nat × List UInt8 :=
  match following, bytes with
  | following + 1, byte :: rest =>
    if low ≤ byte && byte ≤ high then gather following 0x80 0xbf (taken + 1) (64 * bits + byte.toNat % 64) rest
    else (taken, bits, bytes)
  | _, _ => (taken, bits, bytes)

private theorem gather_length_le (following : Nat) (low high : UInt8) (taken bits : Nat) (bytes : List UInt8) :
    (gather following low high taken bits bytes).2.2.length ≤ bytes.length := by
  fun_induction gather following low high taken bits bytes with
  | case1 low high taken bits following byte rest hbyte ih => exact Nat.le_succ_of_le ih
  | case2 | case3 => exact Nat.le_refl _

/-- Reads the bytes from the given position on. -/
def decodeFrom (position : Nat) (bytes : List UInt8) : Except Utf8Fault (List Char) :=
  match bytes with
  | [] => .ok []
  | byte :: rest =>
    match lead? byte with
    | none => .error ⟨.invalidStart, position, 1, byte⟩
    | some lead =>
      let gathered := gather lead.following lead.low lead.high 0 lead.bits rest
      if gathered.1 < lead.following then
        .error ⟨if gathered.2.2.isEmpty then .unexpectedEnd else .invalidContinuation, position, gathered.1 + 1, byte⟩
      else (decodeFrom (position + 1 + gathered.1) gathered.2.2).map (Char.ofNat gathered.2.1 :: ·)
  termination_by bytes.length
  decreasing_by
    have := gather_length_le lead.following lead.low lead.high 0 lead.bits rest
    simp only [List.length_cons]
    omega

/-- Every line ends with a line feed alone. -/
def unifyLineEnds : List Char → List Char
  | [] => []
  | '\r' :: '\n' :: rest => '\n' :: unifyLineEnds rest
  | '\r' :: rest => '\n' :: unifyLineEnds rest
  | c :: rest => c :: unifyLineEnds rest

def decode (bytes : List UInt8) : Except Utf8Fault String :=
  (decodeFrom 0 bytes).map fun text => String.ofList (unifyLineEnds text)

end TurtleMusic.Text
