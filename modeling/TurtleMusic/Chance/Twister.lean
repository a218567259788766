import TurtleMusic.Chance.Source

/-!
# The Mersenne Twister

The generator MT19937: a recurrence over 624 words of 32 bits whose outputs are tempered. A seed is any integer; the 32-bit words of its magnitude fill the state. A draw on the unit scale takes 53 bits from two outputs, and a draw below `n` takes as many leading bits of an output as `n` has and draws again while the result is not below `n`.
-/

namespace TurtleMusic.Chance

open TurtleMusic.Number

/-- The generator's words and the place of the next one to be tempered. -/
structure Twister where
  words : Vector UInt32 624
  index : Nat

namespace Twister

/-- The word before place `i` in the ring of words. -/
private def before (words : Vector UInt32 624) (i : Nat) : UInt32 :=
  words.get ⟨(i + 623) % 624, Nat.mod_lt _ (by decide)⟩

private def mix (word : UInt32) : UInt32 := word ^^^ (word >>> 30)

/-- The state that one number alone spreads out to. -/
def spread (seed : UInt32) : Vector UInt32 624 :=
  Nat.fold 623 (fun i hi words =>
    words.set (i + 1) (1812433253 * mix (words.get ⟨i, by omega⟩) + UInt32.ofNat (i + 1)) (by omega))
    (Vector.replicate 624 seed)

/-- Place 0 repeats place 623 whenever the walk around the ring passes its end. -/
private def wrap (words : Vector UInt32 624) (place : Nat) : Vector UInt32 624 × Nat :=
  if place ≥ 624 then (words.set 0 words[623], 1) else (words, place)

/-- Stirs the key into the state, one word a step. -/
private def stirKey (key : Array UInt32) : (steps place keyPlace : Nat) → Vector UInt32 624 → Vector UInt32 624 × Nat
  | 0, place, _, words => (words, place)
  | steps + 1, place, keyPlace, words =>
    let slot := place % 624
    have hslot : slot < 624 := Nat.mod_lt _ (by decide)
    let word := (words[slot] ^^^ (mix (before words slot) * 1664525)) + key[keyPlace]?.getD 0 + UInt32.ofNat keyPlace
    let (words, place) := wrap (words.set slot word) (slot + 1)
    stirKey key steps place (if keyPlace + 1 ≥ key.size then 0 else keyPlace + 1) words

/-- Stirs the state into itself, one word a step. -/
private def stirSelf : (steps place : Nat) → Vector UInt32 624 → Vector UInt32 624
  | 0, _, words => words
  | steps + 1, place, words =>
    let slot := place % 624
    have hslot : slot < 624 := Nat.mod_lt _ (by decide)
    let word := (words[slot] ^^^ (mix (before words slot) * 1566083941)) - UInt32.ofNat slot
    let (words, place) := wrap (words.set slot word) (slot + 1)
    stirSelf steps place words

/-- The words of a number, lowest first; nought has none. -/
def wordsOf (n : Nat) : List UInt32 :=
  if n = 0 then [] else UInt32.ofNat (n % 0x100000000) :: wordsOf (n / 0x100000000)
  termination_by n
  decreasing_by omega

/-- The generator for a seed. Its sign does not matter, and nought counts as one word. -/
def ofSeed (seed : Int) : Twister :=
  let key := if seed = 0 then #[0] else (wordsOf seed.natAbs).toArray
  let stirred := stirKey key (max 624 key.size) 1 0 (spread 19650218)
  ⟨(stirSelf 623 stirred.2 stirred.1).set 0 0x80000000, 624⟩

/-- One turn of the recurrence at place `i`. -/
private def twist (words : Vector UInt32 624) (i : Nat) (hi : i < 624) : Vector UInt32 624 :=
  let joined := (words[i] &&& 0x80000000) ||| (words.get ⟨(i + 1) % 624, Nat.mod_lt _ (by decide)⟩ &&& 0x7fffffff)
  let turned := words.get ⟨(i + 397) % 624, Nat.mod_lt _ (by decide)⟩ ^^^ (joined >>> 1)
  words.set i (if joined &&& 1 = 0 then turned else turned ^^^ 0x9908b0df)

private def renew (words : Vector UInt32 624) : Vector UInt32 624 :=
  Nat.fold 624 (fun i hi words => twist words i hi) words

private def temper (word : UInt32) : UInt32 :=
  let word := word ^^^ (word >>> 11)
  let word := word ^^^ ((word <<< 7) &&& 0x9d2c5680)
  let word := word ^^^ ((word <<< 15) &&& 0xefc60000)
  word ^^^ (word >>> 18)

def next (twister : Twister) : UInt32 × Twister :=
  if hindex : twister.index < 624 then (temper twister.words[twister.index], ⟨twister.words, twister.index + 1⟩)
  else
    let words := renew twister.words
    (temper words[0], ⟨words, 1⟩)

/-- A number on the unit scale, a multiple of `2 ^ -53`. -/
def unit {W : Type} [Weight W] (twister : Twister) : W × Twister :=
  let high := twister.next
  let low := high.2.next
  let bits := (high.1 >>> 5).toNat * 0x4000000 + (low.1 >>> 6).toNat
  ((bits : W) / ((0x20000000000000 : Nat) : W), low.2)

/-- Draws until a result is below the bound, at most `tries` times; then nought stands in. -/
def belowWithin (bound : Nat) (hbound : 0 < bound) (twister : Twister) : (tries : Nat) → Fin bound × Twister
  | 0 => (⟨0, hbound⟩, twister)
  | tries + 1 =>
    let drawn := twister.next
    let result := drawn.1.toNat >>> (32 - (bound.log2 + 1))
    if hresult : result < bound then (⟨result, hresult⟩, drawn.2) else belowWithin bound hbound drawn.2 tries

/-- At least every second result is below the bound on average, so the number of tries is no limit in practice. -/
def below (bound : Nat) (hbound : 0 < bound) (twister : Twister) : Fin bound × Twister :=
  belowWithin bound hbound twister 4096

instance {W : Type} [Weight W] : Source Twister W := ⟨unit, below⟩

end Twister

end TurtleMusic.Chance
