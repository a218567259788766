import TurtleMusic.Midi.Onsets
import TurtleMusic.Proofs.Outcome
import Mathlib.Algebra.Ring.Nat
import Mathlib.Tactic.SplitIfs

/-!
# Bytes read back

Numbers and messages are read back from the bytes they are written as, whatever bytes come behind them. A message that leaves out its status byte is read like one that has it, as long as the reader knows the status that the writer left out; a reader may know one where the writer writes it again.
-/

namespace TurtleMusic.Midi

/-! ### Numbers -/

theorem toNat_ofNat {n : Nat} (hn : n < 256) : (UInt8.ofNat n).toNat = n :=
  UInt8.toNat_ofNat_of_lt' hn

theorem ofNat_lt_iff {n : Nat} (hn : n < 256) (byte : UInt8) : UInt8.ofNat n < byte ↔ n < byte.toNat := by
  rw [UInt8.lt_iff_toNat_lt, toNat_ofNat hn]

/-- Marked groups are taken into the number, and reading goes on behind them. -/
theorem readGroups_leadingGroups (n : Nat) (rest : Bytes) : readGroups 0 (leadingGroups n ++ rest) = readGroups n rest := by
  induction n using leadingGroups.induct generalizing rest with
  | case1 => rw [leadingGroups, if_pos rfl, List.nil_append]
  | case2 n hn ih =>
    have hgroup : 128 + n % 128 < 256 := by omega
    have hmarked : ¬UInt8.ofNat (128 + n % 128) < 0x80 := by
      rw [ofNat_lt_iff hgroup]
      exact Nat.not_lt.2 (Nat.le_add_right 128 _)
    have hvalue : 128 * (n / 128) + (128 + n % 128) % 128 = n := by omega
    rw [leadingGroups, if_neg hn, List.append_assoc, ih, List.singleton_append, readGroups, if_neg hmarked,
      toNat_ofNat hgroup, hvalue]

theorem readGroups_groups (n : Nat) (rest : Bytes) : readGroups 0 (groups n ++ rest) = .ok (n, rest) := by
  have hgroup : n % 128 < 256 := by omega
  have hlast : UInt8.ofNat (n % 128) < 0x80 := by
    rw [ofNat_lt_iff hgroup]
    exact Nat.mod_lt _ (by decide)
  have hvalue : 128 * (n / 128) + n % 128 = n := Nat.div_add_mod n 128
  rw [groups, List.append_assoc, readGroups_leadingGroups, List.singleton_append, readGroups, if_pos hlast,
    toNat_ofNat hgroup, hvalue]

theorem groups_ne_nil (n : Nat) : groups n ≠ [] := by
  rw [groups]
  exact List.append_ne_nil_of_right_ne_nil _ (List.cons_ne_nil _ _)

theorem length_fixed (count n : Nat) : (fixed count n).length = count := by
  induction count generalizing n with
  | zero => rfl
  | succ count ih => rw [fixed, List.length_append, ih, List.length_singleton]

theorem number_fixed (count n : Nat) : number (fixed count n) = n % 256 ^ count := by
  induction count generalizing n with
  | zero => rw [Nat.pow_zero, Nat.mod_one]; rfl
  | succ count ih =>
    have happend : number (fixed count (n / 256) ++ [UInt8.ofNat (n % 256)]) =
        256 * number (fixed count (n / 256)) + (UInt8.ofNat (n % 256)).toNat := by
      rw [number, List.foldl_append]
      rfl
    rw [fixed, happend, ih, toNat_ofNat (Nat.mod_lt _ (by decide)), Nat.pow_succ', Nat.mod_mul, Nat.add_comm]

theorem number_fixed_of_lt {count n : Nat} (hn : n < 256 ^ count) : number (fixed count n) = n := by
  rw [number_fixed, Nat.mod_eq_of_lt hn]

theorem readBlock_append {content : Bytes} (hlength : content.length ≤ longestBlock) (rest : Bytes) :
    readBlock content.length (content ++ rest) = .ok (content, rest) := by
  rw [readBlock, if_neg (Nat.not_lt.2 hlength), if_neg (by rw [List.length_append]; omega), List.take_left,
    List.drop_left]

/-! ### Messages -/

/-- The values of the message fit into their places. -/
def Message.Fits : Message → Prop
  | .trackName name => name.length ≤ longestBlock
  | .setTempo _ => True
  | .noteOn channel note velocity | .noteOff channel note velocity => channel < 16 ∧ note < 128 ∧ velocity < 128
  | .programChange channel program => channel < 16 ∧ program < 128
  | .controlChange channel controller value => channel < 16 ∧ controller < 128 ∧ value < 128

/-- The note that the message starts. A beginning without velocity is an end. -/
def Message.onset? : Message → Option Nat
  | .noteOn _ note velocity => if 0 < velocity then some note else none
  | _ => none

/-- The status that a reader knows after a message; meta messages leave it. -/
def Form.known (running : Option UInt8) : Form → Option UInt8
  | .metaEvent _ _ => running
  | .channel status _ => some status

/-- The kind belongs to a meta message that may hold the content. -/
structure IsMeta (kind : UInt8) (content : Bytes) : Prop where
  length : content.length ≤ longestBlock
  content : checkMeta kind content = .ok ()
  known : isMetaKind kind = true

theorem readMeta_bytes {kind : UInt8} {content : Bytes} (hmeta : IsMeta kind content) (rest : Bytes) :
    readMeta (kind :: groups content.length ++ content ++ rest) = .ok (true, rest) := by
  rw [readMeta, List.cons_append, List.cons_append, List.append_assoc]
  simp only [readByte, bind, Except.bind, readGroups_groups, readBlock_append hmeta.length, hmeta.content, hmeta.known]
  rfl

theorem readStatus_meta {kind : UInt8} {content : Bytes} (hmeta : IsMeta kind content) (written known : Option UInt8)
    (rest : Bytes) :
    readStatus known ((Form.metaEvent kind content).bytes written ++ rest) =
      .ok ({ note := none, running := known, timed := true }, rest) := by
  have hread := readMeta_bytes hmeta rest
  rw [Form.bytes, readStatus, List.cons_append, List.cons_append, readByte]
  simp only [bind, Except.bind]
  rw [if_neg (by decide), if_pos trivial, hread]
  rfl

/-- The status byte belongs to a channel message that holds the data bytes. -/
structure IsChannel (status : UInt8) (content : Bytes) : Prop where
  least : 0x80 ≤ status
  most : status < 0xf0
  length : dataLength? status = some content.length
  some : content ≠ []
  data : ∀ byte ∈ content, byte < 0x80

theorem dataLength?_le {status : UInt8} {length : Nat} (hlength : dataLength? status = some length) : length ≤ 2 := by
  rw [dataLength?] at hlength
  split_ifs at hlength <;> cases hlength <;> decide

theorem readMessage_of_taken {status : UInt8} {taken content : Bytes} (hchannel : IsChannel status (taken ++ content))
    (rest : Bytes) : readMessage status taken (content ++ rest) = .ok (onset? status (taken ++ content), rest) := by
  have hshort := dataLength?_le hchannel.length
  have hblock : content.length ≤ longestBlock := by
    rw [List.length_append] at hshort
    exact Nat.le_trans (by omega : content.length ≤ 2) (by decide)
  have hdata : (taken ++ content).any (· > 127) = false := by
    rw [List.any_eq_false]
    intro byte hbyte
    have hlow := hchannel.data byte hbyte
    rw [decide_eq_true_eq, gt_iff_lt, UInt8.not_lt, UInt8.le_iff_toNat_le]
    rw [UInt8.lt_iff_toNat_lt] at hlow
    exact Nat.le_of_lt_succ hlow
  have hlength : (taken ++ content).length - taken.length = content.length := by rw [List.length_append]; omega
  simp only [readMessage, hchannel.length]
  rw [if_neg (by rw [List.length_append]; omega), hlength, readBlock_append hblock]
  simp only [bind, Except.bind, hdata]
  rfl

theorem readStatus_channel {status : UInt8} {content : Bytes} (hchannel : IsChannel status content)
    {written known : Option UInt8} (hknown : written = none ∨ written = known) (rest : Bytes) :
    readStatus known ((Form.channel status content).bytes written ++ rest) =
      .ok ({ note := onset? status content, running := some status, timed := true }, rest) := by
  have hstatus : ¬status < 0x80 := UInt8.not_lt.2 hchannel.least
  have hlow : ∀ other, 0xf0 ≤ other → status ≠ other := by
    rintro _ hother rfl
    exact UInt8.not_lt.2 hother hchannel.most
  rw [Form.bytes]
  split
  · next hrunning =>
    obtain ⟨first, others, rfl⟩ := List.exists_cons_of_ne_nil hchannel.some
    have hread := @readMessage_of_taken status [first] others hchannel rest
    have hsame : known = some status := by
      rcases hknown with hnone | hsame
      · rw [hnone] at hrunning
        cases hrunning
      · rw [← hsame, hrunning]
    rw [readStatus, List.cons_append, readByte]
    simp only [bind, Except.bind]
    rw [if_pos (hchannel.data first List.mem_cons_self), hsame]
    dsimp only
    rw [if_neg, hread]
    · rfl
    · simp [hlow 0xf0 (by decide), hlow 0xf7 (by decide)]
  · have hread := @readMessage_of_taken status [] content hchannel rest
    rw [List.nil_append] at hread
    rw [readStatus, List.cons_append, readByte]
    simp only [bind, Except.bind]
    rw [if_neg hstatus, if_neg (hlow 0xff (by decide)), if_neg, hread]
    · rfl
    · simp [hlow 0xf0 (by decide), hlow 0xf7 (by decide)]

end TurtleMusic.Midi
