/-
Rijndael is a permutation of its blocks.  The substitution is undone because the
inverse in the field is its own inverse, which is checked byte by byte on plain
numbers; the mixing of a column is undone by algebra alone, from the linearity of
doubling.
-/
import Mathlib.Data.LawfulXor.Basic
import FirmwareUpdate.Cipher.Rijndael

namespace FirmwareUpdate

namespace Rijndael

/-- `double` on numbers below 256. -/
def doubleNat (x : Nat) : Nat :=
  2 * x % 256 ^^^ 27 * (x / 128)

/-- `multiplyBits` on numbers below 256. -/
def multiplyNat : (count : Nat) → (x y : Nat) → Nat
  | 0, _, _ => 0
  | count + 1, x, y => y % 2 * x ^^^ multiplyNat count (doubleNat x) (y / 2)

/-- `inverse` on numbers below 256. -/
def inverseNat (x : Nat) : Nat :=
  ((List.range 7).foldl (fun s _ =>
      let square := multiplyNat 8 s.2 s.2
      (multiplyNat 8 s.1 square, square))
    ((1, x) : Nat × Nat)).1

theorem toNat_double (x : UInt8) : (double x).toNat = doubleNat x.toNat := by
  have hx := x.toNat_lt
  have hshift : (x <<< 1).toNat = 2 * x.toNat % 256 := by
    rw [UInt8.toNat_shiftLeft, Nat.shiftLeft_eq]
    simp
    omega
  have htop : (if x < 0x80 then 0 else (0x1B : UInt8)).toNat = 27 * (x.toNat / 128) := by
    have hlt : x < 0x80 ↔ x.toNat < 128 := UInt8.lt_iff_toNat_lt
    by_cases h : x < 0x80
    · have hzero : x.toNat / 128 = 0 := Nat.div_eq_of_lt (hlt.mp h)
      rw [if_pos h, hzero]
      rfl
    · have hge := mt hlt.mpr h
      have hone : x.toNat / 128 = 1 := by omega
      rw [if_neg h, hone]
      rfl
  rw [double, doubleNat, UInt8.toNat_xor, hshift, htop]

theorem toNat_multiplyBits (count : Nat) (x y : UInt8) :
    (multiplyBits count x y).toNat = multiplyNat count x.toNat y.toNat := by
  induction count generalizing x y with
  | zero => rfl
  | succ count ih =>
      have hbit : (if y &&& 1 = 1 then x else 0).toNat = y.toNat % 2 * x.toNat := by
        have hand : (y &&& 1).toNat = y.toNat % 2 := Nat.and_one_is_mod y.toNat
        have hodd : y &&& 1 = 1 ↔ y.toNat % 2 = 1 := by
          rw [← UInt8.toNat_inj, hand]
          rfl
        rcases Nat.mod_two_eq_zero_or_one y.toNat with heven | hone
        · rw [if_neg (by rw [hodd, heven]; decide), heven, Nat.zero_mul]
          rfl
        · rw [if_pos (hodd.mpr hone), hone, Nat.one_mul]
      have hhalf : (y >>> 1).toNat = y.toNat / 2 := Nat.shiftRight_eq_div_pow y.toNat 1
      rw [multiplyBits, multiplyNat, UInt8.toNat_xor, ih, toNat_double, hbit, hhalf]

theorem toNat_inverse (x : UInt8) : (inverse x).toNat = inverseNat x.toNat := by
  simp only [inverse, inverseNat, multiply, List.range, List.range.loop, List.foldl_cons,
    List.foldl_nil, toNat_multiplyBits]
  rfl

/-- The check that carries the substitution, made on numbers because their
operations are much cheaper to evaluate than those of words. -/
theorem inverseNat_inverseNat : ∀ n < 256, inverseNat (inverseNat n) = n := by
  decide +kernel

theorem inverse_inverse (x : UInt8) : inverse (inverse x) = x := by
  apply UInt8.toNat_inj.mp
  rw [toNat_inverse, toNat_inverse, inverseNat_inverseNat _ x.toNat_lt]

theorem affineBack_affine (x : UInt8) : affineBack (affine x) = x := by
  have h : ∀ n < 256, affineBack (affine (UInt8.ofNat n)) = UInt8.ofNat n := by
    decide +kernel
  simpa using h x.toNat x.toNat_lt

theorem affine_affineBack (x : UInt8) : affine (affineBack x) = x := by
  have h : ∀ n < 256, affine (affineBack (UInt8.ofNat n)) = UInt8.ofNat n := by
    decide +kernel
  simpa using h x.toNat x.toNat_lt

theorem substitute_eq (x : UInt8) : substitute x = affine (inverse x) := by
  simp [substitute, substitutionTable]

theorem substituteBack_eq (x : UInt8) : substituteBack x = inverse (affineBack x) := by
  simp [substituteBack, inverseTable]

theorem substituteBack_substitute (x : UInt8) : substituteBack (substitute x) = x := by
  rw [substituteBack_eq, substitute_eq, affineBack_affine, inverse_inverse]

theorem substitute_substituteBack (x : UInt8) : substitute (substituteBack x) = x := by
  rw [substitute_eq, substituteBack_eq, inverse_inverse, affine_affineBack]

theorem xor_left_comm (a b c : UInt8) : a ^^^ (b ^^^ c) = b ^^^ (a ^^^ c) := by
  rw [← UInt8.xor_assoc, UInt8.xor_comm a b, UInt8.xor_assoc]

/-- The comparison that `double` makes looks at the top bit. -/
theorem lt_iff_msb_eq_false (x : UInt8) : x < 0x80 ↔ x.toBitVec.msb = false := by
  rw [UInt8.lt_iff_toNat_lt, BitVec.msb_eq_decide, decide_eq_false_iff_not, Nat.not_le]
  rfl

theorem double_xor (x y : UInt8) : double (x ^^^ y) = double x ^^^ double y := by
  have hmsb : (x ^^^ y).toBitVec.msb = (x.toBitVec.msb ^^ y.toBitVec.msb) := BitVec.msb_xor
  simp only [double, lt_iff_msb_eq_false, hmsb, UInt8.shiftLeft_xor]
  cases x.toBitVec.msb <;> cases y.toBitVec.msb <;>
    simp [UInt8.xor_assoc, UInt8.xor_comm _ 0x1B, xor_left_comm _ 0x1B]

theorem mixRow_xor (p q r s p' q' r' s' : UInt8) :
    mixRow (p ^^^ p') (q ^^^ q') (r ^^^ r') (s ^^^ s') =
      mixRow p q r s ^^^ mixRow p' q' r' s' := by
  simp only [mixRow, double_xor, UInt8.xor_assoc, UInt8.xor_comm, xor_left_comm]

/-- The two products differ by a multiple of four. -/
theorem unmixRow_eq (p q r s : UInt8) :
    unmixRow p q r s =
      mixRow p q r s ^^^ double (double (double (p ^^^ q ^^^ r ^^^ s) ^^^ (p ^^^ r))) := by
  simp only [mixRow, unmixRow, double_xor, UInt8.xor_assoc, UInt8.xor_comm, xor_left_comm]

/-- Mixing twice is the identity up to a multiple of four. -/
theorem mixRow_mixRow (p q r s : UInt8) :
    mixRow (mixRow p q r s) (mixRow q r s p) (mixRow r s p q) (mixRow s p q r) =
      double (double (p ^^^ r)) ^^^ p := by
  simp only [mixRow, double_xor, UInt8.xor_assoc, UInt8.xor_comm, xor_left_comm, xor_cancel_left]

theorem unmixRow_mixRow (p q r s : UInt8) :
    unmixRow (mixRow p q r s) (mixRow q r s p) (mixRow r s p q) (mixRow s p q r) = p := by
  have hall : mixRow p q r s ^^^ mixRow q r s p ^^^ mixRow r s p q ^^^ mixRow s p q r =
      p ^^^ q ^^^ r ^^^ s := by
    simp only [mixRow, UInt8.xor_assoc, UInt8.xor_comm, xor_left_comm, xor_cancel_left,
      UInt8.xor_self, UInt8.xor_zero]
  have hpair : mixRow p q r s ^^^ mixRow r s p q =
      double (p ^^^ q ^^^ r ^^^ s) ^^^ (p ^^^ r) := by
    simp only [mixRow, double_xor, UInt8.xor_assoc, UInt8.xor_comm, xor_left_comm, xor_cancel_left]
  rw [unmixRow_eq, mixRow_mixRow, hall, hpair, xor_cancel_left, UInt8.xor_comm _ p, UInt8.xor_assoc,
    UInt8.xor_self, UInt8.xor_zero]

theorem mixRow_unmixRow (p q r s : UInt8) :
    mixRow (unmixRow p q r s) (unmixRow q r s p) (unmixRow r s p q) (unmixRow s p q r) = p := by
  simp only [unmixRow_eq, mixRow_xor, mixRow_mixRow]
  simp only [mixRow, double_xor, UInt8.xor_assoc, UInt8.xor_comm, xor_left_comm, xor_cancel_left,
    UInt8.xor_self, UInt8.xor_zero]

namespace Column

theorem unmix_mix (x : Column) : x.mix.unmix = x := by
  apply Column.ext <;> exact unmixRow_mixRow _ _ _ _

theorem mix_unmix (x : Column) : x.unmix.mix = x := by
  apply Column.ext <;> exact mixRow_unmixRow _ _ _ _

theorem map_map_of_inverse {f g : UInt8 → UInt8} (h : ∀ b, g (f b) = b) (x : Column) :
    (x.map f).map g = x := by
  simp [map, h]

theorem xor_xor_cancel (x y : Column) : x ^^^ y ^^^ y = x := by
  have h (a b : UInt8) : a ^^^ b ^^^ b = a := by
    rw [UInt8.xor_assoc, UInt8.xor_self, UInt8.xor_zero]
  exact Column.ext (h _ _) (h _ _) (h _ _) (h _ _)

theorem toBytes_ofBytes (b : Bytes) (h : 4 ≤ b.length) : (ofBytes b).toBytes = b.take 4 := by
  match b, h with
  | _ :: _ :: _ :: _ :: _, _ => rfl

end Column

namespace State

theorem map_map_of_inverse {f g : Column → Column} (h : ∀ x, g (f x) = x) (s : State) :
    (s.map f).map g = s := by
  simp [map, h]

theorem xor_xor_cancel (s t : State) : s ^^^ t ^^^ t = s :=
  State.ext (Column.xor_xor_cancel _ _) (Column.xor_xor_cancel _ _) (Column.xor_xor_cancel _ _)
    (Column.xor_xor_cancel _ _)

theorem ofBlock_toBlock (s : State) : ofBlock s.toBlock = s := by
  rfl

theorem toBlock_ofBlock (b : Block 16) : (ofBlock b).toBlock = b := by
  have h := b.length_bytes
  have hlast : (b.bytes.drop 12).take 4 = b.bytes.drop 12 :=
    List.take_of_length_le (by simp [h])
  apply Block.ext
  simp only [toBlock, ofBlock]
  rw [Column.toBytes_ofBytes _ (by omega), Column.toBytes_ofBytes _ (by simp [h]),
    Column.toBytes_ofBytes _ (by simp [h]), Column.toBytes_ofBytes _ (by simp [h]),
    hlast, Block.quarters]

end State

theorem round_lawful : round.Lawful := by
  constructor
  · intro k s
    simp only [round]
    rw [State.xor_xor_cancel, State.map_map_of_inverse Column.unmix_mix]
    exact State.map_map_of_inverse (Column.map_map_of_inverse substituteBack_substitute) s
  · intro k s
    simp only [round]
    rw [State.map_map_of_inverse (Column.map_map_of_inverse substitute_substituteBack)]
    change (((s ^^^ k).map Column.unmix).map Column.mix) ^^^ k = s
    rw [State.map_map_of_inverse Column.mix_unmix, State.xor_xor_cancel]

theorem lastRound_lawful : lastRound.Lawful := by
  constructor
  · intro k s
    simp only [lastRound]
    rw [State.xor_xor_cancel]
    exact State.map_map_of_inverse (Column.map_map_of_inverse substituteBack_substitute) s
  · intro k s
    simp only [lastRound]
    rw [State.map_map_of_inverse (Column.map_map_of_inverse substitute_substituteBack)]
    exact State.xor_xor_cancel s k

theorem whiten_lawful : whiten.Lawful :=
  ⟨fun k s => State.xor_xor_cancel s k, fun k s => State.xor_xor_cancel s k⟩

/-- Rijndael is a permutation for every number of rounds and every key. -/
theorem cipher_lawful (keyWords rounds : Nat) (key : Bytes) :
    (cipher keyWords rounds key).Lawful := by
  constructor
  · intro b
    simp only [cipher, BlockCipher.ofBlocks16]
    rw [State.ofBlock_toBlock, Round.undo_run lastRound_lawful, Round.undo_run round_lawful,
      Round.undo_run whiten_lawful]
    exact State.toBlock_ofBlock b
  · intro b
    simp only [cipher, BlockCipher.ofBlocks16]
    rw [State.ofBlock_toBlock, Round.run_undo whiten_lawful, Round.run_undo round_lawful,
      Round.run_undo lastRound_lawful]
    exact State.toBlock_ofBlock b

end Rijndael

end FirmwareUpdate
