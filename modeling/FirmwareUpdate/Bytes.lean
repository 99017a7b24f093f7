/-
Byte strings, the numbers written in them, and padding to a whole number of
units.  A number is written least significant byte first; a reader of the other
order reverses the bytes.
-/
namespace FirmwareUpdate

/-- A string of bytes. -/
abbrev Bytes := List UInt8

namespace Bytes

/-- The number whose base-256 digits are the bytes, least significant first. -/
def natLE : Bytes → Nat
  | [] => 0
  | b :: rest => b.toNat + 256 * natLE rest

/-- The `width` lowest base-256 digits of `n`, least significant first. -/
def ofNatLE : (width : Nat) → (n : Nat) → Bytes
  | 0, _ => []
  | width + 1, n => UInt8.ofNat n :: ofNatLE width (n / 256)

/-- The number of strings of `width` bytes, above every number written in one. -/
def capacity : (width : Nat) → Nat
  | 0 => 1
  | width + 1 => 256 * capacity width

@[simp] theorem length_ofNatLE (width n : Nat) :
    (ofNatLE width n).length = width := by
  induction width generalizing n with
  | zero => rfl
  | succ width ih => simp [ofNatLE, ih]

theorem natLE_lt (b : Bytes) : natLE b < capacity b.length := by
  induction b with
  | nil => exact Nat.one_pos
  | cons b rest ih =>
      have hb := b.toNat_lt
      simp only [natLE, List.length_cons, capacity]
      omega

/-- Writing the number read from a string gives the string back. -/
theorem ofNatLE_natLE (b : Bytes) : ofNatLE b.length (natLE b) = b := by
  induction b with
  | nil => rfl
  | cons b rest ih =>
      have hb := b.toNat_lt
      have hdiv : (b.toNat + 256 * natLE rest) / 256 = natLE rest := by omega
      have hmod : UInt8.ofNat (b.toNat + 256 * natLE rest) = b := by
        apply UInt8.toNat_inj.mp
        rw [UInt8.toNat_ofNat']
        omega
      simp only [List.length_cons, ofNatLE, natLE, hdiv, hmod, ih]

/-- Reading what was written keeps the digits that fit. -/
theorem natLE_ofNatLE (width n : Nat) :
    natLE (ofNatLE width n) = n % capacity width := by
  induction width generalizing n with
  | zero => simp [ofNatLE, natLE, capacity, Nat.mod_one]
  | succ width ih =>
      have hb : (UInt8.ofNat n).toNat = n % 256 := UInt8.toNat_ofNat'
      rw [ofNatLE, natLE, ih, hb, capacity, Nat.mod_mul]

/-- Digits that are not written do not matter. -/
theorem ofNatLE_mod_capacity {count width : Nat} (h : count ≤ width) (n : Nat) :
    ofNatLE count (n % capacity width) = ofNatLE count n := by
  induction count generalizing width n with
  | zero => rfl
  | succ count ih =>
      cases width with
      | zero => omega
      | succ width =>
          have hlow : UInt8.ofNat (n % (256 * capacity width)) = UInt8.ofNat n := by
            apply UInt8.toNat_inj.mp
            rw [UInt8.toNat_ofNat', UInt8.toNat_ofNat', Nat.mod_mul_right_mod]
          have hhigh : n % (256 * capacity width) / 256 = n / 256 % capacity width :=
            Nat.mod_mul_right_div_self n 256 (capacity width)
          rw [ofNatLE, ofNatLE, capacity, hlow, hhigh, ih (Nat.le_of_succ_le_succ h)]

theorem take_ofNatLE (count width n : Nat) :
    (ofNatLE width n).take count = ofNatLE (min count width) n := by
  induction width generalizing count n with
  | zero =>
      rw [Nat.min_zero]
      exact List.take_nil
  | succ width ih =>
      cases count with
      | zero => rw [Nat.zero_min]; rfl
      | succ count =>
          rw [ofNatLE, List.take_succ_cons, ih, Nat.succ_min_succ]
          rfl

/-- The least multiple of `unit` that is not below `n`. -/
def roundUp (n unit : Nat) : Nat :=
  (n + unit - 1) / unit * unit

/-- The string followed by the fewest zeros that make its length a multiple of `unit`. -/
def padZero (unit : Nat) (b : Bytes) : Bytes :=
  b ++ List.replicate (roundUp b.length unit - b.length) 0

theorem roundUp_mod (n unit : Nat) : roundUp n unit % unit = 0 :=
  Nat.mul_mod_left _ _

/-- Rounding up stays within one unit. -/
theorem roundUp_bounds (n : Nat) {unit : Nat} (h : 0 < unit) :
    n ≤ roundUp n unit ∧ roundUp n unit < n + unit := by
  have hdiv := Nat.div_add_mod (n + unit - 1) unit
  have hmod := Nat.mod_lt (n + unit - 1) h
  rw [Nat.mul_comm] at hdiv
  rw [roundUp]
  omega

theorem roundUp_mono {n m : Nat} (h : n ≤ m) (unit : Nat) : roundUp n unit ≤ roundUp m unit := by
  apply Nat.mul_le_mul_right
  apply Nat.div_le_div_right
  omega

/-- Whole units in front are not rounded. -/
theorem roundUp_add {k unit : Nat} (hk : k % unit = 0) (n : Nat) (h : 0 < unit) :
    roundUp (k + n) unit = k + roundUp n unit := by
  obtain ⟨count, rfl⟩ := Nat.dvd_of_mod_eq_zero hk
  have hsum : unit * count + n + unit - 1 = n + unit - 1 + unit * count := by omega
  rw [roundUp, roundUp, hsum, Nat.add_mul_div_left _ _ h, Nat.add_mul, Nat.mul_comm count,
    Nat.add_comm]

/-- A whole number of units is not rounded. -/
theorem roundUp_of_aligned {n unit : Nat} (hunit : 0 < unit) (h : n % unit = 0) :
    roundUp n unit = n := by
  have hround := roundUp_add h 0 hunit
  have hbounds := roundUp_bounds 0 hunit
  have hzero : roundUp 0 unit = 0 := by
    have hmod := roundUp_mod 0 unit
    rw [Nat.mod_eq_of_lt (by omega)] at hmod
    exact hmod
  rwa [Nat.add_zero, hzero, Nat.add_zero] at hround

/-- Rounding up does not pass a bound of whole units. -/
theorem roundUp_le_iff {n limit unit : Nat} (hunit : 0 < unit) (hlimit : limit % unit = 0) :
    roundUp n unit ≤ limit ↔ n ≤ limit := by
  constructor
  · exact Nat.le_trans (roundUp_bounds n hunit).1
  · intro h
    have hmono := roundUp_mono h unit
    rwa [roundUp_of_aligned hunit hlimit] at hmono

/-- A whole number of units needs no padding. -/
theorem padZero_of_aligned {unit : Nat} {b : Bytes} (hunit : 0 < unit)
    (h : b.length % unit = 0) : padZero unit b = b := by
  rw [padZero, roundUp_of_aligned hunit h, Nat.sub_self, List.replicate_zero, List.append_nil]

theorem length_padZero (b : Bytes) {unit : Nat} (h : 0 < unit) :
    (padZero unit b).length = roundUp b.length unit := by
  have hle := (roundUp_bounds b.length h).1
  rw [padZero, List.length_append, List.length_replicate]
  omega

end Bytes

end FirmwareUpdate
