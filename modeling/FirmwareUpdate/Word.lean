/-
Rotations of 32-bit words and their reading from byte strings.
-/
import FirmwareUpdate.Bytes

namespace FirmwareUpdate

namespace Word

/-- The word turned left by `n` places; only `n` modulo 32 counts. -/
def rotateLeft (x n : UInt32) : UInt32 :=
  (x <<< n) ||| (x >>> (32 - n))

/-- The word turned right by `n` places; only `n` modulo 32 counts. -/
def rotateRight (x n : UInt32) : UInt32 :=
  (x >>> n) ||| (x <<< (32 - n))

/-- The two shifts of a rotation make up the width of the word. -/
theorem shift_complement (n : UInt32) :
    (32 - n).toNat % 32 = (32 - n.toNat % 32) % 32 := by
  have h := n.toNat_lt
  have h32 : (32 : UInt32).toNat = 32 := rfl
  rw [UInt32.toNat_sub, h32]
  omega

/-- Bit `i` of a word turned left comes from `n` places below, around the end. -/
theorem getLsbD_rotateLeft (x n : UInt32) (i : Nat) (hi : i < 32) :
    (rotateLeft x n).toBitVec.getLsbD i =
      x.toBitVec.getLsbD ((i + (32 - n.toNat % 32)) % 32) := by
  have hm : n.toNat % 32 < 32 := Nat.mod_lt _ (by decide)
  simp only [rotateLeft, UInt32.toBitVec_or, UInt32.toBitVec_shiftLeft,
    UInt32.toBitVec_shiftRight, BitVec.getLsbD_or, BitVec.shiftLeft_eq', BitVec.ushiftRight_eq',
    BitVec.toNat_umod, UInt32.toNat_toBitVec, BitVec.getLsbD_shiftLeft,
    BitVec.getLsbD_ushiftRight, show BitVec.toNat (32 : BitVec 32) = 32 from rfl,
    shift_complement]
  generalize n.toNat % 32 = m at hm ⊢
  by_cases hlow : i < m
  · have hdrop : (32 - m) % 32 + i = (i + (32 - m)) % 32 := by omega
    simp [hlow, hdrop]
  · have hkeep : i - m = (i + (32 - m)) % 32 := by omega
    by_cases hzero : m = 0
    · subst hzero
      simp [hi, Nat.mod_eq_of_lt hi]
    · have hgone : x.toBitVec.getLsbD ((32 - m) % 32 + i) = false :=
        BitVec.getLsbD_of_ge _ _ (by omega)
      simp [hlow, hi, hgone, hkeep]

/-- Bit `i` of a word turned right comes from `n` places above, around the end. -/
theorem getLsbD_rotateRight (x n : UInt32) (i : Nat) (hi : i < 32) :
    (rotateRight x n).toBitVec.getLsbD i =
      x.toBitVec.getLsbD ((i + n.toNat % 32) % 32) := by
  have hm : n.toNat % 32 < 32 := Nat.mod_lt _ (by decide)
  simp only [rotateRight, UInt32.toBitVec_or, UInt32.toBitVec_shiftLeft,
    UInt32.toBitVec_shiftRight, BitVec.getLsbD_or, BitVec.shiftLeft_eq', BitVec.ushiftRight_eq',
    BitVec.toNat_umod, UInt32.toNat_toBitVec, BitVec.getLsbD_shiftLeft,
    BitVec.getLsbD_ushiftRight, show BitVec.toNat (32 : BitVec 32) = 32 from rfl,
    shift_complement]
  generalize n.toNat % 32 = m at hm ⊢
  by_cases hlow : m + i < 32
  · have hkeep : (i + m) % 32 = m + i := by omega
    by_cases hzero : m = 0
    · subst hzero
      simp [hi, Nat.mod_eq_of_lt hi]
    · have hbelow : i < (32 - m) % 32 := by omega
      simp [hkeep, hbelow]
  · have hgone : x.toBitVec.getLsbD (m + i) = false := BitVec.getLsbD_of_ge _ _ (by omega)
    have hturn : i - (32 - m) % 32 = (i + m) % 32 := by omega
    have hbelow : ¬ i < (32 - m) % 32 := by omega
    simp [hgone, hturn, hbelow, hi]

/-- Turning right undoes turning left. -/
@[simp] theorem rotateRight_rotateLeft (x n : UInt32) : rotateRight (rotateLeft x n) n = x := by
  apply UInt32.toBitVec_inj.mp
  apply BitVec.eq_of_getLsbD_eq
  intro i hi
  rw [getLsbD_rotateRight _ _ _ hi, getLsbD_rotateLeft _ _ _ (Nat.mod_lt _ (by decide))]
  congr 1
  omega

/-- Turning left undoes turning right. -/
@[simp] theorem rotateLeft_rotateRight (x n : UInt32) : rotateLeft (rotateRight x n) n = x := by
  apply UInt32.toBitVec_inj.mp
  apply BitVec.eq_of_getLsbD_eq
  intro i hi
  rw [getLsbD_rotateLeft _ _ _ hi, getLsbD_rotateRight _ _ _ (Nat.mod_lt _ (by decide))]
  congr 1
  omega

/-- The word written in four bytes, least significant first. -/
def ofBytesLE (b : Bytes) : UInt32 :=
  UInt32.ofNat (Bytes.natLE b)

/-- The word written in four bytes, most significant first. -/
def ofBytesBE (b : Bytes) : UInt32 :=
  ofBytesLE b.reverse

/-- The four bytes of a word, least significant first. -/
def toBytesLE (x : UInt32) : Bytes :=
  Bytes.ofNatLE 4 x.toNat

/-- The word number `i` of a key, least significant byte first. -/
def keyLE (key : Bytes) (i : Nat) : UInt32 :=
  ofBytesLE ((key.drop (4 * i)).take 4)

/-- The word number `i` of a key, most significant byte first. -/
def keyBE (key : Bytes) (i : Nat) : UInt32 :=
  ofBytesBE ((key.drop (4 * i)).take 4)

@[simp] theorem length_toBytesLE (x : UInt32) : (toBytesLE x).length = 4 :=
  Bytes.length_ofNatLE 4 x.toNat

theorem capacity_four : Bytes.capacity 4 = 0x100000000 := rfl

theorem ofBytesLE_toBytesLE (x : UInt32) : ofBytesLE (toBytesLE x) = x := by
  apply UInt32.toNat_inj.mp
  have hx := x.toNat_lt
  rw [ofBytesLE, toBytesLE, Bytes.natLE_ofNatLE, UInt32.toNat_ofNat', capacity_four]
  omega

theorem toBytesLE_ofBytesLE (b : Bytes) (hb : b.length = 4) :
    toBytesLE (ofBytesLE b) = b := by
  have hlt := Bytes.natLE_lt b
  rw [hb, capacity_four] at hlt
  have hval : (ofBytesLE b).toNat = Bytes.natLE b := by
    rw [ofBytesLE, UInt32.toNat_ofNat']
    omega
  rw [toBytesLE, hval, ← hb, Bytes.ofNatLE_natLE]

end Word

end FirmwareUpdate
