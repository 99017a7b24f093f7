/-
Checks with a table and without.  A bitwise step is linear and only shifts zeros out, so one
look-up does what eight bitwise steps do; the two variants of an algorithm give the same values
and find the same places in every string.
-/
import FirmwareUpdate.Checksum.Scanner
import FirmwareUpdate.Checksum.Trailer

namespace FirmwareUpdate

namespace Crc

variable {w : Nat} (crc : Crc w)

/-- What a bitwise step adds to the shifted register. -/
def feedback (r : BitVec w) : BitVec w :=
  if r.getLsbD 0 then crc.polynomial else 0#w

theorem bitStep_eq (r : BitVec w) : crc.bitStep r = (r >>> 1) ^^^ crc.feedback r := by
  unfold bitStep feedback
  split
  · rfl
  · exact BitVec.xor_zero.symm

theorem feedback_xor (x y : BitVec w) :
    crc.feedback (x ^^^ y) = crc.feedback x ^^^ crc.feedback y := by
  simp only [feedback, BitVec.getLsbD_xor]
  cases x.getLsbD 0 <;> cases y.getLsbD 0 <;> simp

/-- A bitwise step is linear. -/
theorem bitStep_xor (x y : BitVec w) :
    crc.bitStep (x ^^^ y) = crc.bitStep x ^^^ crc.bitStep y := by
  rw [bitStep_eq, bitStep_eq, bitStep_eq, feedback_xor, BitVec.ushiftRight_xor_distrib]
  ac_rfl

theorem repeat_bitStep_xor (count : Nat) (x y : BitVec w) :
    Nat.repeat crc.bitStep count (x ^^^ y) =
      Nat.repeat crc.bitStep count x ^^^ Nat.repeat crc.bitStep count y := by
  induction count with
  | zero => rfl
  | succ count ih => rw [Nat.repeat, ih, bitStep_xor, Nat.repeat, Nat.repeat]

/-- As long as only zeros leave the register, the steps do no more than shift it. -/
theorem repeat_bitStep_of_low_zero {count : Nat} {r : BitVec w}
    (h : ∀ i < count, r.getLsbD i = false) : Nat.repeat crc.bitStep count r = r >>> count := by
  induction count with
  | zero => exact (BitVec.ushiftRight_zero r).symm
  | succ count ih =>
      have hlow : (r >>> count).getLsbD 0 = false := by
        rw [BitVec.getLsbD_ushiftRight]
        exact h count (Nat.lt_succ_self count)
      rw [Nat.repeat, ih fun i hi => h i (Nat.lt_succ_of_lt hi), bitStep, hlow,
        if_neg Bool.false_ne_true, BitVec.shiftRight_add]

/-- The register with its lowest byte cleared only moves down by a byte. -/
theorem repeat_bitStep_high (r : BitVec w) :
    Nat.repeat crc.bitStep 8 ((r >>> 8) <<< 8) = r >>> 8 := by
  rw [repeat_bitStep_of_low_zero]
  · apply BitVec.eq_of_getLsbD_eq
    intro i hi
    by_cases hin : 8 + i < w
    · simp [hin]
    · have hout : r.getLsbD (8 + i) = false := BitVec.getLsbD_of_ge _ _ (Nat.le_of_not_lt hin)
      simp [hin, hout]
  · intro i hi
    simp [hi]

/-- What eight steps start from is the index of the table and the rest of the register. -/
theorem xor_setWidth (r : BitVec w) (b : BitVec 8) :
    r ^^^ b.setWidth w = (r.setWidth 8 ^^^ b).setWidth w ^^^ ((r >>> 8) <<< 8) := by
  apply BitVec.eq_of_getLsbD_eq
  intro i hi
  simp only [BitVec.getLsbD_xor, BitVec.getLsbD_setWidth, BitVec.getLsbD_shiftLeft,
    BitVec.getLsbD_ushiftRight, hi]
  by_cases hlow : i < 8
  · simp [hlow]
  · have hout : b.getLsbD i = false := BitVec.getLsbD_of_ge _ _ (Nat.le_of_not_lt hlow)
    have hin : 8 + (i - 8) = i := by omega
    simp [hlow, hout, hin]

/-- One look-up does what eight bitwise steps do, at any width of the register. -/
theorem lookupStep_table (r : BitVec w) (b : UInt8) :
    lookupStep crc.table r b = crc.byteStep r b := by
  rw [byteStep, xor_setWidth, repeat_bitStep_xor, repeat_bitStep_high]
  simp only [lookupStep, table, Vector.getElem_ofFn, BitVec.ofNat_toNat]

end Crc

/-- The variant of an algorithm that does without a table. -/
def ChecksumKind.small : ChecksumKind → ChecksumKind
  | crc32 => crc32Small
  | crc64 => crc64Small
  | kind => kind

namespace Checksum

/-- The running checksum of the other variant, with the same register. -/
def small : Checksum → Checksum
  | ⟨.crc32, register⟩ => ⟨.crc32Small, register⟩
  | ⟨.crc64, register⟩ => ⟨.crc64Small, register⟩
  | sum => sum

variable (sum : Checksum) (kind : ChecksumKind)

@[simp] theorem kind_small : sum.small.kind = sum.kind.small := by
  obtain ⟨kind, register⟩ := sum
  cases kind <;> rfl

@[simp] theorem value_small : sum.small.value = sum.value := by
  obtain ⟨kind, register⟩ := sum
  cases kind <;> rfl

@[simp] theorem trailer_small : sum.small.trailer = sum.trailer := by
  obtain ⟨kind, register⟩ := sum
  cases kind <;> rfl

@[simp] theorem small_start : (start kind).small = start kind.small := by
  cases kind <;> rfl

/-- The two variants take in a byte alike. -/
theorem push_small (b : UInt8) : sum.small.push b = (sum.push b).small := by
  obtain ⟨kind, register⟩ := sum
  cases kind with
  | crc32 => exact congrArg (Checksum.mk .crc32Small) (Crc.image32.lookupStep_table register b).symm
  | crc64 => exact congrArg (Checksum.mk .crc64Small) (Crc.image64.lookupStep_table register b).symm
  | _ => rfl

theorem update_small (data : Bytes) : sum.small.update data = (sum.update data).small := by
  induction data generalizing sum with
  | nil => rfl
  | cons b rest ih =>
      change (sum.small.push b).update rest = ((sum.push b).update rest).small
      rw [push_small, ih]

theorem foldl_update_small (pieces : List Bytes) :
    pieces.foldl update sum.small = (pieces.foldl update sum).small := by
  induction pieces generalizing sum with
  | nil => rfl
  | cons piece pieces ih =>
      change pieces.foldl update (sum.small.update piece) =
        (pieces.foldl update (sum.update piece)).small
      rw [update_small, ih]

theorem ofBytes_small (data : Bytes) : ofBytes kind.small data = (ofBytes kind data).small := by
  rw [ofBytes, ofBytes, ← small_start, update_small]

theorem matchesFront_small (stored : Bytes) :
    sum.small.matchesFront stored = sum.matchesFront stored := by
  obtain ⟨kind, register⟩ := sum
  cases kind <;> rfl

end Checksum

@[simp] theorem ChecksumKind.width_small (kind : ChecksumKind) : kind.small.width = kind.width := by
  cases kind <;> rfl

@[simp] theorem ChecksumKind.name_small (kind : ChecksumKind) : kind.small.name = kind.name := by
  cases kind <;> rfl

namespace Trailer

variable (kind : ChecksumKind)

theorem append_small (buffer : Bytes) (len : Nat) :
    append kind.small buffer len = append kind buffer len := by
  simp only [append, ChecksumKind.width_small, Checksum.ofBytes_small, Checksum.trailer_small]

theorem findFrom_small (sum : Checksum) (passed : Nat) (ahead : Bytes) :
    findFrom sum.small passed ahead = findFrom sum passed ahead := by
  induction ahead generalizing sum passed with
  | nil => rw [findFrom, findFrom, Checksum.matchesFront_small]
  | cons b rest ih =>
      rw [findFrom, findFrom, Checksum.matchesFront_small, Checksum.push_small, ih]

theorem find?_small (data : Bytes) : find? kind.small data = find? kind data := by
  rw [find?, find?, ← Checksum.small_start, findFrom_small]

theorem payloadLength_small (data : Bytes) :
    payloadLength kind.small data = payloadLength kind data := by
  rw [payloadLength, payloadLength, find?_small]

end Trailer

namespace Scanner

/-- The search for the checksum of the other variant, at the same place. -/
def small (s : Scanner) : Scanner :=
  { s with running := s.running.small }

variable (s : Scanner)

@[simp] theorem small_start (kind : ChecksumKind) : (start kind).small = start kind.small := by
  rw [start, start, small, Checksum.small_start]

@[simp] theorem found_small : s.small.found = s.found := rfl

theorem reset_small : s.small.reset = s.reset.small := by
  rw [reset, reset, small_start]
  exact congrArg start s.running.kind_small

theorem push_small (b : UInt8) : s.small.push b = (s.push b).small := by
  have hfront (window : Bytes) :
      s.small.running.matchesFront window = s.running.matchesFront window :=
    s.running.matchesFront_small window
  have hwidth : s.small.running.kind.width = s.running.kind.width := by
    rw [small, Checksum.kind_small, ChecksumKind.width_small]
  have hfound : s.small.found = s.found := rfl
  have hwindow : s.small.window = s.window := rfl
  simp only [push, hfront, hwidth, hfound, hwindow]
  split
  · rfl
  · split
    · rfl
    · split
      · rfl
      · cases s.window ++ [b] with
        | nil => rfl
        | cons first rest =>
            simp only [small]
            rw [Checksum.push_small]

theorem update_small (data : Bytes) : s.small.update data = (s.update data).small := by
  induction data generalizing s with
  | nil => rfl
  | cons b rest ih =>
      change (s.small.push b).update rest = ((s.push b).update rest).small
      rw [push_small, ih]

theorem foldl_update_small (pieces : List Bytes) :
    pieces.foldl update s.small = (pieces.foldl update s).small := by
  induction pieces generalizing s with
  | nil => rfl
  | cons piece pieces ih =>
      change pieces.foldl update (s.small.update piece) =
        (pieces.foldl update (s.update piece)).small
      rw [update_small, ih]

end Scanner

end FirmwareUpdate
