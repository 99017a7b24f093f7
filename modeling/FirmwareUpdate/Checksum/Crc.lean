/-
Reflected cyclic redundancy checks of any register width: the bitwise step, and
the step that looks up eight bitwise steps at once in a table.
-/
namespace FirmwareUpdate

/-- The parameters of a reflected check without final mask. -/
structure Crc (w : Nat) where
  polynomial : BitVec w
  start : BitVec w
deriving DecidableEq, Repr

namespace Crc

variable {w : Nat}

/-- Divide the register by the variable once: a bit that leaves adds the polynomial. -/
def bitStep (crc : Crc w) (r : BitVec w) : BitVec w :=
  if r.getLsbD 0 then (r >>> 1) ^^^ crc.polynomial else r >>> 1

/-- Take in one byte by eight bitwise steps. -/
def byteStep (crc : Crc w) (r : BitVec w) (b : UInt8) : BitVec w :=
  Nat.repeat crc.bitStep 8 (r ^^^ b.toBitVec.setWidth w)

/-- Eight bitwise steps from every byte value. -/
def table (crc : Crc w) : Vector (BitVec w) 256 :=
  Vector.ofFn fun i => Nat.repeat crc.bitStep 8 (BitVec.ofNat w i.val)

/-- Take in one byte by one look-up in a table of 256 entries. -/
def lookupStep (table : Vector (BitVec w) 256) (r : BitVec w) (b : UInt8) : BitVec w :=
  let i : BitVec 8 := r.setWidth 8 ^^^ b.toBitVec
  table[i.toNat] ^^^ (r >>> 8)

/-- CRC-32 as it is used for images. -/
def image32 : Crc 32 := ⟨0xEDB88320, 0xFFFFFFFF⟩

/-- CRC-64 as it is used for images. -/
def image64 : Crc 64 := ⟨0x95AC9329AC4BC9B5, 0xFFFFFFFFFFFFFFFF⟩

/-- The table of the 32-bit check. -/
def table32 : Vector (BitVec 32) 256 := table image32

/-- The table of the 64-bit check. -/
def table64 : Vector (BitVec 64) 256 := table image64

end Crc

/-- The parameters of a multiplicative byte hash. -/
structure Fnv (w : Nat) where
  offset : BitVec w
  prime : BitVec w
deriving DecidableEq, Repr

namespace Fnv

/-- Take in one byte: mask it in first, then multiply. -/
def byteStep {w : Nat} (fnv : Fnv w) (r : BitVec w) (b : UInt8) : BitVec w :=
  (r ^^^ b.toBitVec.setWidth w) * fnv.prime

/-- The 32-bit hash. -/
def hash32 : Fnv 32 := ⟨0x811C9DC5, 16777619⟩

/-- The 64-bit hash. -/
def hash64 : Fnv 64 := ⟨0xCBF29CE484222325, 1099511628211⟩

end Fnv

end FirmwareUpdate
