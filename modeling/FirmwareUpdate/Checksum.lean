/-
Image checksums: the algorithms on offer, and a running checksum that takes in
bytes in pieces of any size.
-/
import FirmwareUpdate.Bytes
import FirmwareUpdate.Name
import FirmwareUpdate.Checksum.Crc

namespace FirmwareUpdate

/-- The checksum algorithms.  The small variants give the same values without a table. -/
inductive ChecksumKind
  | crc32
  | crc32Small
  | crc64
  | crc64Small
  | fnv1a32
  | fnv1a64
deriving DecidableEq, Repr

/-- The one thing that can go wrong in the choice of a checksum. -/
inductive ChecksumError
  | unknownName
deriving DecidableEq, Repr

/-- The sentence shown for an error. -/
def ChecksumError.message : ChecksumError → String
  | unknownName => "unknown checksum algorithm"

namespace ChecksumKind

/-- All algorithms, in the order in which they are listed to the user. -/
def all : List ChecksumKind :=
  [crc32, crc32Small, crc64, crc64Small, fnv1a32, fnv1a64]

/-- The short name for command lines. -/
def id : ChecksumKind → String
  | crc32 => "crc32"
  | crc32Small => "crc32-small"
  | crc64 => "crc64"
  | crc64Small => "crc64-small"
  | fnv1a32 => "fnv1a32"
  | fnv1a64 => "fnv1a64"

/-- The full name, which variants of one algorithm share. -/
def name : ChecksumKind → String
  | crc32 | crc32Small => "CRC-32"
  | crc64 | crc64Small => "CRC-64"
  | fnv1a32 => "FNV1A-32"
  | fnv1a64 => "FNV1A-64"

/-- The number of stored bytes. -/
def width : ChecksumKind → Nat
  | crc32 | crc32Small | fnv1a32 => 4
  | crc64 | crc64Small | fnv1a64 => 8

/-- The number of register bits. -/
def bits : ChecksumKind → Nat
  | crc32 | crc32Small | fnv1a32 => 32
  | crc64 | crc64Small | fnv1a64 => 64

/-- The register before the first byte. -/
def start : (kind : ChecksumKind) → BitVec kind.bits
  | crc32 | crc32Small => Crc.image32.start
  | crc64 | crc64Small => Crc.image64.start
  | fnv1a32 => Fnv.hash32.offset
  | fnv1a64 => Fnv.hash64.offset

/-- The register after one more byte. -/
def step : (kind : ChecksumKind) → BitVec kind.bits → UInt8 → BitVec kind.bits
  | crc32 => Crc.lookupStep Crc.table32
  | crc32Small => Crc.byteStep Crc.image32
  | crc64 => Crc.lookupStep Crc.table64
  | crc64Small => Crc.byteStep Crc.image64
  | fnv1a32 => Fnv.byteStep Fnv.hash32
  | fnv1a64 => Fnv.byteStep Fnv.hash64

/-- The algorithm with this short name. -/
def ofName (text : String) : Except ChecksumError ChecksumKind :=
  match all.find? fun k => sameName text k.id with
  | some k => .ok k
  | none => .error .unknownName

theorem width_pos (kind : ChecksumKind) : 0 < kind.width := by
  cases kind <;> decide

end ChecksumKind

/-- A running checksum. -/
structure Checksum where
  kind : ChecksumKind
  register : BitVec kind.bits

namespace Checksum

/-- The checksum of no bytes. -/
def start (kind : ChecksumKind) : Checksum :=
  ⟨kind, kind.start⟩

/-- Take in one byte. -/
def push (sum : Checksum) (b : UInt8) : Checksum :=
  ⟨sum.kind, sum.kind.step sum.register b⟩

/-- Take in a string. -/
def update (sum : Checksum) (data : Bytes) : Checksum :=
  data.foldl push sum

/-- The checksum of a string. -/
def ofBytes (kind : ChecksumKind) (data : Bytes) : Checksum :=
  (start kind).update data

/-- The value as a number. -/
def value (sum : Checksum) : Nat :=
  sum.register.toNat

/-- The bytes that are stored behind a payload, least significant first. -/
def trailer (sum : Checksum) : Bytes :=
  Bytes.ofNatLE sum.kind.width sum.value

/-- Whether a string starts with this checksum. -/
def matchesFront (sum : Checksum) (stored : Bytes) : Bool :=
  stored.take sum.kind.width == sum.trailer

@[simp] theorem kind_push (sum : Checksum) (b : UInt8) : (sum.push b).kind = sum.kind := rfl

@[simp] theorem kind_update (sum : Checksum) (data : Bytes) :
    (sum.update data).kind = sum.kind := by
  induction data generalizing sum with
  | nil => rfl
  | cons b rest ih => exact ih (sum.push b)

theorem update_append (sum : Checksum) (x y : Bytes) :
    sum.update (x ++ y) = (sum.update x).update y :=
  List.foldl_append

@[simp] theorem length_trailer (sum : Checksum) : sum.trailer.length = sum.kind.width :=
  Bytes.length_ofNatLE _ _

end Checksum

end FirmwareUpdate
