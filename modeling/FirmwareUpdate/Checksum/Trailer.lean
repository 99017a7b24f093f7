/-
Checksums stored behind a payload: writing one into a buffer, and finding the
first place of a string where the checksum of the bytes before it is stored.
-/
import FirmwareUpdate.Checksum

namespace FirmwareUpdate

namespace Trailer

/-- Lengths are counted in 64 bits. -/
def lengthLimit : Nat := 0x10000000000000000

/-- Write the checksum of the first `len` bytes of a buffer behind them.  Gives the
new length and buffer, or nothing if the trailer does not fit. -/
def append (kind : ChecksumKind) (buffer : Bytes) (len : Nat) : Option (Nat × Bytes) :=
  let stop := len + kind.width
  if stop < lengthLimit ∧ stop ≤ buffer.length then
    let payload := buffer.take len
    some (stop, payload ++ (Checksum.ofBytes kind payload).trailer ++ buffer.drop stop)
  else none

/-- The first match in the bytes ahead, when `passed` bytes with checksum `sum`
lie behind. -/
def findFrom (sum : Checksum) (passed : Nat) : Bytes → Option Nat
  | [] => if sum.matchesFront [] then some passed else none
  | b :: rest =>
      if sum.matchesFront (b :: rest) then some passed
      else findFrom (sum.push b) (passed + 1) rest

/-- The least offset of a string at which the checksum of the bytes before it is stored. -/
def find? (kind : ChecksumKind) (data : Bytes) : Option Nat :=
  findFrom (Checksum.start kind) 0 data

/-- The payload length of a string with a trailer.  Zero also stands for a string
in which no checksum is found. -/
def payloadLength (kind : ChecksumKind) (data : Bytes) : Nat :=
  (find? kind data).getD 0

end Trailer

end FirmwareUpdate
