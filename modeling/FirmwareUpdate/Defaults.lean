/-
The settings that host and device are built with: cipher, keys, nonce, transfer
sizes and USB identity.
-/
import FirmwareUpdate.Checksum
import FirmwareUpdate.Cipher.Kind

namespace FirmwareUpdate

namespace Defaults

/-- The cipher of images. -/
def cipher : CipherKind := .block .rc5

/-- The chaining mode of images. -/
def mode : ChainMode := .cbc

/-- The checksum of images; none is stored. -/
def checksum : Option ChecksumKind := none

/-- The 128-bit key. -/
def keyA : Bytes :=
  [0x2D, 0x4D, 0x61, 0x6B, 0x65, 0x4C, 0x6F, 0x76,
    0x65, 0x4E, 0x6F, 0x74, 0x57, 0x61, 0x72, 0x2D]

/-- The bytes that make longer keys out of `keyA`. -/
def keyB : Bytes :=
  [0x10, 0x11, 0x12, 0x13, 0x14, 0x15, 0x16, 0x17,
    0x18, 0x19, 0x1A, 0x1B, 0x1C, 0x1D, 0x1E, 0x1F]

/-- The 192-bit key. -/
def key192 : Bytes := keyA ++ keyB.take 8

/-- The 256-bit key. -/
def key256 : Bytes := keyA ++ keyB

/-- The nonce, long enough for every cipher. -/
def nonce : Bytes :=
  [0x44, 0x33, 0x22, 0x11, 0x88, 0x77, 0x66, 0x55,
    0xCC, 0xBB, 0xAA, 0x99, 0x44, 0x33, 0x22, 0x11]

/-- The key of a cipher, by the length it needs. -/
def key (kind : CipherKind) : Bytes :=
  match kind.keySize with
  | 0 => []
  | 24 => key192
  | 32 => key256
  | _ => keyA

/-- The USB vendor. -/
def usbVendor : UInt16 := 0x0483

/-- The USB product. -/
def usbProduct : UInt16 := 0xDF11

/-- The manufacturer's string. -/
def manufacturer : String := "Your company name"

/-- The product's string. -/
def product : String := "Secure bootloader"

/-- The most bytes of one transfer. -/
def transferSize : UInt16 := 128

/-- The time in milliseconds that a host waits between status requests. -/
def pollTimeout : UInt32 := 20

/-- The time in milliseconds that a device waits for a bus reset after a detach. -/
def detachTimeout : UInt16 := 200

/-- No cipher has larger blocks. -/
def maxBlockSize : Nat := 16

/-- No cipher has longer keys. -/
def maxKeySize : Nat := 32

/-- No cipher reads a longer nonce. -/
def maxNonceSize : Nat := 16

/-- No checksum is wider. -/
def maxChecksumWidth : Nat := 8

/-- No device may ask for larger transfers. -/
def maxTransferSize : Nat := 1024

/-- Every cipher finds a key of its length. -/
theorem length_key (kind : CipherKind) : (key kind).length = kind.keySize := by
  rcases kind with _ | p | s
  · rfl
  · cases p <;> rfl
  · cases s <;> rfl

theorem blockSize_le (kind : CipherKind) : kind.blockSize ≤ maxBlockSize := by
  rcases kind with _ | p | s
  · decide
  · cases p <;> decide
  · cases s <;> decide

theorem keySize_le (kind : CipherKind) : kind.keySize ≤ maxKeySize := by
  rcases kind with _ | p | s
  · decide
  · cases p <;> decide
  · cases s <;> decide

theorem nonceSize_le (kind : CipherKind) (mode : ChainMode) :
    kind.nonceSize mode ≤ maxNonceSize := by
  rcases kind with _ | p | s
  · exact Nat.zero_le _
  · cases p <;> cases mode <;> decide
  · cases s
    · exact Nat.zero_le _
    · change 12 ≤ 16
      decide

theorem width_le (kind : ChecksumKind) : kind.width ≤ maxChecksumWidth := by
  cases kind <;> decide

end Defaults

end FirmwareUpdate
