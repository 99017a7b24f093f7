/-
Firmware images on the host.  Sealing appends a checksum, pads to the cipher's
block and encrypts; opening decrypts and cuts the payload at its checksum.
-/
import FirmwareUpdate.Cipher
import FirmwareUpdate.Defaults
import FirmwareUpdate.Checksum.Trailer

namespace FirmwareUpdate

/-- How images are made: cipher, chaining mode and checksum. -/
structure Settings where
  cipher : CipherKind := Defaults.cipher
  mode : ChainMode := Defaults.mode
  checksum : Option ChecksumKind := Defaults.checksum
deriving DecidableEq, Repr

/-- What can go wrong with an image. -/
inductive ImageError
  | cipher (cause : CipherError)
  | collision (expected found : Nat)
  | checksumNotFound (kind : ChecksumKind)
  | unaligned (length block : Nat)
deriving DecidableEq, Repr

/-- The sentence shown for an error. -/
def ImageError.message : ImageError → String
  | cipher cause => "cipher setup failed: " ++ cause.message
  | collision expected found =>
      "checksum collision: payload of " ++ toString expected
        ++ " bytes validates at offset " ++ toString found
  | checksumNotFound kind =>
      "no " ++ kind.name ++ " checksum found in the decrypted image"
  | unaligned length block =>
      "input of " ++ toString length ++ " bytes is not a multiple of the "
        ++ toString block ++ "-byte cipher block"

namespace Settings

/-- A fresh cipher under the default key and nonce. -/
def freshCipher (s : Settings) : Except CipherError Cipher :=
  Cipher.make s.cipher s.mode (Defaults.key s.cipher) Defaults.nonce

/-- The name of the cipher with its mode. -/
def name (s : Settings) : Except ImageError String :=
  match s.freshCipher with
  | .error e => .error (.cipher e)
  | .ok c => .ok c.name

end Settings

namespace Image

/-- The payload with its checksum behind it.  Refused when a reader would find
the checksum anywhere but at the end of the payload. -/
def sign (checksum : Option ChecksumKind) (payload : Bytes) : Except ImageError Bytes :=
  match checksum with
  | none => .ok payload
  | some kind =>
      let signed := payload ++ (Checksum.ofBytes kind payload).trailer
      let found := Trailer.payloadLength kind signed
      if found = payload.length then .ok signed
      else .error (.collision payload.length found)

/-- Make an image of a payload. -/
def encrypt (s : Settings) (payload : Bytes) : Except ImageError Bytes :=
  match s.freshCipher with
  | .error e => .error (.cipher e)
  | .ok c =>
      match sign s.checksum payload with
      | .error e => .error e
      | .ok signed =>
          match c.encrypt (Bytes.padZero c.blockSize signed) with
          | .error e => .error (.cipher e)
          | .ok (image, _) => .ok image

/-- The payload of a decrypted image: all of it without a checksum, else the
bytes before the first stored checksum. -/
def payload (checksum : Option ChecksumKind) (plain : Bytes) : Except ImageError Bytes :=
  match checksum with
  | none => .ok plain
  | some kind =>
      let length := Trailer.payloadLength kind plain
      if length = 0 then .error (.checksumNotFound kind) else .ok (plain.take length)

/-- Get the payload back out of an image. -/
def decrypt (s : Settings) (image : Bytes) : Except ImageError Bytes :=
  match s.freshCipher with
  | .error e => .error (.cipher e)
  | .ok c =>
      if image.length % c.blockSize ≠ 0 then .error (.unaligned image.length c.blockSize)
      else
        match c.decrypt image with
        | .error e => .error (.cipher e)
        | .ok (plain, _) => payload s.checksum plain

/-- Work on an image in the given direction. -/
def process (s : Settings) : Direction → Bytes → Except ImageError Bytes
  | .encrypt => encrypt s
  | .decrypt => decrypt s

end Image

end FirmwareUpdate
