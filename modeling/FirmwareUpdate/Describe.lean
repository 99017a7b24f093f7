/-
One-line descriptions of settings and checksums for diagnostics.  Each choice is
shown by its label, a word without blanks.
-/
import FirmwareUpdate.Image

namespace FirmwareUpdate

/-- The label of a cipher. -/
def CipherKind.label : CipherKind → String
  | plain => "None"
  | block .xtea => "Xtea"
  | block .xteaOne => "Xtea1"
  | block .rc5 => "Rc5"
  | block .rc6 => "Rc6"
  | block .speck => "Speck"
  | block .raiden => "Raiden"
  | block .blowfish => "Blowfish"
  | block .gost => "Gost"
  | block .magma => "Magma"
  | block .rtea => "Rtea"
  | block .aes128 => "Rijndael128"
  | block .aes192 => "Rijndael192"
  | block .aes256 => "Rijndael256"
  | stream .arcfour => "Arc4"
  | stream .chacha20 => "ChaCha20"

/-- The label of a chaining mode. -/
def ChainMode.label : ChainMode → String
  | ecb => "Ecb"
  | cbc => "Cbc"
  | pcbc => "Pcbc"
  | cfb => "Cfb"
  | ofb => "Ofb"
  | ctr => "Ctr"

/-- The label of a checksum algorithm. -/
def ChecksumKind.label : ChecksumKind → String
  | crc32 => "Crc32"
  | crc32Small => "Crc32Small"
  | crc64 => "Crc64"
  | crc64Small => "Crc64Small"
  | fnv1a32 => "Fnv1a32"
  | fnv1a64 => "Fnv1a64"

/-- A record as text: its name, then the labelled fields between braces. -/
def describeRecord (name : String) (fields : List (String × String)) : String :=
  let shown := fields.map fun f => f.1 ++ ": " ++ f.2
  name ++ " \x7b " ++ ", ".intercalate shown ++ " \x7d"

/-- A running checksum with its value in decimal digits. -/
def Checksum.describe (sum : Checksum) : String :=
  describeRecord "Checksum" [("kind", sum.kind.label), ("value", toString sum.value)]

/-- Settings, with `None` in the place of a missing checksum. -/
def Settings.describe (s : Settings) : String :=
  let checksum := match s.checksum with
    | none => "None"
    | some kind => "Some(" ++ kind.label ++ ")"
  describeRecord "Settings"
    [("cipher", s.cipher.label), ("mode", s.mode.label), ("checksum", checksum)]

end FirmwareUpdate
