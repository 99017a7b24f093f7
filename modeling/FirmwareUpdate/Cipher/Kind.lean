/-
The ciphers on offer: their names, their key and block sizes, and the finding
of a cipher or mode by name.
-/
import FirmwareUpdate.Name
import FirmwareUpdate.Cipher.Chain
import FirmwareUpdate.Cipher.Tea
import FirmwareUpdate.Cipher.Rc
import FirmwareUpdate.Cipher.Speck
import FirmwareUpdate.Cipher.Blowfish
import FirmwareUpdate.Cipher.Gost
import FirmwareUpdate.Cipher.Rijndael

namespace FirmwareUpdate

/-- What can go wrong in the choice or use of a cipher. -/
inductive CipherError
  | invalidKeySize
  | invalidNonceSize
  | unalignedLength
  | unknownName
deriving DecidableEq, Repr

/-- The sentence shown for an error. -/
def CipherError.message : CipherError → String
  | invalidKeySize => "invalid key size"
  | invalidNonceSize => "invalid nonce size"
  | unalignedLength => "data length is not a multiple of the block size"
  | unknownName => "unknown cipher or mode name"

/-- The block ciphers. -/
inductive Primitive
  | xtea
  | xteaOne
  | rc5
  | rc6
  | speck
  | raiden
  | blowfish
  | gost
  | magma
  | rtea
  | aes128
  | aes192
  | aes256
deriving DecidableEq, Repr

namespace Primitive

/-- All block ciphers, in the order in which they are listed to the user. -/
def all : List Primitive :=
  [xtea, xteaOne, rc5, rc6, speck, raiden, blowfish, gost, magma, rtea, aes128, aes192, aes256]

/-- The short name for command lines. -/
def id : Primitive → String
  | xtea => "xtea"
  | xteaOne => "xtea1"
  | rc5 => "rc5"
  | rc6 => "rc6"
  | speck => "speck"
  | raiden => "raiden"
  | blowfish => "blowfish"
  | gost => "gost"
  | magma => "magma"
  | rtea => "rtea"
  | aes128 => "aes128"
  | aes192 => "aes192"
  | aes256 => "aes256"

/-- The full name. -/
def name : Primitive → String
  | xtea => "XTEA 64/32/128"
  | xteaOne => "XTEA-1 64/32/128"
  | rc5 => "RC5-32/12/128"
  | rc6 => "RC6-32/20/128"
  | speck => "SPECK 64/128"
  | raiden => "RAIDEN"
  | blowfish => "BLOWFISH"
  | gost => "GOST 28147-89"
  | magma => "GOST R 34.12-2015 MAGMA"
  | rtea => "RTEA"
  | aes128 => "RIJNDAEL-128"
  | aes192 => "RIJNDAEL-192"
  | aes256 => "RIJNDAEL-256"

/-- The length of a key in bytes. -/
def keySize : Primitive → Nat
  | xtea | xteaOne | rc5 | rc6 | speck | raiden | aes128 => 16
  | aes192 => 24
  | blowfish | gost | magma | rtea | aes256 => 32

/-- The length of a block in bytes. -/
def blockSize : Primitive → Nat
  | rc6 | aes128 | aes192 | aes256 => 16
  | _ => 8

/-- The cipher under a key of the right length. -/
def keyed : Primitive → Bytes → BlockCipher
  | xtea => Xtea.cipher
  | xteaOne => XteaOne.cipher
  | rc5 => RcFive.cipher
  | rc6 => RcSix.cipher
  | speck => Speck.cipher
  | raiden => Raiden.cipher
  | blowfish => Blowfish.cipher
  | gost => Gost.cipher
  | magma => Magma.cipher
  | rtea => Rtea.cipher
  | aes128 => Rijndael.cipher128
  | aes192 => Rijndael.cipher192
  | aes256 => Rijndael.cipher256

/-- The cipher under a key, if the key has the right length. -/
def withKey (p : Primitive) (key : Bytes) : Except CipherError BlockCipher :=
  if key.length = p.keySize then .ok (p.keyed key) else .error .invalidKeySize

theorem size_keyed (p : Primitive) (key : Bytes) : (p.keyed key).size = p.blockSize := by
  cases p <;> rfl

end Primitive

/-- The stream ciphers. -/
inductive StreamCipher
  | arcfour
  | chacha20
deriving DecidableEq, Repr

namespace StreamCipher

/-- All stream ciphers, in the order in which they are listed to the user. -/
def all : List StreamCipher :=
  [arcfour, chacha20]

/-- The short name for command lines. -/
def id : StreamCipher → String
  | arcfour => "arc4"
  | chacha20 => "chacha20"

/-- The full name. -/
def name : StreamCipher → String
  | arcfour => "ARCFOUR"
  | chacha20 => "CHACHA20"

/-- The length of a key in bytes. -/
def keySize : StreamCipher → Nat
  | arcfour => 16
  | chacha20 => 32

/-- The number of nonce bytes that the generator reads. -/
def nonceSize : StreamCipher → Nat
  | arcfour => 0
  | chacha20 => 12

end StreamCipher

/-- A choice of cipher; `plain` leaves the data as they are. -/
inductive CipherKind
  | plain
  | block (p : Primitive)
  | stream (s : StreamCipher)
deriving DecidableEq, Repr

namespace CipherKind

/-- All choices, in the order in which they are listed to the user. -/
def all : List CipherKind :=
  plain :: (Primitive.all.map block ++ StreamCipher.all.map stream)

/-- The short name for command lines. -/
def id : CipherKind → String
  | plain => "none"
  | block p => p.id
  | stream s => s.id

/-- The full name. -/
def name : CipherKind → String
  | plain => "NONE"
  | block p => p.name
  | stream s => s.name

/-- The length of a key in bytes. -/
def keySize : CipherKind → Nat
  | plain => 0
  | block p => p.keySize
  | stream s => s.keySize

/-- The length that data must be a multiple of. -/
def blockSize : CipherKind → Nat
  | block p => p.blockSize
  | _ => 1

/-- Whether the cipher masks bytes one by one. -/
def isStream : CipherKind → Bool
  | stream _ => true
  | _ => false

/-- The number of nonce bytes that a cipher of this kind reads. -/
def nonceSize : CipherKind → ChainMode → Nat
  | plain, _ => 0
  | block p, mode => if mode.usesNonce then p.blockSize else 0
  | stream s, _ => s.nonceSize

/-- The first choice with this short or full name. -/
def ofName (text : String) : Except CipherError CipherKind :=
  match all.find? fun k => sameName text k.id || sameName text k.name with
  | some k => .ok k
  | none => .error .unknownName

end CipherKind

/-- The mode with this name. -/
def ChainMode.ofName (text : String) : Except CipherError ChainMode :=
  match all.find? fun m => sameName text m.name with
  | some m => .ok m
  | none => .error .unknownName

end FirmwareUpdate
