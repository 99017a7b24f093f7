/-
Block ciphers chained over a stream of blocks.  A chain keeps one register of
block size between blocks; a mode says how a block and the register act on each
other.
-/
import FirmwareUpdate.Thread
import FirmwareUpdate.Cipher.BlockCipher

namespace FirmwareUpdate

/-- Which way data goes through a cipher. -/
inductive Direction
  | encrypt
  | decrypt
deriving DecidableEq, Repr

/-- The chaining modes. -/
inductive ChainMode
  | ecb
  | cbc
  | pcbc
  | cfb
  | ofb
  | ctr
deriving DecidableEq, Repr

namespace ChainMode

/-- All modes, in the order in which they are listed to the user. -/
def all : List ChainMode :=
  [ecb, cbc, pcbc, cfb, ofb, ctr]

/-- The name shown to the user. -/
def name : ChainMode → String
  | ecb => "ECB"
  | cbc => "CBC"
  | pcbc => "PCBC"
  | cfb => "CFB"
  | ofb => "OFB"
  | ctr => "CTR"

/-- Whether the mode starts from a nonce; only independent blocks do without. -/
def usesNonce : ChainMode → Bool
  | ecb => false
  | _ => true

end ChainMode

/-- The block with its first little-endian word increased by one; the word wraps
around and the other bytes stay. -/
def Block.increment {n : Nat} (b : Block n) : Block n :=
  ⟨(Word.toBytesLE (Word.ofBytesLE (b.bytes.take 4) + 1) ++ b.bytes.drop 4).take n, by
    simp [b.length_bytes]; omega⟩

/-- A block cipher under a mode, with the register that joins each block to the
blocks before it and the seed that the register starts from. -/
structure Chain where
  cipher : BlockCipher
  mode : ChainMode
  seed : Block cipher.size
  register : Block cipher.size

namespace Chain

variable (cipher : BlockCipher)

/-- A chain at its start. -/
def start (mode : ChainMode) (seed : Block cipher.size) : Chain :=
  ⟨cipher, mode, seed, seed⟩

/-- Encrypt one block: the ciphertext and the next register. -/
def encryptBlock (mode : ChainMode) (register plain : Block cipher.size) :
    Block cipher.size × Block cipher.size :=
  match mode with
  | .ecb => (cipher.encrypt plain, register)
  | .cbc =>
      let out := cipher.encrypt (plain ^^^ register)
      (out, out)
  | .pcbc =>
      let out := cipher.encrypt (register ^^^ plain)
      (out, out ^^^ plain)
  | .cfb =>
      let out := cipher.encrypt register ^^^ plain
      (out, out)
  | .ofb =>
      let key := cipher.encrypt register
      (plain ^^^ key, key)
  | .ctr => (plain ^^^ cipher.encrypt register, register.increment)

/-- Decrypt one block: the plaintext and the next register. -/
def decryptBlock (mode : ChainMode) (register secret : Block cipher.size) :
    Block cipher.size × Block cipher.size :=
  match mode with
  | .ecb => (cipher.decrypt secret, register)
  | .cbc => (cipher.decrypt secret ^^^ register, secret)
  | .pcbc =>
      let out := cipher.decrypt secret ^^^ register
      (out, secret ^^^ out)
  | .cfb => (secret ^^^ cipher.encrypt register, secret)
  | .ofb =>
      let key := cipher.encrypt register
      (secret ^^^ key, key)
  | .ctr => (secret ^^^ cipher.encrypt register, register.increment)

/-- One block in the given direction. -/
def step (mode : ChainMode) : Direction → Block cipher.size → Block cipher.size →
    Block cipher.size × Block cipher.size
  | .encrypt => encryptBlock cipher mode
  | .decrypt => decryptBlock cipher mode

/-- The blocks of a string, one after another. -/
def run (chain : Chain) (direction : Direction) (data : Bytes) : Bytes × Chain :=
  let blocks := Block.split chain.cipher.size data
  let result := thread (step chain.cipher chain.mode direction) chain.register blocks
  (Block.join result.1, { chain with register := result.2 })

/-- The chain back at its seed. -/
def reset (chain : Chain) : Chain :=
  { chain with register := chain.seed }

end Chain

end FirmwareUpdate
