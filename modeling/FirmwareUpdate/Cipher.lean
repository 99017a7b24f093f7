/-
A running cipher: one of the kinds on offer, keyed, with its place in the stream.
Data go through in whole blocks; a refused call leaves the cipher where it was.
-/
import FirmwareUpdate.Cipher.Keystream
import FirmwareUpdate.Cipher.Kind

namespace FirmwareUpdate

/-- What moves when data go through a cipher. -/
inductive Engine
  | plain
  | chain (chain : Chain)
  | stream (start now : Keystream)

/-- A keyed cipher at some place of its stream. -/
structure Cipher where
  kind : CipherKind
  mode : ChainMode
  engine : Engine

namespace Cipher

/-- The chain of a block cipher, started from the first block of the nonce if
the mode needs one.  A wrong key is reported before a short nonce. -/
def makeChain (p : Primitive) (mode : ChainMode) (key nonce : Bytes) :
    Except CipherError Chain :=
  match p.withKey key with
  | .error e => .error e
  | .ok cipher =>
      if mode.usesNonce then
        if nonce.length < cipher.size then .error .invalidNonceSize
        else .ok (Chain.start cipher mode (Block.ofBytes cipher.size nonce))
      else .ok (Chain.start cipher mode (Block.zero cipher.size))

/-- The generator of a stream cipher at its first byte. -/
def makeKeystream (s : StreamCipher) (key nonce : Bytes) : Except CipherError Keystream :=
  if key.length ≠ s.keySize then .error .invalidKeySize
  else if nonce.length < s.nonceSize then .error .invalidNonceSize
  else
    match s with
    | .arcfour => .ok (.arcfour (Arcfour.ofKey key))
    | .chacha20 => .ok (.chacha20 (ChaCha20.ofKey key (nonce.take 12)))

/-- A cipher of the given kind.  Stream ciphers do not read the mode; the plain
choice reads neither key nor nonce. -/
def make (kind : CipherKind) (mode : ChainMode) (key nonce : Bytes) :
    Except CipherError Cipher :=
  match kind with
  | .plain => .ok ⟨kind, mode, .plain⟩
  | .block p =>
      match makeChain p mode key nonce with
      | .error e => .error e
      | .ok chain => .ok ⟨kind, mode, .chain chain⟩
  | .stream s =>
      match makeKeystream s key nonce with
      | .error e => .error e
      | .ok start => .ok ⟨kind, mode, .stream start start⟩

/-- The length that data must be a multiple of. -/
def blockSize (c : Cipher) : Nat :=
  match c.engine with
  | .chain chain => chain.cipher.size
  | _ => 1

theorem blockSize_pos (c : Cipher) : 0 < c.blockSize := by
  unfold blockSize
  split
  · rename_i chain _
    exact chain.cipher.size_pos
  · exact Nat.one_pos

/-- The kind with its mode: `-STREAM` for a stream cipher, nothing for plain data. -/
def name (c : Cipher) : String :=
  match c.kind with
  | .plain => c.kind.name
  | .block p => p.name ++ "-" ++ c.mode.name
  | .stream s => s.name ++ "-STREAM"

/-- The cipher at the start of its stream.  What a chain or a keystream started from is kept
for this; the same cipher can be made again from what is kept of its key and nonce
(`Cipher.reset_after_eq_fresh`). -/
def reset (c : Cipher) : Cipher :=
  match c.engine with
  | .plain => c
  | .chain chain => { c with engine := .chain chain.reset }
  | .stream start _ => { c with engine := .stream start start }

/-- Send data through: the result and the cipher behind the data.  Data that do
not fill their last block are refused. -/
def apply (c : Cipher) (direction : Direction) (data : Bytes) :
    Except CipherError (Bytes × Cipher) :=
  match c.engine with
  | .plain => .ok (data, c)
  | .chain chain =>
      if data.length % chain.cipher.size = 0 then
        let result := chain.run direction data
        .ok (result.1, { c with engine := .chain result.2 })
      else .error .unalignedLength
  | .stream start now =>
      let result := now.mask data
      .ok (result.1, { c with engine := .stream start result.2 })

/-- Send data through in the direction of encryption. -/
def encrypt (c : Cipher) (data : Bytes) : Except CipherError (Bytes × Cipher) :=
  c.apply .encrypt data

/-- Send data through in the direction of decryption. -/
def decrypt (c : Cipher) (data : Bytes) : Except CipherError (Bytes × Cipher) :=
  c.apply .decrypt data

end Cipher

end FirmwareUpdate
