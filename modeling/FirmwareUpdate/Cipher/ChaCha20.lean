/-
The ChaCha20 keystream generator with a 96-bit nonce and a 32-bit block counter.
-/
import FirmwareUpdate.Word

namespace FirmwareUpdate

/-- The ChaCha20 state: key, nonce, the counter of the next block and the bytes
of the current block that are still to be used. -/
structure ChaCha20 where
  key : Bytes
  nonce : Bytes
  counter : UInt32
  pending : Bytes
deriving Repr

namespace ChaCha20

/-- The quarter round on the words at four positions. -/
def quarterRound (s : Vector UInt32 16) (a b c d : Fin 16) : Vector UInt32 16 :=
  let addMaskTurn (s : Vector UInt32 16) (x y z : Fin 16) (n : UInt32) :=
    let s := s.set x (s[x] + s[y])
    s.set z (Word.rotateLeft (s[z] ^^^ s[x]) n)
  let s := addMaskTurn s a b d 16
  let s := addMaskTurn s c d b 12
  let s := addMaskTurn s a b d 8
  addMaskTurn s c d b 7

/-- Four quarter rounds on the columns, then four on the diagonals. -/
def doubleRound (s : Vector UInt32 16) : Vector UInt32 16 :=
  let s := quarterRound s 0 4 8 12
  let s := quarterRound s 1 5 9 13
  let s := quarterRound s 2 6 10 14
  let s := quarterRound s 3 7 11 15
  let s := quarterRound s 0 5 10 15
  let s := quarterRound s 1 6 11 12
  let s := quarterRound s 2 7 8 13
  quarterRound s 3 4 9 14

/-- The words that a block starts from: constants, key, counter and nonce. -/
def initialWords (key nonce : Bytes) (counter : UInt32) : Vector UInt32 16 :=
  #v[0x61707865, 0x3320646E, 0x79622D32, 0x6B206574,
    Word.keyLE key 0, Word.keyLE key 1, Word.keyLE key 2, Word.keyLE key 3,
    Word.keyLE key 4, Word.keyLE key 5, Word.keyLE key 6, Word.keyLE key 7,
    counter, Word.keyLE nonce 0, Word.keyLE nonce 1, Word.keyLE nonce 2]

/-- The 64 keystream bytes of one counter. -/
def block (key nonce : Bytes) (counter : UInt32) : Bytes :=
  let start := initialWords key nonce counter
  let mixed := Nat.repeat doubleRound 10 start
  ((mixed.zipWith (· + ·) start).toList).flatMap Word.toBytesLE

/-- The state of a 256-bit key and a 96-bit nonce.  The keystream starts with
the block of counter one. -/
def ofKey (key nonce : Bytes) : ChaCha20 :=
  ⟨key, nonce, 1, []⟩

/-- The next keystream byte.  The counter wraps to zero behind its last block.  The generator
in use panics there instead, so results about a keystream speak of the program as far as the
keystream lasts (`Keystream.Lasts`). -/
def next (s : ChaCha20) : UInt8 × ChaCha20 :=
  match s.pending with
  | b :: rest => (b, { s with pending := rest })
  | [] =>
      let bytes := block s.key s.nonce s.counter
      (bytes.getD 0 0, { s with counter := s.counter + 1, pending := bytes.drop 1 })

end ChaCha20

end FirmwareUpdate
