/-
Rijndael with 128-bit blocks and keys of 128, 192 or 256 bits.  The substitution
is given by its algebra: the inverse in the field of 256 elements, then an
affine map of the bits.
-/
import FirmwareUpdate.Cipher.BlockCipher

namespace FirmwareUpdate

namespace Rijndael

/-- Multiplication by the variable in the field of 256 elements. -/
def double (x : UInt8) : UInt8 :=
  (x <<< 1) ^^^ (if x < 0x80 then 0 else 0x1B)

/-- Multiplication in the field, by the lowest `count` bits of `y`. -/
def multiplyBits : (count : Nat) → (x y : UInt8) → UInt8
  | 0, _, _ => 0
  | count + 1, x, y =>
      (if y &&& 1 = 1 then x else 0) ^^^ multiplyBits count (double x) (y >>> 1)

/-- Multiplication in the field of 256 elements. -/
def multiply (x y : UInt8) : UInt8 :=
  multiplyBits 8 x y

/-- The inverse in the field: the power 254, which keeps zero. -/
def inverse (x : UInt8) : UInt8 :=
  let squares := (List.range 7).foldl (fun s _ =>
      let square := multiply s.2 s.2
      (multiply s.1 square, square))
    ((1, x) : UInt8 × UInt8)
  squares.1

/-- The bits turned left by `n` places, for `n` below 8. -/
def turn (x n : UInt8) : UInt8 :=
  (x <<< n) ||| (x >>> (8 - n))

/-- The affine map of the substitution. -/
def affine (x : UInt8) : UInt8 :=
  x ^^^ turn x 1 ^^^ turn x 2 ^^^ turn x 3 ^^^ turn x 4 ^^^ 0x63

/-- The affine map that takes `affine` back. -/
def affineBack (x : UInt8) : UInt8 :=
  turn x 1 ^^^ turn x 3 ^^^ turn x 6 ^^^ 0x05

/-- The images of all bytes under the substitution. -/
def substitutionTable : Vector UInt8 256 :=
  Vector.ofFn fun i => affine (inverse (UInt8.ofNat i.val))

/-- The images of all bytes under the inverse substitution. -/
def inverseTable : Vector UInt8 256 :=
  Vector.ofFn fun i => inverse (affineBack (UInt8.ofNat i.val))

/-- The substitution of a byte. -/
def substitute (x : UInt8) : UInt8 :=
  have h := x.toNat_lt
  substitutionTable[x.toNat]

/-- The inverse substitution of a byte. -/
def substituteBack (x : UInt8) : UInt8 :=
  have h := x.toNat_lt
  inverseTable[x.toNat]

/-- The inner product with 2, 3, 1, 1. -/
def mixRow (p q r s : UInt8) : UInt8 :=
  double p ^^^ (double q ^^^ q) ^^^ r ^^^ s

/-- The inner product with 14, 11, 13, 9. -/
def unmixRow (p q r s : UInt8) : UInt8 :=
  double (double (double (p ^^^ q ^^^ r ^^^ s) ^^^ (p ^^^ r)) ^^^ (p ^^^ q)) ^^^ (q ^^^ r ^^^ s)

/-- A column of the state, top byte first; also a word of the key. -/
@[ext] structure Column where
  a : UInt8
  b : UInt8
  c : UInt8
  d : UInt8
deriving DecidableEq, Repr

namespace Column

/-- The column written in the first four bytes of a string. -/
def ofBytes (b : Bytes) : Column :=
  ⟨b.getD 0 0, b.getD 1 0, b.getD 2 0, b.getD 3 0⟩

/-- The bytes from the top. -/
def toBytes (x : Column) : Bytes :=
  [x.a, x.b, x.c, x.d]

/-- The same map on every byte. -/
def map (f : UInt8 → UInt8) (x : Column) : Column :=
  ⟨f x.a, f x.b, f x.c, f x.d⟩

/-- Bytewise exclusive or. -/
instance : XorOp Column where
  xor x y := ⟨x.a ^^^ y.a, x.b ^^^ y.b, x.c ^^^ y.c, x.d ^^^ y.d⟩

/-- The bytes moved up by one, the top byte to the bottom. -/
def rotate (x : Column) : Column :=
  ⟨x.b, x.c, x.d, x.a⟩

/-- The circulant product with 2, 3, 1, 1. -/
def mix (x : Column) : Column :=
  ⟨mixRow x.a x.b x.c x.d, mixRow x.b x.c x.d x.a, mixRow x.c x.d x.a x.b,
    mixRow x.d x.a x.b x.c⟩

/-- The circulant product with 14, 11, 13, 9. -/
def unmix (x : Column) : Column :=
  ⟨unmixRow x.a x.b x.c x.d, unmixRow x.b x.c x.d x.a, unmixRow x.c x.d x.a x.b,
    unmixRow x.d x.a x.b x.c⟩

end Column

/-- The state: four columns. -/
@[ext] structure State where
  w : Column
  x : Column
  y : Column
  z : Column
deriving DecidableEq, Repr

namespace State

/-- The columns of a block, four bytes each. -/
def ofBlock (b : Block 16) : State :=
  ⟨Column.ofBytes b.bytes, Column.ofBytes (b.bytes.drop 4), Column.ofBytes (b.bytes.drop 8),
    Column.ofBytes (b.bytes.drop 12)⟩

/-- The block of four columns. -/
def toBlock (s : State) : Block 16 :=
  ⟨s.w.toBytes ++ (s.x.toBytes ++ (s.y.toBytes ++ s.z.toBytes)), by simp [Column.toBytes]⟩

/-- The same map on every column. -/
def map (f : Column → Column) (s : State) : State :=
  ⟨f s.w, f s.x, f s.y, f s.z⟩

/-- Bytewise exclusive or. -/
instance : XorOp State where
  xor s t := ⟨s.w ^^^ t.w, s.x ^^^ t.x, s.y ^^^ t.y, s.z ^^^ t.z⟩

/-- Row `i`, counted from zero at the top, turned left by `i` places. -/
def shiftRows (s : State) : State :=
  ⟨⟨s.w.a, s.x.b, s.y.c, s.z.d⟩, ⟨s.x.a, s.y.b, s.z.c, s.w.d⟩,
    ⟨s.y.a, s.z.b, s.w.c, s.x.d⟩, ⟨s.z.a, s.w.b, s.x.c, s.y.d⟩⟩

/-- Row `i` turned right by `i` places. -/
def unshiftRows (s : State) : State :=
  ⟨⟨s.w.a, s.z.b, s.y.c, s.x.d⟩, ⟨s.x.a, s.w.b, s.z.c, s.y.d⟩,
    ⟨s.y.a, s.x.b, s.w.c, s.z.d⟩, ⟨s.z.a, s.y.b, s.x.c, s.w.d⟩⟩

end State

/-- A full round: substitute, shift the rows, mix the columns, add the key. -/
def round : Round State State where
  apply k s := ((s.map (Column.map substitute)).shiftRows.map Column.mix) ^^^ k
  revert k s := (((s ^^^ k).map Column.unmix).unshiftRows).map (Column.map substituteBack)

/-- The last round, which leaves the columns unmixed. -/
def lastRound : Round State State where
  apply k s := (s.map (Column.map substitute)).shiftRows ^^^ k
  revert k s := ((s ^^^ k).unshiftRows).map (Column.map substituteBack)

/-- The addition of the first round key. -/
def whiten : Round State State where
  apply k s := s ^^^ k
  revert k s := s ^^^ k

/-- The next `count` key words after those in `recent`, which holds the newest
first; `i` counts all words made so far and `constant` is the next round constant. -/
def expandWords (keyWords : Nat) :
    (count i : Nat) → (constant : UInt8) → (recent : List Column) → List Column
  | 0, _, _, recent => recent
  | count + 1, i, constant, recent =>
      let last := recent.getD 0 ⟨0, 0, 0, 0⟩
      let oldest := recent.getD (keyWords - 1) ⟨0, 0, 0, 0⟩
      if i % keyWords = 0 then
        let turned := last.rotate.map substitute
        let word := oldest ^^^ turned ^^^ ⟨constant, 0, 0, 0⟩
        expandWords keyWords count (i + 1) (double constant) (word :: recent)
      else if 6 < keyWords ∧ i % keyWords = 4 then
        expandWords keyWords count (i + 1) constant ((oldest ^^^ last.map substitute) :: recent)
      else
        expandWords keyWords count (i + 1) constant ((oldest ^^^ last) :: recent)

/-- Key words four at a time. -/
def groupWords : List Column → List State
  | w :: x :: y :: z :: rest => ⟨w, x, y, z⟩ :: groupWords rest
  | _ => []

/-- The round keys of a key of `keyWords` words, one more than there are rounds. -/
def schedule (keyWords rounds : Nat) (key : Bytes) : List State :=
  let words := (List.range keyWords).map fun i => Column.ofBytes (key.drop (4 * i))
  groupWords
    (expandWords keyWords (4 * (rounds + 1) - keyWords) keyWords 1 words.reverse).reverse

/-- Rijndael under the round keys of a key of `keyWords` words. -/
def cipher (keyWords rounds : Nat) (key : Bytes) : BlockCipher :=
  let keys := schedule keyWords rounds key
  let first := keys.take 1
  let middle := (keys.drop 1).take (rounds - 1)
  let last := keys.drop rounds
  BlockCipher.ofBlocks16
    (fun b => (lastRound.run last (round.run middle (whiten.run first (State.ofBlock b)))).toBlock)
    fun b => (whiten.undo first (round.undo middle (lastRound.undo last (State.ofBlock b)))).toBlock

/-- Ten rounds under a 128-bit key. -/
def cipher128 : Bytes → BlockCipher := cipher 4 10

/-- Twelve rounds under a 192-bit key. -/
def cipher192 : Bytes → BlockCipher := cipher 6 12

/-- Fourteen rounds under a 256-bit key. -/
def cipher256 : Bytes → BlockCipher := cipher 8 14

end Rijndael

end FirmwareUpdate
