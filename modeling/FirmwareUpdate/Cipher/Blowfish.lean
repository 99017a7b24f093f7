/-
Blowfish over generated tables: the subkeys and substitution boxes start from
a shift register sequence, and the usual key expansion then runs over a 256-bit
key.
-/
import FirmwareUpdate.Cipher.BlockCipher

namespace FirmwareUpdate

namespace Blowfish

/-- The eighteen subkeys and the four substitution boxes, one box after another. -/
structure Tables where
  subkeys : Vector UInt32 18
  boxes : Vector UInt32 1024

/-- The next word of the shift register sequence. -/
def xorshift (x : UInt32) : UInt32 :=
  let x := x ^^^ (x <<< 13)
  let x := x ^^^ (x >>> 17)
  x ^^^ (x <<< 5)

/-- The first `count` words of the sequence that follow `x`. -/
def sequence : (count : Nat) → (x : UInt32) → List UInt32
  | 0, _ => []
  | count + 1, x => xorshift x :: sequence count (xorshift x)

/-- The tables before the key expansion, the key already mixed into the subkeys. -/
def initialTables (key : Bytes) : Tables :=
  let words := (sequence 1042 0xDEADBEEF).toArray
  { subkeys := Vector.ofFn fun i => words.getD i.val 0 ^^^ Word.keyLE key (i.val % 8)
    boxes := Vector.ofFn fun i => words.getD (18 + i.val) 0 }

/-- The round function: one word from each box, selected by the bytes of the
half from the highest down. -/
def Tables.mix (t : Tables) (x : UInt32) : UInt32 :=
  let byte (n : UInt32) : UInt8 := (x >>> n).toUInt8
  have ha := (byte 24).toNat_lt
  have hb := (byte 16).toNat_lt
  have hc := (byte 8).toNat_lt
  have hd := (byte 0).toNat_lt
  ((t.boxes[(byte 24).toNat] + t.boxes[256 + (byte 16).toNat])
      ^^^ t.boxes[512 + (byte 8).toNat])
    + t.boxes[768 + (byte 0).toNat]

/-- A half is masked with the subkey and mixed into the other half; then the
halves change places. -/
def round (t : Tables) : Round UInt32 (UInt32 × UInt32) where
  apply k s := (s.2 ^^^ t.mix (s.1 ^^^ k), s.1 ^^^ k)
  revert k s := (s.2 ^^^ k, s.1 ^^^ t.mix s.2)

/-- Sixteen rounds and a last mask. -/
def Tables.encrypt (t : Tables) (b : UInt32 × UInt32) : UInt32 × UInt32 :=
  let s := (round t).run (t.subkeys.toList.take 16) b
  (s.2 ^^^ t.subkeys[17], s.1 ^^^ t.subkeys[16])

/-- The last mask and the sixteen rounds taken back. -/
def Tables.decrypt (t : Tables) (b : UInt32 × UInt32) : UInt32 × UInt32 :=
  (round t).undo (t.subkeys.toList.take 16) (b.2 ^^^ t.subkeys[16], b.1 ^^^ t.subkeys[17])

/-- Replace the pair of subkeys at `i` by the encryption of the last pair made. -/
def expandSubkeys (s : Tables × (UInt32 × UInt32)) (i : Nat) : Tables × (UInt32 × UInt32) :=
  let b := s.1.encrypt s.2
  ({ s.1 with subkeys := (s.1.subkeys.setIfInBounds i b.1).setIfInBounds (i + 1) b.2 }, b)

/-- Replace the pair of box words at `i` by the encryption of the last pair made. -/
def expandBoxes (s : Tables × (UInt32 × UInt32)) (i : Nat) : Tables × (UInt32 × UInt32) :=
  let b := s.1.encrypt s.2
  ({ s.1 with boxes := (s.1.boxes.setIfInBounds i b.1).setIfInBounds (i + 1) b.2 }, b)

/-- The tables of a key: all words replaced in order, two at a time. -/
def expand (key : Bytes) : Tables :=
  let start := ((List.range 9).map (2 * ·)).foldl expandSubkeys (initialTables key, (0, 0))
  (((List.range 512).map (2 * ·)).foldl expandBoxes start).1

/-- Blowfish with 64-bit blocks and a 256-bit key. -/
def cipher (key : Bytes) : BlockCipher :=
  let tables := expand key
  BlockCipher.ofPairs tables.encrypt tables.decrypt

end Blowfish

end FirmwareUpdate
