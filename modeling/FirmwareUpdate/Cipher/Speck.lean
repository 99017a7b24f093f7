/-
SPECK 64/128: one rotate, add and mask round, used on the block and, with the
round number for a key, on the key words themselves.
-/
import FirmwareUpdate.Cipher.BlockCipher

namespace FirmwareUpdate

namespace Speck

/-- The round on the pair of upper word and lower word. -/
def round : Round UInt32 (UInt32 × UInt32) where
  apply k s :=
    let x := (Word.rotateRight s.1 8 + s.2) ^^^ k
    (x, Word.rotateLeft s.2 3 ^^^ x)
  revert k s :=
    let y := Word.rotateRight (s.2 ^^^ s.1) 3
    (Word.rotateLeft ((s.1 ^^^ k) - y) 8, y)

/-- The next `count` round keys, the first of them number `i`, from the current
key word and the three words that wait for their turn. -/
def expand : (count i : Nat) → (k l₁ l₂ l₃ : UInt32) → List UInt32
  | 0, _, _, _, _, _ => []
  | count + 1, i, k, l₁, l₂, l₃ =>
      let next := round.apply (UInt32.ofNat i) (l₁, k)
      k :: expand count (i + 1) next.2 l₂ l₃ next.1

/-- The 27 round keys of a 128-bit key. -/
def schedule (key : Bytes) : List UInt32 :=
  expand 27 0 (Word.keyLE key 0) (Word.keyLE key 1) (Word.keyLE key 2) (Word.keyLE key 3)

/-- SPECK with 64-bit blocks, 27 rounds and a 128-bit key; a block holds the
lower word first. -/
def cipher (key : Bytes) : BlockCipher :=
  let keys := schedule key
  BlockCipher.ofPairs
    (fun b => (round.run keys b.swap).swap)
    (fun b => (round.undo keys b.swap).swap)

end Speck

end FirmwareUpdate
