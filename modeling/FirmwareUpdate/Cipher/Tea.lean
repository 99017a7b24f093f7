/-
The tiny encryption algorithms: XTEA, XTEA-1, Raiden and RTEA.  Their common
round adds a keyed function of each half of the block to the other half; they
differ in that function and in the round keys.
-/
import FirmwareUpdate.Cipher.BlockCipher

namespace FirmwareUpdate

/-- Each half takes a keyed function of the other half, the first half first. -/
def addHalves {κ : Type} (f : κ → UInt32 → UInt32) :
    Round (κ × κ) (UInt32 × UInt32) where
  apply k s :=
    let a := s.1 + f k.1 s.2
    (a, s.2 + f k.2 a)
  revert k s :=
    let b := s.2 - f k.2 s.1
    (s.1 - f k.1 b, b)

/-- A step that adds to a half is taken back by subtracting the same value. -/
theorem addHalves_lawful {κ : Type} (f : κ → UInt32 → UInt32) :
    (addHalves f).Lawful := by
  constructor <;> rintro k ⟨a, b⟩ <;> simp [addHalves]

/-- The increment of the running sum in XTEA and its variant. -/
def goldenDelta : UInt32 := 0x9E3779B9

/-- The running sums of the 32 cycles, with the key words that each sum selects. -/
def teaSchedule (key : Bytes) : List ((UInt32 × UInt32) × (UInt32 × UInt32)) :=
  (List.range 32).map fun i =>
    let sum := goldenDelta * UInt32.ofNat i
    let next := sum + goldenDelta
    ((sum, Word.keyLE key (sum &&& 3).toNat),
      (next, Word.keyLE key ((next >>> 11) &&& 3).toNat))

namespace Xtea

/-- The half function under a running sum and a key word. -/
def mix (k : UInt32 × UInt32) (x : UInt32) : UInt32 :=
  (((x <<< 4) ^^^ (x >>> 5)) + x) ^^^ (k.1 + k.2)

/-- XTEA with 64-bit blocks, 32 cycles and a 128-bit key. -/
def cipher (key : Bytes) : BlockCipher :=
  let keys := teaSchedule key
  BlockCipher.ofPairs ((addHalves mix).run keys) ((addHalves mix).undo keys)

end Xtea

namespace XteaOne

/-- The half function, in which the half also turns the key word. -/
def mix (k : UInt32 × UInt32) (x : UInt32) : UInt32 :=
  ((x <<< 4) ^^^ (x >>> 5)) + (x ^^^ k.1) + Word.rotateLeft k.2 (x &&& 31)

/-- XTEA-1 with 64-bit blocks, 32 cycles and a 128-bit key. -/
def cipher (key : Bytes) : BlockCipher :=
  let keys := teaSchedule key
  BlockCipher.ofPairs ((addHalves mix).run keys) ((addHalves mix).undo keys)

end XteaOne

namespace Raiden

/-- The half function under one subkey. -/
def mix (k x : UInt32) : UInt32 :=
  let sum := k + x
  (sum <<< 9) ^^^ (k - x) ^^^ (sum >>> 14)

/-- The next `count` subkeys, the first of them number `i`: a subkey mixes the
four words and takes the place of word `i` modulo 4. -/
def subkeys : (count i : Nat) → (words : List UInt32) → List UInt32
  | 0, _, _ => []
  | count + 1, i, words =>
      let word j := words.getD j 0
      let subkey :=
        word 0 + word 1 + ((word 2 + word 3) ^^^ (word 0 <<< (word 2 &&& 31)))
      subkey :: subkeys count (i + 1) (words.set (i % 4) subkey)

/-- Raiden with 64-bit blocks, 16 rounds and a 128-bit key. -/
def cipher (key : Bytes) : BlockCipher :=
  let keys := (subkeys 16 0 ((List.range 4).map (Word.keyLE key))).map fun k => (k, k)
  BlockCipher.ofPairs ((addHalves mix).run keys) ((addHalves mix).undo keys)

end Raiden

namespace Rtea

/-- The half function under a key word that already holds the round number. -/
def mix (k x : UInt32) : UInt32 :=
  x + ((x <<< 6) ^^^ (x >>> 8)) + k

/-- The 64 round keys in pairs: key word and round number added. -/
def schedule (key : Bytes) : List (UInt32 × UInt32) :=
  let word i := Word.keyLE key (i % 8) + UInt32.ofNat i
  (List.range 32).map fun i => (word (2 * i), word (2 * i + 1))

/-- RTEA with 64-bit blocks, 64 half rounds and a 256-bit key; the second half
of the block is changed first. -/
def cipher (key : Bytes) : BlockCipher :=
  let keys := schedule key
  BlockCipher.ofPairs
    (fun b => ((addHalves mix).run keys b.swap).swap)
    (fun b => ((addHalves mix).undo keys b.swap).swap)

end Rtea

end FirmwareUpdate
