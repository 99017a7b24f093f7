/-
GOST 28147-89 and MAGMA: one Feistel network of 32 rounds with eight fixed
4-bit substitutions.  The two ciphers differ in the order of the block's bytes.
-/
import FirmwareUpdate.Cipher.BlockCipher

namespace FirmwareUpdate

namespace Gost

/-- The eight 4-bit substitutions, packed by argument: word `v` holds the images
of `v`, that of the highest nibble of the argument word in its lowest nibble. -/
def substitutions : List UInt32 :=
  [0xC6BC7581, 0x4838FDE7, 0x62525F2E, 0x2381A65D,
    0xA92D8960, 0x5AF41295, 0xB5AF6C18, 0x9CD6DAC3,
    0xE1E70BF4, 0x8E10974F, 0xD47A38BA, 0x7745E106,
    0x0BC3B4D9, 0x3D9E43AC, 0xF0692E3B, 0x1F0BC072]

/-- Replace every nibble of a word by its image, from the highest nibble down. -/
def substitute (x : UInt32) : UInt32 :=
  (List.range 8).foldl (fun out n =>
      let n := UInt32.ofNat n
      let nibble := (x >>> (28 - 4 * n)) &&& 15
      (out <<< 4) + ((substitutions.getD nibble.toNat 0 >>> (4 * n)) &&& 15))
    0

/-- The second half takes the substituted and turned sum of the first half and
the key; then the halves change places. -/
def round : Round UInt32 (UInt32 × UInt32) where
  apply k s := (s.2 ^^^ Word.rotateLeft (substitute (s.1 + k)) 11, s.1)
  revert k s := (s.2, s.1 ^^^ Word.rotateLeft (substitute (s.2 + k)) 11)

/-- The eight big-endian key words: three times in order, then once backwards. -/
def schedule (key : Bytes) : List UInt32 :=
  let words := (List.range 8).map (Word.keyBE key)
  words ++ words ++ words ++ words.reverse

/-- GOST 28147-89 with a 256-bit key; the halves leave without the last exchange. -/
def cipher (key : Bytes) : BlockCipher :=
  let keys := schedule key
  BlockCipher.ofPairs
    (fun b => (round.run keys b).swap)
    (fun b => round.undo keys b.swap)

end Gost

namespace Magma

/-- GOST R 34.12-2015 MAGMA: the same network on blocks read in the other order. -/
def cipher (key : Bytes) : BlockCipher :=
  let inner := Gost.cipher key
  { size := inner.size
    size_pos := inner.size_pos
    encrypt := fun b => (inner.encrypt b.reverse).reverse
    decrypt := fun b => (inner.decrypt b.reverse).reverse }

end Magma

end FirmwareUpdate
