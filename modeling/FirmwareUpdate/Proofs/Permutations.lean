/-
Every block cipher on offer is a permutation of its blocks under every key.  The
rounds of a cipher are taken back one by one, so each cipher needs no more than the
inverse of its rounds and of the steps around them.
-/
import Mathlib.Data.LawfulXor.Basic
import FirmwareUpdate.Cipher.Kind
import FirmwareUpdate.Proofs.Rijndael

namespace FirmwareUpdate

namespace BlockCipher

/-- A cipher on pairs of words is a permutation if its two maps are inverse. -/
theorem lawful_ofPairs {encrypt decrypt : UInt32 × UInt32 → UInt32 × UInt32}
    (hleft : ∀ w, decrypt (encrypt w) = w) (hright : ∀ w, encrypt (decrypt w) = w) :
    (ofPairs encrypt decrypt).Lawful := by
  constructor
  · intro b
    change Block.ofPair (decrypt (Block.ofPair (encrypt b.toPair)).toPair) = b
    rw [Block.toPair_ofPair, hleft]
    exact Block.ofPair_toPair b
  · intro b
    change Block.ofPair (encrypt (Block.ofPair (decrypt b.toPair)).toPair) = b
    rw [Block.toPair_ofPair, hright]
    exact Block.ofPair_toPair b

/-- A cipher on four words is a permutation if its two maps are inverse. -/
theorem lawful_ofQuads {encrypt decrypt : Quad → Quad}
    (hleft : ∀ q, decrypt (encrypt q) = q) (hright : ∀ q, encrypt (decrypt q) = q) :
    (ofQuads encrypt decrypt).Lawful := by
  constructor
  · intro b
    change (decrypt (Quad.ofBlock (encrypt (Quad.ofBlock b)).toBlock)).toBlock = b
    rw [Quad.ofBlock_toBlock, hleft]
    exact Quad.toBlock_ofBlock b
  · intro b
    change (encrypt (Quad.ofBlock (decrypt (Quad.ofBlock b)).toBlock)).toBlock = b
    rw [Quad.ofBlock_toBlock, hright]
    exact Quad.toBlock_ofBlock b

/-- Rounds with a lawful round, started and ended by nothing else. -/
theorem lawful_ofPairs_run {κ : Type} {round : Round κ (UInt32 × UInt32)} (h : round.Lawful)
    (keys : List κ) : (ofPairs (round.run keys) (round.undo keys)).Lawful :=
  lawful_ofPairs (Round.undo_run h keys) (Round.run_undo h keys)

/-- Rounds on a block whose halves are exchanged before and after them. -/
theorem lawful_ofPairs_swap {κ : Type} {round : Round κ (UInt32 × UInt32)} (h : round.Lawful)
    (keys : List κ) :
    (ofPairs (fun b => (round.run keys b.swap).swap)
      (fun b => (round.undo keys b.swap).swap)).Lawful :=
  lawful_ofPairs (fun w => by simp [Round.undo_run h]) (fun w => by simp [Round.run_undo h])

end BlockCipher

theorem Speck.round_lawful : Speck.round.Lawful := by
  constructor <;> rintro k ⟨a, b⟩ <;> simp [Speck.round]

theorem RcFive.round_lawful : RcFive.round.Lawful := by
  constructor <;> rintro ⟨k, l⟩ ⟨a, b⟩ <;> simp [RcFive.round]

theorem RcFive.whiten_lawful : RcFive.whiten.Lawful := by
  constructor <;> rintro ⟨k, l⟩ ⟨a, b⟩ <;> simp [RcFive.whiten]

theorem RcSix.round_lawful : RcSix.round.Lawful := by
  constructor <;> rintro ⟨k, l⟩ ⟨a, b, c, d⟩ <;> simp [RcSix.round]

theorem RcSix.whitenIn_lawful : RcSix.whitenIn.Lawful := by
  constructor <;> rintro ⟨k, l⟩ ⟨a, b, c, d⟩ <;> simp [RcSix.whitenIn]

theorem RcSix.whitenOut_lawful : RcSix.whitenOut.Lawful := by
  constructor <;> rintro ⟨k, l⟩ ⟨a, b, c, d⟩ <;> simp [RcSix.whitenOut]

theorem Blowfish.round_lawful (t : Blowfish.Tables) : (Blowfish.round t).Lawful := by
  constructor <;> rintro k ⟨a, b⟩ <;> simp [Blowfish.round]

theorem Gost.round_lawful : Gost.round.Lawful := by
  constructor <;> rintro k ⟨a, b⟩ <;> simp [Gost.round]

theorem RcFive.cipher_lawful (key : Bytes) : (RcFive.cipher key).Lawful := by
  simp only [RcFive.cipher]
  generalize RcSchedule.pairs (RcSchedule.expand 26 key) = keys
  apply BlockCipher.lawful_ofPairs
  · intro w
    rw [Round.undo_run RcFive.round_lawful, Round.undo_run RcFive.whiten_lawful]
  · intro w
    rw [Round.run_undo RcFive.whiten_lawful, Round.run_undo RcFive.round_lawful]

theorem RcSix.cipher_lawful (key : Bytes) : (RcSix.cipher key).Lawful := by
  simp only [RcSix.cipher]
  generalize RcSchedule.pairs (RcSchedule.expand 44 key) = keys
  apply BlockCipher.lawful_ofQuads
  · intro q
    rw [Round.undo_run RcSix.whitenOut_lawful, Round.undo_run RcSix.round_lawful,
      Round.undo_run RcSix.whitenIn_lawful]
  · intro q
    rw [Round.run_undo RcSix.whitenIn_lawful, Round.run_undo RcSix.round_lawful,
      Round.run_undo RcSix.whitenOut_lawful]

theorem Blowfish.cipher_lawful (key : Bytes) : (Blowfish.cipher key).Lawful := by
  simp only [Blowfish.cipher]
  generalize Blowfish.expand key = tables
  apply BlockCipher.lawful_ofPairs
  · intro w
    simp [Blowfish.Tables.encrypt, Blowfish.Tables.decrypt,
      Round.undo_run (Blowfish.round_lawful _)]
  · intro w
    simp [Blowfish.Tables.encrypt, Blowfish.Tables.decrypt,
      Round.run_undo (Blowfish.round_lawful _)]

/-- The last exchange of the halves stands between the rounds and their inverse. -/
theorem Gost.cipher_lawful (key : Bytes) : (Gost.cipher key).Lawful := by
  simp only [Gost.cipher]
  generalize Gost.schedule key = keys
  apply BlockCipher.lawful_ofPairs
  · intro w
    rw [Prod.swap_swap, Round.undo_run Gost.round_lawful]
  · intro w
    rw [Round.run_undo Gost.round_lawful, Prod.swap_swap]

theorem Magma.cipher_lawful (key : Bytes) : (Magma.cipher key).Lawful := by
  constructor
  · intro b
    simp only [Magma.cipher]
    rw [Block.reverse_reverse, (Gost.cipher_lawful key).1]
    exact b.reverse_reverse
  · intro b
    simp only [Magma.cipher]
    rw [Block.reverse_reverse, (Gost.cipher_lawful key).2]
    exact b.reverse_reverse

/-- Every block cipher is a permutation of its blocks, under every key. -/
theorem Primitive.keyed_lawful (p : Primitive) (key : Bytes) : (p.keyed key).Lawful := by
  cases p with
  | xtea => exact BlockCipher.lawful_ofPairs_run (addHalves_lawful _) _
  | xteaOne => exact BlockCipher.lawful_ofPairs_run (addHalves_lawful _) _
  | rc5 => exact RcFive.cipher_lawful key
  | rc6 => exact RcSix.cipher_lawful key
  | speck => exact BlockCipher.lawful_ofPairs_swap Speck.round_lawful _
  | raiden => exact BlockCipher.lawful_ofPairs_run (addHalves_lawful _) _
  | blowfish => exact Blowfish.cipher_lawful key
  | gost => exact Gost.cipher_lawful key
  | magma => exact Magma.cipher_lawful key
  | rtea => exact BlockCipher.lawful_ofPairs_swap (addHalves_lawful _) _
  | aes128 => exact Rijndael.cipher_lawful 4 10 key
  | aes192 => exact Rijndael.cipher_lawful 6 12 key
  | aes256 => exact Rijndael.cipher_lawful 8 14 key

end FirmwareUpdate
