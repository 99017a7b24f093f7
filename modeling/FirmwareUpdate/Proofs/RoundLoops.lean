/-
The block ciphers as loops.  A running sum is counted up, and to decrypt down from its last
value; a network takes its own rounds back under the keys in the other order; two rounds are
done at a time.  Each loop does what the rounds under their keys do, in both directions.
-/
import FirmwareUpdate.Proofs.Permutations

namespace FirmwareUpdate

namespace Round

variable {κ σ : Type}

/-- The rounds taken back in a loop over the keys from the last one to the first. -/
def unwind (round : Round κ σ) (keys : List κ) (s : σ) : σ :=
  keys.reverse.foldl (fun s k => round.revert k s) s

theorem undo_eq_unwind (round : Round κ σ) (keys : List κ) (s : σ) :
    round.undo keys s = round.unwind keys s := by
  induction keys with
  | nil => rfl
  | cons k keys ih =>
      rw [undo, ih, unwind, unwind, List.reverse_cons, List.foldl_append]
      rfl

theorem run_append (round : Round κ σ) (first second : List κ) (s : σ) :
    round.run (first ++ second) s = round.run second (round.run first s) := by
  induction first generalizing s with
  | nil => rfl
  | cons k first ih => exact ih (round.apply k s)

theorem undo_append (round : Round κ σ) (first second : List κ) (s : σ) :
    round.undo (first ++ second) s = round.undo first (round.undo second s) := by
  induction first with
  | nil => rfl
  | cons k first ih => exact congrArg (round.revert k) ih

/-- Rounds that take themselves back up to an exchange are taken back by the same rounds, under
the keys in the other order. -/
theorem undo_eq_run_reverse {round : Round κ σ} {swap : σ → σ}
    (hrevert : ∀ k s, round.revert k (swap s) = swap (round.apply k s)) (keys : List κ) (s : σ) :
    round.undo keys (swap s) = swap (round.run keys.reverse s) := by
  induction keys with
  | nil => rfl
  | cons k keys ih =>
      rw [undo, ih, hrevert, List.reverse_cons, run_append]
      rfl

end Round

theorem BlockCipher.ofPairs_congr {e e' d d' : UInt32 × UInt32 → UInt32 × UInt32}
    (he : ∀ w, e w = e' w) (hd : ∀ w, d w = d' w) : ofPairs e d = ofPairs e' d' := by
  rw [funext he, funext hd]

/-- A property of a table that can be taken apart into pairs of words. -/
theorem RcSchedule.pairs_induction {motive : (words : List UInt32) → words.length % 2 = 0 → Prop}
    (nil : motive [] rfl)
    (cons : ∀ x y rest h, motive rest h →
      motive (x :: y :: rest) ((Nat.add_mod_right rest.length 2).trans h)) :
    ∀ words h, motive words h
  | [], _ => nil
  | [_], h => nomatch h
  | x :: y :: rest, h =>
      have hrest : rest.length % 2 = 0 := (Nat.add_mod_right rest.length 2).symm.trans h
      cons x y rest hrest (pairs_induction nil cons rest hrest)

namespace Tea

/-- The keys of a cycle, from the sum behind so many cycles. -/
def cycleKeys (key : Bytes) (i : Nat) : (UInt32 × UInt32) × (UInt32 × UInt32) :=
  let sum := goldenDelta * UInt32.ofNat i
  let next := sum + goldenDelta
  ((sum, Word.keyLE key (sum &&& 3).toNat), (next, Word.keyLE key ((next >>> 11) &&& 3).toNat))

/-- So many cycles, from a running sum on. -/
def countUp (f : UInt32 × UInt32 → UInt32 → UInt32) (key : Bytes) :
    (cycles : Nat) → (sum : UInt32) → UInt32 × UInt32 → UInt32 × UInt32
  | 0, _, s => s
  | cycles + 1, sum, (a, b) =>
      let a := a + f (sum, Word.keyLE key (sum &&& 3).toNat) b
      let sum := sum + goldenDelta
      let b := b + f (sum, Word.keyLE key ((sum >>> 11) &&& 3).toNat) a
      countUp f key cycles sum (a, b)

/-- So many cycles taken back, from a running sum down. -/
def countDown (f : UInt32 × UInt32 → UInt32 → UInt32) (key : Bytes) :
    (cycles : Nat) → (sum : UInt32) → UInt32 × UInt32 → UInt32 × UInt32
  | 0, _, s => s
  | cycles + 1, sum, (a, b) =>
      let b := b - f (sum, Word.keyLE key ((sum >>> 11) &&& 3).toNat) a
      let sum := sum - goldenDelta
      let a := a - f (sum, Word.keyLE key (sum &&& 3).toNat) b
      countDown f key cycles sum (a, b)

theorem sum_succ (i : Nat) :
    goldenDelta * UInt32.ofNat i + goldenDelta = goldenDelta * UInt32.ofNat (i + 1) := by
  rw [UInt32.ofNat_add, UInt32.mul_add]
  exact congrArg (goldenDelta * UInt32.ofNat i + ·) (UInt32.mul_one goldenDelta).symm

theorem countUp_eq (f : UInt32 × UInt32 → UInt32 → UInt32) (key : Bytes) (cycles i : Nat)
    (s : UInt32 × UInt32) :
    countUp f key cycles (goldenDelta * UInt32.ofNat i) s =
      (addHalves f).run ((List.range' i cycles).map (cycleKeys key)) s := by
  induction cycles generalizing i s with
  | zero => rfl
  | succ cycles ih =>
      rw [countUp, sum_succ, ih, List.range'_succ, List.map_cons, Round.run]
      simp only [addHalves, cycleKeys, sum_succ]

/-- The sum of the last cycle is the first one on the way back. -/
theorem countDown_eq (f : UInt32 × UInt32 → UInt32 → UInt32) (key : Bytes) (cycles : Nat)
    (s : UInt32 × UInt32) :
    countDown f key cycles (goldenDelta * UInt32.ofNat cycles) s =
      (addHalves f).undo ((List.range cycles).map (cycleKeys key)) s := by
  induction cycles generalizing s with
  | zero => rfl
  | succ cycles ih =>
      have hback : goldenDelta * UInt32.ofNat (cycles + 1) - goldenDelta =
          goldenDelta * UInt32.ofNat cycles := by
        rw [← sum_succ, UInt32.add_sub_cancel]
      rw [countDown, hback, ih, List.range_succ, List.map_append, Round.undo_append]
      simp only [List.map_cons, List.map_nil, Round.undo, addHalves, cycleKeys, sum_succ]

/-- A cipher of 32 cycles, with the sum behind all of them to start from on the way back. -/
def looped (f : UInt32 × UInt32 → UInt32 → UInt32) (key : Bytes) : BlockCipher :=
  BlockCipher.ofPairs (countUp f key 32 0) (countDown f key 32 (goldenDelta * 32))

theorem ofPairs_eq_looped (f : UInt32 × UInt32 → UInt32 → UInt32) (key : Bytes) :
    BlockCipher.ofPairs ((addHalves f).run (teaSchedule key))
      ((addHalves f).undo (teaSchedule key)) = looped f key := by
  have hschedule : teaSchedule key = (List.range 32).map (cycleKeys key) := rfl
  rw [hschedule]
  apply BlockCipher.ofPairs_congr
  · intro s
    have hup := countUp_eq f key 32 0 s
    rw [← List.range_eq_range'] at hup
    exact hup.symm
  · intro s
    exact (countDown_eq f key 32 s).symm

end Tea

namespace Rtea

/-- The keyed function of a half. -/
def turn (x : UInt32) : UInt32 :=
  x + ((x <<< 6) ^^^ (x >>> 8))

/-- The round keys of a cycle, the counter added. -/
def cycleKeys (key : Bytes) (i : Nat) : UInt32 × UInt32 :=
  let word i := Word.keyLE key (i % 8) + UInt32.ofNat i
  (word (2 * i), word (2 * i + 1))

/-- So many cycles of two rounds, from a counter on. -/
def countUp (key : Bytes) : (cycles r : Nat) → UInt32 × UInt32 → UInt32 × UInt32
  | 0, _, s => s
  | cycles + 1, r, (a, b) =>
      let b := b + turn a + Word.keyLE key (r % 8) + UInt32.ofNat r
      let a := a + turn b + Word.keyLE key ((r + 1) % 8) + UInt32.ofNat (r + 1)
      countUp key cycles (r + 2) (a, b)

/-- The cycles of two rounds taken back, the counter from twice their number down. -/
def countDown (key : Bytes) : (cycles : Nat) → UInt32 × UInt32 → UInt32 × UInt32
  | 0, s => s
  | cycles + 1, (a, b) =>
      let r := 2 * cycles + 1
      let a := a - turn b - Word.keyLE key (r % 8) - UInt32.ofNat r
      let r := 2 * cycles
      let b := b - turn a - Word.keyLE key (r % 8) - UInt32.ofNat r
      countDown key cycles (a, b)

theorem countUp_eq (key : Bytes) (cycles i : Nat) (s : UInt32 × UInt32) :
    countUp key cycles (2 * i) s =
      ((addHalves mix).run ((List.range' i cycles).map (cycleKeys key)) s.swap).swap := by
  induction cycles generalizing i s with
  | zero => rfl
  | succ cycles ih =>
      rw [countUp, ← Nat.mul_succ, ih, List.range'_succ, List.map_cons, Round.run]
      simp only [addHalves, cycleKeys, mix, turn, Prod.swap_prod_mk, Prod.fst_swap,
        Prod.snd_swap, UInt32.add_assoc]

theorem countDown_eq (key : Bytes) (cycles : Nat) (s : UInt32 × UInt32) :
    countDown key cycles s =
      ((addHalves mix).undo ((List.range cycles).map (cycleKeys key)) s.swap).swap := by
  induction cycles generalizing s with
  | zero => rfl
  | succ cycles ih =>
      have hsub (a x y z : UInt32) : a - x - y - z = a - (x + (y + z)) := by grind
      rw [countDown, ih, List.range_succ, List.map_append, Round.undo_append]
      simp only [List.map_cons, List.map_nil, Round.undo, addHalves, cycleKeys, mix, turn,
        Prod.swap_prod_mk, Prod.fst_swap, Prod.snd_swap, hsub]

/-- RTEA with its counter up to 64, and from 64 down. -/
def looped (key : Bytes) : BlockCipher :=
  BlockCipher.ofPairs (countUp key 32 0) (countDown key 32)

theorem cipher_eq_looped (key : Bytes) : cipher key = looped key := by
  have hschedule : schedule key = (List.range 32).map (cycleKeys key) := rfl
  simp only [cipher, looped, hschedule]
  apply BlockCipher.ofPairs_congr
  · intro s
    rw [List.range_eq_range']
    exact (countUp_eq key 32 0 s).symm
  · intro s
    exact (countDown_eq key 32 s).symm

end Rtea

namespace Gost

/-- The network under keys; the halves leave it without the last exchange. -/
def network (keys : List UInt32) (b : UInt32 × UInt32) : UInt32 × UInt32 :=
  (round.run keys b).swap

theorem undo_swap (keys : List UInt32) (b : UInt32 × UInt32) :
    round.undo keys b.swap = network keys.reverse b :=
  Round.undo_eq_run_reverse (fun _ _ => rfl) keys b

/-- The network with its keys, and with its keys in the other order. -/
def looped (key : Bytes) : BlockCipher :=
  BlockCipher.ofPairs (network (schedule key)) (network (schedule key).reverse)

theorem cipher_eq_looped (key : Bytes) : cipher key = looped key := by
  simp only [cipher, looped]
  generalize schedule key = keys
  exact BlockCipher.ofPairs_congr (fun _ => rfl) (undo_swap keys)

end Gost

namespace Blowfish

/-- Two rounds under two subkeys, after which the halves are in their places again. -/
def doubleRound (t : Tables) : Round (UInt32 × UInt32) (UInt32 × UInt32) where
  apply k s :=
    let l := s.1 ^^^ k.1
    let r := s.2 ^^^ t.mix l ^^^ k.2
    (l ^^^ t.mix r, r)
  revert k s :=
    let l := s.1 ^^^ t.mix s.2
    let r := s.2 ^^^ k.2 ^^^ t.mix l
    (l ^^^ k.1, r)

theorem apply_apply (t : Tables) (k₁ k₂ : UInt32) (s : UInt32 × UInt32) :
    (round t).apply k₂ ((round t).apply k₁ s) = (doubleRound t).apply (k₁, k₂) s := rfl

theorem revert_revert (t : Tables) (k₁ k₂ : UInt32) (s : UInt32 × UInt32) :
    (round t).revert k₁ ((round t).revert k₂ s) = (doubleRound t).revert (k₁, k₂) s := rfl

/-- Two rounds at a time are as many rounds as there are subkeys, if these make up pairs. -/
theorem run_pairs (t : Tables) (keys : List UInt32) (h : keys.length % 2 = 0)
    (s : UInt32 × UInt32) :
    (doubleRound t).run (RcSchedule.pairs keys) s = (round t).run keys s := by
  induction keys, h using RcSchedule.pairs_induction generalizing s with
  | nil => rfl
  | cons k₁ k₂ keys h ih => rw [RcSchedule.pairs, Round.run, ih, Round.run, Round.run, apply_apply]

theorem undo_pairs (t : Tables) (keys : List UInt32) (h : keys.length % 2 = 0)
    (s : UInt32 × UInt32) :
    (doubleRound t).undo (RcSchedule.pairs keys) s = (round t).undo keys s := by
  induction keys, h using RcSchedule.pairs_induction with
  | nil => rfl
  | cons k₁ k₂ keys h ih =>
      rw [RcSchedule.pairs, Round.undo, ih, Round.undo, Round.undo, revert_revert]

/-- Eight double rounds and the last mask. -/
def Tables.encryptWords (t : Tables) (b : UInt32 × UInt32) : UInt32 × UInt32 :=
  let s := (doubleRound t).run (RcSchedule.pairs (t.subkeys.toList.take 16)) b
  (s.2 ^^^ t.subkeys.get 17, s.1 ^^^ t.subkeys.get 16)

/-- The last mask, and the double rounds from the last one to the first. -/
def Tables.decryptWords (t : Tables) (b : UInt32 × UInt32) : UInt32 × UInt32 :=
  (doubleRound t).unwind (RcSchedule.pairs (t.subkeys.toList.take 16))
    (b.2 ^^^ t.subkeys.get 16, b.1 ^^^ t.subkeys.get 17)

/-- Blowfish two rounds at a time. -/
def looped (key : Bytes) : BlockCipher :=
  let tables := expand key
  BlockCipher.ofPairs tables.encryptWords tables.decryptWords

theorem cipher_eq_looped (key : Bytes) : cipher key = looped key := by
  simp only [cipher, looped]
  generalize expand key = tables
  have hpairs : (tables.subkeys.toList.take 16).length % 2 = 0 := by
    rw [List.length_take, Vector.length_toList]
    rfl
  apply BlockCipher.ofPairs_congr
  · intro b
    rw [Tables.encrypt, Tables.encryptWords, run_pairs tables _ hpairs]
    rfl
  · intro b
    rw [Tables.decrypt, Tables.decryptWords, ← Round.undo_eq_unwind, undo_pairs tables _ hpairs]
    rfl

end Blowfish

/-- The network on blocks read in the other order. -/
def Magma.looped (key : Bytes) : BlockCipher :=
  let inner := Gost.looped key
  { size := inner.size
    size_pos := inner.size_pos
    encrypt := fun b => (inner.encrypt b.reverse).reverse
    decrypt := fun b => (inner.decrypt b.reverse).reverse }

theorem Magma.cipher_eq_looped (key : Bytes) : Magma.cipher key = Magma.looped key := by
  rw [Magma.cipher, Magma.looped, Gost.cipher_eq_looped]

namespace Primitive

/-- The block ciphers as loops: sums and counters that run up, and down again; round keys taken
from the last one to the first; the network of GOST under its keys in the other order; Blowfish
two rounds at a time.  Rijndael is left as it is. -/
def looped : Primitive → Bytes → BlockCipher
  | xtea, key => Tea.looped Xtea.mix key
  | xteaOne, key => Tea.looped XteaOne.mix key
  | rc5, key =>
      let keys := RcSchedule.pairs (RcSchedule.expand 26 key)
      .ofPairs
        (fun b => RcFive.round.run (keys.drop 1) (RcFive.whiten.run (keys.take 1) b))
        (fun b => RcFive.whiten.unwind (keys.take 1) (RcFive.round.unwind (keys.drop 1) b))
  | rc6, key =>
      let keys := RcSchedule.pairs (RcSchedule.expand 44 key)
      let first := keys.take 1
      let middle := (keys.drop 1).take 20
      let last := keys.drop 21
      .ofQuads
        (fun q => RcSix.whitenOut.run last (RcSix.round.run middle (RcSix.whitenIn.run first q)))
        (fun q =>
          RcSix.whitenIn.unwind first (RcSix.round.unwind middle (RcSix.whitenOut.unwind last q)))
  | speck, key =>
      let keys := Speck.schedule key
      .ofPairs (fun b => (Speck.round.run keys b.swap).swap)
        (fun b => (Speck.round.unwind keys b.swap).swap)
  | raiden, key =>
      let keys := (Raiden.subkeys 16 0 ((List.range 4).map (Word.keyLE key))).map fun k => (k, k)
      .ofPairs ((addHalves Raiden.mix).run keys) ((addHalves Raiden.mix).unwind keys)
  | blowfish, key => Blowfish.looped key
  | gost, key => Gost.looped key
  | magma, key => Magma.looped key
  | rtea, key => Rtea.looped key
  | p, key => p.keyed key

theorem keyed_eq_looped (p : Primitive) (key : Bytes) : p.keyed key = p.looped key := by
  cases p with
  | xtea => exact Tea.ofPairs_eq_looped Xtea.mix key
  | xteaOne => exact Tea.ofPairs_eq_looped XteaOne.mix key
  | rc5 => simp only [keyed, looped, RcFive.cipher, Round.undo_eq_unwind]
  | rc6 => simp only [keyed, looped, RcSix.cipher, Round.undo_eq_unwind]
  | speck => simp only [keyed, looped, Speck.cipher, Round.undo_eq_unwind]
  | raiden =>
      simp only [keyed, looped, Raiden.cipher]
      exact BlockCipher.ofPairs_congr (fun _ => rfl) (Round.undo_eq_unwind _ _)
  | blowfish => exact Blowfish.cipher_eq_looped key
  | gost => exact Gost.cipher_eq_looped key
  | magma => exact Magma.cipher_eq_looped key
  | rtea => exact Rtea.cipher_eq_looped key
  | aes128 => rfl
  | aes192 => rfl
  | aes256 => rfl

/-- Every block cipher is there for every key of its size, and is a permutation of its blocks:
carried out by its loops, decryption takes back encryption, and encryption decryption. -/
theorem withKey_permutes (p : Primitive) (key : Bytes) (h : key.length = p.keySize) :
    ∃ cipher, p.withKey key = .ok cipher ∧ cipher.size = p.blockSize ∧
      cipher = p.looped key ∧
      (∀ b, cipher.decrypt (cipher.encrypt b) = b) ∧
      ∀ b, cipher.encrypt (cipher.decrypt b) = b := by
  obtain ⟨hleft, hright⟩ := p.keyed_lawful key
  exact ⟨p.keyed key, if_pos h, p.size_keyed key, p.keyed_eq_looped key, hleft, hright⟩

/-- The block of the standard for MAGMA, encrypted to the block that the standard tells, and
decrypted again. -/
theorem withKey_permutes_magma :
    let key : Bytes :=
      [0xFF, 0xEE, 0xDD, 0xCC, 0xBB, 0xAA, 0x99, 0x88, 0x77, 0x66, 0x55, 0x44, 0x33, 0x22, 0x11,
        0x00, 0xF0, 0xF1, 0xF2, 0xF3, 0xF4, 0xF5, 0xF6, 0xF7, 0xF8, 0xF9, 0xFA, 0xFB, 0xFC, 0xFD,
        0xFE, 0xFF]
    let block : Block 8 := ⟨[0xFE, 0xDC, 0xBA, 0x98, 0x76, 0x54, 0x32, 0x10], rfl⟩
    let cipher := magma.keyed key
    magma.withKey key = .ok cipher ∧
      (cipher.encrypt block).bytes = [0x4E, 0xE9, 0x01, 0xE5, 0xC2, 0xD8, 0xCA, 0x3D] ∧
      cipher.decrypt (cipher.encrypt block) = block ∧
      cipher.encrypt (cipher.decrypt block) = block := by
  intro key block cipher
  have hkey : magma.withKey key = .ok cipher := rfl
  obtain ⟨found, hfound, -, -, hleft, hright⟩ := magma.withKey_permutes key rfl
  cases hkey.symm.trans hfound
  exact ⟨hkey, by decide +kernel, hleft block, hright block⟩

end Primitive

end FirmwareUpdate
