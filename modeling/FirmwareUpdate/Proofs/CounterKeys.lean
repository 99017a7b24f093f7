/-
The keystream of counter mode.  The block that masks a block of data is told by its place alone,
which is the number of blocks that went through since the last reset, in either direction.  The
counter is one word that wraps around, so the keystream repeats exactly when the word does.
-/
import FirmwareUpdate.Proofs.ChainFormulas
import FirmwareUpdate.Proofs.CallHistory
import Mathlib.Data.Nat.ModEq

namespace FirmwareUpdate

namespace Bytes

/-- Two numbers are written alike exactly if they agree in the digits that are written. -/
theorem ofNatLE_eq_iff (width a b : Nat) :
    ofNatLE width a = ofNatLE width b ↔ a ≡ b [MOD capacity width] := by
  constructor
  · intro h
    have hread := congrArg natLE h
    rwa [natLE_ofNatLE, natLE_ofNatLE] at hread
  · intro h
    rw [← ofNatLE_mod_capacity (Nat.le_refl width) a, h,
      ofNatLE_mod_capacity (Nat.le_refl width)]

end Bytes

namespace Block

variable {n : Nat}

/-- The number of values of the counter in a block: of its first four bytes, or of all of them
in a shorter block. -/
def counterValues (n : Nat) : Nat :=
  Bytes.capacity (min 4 n)

theorem counterValues_of_le (h : 4 ≤ n) : counterValues n = 2 ^ 32 := by
  rw [counterValues, Nat.min_eq_left h]
  rfl

/-- Wherever the counter starts, it is the same again exactly after all of its values. -/
theorem advance_eq_iff (b : Block n) (i j : Nat) :
    b.advance i = b.advance j ↔ i ≡ j [MOD counterValues n] := by
  rw [Block.ext_iff, bytes_advance, bytes_advance, List.append_cancel_right_eq,
    Bytes.ofNatLE_eq_iff]
  constructor
  · exact Nat.ModEq.add_left_cancel'
      (Bytes.natLE (b.bytes.take 4))
  · exact Nat.ModEq.add_left (Bytes.natLE (b.bytes.take 4))

end Block

namespace Chain

variable {cipher : BlockCipher}

/-- Block number `i` of the keystream of counter mode. -/
def counterKey (cipher : BlockCipher) (seed : Block cipher.size) (i : Nat) : Block cipher.size :=
  cipher.encrypt (seed.advance i)

/-- Blocks under the keystream from number `place` on. -/
def masked (cipher : BlockCipher) (seed : Block cipher.size) (place : Nat)
    (blocks : List (Block cipher.size)) : List (Block cipher.size) :=
  blocks.mapIdx fun k b => b ^^^ counterKey cipher seed (place + k)

theorem masked_cons (seed : Block cipher.size) (place : Nat) (b : Block cipher.size)
    (blocks : List (Block cipher.size)) :
    masked cipher seed place (b :: blocks) =
      (b ^^^ counterKey cipher seed place) :: masked cipher seed (place + 1) blocks := by
  simp only [masked, List.mapIdx_cons, Nat.add_zero, Nat.add_assoc, Nat.add_comm 1]

/-- Both directions do the same to a block: mask it, and count on. -/
theorem step_ctr (direction : Direction) (seed : Block cipher.size) (place : Nat)
    (b : Block cipher.size) :
    step cipher .ctr direction (seed.advance place) b =
      (b ^^^ counterKey cipher seed place, seed.advance (place + 1)) := by
  have hcount : (seed.advance place).increment = seed.advance (place + 1) := by
    rw [Block.increment_eq_advance, Block.advance_advance]
  rw [← hcount]
  cases direction <;> rfl

theorem thread_ctr (direction : Direction) (seed : Block cipher.size) (place : Nat)
    (blocks : List (Block cipher.size)) :
    thread (step cipher .ctr direction) (seed.advance place) blocks =
      (masked cipher seed place blocks, seed.advance (place + blocks.length)) := by
  induction blocks generalizing place with
  | nil => rfl
  | cons b blocks ih =>
      rw [thread_cons, step_ctr, ih, masked_cons, List.length_cons, Nat.add_assoc,
        Nat.add_comm 1]

end Chain

namespace Cipher

/-- The place in the stream behind a call that was made at `place`.  A reset goes back to the
start, and a refused call stays where it is. -/
def Call.place (block place : Nat) : Call → Nat
  | .send _ data => if data.length % block = 0 then place + data.length / block else place
  | .reset => 0

/-- The number of blocks that went through since the last reset. -/
def place (block : Nat) (calls : List Call) : Nat :=
  calls.foldl (Call.place block) 0

/-- A cipher in counter mode that has come from its seed to a place of its stream. -/
def CountsAt (c : Cipher) (cipher : BlockCipher) (seed : Block cipher.size) (place : Nat) : Prop :=
  c.engine = .chain ⟨cipher, .ctr, seed, seed.advance place⟩

section CounterMode

variable {c : Cipher} {cipher : BlockCipher} {seed : Block cipher.size} {i : Nat}

theorem countsAt_zero_iff :
    c.CountsAt cipher seed 0 ↔ c.engine = .chain (Chain.start cipher .ctr seed) := by
  rw [CountsAt, seed.advance_zero]
  rfl

theorem CountsAt.blockSize_eq (h : c.CountsAt cipher seed i) : c.blockSize = cipher.size := by
  rw [blockSize, h]

/-- Blocks are masked from the place on, in either direction. -/
theorem CountsAt.call_send (h : c.CountsAt cipher seed i) (direction : Direction)
    (blocks : List (Block cipher.size)) :
    (c.call (.send direction (Block.join blocks))).1 =
        .sent (Block.join (Chain.masked cipher seed i blocks)) ∧
      (c.call (.send direction (Block.join blocks))).2.CountsAt cipher seed
        (i + blocks.length) := by
  have haligned : (Block.join blocks).length % c.blockSize = 0 := by
    rw [h.blockSize_eq, Block.length_join, Nat.mul_mod_right]
  have hsent : c.apply direction (Block.join blocks) =
      .ok (Block.join (Chain.masked cipher seed i blocks), { c with
        engine := .chain ⟨cipher, .ctr, seed, seed.advance (i + blocks.length)⟩ }) := by
    rw [apply_eq_ok_iff, sent, h]
    refine ⟨haligned, ?_⟩
    simp only [Chain.run, Block.split_join cipher.size_pos, Chain.thread_ctr]
  rw [call_of_apply hsent]
  exact ⟨rfl, rfl⟩

/-- Every call leads to its place. -/
theorem CountsAt.call (h : c.CountsAt cipher seed i) (next : Call) :
    (c.call next).2.CountsAt cipher seed (next.place cipher.size i) := by
  cases next with
  | reset =>
      rw [CountsAt, Cipher.call, reset, h, Call.place, seed.advance_zero]
      rfl
  | send direction data =>
      rw [Call.place]
      by_cases hfit : data.length % cipher.size = 0
      · have hlength := Block.length_join (Block.split cipher.size data)
        rw [Block.join_split cipher.size_pos data hfit] at hlength
        have hcount : data.length / cipher.size = (Block.split cipher.size data).length := by
          rw [hlength, Nat.mul_div_cancel_left _ cipher.size_pos]
        have hcall := (h.call_send direction (Block.split cipher.size data)).2
        rw [Block.join_split cipher.size_pos data hfit] at hcall
        rw [if_pos hfit, hcount]
        exact hcall
      · rw [call_of_misfit (by rwa [h.blockSize_eq]), if_neg hfit]
        exact h

theorem CountsAt.after (h : c.CountsAt cipher seed i) (calls : List Call) :
    (c.after calls).CountsAt cipher seed (calls.foldl (Call.place cipher.size) i) := by
  induction calls generalizing c i with
  | nil => exact h
  | cons first calls ih =>
      rw [after_cons]
      exact ih (h.call first)

end CounterMode

/-- A chain over `cipher` that lays the blocks of `key` over its data, one after another since the
last reset.  The register that a key is made of keeps all bytes behind the counter. -/
structure MaskedBy (c : Cipher) (cipher : BlockCipher) (seed : Block cipher.size)
    (key : Nat → Block cipher.size) : Prop where
  register : ∀ calls, ∃ register : Block cipher.size,
    (c.after calls).engine = .chain ⟨cipher, .ctr, seed, register⟩ ∧
      key (place cipher.size calls) = cipher.encrypt register ∧
      register.bytes.drop 4 = seed.bytes.drop 4
  sent : ∀ calls direction (blocks : List (Block cipher.size)),
    ((c.after calls).call (.send direction (Block.join blocks))).1 =
      .sent (Block.join (blocks.mapIdx fun k b => b ^^^ key (place cipher.size calls + k)))

theorem maskedBy_counterKey {c : Cipher} {cipher : BlockCipher} {seed : Block cipher.size}
    (h : c.engine = .chain (Chain.start cipher .ctr seed)) :
    c.MaskedBy cipher seed (Chain.counterKey cipher seed) := by
  have hafter (calls : List Call) : (c.after calls).CountsAt cipher seed (place cipher.size calls) :=
    (countsAt_zero_iff.mpr h).after calls
  constructor
  · intro calls
    exact ⟨_, hafter calls, rfl, (seed.halves_advance _).2⟩
  · intro calls direction blocks
    exact ((hafter calls).call_send direction blocks).1

/-- Over a block cipher that takes no two blocks to one, the keystream of counter mode has the same
block at two places exactly if the places agree up to whole turns of the counter, wherever the
counter starts; so none comes twice within a turn, which takes 2 ^ 32 blocks if a block has as
much as four bytes.  Data are masked with this keystream whatever was called before, and the bytes
behind the counter stay.  The ciphers on offer are all of this kind, and the seed is the front of
the nonce. -/
theorem counter_keys_periodic :
    (∀ (cipher : BlockCipher) (seed : Block cipher.size), Function.Injective cipher.encrypt →
      ∃ key : Nat → Block cipher.size,
        (∀ i j, key i = key j ↔ i ≡ j [MOD Block.counterValues cipher.size]) ∧
        (∀ i j, i < j → j < i + Block.counterValues cipher.size → key i ≠ key j) ∧
        (4 ≤ cipher.size → Block.counterValues cipher.size = 2 ^ 32) ∧
        ∀ c : Cipher, c.engine = .chain (Chain.start cipher .ctr seed) →
          c.MaskedBy cipher seed key) ∧
      ∀ p key nonce c, make (.block p) .ctr key nonce = .ok c →
        Function.Injective (p.keyed key).encrypt ∧ 4 ≤ (p.keyed key).size ∧
          ∃ seed : Block (p.keyed key).size,
            c.engine = .chain (Chain.start (p.keyed key) .ctr seed) ∧
              seed.bytes = nonce.take (p.keyed key).size := by
  constructor
  · intro cipher seed hinjective
    have hsame (i j : Nat) : Chain.counterKey cipher seed i = Chain.counterKey cipher seed j ↔
        i ≡ j [MOD Block.counterValues cipher.size] := by
      rw [Chain.counterKey, Chain.counterKey, hinjective.eq_iff, Block.advance_eq_iff]
    refine ⟨Chain.counterKey cipher seed, hsame, ?_, Block.counterValues_of_le,
      fun c h => maskedBy_counterKey h⟩
    intro i j hij hturn hkey
    have hdvd := (Nat.modEq_iff_dvd' hij.le).mp ((hsame i j).mp hkey)
    have hle := Nat.le_of_dvd (Nat.sub_pos_of_lt hij) hdvd
    omega
  · intro p key nonce c hmake
    obtain ⟨seed, hengine, hseed⟩ := engine_of_make hmake
    have hsize : 4 ≤ (p.keyed key).size := by
      rw [p.size_keyed]
      cases p <;> decide
    exact ⟨Function.LeftInverse.injective (p.keyed_lawful key).1, hsize, seed, hengine, hseed rfl⟩

/-- A counter that wraps around behind the first block; the second block is sent the other way. -/
theorem counter_keys_periodic_at_wrap :
    let nonce : Bytes := [0xFF, 0xFF, 0xFF, 0xFF, 1, 2, 3, 4]
    let cipher := Primitive.keyed .xtea Defaults.keyA
    let block : Block cipher.size := ⟨List.replicate 8 7, rfl⟩
    ∃ c, make (.block .xtea) .ctr Defaults.keyA nonce = .ok c ∧
      ∃ x y : Block cipher.size, x ≠ y ∧
        c.replies [.send .encrypt block.bytes, .send .decrypt block.bytes] =
          [.sent (block ^^^ x).bytes, .sent (block ^^^ y).bytes] := by
  intro nonce cipher block
  obtain ⟨hperiodic, hmade⟩ := counter_keys_periodic
  let c := fresh (.block .xtea) .ctr Defaults.keyA nonce
  obtain ⟨hinjective, -, seed, hengine, -⟩ := hmade .xtea Defaults.keyA nonce c rfl
  obtain ⟨key, -, hfresh, -, hmasked⟩ := hperiodic cipher seed hinjective
  have hjoin (b : Block cipher.size) : Block.join [b] = b.bytes :=
    List.flatMap_singleton Block.bytes b
  have hsent (calls : List Call) (direction : Direction) :
      ((c.after calls).call (.send direction block.bytes)).1 =
        .sent (block ^^^ key (place cipher.size calls)).bytes := by
    have hone := (hmasked c hengine).sent calls direction [block]
    rwa [List.mapIdx_cons, List.mapIdx_nil, hjoin, hjoin] at hone
  have hfirst := hsent [] .encrypt
  have hsecond := hsent [.send .encrypt block.bytes] .decrypt
  have hplace : place cipher.size [.send .encrypt block.bytes] = 1 := by decide
  rw [hplace] at hsecond
  refine ⟨c, rfl, key 0, key 1, hfresh 0 1 Nat.one_pos (by decide), ?_⟩
  calc c.replies [.send .encrypt block.bytes, .send .decrypt block.bytes]
      = [((c.after []).call (.send .encrypt block.bytes)).1,
          ((c.after [.send .encrypt block.bytes]).call (.send .decrypt block.bytes)).1] := rfl
    _ = _ := by rw [hfirst, hsecond]; rfl

end Cipher

end FirmwareUpdate
