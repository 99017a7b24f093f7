/-
The chaining modes as formulas over a whole stream.  A chain works block by block on one
register; here block number `i` of its result is told by the blocks that were given and got up
to there.  Each mode keeps its own fact about the register, and the cut of the stream into
calls plays no part.
-/
import FirmwareUpdate.Proofs.Parameters
import FirmwareUpdate.Proofs.Pieces

namespace FirmwareUpdate

section Endless

variable {σ α β : Type}

/-- The state before element number `i` of an endless list. -/
def stateAt (step : σ → α → β × σ) (s : σ) (given : Nat → α) : Nat → σ
  | 0 => s
  | i + 1 => (step (stateAt step s given i) (given i)).2

/-- The result of element number `i` of an endless list. -/
def resultAt (step : σ → α → β × σ) (s : σ) (given : Nat → α) (i : Nat) : β :=
  (step (stateAt step s given i) (given i)).1

/-- However far a list is followed, the results and the state are those of the endless list. -/
theorem thread_range (step : σ → α → β × σ) (s : σ) (given : Nat → α) (count : Nat) :
    thread step s ((List.range count).map given) =
      ((List.range count).map (resultAt step s given), stateAt step s given count) := by
  induction count with
  | zero => rfl
  | succ count ih =>
      rw [List.range_succ, List.map_append, thread_append, ih, List.map_append]
      rfl

end Endless

namespace Block

variable {n : Nat}

/-- The block in front of number `i` of a stream; in front of the first one stands the seed. -/
def before (seed : Block n) (blocks : Nat → Block n) : Nat → Block n
  | 0 => seed
  | i + 1 => blocks i

/-- The block with its first little-endian word, of four bytes or as many as there are,
increased by `i`; the word wraps around and the other bytes stay. -/
def advance (b : Block n) (i : Nat) : Block n :=
  ⟨Bytes.ofNatLE (min 4 n) (Bytes.natLE (b.bytes.take 4) + i) ++ b.bytes.drop 4, by
    rw [List.length_append, Bytes.length_ofNatLE, List.length_drop, b.length_bytes]
    omega⟩

theorem bytes_advance (b : Block n) (i : Nat) :
    (b.advance i).bytes =
      Bytes.ofNatLE (min 4 n) (Bytes.natLE (b.bytes.take 4) + i) ++ b.bytes.drop 4 := rfl

/-- A block is its first word and what follows; a short one has nothing behind the word. -/
theorem drop_four_cases (b : Block n) : b.bytes.drop 4 = [] ∧ n ≤ 4 ∨ min 4 n = 4 := by
  rcases Nat.le_total n 4 with hshort | hlong
  · exact .inl ⟨List.drop_eq_nil_of_le (by rw [b.length_bytes]; exact hshort), hshort⟩
  · exact .inr (Nat.min_eq_left hlong)

/-- The word of an advanced block is the sum; what follows the word is what it was. -/
theorem halves_advance (b : Block n) (i : Nat) :
    (b.advance i).bytes.take 4 =
        Bytes.ofNatLE (min 4 n) (Bytes.natLE (b.bytes.take 4) + i) ∧
      (b.advance i).bytes.drop 4 = b.bytes.drop 4 := by
  rw [bytes_advance]
  have hlength := Bytes.length_ofNatLE (min 4 n) (Bytes.natLE (b.bytes.take 4) + i)
  generalize Bytes.ofNatLE (min 4 n) (Bytes.natLE (b.bytes.take 4) + i) = word at hlength ⊢
  rcases b.drop_four_cases with ⟨hrest, hshort⟩ | hfour
  · have hle : word.length ≤ 4 := by omega
    rw [hrest, List.append_nil]
    exact ⟨List.take_of_length_le hle, List.drop_eq_nil_of_le hle⟩
  · rw [hfour] at hlength
    exact ⟨List.take_left' hlength, List.drop_left' hlength⟩

theorem advance_zero (b : Block n) : b.advance 0 = b := by
  have hlength : (b.bytes.take 4).length = min 4 n := by rw [List.length_take, b.length_bytes]
  have hword : Bytes.ofNatLE (min 4 n) (Bytes.natLE (b.bytes.take 4)) = b.bytes.take 4 := by
    rw [← hlength, Bytes.ofNatLE_natLE]
  apply Block.ext
  rw [bytes_advance, Nat.add_zero, hword, List.take_append_drop]

/-- Two advances add up. -/
theorem advance_advance (b : Block n) (i j : Nat) :
    (b.advance i).advance j = b.advance (i + j) := by
  obtain ⟨hword, hrest⟩ := b.halves_advance i
  -- the word keeps the first sum up to its capacity, and so does the second sum
  apply Block.ext
  rw [bytes_advance, hword, hrest, bytes_advance, Bytes.natLE_ofNatLE,
    ← Bytes.ofNatLE_mod_capacity (Nat.le_refl (min 4 n)), Nat.mod_add_mod,
    Bytes.ofNatLE_mod_capacity (Nat.le_refl (min 4 n)), Nat.add_assoc]

/-- A chain counts up by one. -/
theorem increment_eq_advance (b : Block n) : b.increment = b.advance 1 := by
  have hsum : Word.toBytesLE (Word.ofBytesLE (b.bytes.take 4) + 1) =
      Bytes.ofNatLE 4 (Bytes.natLE (b.bytes.take 4) + 1) := by
    have hone : (1 : UInt32).toNat = 1 := rfl
    rw [Word.toBytesLE, Word.ofBytesLE, UInt32.toNat_add, UInt32.toNat_ofNat', hone,
      Nat.mod_add_mod]
    exact Bytes.ofNatLE_mod_capacity (Nat.le_refl 4) _
  apply Block.ext
  rw [bytes_advance]
  change (Word.toBytesLE (Word.ofBytesLE (b.bytes.take 4) + 1) ++ b.bytes.drop 4).take n = _
  rw [hsum]
  rcases b.drop_four_cases with ⟨hrest, hshort⟩ | hfour
  · rw [hrest, List.append_nil, List.append_nil, Bytes.take_ofNatLE, Nat.min_comm]
  · rw [hfour, List.take_of_length_le]
    rw [List.length_append, Bytes.length_ofNatLE, List.length_drop, b.length_bytes]
    omega

end Block

namespace Direction

variable {α : Type}

/-- The plain side of what is given and got in one direction. -/
def plainOf : Direction → (given result : α) → α
  | encrypt, given, _ => given
  | decrypt, _, result => result

/-- The secret side of what is given and got in one direction. -/
def secretOf : Direction → (given result : α) → α
  | encrypt, _, result => result
  | decrypt, given, _ => given

end Direction

namespace Chain

variable (cipher : BlockCipher)

/-- Block number `i` of the ciphertext, by the plaintext up to there and the ciphertext in
front. -/
def secretBlock (mode : ChainMode) (seed : Block cipher.size)
    (plain secret : Nat → Block cipher.size) (i : Nat) : Block cipher.size :=
  match mode with
  | .ecb => cipher.encrypt (plain i)
  | .cbc => cipher.encrypt (plain i ^^^ Block.before seed secret i)
  | .pcbc => cipher.encrypt (plain i ^^^ Block.before seed (fun j => plain j ^^^ secret j) i)
  | .cfb => plain i ^^^ cipher.encrypt (Block.before seed secret i)
  | .ofb => plain i ^^^ Nat.repeat cipher.encrypt (i + 1) seed
  | .ctr => plain i ^^^ cipher.encrypt (seed.advance i)

/-- Block number `i` of the plaintext, by the ciphertext up to there and the plaintext in
front. -/
def plainBlock (mode : ChainMode) (seed : Block cipher.size)
    (plain secret : Nat → Block cipher.size) (i : Nat) : Block cipher.size :=
  match mode with
  | .ecb => cipher.decrypt (secret i)
  | .cbc => cipher.decrypt (secret i) ^^^ Block.before seed secret i
  | .pcbc => cipher.decrypt (secret i) ^^^ Block.before seed (fun j => plain j ^^^ secret j) i
  | .cfb => secret i ^^^ cipher.encrypt (Block.before seed secret i)
  | .ofb => secret i ^^^ Nat.repeat cipher.encrypt (i + 1) seed
  | .ctr => secret i ^^^ cipher.encrypt (seed.advance i)

/-- The register before block number `i`, by the two streams in front of that block. -/
def registerAt (mode : ChainMode) (seed : Block cipher.size)
    (plain secret : Nat → Block cipher.size) (i : Nat) : Block cipher.size :=
  match mode with
  | .ecb => seed
  | .cbc | .cfb => Block.before seed secret i
  | .pcbc => Block.before seed (fun j => plain j ^^^ secret j) i
  | .ofb => Nat.repeat cipher.encrypt i seed
  | .ctr => seed.advance i

/-- The result of a stream in one direction is what the formulas of the mode make of it. -/
def Follows (mode : ChainMode) (seed : Block cipher.size) :
    Direction → (given result : Nat → Block cipher.size) → Prop
  | .encrypt, plain, secret => ∀ i, secret i = secretBlock cipher mode seed plain secret i
  | .decrypt, secret, plain => ∀ i, plain i = plainBlock cipher mode seed plain secret i

variable {cipher} {mode : ChainMode} {seed : Block cipher.size}

/-- Both directions move the register alike, and in each mode the streams tell what it is. -/
theorem stateAt_step (direction : Direction) (given : Nat → Block cipher.size) (i : Nat) :
    let result := resultAt (step cipher mode direction) seed given
    stateAt (step cipher mode direction) seed given i =
      registerAt cipher mode seed (direction.plainOf given result)
        (direction.secretOf given result) i := by
  intro result
  induction i with
  | zero =>
      cases mode with
      | ctr => exact seed.advance_zero.symm
      | _ => rfl
  | succ i ih =>
      rw [stateAt]
      -- only the registers that move on their own need the induction hypothesis; the others
      -- are read off the blocks that just went through
      cases mode with
      | ecb => cases direction <;> exact ih
      | cbc => cases direction <;> rfl
      | pcbc => cases direction <;> exact Block.xor_comm _ _
      | cfb => cases direction <;> rfl
      | ofb => cases direction <;> exact congrArg cipher.encrypt ih
      | ctr =>
          have hstep (register given : Block cipher.size) :
              (step cipher .ctr direction register given).2 = register.increment := by
            cases direction <;> rfl
          rw [hstep, ih, Block.increment_eq_advance]
          exact seed.advance_advance i 1

/-- The blocks that come out of a chain are those of the formulas. -/
theorem follows_resultAt (direction : Direction) (given : Nat → Block cipher.size) :
    Follows cipher mode seed direction given
      (resultAt (step cipher mode direction) seed given) := by
  cases direction with
  | encrypt =>
      intro i
      rw [resultAt, stateAt_step]
      cases mode with
      | pcbc => exact congrArg cipher.encrypt (Block.xor_comm _ _)
      | cfb => exact Block.xor_comm _ _
      | _ => rfl
  | decrypt =>
      intro i
      rw [resultAt, stateAt_step]
      cases mode <;> rfl

/-- A chain at its seed sends the front of a stream to the front of its result. -/
theorem run_start (direction : Direction) (given : Nat → Block cipher.size) (count : Nat) :
    ((start cipher mode seed).run direction (Block.join ((List.range count).map given))).1 =
      Block.join
        ((List.range count).map (resultAt (step cipher mode direction) seed given)) := by
  rw [run]
  simp only [start, Block.split_join cipher.size_pos, thread_range]

end Chain

namespace Cipher

/-- A block cipher that was just made is a chain at its seed; where the mode reads the nonce,
the seed is its first block. -/
theorem engine_of_make {p : Primitive} {mode : ChainMode} {key nonce : Bytes} {c : Cipher}
    (h : make (.block p) mode key nonce = .ok c) :
    ∃ seed : Block (p.keyed key).size,
      c.engine = .chain (Chain.start (p.keyed key) mode seed) ∧
        (mode.usesNonce = true → seed.bytes = nonce.take (p.keyed key).size) := by
  obtain ⟨hfits, rfl⟩ := make_eq_ok_iff.mp h
  refine ⟨_, rfl, fun hmode => ?_⟩
  have hnonce : (p.keyed key).size ≤ nonce.length := by
    rw [p.size_keyed key]
    exact (fits_block_iff.mp hfits).2 hmode
  rw [firstRegister, if_pos hmode, Block.bytes_ofBytes hnonce]

/-- A stream of blocks that goes through a chain from its seed, cut into calls in any way, comes
out as the formulas of the mode say.  This holds over any block cipher; the ciphers on offer
start such a chain from the first block of their nonce. -/
theorem stream_follows_formulas (mode : ChainMode) (direction : Direction) :
    (∀ (cipher : BlockCipher) (seed : Block cipher.size) (given : Nat → Block cipher.size),
      ∃ result, Chain.Follows cipher mode seed direction given result ∧
        ∀ c : Cipher, c.engine = .chain (Chain.start cipher mode seed) →
          ∀ count pieces, Cut cipher.size (Block.join ((List.range count).map given)) pieces →
            ∃ outs after, c.applyEach direction pieces = .ok (outs, after) ∧
              outs.map List.length = pieces.map List.length ∧
              outs.flatten = Block.join ((List.range count).map result)) ∧
      ∀ p key nonce c, make (.block p) mode key nonce = .ok c →
        ∃ seed : Block (p.keyed key).size,
          c.engine = .chain (Chain.start (p.keyed key) mode seed) ∧
            (mode.usesNonce = true → seed.bytes = nonce.take (p.keyed key).size) := by
  constructor
  · intro cipher seed given
    refine ⟨_, Chain.follows_resultAt direction given, ?_⟩
    intro c hengine count pieces hcut
    have hsize : c.blockSize = cipher.size := by rw [blockSize, hengine]; rfl
    have haligned : ∀ piece ∈ pieces, piece.length % c.blockSize = 0 := by
      rw [hsize]
      exact hcut.blocks
    obtain ⟨outs, after, heach, hlengths, hwhole⟩ :=
      applyEach_of_aligned c direction pieces haligned
    refine ⟨outs, after, heach, hlengths, ?_⟩
    obtain ⟨-, hsent⟩ := apply_eq_ok_iff.mp hwhole
    rw [hcut.joined, sent, hengine] at hsent
    calc outs.flatten
        = ((Chain.start cipher mode seed).run direction
            (Block.join ((List.range count).map given))).1 := (congrArg Prod.fst hsent).symm
      _ = _ := Chain.run_start direction given count
  · intro p key nonce c h
    exact engine_of_make h

/-- Three blocks of the mode with both streams in its register, encrypted as one and two. -/
theorem stream_follows_formulas_three_blocks :
    let encrypt : Block 16 → Block 16 := (Primitive.keyed .rc6 Defaults.keyA).encrypt
    let block (b : UInt8) : Block 16 := ⟨List.replicate 16 b, List.length_replicate⟩
    ∃ c, make (.block .rc6) .pcbc Defaults.keyA Defaults.nonce = .ok c ∧
      ∃ (outs : List Bytes) (after : Cipher) (x y z : Block 16),
        c.applyEach .encrypt [(block 1).bytes, (block 2).bytes ++ (block 3).bytes] =
            .ok (outs, after) ∧
          outs.flatten = x.bytes ++ y.bytes ++ z.bytes ∧
          x = encrypt (block 1 ^^^ ⟨Defaults.nonce, rfl⟩) ∧
          y = encrypt (block 2 ^^^ (block 1 ^^^ x)) ∧
          z = encrypt (block 3 ^^^ (block 2 ^^^ y)) := by
  intro encrypt block
  obtain ⟨hstream, hmade⟩ := stream_follows_formulas .pcbc .encrypt
  refine ⟨_, rfl, ?_⟩
  obtain ⟨seed, hengine, hseed⟩ := hmade .rc6 Defaults.keyA Defaults.nonce _ rfl
  obtain ⟨secret, hsecret, hout⟩ := hstream _ seed fun i => block (UInt8.ofNat (i + 1))
  obtain rfl : seed = ⟨Defaults.nonce, rfl⟩ := Block.ext (hseed rfl)
  obtain ⟨outs, after, heach, -, hjoin⟩ := hout _ hengine 3
    [(block 1).bytes, (block 2).bytes ++ (block 3).bytes] ⟨by decide, by decide⟩
  refine ⟨outs, after, secret 0, secret 1, secret 2, heach, ?_, ?_, ?_, ?_⟩
  · rw [hjoin]
    simp [Block.join, List.range_succ]
  · exact hsecret 0
  · exact hsecret 1
  · exact hsecret 2

end Cipher

end FirmwareUpdate
