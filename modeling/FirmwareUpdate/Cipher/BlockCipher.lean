/-
Block ciphers as keyed permutations, and rounds iterated over a list of round
keys.  Taking the rounds back in the opposite order undoes the iteration.
-/
import FirmwareUpdate.Block

namespace FirmwareUpdate

/-- One keyed round on states `σ`, with the step that takes it back. -/
structure Round (κ : Type) (σ : Type) where
  apply : κ → σ → σ
  revert : κ → σ → σ

namespace Round

variable {κ σ : Type}

/-- Each step is undone by its partner, in both orders. -/
def Lawful (round : Round κ σ) : Prop :=
  (∀ k s, round.revert k (round.apply k s) = s) ∧
    ∀ k s, round.apply k (round.revert k s) = s

/-- The rounds under the keys, first key first. -/
def run (round : Round κ σ) : List κ → σ → σ
  | [], s => s
  | k :: keys, s => run round keys (round.apply k s)

/-- The rounds taken back, last key first. -/
def undo (round : Round κ σ) : List κ → σ → σ
  | [], s => s
  | k :: keys, s => round.revert k (undo round keys s)

theorem undo_run {round : Round κ σ} (h : round.Lawful) (keys : List κ) (s : σ) :
    round.undo keys (round.run keys s) = s := by
  induction keys generalizing s with
  | nil => rfl
  | cons k keys ih => rw [run, undo, ih, h.1]

theorem run_undo {round : Round κ σ} (h : round.Lawful) (keys : List κ) (s : σ) :
    round.run keys (round.undo keys s) = s := by
  induction keys generalizing s with
  | nil => rfl
  | cons k keys ih => rw [undo, run, h.2, ih]

end Round

/-- A block cipher under one key. -/
structure BlockCipher where
  size : Nat
  size_pos : 0 < size
  encrypt : Block size → Block size
  decrypt : Block size → Block size

namespace BlockCipher

/-- Decryption and encryption undo each other. -/
def Lawful (cipher : BlockCipher) : Prop :=
  (∀ b, cipher.decrypt (cipher.encrypt b) = b) ∧
    ∀ b, cipher.encrypt (cipher.decrypt b) = b

/-- The cipher on eight-byte blocks that acts on their two little-endian words. -/
def ofPairs (encrypt decrypt : UInt32 × UInt32 → UInt32 × UInt32) : BlockCipher where
  size := 8
  size_pos := by decide
  encrypt b := Block.ofPair (encrypt b.toPair)
  decrypt b := Block.ofPair (decrypt b.toPair)

/-- The cipher on sixteen-byte blocks with these two directions. -/
def ofBlocks16 (encrypt decrypt : Block 16 → Block 16) : BlockCipher where
  size := 16
  size_pos := by decide
  encrypt := encrypt
  decrypt := decrypt

/-- The cipher on sixteen-byte blocks that acts on their four little-endian words. -/
def ofQuads (encrypt decrypt : Quad → Quad) : BlockCipher :=
  ofBlocks16 (fun b => (encrypt (Quad.ofBlock b)).toBlock)
    fun b => (decrypt (Quad.ofBlock b)).toBlock

end BlockCipher

end FirmwareUpdate
