/-
Data sent through a cipher in one direction come back in the other, and both sides
stay in step; nothing depends on the pieces in which the data were sent.  The two
facts are shown for one block or byte and carried along a string by `thread`.
-/
import FirmwareUpdate.Proofs.Parameters
import FirmwareUpdate.Proofs.Permutations

namespace FirmwareUpdate

/-- A step that another step takes back, leaving the same state, is taken back along
a whole list. -/
theorem thread_thread_of_inverse {σ α β : Type} {step : σ → α → β × σ} {back : σ → β → α × σ}
    (h : ∀ s a, back s (step s a).1 = (a, (step s a).2)) (s : σ) (xs : List α) :
    thread back s (thread step s xs).1 = (xs, (thread step s xs).2) := by
  induction xs generalizing s with
  | nil => rfl
  | cons x xs ih =>
      simp only [thread_cons, h, ih]

namespace Block

variable {n : Nat}

theorem split_join_append (hn : 0 < n) (blocks : List (Block n)) (rest : Bytes) :
    split n (join blocks ++ rest) = blocks ++ split n rest := by
  induction blocks with
  | nil => rfl
  | cons b blocks ih =>
      have hjoin : join (b :: blocks) = b.bytes ++ join blocks := rfl
      rw [hjoin, List.append_assoc, split_append hn, ih, List.cons_append]

theorem length_join (blocks : List (Block n)) : (join blocks).length = n * blocks.length := by
  induction blocks with
  | nil => rfl
  | cons b blocks ih =>
      have hjoin : join (b :: blocks) = b.bytes ++ join blocks := rfl
      rw [hjoin, List.length_append, b.length_bytes, ih, List.length_cons, Nat.mul_succ,
        Nat.add_comm]

/-- A string of whole blocks is made up by them. -/
theorem join_split (hn : 0 < n) (data : Bytes) (h : data.length % n = 0) :
    join (split n data) = data := by
  obtain ⟨count, hcount⟩ := Nat.dvd_of_mod_eq_zero h
  induction count generalizing data with
  | zero =>
      have hnil : data = [] := List.eq_nil_of_length_eq_zero hcount
      rw [hnil, split_nil]
      rfl
  | succ count ih =>
      have hsucc : n * (count + 1) = n * count + n := Nat.mul_succ n count
      let first : Block n := ⟨data.take n, by rw [List.length_take]; omega⟩
      have hrest : (data.drop n).length = n * count := by
        rw [List.length_drop]
        omega
      have hdata : data = first.bytes ++ data.drop n := (List.take_append_drop n data).symm
      have hsplit : split n data = first :: split n (data.drop n) := by
        have hcut := split_append hn first (data.drop n)
        rwa [← hdata] at hcut
      have hmod : (data.drop n).length % n = 0 := by rw [hrest, Nat.mul_mod_right]
      have htail := ih (data.drop n) hmod hrest
      calc join (split n data) = first.bytes ++ join (split n (data.drop n)) := by
            rw [hsplit]
            rfl
        _ = data := by rw [htail, ← hdata]

end Block

/-- The other direction. -/
def Direction.opposite : Direction → Direction
  | encrypt => decrypt
  | decrypt => encrypt

namespace Chain

/-- In every mode a block comes back and the register moves on alike on both sides. -/
theorem step_step {cipher : BlockCipher} (h : cipher.Lawful) (mode : ChainMode)
    (direction : Direction) (register b : Block cipher.size) :
    step cipher mode direction.opposite register (step cipher mode direction register b).1 =
      (b, (step cipher mode direction register b).2) := by
  have hmask (x y : Block cipher.size) : x ^^^ y ^^^ x = y := by
    rw [Block.xor_comm x y, Block.xor_xor_cancel]
  have hmask' (x y : Block cipher.size) : x ^^^ (y ^^^ x) = y := by
    rw [Block.xor_comm x, Block.xor_xor_cancel]
  cases direction <;> cases mode <;>
    simp [Direction.opposite, step, encryptBlock, decryptBlock, h.1, h.2, Block.xor_xor_cancel,
      hmask, hmask']

theorem run_append (chain : Chain) (direction : Direction) (x y : Bytes)
    (hx : x.length % chain.cipher.size = 0) :
    chain.run direction (x ++ y) =
      ((chain.run direction x).1 ++ ((chain.run direction x).2.run direction y).1,
        ((chain.run direction x).2.run direction y).2) := by
  have hsplit : Block.split chain.cipher.size (x ++ y) =
      Block.split chain.cipher.size x ++ Block.split chain.cipher.size y := by
    have h := Block.split_join_append chain.cipher.size_pos (Block.split chain.cipher.size x) y
    rwa [Block.join_split chain.cipher.size_pos x hx] at h
  simp only [run, hsplit, thread_append, Block.join, List.flatMap_append]

theorem run_run {chain : Chain} (h : chain.cipher.Lawful) (direction : Direction) (data : Bytes)
    (hdata : data.length % chain.cipher.size = 0) :
    chain.run direction.opposite (chain.run direction data).1 =
      (data, (chain.run direction data).2) := by
  have hback := thread_thread_of_inverse (step_step h chain.mode direction) chain.register
    (Block.split chain.cipher.size data)
  simp only [run]
  rw [Block.split_join chain.cipher.size_pos, hback, Block.join_split chain.cipher.size_pos _ hdata]

theorem length_run (chain : Chain) (direction : Direction) (data : Bytes)
    (hdata : data.length % chain.cipher.size = 0) :
    (chain.run direction data).1.length = data.length := by
  have hsplit := Block.length_join (Block.split chain.cipher.size data)
  rw [Block.join_split chain.cipher.size_pos data hdata] at hsplit
  simp only [run]
  rw [Block.length_join, length_thread, ← hsplit]

end Chain

namespace Keystream

theorem mask_append (k : Keystream) (x y : Bytes) :
    k.mask (x ++ y) = ((k.mask x).1 ++ ((k.mask x).2.mask y).1, ((k.mask x).2.mask y).2) :=
  thread_append _ k x y

/-- Masking twice from the same place gives the data back. -/
theorem mask_mask (k : Keystream) (data : Bytes) :
    k.mask (k.mask data).1 = (data, (k.mask data).2) := by
  apply thread_thread_of_inverse
  intro s b
  simp only [UInt8.xor_assoc, UInt8.xor_self, UInt8.xor_zero]

end Keystream

namespace Cipher

/-- The block cipher behind a running cipher, if there is one, is a permutation. -/
def Lawful (c : Cipher) : Prop :=
  match c.engine with
  | .chain chain => chain.cipher.Lawful
  | _ => True

/-- What becomes of data that a cipher takes: the result and the cipher behind them. -/
def sent (c : Cipher) (direction : Direction) (data : Bytes) : Bytes × Cipher :=
  match c.engine with
  | .plain => (data, c)
  | .chain chain =>
      let result := chain.run direction data
      (result.1, { c with engine := .chain result.2 })
  | .stream start now =>
      let result := now.mask data
      (result.1, { c with engine := .stream start result.2 })

variable {c c₁ c₂ : Cipher} {direction : Direction} {data out x y x' y' : Bytes}

/-- Exactly the data of whole blocks are taken. -/
theorem apply_eq (c : Cipher) (direction : Direction) (data : Bytes) :
    c.apply direction data =
      if data.length % c.blockSize = 0 then .ok (c.sent direction data)
      else .error .unalignedLength := by
  obtain ⟨kind, mode, engine⟩ := c
  cases engine with
  | plain => exact (if_pos (Nat.mod_one _)).symm
  | chain chain => rfl
  | stream start now => exact (if_pos (Nat.mod_one _)).symm

theorem apply_eq_ok_iff :
    c.apply direction data = .ok (out, c₁) ↔
      data.length % c.blockSize = 0 ∧ c.sent direction data = (out, c₁) := by
  rw [apply_eq]
  by_cases haligned : data.length % c.blockSize = 0
  · simp [haligned]
  · simp [haligned]

/-- Sending data changes neither the start of a cipher nor its block size nor its block
cipher. -/
theorem sent_kept (c : Cipher) (direction : Direction) (data : Bytes) :
    let c₁ := (c.sent direction data).2
    c₁.reset = c.reset ∧ c₁.blockSize = c.blockSize ∧ (c.Lawful → c₁.Lawful) := by
  obtain ⟨kind, mode, engine⟩ := c
  cases engine <;> exact ⟨rfl, rfl, id⟩

theorem length_sent (direction : Direction) (h : data.length % c.blockSize = 0) :
    (c.sent direction data).1.length = data.length := by
  obtain ⟨kind, mode, engine⟩ := c
  cases engine with
  | plain => rfl
  | chain chain => exact chain.length_run direction data h
  | stream start now => exact length_thread _ now data

theorem sent_nil (c : Cipher) (direction : Direction) : c.sent direction [] = ([], c) := by
  obtain ⟨kind, mode, engine⟩ := c
  cases engine with
  | plain => rfl
  | chain chain => simp only [sent, Chain.run, Block.split_nil, thread_nil, Block.join,
      List.flatMap_nil]
  | stream start now => rfl

/-- The whole goes the way of its two parts. -/
theorem sent_append (direction : Direction) (y : Bytes) (hx : x.length % c.blockSize = 0) :
    c.sent direction (x ++ y) =
      ((c.sent direction x).1 ++ ((c.sent direction x).2.sent direction y).1,
        ((c.sent direction x).2.sent direction y).2) := by
  obtain ⟨kind, mode, engine⟩ := c
  cases engine with
  | plain => rfl
  | chain chain => simp only [sent, chain.run_append direction x y hx]
  | stream start now => simp only [sent, now.mask_append]

/-- What was sent one way comes back the other way and moves the cipher alike. -/
theorem sent_sent (hc : c.Lawful) (direction : Direction)
    (h : data.length % c.blockSize = 0) :
    c.sent direction.opposite (c.sent direction data).1 =
      (data, (c.sent direction data).2) := by
  obtain ⟨kind, mode, engine⟩ := c
  cases engine with
  | plain => rfl
  | chain chain => simp only [sent, Chain.run_run hc direction data h]
  | stream start now => simp only [sent, now.mask_mask]

theorem apply_eq_ok_of_aligned (c : Cipher) (direction : Direction) (data : Bytes)
    (h : data.length % c.blockSize = 0) :
    ∃ out c₁, c.apply direction data = .ok (out, c₁) :=
  ⟨_, _, apply_eq_ok_iff.mpr ⟨h, rfl⟩⟩

theorem aligned_of_apply_eq_ok (h : c.apply direction data = .ok (out, c₁)) :
    data.length % c.blockSize = 0 :=
  (apply_eq_ok_iff.mp h).1

theorem kept_of_apply (h : c.apply direction data = .ok (out, c₁)) :
    c₁.reset = c.reset ∧ c₁.blockSize = c.blockSize ∧ (c.Lawful → c₁.Lawful) := by
  have hkept := c.sent_kept direction data
  rwa [(apply_eq_ok_iff.mp h).2] at hkept

theorem length_of_apply (h : c.apply direction data = .ok (out, c₁)) :
    out.length = data.length := by
  obtain ⟨haligned, hsent⟩ := apply_eq_ok_iff.mp h
  have hlength := length_sent direction haligned
  rwa [hsent] at hlength

/-- Nothing leaves a cipher where it is. -/
theorem apply_nil (c : Cipher) (direction : Direction) : c.apply direction [] = .ok ([], c) :=
  apply_eq_ok_iff.mpr ⟨Nat.zero_mod _, c.sent_nil direction⟩

/-- Two pieces sent one after the other are the whole sent at once. -/
theorem apply_append (hx : c.apply direction x = .ok (x', c₁))
    (hy : c₁.apply direction y = .ok (y', c₂)) :
    c.apply direction (x ++ y) = .ok (x' ++ y', c₂) := by
  obtain ⟨hxaligned, hxsent⟩ := apply_eq_ok_iff.mp hx
  obtain ⟨hyaligned, hysent⟩ := apply_eq_ok_iff.mp hy
  rw [(kept_of_apply hx).2.1] at hyaligned
  refine apply_eq_ok_iff.mpr ⟨?_, ?_⟩
  · rw [List.length_append, Nat.add_mod, hxaligned, hyaligned]
    exact Nat.zero_mod _
  · rw [sent_append direction y hxaligned, hxsent, hysent]

/-- What the front of some data goes to is the front of what all of it goes to. -/
theorem eq_take_of_apply_append (hx : c.apply direction x = .ok (x', c₁))
    (hxy : c.apply direction (x ++ y) = .ok (out, c₂)) : x' = out.take x.length := by
  have hrest : y.length % c₁.blockSize = 0 := by
    have hall := aligned_of_apply_eq_ok hxy
    rw [List.length_append, Nat.add_mod, aligned_of_apply_eq_ok hx, Nat.zero_add,
      Nat.mod_mod] at hall
    rw [(kept_of_apply hx).2.1]
    exact hall
  obtain ⟨y', c₃, hy⟩ := apply_eq_ok_of_aligned c₁ direction y hrest
  rw [apply_append hx hy, Except.ok.injEq, Prod.mk.injEq] at hxy
  rw [← hxy.1, ← length_of_apply hx, List.take_left]

/-- Data come back in the other direction, and both ciphers end at the same place. -/
theorem apply_opposite (hc : c.Lawful) (h : c.apply direction data = .ok (out, c₁)) :
    c.apply direction.opposite out = .ok (data, c₁) := by
  obtain ⟨haligned, hsent⟩ := apply_eq_ok_iff.mp h
  have hback := sent_sent hc direction haligned
  rw [hsent] at hback
  refine apply_eq_ok_iff.mpr ⟨?_, hback⟩
  rw [length_of_apply h, haligned]

@[simp] theorem reset_reset (c : Cipher) : c.reset.reset = c.reset := by
  obtain ⟨kind, mode, engine⟩ := c
  cases engine <;> rfl

@[simp] theorem blockSize_reset (c : Cipher) : c.reset.blockSize = c.blockSize := by
  obtain ⟨kind, mode, engine⟩ := c
  cases engine <;> rfl

/-- A cipher that was just made is at the start of its stream, over a permutation if it
works on blocks, whose size its kind tells. -/
theorem make_spec {kind : CipherKind} {mode : ChainMode} {key nonce : Bytes}
    (h : make kind mode key nonce = .ok c) :
    c.reset = c ∧ c.blockSize = kind.blockSize ∧ c.Lawful := by
  obtain ⟨-, rfl⟩ := make_eq_ok_iff.mp h
  cases kind with
  | plain => exact ⟨rfl, rfl, trivial⟩
  | block p => exact ⟨rfl, p.size_keyed key, p.keyed_lawful key⟩
  | stream s => exact ⟨rfl, rfl, trivial⟩

end Cipher

end FirmwareUpdate
