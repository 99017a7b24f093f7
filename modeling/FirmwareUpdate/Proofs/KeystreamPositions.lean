/-
Keystreams by position.  What a generator does to a byte is told by the number of bytes in front
of it, so a string may be cut in any way, and is unmasked as it was masked.  The table of ARCFOUR
holds every byte once: its setup and its steps do no more than exchange entries, and an exchange
of an entry with itself is no exception.
-/
import FirmwareUpdate.Proofs.Chaining
import Mathlib.Logic.Equiv.Basic

namespace FirmwareUpdate

namespace Keystream

/-- The generator when `n` bytes more have been taken from it. -/
def behind (k : Keystream) : Nat → Keystream
  | 0 => k
  | n + 1 => behind k.next.2 n

/-- Byte number `n` of what is to come. -/
def byteAt (k : Keystream) (n : Nat) : UInt8 :=
  (k.behind n).next.1

theorem mask_eq (k : Keystream) (data : Bytes) :
    k.mask data = (data.mapIdx fun n b => b ^^^ k.byteAt n, k.behind data.length) := by
  induction data generalizing k with
  | nil => rfl
  | cons b data ih =>
      have hrest := ih k.next.2
      rw [mask] at hrest ⊢
      rw [thread_cons, hrest, List.mapIdx_cons]
      rfl

/-- Mask strings one after another. -/
def maskEach (k : Keystream) (pieces : List Bytes) : List Bytes × Keystream :=
  thread mask k pieces

/-- Strings come out as long as they went in, and together they are masked as one. -/
theorem maskEach_flatten (k : Keystream) (pieces : List Bytes) :
    (k.maskEach pieces).1.map List.length = pieces.map List.length ∧
      k.mask pieces.flatten = ((k.maskEach pieces).1.flatten, (k.maskEach pieces).2) := by
  induction pieces generalizing k with
  | nil => exact ⟨rfl, rfl⟩
  | cons piece pieces ih =>
      obtain ⟨hlengths, hwhole⟩ := ih (k.mask piece).2
      rw [maskEach] at hlengths hwhole ⊢
      rw [thread_cons]
      constructor
      · rw [List.map_cons, List.map_cons, hlengths, mask, length_thread]
      · rw [List.flatten_cons, mask_append, hwhole]
        rfl

end Keystream

namespace Arcfour

theorem get_swap (table : Vector UInt8 256) (i j k : UInt8) :
    get (swap table i j) k = get table (Equiv.swap i j k) := by
  simp only [get, swap, Vector.getElem_swap, Equiv.swap_apply_def, UInt8.toNat_inj]
  split
  · rfl
  · split <;> rfl

/-- Every byte stands in the table once. -/
def Permutes (table : Vector UInt8 256) : Prop :=
  Function.Bijective (get table)

theorem Permutes.swap {table : Vector UInt8 256} (h : Permutes table) (i j : UInt8) :
    Permutes (Arcfour.swap table i j) := by
  have hswap : get (Arcfour.swap table i j) = get table ∘ Equiv.swap i j :=
    funext (get_swap table i j)
  rw [Permutes, hswap]
  exact h.comp (Equiv.swap i j).bijective

/-- The table that the setup starts from. -/
theorem permutes_identity : Permutes (Vector.ofFn fun i => UInt8.ofNat i.val) := by
  have hget : get (Vector.ofFn fun i => UInt8.ofNat i.val) = id := by
    funext i
    simp only [get, Vector.getElem_ofFn, UInt8.ofNat_toNat, id]
  rw [Permutes, hget]
  exact Function.bijective_id

/-- The setup may stop wherever it likes. -/
theorem permutes_setup (key : Bytes) (positions : List Nat) {s : Vector UInt8 256 × UInt8}
    (h : Permutes s.1) : Permutes (positions.foldl (setupStep key) s).1 := by
  induction positions generalizing s with
  | nil => exact h
  | cons i positions ih => exact ih (h.swap _ _)

theorem permutes_ofKey (key : Bytes) : Permutes (ofKey key).table :=
  permutes_setup key (List.range 255) permutes_identity

/-- A byte more is produced by one more exchange. -/
theorem next_kept {s : Arcfour} (h : Permutes s.table) :
    Permutes s.next.2.table ∧ s.next.2.i = s.i + 1 :=
  ⟨h.swap _ _, rfl⟩

/-- However many bytes are produced, the table stays a permutation and the first position counts
them. -/
theorem behind_arcfour {s : Arcfour} (h : Permutes s.table) (n : Nat) :
    ∃ s', (Keystream.arcfour s).behind n = .arcfour s' ∧ Permutes s'.table ∧
      s'.i = s.i + UInt8.ofNat n := by
  induction n generalizing s with
  | zero => exact ⟨s, rfl, h, (UInt8.add_zero _).symm⟩
  | succ n ih =>
      obtain ⟨htable, hi⟩ := next_kept h
      obtain ⟨s', hbehind, hkept, hcount⟩ := ih htable
      refine ⟨s', hbehind, hkept, ?_⟩
      rw [hcount, hi, UInt8.ofNat_add, UInt8.add_assoc, UInt8.add_comm 1]
      rfl

/-- The generator of a key behind any number of bytes: its table holds every byte once, as it does
when the key has been set up, and its first position is the number of bytes modulo 256.  Strings
that are masked one after another are masked byte by byte as their places tell, and the generator
goes on from their whole length; so two cuts of the same bytes have one result and lead to one
state, and from the start again the result gives the bytes back.  This generator is what a cipher
of this kind starts from and comes back to. -/
theorem keystream_by_position (key : Bytes) :
    let start := Keystream.arcfour (ofKey key)
    (∀ n, ∃ s, start.behind n = .arcfour s ∧ Function.Bijective (get s.table) ∧
      s.i.toNat = n % 256) ∧
    (∀ pieces, (start.maskEach pieces).1.map List.length = pieces.map List.length ∧
      (start.maskEach pieces).1.flatten =
        pieces.flatten.mapIdx (fun n b => b ^^^ start.byteAt n) ∧
      (start.maskEach pieces).2 = start.behind pieces.flatten.length) ∧
    (∀ pieces others, pieces.flatten = others.flatten →
      (start.maskEach pieces).1.flatten = (start.maskEach others).1.flatten ∧
        (start.maskEach pieces).2 = (start.maskEach others).2) ∧
    (∀ pieces masked, masked.flatten = (start.maskEach pieces).1.flatten →
      (start.maskEach masked).1.flatten = pieces.flatten) ∧
    (key.length = 16 → ∀ mode nonce, ∃ c,
      Cipher.make (.stream .arcfour) mode key nonce = .ok c ∧ c.engine = .stream start start ∧
        c.reset = c) := by
  intro start
  have hmask (pieces : List Bytes) : start.mask pieces.flatten =
      ((start.maskEach pieces).1.flatten, (start.maskEach pieces).2) :=
    (start.maskEach_flatten pieces).2
  refine ⟨?_, ?_, ?_, ?_, ?_⟩
  · intro n
    obtain ⟨s, hbehind, htable, hi⟩ := behind_arcfour (permutes_ofKey key) n
    refine ⟨s, hbehind, htable, ?_⟩
    rw [hi]
    change ((0 : UInt8) + UInt8.ofNat n).toNat = n % 256
    rw [UInt8.zero_add, UInt8.toNat_ofNat']
  · intro pieces
    have hwhole := hmask pieces
    rw [start.mask_eq, Prod.mk.injEq] at hwhole
    exact ⟨(start.maskEach_flatten pieces).1, hwhole.1.symm, hwhole.2.symm⟩
  · intro pieces others hsame
    have hwhole := hmask pieces
    rw [hsame, hmask others, Prod.mk.injEq] at hwhole
    exact ⟨hwhole.1.symm, hwhole.2.symm⟩
  · intro pieces masked hmasked
    have hback := start.mask_mask pieces.flatten
    rw [hmask pieces, ← hmasked, hmask masked, Prod.mk.injEq] at hback
    exact hback.1
  · intro hkey mode nonce
    have hmake : Cipher.make (.stream .arcfour) mode key nonce =
        .ok (Cipher.fresh (.stream .arcfour) mode key nonce) :=
      Cipher.make_eq_ok_iff.mpr ⟨⟨.inr hkey, Nat.zero_le _⟩, rfl⟩
    exact ⟨_, hmake, rfl, rfl⟩

end Arcfour

end FirmwareUpdate
