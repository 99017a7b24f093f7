/-
MAGMA as GOST R 34.12-2015 writes it: on the big-endian halves of a block, with the eight
substitutions as rows of a table, and with a last round of its own.  The cipher that works on the
little-endian words of the reversed block, with the rows packed by argument, is the same map.
-/
import FirmwareUpdate.Proofs.Permutations
import Mathlib.Algebra.Ring.Nat

namespace FirmwareUpdate

namespace Word

/-- The four bytes of a word, most significant first. -/
def toBytesBE (x : UInt32) : Bytes :=
  (toBytesLE x).reverse

/-- Nibbles put behind each other, the highest first, make up a word. -/
theorem toNat_foldl_nibbles {nibbles : List UInt32} (h : ∀ d ∈ nibbles, d.toNat < 16)
    (count : Nat) (hcount : count + nibbles.length ≤ 8) {out : UInt32}
    (hout : out.toNat < 16 ^ count) :
    (nibbles.foldl (fun (out d : UInt32) => (out <<< 4) + d) out).toNat =
      (nibbles.map UInt32.toNat).foldl (fun n d => 16 * n + d) out.toNat := by
  induction nibbles generalizing count out with
  | nil => rfl
  | cons d nibbles ih =>
      rw [List.length_cons] at hcount
      have hd : d.toNat < 16 := h d List.mem_cons_self
      have hroom : 16 ^ (count + 1) ≤ 16 ^ 8 := Nat.pow_le_pow_right (by decide) (by omega)
      rw [Nat.pow_succ] at hroom
      have hnext : ((out <<< 4) + d).toNat = 16 * out.toNat + d.toNat := by
        have hfour : (4 : UInt32).toNat % 32 = 4 := rfl
        rw [UInt32.toNat_add, UInt32.toNat_shiftLeft, hfour, Nat.shiftLeft_eq]
        omega
      rw [List.foldl_cons, List.map_cons, List.foldl_cons, ← hnext]
      refine ih (fun d hmem => h d (List.mem_cons_of_mem _ hmem)) (count + 1) (by omega) ?_
      rw [hnext, Nat.pow_succ]
      omega

end Word

namespace Magma

/-- The substitutions, that of the lowest nibble first.  The hexadecimal digits of a row are the
images of 0 to 15 in order. -/
def rows : List Nat :=
  [0xC462A5B9E8D703F1, 0x68239A5C1E47BD0F, 0xB3582FADE174C960, 0xC821D4F670A53E9B,
    0x7F5A816D093EB42C, 0x5DF692CAB78143E0, 0x8E25691CF4B0DA37, 0x17ED05834FA69CB2]

/-- The image of a nibble under a row. -/
def image (row nibble : Nat) : Nat :=
  row / 16 ^ (15 - nibble) % 16

/-- The images of the nibbles of a word, each under its row, the lowest first. -/
def images (a : UInt32) : List Nat :=
  rows.mapIdx fun i row => image row (a.toNat / 16 ^ i % 16)

/-- The word of the images. -/
def substitute (a : UInt32) : UInt32 :=
  UInt32.ofNat ((images a).foldr (fun d n => 16 * n + d) 0)

/-- The substituted sum of a half and a round key, turned by 11 places. -/
def mix (k a : UInt32) : UInt32 :=
  Word.rotateLeft (substitute (a + k)) 11

/-- The halves of a block, the one that stands in front first. -/
def halves (b : Block 8) : UInt32 × UInt32 :=
  (Word.ofBytesBE (b.bytes.take 4), Word.ofBytesBE (b.bytes.drop 4))

/-- The block of two halves. -/
def ofHalves (a : UInt32 × UInt32) : Block 8 :=
  ⟨Word.toBytesBE a.1 ++ Word.toBytesBE a.2, by simp [Word.toBytesBE]⟩

/-- A round: the halves change places, and one of them takes the mixed other. -/
def round (k : UInt32) (a : UInt32 × UInt32) : UInt32 × UInt32 :=
  (a.2, a.1 ^^^ mix k a.2)

/-- The last round, in which the halves stay in their places. -/
def lastRound (k : UInt32) (a : UInt32 × UInt32) : UInt32 × UInt32 :=
  (a.1 ^^^ mix k a.2, a.2)

/-- Key number `i` of the 32: the eight words of the key three times in order, then once from the
last to the first. -/
def roundKey (key : Bytes) (i : Nat) : UInt32 :=
  Word.keyBE key (if i < 24 then i % 8 else 31 - i)

/-- The block under the key: 31 rounds and the last one. -/
def encryptBlock (key : Bytes) (b : Block 8) : Block 8 :=
  ofHalves (lastRound (roundKey key 31)
    ((List.range 31).foldl (fun a i => round (roundKey key i) a) (halves b)))

theorem lastRound_eq (k : UInt32) (a : UInt32 × UInt32) : lastRound k a = (round k a).swap := rfl

/-- Read backwards, a block has its halves in the other order as little-endian words. -/
theorem toPair_reverse (b : Block 8) : b.reverse.toPair = (halves b).swap := by
  have hfront : b.bytes.reverse.take 4 = (b.bytes.drop 4).reverse := by
    rw [List.take_reverse, b.length_bytes]
  have hback : b.bytes.reverse.drop 4 = (b.bytes.take 4).reverse := by
    rw [List.drop_reverse, b.length_bytes]
  change (Word.ofBytesLE (b.bytes.reverse.take 4), Word.ofBytesLE (b.bytes.reverse.drop 4)) = _
  rw [hfront, hback]
  rfl

theorem reverse_ofPair (a : UInt32 × UInt32) : (Block.ofPair a).reverse = ofHalves a.swap :=
  Block.ext List.reverse_append

end Magma

namespace Gost

/-- The nibble that takes place `n` from the top, when it is replaced. -/
def nibbleImage (x : UInt32) (n : Nat) : UInt32 :=
  let n := UInt32.ofNat n
  (substitutions.getD ((x >>> (28 - 4 * n)) &&& 15).toNat 0 >>> (4 * n)) &&& 15

/-- The packed table holds the rows, the last one lowest. -/
theorem toNat_substitutions :
    ∀ n < 8, ∀ v < 16,
      ((substitutions.getD v 0 >>> (4 * UInt32.ofNat n)) &&& 15).toNat =
        Magma.image (Magma.rows.getD (7 - n) 0) v := by
  decide +kernel

theorem toNat_nibble (x : UInt32) {n : Nat} (h : n < 8) :
    ((x >>> (28 - 4 * UInt32.ofNat n)) &&& 15).toNat = x.toNat / 16 ^ (7 - n) % 16 := by
  have hplace : ∀ n < 8, (28 - 4 * UInt32.ofNat n).toNat % 32 = 4 * (7 - n) := by decide
  have hmask : (15 : UInt32).toNat = 2 ^ 4 - 1 := rfl
  rw [UInt32.toNat_and, UInt32.toNat_shiftRight, hplace n h, hmask,
    Nat.and_two_pow_sub_one_eq_mod, Nat.shiftRight_eq_div_pow, Nat.pow_mul]

theorem toNat_nibbleImage (x : UInt32) {n : Nat} (h : n < 8) :
    (nibbleImage x n).toNat =
      Magma.image (Magma.rows.getD (7 - n) 0) (x.toNat / 16 ^ (7 - n) % 16) := by
  rw [nibbleImage, toNat_nibble x h]
  exact toNat_substitutions n h _ (Nat.mod_lt _ (by decide))

/-- From the highest nibble down, the packed table gives the images of the rows. -/
theorem nibbleImages_eq (x : UInt32) :
    ((List.range 8).map (nibbleImage x)).map UInt32.toNat = (Magma.images x).reverse := by
  have hplaces : List.range 8 = [0, 1, 2, 3, 4, 5, 6, 7] := rfl
  simp (disch := decide) only [hplaces, List.map_cons, List.map_nil, toNat_nibbleImage]
  rfl

/-- The packed table replaces a word as the rows do. -/
theorem substitute_eq (x : UInt32) : substitute x = Magma.substitute x := by
  have hsmall : ∀ d ∈ (List.range 8).map (nibbleImage x), d.toNat < 16 := by
    intro d hd
    obtain ⟨n, hn, rfl⟩ := List.mem_map.mp hd
    rw [toNat_nibbleImage x (List.mem_range.mp hn)]
    exact Nat.mod_lt _ (by decide)
  have hword : (substitute x).toNat = (Magma.images x).foldr (fun d n => 16 * n + d) 0 := by
    calc (substitute x).toNat
        = (((List.range 8).map (nibbleImage x)).foldl
            (fun (out d : UInt32) => (out <<< 4) + d) 0).toNat := by rw [List.foldl_map]; rfl
      _ = (((List.range 8).map (nibbleImage x)).map UInt32.toNat).foldl
            (fun n d => 16 * n + d) 0 :=
          Word.toNat_foldl_nibbles hsmall 0 (by simp) Nat.one_pos
      _ = _ := by rw [nibbleImages_eq, List.foldl_reverse]
  rw [Magma.substitute, ← hword, UInt32.ofNat_toNat]

theorem schedule_eq (key : Bytes) : schedule key = (List.range 32).map (Magma.roundKey key) := rfl

/-- On exchanged halves the rounds are those of the standard. -/
theorem run_swap (keys : List UInt32) (a : UInt32 × UInt32) :
    round.run keys a.swap = (keys.foldl (fun a k => Magma.round k a) a).swap := by
  induction keys generalizing a with
  | nil => rfl
  | cons k keys ih =>
      have hround : round.apply k a.swap = (Magma.round k a).swap := by
        change (a.1 ^^^ Word.rotateLeft (substitute (a.2 + k)) 11, a.2) = _
        rw [substitute_eq]
        rfl
      rw [Round.run, hround, ih, List.foldl_cons]

end Gost

namespace Magma

theorem cipher_encrypt (key : Bytes) (b : Block 8) :
    (cipher key).encrypt b = encryptBlock key b := by
  have hrounds : (List.range 32).foldl (fun a i => round (roundKey key i) a) (halves b) =
      round (roundKey key 31)
        ((List.range 31).foldl (fun a i => round (roundKey key i) a) (halves b)) := by
    rw [List.range_succ, List.foldl_append]
    rfl
  change (Block.ofPair (Gost.round.run (Gost.schedule key) b.reverse.toPair).swap).reverse = _
  rw [toPair_reverse, Gost.run_swap, Gost.schedule_eq, List.foldl_map, Prod.swap_swap, hrounds,
    reverse_ofPair, encryptBlock, lastRound_eq]

/-- Under every key of 32 bytes MAGMA is the cipher of the standard, and GOST 28147-89 is that
cipher on blocks whose bytes are taken in the other order before and after. -/
theorem encrypts_as_standard (key : Bytes) (h : key.length = 32) :
    Primitive.magma.withKey key = .ok (Magma.cipher key) ∧
      Primitive.gost.withKey key = .ok (Gost.cipher key) ∧
      ∀ b : Block 8, (Magma.cipher key).encrypt b = encryptBlock key b ∧
        (Gost.cipher key).encrypt b = (encryptBlock key b.reverse).reverse := by
  refine ⟨if_pos h, if_pos h, fun b => ⟨cipher_encrypt key b, ?_⟩⟩
  have hmagma : ((Gost.cipher key).encrypt b.reverse.reverse).reverse =
      encryptBlock key b.reverse := cipher_encrypt key b.reverse
  rw [← hmagma, b.reverse_reverse]
  exact (Block.reverse_reverse _).symm

/-- The key and the block of the standard's example. -/
theorem encrypts_as_standard_example :
    let key : Bytes :=
      [0xFF, 0xEE, 0xDD, 0xCC, 0xBB, 0xAA, 0x99, 0x88, 0x77, 0x66, 0x55, 0x44, 0x33, 0x22, 0x11,
        0x00, 0xF0, 0xF1, 0xF2, 0xF3, 0xF4, 0xF5, 0xF6, 0xF7, 0xF8, 0xF9, 0xFA, 0xFB, 0xFC, 0xFD,
        0xFE, 0xFF]
    let block : Block 8 := ⟨[0xFE, 0xDC, 0xBA, 0x98, 0x76, 0x54, 0x32, 0x10], rfl⟩
    key.length = 32 ∧
      ((Magma.cipher key).encrypt block).bytes = [0x4E, 0xE9, 0x01, 0xE5, 0xC2, 0xD8, 0xCA, 0x3D] ∧
      ((Gost.cipher key).encrypt block.reverse).bytes =
        [0x3D, 0xCA, 0xD8, 0xC2, 0xE5, 0x01, 0xE9, 0x4E] := by
  intro key block
  obtain ⟨-, -, hstandard⟩ := encrypts_as_standard key rfl
  have hblock : (encryptBlock key block).bytes =
      [0x4E, 0xE9, 0x01, 0xE5, 0xC2, 0xD8, 0xCA, 0x3D] := by decide +kernel
  have hback : block.reverse.reverse = block := rfl
  refine ⟨rfl, ?_, ?_⟩
  · rw [(hstandard block).1, hblock]
  · rw [(hstandard block.reverse).2, hback]
    exact congrArg List.reverse hblock

end Magma

end FirmwareUpdate
