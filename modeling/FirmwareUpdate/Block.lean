/-
Blocks of a fixed number of bytes: their exclusive or, the words inside them,
and the cutting of a byte string into blocks.
-/
import FirmwareUpdate.Word

namespace FirmwareUpdate

/-- A string of exactly `n` bytes. -/
@[ext] structure Block (n : Nat) where
  bytes : Bytes
  length_bytes : bytes.length = n
deriving DecidableEq

namespace Block

variable {n : Nat}

/-- The first `n` bytes of a string, filled up with zeros. -/
def ofBytes (n : Nat) (b : Bytes) : Block n :=
  let front := b.take n
  ⟨front ++ List.replicate (n - front.length) 0, by
    have hfront : front.length ≤ n := List.length_take_le n b
    rw [List.length_append, List.length_replicate]
    omega⟩

/-- The block of zeros. -/
def zero (n : Nat) : Block n :=
  ⟨List.replicate n 0, by simp⟩

/-- Bytewise exclusive or. -/
instance : XorOp (Block n) where
  xor a b := ⟨List.zipWith (· ^^^ ·) a.bytes b.bytes, by
    simp [a.length_bytes, b.length_bytes]⟩

/-- The bytes in the opposite order. -/
def reverse (b : Block n) : Block n :=
  ⟨b.bytes.reverse, by simp [b.length_bytes]⟩

/-- The first `count` bytes. -/
def front (b : Block n) (count : Nat) : Bytes :=
  b.bytes.take count

/-- The block with a string written over it from an offset on; what would pass the
end of the block is left out. -/
def write (b : Block n) (offset : Nat) (data : Bytes) : Block n :=
  ⟨(b.bytes.take offset ++ data ++ b.bytes.drop (offset + data.length)).take n, by
    simp [b.length_bytes]; omega⟩

/-- Cut `count` blocks off a string and put them behind those in `done`, which
holds the newest first. -/
def cut (n : Nat) (done : List (Block n)) : (count : Nat) → Bytes → List (Block n)
  | 0, _ => done.reverse
  | count + 1, data => cut n (ofBytes n data :: done) count (data.drop n)

/-- The whole blocks of a string, in order; a shorter rest is left out. -/
def split (n : Nat) (data : Bytes) : List (Block n) :=
  cut n [] (data.length / n) data

/-- The bytes of the blocks, in order. -/
def join (blocks : List (Block n)) : Bytes :=
  blocks.flatMap bytes

@[simp] theorem bytes_xor (a b : Block n) :
    (a ^^^ b).bytes = List.zipWith (· ^^^ ·) a.bytes b.bytes := rfl

theorem xor_comm (a b : Block n) : a ^^^ b = b ^^^ a := by
  apply Block.ext
  rw [bytes_xor, bytes_xor, List.zipWith_comm]
  simp only [UInt8.xor_comm]

@[simp] theorem reverse_reverse (b : Block n) : b.reverse.reverse = b :=
  Block.ext (List.reverse_reverse b.bytes)

/-- A mask put on twice is taken off. -/
theorem xor_xor_cancel (a b : Block n) : a ^^^ b ^^^ b = a := by
  have h := a.length_bytes.trans b.length_bytes.symm
  apply Block.ext
  simp only [bytes_xor]
  generalize a.bytes = x at h
  generalize b.bytes = y at h
  induction x generalizing y with
  | nil => simp
  | cons x xs ih =>
      cases y with
      | nil => simp at h
      | cons y ys =>
          have htail := ih ys (Nat.succ.inj h)
          rw [List.zipWith_cons_cons, List.zipWith_cons_cons, htail, UInt8.xor_assoc,
            UInt8.xor_self, UInt8.xor_zero]

/-- A string written behind the first `offset` bytes stands behind them. -/
theorem front_write (b : Block n) (offset : Nat) (data : Bytes)
    (h : offset + data.length ≤ n) :
    (b.write offset data).front (offset + data.length) = b.front offset ++ data := by
  have hb := b.length_bytes
  have hfront : (b.bytes.take offset ++ data).length = offset + data.length := by
    simp [hb]
    omega
  rw [front, write, front, List.take_take, Nat.min_eq_left h, List.take_append_of_le_length
    (Nat.le_of_eq hfront.symm), List.take_of_length_le (Nat.le_of_eq hfront)]

/-- A string written to the front is read from there. -/
theorem front_write_zero (b : Block n) (data : Bytes) (h : data.length ≤ n) :
    (b.write 0 data).front data.length = data := by
  have hread := front_write b 0 data (by omega)
  rw [Nat.zero_add] at hread
  rw [hread, front, List.take_zero, List.nil_append]

/-- The bytes of a block, followed by anything, give the block back. -/
theorem ofBytes_append (b : Block n) (rest : Bytes) : ofBytes n (b.bytes ++ rest) = b := by
  have h := b.length_bytes
  apply Block.ext
  simp [ofBytes, h]

theorem cut_eq (done : List (Block n)) (count : Nat) (data : Bytes) :
    cut n done count data = done.reverse ++ cut n [] count data := by
  induction count generalizing done data with
  | zero => simp [cut]
  | succ count ih =>
      rw [cut, cut, ih, ih [_]]
      simp

@[simp] theorem split_nil (n : Nat) : split n [] = [] := by
  simp [split, cut]

/-- The first block of a string and the blocks of what follows. -/
theorem split_append (hn : 0 < n) (b : Block n) (rest : Bytes) :
    split n (b.bytes ++ rest) = b :: split n rest := by
  have h := b.length_bytes
  have hcount : (b.bytes ++ rest).length / n = rest.length / n + 1 := by
    rw [List.length_append, h, Nat.add_div_left _ hn]
  rw [split, hcount, cut, cut_eq, ofBytes_append]
  simp [split, h]

/-- Cutting joined blocks gives the blocks. -/
theorem split_join (hn : 0 < n) (blocks : List (Block n)) : split n (join blocks) = blocks := by
  induction blocks with
  | nil => simp [join]
  | cons b blocks ih =>
      rw [join, List.flatMap_cons, split_append hn, ← join, ih]

/-- The two little-endian words of an eight-byte block. -/
def toPair (b : Block 8) : UInt32 × UInt32 :=
  (Word.ofBytesLE (b.bytes.take 4), Word.ofBytesLE (b.bytes.drop 4))

/-- The eight-byte block of two little-endian words. -/
def ofPair (w : UInt32 × UInt32) : Block 8 :=
  ⟨Word.toBytesLE w.1 ++ Word.toBytesLE w.2, by simp⟩

theorem toPair_ofPair (w : UInt32 × UInt32) : (ofPair w).toPair = w := by
  simp [toPair, ofPair, Word.ofBytesLE_toBytesLE]

theorem ofPair_toPair (b : Block 8) : ofPair b.toPair = b := by
  have h := b.length_bytes
  apply Block.ext
  rw [ofPair, toPair]
  simp only
  rw [Word.toBytesLE_ofBytesLE _ (by simp [h]), Word.toBytesLE_ofBytesLE _ (by simp [h]),
    List.take_append_drop]

/-- The quarters of a sixteen-byte block in order make it up. -/
theorem quarters (b : Block 16) :
    b.bytes.take 4 ++ ((b.bytes.drop 4).take 4 ++ ((b.bytes.drop 8).take 4 ++ b.bytes.drop 12)) =
      b.bytes := by
  have hthird : (b.bytes.drop 8).take 4 ++ b.bytes.drop 12 = b.bytes.drop 8 := by
    have h := List.take_append_drop 4 (b.bytes.drop 8)
    rwa [List.drop_drop] at h
  have hsecond : (b.bytes.drop 4).take 4 ++ b.bytes.drop 8 = b.bytes.drop 4 := by
    have h := List.take_append_drop 4 (b.bytes.drop 4)
    rwa [List.drop_drop] at h
  rw [hthird, hsecond, List.take_append_drop]

end Block

/-- Four 32-bit words. -/
@[ext] structure Quad where
  a : UInt32
  b : UInt32
  c : UInt32
  d : UInt32
deriving DecidableEq, Repr

namespace Quad

/-- The four little-endian words of a sixteen-byte block. -/
def ofBlock (b : Block 16) : Quad :=
  ⟨Word.ofBytesLE (b.bytes.take 4), Word.ofBytesLE ((b.bytes.drop 4).take 4),
    Word.ofBytesLE ((b.bytes.drop 8).take 4), Word.ofBytesLE (b.bytes.drop 12)⟩

/-- The sixteen-byte block of four little-endian words. -/
def toBlock (q : Quad) : Block 16 :=
  ⟨Word.toBytesLE q.a ++ (Word.toBytesLE q.b ++ (Word.toBytesLE q.c ++ Word.toBytesLE q.d)),
    by simp⟩

/-- The words written behind each other are found one after another. -/
theorem drop_toBytesLE_append (x : UInt32) (n : Nat) (rest : Bytes) :
    (Word.toBytesLE x ++ rest).drop (n + 4) = rest.drop n := by
  rw [List.drop_append, List.drop_eq_nil_of_le (by simp), Word.length_toBytesLE,
    Nat.add_sub_cancel, List.nil_append]

theorem ofBlock_toBlock (q : Quad) : ofBlock q.toBlock = q := by
  apply Quad.ext <;> simp [ofBlock, toBlock, Word.ofBytesLE_toBytesLE, drop_toBytesLE_append _ 4,
    drop_toBytesLE_append _ 8]

theorem toBlock_ofBlock (b : Block 16) : (ofBlock b).toBlock = b := by
  have h := b.length_bytes
  apply Block.ext
  simp only [toBlock, ofBlock]
  rw [Word.toBytesLE_ofBytesLE _ (by simp [h]), Word.toBytesLE_ofBytesLE _ (by simp [h]),
    Word.toBytesLE_ofBytesLE _ (by simp [h]), Word.toBytesLE_ofBytesLE _ (by simp [h]),
    Block.quarters]

end Quad

end FirmwareUpdate
