/-
RC5-32/12/16 and RC6-32/20/16: rotations by amounts that depend on the data,
and one key expansion for both.
-/
import FirmwareUpdate.Cipher.BlockCipher

namespace FirmwareUpdate

namespace RcSchedule

/-- The key expansion under way.  Both tables are queues: a step takes the front
word and puts its successor at the end. -/
structure Expansion where
  table : List UInt32
  key : List UInt32
  a : UInt32
  b : UInt32

/-- Mix the front words of both tables into each other. -/
def Expansion.step (e : Expansion) : Expansion :=
  match e.table, e.key with
  | s :: table, l :: key =>
      let a := Word.rotateLeft (s + e.a + e.b) 3
      let b := Word.rotateLeft (l + (a + e.b)) (a + e.b)
      ⟨table ++ [a], key ++ [b], a, b⟩
  | _, _ => e

/-- The table before the key is mixed in: an arithmetic progression. -/
def initialTable (size : Nat) : List UInt32 :=
  (List.range size).map fun i => 0xB7E15163 + 0x9E3779B9 * UInt32.ofNat i

/-- The `size` round words of a 128-bit key, after three passes over the table. -/
def expand (size : Nat) (key : Bytes) : List UInt32 :=
  (Nat.repeat Expansion.step (3 * size)
    ⟨initialTable size, (List.range 4).map (Word.keyLE key), 0, 0⟩).table

/-- Neighbouring words of a table in pairs. -/
def pairs : List UInt32 → List (UInt32 × UInt32)
  | x :: y :: rest => (x, y) :: pairs rest
  | _ => []

end RcSchedule

namespace RcFive

/-- Each half is masked with the other, turned by it and moved by a table word. -/
def round : Round (UInt32 × UInt32) (UInt32 × UInt32) where
  apply k s :=
    let a := Word.rotateLeft (s.1 ^^^ s.2) s.2 + k.1
    (a, Word.rotateLeft (s.2 ^^^ a) a + k.2)
  revert k s :=
    let b := Word.rotateRight (s.2 - k.2) s.1 ^^^ s.1
    (Word.rotateRight (s.1 - k.1) b ^^^ b, b)

/-- The addition of the first two table words. -/
def whiten : Round (UInt32 × UInt32) (UInt32 × UInt32) where
  apply k s := (s.1 + k.1, s.2 + k.2)
  revert k s := (s.1 - k.1, s.2 - k.2)

/-- RC5 with 64-bit blocks, 12 rounds and a 128-bit key. -/
def cipher (key : Bytes) : BlockCipher :=
  let keys := RcSchedule.pairs (RcSchedule.expand 26 key)
  BlockCipher.ofPairs
    (fun b => round.run (keys.drop 1) (whiten.run (keys.take 1) b))
    (fun b => whiten.undo (keys.take 1) (round.undo (keys.drop 1) b))

end RcFive

namespace RcSix

/-- The quadratic function of a word, turned by five places. -/
def mix (x : UInt32) : UInt32 :=
  Word.rotateLeft (x * (2 * x + 1)) 5

/-- Two words are masked, turned and moved; then all four change places. -/
def round : Round (UInt32 × UInt32) Quad where
  apply k q :=
    let t := mix q.b
    let u := mix q.d
    ⟨q.b, Word.rotateLeft (q.c ^^^ u) t + k.2, q.d, Word.rotateLeft (q.a ^^^ t) u + k.1⟩
  revert k q :=
    let t := mix q.a
    let u := mix q.c
    ⟨Word.rotateRight (q.d - k.1) u ^^^ t, q.a, Word.rotateRight (q.b - k.2) t ^^^ u, q.c⟩

/-- The addition of table words to the second and fourth word. -/
def whitenIn : Round (UInt32 × UInt32) Quad where
  apply k q := ⟨q.a, q.b + k.1, q.c, q.d + k.2⟩
  revert k q := ⟨q.a, q.b - k.1, q.c, q.d - k.2⟩

/-- The addition of table words to the first and third word. -/
def whitenOut : Round (UInt32 × UInt32) Quad where
  apply k q := ⟨q.a + k.1, q.b, q.c + k.2, q.d⟩
  revert k q := ⟨q.a - k.1, q.b, q.c - k.2, q.d⟩

/-- RC6 with 128-bit blocks, 20 rounds and a 128-bit key. -/
def cipher (key : Bytes) : BlockCipher :=
  let keys := RcSchedule.pairs (RcSchedule.expand 44 key)
  let first := keys.take 1
  let middle := (keys.drop 1).take 20
  let last := keys.drop 21
  BlockCipher.ofQuads
    (fun q => whitenOut.run last (round.run middle (whitenIn.run first q)))
    (fun q => whitenIn.undo first (round.undo middle (whitenOut.undo last q)))

end RcSix

end FirmwareUpdate
