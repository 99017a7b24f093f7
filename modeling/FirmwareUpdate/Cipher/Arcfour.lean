/-
The ARCFOUR keystream generator with a 128-bit key.
-/
import FirmwareUpdate.Bytes

namespace FirmwareUpdate

/-- The ARCFOUR state: a table of bytes and two positions in it. -/
structure Arcfour where
  table : Vector UInt8 256
  i : UInt8
  j : UInt8

namespace Arcfour

/-- Entry `i` of the table. -/
def get (table : Vector UInt8 256) (i : UInt8) : UInt8 :=
  have h := i.toNat_lt
  table[i.toNat]

/-- Entries `i` and `j` exchanged. -/
def swap (table : Vector UInt8 256) (i j : UInt8) : Vector UInt8 256 :=
  have hi := i.toNat_lt
  have hj := j.toNat_lt
  table.swap i.toNat j.toNat

/-- One step of the key setup at position `i`. -/
def setupStep (key : Bytes) (s : Vector UInt8 256 × UInt8) (i : Nat) : Vector UInt8 256 × UInt8 :=
  let position := UInt8.ofNat i
  let j := s.2 + get s.1 position + key.getD (i % 16) 0
  (swap s.1 position j, j)

/-- The state of a 128-bit key.  The setup stops one position before the end of
the table. -/
def ofKey (key : Bytes) : Arcfour :=
  let identity : Vector UInt8 256 := Vector.ofFn fun i => UInt8.ofNat i.val
  ⟨((List.range 255).foldl (setupStep key) (identity, 0)).1, 0, 0⟩

/-- The next keystream byte. -/
def next (s : Arcfour) : UInt8 × Arcfour :=
  let i := s.i + 1
  let j := s.j + get s.table i
  let table := swap s.table i j
  (get table (get table i + get table j), ⟨table, i, j⟩)

end Arcfour

end FirmwareUpdate
