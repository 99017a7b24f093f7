/-
Writing into the banks of a board.  Blocks written one behind the other leave the same
memory as all of their bytes written at once, and a board that takes every block inside a
region still does when some were written.
-/
import FirmwareUpdate.Dfu.Board

namespace FirmwareUpdate

namespace Dfu

/-- Addresses are counted in 32 bits. -/
def addressLimit : Nat := 0x100000000

/-- A region that does not pass the last address. -/
def Region.Addressable (region : Region) : Prop :=
  region.start.toNat + region.length.toNat ≤ addressLimit

instance (region : Region) : Decidable region.Addressable :=
  inferInstanceAs (Decidable (_ ≤ _))

/-- An offset inside such a region does not wrap around. -/
theorem Region.Addressable.toNat_add {region : Region} (h : region.Addressable) {offset : Nat}
    (hoffset : offset < region.length.toNat) :
    (region.start + UInt32.ofNat offset).toNat = region.start.toNat + offset := by
  have hlimit : region.start.toNat + region.length.toNat ≤ 4294967296 := h
  rw [UInt32.toNat_add, UInt32.toNat_ofNat']
  omega

namespace Bank

variable {bank : Bank} {address : UInt32} {offset : Nat} {data : Bytes}

/-- The bank with bytes written over it from an offset on. -/
def overwrite (bank : Bank) (offset : Nat) (data : Bytes) : Bank :=
  { bank with
    stored := bank.stored.take offset ++ data ++ bank.stored.drop (offset + data.length) }

/-- The byte at an address, if the bank holds it. -/
def byteAt? (bank : Bank) (address : Nat) : Option UInt8 :=
  if bank.start.toNat ≤ address then bank.stored[address - bank.start.toNat]? else none

theorem offset?_eq_some {length : Nat} (h : bank.offset? address length = some offset) :
    bank.start.toNat ≤ address.toNat ∧ offset = address.toNat - bank.start.toNat ∧
      offset + length ≤ bank.stored.length := by
  unfold offset? at h
  split at h
  next hstart =>
      simp only at h
      split at h
      next hroom =>
          simp only [Option.some.injEq] at h
          exact ⟨UInt32.le_iff_toNat_le.mp hstart, h.symm, h ▸ hroom⟩
      next => simp at h
  next => simp at h

theorem offset?_of_room {length : Nat} (hstart : bank.start.toNat ≤ address.toNat)
    (hroom : address.toNat - bank.start.toNat + length ≤ bank.stored.length) :
    bank.offset? address length = some (address.toNat - bank.start.toNat) := by
  have hle : bank.start ≤ address := UInt32.le_iff_toNat_le.mpr hstart
  simp only [offset?, hle, hroom, ↓reduceIte]

theorem write?_of_room (hstart : bank.start.toNat ≤ address.toNat)
    (hroom : address.toNat - bank.start.toNat + data.length ≤ bank.stored.length) :
    bank.write? address data = some (bank.overwrite (address.toNat - bank.start.toNat) data) := by
  rw [write?, offset?_of_room hstart hroom]
  rfl

theorem overwrite_nil (bank : Bank) (offset : Nat) : bank.overwrite offset [] = bank := by
  simp only [overwrite, List.append_nil, List.length_nil, Nat.add_zero, List.take_append_drop]

theorem length_overwrite (bank : Bank) (offset : Nat) (data : Bytes)
    (h : offset + data.length ≤ bank.stored.length) :
    (bank.overwrite offset data).stored.length = bank.stored.length := by
  simp only [overwrite, List.length_append, List.length_take, List.length_drop]
  omega

/-- Blocks written one behind the other are all written at once. -/
theorem overwrite_overwrite (bank : Bank) (offset : Nat) (x y : Bytes)
    (h : offset + x.length ≤ bank.stored.length) :
    (bank.overwrite offset x).overwrite (offset + x.length) y = bank.overwrite offset (x ++ y) := by
  have hfront : (bank.stored.take offset ++ x).length = offset + x.length := by
    rw [List.length_append, List.length_take]
    omega
  have htake : (bank.stored.take offset ++ x ++ bank.stored.drop (offset + x.length)).take
      (offset + x.length) = bank.stored.take offset ++ x := by
    rw [← hfront, List.take_left]
  have hdrop : (bank.stored.take offset ++ x ++ bank.stored.drop (offset + x.length)).drop
      (offset + x.length + y.length) = bank.stored.drop (offset + (x ++ y).length) := by
    rw [List.drop_append, List.drop_eq_nil_of_le (by omega), List.nil_append, List.drop_drop,
      hfront, List.length_append]
    congr 1
    omega
  simp only [overwrite, htake, hdrop]
  rw [List.append_assoc (bank.stored.take offset) x y]

/-- The bytes that were written are read where they were written, and every other byte is
as it was. -/
theorem byteAt?_overwrite (h : offset + data.length ≤ bank.stored.length) (address : Nat) :
    (bank.overwrite offset data).byteAt? address =
      if bank.start.toNat + offset ≤ address ∧
          address < bank.start.toNat + offset + data.length then
        data[address - (bank.start.toNat + offset)]?
      else bank.byteAt? address := by
  have htake : (bank.stored.take offset).length = offset := by
    rw [List.length_take]
    omega
  by_cases hstart : bank.start.toNat ≤ address
  · simp only [byteAt?, overwrite, hstart, ↓reduceIte]
    generalize hi : address - bank.start.toNat = i
    have haddress : address = bank.start.toNat + i := by omega
    subst haddress
    rcases Nat.lt_or_ge i offset with hbefore | hbefore
    · rw [if_neg (by omega), List.append_assoc, List.getElem?_append_left (by omega),
        List.getElem?_take_of_lt hbefore]
    · rcases Nat.lt_or_ge i (offset + data.length) with hinside | hbehind
      · rw [if_pos (by omega), List.getElem?_append_left (by rw [List.length_append]; omega),
          List.getElem?_append_right (by omega), htake]
        congr 1
        omega
      · rw [if_neg (by omega), List.getElem?_append_right (by rw [List.length_append]; omega),
          List.getElem?_drop, List.length_append, htake]
        congr 1
        omega
  · have hno : ¬ (bank.start.toNat + offset ≤ address ∧
        address < bank.start.toNat + offset + data.length) := by omega
    simp only [byteAt?, overwrite, hstart, hno, ↓reduceIte]

end Bank

namespace Board

variable {board : Board} {target other : Target} {bank : Bank} {region : Region}
  {data : Bytes}

@[simp] theorem bank_withBank (board : Board) (target : Target) (bank : Bank) :
    (board.withBank target bank).bank target = bank := by
  cases target <;> rfl

theorem bank_withBank_of_ne (h : other ≠ target) :
    (board.withBank target bank).bank other = board.bank other := by
  cases target <;> cases other <;> first | rfl | exact absurd rfl h

@[simp] theorem withBank_withBank (board : Board) (target : Target) (bank bank' : Bank) :
    (board.withBank target bank).withBank target bank' = board.withBank target bank' := by
  cases target <;> rfl

@[simp] theorem withBank_bank (board : Board) (target : Target) :
    board.withBank target (board.bank target) = board := by
  cases target <;> rfl

/-- The board programs every block that lies inside a region. -/
def Accepts (board : Board) (target : Target) (region : Region) : Prop :=
  ∀ offset data, data ≠ [] → offset + data.length ≤ region.length.toNat →
    ∃ after, board.program target (region.start + UInt32.ofNat offset) data = .ok after

/-- What makes a board program every block inside a region: the target can be programmed, no
failure is set, and the bank holds the region. -/
structure Holds (board : Board) (target : Target) (region : Region) : Prop where
  programs : (target == .eeprom && !board.hooks.programsEeprom) = false
  faultless : board.programFault = none
  start : (board.bank target).start.toNat ≤ region.start.toNat
  stop : region.start.toNat - (board.bank target).start.toNat + region.length.toNat ≤
    (board.bank target).stored.length

/-- A region that is not empty is held by a board that accepts it: the block that fills it
must have gone somewhere. -/
theorem Accepts.holds (h : board.Accepts target region) (hpos : 0 < region.length.toNat) :
    board.Holds target region := by
  have hlength : (List.replicate region.length.toNat (0 : UInt8)).length = region.length.toNat :=
    List.length_replicate
  obtain ⟨after, hafter⟩ := h 0 (List.replicate region.length.toNat 0)
    (List.ne_nil_of_length_pos (by rw [hlength]; exact hpos)) (by rw [hlength]; omega)
  have hstart : region.start + UInt32.ofNat 0 = region.start := UInt32.add_zero _
  rw [hstart] at hafter
  unfold program at hafter
  split at hafter
  next => simp at hafter
  next hprograms =>
      split at hafter
      next => simp at hafter
      next hfaultless =>
          split at hafter
          next => simp at hafter
          next written hwritten =>
              simp only [Bank.write?, Option.map_eq_some_iff, hlength] at hwritten
              obtain ⟨offset, hoffset, -⟩ := hwritten
              obtain ⟨hle, rfl, hroom⟩ := Bank.offset?_eq_some hoffset
              exact ⟨Bool.not_eq_true _ ▸ hprograms, hfaultless, hle, hroom⟩

/-- The board after a block was written at an offset of a region. -/
def stored (board : Board) (target : Target) (region : Region) (offset : Nat) (data : Bytes) :
    Board :=
  let bank := board.bank target
  board.withBank target
    (bank.overwrite (region.start.toNat - bank.start.toNat + offset) data)

theorem Holds.program_eq (h : board.Holds target region)
    (hregion : region.Addressable) (offset : Nat) (hdata : data ≠ [])
    (hinside : offset + data.length ≤ region.length.toNat) :
    board.program target (region.start + UInt32.ofNat offset) data =
      .ok (board.stored target region offset data) := by
  obtain ⟨hprograms, hfaultless, hstart, hstop⟩ := h
  have hpos := List.length_pos_iff.mpr hdata
  have haddress : (region.start + UInt32.ofNat offset).toNat = region.start.toNat + offset :=
    hregion.toNat_add (by omega)
  have hwrite : (board.bank target).write? (region.start + UInt32.ofNat offset) data =
      some ((board.bank target).overwrite
        (region.start.toNat - (board.bank target).start.toNat + offset) data) := by
    rw [Bank.write?_of_room (by omega) (by omega), haddress]
    congr 2
    omega
  simp only [program, hprograms, hfaultless, hwrite, stored, Bool.false_eq_true, ↓reduceIte]

theorem Holds.accepts (h : board.Holds target region)
    (hregion : region.Addressable) : board.Accepts target region := by
  intro offset data hdata hinside
  exact ⟨_, h.program_eq hregion offset hdata hinside⟩

theorem stored_nil (board : Board) (target : Target) (region : Region) (offset : Nat) :
    board.stored target region offset [] = board := by
  simp only [stored, Bank.overwrite_nil, withBank_bank]

theorem manifest_stored (board : Board) (target : Target) (region : Region) (offset : Nat)
    (data : Bytes) : (board.stored target region offset data).manifest = board.manifest := by
  cases target <;> rfl

theorem Holds.stored (h : board.Holds target region) (offset : Nat) (data : Bytes)
    (hinside : offset + data.length ≤ region.length.toNat) :
    (board.stored target region offset data).Holds target region := by
  obtain ⟨hprograms, hfaultless, hstart, hstop⟩ := h
  have hlength := Bank.length_overwrite (board.bank target)
    (region.start.toNat - (board.bank target).start.toNat + offset) data (by omega)
  refine ⟨?_, ?_, ?_, ?_⟩
  · cases target <;> exact hprograms
  · cases target <;> exact hfaultless
  · simp only [Board.stored, bank_withBank]
    exact hstart
  · simp only [Board.stored, bank_withBank, hlength]
    exact hstop

theorem Holds.stored_stored (h : board.Holds target region) (offset : Nat) (x y : Bytes)
    (hinside : offset + x.length ≤ region.length.toNat) :
    (board.stored target region offset x).stored target region (offset + x.length) y =
      board.stored target region offset (x ++ y) := by
  have hstop := h.stop
  have hjoin := Bank.overwrite_overwrite (board.bank target)
    (region.start.toNat - (board.bank target).start.toNat + offset) x y (by omega)
  rw [Nat.add_assoc] at hjoin
  simp only [Board.stored, bank_withBank, withBank_withBank]
  exact congrArg _ hjoin

/-- What is stored at the start of a region is read there, and nothing else has changed. -/
theorem Holds.byteAt?_stored (h : board.Holds target region)
    (hinside : data.length ≤ region.length.toNat) (other : Target) (address : Nat) :
    ((board.stored target region 0 data).bank other).byteAt? address =
      if other = target ∧ region.start.toNat ≤ address ∧
          address < region.start.toNat + data.length then
        data[address - region.start.toNat]?
      else (board.bank other).byteAt? address := by
  obtain ⟨-, -, hstart, hstop⟩ := h
  by_cases hother : other = target
  · subst hother
    have hbase : (board.bank other).start.toNat
        + (region.start.toNat - (board.bank other).start.toNat) = region.start.toNat := by omega
    simp only [Board.stored, bank_withBank, Nat.add_zero, true_and]
    rw [Bank.byteAt?_overwrite (by omega), hbase]
  · simp only [Board.stored, bank_withBank_of_ne hother, hother, false_and, ↓reduceIte]

/-- A region of a board can be read in pieces of any size, and holds these bytes. -/
structure Reads (board : Board) (region : Region) (stored : Bytes) : Prop where
  length : stored.length = region.length.toNat
  read : ∀ offset count, 0 < count → offset + count ≤ stored.length →
    board.read (region.start + UInt32.ofNat offset) count = .ok ((stored.drop offset).take count)

/-- A region that the flash holds can be read, while no failure is set. -/
theorem reads_flash {stored : Bytes} (hfault : board.readFault = none)
    (hstart : board.flash.start.toNat ≤ region.start.toNat)
    (hstop : region.start.toNat - board.flash.start.toNat + region.length.toNat ≤
      board.flash.stored.length)
    (hregion : region.Addressable)
    (hstored : (board.flash.stored.drop (region.start.toNat - board.flash.start.toNat)).take
      region.length.toNat = stored) :
    board.Reads region stored := by
  subst hstored
  have hlength : ((board.flash.stored.drop (region.start.toNat - board.flash.start.toNat)).take
      region.length.toNat).length = region.length.toNat := by
    rw [List.length_take, List.length_drop]
    omega
  refine ⟨hlength, ?_⟩
  intro offset count hcount hinside
  rw [hlength] at hinside
  have haddress : (region.start + UInt32.ofNat offset).toNat = region.start.toNat + offset :=
    hregion.toNat_add (by omega)
  have hread : board.flash.read? (region.start + UInt32.ofNat offset) count =
      some ((board.flash.stored.drop
        (region.start.toNat + offset - board.flash.start.toNat)).take count) := by
    rw [Bank.read?, Bank.offset?_of_room (by omega) (by omega), haddress]
    rfl
  have hdrop : region.start.toNat + offset - board.flash.start.toNat =
      region.start.toNat - board.flash.start.toNat + offset := by omega
  have htake : min count (region.length.toNat - offset) = count := by omega
  simp only [read, hfault, hread, hdrop]
  rw [List.drop_take, List.drop_drop, List.take_take, htake]

end Board

end Dfu

end FirmwareUpdate
