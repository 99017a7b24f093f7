/-
The memories of a board as the bootloader sees them: two banks of stored bytes,
failures that may be set, and the calls that the board takes notice of.
-/
import FirmwareUpdate.Bytes
import FirmwareUpdate.Dfu.Status

namespace FirmwareUpdate

namespace Dfu

/-- The memory that a session works on. -/
inductive Target
  | flash
  | eeprom
deriving DecidableEq, Repr

/-- The number of a target among the alternate settings of the interface. -/
def Target.alternate : Target → UInt8
  | flash => 0
  | eeprom => 1

/-- A range of addresses. -/
structure Region where
  start : UInt32
  length : UInt32
deriving DecidableEq, Repr

/-- Bytes stored from an address on. -/
structure Bank where
  start : UInt32
  stored : Bytes
deriving DecidableEq, Repr

namespace Bank

/-- The offset of a range of `length` bytes, if the bank holds all of it. -/
def offset? (bank : Bank) (address : UInt32) (length : Nat) : Option Nat :=
  if bank.start ≤ address then
    let offset := address.toNat - bank.start.toNat
    if offset + length ≤ bank.stored.length then some offset else none
  else none

/-- The bytes of a range, if the bank holds all of it. -/
def read? (bank : Bank) (address : UInt32) (length : Nat) : Option Bytes :=
  (bank.offset? address length).map fun offset => (bank.stored.drop offset).take length

/-- The bank with a range overwritten, if it holds all of it. -/
def write? (bank : Bank) (address : UInt32) (data : Bytes) : Option Bank :=
  (bank.offset? address data.length).map fun offset =>
    { bank with
      stored := bank.stored.take offset ++ data ++ bank.stored.drop (offset + data.length) }

end Bank

/-- A call that the bootloader makes. -/
inductive Call
  | program (target : Target) (address : UInt32) (data : Bytes)
  | read (address : UInt32) (length : Nat)
  | manifest (checked : Option Nat)
  | busReset
deriving DecidableEq, Repr

/-- What a board implements besides programming its flash and reading. -/
structure Hooks where
  programsEeprom : Bool := true
  manifests : Bool := true
  resets : Bool := true
deriving DecidableEq, Repr

/-- The banks of a board and the failures that its next calls meet. -/
structure Board where
  flash : Bank
  eeprom : Bank
  hooks : Hooks := {}
  programFault : Option MemoryFault := none
  readFault : Option MemoryFault := none
  manifestFault : Option ManifestFault := none
deriving DecidableEq, Repr

namespace Board

/-- The bank of a target. -/
def bank (board : Board) : Target → Bank
  | .flash => board.flash
  | .eeprom => board.eeprom

/-- The board with another bank for a target. -/
def withBank (board : Board) (target : Target) (bank : Bank) : Board :=
  match target with
  | .flash => { board with flash := bank }
  | .eeprom => { board with eeprom := bank }

/-- Write a block.  A board that does not program its EEPROM refuses the target;
a block must lie inside the stored bytes. -/
def program (board : Board) (target : Target) (address : UInt32) (data : Bytes) :
    Except MemoryFault Board :=
  if target == .eeprom && !board.hooks.programsEeprom then .error .target
  else
    match board.programFault with
    | some fault => .error fault
    | none =>
        match (board.bank target).write? address data with
        | none => .error .address
        | some bank => .ok (board.withBank target bank)

/-- Read a range from the first bank that holds all of it. -/
def read (board : Board) (address : UInt32) (length : Nat) : Except MemoryFault Bytes :=
  match board.readFault with
  | some fault => .error fault
  | none =>
      match board.flash.read? address length with
      | some data => .ok data
      | none =>
          match board.eeprom.read? address length with
          | some data => .ok data
          | none => .error .address

/-- Start the new firmware: the failure, if it cannot be started. -/
def manifest (board : Board) : Option ManifestFault :=
  if board.hooks.manifests then board.manifestFault else none

/-- Whether the board takes notice of a call. -/
def notices (board : Board) : Call → Bool
  | .program .flash _ _ => true
  | .program .eeprom _ _ => board.hooks.programsEeprom
  | .read _ _ => true
  | .manifest _ => board.hooks.manifests
  | .busReset => board.hooks.resets

end Board

end Dfu

end FirmwareUpdate
