/-
What never changes while a bootloader runs: its abilities, its timing, its
interface number and the regions it offers.
-/
import FirmwareUpdate.Defaults
import FirmwareUpdate.Dfu.Board

namespace FirmwareUpdate

namespace Dfu

/-- The abilities of a bootloader.  A transfer never exceeds the block buffer. -/
structure Profile where
  flashName : String := "Internal flash"
  eepromName : String := "Internal EEPROM"
  uploads : Bool := true
  detaches : Bool := true
  syncs : Bool := false
  pollTimeout : UInt32 := Defaults.pollTimeout
  detachTimeout : UInt16 := Defaults.detachTimeout
  transferSize : UInt16 := Defaults.transferSize
  checksum : Option ChecksumKind := none
  transferSize_le : transferSize.toNat ≤ Defaults.maxTransferSize := by decide

/-- A bootloader before it runs. -/
structure Setup where
  profile : Profile
  interface : UInt8
  flash : Region
  eeprom : Option Region

namespace Setup

/-- The region of a target; an EEPROM that is not there is empty. -/
def region (setup : Setup) : Target → Region
  | .flash => setup.flash
  | .eeprom => setup.eeprom.getD ⟨0, 0⟩

/-- The target of an alternate setting, if the setting is offered. -/
def target? (setup : Setup) (alternate : UInt8) : Option Target :=
  if alternate = 0 then some .flash
  else if alternate = 1 && setup.eeprom.isSome then some .eeprom
  else none

end Setup

end Dfu

end FirmwareUpdate
