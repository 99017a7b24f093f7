/-
The bootloader on the bus: control requests with their buffer, the standard requests
that concern it, which choose an alternate setting or ask for descriptors and strings,
and runs of steps.
-/
import FirmwareUpdate.Dfu.Device

namespace FirmwareUpdate

namespace Dfu

/-- A control request of a class, of a vendor or of a reserved type.  `length` is what
the host is ready to take; data that the host sends come with the request.  Standard
requests are not among these: those that concern the bootloader are steps of their own,
and the bus answers the others by itself. -/
structure Request where
  type : UInt8
  code : UInt8
  value : UInt16 := 0
  index : UInt16
  length : UInt16 := 0
  data : Bytes := []
  nonstandard : type &&& 0x60 ≠ 0 := by decide
deriving DecidableEq, Repr

namespace Request

/-- Whether the host asks for data. -/
def isInput (r : Request) : Bool :=
  r.type &&& 0x80 != 0

/-- Whether the request is one of a class, to an interface with this number. -/
def isFor (r : Request) (interface : UInt8) : Bool :=
  r.type &&& 0x7F == 0x21 && r.index == interface.toUInt16

end Request

/-- The requests of the protocol, by direction. -/
inductive Command
  | detach
  | download
  | upload
  | getStatus
  | clearStatus
  | getState
  | abort
deriving DecidableEq, Repr

/-- The command with this code, if it has the direction of the request. -/
def Command.ofCode? (input : Bool) (code : UInt8) : Option Command :=
  if input then
    if code = 2 then some upload
    else if code = 3 then some getStatus
    else if code = 5 then some getState
    else none
  else
    if code = 0 then some detach
    else if code = 1 then some download
    else if code = 4 then some clearStatus
    else if code = 6 then some abort
    else none

/-- The most bytes of a control transfer that the bus keeps. -/
def controlBuffer : Nat := 128

/-- The highest number of an interface or an alternate setting. -/
def maxNumber : UInt16 := 0xFF

namespace Device

/-- Answer a request that is meant for this bootloader. -/
def command (d : Device) (r : Request) : Outcome :=
  match Command.ofCode? r.isInput r.code with
  | some .detach => d.detach
  | some .download => d.download r.data
  | some .upload => d.upload r.length.toNat
  | some .getStatus => d.getStatus r.length.toNat
  | some .clearStatus => d.clearStatus
  | some .getState => d.getState r.length.toNat
  | some .abort => d.abort
  | none => d.refuse

/-- A reply as the bus passes it on: stalled if it does not fit the buffer, else
cut to what the host is ready to take. -/
def deliver (length : Nat) : Answer → Answer
  | .reply data =>
      if controlBuffer < data.length then .stalled else .reply (data.take length)
  | answer => answer

/-- A control request on the bus.  Data that do not fit the buffer never reach the
bootloader; a request meant for nobody is stalled. -/
def control (d : Device) (r : Request) : Outcome :=
  if !r.isInput && controlBuffer < r.data.length then ⟨d, .ignored, []⟩
  else if !r.isFor d.setup.interface then ⟨d, .stalled, []⟩
  else
    let outcome := d.command r
    { outcome with answer := deliver r.length.toNat outcome.answer }

/-- Select an alternate setting of an interface.  The bus itself stalls a number
that is none, and accepts setting zero where nobody else does. -/
def setInterface (d : Device) (alternate index : UInt16) : Outcome :=
  if maxNumber < index ∨ maxNumber < alternate then ⟨d, .stalled, []⟩
  else
    let chosen :=
      if index.toUInt8 = d.setup.interface then d.select? alternate.toUInt8 else none
    match chosen with
    | some d => ⟨d, .accepted, []⟩
    | none => ⟨d, if alternate = 0 then .accepted else .stalled, []⟩

/-- Tell the alternate setting of an interface; the bus itself stalls a number that
is none, and answers zero where nobody knows the interface. -/
def getInterface (d : Device) (index : UInt16) : Outcome :=
  if maxNumber < index then ⟨d, .stalled, []⟩
  else if index.toUInt8 = d.setup.interface then
    ⟨d, .reply [d.session.target.alternate], []⟩
  else ⟨d, .reply [0], []⟩

end Device

namespace Setup

/-- The index of the string that names the flash, the first after the three
strings of the device. -/
def flashString : UInt8 := 4

/-- The index of the string that names the EEPROM. -/
def eepromString : UInt8 := 5

/-- The interface descriptor and the functional descriptor of one target. -/
def targetDescriptors (setup : Setup) (target : Target) (string : UInt8) : Bytes :=
  let p := setup.profile
  let attributes : UInt8 := 0x05 ||| (if p.uploads then 0x02 else 0)
  [0x09, 0x04, setup.interface, target.alternate, 0, 0xFE, 0x01, 0x02, string]
    ++ [0x09, 0x21, attributes]
    ++ Bytes.ofNatLE 2 p.detachTimeout.toNat ++ Bytes.ofNatLE 2 p.transferSize.toNat
    ++ [0x10, 0x01]

/-- The descriptors of the bootloader, one pair for each memory on offer. -/
def descriptors (setup : Setup) : Bytes :=
  setup.targetDescriptors .flash flashString
    ++ if setup.eeprom.isSome then setup.targetDescriptors .eeprom eepromString else []

/-- The string with an index, in American English or in no particular language.
Index zero lists the languages of the strings of the device; none are kept, so the
list is empty in every language. -/
def string? (setup : Setup) (index : UInt8) (language : UInt16) : Option String :=
  if index = 0 then some ""
  else if language ≠ 0x0409 ∧ language ≠ 0 then none
  else if index = flashString then some setup.profile.flashName
  else if index = eepromString && setup.eeprom.isSome then some setup.profile.eepromName
  else none

end Setup

/-- What a host can ask for to be described: the bootloader as a part of the
configuration, or a string. -/
inductive Query
  | configuration
  | string (index : UInt8) (language : UInt16)
deriving DecidableEq, Repr

/-- The answer to a query.  A string that there is none of is stalled. -/
def Device.describe (d : Device) : Query → Answer
  | .configuration => .reply d.setup.descriptors
  | .string index language =>
      match d.setup.string? index language with
      | some text => .text text
      | none => .stalled

/-- What can happen to a device from outside. -/
inductive Step
  | control (r : Request)
  | setInterface (alternate index : UInt16)
  | getInterface (index : UInt16)
  | getDescriptor (query : Query)
  | busReset
  | markPowerOnReset
  | markCorruptFirmware
  | failProgram (fault : Option MemoryFault)
  | failRead (fault : Option MemoryFault)
  | failManifest (fault : Option ManifestFault)
deriving DecidableEq, Repr

namespace Device

/-- One step. -/
def step (d : Device) : Step → Outcome
  | .control r => d.control r
  | .setInterface alternate index => d.setInterface alternate index
  | .getInterface index => d.getInterface index
  | .getDescriptor query => ⟨d, d.describe query, []⟩
  | .busReset => d.busReset
  | .markPowerOnReset => ⟨d.inPhase (.error .powerOnReset), .done, []⟩
  | .markCorruptFirmware => ⟨d.inPhase (.error .firmware), .done, []⟩
  | .failProgram fault =>
      ⟨{ d with board := { d.board with programFault := fault } }, .done, []⟩
  | .failRead fault =>
      ⟨{ d with board := { d.board with readFault := fault } }, .done, []⟩
  | .failManifest fault =>
      ⟨{ d with board := { d.board with manifestFault := fault } }, .done, []⟩

/-- The device after steps in order. -/
def after (d : Device) (steps : List Step) : Device :=
  steps.foldl (fun d s => (d.step s).device) d

/-- Steps in order: the outcomes one by one. -/
def run (d : Device) : List Step → List Outcome
  | [] => []
  | s :: steps =>
      let outcome := d.step s
      outcome :: outcome.device.run steps

end Device

end Dfu

end FirmwareUpdate
