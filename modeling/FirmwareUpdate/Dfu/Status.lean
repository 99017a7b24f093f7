/-
The states and error codes of the device firmware update protocol.  A device keeps
its state and the error code that it has to report apart.
-/
namespace FirmwareUpdate

namespace Dfu

/-- The error codes of the protocol. -/
inductive ErrorCode
  | target
  | file
  | write
  | erase
  | checkErased
  | program
  | verify
  | address
  | notDone
  | firmware
  | vendor
  | usbReset
  | powerOnReset
  | unknown
  | stalledPacket
deriving DecidableEq, Repr

/-- The status byte of an error. -/
def ErrorCode.byte : ErrorCode → UInt8
  | target => 0x01
  | file => 0x02
  | write => 0x03
  | erase => 0x04
  | checkErased => 0x05
  | program => 0x06
  | verify => 0x07
  | address => 0x08
  | notDone => 0x09
  | firmware => 0x0A
  | vendor => 0x0B
  | usbReset => 0x0C
  | powerOnReset => 0x0D
  | unknown => 0x0E
  | stalledPacket => 0x0F

/-- The states of the protocol.  Some are those of an application or of a device that
works on while the host waits. -/
inductive Stage
  | applicationIdle
  | applicationDetach
  | idle
  | downloadSync
  | downloadBusy
  | downloadIdle
  | manifestSync
  | manifest
  | manifestWaitReset
  | uploadIdle
  | error
deriving DecidableEq, Repr

/-- The state byte. -/
def Stage.byte : Stage → UInt8
  | applicationIdle => 0
  | applicationDetach => 1
  | idle => 2
  | downloadSync => 3
  | downloadBusy => 4
  | downloadIdle => 5
  | manifestSync => 6
  | manifest => 7
  | manifestWaitReset => 8
  | uploadIdle => 9
  | error => 10

/-- What a device keeps of the protocol: its state, and an error code unless all is well.
Requests are answered by the state alone. -/
structure Phase where
  stage : Stage
  code : Option ErrorCode := none
deriving DecidableEq, Repr

namespace Phase

/-- Nothing is under way. -/
abbrev idle : Phase := { stage := .idle }

/-- A block has been programmed, and the host is to ask for the status. -/
abbrev downloadSync : Phase := { stage := .downloadSync }

/-- The next block of a download may come. -/
abbrev downloadIdle : Phase := { stage := .downloadIdle }

/-- A download has ended, and the host is to ask for the status. -/
abbrev manifestSync : Phase := { stage := .manifestSync }

/-- The next part of an upload may be asked for. -/
abbrev uploadIdle : Phase := { stage := .uploadIdle }

/-- Something went wrong. -/
abbrev error (code : ErrorCode) : Phase := { stage := .error, code := some code }

/-- The state byte. -/
def state (phase : Phase) : UInt8 :=
  phase.stage.byte

/-- The status byte: zero without an error code. -/
def status (phase : Phase) : UInt8 :=
  phase.code.elim 0 ErrorCode.byte

/-- Whether a block of a download may come. -/
def takesDownload (phase : Phase) : Bool :=
  match phase.stage with
  | .idle | .downloadSync | .downloadIdle => true
  | _ => false

/-- Whether the next part of an upload may be asked for. -/
def takesUpload (phase : Phase) : Bool :=
  match phase.stage with
  | .idle | .uploadIdle => true
  | _ => false

/-- Whether a request for the status is answered. -/
def takesStatus (phase : Phase) : Bool :=
  match phase.stage with
  | .idle | .downloadSync | .downloadIdle | .manifestSync | .uploadIdle | .error => true
  | _ => false

/-- Whether a request to break off a transfer is accepted. -/
def takesAbort (phase : Phase) : Bool :=
  match phase.stage with
  | .idle | .downloadSync | .downloadIdle | .manifestSync | .uploadIdle => true
  | _ => false

/-- Whether a transfer is under way that a bus reset would interrupt. -/
def interruptible (phase : Phase) : Bool :=
  match phase.stage with
  | .downloadSync | .downloadBusy | .downloadIdle | .manifestSync | .manifest
  | .uploadIdle => true
  | _ => false

end Phase

/-- A failure of the memory. -/
inductive MemoryFault
  | target
  | file
  | write
  | erase
  | checkErased
  | program
  | verify
  | unknown
  | address
  | vendor
deriving DecidableEq, Repr

/-- The error code that a memory failure is reported with. -/
def MemoryFault.code : MemoryFault → ErrorCode
  | target => .target
  | file => .file
  | write => .write
  | erase => .erase
  | checkErased => .checkErased
  | program => .program
  | verify => .verify
  | unknown => .unknown
  | address => .address
  | vendor => .vendor

/-- A failure of the manifestation. -/
inductive ManifestFault
  | target
  | file
  | notDone
  | firmware
  | vendor
  | unknown
deriving DecidableEq, Repr

/-- The error code that a failed manifestation is reported with. -/
def ManifestFault.code : ManifestFault → ErrorCode
  | target => .target
  | file => .file
  | notDone => .notDone
  | firmware => .firmware
  | vendor => .vendor
  | unknown => .unknown

end Dfu

end FirmwareUpdate
