/-
A bootloader on its board, and its answers to the requests of the protocol.
-/
import FirmwareUpdate.Dfu.Session

namespace FirmwareUpdate

namespace Dfu

/-- A bootloader on its board. -/
structure Device where
  setup : Setup
  session : Session
  board : Board

/-- How a request ends on the bus; `text` is the reply to a request for a string, and
`done` stands where there was no request. -/
inductive Answer
  | accepted
  | reply (data : Bytes)
  | text (string : String)
  | stalled
  | ignored
  | done
deriving DecidableEq, Repr

/-- The device after a request, the answer, and the calls to the board in order. -/
structure Outcome where
  device : Device
  answer : Answer
  calls : List Call := []

namespace Device

/-- A device that has just been started. -/
def start (setup : Setup) (cipher : Cipher) (board : Board) : Device :=
  ⟨setup, Session.initial setup cipher, board⟩

/-- The device with another session. -/
def withSession (d : Device) (s : Session) : Device :=
  { d with session := s }

/-- The device in another phase. -/
def inPhase (d : Device) (phase : Phase) : Device :=
  d.withSession { d.session with phase := phase }

/-- The device back in idle. -/
def restart (d : Device) : Device :=
  d.withSession (d.session.restart d.setup)

/-- Stall a request that does not fit; the device is in error afterwards. -/
def refuse (d : Device) : Outcome :=
  ⟨d.inPhase (.error .stalledPacket), .stalled, []⟩

/-- Arm the detach: the next bus reset leaves the bootloader. -/
def detach (d : Device) : Outcome :=
  if d.setup.profile.detaches then
    ⟨d.withSession { d.session with detachArmed := true }, .accepted, []⟩
  else d.refuse

/-- Leave the error state. -/
def clearStatus (d : Device) : Outcome :=
  if d.session.phase.stage = .error then ⟨d.restart, .accepted, []⟩ else d.refuse

/-- Break off a transfer. -/
def abort (d : Device) : Outcome :=
  if d.session.phase.takesAbort then ⟨d.restart, .accepted, []⟩ else d.refuse

/-- The phase that follows a programmed block. -/
def programmedPhase (d : Device) : Phase :=
  if d.setup.profile.syncs then .downloadSync else .downloadIdle

/-- Program the decrypted block of `count` bytes in the buffer behind the blocks
before it.  The request has been acknowledged by then, so a failure shows in the
state alone. -/
def programBlock (d : Device) (count : Nat) : Outcome :=
  let s := d.session
  let plain := s.buffer.front count
  let call := Call.program s.target s.address plain
  match d.board.program s.target s.address plain with
  | .error fault => ⟨d.inPhase (.error fault.code), .accepted, [call]⟩
  | .ok board =>
      let d := { d with session := s.advance count, board := board }
      ⟨d.inPhase d.programmedPhase, .accepted, [call]⟩

/-- Take in a block of a download; an empty one ends it.  A block that is too long
for a transfer is refused; one that passes the end of the region or does not
fill the blocks of the cipher is acknowledged and leads to an error. -/
def download (d : Device) (data : Bytes) : Outcome :=
  let s := d.session
  if !s.phase.takesDownload then d.refuse
  else if data.isEmpty then ⟨d.inPhase .manifestSync, .accepted, []⟩
  else if d.setup.profile.transferSize.toNat < data.length then d.refuse
  else if s.remaining < data.length then ⟨d.inPhase (.error .address), .accepted, []⟩
  else
    let s := s.loaded data
    match s.cipher.decrypt (s.buffer.front data.length) with
    | .error _ => ⟨(d.withSession s).inPhase (.error .file), .accepted, []⟩
    | .ok (plain, cipher) =>
        (d.withSession (s.received plain cipher)).programBlock data.length

/-- Read the next `count` bytes of the region; for none the board is not asked. -/
def fetch (d : Device) (count : Nat) : Except MemoryFault Bytes :=
  if count = 0 then .ok [] else d.board.read d.session.address count

/-- The calls that `fetch` makes. -/
def fetchCalls (d : Device) (count : Nat) : List Call :=
  if count = 0 then [] else [.read d.session.address count]

/-- Send a frame: read its part of the region, add its part of the checksum and
the padding, and encrypt all of it. -/
def sendFrame (d : Device) (frame : Frame) : Outcome :=
  let calls := d.fetchCalls frame.data
  match d.fetch frame.data with
  | .error fault => ⟨d.inPhase (.error fault.code), .stalled, calls⟩
  | .ok data =>
      let s := d.session.framed frame data
      match s.cipher.encrypt (s.buffer.front frame.size) with
      | .error _ => ⟨(d.withSession s).inPhase (.error .file), .stalled, calls⟩
      | .ok (secret, cipher) =>
          let s := s.sent frame secret cipher
          ⟨d.withSession s, .reply (s.buffer.front frame.size), calls⟩

/-- Answer a request for at most `length` bytes of an upload.  An empty reply ends
the upload; a request too small for one block of the cipher is refused. -/
def upload (d : Device) (length : Nat) : Outcome :=
  let s := d.session
  if !d.setup.profile.uploads || !s.phase.takesUpload then d.refuse
  else if s.remaining = 0 ∧ s.trailerWidth = 0 then ⟨d.restart, .reply [], []⟩
  else
    let limit := min length d.setup.profile.transferSize.toNat
    let frame := Frame.plan s.cipher.blockSize limit s.remaining s.trailerWidth
    if frame.size = 0 then d.refuse else d.sendFrame frame

/-- Report the state byte. -/
def getState (d : Device) (length : Nat) : Outcome :=
  if length = 0 then d.refuse else ⟨d, .reply [d.session.phase.state], []⟩

/-- Report the status and state as they are, then go on: a synchronised download
waits for its next block, and a finished one is manifested. -/
def getStatus (d : Device) (length : Nat) : Outcome :=
  if length < 6 || !d.session.phase.takesStatus then d.refuse
  else
    let report := d.session.report d.setup
    match d.session.phase.stage with
    | .downloadSync => ⟨d.inPhase .downloadIdle, .reply report, []⟩
    | .manifestSync =>
        let calls := [Call.manifest d.session.checkedLength]
        match d.board.manifest with
        | some fault => ⟨d.inPhase (.error fault.code), .reply report, calls⟩
        | none =>
            let d := d.restart
            ⟨d.withSession { d.session with manifested := true }, .reply report, calls⟩
    | _ => ⟨d, .reply report, []⟩

/-- The bus was reset.  An armed detach, or a manifestation with the device idle
since, leaves the bootloader; an interrupted transfer is an error. -/
def busReset (d : Device) : Outcome :=
  let s := d.session
  let leaves := s.detachArmed || (s.manifested && s.phase.stage == .idle)
  let s := if leaves then { s with detachArmed := false, manifested := false } else s
  let phase := if s.phase.interruptible then .error .usbReset else s.phase
  ⟨d.withSession { s with phase := phase }, .done, if leaves then [.busReset] else []⟩

/-- Select the memory of an alternate setting, if the setting is offered. -/
def select? (d : Device) (alternate : UInt8) : Option Device :=
  (d.setup.target? alternate).map fun target =>
    (d.withSession { d.session with target := target }).restart

end Device

end Dfu

end FirmwareUpdate
