/-
The state of a bootloader between requests, and the plan of an upload frame.  A
session starts at the first address of the selected region with a fresh cipher,
a fresh scanner and a fresh checksum.
-/
import FirmwareUpdate.Checksum.Scanner
import FirmwareUpdate.Cipher
import FirmwareUpdate.Dfu.Profile

namespace FirmwareUpdate

namespace Dfu

/-- What one upload reply is made of: bytes of the region, then bytes of the
checksum, then zeros up to its size. -/
structure Frame where
  data : Nat
  trailer : Nat
  size : Nat
deriving DecidableEq, Repr

/-- The next frame.  If all that is left, with the checksum, fits in whole blocks,
it is sent at once; else as many whole blocks of the region as fit. -/
def Frame.plan (block limit remaining width : Nat) : Frame :=
  let last := Bytes.roundUp (remaining + width) block
  if last ≤ limit then ⟨remaining, width, last⟩
  else
    let fits := min limit remaining
    let whole := fits - fits % block
    ⟨whole, 0, whole⟩

/-- What a bootloader remembers between requests.  The blocks of a transfer pass
through the front of the buffer; what lies behind them there is left over from
earlier transfers. -/
structure Session where
  phase : Phase
  target : Target
  address : UInt32
  remaining : Nat
  detachArmed : Bool
  manifested : Bool
  cipher : Cipher
  scanner : Option Scanner
  uploadSum : Option Checksum
  trailerSent : Bool
  buffer : Block Defaults.maxTransferSize

namespace Session

/-- Back to idle, at the start of the selected region.  An armed detach and a
finished manifestation are remembered. -/
def restart (setup : Setup) (s : Session) : Session :=
  let region := setup.region s.target
  { s with
    phase := .idle
    address := region.start
    remaining := region.length.toNat
    cipher := s.cipher.reset
    scanner := s.scanner.map Scanner.reset
    uploadSum := setup.profile.checksum.map Checksum.start
    trailerSent := false }

/-- The first session of a bootloader, on the flash. -/
def initial (setup : Setup) (cipher : Cipher) : Session :=
  restart setup
    { phase := .idle
      target := .flash
      address := 0
      remaining := 0
      detachArmed := false
      manifested := false
      cipher := cipher
      scanner := setup.profile.checksum.map Scanner.start
      uploadSum := none
      trailerSent := false
      buffer := Block.zero Defaults.maxTransferSize }

/-- The payload length that the scanner has found; a match before the first byte
does not count. -/
def checkedLength (s : Session) : Option Nat :=
  (s.scanner.bind Scanner.found).filter (0 < ·)

/-- The number of checksum bytes that an upload still has to send. -/
def trailerWidth (s : Session) : Nat :=
  match s.uploadSum with
  | some sum => if s.trailerSent then 0 else sum.kind.width
  | none => 0

/-- The session with a block of a download at the front of the buffer. -/
def loaded (s : Session) (data : Bytes) : Session :=
  { s with buffer := s.buffer.write 0 data }

/-- The session after the block in the buffer was decrypted in its place and taken
in by cipher and scanner. -/
def received (s : Session) (plain : Bytes) (cipher : Cipher) : Session :=
  let buffer := s.buffer.write 0 plain
  { s with
    cipher := cipher
    buffer := buffer
    scanner := s.scanner.map (·.update (buffer.front plain.length)) }

/-- The session with the pointer `count` bytes further on. -/
def advance (s : Session) (count : Nat) : Session :=
  { s with
    address := s.address + UInt32.ofNat count
    remaining := s.remaining - count }

/-- The session with a frame in the buffer: the bytes of the region, which enter the
checksum of the upload, then the first bytes of that checksum, and zeros. -/
def framed (s : Session) (frame : Frame) (data : Bytes) : Session :=
  let buffer := s.buffer.write 0 data
  let sum := s.uploadSum.map (·.update (buffer.front frame.data))
  let trailer := sum.elim [] fun sum => sum.trailer.take frame.trailer
  let stop := frame.data + trailer.length
  { s with
    uploadSum := sum
    trailerSent := s.trailerSent || 0 < frame.trailer
    buffer := (buffer.write frame.data trailer).write stop
      (List.replicate (frame.size - stop) 0) }

/-- The session after the frame in the buffer was encrypted in its place. -/
def sent (s : Session) (frame : Frame) (secret : Bytes) (cipher : Cipher) : Session :=
  { s.advance frame.data with
    phase := .uploadIdle
    cipher := cipher
    buffer := s.buffer.write 0 secret }

/-- The six bytes of a status report. -/
def report (setup : Setup) (s : Session) : Bytes :=
  let poll := Bytes.ofNatLE 3 setup.profile.pollTimeout.toNat
  [s.phase.status] ++ poll ++ [s.phase.state, 0]

end Session

end Dfu

end FirmwareUpdate
