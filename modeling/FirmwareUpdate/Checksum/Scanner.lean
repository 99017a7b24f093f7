/-
The search for a stored checksum in a stream.  The scanner keeps a window as wide
as the checksum; bytes that leave the window enter the running checksum.
-/
import FirmwareUpdate.Checksum

namespace FirmwareUpdate

/-- The state of the search. -/
structure Scanner where
  running : Checksum
  passed : Nat
  window : Bytes
  found : Option Nat

namespace Scanner

/-- The search before the first byte. -/
def start (kind : ChecksumKind) : Scanner :=
  ⟨Checksum.start kind, 0, [], none⟩

/-- Take in one byte.  A full window either holds the checksum of the bytes that
left it, which ends the search, or loses its first byte. -/
def push (s : Scanner) (b : UInt8) : Scanner :=
  if s.found.isSome then s
  else
    let window := s.window ++ [b]
    if window.length < s.running.kind.width then { s with window := window }
    else if s.running.matchesFront window then
      { s with window := window, found := some s.passed }
    else
      match window with
      | [] => s
      | first :: rest =>
          { s with running := s.running.push first, passed := s.passed + 1, window := rest }

/-- Take in a string. -/
def update (s : Scanner) (data : Bytes) : Scanner :=
  data.foldl push s

/-- The search from its beginning, with the same algorithm. -/
def reset (s : Scanner) : Scanner :=
  start s.running.kind

theorem update_append (s : Scanner) (x y : Bytes) :
    s.update (x ++ y) = (s.update x).update y :=
  List.foldl_append

end Scanner

end FirmwareUpdate
