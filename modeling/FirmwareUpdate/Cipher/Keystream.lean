/-
Running keystream generators.  A generator gives its bytes one at a time, so
what it does to a string depends on its position alone.
-/
import FirmwareUpdate.Thread
import FirmwareUpdate.Cipher.Arcfour
import FirmwareUpdate.Cipher.ChaCha20

namespace FirmwareUpdate

/-- A running keystream generator. -/
inductive Keystream
  | arcfour (state : Arcfour)
  | chacha20 (state : ChaCha20)

namespace Keystream

/-- The next byte. -/
def next : Keystream → UInt8 × Keystream
  | arcfour s => let n := s.next; (n.1, arcfour n.2)
  | chacha20 s => let n := s.next; (n.1, chacha20 n.2)

/-- Mask a string with the bytes that come next. -/
def mask (k : Keystream) (data : Bytes) : Bytes × Keystream :=
  thread (fun k b => let n := next k; (b ^^^ n.1, n.2)) k data

end Keystream

end FirmwareUpdate
