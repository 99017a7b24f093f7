/-
Operations that can halt the program.  A sum that does not fit a count, a difference below zero,
a division by zero, a range outside of its buffer and a keystream that has come to its end give
nothing here; a lemma beside each tells when there is a result, and that it is the one that the
total operation gives.
-/
import FirmwareUpdate.Proofs.Chaining
import FirmwareUpdate.Proofs.ScannerWindow

namespace FirmwareUpdate

namespace Count

variable {x y : Nat}

/-- A sum that fits 64 bits. -/
def add? (x y : Nat) : Option Nat :=
  if x + y < Trailer.lengthLimit then some (x + y) else none

/-- A difference that is not below zero. -/
def sub? (x y : Nat) : Option Nat :=
  if y ≤ x then some (x - y) else none

/-- A product that fits 64 bits. -/
def mul? (x y : Nat) : Option Nat :=
  if x * y < Trailer.lengthLimit then some (x * y) else none

/-- A quotient by a divisor that is not zero. -/
def div? (x y : Nat) : Option Nat :=
  if 0 < y then some (x / y) else none

/-- What is left by a divisor that is not zero. -/
def mod? (x y : Nat) : Option Nat :=
  if 0 < y then some (x % y) else none

/-- A count as a number of 32 bits; higher bits are lost without notice. -/
def narrow (x : Nat) : Nat :=
  (UInt32.ofNat x).toNat

theorem add?_eq (h : x + y < Trailer.lengthLimit) : add? x y = some (x + y) :=
  if_pos h

theorem sub?_eq (h : y ≤ x) : sub? x y = some (x - y) :=
  if_pos h

theorem mul?_eq (h : x * y < Trailer.lengthLimit) : mul? x y = some (x * y) :=
  if_pos h

theorem div?_eq (h : 0 < y) : div? x y = some (x / y) :=
  if_pos h

theorem mod?_eq (h : 0 < y) : mod? x y = some (x % y) :=
  if_pos h

theorem narrow_eq (h : x < 0x100000000) : narrow x = x :=
  UInt32.toNat_ofNat_of_lt' h

end Count

/-- The first bytes of a string that has so many. -/
def Bytes.front? (b : Bytes) (count : Nat) : Option Bytes :=
  if count ≤ b.length then some (b.take count) else none

theorem Bytes.front?_eq {b : Bytes} {count : Nat} (h : count ≤ b.length) :
    b.front? count = some (b.take count) :=
  if_pos h

/-- The first bytes of a checksum as it is stored. -/
def Checksum.stored? (sum : Checksum) (count : Nat) : Option Bytes :=
  (Bytes.ofNatLE Defaults.maxChecksumWidth sum.value).front? count

theorem Checksum.stored?_eq {sum : Checksum} {count : Nat} (h : count ≤ sum.kind.width) :
    sum.stored? count = some (sum.trailer.take count) := by
  have hwidth := Defaults.width_le sum.kind
  have hlength : count ≤ (Bytes.ofNatLE Defaults.maxChecksumWidth sum.value).length := by
    rw [Bytes.length_ofNatLE]
    omega
  rw [stored?, Bytes.front?_eq hlength, trailer, Bytes.take_ofNatLE, Bytes.take_ofNatLE,
    Nat.min_eq_left h, Nat.min_eq_left (Nat.le_trans h hwidth)]

namespace Block

variable {n count start stop : Nat}

/-- The first bytes of a block that has so many. -/
def front? (b : Block n) (count : Nat) : Option Bytes :=
  if count ≤ n then some (b.front count) else none

/-- The block with a range written over by a string of the same length. -/
def copy? (b : Block n) (start stop : Nat) (data : Bytes) : Option (Block n) :=
  if start ≤ stop ∧ stop ≤ n ∧ data.length = stop - start then some (b.write start data) else none

theorem front?_eq (b : Block n) (h : count ≤ n) : b.front? count = some (b.front count) :=
  if_pos h

theorem copy?_eq (b : Block n) {data : Bytes} (hstart : start ≤ stop) (hstop : stop ≤ n)
    (hdata : data.length = stop - start) : b.copy? start stop data = some (b.write start data) :=
  if_pos ⟨hstart, hstop, hdata⟩

theorem copy?_zero_eq (b : Block n) {data : Bytes} (hdata : data.length = count) (h : count ≤ n) :
    b.copy? 0 count data = some (b.write 0 data) :=
  b.copy?_eq (Nat.zero_le _) h hdata

/-- What was copied to the front is read from there. -/
theorem front?_write_zero (b : Block n) {data : Bytes} (hdata : data.length = count)
    (h : count ≤ n) : (b.write 0 data).front? count = some data := by
  subst hdata
  rw [front?_eq _ h, front_write_zero _ _ h]

end Block

namespace Scanner

/-- Take in one byte: the window has room for it, the checksum is no longer than the window, and
the place is counted. -/
def push? (s : Scanner) (b : UInt8) : Option Scanner :=
  let width := s.running.kind.width
  if s.found.isSome then some s
  else if Defaults.maxChecksumWidth ≤ s.window.length then none
  else if (s.window ++ [b]).length < width then some (s.push b)
  else if Defaults.maxChecksumWidth < width then none
  else if s.running.matchesFront (s.window ++ [b]) then some (s.push b)
  else (Count.add? s.passed 1).map fun _ => s.push b

/-- Take in a string. -/
def update? (s : Scanner) (data : Bytes) : Option Scanner :=
  data.foldlM push? s

variable {kind : ChecksumKind} {seen data : Bytes} {s : Scanner}

theorem push?_of_stopped (h : s.Stopped kind seen) (b : UInt8) : s.push? b = some (s.push b) := by
  have hfound : s.found.isSome = true := by rw [h.found]; rfl
  simp only [push?, push, hfound, ↓reduceIte]

theorem push?_of_searching (h : s.Searching kind seen)
    (hroom : seen.length + 1 < Trailer.lengthLimit) (b : UInt8) :
    s.push? b = some (s.push b) := by
  have hwidth := Defaults.width_le kind
  have hshort := h.short
  have hcount := h.count
  have hfound : s.found.isSome = false := by rw [h.found]; rfl
  have hwindow : ¬ Defaults.maxChecksumWidth ≤ s.window.length := by omega
  have hpassed : Count.add? s.passed 1 = some (s.passed + 1) := Count.add?_eq (by omega)
  simp only [push?, hfound, hwindow, h.kind_running, Nat.not_lt.mpr hwidth, hpassed,
    Bool.false_eq_true, Option.map_some, ↓reduceIte, ite_self]

/-- A scan does not halt as long as its place can be counted. -/
theorem update?_eq (h : s.Searching kind seen ∨ s.Stopped kind seen)
    (hroom : seen.length + data.length < Trailer.lengthLimit) :
    s.update? data = some (s.update data) := by
  induction data generalizing s seen with
  | nil => rfl
  | cons b rest ih =>
      rw [List.length_cons] at hroom
      have hpush : s.push? b = some (s.push b) := by
        rcases h with hsearching | hstopped
        · exact push?_of_searching hsearching (by omega) b
        · exact push?_of_stopped hstopped b
      have hnext : (s.push b).Searching kind (seen ++ [b]) ∨
          (s.push b).Stopped kind (seen ++ [b]) := by
        rcases h with hsearching | hstopped
        · exact hsearching.push b
        · exact .inr (hstopped.append [b])
      have hlength : (seen ++ [b]).length + rest.length < Trailer.lengthLimit := by
        rw [List.length_append, List.length_singleton]
        omega
      calc s.update? (b :: rest) = (s.push? b).bind fun s => s.update? rest := List.foldlM_cons
        _ = (s.push b).update? rest := by rw [hpush]; rfl
        _ = some (s.update (b :: rest)) := ih hnext hlength

end Scanner

namespace ChaCha20

/-- The number of keystream bytes up to the last block that the counter can tell. -/
def left (s : ChaCha20) : Nat :=
  s.pending.length + 64 * (0xFFFFFFFF - s.counter.toNat)

theorem length_block (key nonce : Bytes) (counter : UInt32) :
    (block key nonce counter).length = 64 := by
  simp only [block, List.length_flatMap, Word.length_toBytesLE, List.map_const',
    List.sum_replicate_nat, Vector.length_toList]

theorem left_next {s : ChaCha20} {count : Nat} (h : count + 1 ≤ s.left) :
    count ≤ s.next.2.left := by
  obtain ⟨key, nonce, counter, pending⟩ := s
  cases pending with
  | cons b rest =>
      simp only [left, List.length_cons] at h
      simp only [next, left]
      omega
  | nil =>
      have hcounter : (counter + 1).toNat = (counter.toNat + 1) % 0x100000000 := UInt32.toNat_add _ _
      simp only [left, List.length_nil] at h
      simp only [next, left, List.length_drop, length_block, hcounter]
      omega

end ChaCha20

namespace Keystream

/-- Whether a keystream has so many bytes before its end; one of ARCFOUR has none. -/
def Lasts : Keystream → Nat → Prop
  | arcfour _, _ => True
  | chacha20 s, count => count ≤ s.left

instance (k : Keystream) (count : Nat) : Decidable (k.Lasts count) :=
  match k with
  | arcfour _ => inferInstanceAs (Decidable True)
  | chacha20 s => inferInstanceAs (Decidable (count ≤ s.left))

/-- Mask a string, if the keystream lasts. -/
def mask? (k : Keystream) (data : Bytes) : Option (Bytes × Keystream) :=
  if k.Lasts data.length then some (k.mask data) else none

variable {k : Keystream} {count more : Nat}

theorem Lasts.mono (h : k.Lasts more) (hle : count ≤ more) : k.Lasts count := by
  cases k with
  | arcfour s => trivial
  | chacha20 s => exact Nat.le_trans hle h

theorem Lasts.next (h : k.Lasts (count + 1)) : k.next.2.Lasts count := by
  cases k with
  | arcfour s => trivial
  | chacha20 s => exact ChaCha20.left_next h

/-- What a string takes off a keystream is its length. -/
theorem Lasts.mask {data : Bytes} (h : k.Lasts (data.length + more)) :
    (k.mask data).2.Lasts more := by
  induction data generalizing k with
  | nil =>
      rw [List.length_nil, Nat.zero_add] at h
      exact h
  | cons b rest ih =>
      have hnext : k.next.2.Lasts (rest.length + more) := by
        apply Lasts.next
        rwa [List.length_cons, Nat.add_right_comm] at h
      have hcons : (k.mask (b :: rest)).2 = (k.next.2.mask rest).2 := by
        rw [Keystream.mask, thread_cons]
        rfl
      rw [hcons]
      exact ih hnext

end Keystream

namespace Cipher

/-- Whether so many bytes can be sent before a cipher comes to the end of its keystream. -/
def Lasts (c : Cipher) (count : Nat) : Prop :=
  match c.engine with
  | .stream _ now => now.Lasts count
  | _ => True

/-- Send data through: the length is divided by that of a block, the register of a chain is no
longer than its array, and a keystream lasts. -/
def send? (c : Cipher) (direction : Direction) (data : Bytes) :
    Option (Except CipherError (Bytes × Cipher)) :=
  match c.engine with
  | .plain => some (.ok (data, c))
  | .chain chain => do
      let rest ← Count.mod? data.length chain.cipher.size
      if rest ≠ 0 then some (.error .unalignedLength)
      else if Defaults.maxBlockSize < chain.cipher.size then none
      else
        let result := chain.run direction data
        some (.ok (result.1, { c with engine := .chain result.2 }))
  | .stream start now => do
      let result ← now.mask? data
      some (.ok (result.1, { c with engine := .stream start result.2 }))

/-- Start again: a stream cipher is made anew of what is kept of its key and nonce. -/
def reset? (c : Cipher) : Option Cipher :=
  match c.engine with
  | .stream _ _ =>
      if Defaults.maxKeySize < c.kind.keySize ∨ Defaults.maxNonceSize < c.kind.nonceSize c.mode
      then none else some c.reset
  | _ => some c.reset

variable {c c₁ : Cipher} {direction : Direction} {data out : Bytes} {count more : Nat}

theorem Lasts.mono (h : c.Lasts more) (hle : count ≤ more) : c.Lasts count := by
  obtain ⟨kind, mode, engine⟩ := c
  cases engine with
  | stream start now => exact Keystream.Lasts.mono h hle
  | _ => trivial

theorem Lasts.apply (h : c.Lasts (data.length + more))
    (hsent : c.apply direction data = .ok (out, c₁)) : c₁.Lasts more := by
  have hnext : (c.sent direction data).2 = c₁ := congrArg Prod.snd (apply_eq_ok_iff.mp hsent).2
  rw [← hnext]
  obtain ⟨kind, mode, engine⟩ := c
  cases engine with
  | stream start now => exact Keystream.Lasts.mask h
  | _ => trivial

/-- A new cipher lasts for more than any memory with addresses of 32 bits holds. -/
theorem lasts_of_make {kind : CipherKind} {mode : ChainMode} {key nonce : Bytes}
    (hmake : make kind mode key nonce = .ok c) (h : count ≤ 64 * 0xFFFFFFFE) :
    c.Lasts count := by
  obtain ⟨-, rfl⟩ := make_eq_ok_iff.mp hmake
  cases kind with
  | plain => trivial
  | block p => trivial
  | stream s =>
      cases s with
      | arcfour => trivial
      | chacha20 =>
          have hcounter : (1 : UInt32).toNat = 1 := rfl
          simp only [Lasts, fresh, firstByte, Keystream.Lasts, ChaCha20.left, ChaCha20.ofKey,
            List.length_nil, hcounter]
          omega

theorem send?_eq (hblock : c.blockSize ≤ Defaults.maxBlockSize) (h : c.Lasts data.length)
    (direction : Direction) : c.send? direction data = some (c.apply direction data) := by
  obtain ⟨kind, mode, engine⟩ := c
  cases engine with
  | plain => rfl
  | chain chain =>
      have hsize : ¬ Defaults.maxBlockSize < chain.cipher.size := Nat.not_lt.mpr hblock
      have hrest := Count.mod?_eq (x := data.length) chain.cipher.size_pos
      by_cases hfit : data.length % chain.cipher.size = 0
      · simp [send?, apply, hrest, hfit, hsize]
      · simp [send?, apply, hrest, hfit]
  | stream start now =>
      have hmask : now.mask? data = some (now.mask data) := if_pos h
      simp [send?, apply, hmask]

theorem reset?_eq (c : Cipher) : c.reset? = some c.reset := by
  have hfits : ¬ (Defaults.maxKeySize < c.kind.keySize ∨
      Defaults.maxNonceSize < c.kind.nonceSize c.mode) := by
    have hkey := Defaults.keySize_le c.kind
    have hnonce := Defaults.nonceSize_le c.kind c.mode
    omega
  unfold reset?
  split
  · exact if_neg hfits
  · rfl

end Cipher

end FirmwareUpdate
