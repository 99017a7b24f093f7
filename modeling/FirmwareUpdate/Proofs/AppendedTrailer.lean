/-
A trailer written into a buffer.  It goes behind the payload or nowhere, touches no other byte,
and is found again by both searches whatever bytes follow it, although these may well hold
further matches: zeros behind a CRC do.
-/
import FirmwareUpdate.Proofs.ScannerWindow

namespace FirmwareUpdate

namespace Trailer

variable {kind : ChecksumKind} {buffer after : Bytes} {len stop p : Nat}

/-- What a buffer holds after the trailer of its first `len` bytes was to be written into it. -/
def bufferAfter (kind : ChecksumKind) (buffer : Bytes) (len : Nat) : Bytes :=
  ((append kind buffer len).map Prod.snd).getD buffer

theorem append_eq_none_iff :
    append kind buffer len = none ↔
      lengthLimit ≤ len + kind.width ∨ buffer.length < len + kind.width := by
  by_cases hfits : len + kind.width < lengthLimit ∧ len + kind.width ≤ buffer.length
  · simp only [append, hfits, and_self, ↓reduceIte]
    simp
    omega
  · simp only [append, hfits, ↓reduceIte, true_iff]
    omega

theorem append_eq_some_iff :
    append kind buffer len = some (stop, after) ↔
      stop = len + kind.width ∧ stop < lengthLimit ∧ stop ≤ buffer.length ∧
        after = buffer.take len ++ (Checksum.ofBytes kind (buffer.take len)).trailer ++
          buffer.drop stop := by
  by_cases hfits : len + kind.width < lengthLimit ∧ len + kind.width ≤ buffer.length
  · simp only [append, hfits, and_self, ↓reduceIte, Option.some.injEq, Prod.mk.injEq]
    constructor
    · rintro ⟨rfl, rfl⟩
      exact ⟨rfl, hfits.1, hfits.2, rfl⟩
    · rintro ⟨rfl, -, -, rfl⟩
      exact ⟨rfl, rfl⟩
  · simp only [append, hfits, ↓reduceIte]
    constructor
    · intro h
      cases h
    · rintro ⟨rfl, hlimit, hroom, -⟩
      exact absurd ⟨hlimit, hroom⟩ hfits

section Written

variable (h : append kind buffer len = some (stop, after))
include h

theorem length_payload_of_append : (buffer.take len).length = len := by
  obtain ⟨rfl, -, hroom, -⟩ := append_eq_some_iff.mp h
  rw [List.length_take]
  omega

theorem length_signed_of_append :
    (buffer.take len ++ (Checksum.ofBytes kind (buffer.take len)).trailer).length = stop := by
  rw [List.length_append, length_payload_of_append h, Checksum.length_trailer,
    Checksum.kind_ofBytes, (append_eq_some_iff.mp h).1]

/-- The front of the buffer is the payload and its trailer. -/
theorem take_of_append :
    after.take stop =
      buffer.take len ++ (Checksum.ofBytes kind (buffer.take len)).trailer := by
  obtain ⟨-, -, -, rfl⟩ := append_eq_some_iff.mp h
  exact List.take_left' (length_signed_of_append h)

/-- The trailer stands right behind the payload. -/
theorem trailer_of_append :
    (after.drop len).take kind.width =
      (Checksum.ofBytes kind (buffer.take len)).trailer := by
  have hstop : kind.width = stop - len := by
    rw [(append_eq_some_iff.mp h).1, Nat.add_sub_cancel_left]
  rw [hstop, ← List.drop_take, take_of_append h]
  exact List.drop_left' (length_payload_of_append h)

/-- No byte outside the trailer is touched. -/
theorem getElem?_of_append {i : Nat} (hi : i < len ∨ stop ≤ i) : after[i]? = buffer[i]? := by
  have hpayload := length_payload_of_append h
  have hsigned := length_signed_of_append h
  obtain ⟨-, -, -, rfl⟩ := append_eq_some_iff.mp h
  rcases hi with hbefore | hbehind
  · rw [List.append_assoc, List.getElem?_append_left (hpayload.symm ▸ hbefore),
      List.getElem?_take_of_lt hbefore]
  · rw [List.getElem?_append_right (hsigned.symm ▸ hbehind), hsigned, List.getElem?_drop,
      Nat.add_sub_cancel' hbehind]

theorem length_of_append : after.length = buffer.length := by
  obtain ⟨-, -, hroom, hafter⟩ := append_eq_some_iff.mp h
  rw [hafter, List.length_append, length_signed_of_append h, List.length_drop,
    Nat.add_sub_cancel' hroom]

/-- Somewhere up to the trailer a match is found first, and bytes behind the trailer do not
change where. -/
theorem exists_find?_of_append :
    ∃ p ≤ len, ∀ rest, find? kind (after.take stop ++ rest) = some p := by
  obtain ⟨p, hp, hfind⟩ := exists_find?_append_trailer kind (buffer.take len)
  rw [← take_of_append h] at hfind
  rw [length_payload_of_append h] at hp
  exact ⟨p, hp, find?_append hfind⟩

end Written

/-- A trailer is refused exactly if the lengths do not fit, and then the buffer stays.  Else
only its own bytes change, and whatever follows them, the search through the whole and the
scan of any pieces of it give the first place at which a checksum is stored; there is one, at
the latest the one that was written. -/
theorem append_outcome (kind : ChecksumKind) (buffer : Bytes) (len : Nat) :
    (append kind buffer len = none ↔
      lengthLimit ≤ len + kind.width ∨ buffer.length < len + kind.width) ∧
    (append kind buffer len = none → bufferAfter kind buffer len = buffer) ∧
    ∀ stop after, append kind buffer len = some (stop, after) →
      stop = len + kind.width ∧ bufferAfter kind buffer len = after ∧
      after.length = buffer.length ∧ (∀ i, i < len ∨ stop ≤ i → after[i]? = buffer[i]?) ∧
      (after.drop len).take kind.width = (Checksum.ofBytes kind (buffer.take len)).trailer ∧
      ∃ p ≤ len, ∀ rest,
        let data := after.take stop ++ rest
        StoredAt kind data p ∧ (∀ q < p, ¬ StoredAt kind data q) ∧
          payloadLength kind data = p ∧
          ∀ s, Scanner.Fresh kind s → ∀ pieces : List Bytes, pieces.flatten = data →
            (pieces.foldl Scanner.update s).found = some p := by
  refine ⟨append_eq_none_iff, ?_, ?_⟩
  · intro hnone
    rw [bufferAfter, hnone]
    rfl
  · intro stop after h
    have hafter : bufferAfter kind buffer len = after := by
      rw [bufferAfter, h]
      rfl
    obtain ⟨p, hp, hfind⟩ := exists_find?_of_append h
    refine ⟨(append_eq_some_iff.mp h).1, hafter, length_of_append h,
      fun i => getElem?_of_append h, trailer_of_append h, p, hp, ?_⟩
    intro rest data
    obtain ⟨hstored, hleast⟩ := find?_eq_some_iff.mp (hfind rest)
    refine ⟨hstored, hleast, payloadLength_of_find? (hfind rest), ?_⟩
    intro s hs pieces hpieces
    rw [hs.eq_start, Scanner.foldl_update, Scanner.found_update_start, hpieces]
    exact hfind rest

/-- A payload of eight bytes 0xFF starts with what is stored for no payload at all, so that is
found first, by both searches and whatever comes behind the trailer. -/
theorem append_outcome_of_early_match :
    let buffer : Bytes := List.replicate 14 0xFF
    ∃ after, append .crc32Small buffer 8 = some (12, after) ∧ after[13]? = some 0xFF ∧
      payloadLength .crc32Small (after.take 12 ++ [0, 0]) = 0 ∧
      ([after.take 3, after.drop 3].foldl Scanner.update (Scanner.start .crc32Small)).found =
        some 0 := by
  intro buffer
  let after := bufferAfter .crc32Small buffer 8
  have hafter : append .crc32Small buffer 8 = some (12, after) := rfl
  obtain ⟨-, -, -, hkept, -, p, -, hfound⟩ :=
    (append_outcome .crc32Small buffer 8).2.2 12 after hafter
  have hfront : StoredAt .crc32Small (after.take 12 ++ [0, 0]) 0 := by decide +kernel
  obtain ⟨-, hleast, hlength, -⟩ := hfound [0, 0]
  have hp : p = 0 := Nat.eq_zero_of_not_pos fun hpos => hleast 0 hpos hfront
  obtain ⟨-, -, -, hscan⟩ := hfound (after.drop 12)
  rw [hp] at hlength hscan
  refine ⟨after, hafter, (hkept 13 (.inr (by decide))).trans rfl, hlength, ?_⟩
  apply hscan _ .new
  rfl

end Trailer

end FirmwareUpdate
