/-
The state of a scan.  In whatever pieces a stream comes, the scanner holds its last bytes in the
window and the checksum of all bytes before them, until it finds the first place at which a
checksum is stored; then it stays as it is until it is reset.
-/
import FirmwareUpdate.Proofs.FirstMatch

namespace FirmwareUpdate

namespace Scanner

/-- A scanner that has taken in nothing: a new one, or one that was reset after any use. -/
inductive Fresh (kind : ChecksumKind) : Scanner → Prop
  | new : Fresh kind (start kind)
  | reset (used : Scanner) (h : used.running.kind = kind) : Fresh kind used.reset

/-- A scanner that has taken in `seen` and still searches. -/
structure Searching (kind : ChecksumKind) (seen : Bytes) (s : Scanner) : Prop where
  found : s.found = none
  running : s.running = Checksum.ofBytes kind (seen.take s.passed)
  window : s.window = seen.drop s.passed
  count : s.passed + s.window.length = seen.length
  short : s.window.length < kind.width

/-- A scanner that has found a place in `seen`; the window holds the checksum that is stored
there. -/
structure Stopped (kind : ChecksumKind) (seen : Bytes) (s : Scanner) : Prop where
  found : s.found = some s.passed
  running : s.running = Checksum.ofBytes kind (seen.take s.passed)
  window : s.window = (seen.drop s.passed).take kind.width
  room : s.passed + kind.width ≤ seen.length

variable {kind : ChecksumKind} {seen : Bytes} {s : Scanner}

theorem Fresh.eq_start (h : s.Fresh kind) : s = start kind := by
  cases h with
  | new => rfl
  | reset used hkind => rw [Scanner.reset, hkind]

/-- Pieces are taken in as the string that they make up. -/
theorem foldl_update (s : Scanner) (pieces : List Bytes) :
    pieces.foldl update s = s.update pieces.flatten := by
  induction pieces generalizing s with
  | nil => rfl
  | cons piece pieces ih => rw [List.foldl_cons, ih, List.flatten_cons, update_append]

namespace Searching

theorem nil (kind : ChecksumKind) : (start kind).Searching kind [] :=
  ⟨rfl, rfl, rfl, rfl, kind.width_pos⟩

theorem kind_running (h : s.Searching kind seen) : s.running.kind = kind := by
  rw [h.running, Checksum.kind_ofBytes]

/-- One more byte fills the window, is found to end a checksum there, or moves the window on. -/
theorem push (h : s.Searching kind seen) (b : UInt8) :
    (s.push b).Searching kind (seen ++ [b]) ∨ (s.push b).Stopped kind (seen ++ [b]) := by
  have hcount := h.count
  have hshort := h.short
  have hpassed : s.passed ≤ seen.length := by omega
  have hsome : s.found.isSome = false := by rw [h.found]; rfl
  have htake : (seen ++ [b]).take s.passed = seen.take s.passed :=
    List.take_append_of_le_length hpassed
  have hdrop : (seen ++ [b]).drop s.passed = s.window ++ [b] := by
    rw [List.drop_append_of_le_length hpassed, h.window]
  have hlength : (s.window ++ [b]).length = s.window.length + 1 := by simp
  have hseen : (seen ++ [b]).length = seen.length + 1 := by simp
  rw [Scanner.push, hsome, h.kind_running]
  by_cases hfill : (s.window ++ [b]).length < kind.width
  · -- the window takes the byte and is still not full
    simp only [hfill, ↓reduceIte, Bool.false_eq_true]
    left
    refine ⟨h.found, ?_, hdrop.symm, ?_, hfill⟩
    · rw [htake]
      exact h.running
    · simp only
      omega
  · simp only [hfill, ↓reduceIte, Bool.false_eq_true]
    by_cases hmatch : s.running.matchesFront (s.window ++ [b]) = true
    · rw [if_pos hmatch]
      right
      refine ⟨rfl, ?_, ?_, ?_⟩
      · rw [htake]
        exact h.running
      · rw [hdrop, List.take_of_length_le (by omega)]
      · simp only
        omega
    · rw [if_neg hmatch]
      left
      generalize hwindow : s.window ++ [b] = window at hdrop hlength
      cases window with
      | nil => simp at hlength
      | cons first rest =>
          rw [List.length_cons] at hlength
          refine ⟨h.found, ?_, ?_, ?_, ?_⟩
          · -- the byte that leaves the window enters the checksum
            simp only
            rw [List.take_add, htake, hdrop, h.running, Checksum.ofBytes, Checksum.ofBytes,
              Checksum.update_append]
            rfl
          · simp only
            rw [← List.drop_drop, hdrop]
            rfl
          · simp only
            omega
          · simp only
            omega

end Searching

/-- A match stays where it is, whatever follows. -/
theorem Stopped.append (h : s.Stopped kind seen) (more : Bytes) :
    (s.update more).Stopped kind (seen ++ more) := by
  have hroom := h.room
  have hpassed : s.passed ≤ seen.length := by omega
  rw [update_of_found (by rw [h.found]; rfl)]
  refine ⟨h.found, ?_, ?_, ?_⟩
  · rw [List.take_append_of_le_length hpassed, h.running]
  · rw [List.drop_append_of_le_length hpassed, List.take_append_of_le_length, h.window]
    rw [List.length_drop]
    omega
  · rw [List.length_append]
    omega

/-- What a scanner is after any more bytes. -/
theorem Searching.update (h : s.Searching kind seen) (more : Bytes) :
    (s.update more).Searching kind (seen ++ more) ∨
      (s.update more).Stopped kind (seen ++ more) := by
  induction more generalizing s seen with
  | nil =>
      rw [List.append_nil]
      exact .inl h
  | cons b more ih =>
      have hcons : s.update (b :: more) = (s.push b).update more := rfl
      have hseen : seen ++ b :: more = (seen ++ [b]) ++ more := by simp
      rw [hcons, hseen]
      rcases h.push b with hsearching | hstopped
      · exact ih hsearching
      · exact .inr (hstopped.append more)

/-- In whatever pieces a string comes, a fresh scanner finds the first place of it at which the
checksum of the bytes before is stored, as the search through the whole string does.  As long
as it has found none, the window holds the last bytes and the running checksum is that of all
bytes before them; once it has, nothing changes until it is reset. -/
theorem scan_of_pieces (hs : s.Fresh kind) (pieces : List Bytes) :
    let data := pieces.flatten
    let scanned := pieces.foldl update s
    (∀ p, scanned.found = some p ↔
      Trailer.StoredAt kind data p ∧ ∀ q < p, ¬ Trailer.StoredAt kind data q) ∧
    (scanned.found = none ↔ ∀ p, ¬ Trailer.StoredAt kind data p) ∧
    scanned.found.getD 0 = Trailer.payloadLength kind data ∧
    (scanned.found = none → scanned.Searching kind data) ∧
    (scanned.found ≠ none → scanned.Stopped kind data ∧
      ∀ more : List Bytes, more.foldl update scanned = scanned) ∧
    scanned.reset = start kind := by
  intro data scanned
  have hscanned : scanned = (start kind).update data := by
    rw [← hs.eq_start]
    exact foldl_update s pieces
  have hfound : scanned.found = Trailer.find? kind data := by
    rw [hscanned, found_update_start]
  have hstate := (Searching.nil kind).update data
  rw [List.nil_append, ← hscanned] at hstate
  refine ⟨?_, ?_, ?_, ?_, ?_, ?_⟩
  · intro p
    rw [hfound, Trailer.find?_eq_some_iff]
  · rw [hfound, Trailer.find?_eq_none_iff]
  · rw [hfound]
    rfl
  · intro hnone
    rcases hstate with hsearching | hstopped
    · exact hsearching
    · rw [hstopped.found] at hnone
      cases hnone
  · intro hfinds
    rcases hstate with hsearching | hstopped
    · exact absurd hsearching.found hfinds
    · refine ⟨hstopped, ?_⟩
      intro more
      rw [foldl_update, update_of_found (Option.isSome_iff_ne_none.mpr hfinds)]
  · have hkind : scanned.running.kind = kind := by
      rcases hstate with hsearching | hstopped
      · exact hsearching.kind_running
      · rw [hstopped.running, Checksum.kind_ofBytes]
    rw [Scanner.reset, hkind]

/-- A checksum that comes in three pieces, to a scanner that had found something before. -/
theorem scan_of_pieces_split_trailer :
    let used := (start .crc32Small).update [0xFF, 0xFF, 0xFF, 0xFF]
    let pieces : List Bytes := [[1, 228], [], [32, 250], [90, 7]]
    let scanned := pieces.foldl update used.reset
    used.found = some 0 ∧ used.reset.Fresh .crc32Small ∧ scanned.found = some 1 ∧
      Trailer.StoredAt .crc32Small pieces.flatten 1 ∧
      scanned.found.getD 0 = Trailer.payloadLength .crc32Small pieces.flatten := by
  intro used pieces scanned
  have hfresh : used.reset.Fresh .crc32Small := .reset used rfl
  have hone : scanned.found = some 1 := by decide +kernel
  obtain ⟨hfound, -, hlength, -⟩ := scan_of_pieces hfresh pieces
  exact ⟨by decide +kernel, hfresh, hone, ((hfound 1).mp hone).1, hlength⟩

end Scanner

end FirmwareUpdate
