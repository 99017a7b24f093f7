/-
The search for a stored checksum.  The scan of a whole string and the scan of a
stream through a window find the same place, the first one at which the checksum of
the bytes before it is stored; bytes behind that place do not matter.
-/
import FirmwareUpdate.Checksum.Scanner
import FirmwareUpdate.Checksum.Trailer

namespace FirmwareUpdate

namespace Checksum

theorem matchesFront_iff (sum : Checksum) (stored : Bytes) :
    sum.matchesFront stored = true ↔ sum.trailer <+: stored := by
  rw [matchesFront, beq_iff_eq, List.prefix_iff_eq_take, length_trailer]
  exact eq_comm

@[simp] theorem kind_ofBytes (kind : ChecksumKind) (data : Bytes) :
    (ofBytes kind data).kind = kind :=
  kind_update (start kind) data

/-- What follows a window of full width does not change the comparison. -/
theorem matchesFront_append (sum : Checksum) (window rest : Bytes)
    (h : sum.kind.width ≤ window.length) :
    sum.matchesFront (window ++ rest) = sum.matchesFront window := by
  rw [matchesFront, matchesFront, List.take_append_of_le_length h]

theorem not_matchesFront_of_length_lt (sum : Checksum) (stored : Bytes)
    (h : stored.length < sum.kind.width) : sum.matchesFront stored = false := by
  rw [Bool.eq_false_iff]
  intro hmatch
  have hle := ((matchesFront_iff sum stored).mp hmatch).length_le
  rw [length_trailer] at hle
  omega

end Checksum

namespace Trailer

/-- The checksum of the first `p` bytes of a string stands right behind them. -/
def StoredAt (kind : ChecksumKind) (data : Bytes) (p : Nat) : Prop :=
  (Checksum.ofBytes kind (data.take p)).trailer <+: data.drop p

instance (kind : ChecksumKind) (data : Bytes) (p : Nat) : Decidable (StoredAt kind data p) :=
  inferInstanceAs (Decidable (_ <+: _))

variable {kind : ChecksumKind} {data x y : Bytes} {p : Nat}

theorem StoredAt.add_width_le (h : StoredAt kind data p) : p + kind.width ≤ data.length := by
  have hle := h.length_le
  have hpos := kind.width_pos
  rw [Checksum.length_trailer, Checksum.kind_ofBytes, List.length_drop] at hle
  omega

theorem StoredAt.append (h : StoredAt kind x p) (y : Bytes) : StoredAt kind (x ++ y) p := by
  have hle := h.add_width_le
  have hp : p ≤ x.length := by omega
  rw [StoredAt, List.take_append_of_le_length hp, List.drop_append_of_le_length hp]
  exact h.trans (List.prefix_append _ y)

theorem StoredAt.of_append (h : StoredAt kind (x ++ y) p) (hle : p + kind.width ≤ x.length) :
    StoredAt kind x p := by
  have hp : p ≤ x.length := by omega
  rw [StoredAt, List.take_append_of_le_length hp, List.drop_append_of_le_length hp] at h
  apply List.prefix_of_prefix_length_le h (List.prefix_append _ y)
  rw [Checksum.length_trailer, Checksum.kind_ofBytes, List.length_drop]
  omega

theorem storedAt_length_append_trailer (kind : ChecksumKind) (payload : Bytes) :
    StoredAt kind (payload ++ (Checksum.ofBytes kind payload).trailer) payload.length := by
  simp only [StoredAt, List.take_left, List.drop_left]
  exact List.prefix_rfl

/-- The search from a place inside a string: the least step at which the checksum of
all bytes before is stored. -/
theorem findFrom_eq_some_iff (sum : Checksum) (passed q : Nat) (ahead : Bytes) :
    findFrom sum passed ahead = some q ↔
      ∃ p, q = passed + p ∧ (sum.update (ahead.take p)).trailer <+: ahead.drop p ∧
        ∀ p' < p, ¬ (sum.update (ahead.take p')).trailer <+: ahead.drop p' := by
  induction ahead generalizing sum passed with
  | nil =>
      have hnone (p : Nat) : ¬ (sum.update ([].take p)).trailer <+: ([] : Bytes).drop p := by
        intro h
        have hle := h.length_le
        have hpos := sum.kind.width_pos
        rw [Checksum.length_trailer, Checksum.kind_update, List.drop_nil, List.length_nil] at hle
        omega
      have hfront : sum.matchesFront [] = false :=
        Checksum.not_matchesFront_of_length_lt sum [] sum.kind.width_pos
      constructor
      · intro h
        simp [findFrom, hfront] at h
      · rintro ⟨p, -, hp, -⟩
        exact absurd hp (hnone p)
  | cons b rest ih =>
      rw [findFrom]
      by_cases hfront : sum.matchesFront (b :: rest) = true
      · rw [if_pos hfront]
        have hzero := (Checksum.matchesFront_iff sum (b :: rest)).mp hfront
        constructor
        · intro h
          refine ⟨0, (Option.some.inj h).symm, hzero, ?_⟩
          intro p' hp'
          omega
        · rintro ⟨p, rfl, -, hleast⟩
          rcases Nat.eq_zero_or_pos p with rfl | hpos
          · rfl
          · exact absurd hzero (hleast 0 hpos)
      · rw [if_neg hfront, ih]
        have hzero : ¬ (sum.update ((b :: rest).take 0)).trailer <+: (b :: rest).drop 0 :=
          mt (Checksum.matchesFront_iff sum (b :: rest)).mpr hfront
        constructor
        · rintro ⟨p, rfl, hp, hleast⟩
          refine ⟨p + 1, by omega, hp, ?_⟩
          intro p' hp'
          cases p' with
          | zero => exact hzero
          | succ p' => exact hleast p' (by omega)
        · rintro ⟨p, rfl, hp, hleast⟩
          cases p with
          | zero => exact absurd hp hzero
          | succ p =>
              refine ⟨p, by omega, hp, ?_⟩
              intro p' hp'
              exact hleast (p' + 1) (by omega)

/-- The search finds the first place at which a checksum is stored. -/
theorem find?_eq_some_iff :
    find? kind data = some p ↔ StoredAt kind data p ∧ ∀ q < p, ¬ StoredAt kind data q := by
  rw [find?, findFrom_eq_some_iff]
  constructor
  · rintro ⟨p', rfl, hp, hleast⟩
    rw [Nat.zero_add]
    exact ⟨hp, hleast⟩
  · rintro ⟨hp, hleast⟩
    exact ⟨p, (Nat.zero_add p).symm, hp, hleast⟩

/-- The search finds nothing only where there is nothing to be found. -/
theorem find?_eq_none_iff : find? kind data = none ↔ ∀ p, ¬ StoredAt kind data p := by
  constructor
  · intro hnone p
    induction p using Nat.strongRecOn with
    | ind p ih =>
        intro hp
        have hfirst := find?_eq_some_iff.mpr ⟨hp, ih⟩
        rw [hnone] at hfirst
        cases hfirst
  · intro hnowhere
    rw [Option.eq_none_iff_forall_ne_some]
    intro p hp
    exact hnowhere p (find?_eq_some_iff.mp hp).1

/-- In a signed payload something is found, at the latest behind the payload. -/
theorem exists_find?_append_trailer (kind : ChecksumKind) (payload : Bytes) :
    ∃ q ≤ payload.length,
      find? kind (payload ++ (Checksum.ofBytes kind payload).trailer) = some q := by
  have hend := storedAt_length_append_trailer kind payload
  cases hfind : find? kind (payload ++ (Checksum.ofBytes kind payload).trailer) with
  | none => exact absurd hend (find?_eq_none_iff.mp hfind payload.length)
  | some q =>
      refine ⟨q, Nat.le_of_not_lt fun hlate => ?_, rfl⟩
      exact (find?_eq_some_iff.mp hfind).2 payload.length hlate hend

/-- Bytes behind a match do not matter. -/
theorem find?_append (h : find? kind x = some p) (y : Bytes) : find? kind (x ++ y) = some p := by
  obtain ⟨hp, hleast⟩ := find?_eq_some_iff.mp h
  refine find?_eq_some_iff.mpr ⟨hp.append y, ?_⟩
  intro q hq hstored
  have hle := hp.add_width_le
  exact hleast q hq (hstored.of_append (by omega))

/-- A string is found to have no payload when no checksum is stored in it, and also when
that of no bytes stands at its front. -/
theorem find?_of_payloadLength_pos (h : payloadLength kind data = p) (hp : 0 < p) :
    find? kind data = some p := by
  unfold payloadLength at h
  cases hfind : find? kind data with
  | none =>
      rw [hfind] at h
      exact absurd h (Nat.ne_of_lt hp)
  | some q =>
      rw [hfind] at h
      exact congrArg some h

theorem payloadLength_of_find? (h : find? kind data = some p) : payloadLength kind data = p := by
  rw [payloadLength, h]
  rfl

end Trailer

namespace Scanner

theorem update_of_found {s : Scanner} (h : s.found.isSome = true) (data : Bytes) :
    s.update data = s := by
  induction data with
  | nil => rfl
  | cons b rest ih =>
      have hpush : s.push b = s := by rw [push, if_pos h]
      have hcons : s.update (b :: rest) = (s.push b).update rest := rfl
      rw [hcons, hpush, ih]

/-- A scanner that is still searching, its window not yet full, finds what the search of
its window and the bytes to come finds. -/
theorem found_update (s : Scanner) (hnone : s.found = none)
    (hshort : s.window.length < s.running.kind.width) (data : Bytes) :
    (s.update data).found = Trailer.findFrom s.running s.passed (s.window ++ data) := by
  induction data generalizing s with
  | nil =>
      rw [List.append_nil]
      change s.found = _
      rw [hnone]
      symm
      rw [Option.eq_none_iff_forall_ne_some]
      intro q hq
      obtain ⟨p, -, hp, -⟩ := (Trailer.findFrom_eq_some_iff _ _ _ _).mp hq
      have hle := hp.length_le
      rw [Checksum.length_trailer, Checksum.kind_update, List.length_drop] at hle
      omega
  | cons b rest ih =>
      have hcons : s.update (b :: rest) = (s.push b).update rest := rfl
      have hsearch : s.window ++ b :: rest = (s.window ++ [b]) ++ rest := by simp
      have hsome : s.found.isSome = false := by rw [hnone]; rfl
      rw [hcons, hsearch, push, hsome]
      by_cases hfill : (s.window ++ [b]).length < s.running.kind.width
      · -- the window takes the byte and is still not full
        simp only [hfill, ↓reduceIte, Bool.false_eq_true]
        exact ih { s with window := s.window ++ [b] } hnone hfill
      · have hfull : s.running.kind.width ≤ (s.window ++ [b]).length := Nat.le_of_not_lt hfill
        have hfront := Checksum.matchesFront_append s.running _ rest hfull
        simp only [hfill, ↓reduceIte, Bool.false_eq_true]
        generalize hwindow : s.window ++ [b] = window at hfull hfront ⊢
        have hlength : window.length = s.window.length + 1 := by rw [← hwindow]; simp
        cases window with
        | nil => simp at hlength
        | cons first window =>
            by_cases hmatch : s.running.matchesFront (first :: window) = true
            · -- the window holds the checksum of the bytes that left it
              rw [if_pos hmatch, update_of_found rfl, List.cons_append, Trailer.findFrom,
                ← List.cons_append, hfront, if_pos hmatch]
            · -- the window loses its first byte to the checksum
              rw [if_neg hmatch, List.cons_append, Trailer.findFrom, ← List.cons_append, hfront,
                if_neg hmatch]
              apply ih
              · exact hnone
              · rw [List.length_cons] at hlength
                change window.length < s.running.kind.width
                omega

/-- The scan of a stream finds the first match of the whole. -/
theorem found_update_start (kind : ChecksumKind) (data : Bytes) :
    ((start kind).update data).found = Trailer.find? kind data :=
  found_update (start kind) rfl kind.width_pos data

end Scanner

end FirmwareUpdate
