/-
What making and opening an image give for every input.  A payload is refused exactly if a
checksum is stored before its end, and a string opens exactly to its shortest front that is
followed by its own checksum; each refusal has one cause.
-/
import FirmwareUpdate.Proofs.ImageRoundTrip
import FirmwareUpdate.Proofs.ScannerWindow

namespace FirmwareUpdate

namespace Trailer

variable {kind : ChecksumKind} {x data : Bytes} {p : Nat}

/-- A string starts with a payload and the checksum of that payload. -/
def Signed (kind : ChecksumKind) (payload data : Bytes) : Prop :=
  ∃ rest, data = payload ++ (Checksum.ofBytes kind payload).trailer ++ rest

/-- A string starts with a payload and its checksum, and with no shorter one. -/
def FirstSigned (kind : ChecksumKind) (payload data : Bytes) : Prop :=
  Signed kind payload data ∧ ∀ y, y.length < payload.length → ¬ Signed kind y data

theorem Signed.storedAt (h : Signed kind x data) : StoredAt kind data x.length := by
  obtain ⟨rest, rfl⟩ := h
  exact (storedAt_length_append_trailer kind x).append rest

theorem Signed.take_eq (h : Signed kind x data) : data.take x.length = x := by
  obtain ⟨rest, rfl⟩ := h
  rw [List.append_assoc, List.take_left]

theorem StoredAt.signed (h : StoredAt kind data p) : Signed kind (data.take p) data := by
  obtain ⟨rest, hrest⟩ := h
  refine ⟨rest, ?_⟩
  rw [List.append_assoc, hrest, List.take_append_drop]

theorem StoredAt.length_take (h : StoredAt kind data p) : (data.take p).length = p := by
  have hle := h.add_width_le
  rw [List.length_take]
  omega

/-- The search finds the shortest front that is followed by its own checksum. -/
theorem firstSigned_iff :
    FirstSigned kind x data ↔ find? kind data = some x.length ∧ data.take x.length = x := by
  rw [find?_eq_some_iff]
  constructor
  · rintro ⟨hsigned, hshortest⟩
    refine ⟨⟨hsigned.storedAt, ?_⟩, hsigned.take_eq⟩
    intro q hq hstored
    exact hshortest (data.take q) (by rw [hstored.length_take]; exact hq) hstored.signed
  · rintro ⟨⟨hstored, hleast⟩, htake⟩
    refine ⟨htake ▸ hstored.signed, ?_⟩
    intro y hy hsigned
    exact hleast y.length hy hsigned.storedAt

end Trailer

namespace Image

variable {s : Settings} {kind : ChecksumKind} {payload signed text x : Bytes} {e : ImageError}

/-- A payload is not signed exactly if a checksum is stored before its end. -/
theorem sign_eq_error_iff :
    sign (some kind) payload = .error e ↔
      let signed := payload ++ (Checksum.ofBytes kind payload).trailer
      ∃ q < payload.length, e = .collision payload.length q ∧
        Trailer.StoredAt kind signed q ∧ ∀ r < q, ¬ Trailer.StoredAt kind signed r := by
  obtain ⟨first, hle, hfind⟩ := Trailer.exists_find?_append_trailer kind payload
  simp only [← Trailer.find?_eq_some_iff, sign_of_find? hfind, hfind]
  by_cases hend : first = payload.length
  · rw [if_pos hend]
    constructor
    · nofun
    · rintro ⟨q, hq, -, hfirst⟩
      cases hfirst
      exact absurd hend (Nat.ne_of_lt hq)
  · rw [if_neg hend]
    constructor
    · intro herror
      cases herror
      exact ⟨first, Nat.lt_of_le_of_ne hle hend, rfl, rfl⟩
    · rintro ⟨q, -, rfl, hfirst⟩
      cases hfirst
      rfl

/-- A checksum that is stored before the end of a payload keeps it from being signed. -/
theorem sign_of_storedAt {q : Nat} (hq : q < payload.length)
    (h : Trailer.StoredAt kind (payload ++ (Checksum.ofBytes kind payload).trailer) q) :
    ∃ first ≤ q, sign (some kind) payload = .error (.collision payload.length first) := by
  obtain ⟨first, -, hfind⟩ := Trailer.exists_find?_append_trailer kind payload
  have hle : first ≤ q :=
    Nat.le_of_not_lt fun hlate => (Trailer.find?_eq_some_iff.mp hfind).2 q hlate h
  refine ⟨first, hle, ?_⟩
  rw [sign_of_find? hfind, if_neg (Nat.ne_of_lt (Nat.lt_of_le_of_lt hle hq))]

/-- Nothing but its signing can fail in the making of an image. -/
theorem encrypt_eq_error_iff :
    encrypt s payload = .error e ↔ sign s.checksum payload = .error e := by
  obtain ⟨c, hc⟩ := s.exists_freshCipher
  cases hsigned : sign s.checksum payload with
  | error cause => simp only [encrypt, hc, hsigned]
  | ok signed =>
      obtain ⟨image, himage⟩ := exists_encrypt_of_sign hsigned
      simp [himage]

theorem payload_eq_ok_iff :
    Image.payload (some kind) text = .ok x ↔ x ≠ [] ∧ Trailer.FirstSigned kind x text := by
  rw [Trailer.firstSigned_iff]
  constructor
  · intro h
    simp only [Image.payload] at h
    -- a length of zero stands for no match and for a match at the front; neither opens
    by_cases hzero : Trailer.payloadLength kind text = 0
    · rw [if_pos hzero] at h
      cases h
    · rw [if_neg hzero] at h
      cases h
      have hfind := Trailer.find?_of_payloadLength_pos rfl (Nat.pos_of_ne_zero hzero)
      have hlength := (Trailer.find?_eq_some_iff.mp hfind).1.length_take
      refine ⟨?_, ?_, ?_⟩
      · intro hnil
        rw [hnil] at hlength
        exact hzero hlength.symm
      · rw [hlength]
        exact hfind
      · rw [hlength]
  · rintro ⟨hx, hfind, htake⟩
    have hlength : ¬ x.length = 0 := mt List.length_eq_zero_iff.mp hx
    simp only [Image.payload, Trailer.payloadLength_of_find? hfind]
    rw [if_neg hlength, htake]

theorem payload_eq_error_iff :
    Image.payload (some kind) text = .error e ↔
      e = .checksumNotFound kind ∧ ¬ ∃ x, x ≠ [] ∧ Trailer.FirstSigned kind x text := by
  simp only [← payload_eq_ok_iff, Image.payload]
  by_cases hzero : Trailer.payloadLength kind text = 0
  · simp [hzero, eq_comm]
  · simp [hzero]

/-- Opening a string of whole blocks reads the payload off what it decrypts to. -/
theorem decrypt_of_aligned (s : Settings) {data : Bytes}
    (h : data.length % s.cipher.blockSize = 0) :
    ∃ c text c', s.freshCipher = .ok c ∧ c.decrypt data = .ok (text, c') ∧
      decrypt s data = Image.payload s.checksum text := by
  obtain ⟨c, hc⟩ := s.exists_freshCipher
  rw [← (Settings.freshCipher_spec hc).2.1] at h
  obtain ⟨text, c', htext⟩ := Cipher.apply_eq_ok_of_aligned c .decrypt data h
  have hplain : c.decrypt data = .ok (text, c') := htext
  refine ⟨c, text, c', hc, hplain, ?_⟩
  simp only [decrypt, hc, h, hplain, ne_eq, not_true_eq_false, ↓reduceIte]

theorem decrypt_of_misaligned (s : Settings) {data : Bytes}
    (h : data.length % s.cipher.blockSize ≠ 0) :
    decrypt s data = .error (.unaligned data.length s.cipher.blockSize) := by
  obtain ⟨c, hc⟩ := s.exists_freshCipher
  have hsize := (Settings.freshCipher_spec hc).2.1
  rw [← hsize] at h
  simp only [decrypt, hc, hsize.symm, h, ne_eq, not_false_eq_true, ↓reduceIte]

/-- What comes of making an image: the one refusal is that of a payload in which a checksum is
stored before the end, at the first such place.  So a payload that starts with another one and
its checksum is refused, and of an image that is made a scanner finds the payload's end. -/
theorem encrypt_outcome (s : Settings) (payload : Bytes) :
    (∀ e, encrypt s payload = .error e ↔
      ∃ kind, s.checksum = some kind ∧
        let signed := payload ++ (Checksum.ofBytes kind payload).trailer
        ∃ q < payload.length, e = .collision payload.length q ∧
          Trailer.StoredAt kind signed q ∧ ∀ r < q, ¬ Trailer.StoredAt kind signed r) ∧
    ((∃ image, encrypt s payload = .ok image) ↔
      ∀ kind, s.checksum = some kind → ∀ q < payload.length,
        ¬ Trailer.StoredAt kind (payload ++ (Checksum.ofBytes kind payload).trailer) q) ∧
    (∀ kind inner, s.checksum = some kind → Trailer.Signed kind inner payload →
      ∃ q ≤ inner.length, encrypt s payload = .error (.collision payload.length q)) ∧
    ∀ kind image c, s.checksum = some kind → encrypt s payload = .ok image →
      s.freshCipher = .ok c → ∃ text c', c.decrypt image = .ok (text, c') ∧
        ∀ pieces : List Bytes, pieces.flatten = text →
          (pieces.foldl Scanner.update (Scanner.start kind)).found = some payload.length := by
  have hstops {kind : ChecksumKind} {q : Nat} (hkind : s.checksum = some kind)
      (hq : q < payload.length)
      (hstored : Trailer.StoredAt kind (payload ++ (Checksum.ofBytes kind payload).trailer) q) :
      ∃ first ≤ q, encrypt s payload = .error (.collision payload.length first) := by
    obtain ⟨first, hle, herror⟩ := sign_of_storedAt hq hstored
    rw [← hkind] at herror
    exact ⟨first, hle, encrypt_eq_error_iff.mpr herror⟩
  refine ⟨?_, ?_, ?_, ?_⟩
  · intro e
    rw [encrypt_eq_error_iff]
    cases s.checksum with
    | none => simp [sign]
    | some kind => simp only [sign_eq_error_iff, Option.some.injEq, exists_eq_left']
  · constructor
    · rintro ⟨image, himage⟩ kind hkind q hq hstored
      obtain ⟨first, -, herror⟩ := hstops hkind hq hstored
      rw [himage] at herror
      cases herror
    · intro hnowhere
      cases himage : encrypt s payload with
      | ok image => exact ⟨image, rfl⟩
      | error e =>
          have hsign := encrypt_eq_error_iff.mp himage
          cases hkind : s.checksum with
          | none => rw [hkind] at hsign; cases hsign
          | some kind =>
              rw [hkind] at hsign
              obtain ⟨q, hq, -, hstored, -⟩ := sign_eq_error_iff.mp hsign
              exact absurd hstored (hnowhere kind hkind q hq)
  · intro kind inner hkind hinner
    have hstored := hinner.storedAt
    have hroom := hstored.add_width_le
    have hwidth := kind.width_pos
    -- the inner checksum takes up room, so its place is before the end of the payload
    exact hstops hkind (by omega) (hstored.append _)
  · intro kind image c hkind himage hc
    obtain ⟨c', hplain⟩ := decrypt_eq_plain himage hc
    refine ⟨_, c', hplain, ?_⟩
    intro pieces hpieces
    rw [Scanner.foldl_update, hpieces, Scanner.found_update_start, find?_plain himage hkind]

/-- A payload that is itself a signed byte is refused; the next longer one is made, and a scanner
stops at its end. -/
theorem encrypt_outcome_signed_byte :
    let s : Settings := { checksum := some .crc32Small }
    Trailer.Signed .crc32Small [1] [1, 228, 32, 250, 90] ∧
      (∃ q ≤ 1, encrypt s [1, 228, 32, 250, 90] = .error (.collision 5 q)) ∧
      ∃ image c text c', encrypt s [2, 228, 32, 250, 90] = .ok image ∧
        s.freshCipher = .ok c ∧ c.decrypt image = .ok (text, c') ∧
          ((Scanner.start .crc32Small).update text).found = some 5 := by
  intro s
  have hsigned : Trailer.Signed .crc32Small [1] [1, 228, 32, 250, 90] := ⟨[], by decide +kernel⟩
  obtain ⟨-, -, hrefused, -⟩ := encrypt_outcome s [1, 228, 32, 250, 90]
  obtain ⟨-, hmade, -, hscan⟩ := encrypt_outcome s [2, 228, 32, 250, 90]
  have hnowhere : ∀ q < 5, ¬ Trailer.StoredAt .crc32Small
      ([2, 228, 32, 250, 90] ++
        (Checksum.ofBytes .crc32Small [2, 228, 32, 250, 90]).trailer) q := by
    unfold Trailer.StoredAt
    decide +kernel
  obtain ⟨image, himage⟩ := hmade.mpr fun kind hkind => by
    cases hkind
    exact hnowhere
  obtain ⟨c, hc⟩ := s.exists_freshCipher
  obtain ⟨text, c', htext, hfound⟩ := hscan .crc32Small image c rfl himage hc
  exact ⟨hsigned, hrefused .crc32Small [1] rfl hsigned, image, c, text, c', himage, hc, htext,
    hfound [text] List.flatten_singleton⟩

/-- What comes of opening any string: the payload is the shortest front of the decrypted string
that is followed by its own checksum, unless that front is empty. -/
theorem decrypt_outcome (s : Settings) (data : Bytes) :
    (∀ length block, decrypt s data = .error (.unaligned length block) ↔
      data.length % s.cipher.blockSize ≠ 0 ∧ length = data.length ∧
        block = s.cipher.blockSize) ∧
    (data.length % s.cipher.blockSize = 0 →
      ∃ c text c', s.freshCipher = .ok c ∧ c.decrypt data = .ok (text, c') ∧
        (s.checksum = none → decrypt s data = .ok text) ∧
        ∀ kind, s.checksum = some kind →
          (∀ x, decrypt s data = .ok x ↔ x ≠ [] ∧ Trailer.FirstSigned kind x text) ∧
          ∀ e, decrypt s data = .error e ↔
            e = .checksumNotFound kind ∧
              ¬ ∃ x, x ≠ [] ∧ Trailer.FirstSigned kind x text) := by
  by_cases haligned : data.length % s.cipher.blockSize = 0
  · obtain ⟨c, text, c', hc, htext, hopen⟩ := decrypt_of_aligned s haligned
    rw [hopen]
    constructor
    · intro length block
      cases s.checksum with
      | none => simp [Image.payload, haligned]
      | some kind => simp [payload_eq_error_iff, haligned]
    · intro _
      refine ⟨c, text, c', hc, htext, ?_, ?_⟩
      · intro hnone
        rw [hnone]
        rfl
      · intro kind hkind
        rw [hkind]
        exact ⟨fun x => payload_eq_ok_iff, fun e => payload_eq_error_iff⟩
  · constructor
    · intro length block
      rw [decrypt_of_misaligned s haligned]
      simp [haligned, eq_comm]
    · intro h
      exact absurd h haligned

/-- A byte with its checksum and something behind it opens to the byte; three bytes are no whole
block. -/
theorem decrypt_outcome_signed_byte :
    let s : Settings := { cipher := .plain, checksum := some .crc32Small }
    decrypt s [1, 228, 32, 250, 90, 7] = .ok [1] ∧
      decrypt s [7, 7] = .error (.checksumNotFound .crc32Small) ∧
      decrypt {} [1, 2, 3] = .error (.unaligned 3 8) := by
  intro s
  refine ⟨?_, ?_, ?_⟩
  · obtain ⟨c, text, c', hc, htext, -, hopens⟩ :=
      (decrypt_outcome s [1, 228, 32, 250, 90, 7]).2 (Nat.mod_one _)
    cases hc
    cases htext
    refine ((hopens .crc32Small rfl).1 [1]).mpr ⟨by decide, ⟨[7], by decide +kernel⟩, ?_⟩
    intro y hy hsigned
    have hempty : ¬ Trailer.StoredAt .crc32Small [1, 228, 32, 250, 90, 7] 0 := by
      unfold Trailer.StoredAt
      decide +kernel
    have hlength : y.length = 0 := Nat.lt_one_iff.mp hy
    exact hempty (hlength ▸ hsigned.storedAt)
  · obtain ⟨c, text, c', hc, htext, -, hopens⟩ := (decrypt_outcome s [7, 7]).2 (Nat.mod_one _)
    cases hc
    cases htext
    refine ((hopens .crc32Small rfl).2 _).mpr ⟨rfl, ?_⟩
    rintro ⟨x, -, hsigned, -⟩
    have hroom : x.length + 4 ≤ 2 := hsigned.storedAt.add_width_le
    omega
  · exact ((decrypt_outcome {} [1, 2, 3]).1 3 8).mpr ⟨by decide, rfl, rfl⟩

end Image

end FirmwareUpdate
