/-
An image opens to the payload that it was made of.  With a checksum the payload
comes back exactly, because the zeros that fill the last block stand behind the
first match; the empty payload is the one exception, since its match at the front
reads as no match.
-/
import FirmwareUpdate.Image
import FirmwareUpdate.Proofs.Chaining
import FirmwareUpdate.Proofs.FirstMatch

namespace FirmwareUpdate

/-- The number of bytes that the checksum of an image takes. -/
def Settings.trailerWidth (s : Settings) : Nat :=
  s.checksum.elim 0 ChecksumKind.width

/-- The default key and nonce fit every cipher in every mode. -/
theorem Settings.exists_freshCipher (s : Settings) : ∃ c, s.freshCipher = .ok c :=
  ⟨_, Cipher.make_eq_ok_iff.mpr
    ⟨⟨.inr (Defaults.length_key s.cipher), Defaults.nonceSize_le s.cipher s.mode⟩, rfl⟩⟩

theorem Settings.freshCipher_spec {s : Settings} {c : Cipher} (h : s.freshCipher = .ok c) :
    c.reset = c ∧ c.blockSize = s.cipher.blockSize ∧ c.Lawful :=
  Cipher.make_spec h

namespace Image

variable {s : Settings} {checksum : Option ChecksumKind} {kind : ChecksumKind}
  {payload signed image : Bytes}

/-- Signing goes by the first place at which a checksum is stored. -/
theorem sign_of_find? {first : Nat}
    (h : Trailer.find? kind (payload ++ (Checksum.ofBytes kind payload).trailer) = some first) :
    sign (some kind) payload =
      if first = payload.length then .ok (payload ++ (Checksum.ofBytes kind payload).trailer)
      else .error (.collision payload.length first) := by
  simp only [sign, Trailer.payloadLength_of_find? h]

/-- A signed payload is followed by its checksum, which is the first one stored. -/
theorem sign_some (h : sign (some kind) payload = .ok signed) :
    signed = payload ++ (Checksum.ofBytes kind payload).trailer ∧
      Trailer.find? kind signed = some payload.length := by
  obtain ⟨first, -, hfind⟩ := Trailer.exists_find?_append_trailer kind payload
  rw [sign_of_find? hfind] at h
  by_cases hend : first = payload.length
  · rw [if_pos hend, Except.ok.injEq] at h
    rw [hend, h] at hfind
    exact ⟨h.symm, hfind⟩
  · rw [if_neg hend] at h
    cases h

theorem length_of_sign (h : sign checksum payload = .ok signed) :
    signed.length = payload.length + checksum.elim 0 ChecksumKind.width := by
  cases checksum with
  | none =>
      simp only [sign, Except.ok.injEq] at h
      rw [← h]
      rfl
  | some kind =>
      rw [(sign_some h).1, List.length_append, Checksum.length_trailer, Checksum.kind_ofBytes]
      rfl

/-- The stages of an encryption that succeeds. -/
theorem stages_of_encrypt (h : encrypt s payload = .ok image) :
    ∃ c signed c', s.freshCipher = .ok c ∧ sign s.checksum payload = .ok signed ∧
      c.encrypt (Bytes.padZero c.blockSize signed) = .ok (image, c') := by
  unfold encrypt at h
  cases hc : s.freshCipher with
  | error e => simp [hc] at h
  | ok c =>
      cases hsigned : sign s.checksum payload with
      | error e => simp [hc, hsigned] at h
      | ok signed =>
          cases hout : c.encrypt (Bytes.padZero c.blockSize signed) with
          | error e => simp [hc, hsigned, hout] at h
          | ok result =>
              simp only [hc, hsigned, hout, Except.ok.injEq] at h
              obtain ⟨out, c'⟩ := result
              exact ⟨c, signed, c', rfl, rfl, by rw [hout, ← h]⟩

theorem length_of_encrypt (h : encrypt s payload = .ok image) :
    image.length = Bytes.roundUp (payload.length + s.trailerWidth) s.cipher.blockSize := by
  obtain ⟨c, signed, c', hc, hsigned, hout⟩ := stages_of_encrypt h
  rw [Cipher.length_of_apply hout, Bytes.length_padZero signed c.blockSize_pos,
    length_of_sign hsigned, (Settings.freshCipher_spec hc).2.1]
  rfl

/-- Opening an image searches the padded string that was encrypted. -/
theorem decrypt_of_encrypt (h : encrypt s payload = .ok image) :
    ∃ signed, sign s.checksum payload = .ok signed ∧
      decrypt s image = Image.payload s.checksum (Bytes.padZero s.cipher.blockSize signed) := by
  obtain ⟨c, signed, c', hc, hsigned, hout⟩ := stages_of_encrypt h
  obtain ⟨-, hsize, hlawful⟩ := Settings.freshCipher_spec hc
  have hback : c.decrypt image = .ok (Bytes.padZero c.blockSize signed, c') :=
    Cipher.apply_opposite hlawful hout
  have haligned : image.length % c.blockSize = 0 := Cipher.aligned_of_apply_eq_ok hback
  refine ⟨signed, hsigned, ?_⟩
  rw [← hsize]
  simp only [decrypt, hc, haligned, hback, ne_eq, not_true_eq_false, ↓reduceIte]

/-- What an image of some size decrypts to: the payload, its checksum, and zeros. -/
def plain (s : Settings) (payload : Bytes) (size : Nat) : Bytes :=
  let trailer := s.checksum.elim [] fun kind => (Checksum.ofBytes kind payload).trailer
  payload ++ trailer ++ List.replicate (size - (payload.length + trailer.length)) 0

theorem plain_eq_padZero (hsigned : sign s.checksum payload = .ok signed) (unit : Nat) :
    plain s payload (Bytes.roundUp signed.length unit) = Bytes.padZero unit signed := by
  unfold plain
  cases hkind : s.checksum with
  | none =>
      rw [hkind] at hsigned
      simp only [sign, Except.ok.injEq] at hsigned
      subst hsigned
      simp only [Option.elim_none, List.append_nil, List.length_nil, Nat.add_zero]
      rfl
  | some kind =>
      rw [hkind] at hsigned
      simp only [Option.elim_some]
      rw [← List.length_append, ← (sign_some hsigned).1]
      rfl

/-- An image decrypts to the payload, its checksum and zeros, wherever the cipher for it is
made. -/
theorem decrypt_eq_plain {c : Cipher} (h : encrypt s payload = .ok image)
    (hc : s.freshCipher = .ok c) :
    ∃ c', c.decrypt image = .ok (plain s payload image.length, c') := by
  obtain ⟨fresh, signed, c', hfresh, hsigned, hout⟩ := stages_of_encrypt h
  have hsame : fresh = c := by
    rw [hfresh] at hc
    exact Except.ok.inj hc
  subst hsame
  have hlength : image.length = Bytes.roundUp signed.length fresh.blockSize := by
    rw [Cipher.length_of_apply hout, Bytes.length_padZero signed fresh.blockSize_pos]
  refine ⟨c', ?_⟩
  rw [hlength, plain_eq_padZero hsigned]
  exact Cipher.apply_opposite (Settings.freshCipher_spec hfresh).2.2 hout

/-- The payload of an image with a checksum ends at the first match of what it decrypts to. -/
theorem find?_plain (h : encrypt s payload = .ok image) (hkind : s.checksum = some kind) :
    Trailer.find? kind (plain s payload image.length) = some payload.length := by
  obtain ⟨c, signed, c', hc, hsigned, hout⟩ := stages_of_encrypt h
  have hlength : image.length = Bytes.roundUp signed.length c.blockSize := by
    rw [Cipher.length_of_apply hout, Bytes.length_padZero signed c.blockSize_pos]
  rw [hlength, plain_eq_padZero hsigned]
  rw [hkind] at hsigned
  exact Trailer.find?_append (sign_some hsigned).2 _

/-- Whatever is signed can be encrypted. -/
theorem exists_encrypt_of_sign (h : sign s.checksum payload = .ok signed) :
    ∃ image, encrypt s payload = .ok image := by
  obtain ⟨c, hc⟩ := s.exists_freshCipher
  have haligned : (Bytes.padZero c.blockSize signed).length % c.blockSize = 0 := by
    rw [Bytes.length_padZero signed c.blockSize_pos, Bytes.roundUp_mod]
  obtain ⟨image, c', hout⟩ := Cipher.apply_eq_ok_of_aligned c .encrypt _ haligned
  have hencrypt : c.encrypt (Bytes.padZero c.blockSize signed) = .ok (image, c') := hout
  exact ⟨image, by simp only [encrypt, hc, h, hencrypt]⟩

/-- The empty payload is signed, since nothing can be stored before its end. -/
theorem exists_encrypt_nil (s : Settings) (hkind : s.checksum = some kind) :
    ∃ image, encrypt s [] = .ok image := by
  obtain ⟨first, hle, hfind⟩ := Trailer.exists_find?_append_trailer kind []
  have hend : first = ([] : Bytes).length := Nat.le_zero.mp hle
  have hsigned := sign_of_find? hfind
  rw [if_pos hend, ← hkind] at hsigned
  exact exists_encrypt_of_sign hsigned

theorem decrypt_encrypt_unsigned (h : encrypt s payload = .ok image) (hnone : s.checksum = none) :
    ∃ zeros < s.cipher.blockSize,
      decrypt s image = .ok (payload ++ List.replicate zeros 0) := by
  have hpos : 0 < s.cipher.blockSize := by
    obtain ⟨c, -, -, hc, -, -⟩ := stages_of_encrypt h
    rw [← (Settings.freshCipher_spec hc).2.1]
    exact c.blockSize_pos
  have hbounds := Bytes.roundUp_bounds payload.length hpos
  obtain ⟨signed, hsigned, hopen⟩ := decrypt_of_encrypt h
  rw [hnone] at hsigned hopen
  simp only [sign, Except.ok.injEq] at hsigned
  subst hsigned
  exact ⟨Bytes.roundUp payload.length s.cipher.blockSize - payload.length, by omega, hopen⟩

theorem decrypt_encrypt_signed (h : encrypt s payload = .ok image)
    (hkind : s.checksum = some kind) :
    decrypt s image =
      if payload = [] then .error (.checksumNotFound kind) else .ok payload := by
  obtain ⟨signed, hsigned, hopen⟩ := decrypt_of_encrypt h
  rw [hkind] at hsigned hopen
  obtain ⟨hsplit, hfind⟩ := sign_some hsigned
  have hlength : Trailer.payloadLength kind (Bytes.padZero s.cipher.blockSize signed) =
      payload.length :=
    Trailer.payloadLength_of_find? (Trailer.find?_append hfind _)
  have htake : (Bytes.padZero s.cipher.blockSize signed).take payload.length = payload := by
    rw [Bytes.padZero, hsplit, List.append_assoc, List.take_left]
  rw [hopen, Image.payload]
  simp only [hlength, htake, List.length_eq_zero_iff]

/-- What comes out of an image that was made of a payload; the one image that is made and
not opened is that of the empty payload with a checksum. -/
theorem decrypt_encrypt (s : Settings) :
    (∀ payload image, encrypt s payload = .ok image →
      image.length = Bytes.roundUp (payload.length + s.trailerWidth) s.cipher.blockSize ∧
        (s.checksum = none → ∃ zeros < s.cipher.blockSize,
          decrypt s image = .ok (payload ++ List.replicate zeros 0)) ∧
        (s.checksum.isSome → payload ≠ [] → decrypt s image = .ok payload) ∧
        ∀ e, decrypt s image = .error e ↔
          payload = [] ∧ ∃ kind, s.checksum = some kind ∧ e = .checksumNotFound kind) ∧
      (s.checksum.isSome → ∃ image, encrypt s [] = .ok image) := by
  constructor
  · intro payload image h
    refine ⟨length_of_encrypt h, decrypt_encrypt_unsigned h, ?_, ?_⟩
    · intro hsome hpayload
      obtain ⟨kind, hkind⟩ := Option.isSome_iff_exists.mp hsome
      rw [decrypt_encrypt_signed h hkind, if_neg hpayload]
    · intro e
      cases hchecksum : s.checksum with
      | none =>
          obtain ⟨zeros, -, hopen⟩ := decrypt_encrypt_unsigned h hchecksum
          rw [hopen]
          simp
      | some kind =>
          rw [decrypt_encrypt_signed h hchecksum]
          by_cases hpayload : payload = []
          · rw [if_pos hpayload]
            simp [hpayload, eq_comm]
          · rw [if_neg hpayload]
            simp [hpayload]
  · intro hsome
    obtain ⟨kind, hkind⟩ := Option.isSome_iff_exists.mp hsome
    exact exists_encrypt_nil s hkind

/-- Three bytes under the default cipher, with a checksum. -/
theorem decrypt_encrypt_three_bytes :
    ∃ image, encrypt { checksum := some .crc32Small } [1, 2, 3] = .ok image ∧
      image.length = 8 ∧ decrypt { checksum := some .crc32Small } image = .ok [1, 2, 3] := by
  have hmade : (encrypt { checksum := some .crc32Small } [1, 2, 3]).toOption.isSome := by
    decide +kernel
  cases himage : encrypt { checksum := some .crc32Small } [1, 2, 3] with
  | error e =>
      rw [himage] at hmade
      exact absurd hmade Bool.false_ne_true
  | ok image =>
      obtain ⟨hlength, -, hopen, -⟩ :=
        (decrypt_encrypt { checksum := some .crc32Small }).1 [1, 2, 3] image himage
      exact ⟨image, rfl, hlength, hopen rfl (by decide)⟩

end Image

end FirmwareUpdate
