/-
What a cipher is made from.  It is made exactly if the key has its length and the nonce has the
bytes that are read, and nothing else of the two is looked at; so what is kept of them for a
reset makes the same cipher again.
-/
import FirmwareUpdate.Cipher
import FirmwareUpdate.Defaults

namespace FirmwareUpdate

namespace Block

/-- The front of a string stands at the front of a block that has room for it. -/
theorem front_ofBytes {n count : Nat} {b : Bytes} (hn : count ≤ n)
    (hb : count ≤ b.length) : (ofBytes n b).front count = b.take count := by
  have hfront : count ≤ (b.take n).length := by
    rw [List.length_take]
    omega
  change (b.take n ++ _).take count = b.take count
  rw [List.take_append_of_le_length hfront, List.take_take, Nat.min_eq_left hn]

/-- A string that fills a block is cut to it. -/
theorem bytes_ofBytes {n : Nat} {b : Bytes} (h : n ≤ b.length) :
    (ofBytes n b).bytes = b.take n := by
  have hfront := front_ofBytes (Nat.le_refl n) h
  rwa [front, List.take_of_length_le (Nat.le_of_eq (ofBytes n b).length_bytes)] at hfront

/-- Bytes that do not fit into a block are not looked at. -/
theorem ofBytes_take (n : Nat) (b : Bytes) : ofBytes n (b.take n) = ofBytes n b := by
  simp only [ofBytes, List.take_take, Nat.min_self]

end Block

namespace Cipher

/-- The lengths that a cipher of some kind asks of its key and nonce. -/
structure Fits (kind : CipherKind) (mode : ChainMode) (key nonce : Bytes) : Prop where
  key : kind = .plain ∨ key.length = kind.keySize
  nonce : kind.nonceSize mode ≤ nonce.length

/-- A stream cipher at its first byte. -/
def firstByte (s : StreamCipher) (key nonce : Bytes) : Keystream :=
  match s with
  | .arcfour => .arcfour (Arcfour.ofKey key)
  | .chacha20 => .chacha20 (ChaCha20.ofKey key (nonce.take 12))

/-- The register that a chain starts from. -/
def firstRegister (mode : ChainMode) (size : Nat) (nonce : Bytes) : Block size :=
  if mode.usesNonce then Block.ofBytes size nonce else Block.zero size

/-- A cipher at the start of its stream. -/
def fresh (kind : CipherKind) (mode : ChainMode) (key nonce : Bytes) : Cipher :=
  match kind with
  | .plain => ⟨.plain, mode, .plain⟩
  | .block p =>
      ⟨.block p, mode,
        .chain (Chain.start (p.keyed key) mode (firstRegister mode _ nonce))⟩
  | .stream s => ⟨.stream s, mode, .stream (firstByte s key nonce) (firstByte s key nonce)⟩

variable {kind : CipherKind} {mode : ChainMode} {key nonce : Bytes} {c : Cipher}

theorem fits_block_iff {p : Primitive} :
    Fits (.block p) mode key nonce ↔
      key.length = p.keySize ∧ (mode.usesNonce = true → p.blockSize ≤ nonce.length) := by
  constructor
  · rintro ⟨hkey | hkey, hnonce⟩
    · cases hkey
    · refine ⟨hkey, fun hmode => ?_⟩
      rwa [CipherKind.nonceSize, if_pos hmode] at hnonce
  · rintro ⟨hkey, hnonce⟩
    refine ⟨.inr hkey, ?_⟩
    rw [CipherKind.nonceSize]
    split
    · exact hnonce ‹_›
    · exact Nat.zero_le _

theorem makeChain_eq_ok_iff {p : Primitive} {chain : Chain} :
    makeChain p mode key nonce = .ok chain ↔
      Fits (.block p) mode key nonce ∧
        chain = Chain.start (p.keyed key) mode (firstRegister mode _ nonce) := by
  rw [fits_block_iff, ← p.size_keyed key, makeChain, Primitive.withKey]
  by_cases hkey : key.length = p.keySize
  · cases hmode : mode.usesNonce with
    | false => simp [hkey, hmode, firstRegister, eq_comm]
    | true =>
        by_cases hnonce : nonce.length < (p.keyed key).size
        · simp [hkey, hnonce, Nat.not_le.mpr hnonce]
        · simp [hkey, hmode, hnonce, firstRegister, Nat.le_of_not_lt hnonce, eq_comm]
  · simp [hkey]

theorem makeKeystream_eq_ok_iff (mode : ChainMode) {s : StreamCipher} {start : Keystream} :
    makeKeystream s key nonce = .ok start ↔
      Fits (.stream s) mode key nonce ∧ start = firstByte s key nonce := by
  have hfits : Fits (.stream s) mode key nonce ↔
      key.length = s.keySize ∧ s.nonceSize ≤ nonce.length := by
    constructor
    · rintro ⟨hkey | hkey, hnonce⟩
      · cases hkey
      · exact ⟨hkey, hnonce⟩
    · rintro ⟨hkey, hnonce⟩
      exact ⟨.inr hkey, hnonce⟩
  rw [hfits]
  unfold makeKeystream
  by_cases hkey : key.length = s.keySize
  · by_cases hnonce : nonce.length < s.nonceSize
    · simp [hkey, hnonce, Nat.not_le.mpr hnonce]
    · cases s <;> simp [hkey, hnonce, firstByte, Nat.le_of_not_lt hnonce, eq_comm]
  · simp [hkey]

/-- A cipher is made exactly from a key and a nonce that fit. -/
theorem make_eq_ok_iff :
    make kind mode key nonce = .ok c ↔
      Fits kind mode key nonce ∧ c = fresh kind mode key nonce := by
  cases kind with
  | plain =>
      have hfits : Fits .plain mode key nonce := ⟨.inl rfl, Nat.zero_le _⟩
      simp [make, fresh, hfits, eq_comm]
  | block p =>
      rw [make]
      constructor
      · intro h
        cases hchain : makeChain p mode key nonce with
        | error e => simp [hchain] at h
        | ok chain =>
            obtain ⟨hfits, rfl⟩ := makeChain_eq_ok_iff.mp hchain
            simp only [hchain, Except.ok.injEq] at h
            exact ⟨hfits, h.symm⟩
      · rintro ⟨hfits, rfl⟩
        rw [makeChain_eq_ok_iff.mpr ⟨hfits, rfl⟩]
        rfl
  | stream s =>
      rw [make]
      constructor
      · intro h
        cases hstart : makeKeystream s key nonce with
        | error e => simp [hstart] at h
        | ok start =>
            obtain ⟨hfits, rfl⟩ := (makeKeystream_eq_ok_iff mode).mp hstart
            simp only [hstart, Except.ok.injEq] at h
            exact ⟨hfits, h.symm⟩
      · rintro ⟨hfits, rfl⟩
        rw [(makeKeystream_eq_ok_iff mode).mpr ⟨hfits, rfl⟩]
        rfl

/-- A key of another length is refused before the nonce is looked at. -/
theorem make_of_misfit_key (hkind : kind ≠ .plain) (hkey : key.length ≠ kind.keySize) :
    make kind mode key nonce = .error .invalidKeySize := by
  cases kind with
  | plain => exact absurd rfl hkind
  | block p =>
      have hrefused : p.withKey key = .error .invalidKeySize := if_neg hkey
      simp only [make, makeChain, hrefused]
  | stream s =>
      have hrefused : makeKeystream s key nonce = .error .invalidKeySize := by
        unfold makeKeystream
        exact if_pos hkey
      simp only [make, hrefused]

/-- A nonce is refused if bytes are missing that would be read. -/
theorem make_of_short_nonce (hkey : kind = .plain ∨ key.length = kind.keySize)
    (hnonce : nonce.length < kind.nonceSize mode) :
    make kind mode key nonce = .error .invalidNonceSize := by
  cases kind with
  | plain => exact absurd hnonce (Nat.not_lt_zero _)
  | block p =>
      have hkeyed : p.withKey key = .ok (p.keyed key) := if_pos (hkey.resolve_left nofun)
      cases hmode : mode.usesNonce with
      | false =>
          rw [CipherKind.nonceSize, hmode] at hnonce
          exact absurd hnonce (Nat.not_lt_zero _)
      | true =>
          rw [CipherKind.nonceSize, if_pos hmode, ← p.size_keyed key] at hnonce
          simp only [make, makeChain, hkeyed, hmode, hnonce, ↓reduceIte]
  | stream s =>
      have hlength : key.length = s.keySize := hkey.resolve_left nofun
      have hshort : nonce.length < s.nonceSize := hnonce
      have hrefused : makeKeystream s key nonce = .error .invalidNonceSize := by
        unfold makeKeystream
        rw [if_neg (not_not_intro hlength), if_pos hshort]
      simp only [make, hrefused]

/-- Every choice of key and nonce has one of three outcomes. -/
theorem make_outcome (kind : CipherKind) (mode : ChainMode) (key nonce : Bytes) :
    (make kind mode key nonce = .error .invalidKeySize ↔
      kind ≠ .plain ∧ key.length ≠ kind.keySize) ∧
    (make kind mode key nonce = .error .invalidNonceSize ↔
      (kind = .plain ∨ key.length = kind.keySize) ∧ nonce.length < kind.nonceSize mode) ∧
    ((∃ c, make kind mode key nonce = .ok c) ↔
      (kind = .plain ∨ key.length = kind.keySize) ∧ kind.nonceSize mode ≤ nonce.length) := by
  by_cases hkey : kind = .plain ∨ key.length = kind.keySize
  · have hfits : ¬ (kind ≠ .plain ∧ key.length ≠ kind.keySize) := by
      rintro ⟨hkind, hlength⟩
      exact hkey.elim hkind hlength
    by_cases hnonce : nonce.length < kind.nonceSize mode
    · simp [make_of_short_nonce hkey hnonce, hkey, hnonce, hfits, Nat.not_le.mpr hnonce]
    · have hmake : make kind mode key nonce = .ok (fresh kind mode key nonce) :=
        make_eq_ok_iff.mpr ⟨⟨hkey, Nat.le_of_not_lt hnonce⟩, rfl⟩
      simp [hmake, hkey, hnonce, hfits, Nat.le_of_not_lt hnonce]
  · rw [not_or] at hkey
    simp [make_of_misfit_key hkey.1 hkey.2, hkey]

/-- A new cipher reads no more of the nonce than it asks for. -/
theorem fresh_take (kind : CipherKind) (mode : ChainMode) (key nonce : Bytes) :
    fresh kind mode key (nonce.take (kind.nonceSize mode)) = fresh kind mode key nonce := by
  cases kind with
  | plain => rfl
  | block p =>
      have hregister : firstRegister mode (p.keyed key).size
          (nonce.take (CipherKind.nonceSize (.block p) mode)) =
            firstRegister mode (p.keyed key).size nonce := by
        cases hmode : mode.usesNonce with
        | false => simp [firstRegister, hmode]
        | true =>
            simp only [firstRegister, CipherKind.nonceSize, hmode, ↓reduceIte]
            rw [← p.size_keyed key, Block.ofBytes_take]
      simp only [fresh, hregister]
  | stream s =>
      cases s with
      | arcfour => rfl
      | chacha20 =>
          simp only [fresh, firstByte, CipherKind.nonceSize, StreamCipher.nonceSize,
            List.take_take, Nat.min_self]

/-- Two keys and nonces that agree where they are read make ciphers in the same place of the
same stream. -/
theorem engine_fresh_eq {mode' : ChainMode} {key' nonce' : Bytes}
    (hkey : kind = .plain ∨ key = key') (hmode : (∃ p, kind = .block p) → mode = mode')
    (hnonce : nonce.take (kind.nonceSize mode) = nonce'.take (kind.nonceSize mode)) :
    (fresh kind mode key nonce).engine = (fresh kind mode' key' nonce').engine := by
  rw [← fresh_take kind mode key nonce, ← fresh_take kind mode' key' nonce']
  cases kind with
  | plain => rfl
  | block p => rw [← hmode ⟨p, rfl⟩, hkey.resolve_left nofun, hnonce]
  | stream s =>
      have hread : nonce.take s.nonceSize = nonce'.take s.nonceSize := hnonce
      rw [hkey.resolve_left nofun]
      simp only [fresh, CipherKind.nonceSize, hread]

/-- A key as it is kept for a reset: in a buffer for the longest key, and read back from there. -/
def keptKey (kind : CipherKind) (key : Bytes) : Bytes :=
  (Block.ofBytes Defaults.maxKeySize key).front kind.keySize

/-- The part of a nonce that is kept for a reset, in a buffer for the longest nonce. -/
def keptNonce (kind : CipherKind) (mode : ChainMode) (nonce : Bytes) : Bytes :=
  let size := kind.nonceSize mode
  (Block.ofBytes Defaults.maxNonceSize (nonce.take size)).front size

theorem keptKey_eq (h : key.length = kind.keySize) : keptKey kind key = key := by
  rw [keptKey, Block.front_ofBytes (Defaults.keySize_le kind) (Nat.le_of_eq h.symm), ← h,
    List.take_length]

theorem keptNonce_eq (h : kind.nonceSize mode ≤ nonce.length) :
    keptNonce kind mode nonce = nonce.take (kind.nonceSize mode) := by
  have hfront : kind.nonceSize mode ≤ (nonce.take (kind.nonceSize mode)).length := by
    rw [List.length_take]
    omega
  change (Block.ofBytes _ _).front _ = _
  rw [Block.front_ofBytes (Defaults.nonceSize_le kind mode) hfront, List.take_take, Nat.min_self]

/-- What is kept of key and nonce makes the cipher again. -/
theorem make_kept (h : make kind mode key nonce = .ok c) :
    make kind mode (keptKey kind key) (keptNonce kind mode nonce) = .ok c := by
  obtain ⟨hfits, rfl⟩ := make_eq_ok_iff.mp h
  have hnonce := hfits.nonce
  have htake : kind.nonceSize mode ≤ (nonce.take (kind.nonceSize mode)).length := by
    rw [List.length_take]
    omega
  rw [keptNonce_eq hnonce]
  rcases hfits.key with rfl | hkey
  · rfl
  · rw [keptKey_eq hkey]
    exact make_eq_ok_iff.mpr ⟨⟨.inr hkey, htake⟩, (fresh_take kind mode key nonce).symm⟩

end Cipher

end FirmwareUpdate
