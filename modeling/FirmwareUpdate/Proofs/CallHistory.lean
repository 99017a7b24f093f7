/-
Histories of calls on one running cipher.  All that a caller sees is the reply to each call.  The
replies after a reset are those of a new cipher, a refused call leaves no trace in the replies
behind it, and data of one direction may be joined into one call; and of the bytes that a cipher
was made from, no reply shows more than the key and the front of the nonce.
-/
import FirmwareUpdate.Proofs.Parameters
import FirmwareUpdate.Proofs.Pieces

namespace FirmwareUpdate

namespace Cipher

/-- A call on a running cipher. -/
inductive Call
  | send (direction : Direction) (data : Bytes)
  | reset
deriving DecidableEq, Repr

/-- What a call leaves with its caller: the buffer with the data, and the cause if the data
were refused. -/
inductive Reply
  | sent (buffer : Bytes)
  | refused (cause : CipherError) (buffer : Bytes)
  | restarted
deriving DecidableEq, Repr

/-- The reply to a call and the cipher behind it. -/
def call (c : Cipher) : Call → Reply × Cipher
  | .send direction data =>
      match c.apply direction data with
      | .ok (out, c₁) => (.sent out, c₁)
      | .error cause => (.refused cause data, c)
  | .reset => (.restarted, c.reset)

/-- The replies to calls made one after another. -/
def replies (c : Cipher) (calls : List Call) : List Reply :=
  (thread call c calls).1

/-- The cipher behind calls made one after another. -/
def after (c : Cipher) (calls : List Call) : Cipher :=
  (thread call c calls).2

variable {c c₁ c₂ : Cipher} {kind : CipherKind} {mode : ChainMode} {direction : Direction}
  {key nonce data out x y : Bytes}

theorem replies_cons (c : Cipher) (first : Call) (calls : List Call) :
    c.replies (first :: calls) = (c.call first).1 :: (c.call first).2.replies calls := by
  rw [replies, thread_cons]
  rfl

theorem replies_append (c : Cipher) (earlier later : List Call) :
    c.replies (earlier ++ later) = c.replies earlier ++ (c.after earlier).replies later := by
  rw [replies, thread_append]
  rfl

theorem after_cons (c : Cipher) (first : Call) (calls : List Call) :
    c.after (first :: calls) = (c.call first).2.after calls := by
  rw [after, thread_cons]
  rfl

theorem call_of_apply (h : c.apply direction data = .ok (out, c₁)) :
    c.call (.send direction data) = (.sent out, c₁) := by
  rw [call, h]

theorem call_of_misfit (h : data.length % c.blockSize ≠ 0) :
    c.call (.send direction data) = (.refused .unalignedLength data, c) := by
  rw [call, apply_eq, if_neg h]

/-- No call changes where a reset leads or how long a block is. -/
theorem call_kept (c : Cipher) (next : Call) :
    (c.call next).2.reset = c.reset ∧ (c.call next).2.blockSize = c.blockSize := by
  cases next with
  | reset => exact ⟨c.reset_reset, c.blockSize_reset⟩
  | send direction data =>
      cases hsent : c.apply direction data with
      | error cause => rw [call, hsent]; exact ⟨rfl, rfl⟩
      | ok result =>
          rw [call_of_apply hsent]
          obtain ⟨hreset, hblock, -⟩ := kept_of_apply hsent
          exact ⟨hreset, hblock⟩

theorem after_kept (c : Cipher) (calls : List Call) :
    (c.after calls).reset = c.reset ∧ (c.after calls).blockSize = c.blockSize := by
  induction calls generalizing c with
  | nil => exact ⟨rfl, rfl⟩
  | cons first calls ih =>
      rw [after_cons]
      obtain ⟨hreset, hblock⟩ := ih (c.call first).2
      exact ⟨hreset.trans (c.call_kept first).1, hblock.trans (c.call_kept first).2⟩

/-- Wherever calls have taken a cipher, a reset takes it back to where it was made. -/
theorem reset_after (hmake : make kind mode key nonce = .ok c) (calls : List Call) :
    (c.after calls).reset = c :=
  (c.after_kept calls).1.trans (make_spec hmake).1

/-- To reset a cipher is to make it again from the buffers that its key and nonce are kept in. -/
theorem reset_after_eq_fresh (hmake : make kind mode key nonce = .ok c) (calls : List Call) :
    (c.after calls).reset = fresh kind mode (keptKey kind key) (keptNonce kind mode nonce) := by
  rw [reset_after hmake]
  exact (make_eq_ok_iff.mp (make_kept hmake)).2

/-- Only block ciphers have lengths that do not fit. -/
theorem misfit_iff (kind : CipherKind) (data : Bytes) :
    data.length % kind.blockSize ≠ 0 ↔
      ∃ p, kind = .block p ∧ data.length % p.blockSize ≠ 0 := by
  cases kind with
  | plain => simp [CipherKind.blockSize, Nat.mod_one]
  | block p => simp [CipherKind.blockSize]
  | stream s => simp [CipherKind.blockSize, Nat.mod_one]

theorem call_refused_iff (c : Cipher) (direction : Direction) (data : Bytes)
    (cause : CipherError) (buffer : Bytes) :
    (c.call (.send direction data)).1 = .refused cause buffer ↔
      data.length % c.blockSize ≠ 0 ∧ cause = .unalignedLength ∧ buffer = data := by
  by_cases hfit : data.length % c.blockSize = 0
  · obtain ⟨out, c₁, hsent⟩ := apply_eq_ok_of_aligned c direction data hfit
    rw [call_of_apply hsent]
    simp [hfit]
  · rw [call_of_misfit hfit]
    simp [hfit, eq_comm]

/-- Two calls with data that fit are one call with the data joined. -/
theorem call_append (direction : Direction) (hx : x.length % c.blockSize = 0)
    (hy : y.length % c.blockSize = 0) :
    ∃ x' y' c₁ c₂, x'.length = x.length ∧ y'.length = y.length ∧
      c.call (.send direction x) = (.sent x', c₁) ∧
      c₁.call (.send direction y) = (.sent y', c₂) ∧
      c.call (.send direction (x ++ y)) = (.sent (x' ++ y'), c₂) := by
  obtain ⟨x', c₁, hfirst⟩ := apply_eq_ok_of_aligned c direction x hx
  have hblock : c₁.blockSize = c.blockSize := (kept_of_apply hfirst).2.1
  obtain ⟨y', c₂, hsecond⟩ := apply_eq_ok_of_aligned c₁ direction y (by rw [hblock, hy])
  exact ⟨x', y', c₁, c₂, length_of_apply hfirst, length_of_apply hsecond, call_of_apply hfirst,
    call_of_apply hsecond, call_of_apply (apply_append hfirst hsecond)⟩

/-- What the replies of a new cipher tell, whatever calls were made before and come behind: which
calls are refused; that a refused call leaves its buffer as it was and no trace in what follows;
that data of one direction may as well be sent at once; and that a reset makes the cipher anew,
which it can be from what is kept of its key and nonce. -/
theorem replies_of_history (hmake : make kind mode key nonce = .ok c)
    (earlier later : List Call) :
    (∀ direction data cause buffer,
      ((c.after earlier).call (.send direction data)).1 = .refused cause buffer ↔
        cause = .unalignedLength ∧ buffer = data ∧
          ∃ p, kind = .block p ∧ data.length % p.blockSize ≠ 0) ∧
    (∀ direction data cause buffer,
      ((c.after earlier).call (.send direction data)).1 = .refused cause buffer →
        ∃ rest, c.replies (earlier ++ later) = c.replies earlier ++ rest ∧
          c.replies (earlier ++ .send direction data :: later) =
            c.replies earlier ++ .refused cause buffer :: rest) ∧
    (∀ direction x y, x.length % kind.blockSize = 0 → y.length % kind.blockSize = 0 →
      ∃ x' y' rest, x'.length = x.length ∧ y'.length = y.length ∧
        c.replies (earlier ++ .send direction x :: .send direction y :: later) =
          c.replies earlier ++ .sent x' :: .sent y' :: rest ∧
        c.replies (earlier ++ .send direction (x ++ y) :: later) =
          c.replies earlier ++ .sent (x' ++ y') :: rest) ∧
    make kind mode (keptKey kind key) (keptNonce kind mode nonce) = .ok c ∧
    c.replies (earlier ++ .reset :: later) =
      c.replies earlier ++ .restarted :: c.replies later := by
  obtain ⟨-, hsize, -⟩ := make_spec hmake
  have hblock := (c.after_kept earlier).2
  have hkind : (c.after earlier).blockSize = kind.blockSize := hblock.trans hsize
  have hrefused := call_refused_iff (c.after earlier)
  rw [hkind] at hrefused
  refine ⟨?_, ?_, ?_, make_kept hmake, ?_⟩
  · intro direction data cause buffer
    rw [hrefused, misfit_iff]
    constructor
    · rintro ⟨hmisfit, hcause, hbuffer⟩
      exact ⟨hcause, hbuffer, hmisfit⟩
    · rintro ⟨hcause, hbuffer, hmisfit⟩
      exact ⟨hmisfit, hcause, hbuffer⟩
  · intro direction data cause buffer hreply
    obtain ⟨hmisfit, rfl, rfl⟩ := (hrefused direction data cause buffer).mp hreply
    rw [← hkind] at hmisfit
    refine ⟨_, replies_append c earlier later, ?_⟩
    rw [replies_append, replies_cons, call_of_misfit hmisfit]
  · intro direction x y hx hy
    rw [← hkind] at hx hy
    obtain ⟨x', y', c₁, c₂, hx', hy', hfirst, hsecond, hjoined⟩ :=
      call_append direction hx hy
    refine ⟨x', y', c₂.replies later, hx', hy', ?_, ?_⟩
    · rw [replies_append, replies_cons, hfirst, replies_cons, hsecond]
    · rw [replies_append, replies_cons, hjoined]
  · have hanew : (c.after earlier).call .reset = (.restarted, c) := by
      rw [call, reset_after hmake]
    rw [replies_append, replies_cons, hanew]

/-- One block, a refused piece of the other direction, a reset and the block again. -/
theorem replies_of_history_refused_piece :
    let block := Call.send .encrypt (List.replicate 16 7)
    let piece := Call.send .decrypt [1, 2, 3]
    ∃ c, make (.block .rc6) .cbc Defaults.keyA Defaults.nonce = .ok c ∧
      ∃ reply, c.replies [block] = [reply] ∧
        c.replies [block, piece, .reset, block] =
          [reply, .refused .unalignedLength [1, 2, 3], .restarted, reply] := by
  intro block piece
  let c := fresh (.block .rc6) .cbc Defaults.keyA Defaults.nonce
  have hmake : make (.block .rc6) .cbc Defaults.keyA Defaults.nonce = .ok c := rfl
  have hone : c.replies [block] = [(c.call block).1] := rfl
  refine ⟨c, hmake, (c.call block).1, hone, ?_⟩
  obtain ⟨hrefused, htrace, -⟩ := replies_of_history hmake [block] []
  obtain ⟨-, -, -, -, hreset⟩ := replies_of_history hmake [block, piece] [block]
  have hpiece := (hrefused .decrypt [1, 2, 3] .unalignedLength [1, 2, 3]).mpr
    ⟨rfl, rfl, .rc6, rfl, by decide⟩
  obtain ⟨rest, hwithout, hwith⟩ := htrace .decrypt [1, 2, 3] .unalignedLength [1, 2, 3] hpiece
  have hrest : rest = [] := List.self_eq_append_right.mp hwithout
  rw [hrest, hone] at hwith
  calc c.replies [block, piece, .reset, block]
      = c.replies ([block] ++ [piece]) ++ .restarted :: c.replies [block] := hreset
    _ = [(c.call block).1, .refused .unalignedLength [1, 2, 3]] ++
          .restarted :: [(c.call block).1] := by rw [hwith, hone]; rfl

/-- A reply shows the place in the stream, and nothing else of a cipher. -/
theorem call_of_engine {c c' : Cipher} (h : c.engine = c'.engine) (next : Call) :
    (c.call next).1 = (c'.call next).1 ∧ (c.call next).2.engine = (c'.call next).2.engine := by
  obtain ⟨kind, mode, engine⟩ := c
  obtain ⟨kind', mode', engine'⟩ := c'
  cases (h : engine = engine')
  cases next with
  | reset => cases engine <;> exact ⟨rfl, rfl⟩
  | send direction data =>
      cases engine with
      | plain => exact ⟨rfl, rfl⟩
      | chain chain =>
          by_cases hfit : data.length % chain.cipher.size = 0
          · simp only [call, apply, hfit, ↓reduceIte, and_self]
          · simp only [call, apply, hfit, ↓reduceIte, and_self]
      | stream start now => exact ⟨rfl, rfl⟩

theorem replies_of_engine {c c' : Cipher} (h : c.engine = c'.engine) (calls : List Call) :
    c.replies calls = c'.replies calls := by
  induction calls generalizing c c' with
  | nil => rfl
  | cons first calls ih =>
      obtain ⟨hreply, hengine⟩ := call_of_engine h first
      rw [replies_cons, replies_cons, hreply, ih hengine]

/-- A cipher is made exactly of a key and a nonce that can be used: one that has a key refuses
any other length before it looks at the nonce, and of the nonce only the bytes that are read
have to be there.  Two ciphers of one kind that were made from the same key, if there is one,
in the same mode, if there is one, and from nonces with the same bytes to read cannot be told
apart by any calls.  Nor is anything else looked at when the cipher starts again: it does so as
if it were made from what was kept of its key and nonce. -/
theorem make_reads_prefix (kind : CipherKind) (mode : ChainMode) (key nonce : Bytes) :
    (kind.nonceSize mode =
      match kind, mode with
      | .block _, .ecb => 0
      | .block p, _ => p.blockSize
      | .stream .chacha20, _ => 12
      | _, _ => 0) ∧
    (make kind mode key nonce = .error .invalidKeySize ↔
      kind ≠ .plain ∧ key.length ≠ kind.keySize) ∧
    (make kind mode key nonce = .error .invalidNonceSize ↔
      (kind = .plain ∨ key.length = kind.keySize) ∧ nonce.length < kind.nonceSize mode) ∧
    ((∃ c, make kind mode key nonce = .ok c) ↔
      (kind = .plain ∨ key.length = kind.keySize) ∧ kind.nonceSize mode ≤ nonce.length) ∧
    ∀ c, make kind mode key nonce = .ok c →
      (∀ mode' key' nonce' c', make kind mode' key' nonce' = .ok c' →
        (kind = .plain ∨ key = key') → ((∃ p, kind = .block p) → mode = mode') →
        nonce.take (kind.nonceSize mode) = nonce'.take (kind.nonceSize mode) →
        ∀ calls, c.replies calls = c'.replies calls) ∧
      (∀ calls, ((c.after calls).call .reset).2 = c) ∧
      make kind mode (keptKey kind key) (keptNonce kind mode nonce) = .ok c := by
  have hread : kind.nonceSize mode =
      match kind, mode with
      | .block _, .ecb => 0
      | .block p, _ => p.blockSize
      | .stream .chacha20, _ => 12
      | _, _ => 0 := by
    cases kind with
    | plain => rfl
    | block p => cases mode <;> rfl
    | stream s => cases s <;> rfl
  obtain ⟨hbadKey, hbadNonce, haccepted⟩ := make_outcome kind mode key nonce
  refine ⟨hread, hbadKey, hbadNonce, haccepted, ?_⟩
  intro c hmake
  refine ⟨?_, ?_, make_kept hmake⟩
  · intro mode' key' nonce' c' hmake' hkey hmode hnonce calls
    obtain ⟨-, rfl⟩ := make_eq_ok_iff.mp hmake
    obtain ⟨-, rfl⟩ := make_eq_ok_iff.mp hmake'
    exact replies_of_engine (engine_fresh_eq hkey hmode hnonce) calls
  · exact fun calls => reset_after hmake calls

/-- ChaCha20 in two modes, from nonces that differ in their thirteenth byte. -/
theorem make_reads_prefix_of_chacha20 :
    let nonce := List.replicate 12 5
    ∃ c c', make (.stream .chacha20) .ecb Defaults.key256 (nonce ++ [1]) = .ok c ∧
      make (.stream .chacha20) .ctr Defaults.key256 (nonce ++ [2, 3]) = .ok c' ∧
      ∀ calls, c.replies calls = c'.replies calls := by
  intro nonce
  let kind : CipherKind := .stream .chacha20
  have hmake : make kind .ecb Defaults.key256 (nonce ++ [1]) =
      .ok (fresh kind .ecb Defaults.key256 (nonce ++ [1])) := rfl
  have hmake' : make kind .ctr Defaults.key256 (nonce ++ [2, 3]) =
      .ok (fresh kind .ctr Defaults.key256 (nonce ++ [2, 3])) := rfl
  have hmode : (∃ p, kind = .block p) → ChainMode.ecb = .ctr := nofun
  obtain ⟨-, -, -, -, hmade⟩ := make_reads_prefix kind .ecb Defaults.key256 (nonce ++ [1])
  exact ⟨_, _, hmake, hmake', (hmade _ hmake).1 _ _ _ _ hmake' (.inr rfl) hmode rfl⟩

end Cipher

end FirmwareUpdate
