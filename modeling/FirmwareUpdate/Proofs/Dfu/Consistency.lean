/-
The fields of a session fit together, whatever was done to the bootloader.  In a download
cipher and scanner are where the blocks since idle have taken them, in an upload cipher and
checksum are where the bytes read since idle have, and the pointer is as far on as both say.
-/
import FirmwareUpdate.Proofs.Dfu.Exchanges
import FirmwareUpdate.Proofs.Dfu.Upload

namespace FirmwareUpdate

namespace Dfu

/-- A device that has decrypted `received` to `plain`, from the start of a session on. -/
structure Receiving (setup : Setup) (cipher : Cipher) (received plain : Bytes) (d : Device) :
    Prop where
  decrypt : cipher.reset.decrypt received = .ok (plain, d.session.cipher)
  scanner : d.session.scanner =
    setup.profile.checksum.map fun kind => (Scanner.start kind).update plain
  length : plain.length + d.session.remaining =
    (setup.region d.session.target).length.toNat

/-- The text of the replies of an upload: the bytes that were read, the checksum behind them
once it is sent, and zeros up to a whole block. -/
def Setup.replyText (setup : Setup) (block : Nat) (fetched : Bytes) (trailerSent : Bool) : Bytes :=
  Bytes.padZero block (fetched ++ if trailerSent then setup.trailer fetched else [])

theorem Setup.replyText_of_aligned {setup : Setup} {block : Nat} {fetched : Bytes}
    (hblock : 0 < block) (h : fetched.length % block = 0) :
    setup.replyText block fetched false = fetched := by
  rw [replyText, if_neg Bool.false_ne_true, List.append_nil, Bytes.padZero_of_aligned hblock h]

/-- A checksum of no bytes is sent as well as not. -/
theorem Setup.replyText_whole (setup : Setup) (block : Nat) (fetched : Bytes) :
    setup.replyText block fetched (0 < setup.trailerWidth) =
      Bytes.padZero block (fetched ++ setup.trailer fetched) := by
  unfold replyText
  by_cases hwidth : 0 < setup.trailerWidth
  · rw [if_pos (decide_eq_true hwidth)]
  · have htrailer : setup.trailer fetched = [] := by
      apply List.eq_nil_of_length_eq_zero
      rw [setup.length_trailer]
      omega
    rw [htrailer, ite_self]

/-- A device that has read `fetched` and replied `replied`, from the start of a session on.
While something is left to send, whole blocks have been sent. -/
structure Replying (setup : Setup) (cipher : Cipher) (fetched replied : Bytes) (d : Device) :
    Prop where
  encrypt : cipher.reset.encrypt
    (setup.replyText cipher.blockSize fetched d.session.trailerSent) =
      .ok (replied, d.session.cipher)
  uploadSum : d.session.uploadSum =
    setup.profile.checksum.map fun kind => Checksum.ofBytes kind fetched
  length : fetched.length + d.session.remaining =
    (setup.region d.session.target).length.toNat
  blocks : ¬ (d.session.remaining = 0 ∧ d.session.trailerWidth = 0) →
    fetched.length % cipher.blockSize = 0

/-- A state that needs an ability is only one of a device that has it, and the checksum of an
upload is sent last. -/
structure Orderly (d : Device) : Prop where
  syncs : d.session.phase.stage = .downloadSync → d.setup.profile.syncs = true
  uploads : d.session.phase.stage = .uploadIdle → d.setup.profile.uploads = true
  complete : d.session.trailerSent = true → d.session.remaining = 0

/-- What holds of a device in relation to what was exchanged since it was last idle. -/
structure Consistent (setup : Setup) (cipher : Cipher) (d : Device) (log : List Exchange) : Prop
    extends Sound setup cipher d, Pointed setup d, Orderly d where
  receiving : d.session.phase.downloads = true →
    ∃ plain, Receiving setup cipher (log.flatMap Exchange.received) plain d
  replying : d.session.phase = .uploadIdle →
    Replying setup cipher (log.flatMap Exchange.fetched) (log.flatMap Exchange.replied) d

namespace Orderly

variable {d : Device}

theorem restarted (d : Device) (s : Session) : Orderly (d.withSession (s.restart d.setup)) :=
  ⟨Stage.noConfusion, Stage.noConfusion, fun hsent => absurd hsent Bool.false_ne_true⟩

theorem start (setup : Setup) (cipher : Cipher) (board : Board) :
    Orderly (Device.start setup cipher board) :=
  restarted (Device.start setup cipher board) _

theorem afterReset (h : Orderly d) (s : Session) (hsent : s.trailerSent = d.session.trailerSent)
    (hremaining : s.remaining = d.session.remaining) :
    Orderly ((d.withSession s).inPhase d.session.phase.afterReset) := by
  have hcomplete : s.trailerSent = true → s.remaining = 0 := by
    rw [hsent, hremaining]
    exact h.complete
  rcases d.session.phase.afterReset_cases with hsame | herror
  · rw [hsame]
    exact ⟨h.syncs, h.uploads, hcomplete⟩
  · rw [herror]
    exact ⟨Stage.noConfusion, Stage.noConfusion, hcomplete⟩

theorem move (h : Orderly d) {calls : List Call} {d' : Device} (hmove : Move d calls d') :
    Orderly d' := by
  cases hmove with
  | stay => exact h
  | failures program read manifest => exact ⟨h.syncs, h.uploads, h.complete⟩
  | arm harm => exact ⟨h.syncs, h.uploads, h.complete⟩
  | restart => exact restarted d d.session
  | select htarget => exact restarted d { d.session with target := _ }
  | manifested hphase hnone => exact restarted d { d.session with manifested := true }
  | programmed htakes hboard =>
      refine ⟨?_, ?_, ?_⟩
      · intro hsync
        simp only [Device.programmedPhase] at hsync
        split at hsync
        next hsyncs => exact hsyncs
        next => cases hsync
      · intro hupload
        simp only [Device.programmedPhase] at hupload
        split at hupload <;> cases hupload
      · intro hsent
        have hzero : d.session.remaining = 0 := h.complete hsent
        simp only [Session.advance, Session.received, Session.loaded]
        rw [hzero, Nat.zero_sub]
  | @sent length data secret cipher hsends =>
      obtain ⟨buffer, hsession⟩ := hsends.sentSession_eq
      rw [hsession]
      refine ⟨Stage.noConfusion, fun _ => hsends.enabled, ?_⟩
      intro hsent
      simp only [Device.withSession, Bool.or_eq_true, decide_eq_true_eq] at hsent ⊢
      rcases hsent with hbefore | htrailer
      · rw [h.complete hbefore, Nat.zero_sub]
      · have hall : (d.nextFrame length).data = d.session.remaining :=
          Frame.data_plan_of_trailer htrailer
        rw [Device.length_of_fetch hsends.fetch, hall, Nat.sub_self]
  | resetLeaving hleaves => exact h.afterReset _ rfl rfl
  | resetStaying hleaves => exact h.afterReset d.session rfl rfl
  | _ => exact ⟨Stage.noConfusion, Stage.noConfusion, h.complete⟩

end Orderly

namespace Receiving

variable {setup : Setup} {cipher : Cipher} {received plain : Bytes} {d : Device}

/-- An idle device has received nothing. -/
theorem nil (hsound : Sound setup cipher d) (hidle : d.session.phase = .idle) :
    Receiving setup cipher [] [] d := by
  have hsession := hsound.session_eq hidle
  have hcipher : d.session.cipher = cipher.reset := congrArg Session.cipher hsession
  refine ⟨?_, congrArg Session.scanner hsession, ?_⟩
  · rw [hcipher]
    exact cipher.reset.apply_nil .decrypt
  · rw [List.length_nil, Nat.zero_add]
    exact congrArg Session.remaining hsession

/-- One more block takes cipher, scanner and pointer one step further. -/
theorem block (h : Receiving setup cipher received plain d) {data next : Bytes} {after : Cipher}
    (htakes : d.TakesBlock data next after) (phase : Phase) (board : Board) :
    Receiving setup cipher (received ++ data) (plain ++ next)
      { d with
        session :=
          { ((d.session.loaded data).received next after).advance data.length with
            phase := phase }
        board := board } := by
  obtain ⟨buffer, hreceived⟩ := htakes.received_eq
  have hlength := h.length
  have hroom := htakes.room
  have hnext := htakes.length_plain
  rw [hreceived]
  refine ⟨Cipher.apply_append h.decrypt htakes.decrypt, ?_, ?_⟩
  · simp only [Session.advance]
    rw [h.scanner, Option.map_map]
    congr 1
    funext kind
    exact (Scanner.update_append _ _ _).symm
  · simp only [Session.advance, List.length_append]
    omega

end Receiving

namespace Replying

variable {setup : Setup} {cipher : Cipher} {fetched replied : Bytes} {d : Device}

/-- An idle device has replied nothing. -/
theorem nil (hsound : Sound setup cipher d) (hidle : d.session.phase = .idle) :
    Replying setup cipher [] [] d := by
  have hsession := hsound.session_eq hidle
  have hcipher : d.session.cipher = cipher.reset := congrArg Session.cipher hsession
  have hunsent : d.session.trailerSent = false := congrArg Session.trailerSent hsession
  refine ⟨?_, congrArg Session.uploadSum hsession, ?_, fun _ => Nat.zero_mod _⟩
  · rw [hcipher, hunsent, Setup.replyText_of_aligned cipher.blockSize_pos (Nat.zero_mod _)]
    exact cipher.reset.apply_nil .encrypt
  · rw [List.length_nil, Nat.zero_add]
    exact congrArg Session.remaining hsession

theorem blockSize_eq (h : Replying setup cipher fetched replied d) :
    d.session.cipher.blockSize = cipher.blockSize := by
  rw [(Cipher.kept_of_apply h.encrypt).2.1, Cipher.blockSize_reset]

/-- The frame that comes next is the rest, or whole blocks of the region. -/
theorem nextFrame_cases (h : Replying setup cipher fetched replied d)
    (hunsent : d.session.trailerSent = false) (length : Nat) :
    d.nextFrame length =
        ⟨d.session.remaining, setup.trailerWidth,
          Bytes.roundUp (d.session.remaining + setup.trailerWidth) cipher.blockSize⟩ ∨
      ∃ whole, d.nextFrame length = ⟨whole, 0, whole⟩ ∧ whole % cipher.blockSize = 0 := by
  unfold Device.nextFrame
  rw [h.blockSize_eq, Session.trailerWidth_of_unsent h.uploadSum hunsent]
  by_cases hfits : Bytes.roundUp (d.session.remaining + setup.trailerWidth) cipher.blockSize ≤
      min length d.setup.profile.transferSize.toNat
  · exact .inl (Frame.plan_of_fits hfits)
  · exact .inr (Frame.plan_of_not_fits cipher.blockSize_pos hfits)

/-- The frame that comes next continues the text. -/
theorem replyText_append_contents (h : Replying setup cipher fetched replied d)
    (hunsent : d.session.trailerSent = false)
    (hleft : ¬ (d.session.remaining = 0 ∧ d.session.trailerWidth = 0)) {length : Nat}
    {data : Bytes} (hdata : data.length = (d.nextFrame length).data) :
    setup.replyText cipher.blockSize fetched false ++
        d.session.contents (d.nextFrame length) data =
      setup.replyText cipher.blockSize (fetched ++ data)
        (0 < (d.nextFrame length).trailer) := by
  have hblocks := h.blocks hleft
  rw [Setup.replyText_of_aligned cipher.blockSize_pos hblocks]
  rcases h.nextFrame_cases hunsent length with hframe | ⟨whole, hframe, hwhole⟩
  · rw [hframe] at hdata ⊢
    simp only at hdata
    rw [← hdata, Session.append_contents_last h.uploadSum cipher.blockSize_pos hblocks]
    exact (setup.replyText_whole _ _).symm
  · rw [hframe] at hdata ⊢
    rw [Session.contents_whole]
    exact (Setup.replyText_of_aligned cipher.blockSize_pos (by
      rw [List.length_append, hdata, Nat.add_mod, hblocks, hwhole]; rfl)).symm

/-- One more frame takes cipher, checksum and pointer one step further. -/
theorem frame (h : Replying setup cipher fetched replied d)
    (hcomplete : d.session.trailerSent = true → d.session.remaining = 0) {length : Nat}
    {data secret : Bytes} {after : Cipher} (hsends : d.SendsFrame length data secret after) :
    Replying setup cipher (fetched ++ data) (replied ++ secret)
      (d.withSession (d.sentSession (d.nextFrame length) data secret after)) := by
  -- behind the checksum nothing would be left to send
  have hunsent : d.session.trailerSent = false := by
    rw [← Bool.not_eq_true]
    intro hsent
    apply hsends.left
    refine ⟨hcomplete hsent, ?_⟩
    unfold Session.trailerWidth
    rw [hsent]
    split <;> rfl
  have hdata := Device.length_of_fetch hsends.fetch
  have hblocks := h.blocks hsends.left
  have hlength := h.length
  have hle := hsends.length_data_le
  have htext := h.replyText_append_contents hunsent hsends.left hdata
  have hsum := Session.uploadSum_update h.uploadSum data
  have hencrypt := h.encrypt
  rw [hunsent] at hencrypt
  obtain ⟨buffer, hsession⟩ := hsends.sentSession_eq
  rw [hsession, hunsent, Bool.false_or]
  refine ⟨?_, hsum, ?_, ?_⟩
  · simp only [Device.withSession]
    rw [← htext]
    exact Cipher.apply_append hencrypt hsends.encrypt
  · simp only [Device.withSession, List.length_append]
    omega
  · intro hleft
    rcases h.nextFrame_cases hunsent length with hframe | ⟨whole, hframe, hwhole⟩
    · -- with the rest nothing is left
      exfalso
      apply hleft
      rw [hframe] at hdata ⊢
      refine ⟨?_, Session.trailerWidth_of_done hsum rfl⟩
      simp only [Device.withSession]
      rw [hdata, Nat.sub_self]
    · rw [hframe] at hdata
      rw [List.length_append, hdata, Nat.add_mod, hblocks, hwhole]
      rfl

end Replying

namespace Consistent

variable {setup : Setup} {cipher : Cipher} {d : Device} {log : List Exchange}

theorem start (setup : Setup) (cipher : Cipher) (board : Board) :
    Consistent setup cipher (Device.start setup cipher board) [] :=
  { Sound.start setup cipher board, Pointed.start setup cipher board,
    Orderly.start setup cipher board with
    receiving := nofun
    replying := nofun }

theorem receiving_kept (h : Consistent setup cipher d log)
    (hphase : d.session.phase = .idle ∨ d.session.phase.downloads = true) :
    ∃ plain, Receiving setup cipher ((d.keptLog log).flatMap Exchange.received) plain d := by
  rcases hphase with hidle | hdownloads
  · rw [Device.keptLog_of_idle hidle]
    exact ⟨[], .nil h.toSound hidle⟩
  · rw [Device.keptLog_of_busy (by rintro hidle; rw [hidle] at hdownloads; cases hdownloads)]
    exact h.receiving hdownloads

theorem replying_kept (h : Consistent setup cipher d log)
    (hphase : d.session.phase = .idle ∨ d.session.phase = .uploadIdle) :
    Replying setup cipher ((d.keptLog log).flatMap Exchange.fetched)
      ((d.keptLog log).flatMap Exchange.replied) d := by
  rcases hphase with hidle | hupload
  · rw [Device.keptLog_of_idle hidle]
    exact .nil h.toSound hidle
  · rw [Device.keptLog_of_busy (by rw [hupload]; exact nofun)]
    exact h.replying hupload

theorem receiving_progress (h : Consistent setup cipher d log) {e : Exchange} {d' : Device}
    (hprogress : Progress d e d') (hdownloads : d'.session.phase.downloads = true) :
    ∃ plain, Receiving setup cipher
      ((d.keptLog log).flatMap Exchange.received ++ e.received) plain d' := by
  cases hprogress with
  | closed hclosed =>
      rcases hclosed with hidle | ⟨code, hcode⟩
      · rw [hidle] at hdownloads
        cases hdownloads
      · rw [hcode] at hdownloads
        cases hdownloads
  | @still phase armed board hphase =>
      have hbefore : d.session.phase = .idle ∨ d.session.phase.downloads = true := by
        rcases hphase with rfl | ⟨htakes, -⟩
        · exact .inr hdownloads
        · exact h.coherent.idle_or_downloads htakes
      obtain ⟨plain, hreceiving⟩ := h.receiving_kept hbefore
      rw [List.append_nil]
      exact ⟨plain, hreceiving.decrypt, hreceiving.scanner, hreceiving.length⟩
  | @block data next after board htakes =>
      obtain ⟨plain, hreceiving⟩ :=
        h.receiving_kept (h.coherent.idle_or_downloads htakes.phase)
      exact ⟨plain ++ next, hreceiving.block htakes _ board⟩
  | frame hsends => cases hdownloads

theorem replying_progress (h : Consistent setup cipher d log) {e : Exchange} {d' : Device}
    (hprogress : Progress d e d') (hupload : d'.session.phase = .uploadIdle) :
    Replying setup cipher ((d.keptLog log).flatMap Exchange.fetched ++ e.fetched)
      ((d.keptLog log).flatMap Exchange.replied ++ e.replied) d' := by
  cases hprogress with
  | closed hclosed =>
      rcases hclosed with hidle | ⟨code, hcode⟩
      · rw [hidle] at hupload
        cases hupload
      · rw [hcode] at hupload
        cases hupload
  | @still phase armed board hphase =>
      have hbefore : d.session.phase = .uploadIdle := by
        rcases hphase with rfl | ⟨-, hdownloads⟩
        · exact hupload
        · change phase = .uploadIdle at hupload
          rw [hupload] at hdownloads
          cases hdownloads
      have hreplying := h.replying_kept (.inr hbefore)
      simp only [List.append_nil]
      exact ⟨hreplying.encrypt, hreplying.uploadSum, hreplying.length, hreplying.blocks⟩
  | block htakes =>
      simp only [Device.programmedPhase] at hupload
      split at hupload <;> cases hupload
  | frame hsends =>
      have hreplying := h.replying_kept (h.coherent.idle_or_uploads hsends.phase)
      exact hreplying.frame h.complete hsends

/-- Every step keeps the fields together. -/
theorem step (h : Consistent setup cipher d log) (s : Step) :
    Consistent setup cipher (d.step s).device (d.keptLog log ++ [d.exchange s]) := by
  refine { h.toSound.step s, h.toPointed.step s, h.toOrderly.move (d.step_move s) with
    receiving := ?_, replying := ?_ }
  · simp only [List.flatMap_append, List.flatMap_singleton]
    exact h.receiving_progress (Device.step_progress h.coherent s)
  · simp only [List.flatMap_append, List.flatMap_singleton]
    exact h.replying_progress (Device.step_progress h.coherent s)

end Consistent

/-- Whatever is done to a bootloader, its state is one of the protocol, it has an error code
exactly in the error state, and all its fields fit together and with what was exchanged since
it was last idle. -/
theorem consistent_of_run (setup : Setup) (cipher : Cipher) (board : Board) (steps : List Step) :
    let d := (Device.start setup cipher board).after steps
    let log := (Device.start setup cipher board).sinceIdle (fun d s => [d.exchange s]) [] steps
    d.session.phase.state ∈ [2, 3, 5, 6, 9, 10] ∧
      (d.session.phase.status = 0 ↔ d.session.phase.state ≠ 10) ∧
      Consistent setup cipher d log := by
  intro d log
  have h : Consistent setup cipher d log :=
    Device.sinceIdle_induction (motive := Consistent setup cipher)
      (fun _ _ s h => h.step s) (.start setup cipher board) steps
  exact ⟨h.coherent.state_mem, h.coherent.status_eq_zero_iff, h⟩

/-- Two blocks and a request for the status between them: what was exchanged is the blocks. -/
example :
    let setup : Setup := ⟨{ syncs := true }, 0, ⟨0, 16⟩, none⟩
    let board : Board := ⟨⟨0, List.replicate 16 0xFF⟩, ⟨0, []⟩, {}, none, none, none⟩
    let download (data : Bytes) : Step :=
      .control { type := 0x21, code := 1, index := 0, length := UInt16.ofNat data.length, data }
    let status : Step := .control { type := 0xA1, code := 3, index := 0, length := 6 }
    let steps := [download [1, 2], status, download [3]]
    ((Device.start setup ⟨.plain, .ecb, .plain⟩ board).sinceIdle
      (fun d s => [d.exchange s]) [] steps).flatMap Exchange.received = [1, 2, 3] := by
  decide

end Dfu

end FirmwareUpdate
