/-
An upload from end to end.  Whatever sizes the host asks for, as long as each leaves room
for a block and for the last bytes with their checksum, the replies joined are the region
with its checksum, encrypted at one go.
-/
import FirmwareUpdate.Proofs.Dfu.Memory
import FirmwareUpdate.Proofs.Dfu.Moves
import FirmwareUpdate.Proofs.Dfu.Requests

namespace FirmwareUpdate

namespace Dfu

namespace Setup

/-- The number of bytes that the checksum of an upload takes. -/
def trailerWidth (setup : Setup) : Nat :=
  setup.profile.checksum.elim 0 ChecksumKind.width

/-- The checksum that an upload sends behind the bytes of the region. -/
def trailer (setup : Setup) (stored : Bytes) : Bytes :=
  setup.profile.checksum.elim [] fun kind => (Checksum.ofBytes kind stored).trailer

theorem length_trailer (setup : Setup) (stored : Bytes) :
    (setup.trailer stored).length = setup.trailerWidth := by
  unfold trailer trailerWidth
  cases setup.profile.checksum with
  | none => rfl
  | some kind => exact (Checksum.length_trailer _).trans (congrArg _ (Checksum.kind_update _ _))

/-- The least room that a request must leave, so that the upload can always go on. -/
def leastRoom (setup : Setup) (block : Nat) : Nat :=
  max block (Bytes.roundUp (block - 1 + setup.trailerWidth) block)

end Setup

namespace Session

variable {s : Session} {setup : Setup} {sent : Bytes}

theorem trailerWidth_of_unsent
    (hsum : s.uploadSum = setup.profile.checksum.map fun kind => Checksum.ofBytes kind sent)
    (hunsent : s.trailerSent = false) : s.trailerWidth = setup.trailerWidth := by
  unfold trailerWidth Setup.trailerWidth
  rw [hsum, hunsent]
  cases setup.profile.checksum with
  | none => rfl
  | some kind => exact congrArg ChecksumKind.width (Checksum.kind_update _ _)

/-- With the last bytes of the region its checksum is sent, if there is one. -/
theorem trailerWidth_of_done
    (hsum : s.uploadSum = setup.profile.checksum.map fun kind => Checksum.ofBytes kind sent)
    (hdone : s.trailerSent = decide (0 < setup.trailerWidth)) : s.trailerWidth = 0 := by
  unfold trailerWidth
  cases hkind : setup.profile.checksum with
  | none => rw [hsum, hkind, Option.map_none]
  | some kind =>
      have hsent : s.trailerSent = true := by
        simp only [hdone, Setup.trailerWidth, hkind, Option.elim_some, kind.width_pos,
          decide_true]
      rw [hsent]
      split <;> rfl

/-- The checksum of an upload goes on with the bytes that are read next. -/
theorem uploadSum_update
    (hsum : s.uploadSum = setup.profile.checksum.map fun kind => Checksum.ofBytes kind sent)
    (data : Bytes) :
    s.uploadSum.map (·.update data) =
      setup.profile.checksum.map fun kind => Checksum.ofBytes kind (sent ++ data) := by
  rw [hsum, Option.map_map]
  congr 1
  funext kind
  exact (Checksum.update_append _ _ _).symm

/-- A frame of whole blocks is what was read. -/
theorem contents_whole (count : Nat) (data : Bytes) :
    s.contents ⟨count, 0, count⟩ data = data := by
  have htrailer : ((s.uploadSum.map (·.update data)).elim [] fun sum => sum.trailer.take 0) =
      [] := by
    cases s.uploadSum <;> rfl
  simp only [contents, htrailer, List.append_nil, List.length_nil, Nat.add_zero, Nat.sub_self,
    List.replicate_zero]

/-- The checksum of a frame is that of everything sent so far. -/
theorem contents_eq
    (hsum : s.uploadSum = setup.profile.checksum.map fun kind => Checksum.ofBytes kind sent)
    (frame : Frame) (data : Bytes) :
    s.contents frame data =
      let trailer := (setup.trailer (sent ++ data)).take frame.trailer
      data ++ trailer ++ List.replicate (frame.size - (frame.data + trailer.length)) 0 := by
  unfold contents Setup.trailer
  rw [hsum]
  cases setup.profile.checksum with
  | none => simp only [Option.map_none, Option.elim_none, List.take_nil]
  | some kind =>
      have hupdate : (Checksum.ofBytes kind sent).update data =
          Checksum.ofBytes kind (sent ++ data) :=
        (Checksum.update_append _ _ _).symm
      simp only [Option.map_some, Option.elim_some, hupdate]

/-- What was sent in whole blocks and the last frame are the whole. -/
theorem append_contents_last
    (hsum : s.uploadSum = setup.profile.checksum.map fun kind => Checksum.ofBytes kind sent)
    {block : Nat} (hblock : 0 < block) (hsent : sent.length % block = 0) (data : Bytes) :
    sent ++
        s.contents
          ⟨data.length, setup.trailerWidth,
            Bytes.roundUp (data.length + setup.trailerWidth) block⟩
          data =
      Bytes.padZero block (sent ++ data ++ setup.trailer (sent ++ data)) := by
  have htrailer : (setup.trailer (sent ++ data)).take setup.trailerWidth =
      setup.trailer (sent ++ data) := by
    rw [← setup.length_trailer (sent ++ data), List.take_length]
  have hlength : (sent ++ data ++ setup.trailer (sent ++ data)).length =
      sent.length + (data.length + setup.trailerWidth) := by
    rw [List.length_append, List.length_append, setup.length_trailer, Nat.add_assoc]
  rw [contents_eq hsum, Bytes.padZero, hlength, Bytes.roundUp_add hsent _ hblock,
    Nat.add_sub_add_left]
  simp only [htrailer, setup.length_trailer, List.append_assoc]

end Session

/-- The steps of a host that uploads: it asks for parts, or for the status. -/
inductive UploadStep (setup : Setup) (block : Nat) : Step → Prop
  | asks (r : Request) (h : r.Carries setup.interface .upload)
      (hroom : setup.leastRoom block ≤ min r.length.toNat setup.profile.transferSize.toNat) :
      UploadStep setup block (.control r)
  | polls (r : Request) (h : r.Polls setup.interface) : UploadStep setup block (.control r)

/-- A device that has sent `plain`, encrypted to `secret`, from a target of a board. -/
structure Serving (setup : Setup) (cipher : Cipher) (target : Target) (board : Board)
    (plain secret : Bytes) (d : Device) : Prop where
  same_setup : d.setup = setup
  phase : d.session.phase.takesUpload = true
  same_target : d.session.target = target
  same_board : d.board = board
  encrypt : cipher.encrypt plain = .ok (secret, d.session.cipher)

/-- An upload under way: `count` replies have taken the first `sent` bytes of the region. -/
structure UnderWay (setup : Setup) (cipher : Cipher) (target : Target) (board : Board)
    (stored : Bytes) (count sent : Nat) (secret : Bytes) (d : Device) : Prop
    extends Serving setup cipher target board (stored.take sent) secret d where
  sent_le : sent ≤ stored.length
  blocks : sent % cipher.blockSize = 0
  replies : count * cipher.blockSize ≤ sent
  address : d.session.address = (setup.region target).start + UInt32.ofNat sent
  remaining : d.session.remaining = stored.length - sent
  uploadSum : d.session.uploadSum =
    setup.profile.checksum.map fun kind => Checksum.ofBytes kind (stored.take sent)
  trailerSent : d.session.trailerSent = false

/-- An upload of which `count` replies have taken everything. -/
structure AllSent (setup : Setup) (cipher : Cipher) (target : Target) (board : Board)
    (stored : Bytes) (count : Nat) (secret : Bytes) (d : Device) : Prop
    extends Serving setup cipher target board
      (Bytes.padZero cipher.blockSize (stored ++ setup.trailer stored)) secret d where
  replies : count ≤ stored.length / cipher.blockSize + 1
  remaining : d.session.remaining = 0
  trailerWidth : d.session.trailerWidth = 0

namespace Serving

variable {setup : Setup} {cipher : Cipher} {target : Target} {board : Board}
  {plain secret : Bytes} {d : Device} {r : Request}

theorem polls (h : Serving setup cipher target board plain secret d)
    (hpolls : r.Polls setup.interface) :
    ∃ data, d.step (.control r) = ⟨d, .reply data, []⟩ := by
  have hphase := h.phase
  rw [← h.same_setup] at hpolls
  obtain ⟨htakes, hunfinished⟩ := Phase.takesStatus_of_takes (.inr hphase)
  obtain ⟨data, hstep | ⟨hsync, -⟩⟩ := Device.step_of_polls hpolls htakes hunfinished
  · exact ⟨data, hstep⟩
  · rw [Phase.takesUpload, hsync] at hphase
    exact absurd hphase Bool.false_ne_true

/-- A frame is answered with bytes that continue what was sent before. -/
theorem upload (h : Serving setup cipher target board plain secret d) {length : Nat} {data : Bytes}
    (henabled : setup.profile.uploads = true)
    (hleft : ¬ (d.session.remaining = 0 ∧ d.session.trailerWidth = 0))
    (hsize : (d.nextFrame length).size ≠ 0)
    (hfetch : d.fetch (d.nextFrame length).data = .ok data) :
    ∃ d' piece calls, d.upload length = ⟨d', .reply piece, calls⟩ ∧ piece ≠ [] ∧
      piece.length ≤ min length setup.profile.transferSize.toNat ∧
      Serving setup cipher target board (plain ++ d.session.contents (d.nextFrame length) data)
        (secret ++ piece) d' ∧
      ∃ after buffer, d'.session =
        { d.session with
          phase := .uploadIdle
          address := d.session.address + UInt32.ofNat data.length
          remaining := d.session.remaining - data.length
          cipher := after
          uploadSum := d.session.uploadSum.map (·.update data)
          trailerSent := d.session.trailerSent || 0 < (d.nextFrame length).trailer
          buffer := buffer } := by
  rw [← h.same_setup] at henabled
  have hoffers : d.OffersFrame length := ⟨⟨henabled, h.phase⟩, hleft, hsize⟩
  obtain ⟨piece, after, hsends⟩ := hoffers.exists_sendsFrame hfetch
  obtain ⟨buffer, hsession⟩ := hsends.sentSession_eq
  have hlimit := (d.nextFrame_fits length).size_le
  have hlength := hsends.length_secret
  refine ⟨_, piece, _, Device.upload_of_sendsFrame hsends, ?_, ?_, ?_, after, buffer, hsession⟩
  · apply List.ne_nil_of_length_pos
    omega
  · rw [hlength, ← h.same_setup]
    exact hlimit
  · refine ⟨h.same_setup, rfl, h.same_target, h.same_board, ?_⟩
    exact Cipher.apply_append h.encrypt hsends.encrypt

end Serving

namespace UnderWay

variable {setup : Setup} {cipher : Cipher} {target : Target} {board : Board}
  {stored secret : Bytes} {count sent length : Nat} {d : Device}

/-- At the start of a session nothing is sent. -/
theorem restart (hsetup : d.setup = setup) (hcipher : d.session.cipher.reset = cipher)
    (hreads : d.board.Reads (setup.region d.session.target) stored) :
    UnderWay setup cipher d.session.target d.board stored 0 0 [] d.restart := by
  subst hsetup
  refine ⟨⟨rfl, rfl, rfl, rfl, ?_⟩, Nat.zero_le _, Nat.zero_mod _, ?_, ?_, ?_, ?_, rfl⟩
  · rw [List.take_zero]
    exact (Cipher.apply_nil cipher .encrypt).trans (by rw [← hcipher]; rfl)
  · exact Nat.le_of_eq (Nat.zero_mul _)
  · exact (UInt32.add_zero _).symm
  · exact hreads.length.symm
  · rfl

/-- An idle device is at the start of a session. -/
theorem of_idle (h : Sound setup cipher d) (hidle : d.session.phase = .idle)
    (hreads : d.board.Reads (setup.region d.session.target) stored) :
    UnderWay setup cipher.reset d.session.target d.board stored 0 0 [] d := by
  have hunder := restart h.same_setup h.reset_cipher hreads
  have hsame : d.restart = d := by
    have hsession := h.at_start hidle
    rw [← h.same_setup] at hsession
    unfold Device.restart Device.withSession
    rw [hsession]
  rw [hsame] at hunder
  exact hunder

theorem trailerWidth_eq (h : UnderWay setup cipher target board stored count sent secret d) :
    d.session.trailerWidth = setup.trailerWidth :=
  Session.trailerWidth_of_unsent h.uploadSum h.trailerSent

theorem blockSize_eq (h : UnderWay setup cipher target board stored count sent secret d) :
    d.session.cipher.blockSize = cipher.blockSize :=
  (Cipher.kept_of_apply h.encrypt).2.1

/-- The frame that comes next is planned for what is left of the region. -/
theorem nextFrame_eq (h : UnderWay setup cipher target board stored count sent secret d)
    (length : Nat) :
    d.nextFrame length =
      Frame.plan cipher.blockSize (min length setup.profile.transferSize.toNat)
        (stored.length - sent) setup.trailerWidth := by
  unfold Device.nextFrame
  rw [h.blockSize_eq, h.trailerWidth_eq, h.remaining, h.same_setup]

theorem fetch_eq (h : UnderWay setup cipher target board stored count sent secret d)
    (hreads : board.Reads (setup.region target) stored) {next : Nat}
    (hnext : next ≤ stored.length - sent) :
    d.fetch next = .ok ((stored.drop sent).take next) := by
  unfold Device.fetch
  split
  next hzero =>
      rw [hzero, List.take_zero]
  next hpos =>
      have hsent := h.sent_le
      rw [h.same_board, h.address, hreads.read sent next (Nat.pos_of_ne_zero hpos) (by omega)]

/-- What was sent before and the last frame are the whole. -/
theorem contents_last (h : UnderWay setup cipher target board stored count sent secret d) :
    stored.take sent ++
        d.session.contents
          ⟨stored.length - sent, setup.trailerWidth,
            Bytes.roundUp (stored.length - sent + setup.trailerWidth) cipher.blockSize⟩
          (stored.drop sent) =
      Bytes.padZero cipher.blockSize (stored ++ setup.trailer stored) := by
  have hblocks : (stored.take sent).length % cipher.blockSize = 0 := by
    rw [List.length_take_of_le h.sent_le, h.blocks]
  have hlast := Session.append_contents_last h.uploadSum cipher.blockSize_pos hblocks
    (stored.drop sent)
  rw [List.take_append_drop, List.length_drop] at hlast
  exact hlast

/-- The frame with the last bytes of the region. -/
theorem upload_last (h : UnderWay setup cipher target board stored count sent secret d)
    (hreads : board.Reads (setup.region target) stored)
    (henabled : setup.profile.uploads = true)
    (hleft : ¬ (stored.length - sent = 0 ∧ setup.trailerWidth = 0))
    (hfits : Bytes.roundUp (stored.length - sent + setup.trailerWidth) cipher.blockSize ≤
      min length setup.profile.transferSize.toNat) :
    ∃ d' piece calls, d.upload length = ⟨d', .reply piece, calls⟩ ∧ piece ≠ [] ∧
      piece.length ≤ min length setup.profile.transferSize.toNat ∧
      AllSent setup cipher target board stored (count + 1) (secret ++ piece) d' := by
  have hsent := h.sent_le
  have hround := (Bytes.roundUp_bounds (stored.length - sent + setup.trailerWidth)
    cipher.blockSize_pos).1
  have hframe : d.nextFrame length =
      ⟨stored.length - sent, setup.trailerWidth,
        Bytes.roundUp (stored.length - sent + setup.trailerWidth) cipher.blockSize⟩ := by
    rw [h.nextFrame_eq, Frame.plan_of_fits hfits]
  have hdata : (stored.drop sent).take (stored.length - sent) = stored.drop sent := by
    rw [← List.length_drop, List.take_length]
  have hfetch : d.fetch (d.nextFrame length).data = .ok (stored.drop sent) := by
    rw [hframe, h.fetch_eq hreads (Nat.le_refl _), hdata]
  have hsize : (d.nextFrame length).size ≠ 0 := by
    rw [hframe]
    simp only
    omega
  have hleft' : ¬ (d.session.remaining = 0 ∧ d.session.trailerWidth = 0) := by
    rw [h.remaining, h.trailerWidth_eq]
    exact hleft
  obtain ⟨d', piece, calls, hupload, hpiece, hlength, hserving, after, buffer, hsession⟩ :=
    h.toServing.upload henabled hleft' hsize hfetch
  refine ⟨d', piece, calls, hupload, hpiece, hlength, ?_, ?_, ?_, ?_⟩
  · have hwhole := h.contents_last
    rw [← hframe] at hwhole
    rw [← hwhole]
    exact hserving
  · have hcount := (Nat.le_div_iff_mul_le cipher.blockSize_pos).mpr
      (Nat.le_trans h.replies hsent)
    omega
  · rw [hsession]
    simp only
    rw [h.remaining, List.length_drop, Nat.sub_self]
  · have hsum : d'.session.uploadSum =
        setup.profile.checksum.map fun kind => Checksum.ofBytes kind stored := by
      rw [hsession]
      simp only
      rw [Session.uploadSum_update h.uploadSum, List.take_append_drop]
    apply Session.trailerWidth_of_done hsum
    rw [hsession, hframe]
    simp only [h.trailerSent, Bool.false_or]

/-- A frame of whole blocks, when not everything fits. -/
theorem upload_middle (h : UnderWay setup cipher target board stored count sent secret d)
    (hreads : board.Reads (setup.region target) stored)
    (henabled : setup.profile.uploads = true)
    (hroom : setup.leastRoom cipher.blockSize ≤ min length setup.profile.transferSize.toNat)
    (hfits : ¬ Bytes.roundUp (stored.length - sent + setup.trailerWidth) cipher.blockSize ≤
      min length setup.profile.transferSize.toNat) :
    ∃ d' piece calls next, d.upload length = ⟨d', .reply piece, calls⟩ ∧ piece ≠ [] ∧
      piece.length ≤ min length setup.profile.transferSize.toNat ∧
      UnderWay setup cipher target board stored (count + 1) next (secret ++ piece) d' := by
  obtain ⟨whole, hplan, hblock, hwhole, hblocks⟩ :=
    Frame.plan_of_exceeds cipher.blockSize_pos hroom hfits
  have hpos := cipher.blockSize_pos
  have hsent := h.sent_le
  have hframe : d.nextFrame length = ⟨whole, 0, whole⟩ := by
    rw [h.nextFrame_eq, hplan]
  have hfetch : d.fetch (d.nextFrame length).data = .ok ((stored.drop sent).take whole) := by
    rw [hframe, h.fetch_eq hreads hwhole]
  have hsize : (d.nextFrame length).size ≠ 0 := by
    rw [hframe]
    simp only
    omega
  have hleft : ¬ (d.session.remaining = 0 ∧ d.session.trailerWidth = 0) := by
    rw [h.remaining]
    omega
  have hlength : ((stored.drop sent).take whole).length = whole := by
    rw [List.length_take, List.length_drop]
    omega
  have hnext : stored.take sent ++ (stored.drop sent).take whole = stored.take (sent + whole) :=
    List.take_add.symm
  have hcontents : d.session.contents (d.nextFrame length) ((stored.drop sent).take whole) =
      (stored.drop sent).take whole := by
    rw [hframe, Session.contents_whole]
  obtain ⟨d', piece, calls, hupload, hpiece, hlimit, hserving, after, buffer, hsession⟩ :=
    h.toServing.upload henabled hleft hsize hfetch
  rw [hcontents, hnext] at hserving
  refine ⟨d', piece, calls, sent + whole, hupload, hpiece, hlimit, hserving, by omega, ?_, ?_, ?_,
    ?_, ?_, ?_⟩
  · rw [Nat.add_mod, h.blocks, hblocks, Nat.zero_add, Nat.zero_mod]
  · have hcount := h.replies
    rw [Nat.add_mul]
    omega
  · rw [hsession]
    simp only
    rw [h.address, hlength, UInt32.ofNat_add, UInt32.add_assoc]
  · rw [hsession]
    simp only
    rw [h.remaining, hlength, Nat.sub_sub]
  · rw [hsession]
    simp only
    rw [Session.uploadSum_update h.uploadSum, hnext]
  · rw [hsession, hframe]
    simp only [h.trailerSent, Nat.lt_irrefl, decide_false, Bool.or_self]

/-- An upload without checksum is complete when the region is. -/
theorem allSent (h : UnderWay setup cipher target board stored count sent secret d)
    (hleft : stored.length - sent = 0 ∧ setup.trailerWidth = 0) :
    AllSent setup cipher target board stored count secret d := by
  have hsent : sent = stored.length := Nat.le_antisymm h.sent_le (Nat.le_of_sub_eq_zero hleft.1)
  have htrailer : setup.trailer stored = [] := by
    apply List.eq_nil_of_length_eq_zero
    rw [setup.length_trailer, hleft.2]
  have hwhole : Bytes.padZero cipher.blockSize (stored ++ setup.trailer stored) =
      stored.take sent := by
    have hblocks := h.blocks
    rw [hsent] at hblocks
    rw [htrailer, List.append_nil, Bytes.padZero_of_aligned cipher.blockSize_pos hblocks, hsent,
      List.take_length]
  refine ⟨?_, ?_, ?_, ?_⟩
  · rw [hwhole]
    exact h.toServing
  · have hcount := (Nat.le_div_iff_mul_le cipher.blockSize_pos).mpr
      (Nat.le_trans h.replies h.sent_le)
    omega
  · rw [h.remaining, hleft.1]
  · rw [h.trailerWidth_eq, hleft.2]

end UnderWay

/-- An upload at any point. -/
def Uploading (setup : Setup) (cipher : Cipher) (target : Target) (board : Board) (stored : Bytes)
    (count : Nat) (secret : Bytes) (d : Device) : Prop :=
  (∃ sent, UnderWay setup cipher target board stored count sent secret d) ∨
    AllSent setup cipher target board stored count secret d

/-- Whether a step asks for the next part of an upload. -/
def Step.asksUpload (interface : UInt8) : Step → Bool
  | .control r => r.isFor interface && Command.ofCode? r.isInput r.code == some .upload
  | _ => false

theorem Request.Carries.asksUpload {r : Request} {interface : UInt8}
    (h : r.Carries interface .upload) : (Step.control r).asksUpload interface = true := by
  rw [Step.asksUpload, h.1, h.2]
  rfl

theorem Request.Polls.not_asksUpload {r : Request} {interface : UInt8}
    (h : r.Polls interface) : (Step.control r).asksUpload interface = false := by
  rcases h with ⟨⟨hfor, hcommand⟩, -⟩ | ⟨⟨hfor, hcommand⟩, -⟩
  · rw [Step.asksUpload, hfor, hcommand]
    rfl
  · rw [Step.asksUpload, hfor, hcommand]
    rfl

/-- The answers to the requests for parts of an upload, in order. -/
def Device.uploadAnswers (d : Device) : List Step → List Answer
  | [] => []
  | s :: steps =>
      let rest := (d.step s).device.uploadAnswers steps
      if s.asksUpload d.setup.interface then (d.step s).answer :: rest else rest

namespace Uploading

variable {setup : Setup} {cipher : Cipher} {target : Target} {board : Board}
  {stored secret : Bytes} {count : Nat} {d : Device} {s : Step} {steps : List Step}

theorem serving (h : Uploading setup cipher target board stored count secret d) :
    ∃ plain, Serving setup cipher target board plain secret d := by
  rcases h with ⟨sent, h⟩ | h
  · exact ⟨_, h.toServing⟩
  · exact ⟨_, h.toServing⟩

theorem count_le (h : Uploading setup cipher target board stored count secret d) :
    count ≤ stored.length / cipher.blockSize + 1 := by
  rcases h with ⟨sent, h⟩ | h
  · have hcount := (Nat.le_div_iff_mul_le cipher.blockSize_pos).mpr
      (Nat.le_trans h.replies h.sent_le)
    omega
  · exact h.replies

/-- A request either takes the next part, or finds everything sent and ends the upload. -/
theorem upload (h : Uploading setup cipher target board stored count secret d)
    (hreset : cipher.reset = cipher) (hreads : board.Reads (setup.region target) stored)
    (henabled : setup.profile.uploads = true) {length : Nat}
    (hroom : setup.leastRoom cipher.blockSize ≤ min length setup.profile.transferSize.toNat) :
    (∃ d' piece calls, d.upload length = ⟨d', .reply piece, calls⟩ ∧ piece ≠ [] ∧
      piece.length ≤ min length setup.profile.transferSize.toNat ∧
      Uploading setup cipher target board stored (count + 1) (secret ++ piece) d') ∨
    d.upload length = ⟨d.restart, .reply [], []⟩ ∧
      AllSent setup cipher target board stored count secret d ∧
      UnderWay setup cipher target board stored 0 0 [] d.restart := by
  have hend (h : AllSent setup cipher target board stored count secret d) :
      d.upload length = ⟨d.restart, .reply [], []⟩ ∧
        AllSent setup cipher target board stored count secret d ∧
        UnderWay setup cipher target board stored 0 0 [] d.restart := by
    have hcipher : d.session.cipher.reset = cipher :=
      (Cipher.kept_of_apply h.encrypt).1.trans hreset
    rw [← h.same_target, ← h.same_board] at hreads
    have hrestart := UnderWay.restart h.same_setup hcipher hreads
    rw [h.same_target, h.same_board] at hrestart
    rw [← h.same_setup] at henabled
    exact ⟨Device.upload_of_nothing_left ⟨henabled, h.phase⟩ ⟨h.remaining, h.trailerWidth⟩, h,
      hrestart⟩
  rcases h with ⟨sent, h⟩ | h
  · by_cases hleft : stored.length - sent = 0 ∧ setup.trailerWidth = 0
    · exact Or.inr (hend (h.allSent hleft))
    · by_cases hfits : Bytes.roundUp (stored.length - sent + setup.trailerWidth)
          cipher.blockSize ≤ min length setup.profile.transferSize.toNat
      · obtain ⟨d', piece, calls, hupload, hpiece, hlimit, hnext⟩ :=
          h.upload_last hreads henabled hleft hfits
        exact Or.inl ⟨d', piece, calls, hupload, hpiece, hlimit, Or.inr hnext⟩
      · obtain ⟨d', piece, calls, next, hupload, hpiece, hlimit, hnext⟩ :=
          h.upload_middle hreads henabled hroom hfits
        exact Or.inl ⟨d', piece, calls, hupload, hpiece, hlimit, Or.inl ⟨next, hnext⟩⟩
  · exact Or.inr (hend h)

/-- What one step of the host does to an upload. -/
theorem step (h : Uploading setup cipher target board stored count secret d)
    (hreset : cipher.reset = cipher) (hreads : board.Reads (setup.region target) stored)
    (henabled : setup.profile.uploads = true)
    (htransfer : setup.profile.transferSize.toNat ≤ controlBuffer)
    (hs : UploadStep setup cipher.blockSize s) :
    ∃ data, (d.step s).answer = .reply data ∧
      (s.asksUpload setup.interface = false ∧
          Uploading setup cipher target board stored count secret (d.step s).device ∨
        s.asksUpload setup.interface = true ∧ data ≠ [] ∧
          Uploading setup cipher target board stored (count + 1) (secret ++ data)
            (d.step s).device ∨
        s.asksUpload setup.interface = true ∧ data = [] ∧
          AllSent setup cipher target board stored count secret d ∧
          UnderWay setup cipher target board stored 0 0 [] (d.step s).device ∧
          (d.step s).device.session.phase = .idle) := by
  obtain ⟨plain, hserving⟩ := h.serving
  cases hs with
  | polls r hpolls =>
      obtain ⟨data, hstep⟩ := hserving.polls hpolls
      rw [hstep]
      exact ⟨data, rfl, Or.inl ⟨hpolls.not_asksUpload, h⟩⟩
  | asks r hcarries hroom =>
      have hasks := hcarries.asksUpload
      have hcarries' := hcarries
      rw [← hserving.same_setup] at hcarries'
      rcases h.upload hreset hreads henabled hroom with
        ⟨d', piece, calls, hupload, hpiece, hlimit, hnext⟩ | ⟨hupload, hsent, hrestart⟩
      · have hdeliver : Device.deliver r.length.toNat (.reply piece) = .reply piece := by
          apply Device.deliver_of_fits
          · omega
          · omega
        rw [Device.step_of_upload hcarries', hupload, hdeliver]
        exact ⟨piece, rfl, Or.inr (Or.inl ⟨hasks, hpiece, hnext⟩)⟩
      · have hdeliver : Device.deliver r.length.toNat (.reply []) = .reply [] :=
          Device.deliver_of_fits (Nat.zero_le _) (Nat.zero_le _)
        rw [Device.step_of_upload hcarries', hupload, hdeliver]
        exact ⟨[], rfl, Or.inr (Or.inr ⟨hasks, rfl, hsent, hrestart, rfl⟩)⟩

theorem answers (h : Uploading setup cipher target board stored count secret d)
    (hreset : cipher.reset = cipher) (hreads : board.Reads (setup.region target) stored)
    (henabled : setup.profile.uploads = true)
    (htransfer : setup.profile.transferSize.toNat ≤ controlBuffer)
    (hsteps : ∀ s ∈ steps, UploadStep setup cipher.blockSize s) :
    ∀ outcome ∈ d.run steps, ∃ data, outcome.answer = .reply data := by
  induction steps generalizing d count secret with
  | nil =>
      intro outcome houtcome
      cases houtcome
  | cons s steps ih =>
      obtain ⟨data, hanswer, hcases⟩ :=
        h.step hreset hreads henabled htransfer (hsteps s List.mem_cons_self)
      have hrest : ∀ s ∈ steps, UploadStep setup cipher.blockSize s :=
        fun s' hs' => hsteps s' (List.mem_cons_of_mem s hs')
      intro outcome houtcome
      rcases List.mem_cons.mp houtcome with rfl | houtcome
      · exact ⟨data, hanswer⟩
      · rcases hcases with ⟨-, hnext⟩ | ⟨-, -, hnext⟩ | ⟨-, -, -, hnext, -⟩
        · exact ih hnext hrest outcome houtcome
        · exact ih hnext hrest outcome houtcome
        · exact ih (Or.inl ⟨0, hnext⟩) hrest outcome houtcome

/-- A host that asks often enough is told the end, after everything was sent. -/
theorem complete (h : Uploading setup cipher target board stored count secret d)
    (hreset : cipher.reset = cipher) (hreads : board.Reads (setup.region target) stored)
    (henabled : setup.profile.uploads = true)
    (htransfer : setup.profile.transferSize.toNat ≤ controlBuffer)
    (hsteps : ∀ s ∈ steps, UploadStep setup cipher.blockSize s)
    (hmany : stored.length / cipher.blockSize + 1 <
      count + (steps.filter (Step.asksUpload setup.interface)).length) :
    ∃ before s rest, ∃ replies : List Bytes, steps = before ++ s :: rest ∧
      s.asksUpload setup.interface = true ∧
      d.uploadAnswers before = replies.map Answer.reply ∧ (∀ reply ∈ replies, reply ≠ []) ∧
      AllSent setup cipher target board stored (count + replies.length)
        (secret ++ replies.flatten) (d.after before) ∧
      ((d.after before).step s).answer = .reply [] ∧
      UnderWay setup cipher target board stored 0 0 [] ((d.after before).step s).device ∧
      ((d.after before).step s).device.session.phase = .idle := by
  induction steps generalizing d count secret with
  | nil =>
      have hcount := h.count_le
      simp only [List.filter_nil, List.length_nil, Nat.add_zero] at hmany
      omega
  | cons s steps ih =>
      obtain ⟨plain, hserving⟩ := h.serving
      have hrest : ∀ s ∈ steps, UploadStep setup cipher.blockSize s :=
        fun s' hs' => hsteps s' (List.mem_cons_of_mem s hs')
      obtain ⟨data, hanswer, hcases⟩ :=
        h.step hreset hreads henabled htransfer (hsteps s List.mem_cons_self)
      rcases hcases with
        ⟨hasks, hnext⟩ | ⟨hasks, hdata, hnext⟩ | ⟨hasks, hdata, hsent, hnext, hidle⟩
      · rw [List.filter_cons_of_neg (by rw [hasks]; exact Bool.false_ne_true)] at hmany
        obtain ⟨before, s', rest, replies, hsplit, hlast, hreplies, hresult⟩ :=
          ih hnext hrest hmany
        refine ⟨s :: before, s', rest, replies, by rw [hsplit]; rfl, hlast, ?_, hresult⟩
        rw [Device.uploadAnswers, hserving.same_setup, hasks]
        exact hreplies
      · rw [List.filter_cons_of_pos hasks, List.length_cons] at hmany
        obtain ⟨before, s', rest, replies, hsplit, hlast, hreplies, hnonempty, hall, hresult⟩ :=
          ih hnext hrest (by omega)
        refine ⟨s :: before, s', rest, data :: replies, by rw [hsplit]; rfl, hlast, ?_, ?_, ?_,
          hresult⟩
        · rw [Device.uploadAnswers, hserving.same_setup, hasks, hanswer, if_pos rfl, hreplies]
          rfl
        · intro reply hreply
          rcases List.mem_cons.mp hreply with rfl | hreply
          · exact hdata
          · exact hnonempty reply hreply
        · rw [List.length_cons, List.flatten_cons, ← List.append_assoc, Nat.add_comm replies.length,
            ← Nat.add_assoc]
          exact hall
      · refine ⟨[], s, steps, [], rfl, hasks, rfl, ?_, ?_, ?_, hnext, hidle⟩
        · intro reply hreply
          cases hreply
        · rw [List.flatten_nil, List.append_nil]
          exact hsent
        · rw [← hdata]
          exact hanswer

end Uploading

/-- Under every sequence of requests that leave room, an upload gives the same bytes: the
region with its checksum and zeros, encrypted from the start of the cipher, in at most one
reply for each block and one more.  Then comes an empty reply, and the device is idle. -/
theorem upload_complete {setup : Setup} {kind : CipherKind} {mode : ChainMode}
    {key nonce stored : Bytes} {cipher : Cipher} {d : Device}
    (hcipher : Cipher.make kind mode key nonce = .ok cipher.reset)
    (henabled : setup.profile.uploads = true)
    (htransfer : setup.profile.transferSize.toNat ≤ controlBuffer)
    (hd : Reachable setup cipher d) (hidle : d.session.phase = .idle)
    (hreads : d.board.Reads (setup.region d.session.target) stored) :
    let block := kind.blockSize
    let plain := Bytes.padZero block (stored ++ setup.trailer stored)
    ∃ secret after, cipher.reset.encrypt plain = .ok (secret, after) ∧
      cipher.reset.decrypt secret = .ok (plain, after) ∧
      ∀ steps, (∀ s ∈ steps, UploadStep setup block s) →
        (∀ outcome ∈ d.run steps, ∃ data, outcome.answer = .reply data) ∧
        (stored.length / block + 1 < (steps.filter (Step.asksUpload setup.interface)).length →
          ∃ before s rest, ∃ replies : List Bytes, steps = before ++ s :: rest ∧
            s.asksUpload setup.interface = true ∧
            d.uploadAnswers before = replies.map Answer.reply ∧
            (∀ reply ∈ replies, reply ≠ []) ∧ replies.length ≤ stored.length / block + 1 ∧
            replies.flatten = secret ∧ ((d.after before).step s).answer = .reply [] ∧
            ((d.after before).step s).device.session.phase = .idle ∧
            ((d.after before).step s).device.session.address =
              (setup.region d.session.target).start) := by
  obtain ⟨hreset, hblock, hlawful⟩ := Cipher.make_spec hcipher
  rw [← hblock]
  intro block plain
  have haligned : plain.length % cipher.reset.blockSize = 0 := by
    rw [Bytes.length_padZero _ cipher.reset.blockSize_pos, Bytes.roundUp_mod]
  obtain ⟨secret, after, hsecret⟩ :=
    Cipher.apply_eq_ok_of_aligned cipher.reset .encrypt plain haligned
  have hsound := hd.sound
  have hstart : Uploading setup cipher.reset d.session.target d.board stored 0 [] d := by
    have hunder := UnderWay.restart hsound.same_setup hsound.reset_cipher hreads
    have hsame : d.restart = d := by
      have hsession := hsound.at_start hidle
      rw [← hsound.same_setup] at hsession
      unfold Device.restart Device.withSession
      rw [hsession]
    rw [hsame] at hunder
    exact Or.inl ⟨0, hunder⟩
  refine ⟨secret, after, hsecret, Cipher.apply_opposite hlawful hsecret, ?_⟩
  intro steps hsteps
  refine ⟨hstart.answers hreset hreads henabled htransfer hsteps, ?_⟩
  intro hmany
  obtain ⟨before, s, rest, replies, hsplit, hasks, hreplies, hnonempty, hall, hanswer, hend,
    hphase⟩ := hstart.complete hreset hreads henabled htransfer hsteps
      (by rw [Nat.zero_add]; exact hmany)
  refine ⟨before, s, rest, replies, hsplit, hasks, hreplies, hnonempty, ?_, ?_, hanswer, hphase, ?_⟩
  · have hcount := hall.replies
    rwa [Nat.zero_add] at hcount
  · have hencrypt := hall.encrypt
    change cipher.reset.apply .encrypt plain = _ at hencrypt
    rw [hsecret, Except.ok.injEq, Prod.mk.injEq, List.nil_append] at hencrypt
    exact hencrypt.1.symm
  · rw [hend.address]
    exact UInt32.add_zero _

/-- A region of 46 bytes goes out in three frames of two sizes: two of as many whole blocks as
the host allows, and behind a poll the rest with the checksum. -/
theorem upload_complete_three_frames :
    let setup : Setup :=
      { profile := { checksum := some .crc32Small }, interface := 0, flash := ⟨0x100, 46⟩,
        eeprom := none }
    let chain := Chain.start (Primitive.keyed .xtea Defaults.keyA) .cbc
      (Block.ofBytes _ Defaults.nonce)
    let cipher : Cipher := ⟨.block .xtea, .cbc, .chain chain⟩
    let stored : Bytes := (List.range 46).map UInt8.ofNat
    let board : Board := { flash := ⟨0x100, stored⟩, eeprom := ⟨0x200, []⟩ }
    let d := Device.start setup cipher board
    let upload (length : UInt16) : Step :=
      .control { type := 0xA1, code := 2, index := 0, length := length }
    let status : Step := .control { type := 0xA1, code := 3, index := 0, length := 6 }
    let frames := [upload 20, upload 24, status, upload 16]
    let steps := frames ++ List.replicate 4 (upload 16)
    (d.uploadAnswers frames).map (fun | .reply data => data.length | _ => 0) = [16, 24, 16] ∧
      ∃ secret after, cipher.encrypt (Bytes.padZero 8 (stored ++ setup.trailer stored)) =
          .ok (secret, after) ∧
        ∃ before s rest, ∃ replies : List Bytes, steps = before ++ s :: rest ∧
          d.uploadAnswers before = replies.map Answer.reply ∧ replies.flatten = secret ∧
          ((d.after before).step s).answer = .reply [] := by
  intro setup chain cipher stored board d upload status frames steps
  have hmake : Cipher.make (.block .xtea) .cbc Defaults.keyA Defaults.nonce = .ok cipher.reset :=
    rfl
  have hreachable : Reachable setup cipher d := ⟨board, [], rfl⟩
  have hreads : d.board.Reads (setup.region d.session.target) stored :=
    Board.reads_flash rfl (by decide) (by decide) (by decide) (by decide)
  obtain ⟨secret, after, hsecret, -, hsteps⟩ :=
    upload_complete hmake rfl (by decide) hreachable rfl hreads
  have hlegal : ∀ s ∈ steps, UploadStep setup 8 s := by
    intro s hs
    rcases List.mem_append.mp hs with hframe | hlast
    · simp only [frames, List.mem_cons, List.not_mem_nil, or_false] at hframe
      rcases hframe with rfl | rfl | rfl | rfl
      · exact .asks _ ⟨by decide, by decide⟩ (by decide)
      · exact .asks _ ⟨by decide, by decide⟩ (by decide)
      · exact .polls _ (Or.inl ⟨⟨by decide, by decide⟩, by decide⟩)
      · exact .asks _ ⟨by decide, by decide⟩ (by decide)
    · rw [List.eq_of_mem_replicate hlast]
      exact .asks _ ⟨by decide, by decide⟩ (by decide)
  obtain ⟨before, s, rest, replies, hsplit, -, hreplies, -, -, hwhole, hanswer, -⟩ :=
    (hsteps _ hlegal).2 (by decide)
  exact ⟨by decide +kernel, secret, after, hsecret, before, s, rest, replies, hsplit, hreplies,
    hwhole, hanswer⟩

end Dfu

end FirmwareUpdate
