/-
No step of a bootloader halts it.  Every frame that is planned and every block that is accepted
fits the buffer and what is left of the region, and a cipher of the registry outlasts the largest
region; so the steps that are taken with partial operations are the steps of the device.
-/
import FirmwareUpdate.Proofs.Dfu.Consistency
import FirmwareUpdate.Proofs.PartialOperations

namespace FirmwareUpdate

namespace Dfu

/-- The next frame, planned with operations that may halt. -/
def Frame.plan? (block limit remaining width : Nat) : Option Frame := do
  let rest ← Count.add? remaining width
  let rest ← Count.add? rest block
  let rest ← Count.sub? rest 1
  let blocks ← Count.div? rest block
  let last ← Count.mul? blocks block
  if last ≤ limit then some ⟨remaining, width, last⟩
  else
    let fits := min limit remaining
    let rest ← Count.mod? fits block
    let whole ← Count.sub? fits rest
    some ⟨whole, 0, whole⟩

/-- The session with a frame in the buffer. -/
def Session.framed? (s : Session) (frame : Frame) (data : Bytes) : Option Session := do
  let buffer ← s.buffer.copy? 0 frame.data data
  let front ← buffer.front? frame.data
  let sum := s.uploadSum.map (·.update front)
  let trailer ← sum.elim (some []) (·.stored? frame.trailer)
  let stop ← Count.add? frame.data trailer.length
  let buffer ← buffer.copy? frame.data stop trailer
  let buffer ← buffer.copy? stop frame.size (List.replicate (frame.size - stop) 0)
  some
    { s with
      uploadSum := sum
      trailerSent := s.trailerSent || 0 < frame.trailer
      buffer := buffer }

namespace Device

/-- Program the decrypted block in the buffer. -/
def programBlock? (d : Device) (count : Nat) : Option Outcome := do
  let s := d.session
  let plain ← s.buffer.front? count
  let call := Call.program s.target s.address plain
  match d.board.program s.target s.address plain with
  | .error fault => some ⟨d.inPhase (.error fault.code), .accepted, [call]⟩
  | .ok board => do
      let remaining ← Count.sub? s.remaining (Count.narrow count)
      let s := { s.advance count with remaining := remaining }
      some ⟨{ d with session := s, board := board }.inPhase d.programmedPhase, .accepted, [call]⟩

/-- Decrypt a block that is not too long, and program it. -/
def takeBlock? (d : Device) (data : Bytes) : Option Outcome := do
  let s := d.session
  let buffer ← s.buffer.copy? 0 data.length data
  let front ← buffer.front? data.length
  match ← s.cipher.send? .decrypt front with
  | .error _ =>
      some ⟨(d.withSession { s with buffer := buffer }).inPhase (.error .file), .accepted, []⟩
  | .ok (plain, cipher) => do
      let buffer ← buffer.copy? 0 data.length plain
      let front ← buffer.front? data.length
      let scanner ← s.scanner.mapM (Scanner.update? · front)
      let s := { s with cipher := cipher, buffer := buffer, scanner := scanner }
      (d.withSession s).programBlock? data.length

/-- Take in a block of a download. -/
def download? (d : Device) (data : Bytes) : Option Outcome :=
  let s := d.session
  if !s.phase.takesDownload then some d.refuse
  else if data.isEmpty then some ⟨d.inPhase .manifestSync, .accepted, []⟩
  else if d.setup.profile.transferSize.toNat < data.length then some d.refuse
  else if s.remaining < Count.narrow data.length then
    some ⟨d.inPhase (.error .address), .accepted, []⟩
  else d.takeBlock? data

/-- Send a frame. -/
def sendFrame? (d : Device) (frame : Frame) : Option Outcome := do
  let calls := d.fetchCalls frame.data
  let _room ← d.session.buffer.front? frame.data
  match d.fetch frame.data with
  | .error fault => some ⟨d.inPhase (.error fault.code), .stalled, calls⟩
  | .ok data => do
      let s ← d.session.framed? frame data
      let front ← s.buffer.front? frame.size
      match ← s.cipher.send? .encrypt front with
      | .error _ => some ⟨(d.withSession s).inPhase (.error .file), .stalled, calls⟩
      | .ok (secret, cipher) => do
          let buffer ← s.buffer.copy? 0 frame.size secret
          let remaining ← Count.sub? s.remaining (Count.narrow frame.data)
          let reply ← buffer.front? frame.size
          let s := { s.sent frame secret cipher with buffer := buffer, remaining := remaining }
          some ⟨d.withSession s, .reply reply, calls⟩

/-- Answer a request for at most `length` bytes of an upload. -/
def upload? (d : Device) (length : Nat) : Option Outcome := do
  let s := d.session
  if !d.setup.profile.uploads || !s.phase.takesUpload then some d.refuse
  else if s.remaining = 0 ∧ s.trailerWidth = 0 then
    let cipher ← s.cipher.reset?
    some ⟨d.withSession { s.restart d.setup with cipher := cipher }, .reply [], []⟩
  else
    let limit := min length d.setup.profile.transferSize.toNat
    let frame ← Frame.plan? s.cipher.blockSize limit s.remaining s.trailerWidth
    if frame.size = 0 then some d.refuse else d.sendFrame? frame

/-- Answer a request.  Those that may start the session again need a cipher that can start
again; the others that move no data need nothing. -/
def command? (d : Device) (r : Request) : Option Outcome :=
  match Command.ofCode? r.isInput r.code with
  | some .download => d.download? r.data
  | some .upload => d.upload? r.length.toNat
  | some .getStatus | some .clearStatus | some .abort => do
      let _fresh ← d.session.cipher.reset?
      some (d.command r)
  | some .detach | some .getState | none => some (d.command r)

/-- A control request on the bus. -/
def control? (d : Device) (r : Request) : Option Outcome :=
  if !r.isInput && controlBuffer < r.data.length then some ⟨d, .ignored, []⟩
  else if !r.isFor d.setup.interface then some ⟨d, .stalled, []⟩
  else do
    let outcome ← d.command? r
    some { outcome with answer := deliver r.length.toNat outcome.answer }

/-- One step. -/
def step? (d : Device) : Step → Option Outcome
  | .control r => d.control? r
  | .setInterface alternate index => do
      let _fresh ← d.session.cipher.reset?
      some (d.setInterface alternate index)
  | s => some (d.step s)

/-- Steps in order, unless one halts the device. -/
def run? (d : Device) : List Step → Option (List Outcome)
  | [] => some []
  | s :: steps => do
      let outcome ← d.step? s
      let outcomes ← outcome.device.run? steps
      some (outcome :: outcomes)

end Device

theorem Frame.plan?_eq {block limit remaining width : Nat} (hblock : 0 < block)
    (h : remaining + width + block < Trailer.lengthLimit) :
    plan? block limit remaining width = some (plan block limit remaining width) := by
  have hround := (Bytes.roundUp_bounds (remaining + width) hblock).2
  have hlast : (remaining + width + block - 1) / block * block =
      Bytes.roundUp (remaining + width) block := rfl
  have hmul := Count.mul?_eq (x := (remaining + width + block - 1) / block) (y := block)
    (by omega)
  simp only [plan?, Count.add?_eq (x := remaining) (y := width) (by omega), Count.add?_eq h,
    Count.sub?_eq (x := remaining + width + block) (y := 1) (by omega), Count.div?_eq hblock,
    hmul, hlast, Count.mod?_eq hblock, Count.sub?_eq (Nat.mod_le _ _), Option.bind_eq_bind,
    Option.bind_some, plan]
  split <;> rfl

/-- A cipher without blocks would halt the plan. -/
example : Frame.plan? 0 64 9 4 = none := rfl

namespace Session

variable {s : Session} {frame : Frame} {data : Bytes}

theorem trailerWidth_le_width {sum : Checksum} (h : s.uploadSum = some sum) :
    s.trailerWidth ≤ sum.kind.width := by
  simp only [trailerWidth, h]
  split
  · exact Nat.zero_le _
  · exact Nat.le_refl _

theorem trailerWidth_le (s : Session) : s.trailerWidth ≤ Defaults.maxChecksumWidth := by
  cases hsum : s.uploadSum with
  | none =>
      simp only [trailerWidth, hsum]
      exact Nat.zero_le _
  | some sum => exact Nat.le_trans (trailerWidth_le_width hsum) (Defaults.width_le sum.kind)

theorem elim_stored?_eq (htrailer : frame.trailer ≤ s.trailerWidth) (front : Bytes) :
    (s.uploadSum.map (·.update front)).elim (some []) (·.stored? frame.trailer) =
      some ((s.uploadSum.map (·.update front)).elim [] (·.trailer.take frame.trailer)) := by
  cases hsum : s.uploadSum with
  | none => rfl
  | some sum =>
      apply Checksum.stored?_eq
      rw [Checksum.kind_update]
      exact Nat.le_trans htrailer (trailerWidth_le_width hsum)

/-- The bytes of a region, of their checksum and the zeros behind them stay inside a frame that
fits the buffer. -/
theorem framed?_eq (hdata : data.length = frame.data)
    (hroom : frame.data + frame.trailer ≤ frame.size)
    (hsize : frame.size ≤ Defaults.maxTransferSize) (htrailer : frame.trailer ≤ s.trailerWidth) :
    s.framed? frame data = some (s.framed frame data) := by
  have hlimit : Defaults.maxTransferSize < Trailer.lengthLimit := by decide
  have hcopy := s.buffer.copy?_zero_eq hdata (by omega)
  have hfront : (s.buffer.write 0 data).front? frame.data =
      some ((s.buffer.write 0 data).front frame.data) := Block.front?_eq _ (by omega)
  have hlength := length_trailer_take_le
    (s.uploadSum.map (·.update ((s.buffer.write 0 data).front frame.data))) frame.trailer
  simp only [framed?, hcopy, hfront, elim_stored?_eq htrailer, Option.bind_eq_bind,
    Option.bind_some, framed]
  generalize (s.uploadSum.map (·.update
    ((s.buffer.write 0 data).front frame.data))).elim [] (·.trailer.take frame.trailer) =
      trailer at hlength
  have hstop : Count.add? frame.data trailer.length = some (frame.data + trailer.length) :=
    Count.add?_eq (by omega)
  have htail : (s.buffer.write 0 data).copy? frame.data (frame.data + trailer.length) trailer =
      some ((s.buffer.write 0 data).write frame.data trailer) :=
    Block.copy?_eq _ (by omega) (by omega) (by omega)
  have hzeros (buffer : Block Defaults.maxTransferSize) (stop : Nat) (hstop : stop ≤ frame.size) :
      buffer.copy? stop frame.size (List.replicate (frame.size - stop) 0) =
        some (buffer.write stop (List.replicate (frame.size - stop) 0)) :=
    Block.copy?_eq _ hstop hsize List.length_replicate
  simp only [hstop, htail, hzeros _ (frame.data + trailer.length) (by omega), Option.bind_some]

end Session

/-- What is sent behind the bytes of a region is shorter than a checksum and a block. -/
theorem Setup.length_replyText_lt (setup : Setup) {block : Nat} (fetched : Bytes)
    (hblock : 0 < block) (trailerSent : Bool) :
    (setup.replyText block fetched trailerSent).length <
      fetched.length + Defaults.maxChecksumWidth + block := by
  have htrailer : (if trailerSent then setup.trailer fetched else []).length ≤
      Defaults.maxChecksumWidth := by
    split
    · rw [setup.length_trailer]
      unfold trailerWidth
      cases setup.profile.checksum with
      | none => exact Nat.zero_le _
      | some kind => exact Defaults.width_le kind
    · exact Nat.zero_le _
  rw [replyText, Bytes.length_padZero _ hblock]
  have hround := (Bytes.roundUp_bounds
    (fetched ++ if trailerSent then setup.trailer fetched else []).length hblock).2
  rw [List.length_append] at hround ⊢
  omega

/-- What a device needs to go on: a block of its cipher fits the register of a chain, a count of
32 bits holds what is left of the region, and its cipher and its scanner are good for that. -/
structure Ready (d : Device) : Prop where
  block : d.session.cipher.blockSize ≤ Defaults.maxBlockSize
  remaining : d.session.remaining < 0x100000000
  receives : d.session.phase.takesDownload = true →
    d.session.cipher.Lasts d.session.remaining
  scans : d.session.phase.takesDownload = true → ∀ scanner, d.session.scanner = some scanner →
    ∃ kind seen, (scanner.Searching kind seen ∨ scanner.Stopped kind seen) ∧
      seen.length + d.session.remaining < 0x100000000
  sends : d.session.phase.takesUpload = true →
    d.session.cipher.Lasts Defaults.maxTransferSize

section Reachable

variable {setup : Setup} {cipher : Cipher} {d : Device} {kind : CipherKind} {mode : ChainMode}
  {key nonce : Bytes}

theorem Reachable.exists_consistent (h : Reachable setup cipher d) :
    ∃ log, Consistent setup cipher d log := by
  obtain ⟨board, history, rfl⟩ := h
  have hruns (d : Device) (log : List Exchange) (hd : Consistent setup cipher d log) :
      ∃ log, Consistent setup cipher (d.after history) log := by
    induction history generalizing d log with
    | nil => exact ⟨log, hd⟩
    | cons s history ih => exact ih _ _ (hd.step s)
  exact hruns _ [] (.start setup cipher board)

theorem Sound.blockSize_eq (h : Sound setup cipher d)
    (hmake : Cipher.make kind mode key nonce = .ok cipher.reset) :
    d.session.cipher.blockSize = kind.blockSize := by
  rw [← Cipher.blockSize_reset, h.reset_cipher]
  exact (Cipher.make_spec hmake).2.1

/-- In a download what is left of the region is left of the keystream. -/
theorem Receiving.lasts {received plain : Bytes} (h : Receiving setup cipher received plain d)
    (hmake : Cipher.make kind mode key nonce = .ok cipher.reset) :
    d.session.cipher.Lasts d.session.remaining := by
  have hregion := (setup.region d.session.target).length.toNat_lt
  have hlength := h.length
  rw [Cipher.length_of_apply h.decrypt] at hlength
  exact (Cipher.lasts_of_make hmake (by omega)).apply h.decrypt

/-- The scanner of a download has passed no more than was received. -/
theorem Receiving.scans {received plain : Bytes} (h : Receiving setup cipher received plain d)
    {scanner : Scanner} (hscanner : d.session.scanner = some scanner) :
    ∃ kind seen, (scanner.Searching kind seen ∨ scanner.Stopped kind seen) ∧
      seen.length + d.session.remaining < 0x100000000 := by
  have hregion := (setup.region d.session.target).length.toNat_lt
  have hlength := h.length
  have hstarted := h.scanner
  rw [hscanner] at hstarted
  obtain ⟨kind, -, hkind⟩ := Option.map_eq_some_iff.mp hstarted.symm
  have hstate := (Scanner.Searching.nil kind).update plain
  rw [List.nil_append, hkind] at hstate
  exact ⟨kind, plain, hstate, by omega⟩

/-- In an upload the keystream lasts for one more frame, whatever was sent. -/
theorem Replying.lasts {fetched replied : Bytes} (h : Replying setup cipher fetched replied d)
    (hmake : Cipher.make kind mode key nonce = .ok cipher.reset) :
    d.session.cipher.Lasts Defaults.maxTransferSize := by
  have hregion := (setup.region d.session.target).length.toNat_lt
  have hlength := h.length
  have htext := setup.length_replyText_lt fetched cipher.blockSize_pos d.session.trailerSent
  have hsize : cipher.blockSize ≤ Defaults.maxBlockSize := by
    rw [← Cipher.blockSize_reset, (Cipher.make_spec hmake).2.1]
    exact Defaults.blockSize_le kind
  have hbounds : Defaults.maxBlockSize = 16 ∧ Defaults.maxChecksumWidth = 8 ∧
      Defaults.maxTransferSize = 1024 := ⟨rfl, rfl, rfl⟩
  exact (Cipher.lasts_of_make hmake (by omega)).apply h.encrypt

theorem Consistent.ready {log : List Exchange} (h : Consistent setup cipher d log)
    (hmake : Cipher.make kind mode key nonce = .ok cipher.reset) : Ready d where
  block := by
    rw [h.toSound.blockSize_eq hmake]
    exact Defaults.blockSize_le kind
  remaining :=
    Nat.lt_of_le_of_lt h.remaining_le (setup.region d.session.target).length.toNat_lt
  receives := fun hphase => by
    obtain ⟨plain, hreceiving⟩ := h.receiving_kept (h.coherent.idle_or_downloads hphase)
    exact hreceiving.lasts hmake
  scans := fun hphase scanner hscanner => by
    obtain ⟨plain, hreceiving⟩ := h.receiving_kept (h.coherent.idle_or_downloads hphase)
    exact hreceiving.scans hscanner
  sends := fun hphase =>
    (h.replying_kept (h.coherent.idle_or_uploads hphase)).lasts hmake

end Reachable

namespace Device

variable {d : Device}

theorem programBlock?_eq {count : Nat} (hcount : count ≤ Defaults.maxTransferSize)
    (hroom : count ≤ d.session.remaining) :
    d.programBlock? count = some (d.programBlock count) := by
  have hlimit : Defaults.maxTransferSize < 0x100000000 := by decide
  have hfront := Block.front?_eq d.session.buffer hcount
  have hnarrow : Count.narrow count = count := Count.narrow_eq (by omega)
  simp only [programBlock?, programBlock, hfront, hnarrow, Count.sub?_eq hroom,
    Option.bind_eq_bind, Option.bind_some]
  cases d.board.program d.session.target d.session.address (d.session.buffer.front count) <;> rfl

/-- Of a block that may come, only its length is looked at before it is copied. -/
theorem download?_of_expects {data : Bytes} (h : d.ExpectsBlock data) :
    d.download? data =
      if d.session.remaining < data.length then some ⟨d.inPhase (.error .address), .accepted, []⟩
      else d.takeBlock? data := by
  have hlimit : Defaults.maxTransferSize < 0x100000000 := by decide
  have hlength := h.length_le
  have hnarrow : Count.narrow data.length = data.length := Count.narrow_eq (by omega)
  have hempty : data.isEmpty = false := List.isEmpty_eq_false_iff.mpr h.nonempty
  simp only [download?, h.phase, hempty, Nat.not_lt.mpr h.transfer, hnarrow, Bool.not_true,
    Bool.false_eq_true, ↓reduceIte]

theorem mapM_update?_eq (h : Ready d) (hphase : d.session.phase.takesDownload = true)
    (data : Bytes) (hroom : data.length ≤ d.session.remaining) :
    d.session.scanner.mapM (Scanner.update? · data) =
      some (d.session.scanner.map (·.update data)) := by
  have hlimit : 0x100000000 < Trailer.lengthLimit := by decide
  cases hscanner : d.session.scanner with
  | none => rfl
  | some scanner =>
      obtain ⟨kind, seen, hstate, hseen⟩ := h.scans hphase scanner hscanner
      have hupdate : scanner.update? data = some (scanner.update data) :=
        Scanner.update?_eq hstate (by omega)
      simp only [Option.mapM_some, hupdate, Option.map_some]
      rfl

/-- A block that fits what is left of the region fits everything else on its way. -/
theorem takeBlock?_eq (h : Ready d) {data : Bytes} (hexpects : d.ExpectsBlock data)
    (hroom : data.length ≤ d.session.remaining) :
    d.takeBlock? data = some (d.download data) := by
  have hlength := hexpects.length_le
  have hcopy := d.session.buffer.copy?_zero_eq (rfl : data.length = _) hlength
  have hfront := d.session.buffer.front?_write_zero (rfl : data.length = _) hlength
  have hsend : d.session.cipher.send? .decrypt data = some (d.session.cipher.decrypt data) :=
    Cipher.send?_eq h.block ((h.receives hexpects.phase).mono hroom) .decrypt
  simp only [takeBlock?, hcopy, hfront, hsend, Option.bind_eq_bind, Option.bind_some]
  cases hdecrypt : d.session.cipher.decrypt data with
  | error e =>
      rw [download_of_misfit hexpects hroom hdecrypt]
      rfl
  | ok result =>
      obtain ⟨plain, cipher⟩ := result
      have htakes : d.TakesBlock data plain cipher := ⟨hexpects, hroom, hdecrypt⟩
      have hplain := htakes.length_plain
      have hcopied := (d.session.buffer.write 0 data).copy?_zero_eq hplain hlength
      have hread := (d.session.buffer.write 0 data).front?_write_zero hplain hlength
      have hscan := mapM_update?_eq h hexpects.phase plain (by rwa [hplain])
      have hscanner : ((d.session.loaded data).received plain cipher).scanner =
          d.session.scanner.map (·.update plain) :=
        Session.scanner_received htakes.length_plain_le
      have hprogram := programBlock?_eq
        (d := d.withSession ((d.session.loaded data).received plain cipher)) hlength hroom
      simp only [hcopied, hread, hscan, Option.bind_some]
      rw [download_of_takesBlock htakes, ← hprogram, ← hscanner]
      rfl

/-- A block that is accepted fits the buffer and what is left of the region. -/
theorem download?_eq (h : Ready d) (data : Bytes) : d.download? data = some (d.download data) := by
  cases d.incoming data with
  | unexpected hphase =>
      rw [download_of_unexpected hphase]
      simp only [download?, hphase, Bool.not_false, ↓reduceIte]
  | final hphase hdata =>
      rw [hdata, download_nil hphase]
      simp only [download?, hphase, List.isEmpty_nil, Bool.not_true, Bool.false_eq_true,
        ↓reduceIte]
  | tooLong hphase hdata htransfer =>
      have hempty : data.isEmpty = false := List.isEmpty_eq_false_iff.mpr hdata
      rw [download_of_tooLong hphase hdata htransfer]
      simp only [download?, hphase, hempty, htransfer, Bool.not_true, Bool.false_eq_true,
        ↓reduceIte]
  | pastEnd hexpects hroom =>
      rw [download_of_pastEnd hexpects hroom, download?_of_expects hexpects, if_pos hroom]
  | misfit e hexpects hroom he =>
      rw [download?_of_expects hexpects, if_neg (Nat.not_lt.mpr hroom),
        takeBlock?_eq h hexpects hroom]
  | block plain cipher htakes =>
      rw [download?_of_expects htakes.toExpectsBlock, if_neg (Nat.not_lt.mpr htakes.room),
        takeBlock?_eq h htakes.toExpectsBlock htakes.room]

theorem send?_contents (h : Ready d) {length : Nat} {data secret : Bytes} {cipher : Cipher}
    (hsends : d.SendsFrame length data secret cipher) :
    d.session.cipher.send? .encrypt (d.session.contents (d.nextFrame length) data) =
      some (.ok (secret, cipher)) := by
  have hlasts : d.session.cipher.Lasts
      (d.session.contents (d.nextFrame length) data).length := by
    rw [Session.length_contents (length_of_fetch hsends.fetch) (d.nextFrame_fits length).room]
    exact (h.sends hsends.phase).mono (d.size_nextFrame_le length)
  exact (Cipher.send?_eq h.block hlasts .encrypt).trans (congrArg some hsends.encrypt)

/-- A frame that fits is fetched, completed and encrypted without a halt. -/
theorem sendFrame?_eq (h : Ready d) {length : Nat} (hoffers : d.OffersFrame length) :
    d.sendFrame? (d.nextFrame length) = some (d.upload length) := by
  have hlimit : Defaults.maxTransferSize < 0x100000000 := by decide
  have hfits := d.nextFrame_fits length
  have hroom := hfits.room
  have hsize := d.size_nextFrame_le length
  have hspace : d.session.buffer.front? (d.nextFrame length).data =
      some (d.session.buffer.front (d.nextFrame length).data) := Block.front?_eq _ (by omega)
  simp only [sendFrame?, hspace, Option.bind_eq_bind, Option.bind_some]
  cases hfetch : d.fetch (d.nextFrame length).data with
  | error fault => rw [upload_of_not_fetched hoffers hfetch]
  | ok data =>
      obtain ⟨secret, cipher, hsends⟩ := hoffers.exists_sendsFrame hfetch
      have hdata := length_of_fetch hfetch
      have hframed := Session.framed?_eq (s := d.session) hdata hroom hsize hfits.trailer_le
      generalize hs : d.session.framed (d.nextFrame length) data = s at hframed
      have hfront : s.buffer.front? (d.nextFrame length).size =
          some (d.session.contents (d.nextFrame length) data) := by
        rw [Block.front?_eq _ hsize, ← hs, Session.front_framed hdata hroom hsize]
      have hsend : s.cipher.send? .encrypt (d.session.contents (d.nextFrame length) data) =
          some (.ok (secret, cipher)) := by
        rw [← hs]
        exact send?_contents h hsends
      have hremaining : Count.sub? s.remaining (Count.narrow (d.nextFrame length).data) =
          some (s.remaining - (d.nextFrame length).data) := by
        rw [Count.narrow_eq (by omega), ← hs]
        exact Count.sub?_eq hfits.data_le
      have hcopied := s.buffer.copy?_zero_eq hsends.length_secret hsize
      have hreply := s.buffer.front?_write_zero hsends.length_secret hsize
      simp only [hframed, hfront, hsend, hcopied, hremaining, hreply, Option.bind_some]
      rw [upload_of_sendsFrame hsends, sentSession, hs]
      rfl

/-- The plan of a frame does not halt, however much is left and however much is asked for. -/
theorem plan?_eq_nextFrame (h : Ready d) (length : Nat) :
    Frame.plan? d.session.cipher.blockSize (min length d.setup.profile.transferSize.toNat)
      d.session.remaining d.session.trailerWidth = some (d.nextFrame length) := by
  have hlimit : 0x100000000 + Defaults.maxChecksumWidth + Defaults.maxBlockSize <
      Trailer.lengthLimit := by decide
  have hremaining := h.remaining
  have hwidth := d.session.trailerWidth_le
  have hblock := h.block
  exact Frame.plan?_eq d.session.cipher.blockSize_pos (by omega)

theorem upload?_eq (h : Ready d) (length : Nat) : d.upload? length = some (d.upload length) := by
  have hplan := plan?_eq_nextFrame h length
  have hreset := d.session.cipher.reset?_eq
  by_cases hexpects : d.ExpectsUpload
  · have hguard : (!d.setup.profile.uploads || !d.session.phase.takesUpload) = false := by
      rw [hexpects.enabled, hexpects.phase]
      rfl
    simp only [upload?, hguard, Bool.false_eq_true, ↓reduceIte]
    by_cases hleft : d.session.remaining = 0 ∧ d.session.trailerWidth = 0
    · rw [upload_of_nothing_left hexpects hleft, if_pos hleft, hreset]
      rfl
    · simp only [hleft, hplan, Option.bind_eq_bind, Option.bind_some, ↓reduceIte]
      by_cases hsize : (d.nextFrame length).size = 0
      · rw [upload_of_tooShort hexpects hleft hsize, if_pos hsize]
      · rw [if_neg hsize, sendFrame?_eq h ⟨hexpects, hleft, hsize⟩]
  · rw [upload_of_unexpected hexpects]
    simp only [upload?, guard_of_unexpected hexpects, ↓reduceIte]

theorem command?_eq (h : Ready d) (r : Request) : d.command? r = some (d.command r) := by
  have hreset := d.session.cipher.reset?_eq
  unfold command?
  split
  next hcode => rw [command, hcode, download?_eq h]
  next hcode => rw [command, hcode, upload?_eq h]
  all_goals simp only [hreset, Option.bind_eq_bind, Option.bind_some]

theorem control?_eq (h : Ready d) (r : Request) : d.control? r = some (d.control r) := by
  simp only [control?, control, command?_eq h, Option.bind_eq_bind, Option.bind_some]
  split
  · rfl
  · split <;> rfl

theorem step?_eq (h : Ready d) (s : Step) : d.step? s = some (d.step s) := by
  cases s with
  | control r => exact control?_eq h r
  | setInterface alternate index =>
      simp only [step?, d.session.cipher.reset?_eq, Option.bind_eq_bind, Option.bind_some]
      rfl
  | _ => rfl

end Device

theorem Frame.size_plan_lt {block : Nat} (hblock : 0 < block) (limit remaining width : Nat) :
    (plan block limit remaining width).size <
      (plan block limit remaining width).data + (plan block limit remaining width).trailer +
        block := by
  have hround := (Bytes.roundUp_bounds (remaining + width) hblock).2
  by_cases hlast : Bytes.roundUp (remaining + width) block ≤ limit
  · rw [plan_of_fits hlast]
    exact hround
  · obtain ⟨whole, hplan, -⟩ := plan_of_not_fits hblock hlast
    rw [hplan]
    exact Nat.lt_add_of_pos_right hblock

/-- A checksum is not cut: its bytes come in one frame, behind the last ones of the region. -/
theorem Frame.trailer_plan {block : Nat} (hblock : 0 < block) (limit remaining width : Nat) :
    (plan block limit remaining width).trailer = 0 ∨
      (plan block limit remaining width).trailer = width ∧
        (plan block limit remaining width).data = remaining := by
  by_cases hlast : Bytes.roundUp (remaining + width) block ≤ limit
  · rw [plan_of_fits hlast]
    exact .inr ⟨rfl, rfl⟩
  · obtain ⟨whole, hplan, -⟩ := plan_of_not_fits hblock hlast
    rw [hplan]
    exact .inl rfl

theorem Device.trailer_nextFrame (d : Device) (length : Nat) :
    (d.nextFrame length).trailer = 0 ∨
      (d.nextFrame length).data = d.session.remaining ∧
        ∃ sum, d.session.uploadSum = some sum ∧
          (d.nextFrame length).trailer = sum.kind.width := by
  rcases Frame.trailer_plan d.session.cipher.blockSize_pos
    (min length d.setup.profile.transferSize.toNat) d.session.remaining d.session.trailerWidth
    with hnone | ⟨htrailer, hdata⟩
  · exact .inl hnone
  · change (d.nextFrame length).trailer = _ at htrailer
    unfold Session.trailerWidth at htrailer
    split at htrailer
    next sum hsum =>
        split at htrailer
        · exact .inl htrailer
        · exact .inr ⟨hdata, sum, hsum, htrailer⟩
    next => exact .inl htrailer

namespace Consistent

variable {setup : Setup} {cipher : Cipher} {d : Device} {log : List Exchange} {kind : CipherKind}
  {mode : ChainMode} {key nonce : Bytes}

theorem kind_uploadSum (h : Consistent setup cipher d log) (hexpects : d.ExpectsUpload) :
    d.session.uploadSum.map Checksum.kind = setup.profile.checksum := by
  rw [(h.replying_kept (h.coherent.idle_or_uploads hexpects.phase)).uploadSum, Option.map_map]
  cases setup.profile.checksum with
  | none => rfl
  | some kind => exact congrArg some (Checksum.kind_ofBytes kind _)

theorem run?_eq (h : Consistent setup cipher d log)
    (hmake : Cipher.make kind mode key nonce = .ok cipher.reset) (steps : List Step) :
    d.run? steps = some (d.run steps) := by
  induction steps generalizing d log with
  | nil => rfl
  | cons s steps ih =>
      have hstep := Device.step?_eq (h.ready hmake) s
      have hrest := ih (h.step s)
      simp only [Device.run?, hstep, hrest, Option.bind_eq_bind, Option.bind_some]
      rfl

end Consistent

/-- In whatever state a bootloader is, the next frame of an upload fits what is left of the
region, the request and the buffer; it is made of whole blocks, less than one of them padding,
with all of the checksum or nothing of it, and the cipher takes it.  A block of a download that
may come fits the buffer, and the cipher refuses it exactly if it ends inside a block.  No
operation of any run halts: with operations that may, the run is the same. -/
theorem run_never_halts {setup : Setup} {cipher : Cipher} {d : Device} {kind : CipherKind}
    {mode : ChainMode} {key nonce : Bytes}
    (hmake : Cipher.make kind mode key nonce = .ok cipher.reset)
    (h : Reachable setup cipher d) :
    (∀ length,
      let frame := d.nextFrame length
      let limit := min length setup.profile.transferSize.toNat
      frame.data ≤ d.session.remaining ∧ frame.data + frame.trailer ≤ frame.size ∧
        frame.size ≤ limit ∧ limit ≤ 1024 ∧ frame.size % kind.blockSize = 0 ∧
        frame.size < frame.data + frame.trailer + kind.blockSize ∧
        (frame.trailer = 0 ∨ frame.data = d.session.remaining ∧
          ∃ sum, d.session.uploadSum = some sum ∧ frame.trailer = sum.kind.width) ∧
        ∀ data, d.fetch frame.data = .ok data →
          let s := d.session.framed frame data
          ∃ secret after, s.cipher.encrypt (s.buffer.front frame.size) = .ok (secret, after)) ∧
    (d.ExpectsUpload → d.session.uploadSum.map Checksum.kind = setup.profile.checksum) ∧
    (∀ data, d.ExpectsBlock data → data.length ≤ 1024 ∧
      let s := d.session.loaded data
      ((∃ e, s.cipher.decrypt (s.buffer.front data.length) = .error e) ↔
        data.length % kind.blockSize ≠ 0)) ∧
    ∀ steps, d.run? steps = some (d.run steps) := by
  obtain ⟨log, hconsistent⟩ := h.exists_consistent
  have hblock := hconsistent.toSound.blockSize_eq hmake
  have hpos := d.session.cipher.blockSize_pos
  refine ⟨?frames, hconsistent.kind_uploadSum, ?blocks, hconsistent.run?_eq hmake⟩
  case frames =>
    intro length frame limit
    have hfits := d.nextFrame_fits length
    have hsetup := hconsistent.same_setup
    have hlimit : min length d.setup.profile.transferSize.toNat = limit := by rw [hsetup]
    have hpadding : frame.size < frame.data + frame.trailer + d.session.cipher.blockSize :=
      Frame.size_plan_lt hpos _ _ _
    have htransfer : limit ≤ 1024 :=
      Nat.le_trans (Nat.min_le_right _ _) setup.profile.transferSize_le
    have hblocks := hfits.blocks
    have hsize := hfits.size_le
    rw [hlimit] at hsize
    rw [hblock] at hpadding hblocks
    refine ⟨hfits.data_le, hfits.room, hsize, htransfer, hblocks, hpadding,
      d.trailer_nextFrame length, ?_⟩
    intro data hfetch s
    have hdata := Device.length_of_fetch hfetch
    have hcontents : s.buffer.front frame.size = d.session.contents frame data :=
      Session.front_framed hdata hfits.room (d.size_nextFrame_le length)
    have haligned : (d.session.contents frame data).length % d.session.cipher.blockSize = 0 := by
      rw [Session.length_contents hdata hfits.room, hblock]
      exact hblocks
    rw [hcontents]
    exact Cipher.apply_eq_ok_of_aligned d.session.cipher .encrypt _ haligned
  case blocks =>
    intro data hexpects
    refine ⟨hexpects.length_le, ?_⟩
    intro s
    have hfront : s.buffer.front data.length = data := Session.front_loaded hexpects.length_le
    have hdecrypt := Cipher.apply_eq d.session.cipher .decrypt data
    rw [hblock] at hdecrypt
    rw [hfront]
    change (∃ e, d.session.cipher.apply .decrypt data = .error e) ↔ _
    rw [hdecrypt]
    by_cases hfit : data.length % kind.blockSize = 0
    · simp [hfit]
    · simp [hfit]

/-- A region of nine bytes under a cipher with blocks of eight: the frame takes them all, with
the four bytes of a checksum and three zeros, and is sent without a halt. -/
theorem run_never_halts_of_last_frame :
    let setup : Setup :=
      ⟨{ checksum := some .crc32Small }, 0, ⟨0x08000000, 9⟩, none⟩
    let cipher := Cipher.fresh (.block .xtea) .cbc Defaults.keyA Defaults.nonce
    let board : Board := { flash := ⟨0x08000000, List.replicate 9 7⟩, eeprom := ⟨0x100, []⟩ }
    let d := Device.start setup cipher board
    let upload : Step := .control { type := 0xA1, code := 2, index := 0, length := 64 }
    d.nextFrame 64 = ⟨9, 4, 16⟩ ∧ (d.nextFrame 64).size % 8 = 0 ∧
      d.run? [upload, upload] = some (d.run [upload, upload]) := by
  intro setup cipher board d upload
  have hmake : Cipher.make (.block .xtea) .cbc Defaults.keyA Defaults.nonce =
      .ok cipher.reset := rfl
  have hreachable : Reachable setup cipher d := ⟨board, [], rfl⟩
  obtain ⟨hframes, -, -, hrun⟩ := run_never_halts hmake hreachable
  obtain ⟨-, -, -, -, hblocks, -⟩ := hframes 64
  exact ⟨by decide +kernel, hblocks, hrun [upload, upload]⟩

end Dfu

end FirmwareUpdate
