/-
The outcomes of the two requests that move data.  A block of a download and a frame of
an upload are written to the front of the transfer buffer and read back from there, so
what lies behind them never takes part, and the outcomes are told without it.
-/
import FirmwareUpdate.Dfu.Bus
import FirmwareUpdate.Proofs.Chaining

namespace FirmwareUpdate

namespace Dfu

theorem Bank.length_of_read? {bank : Bank} {address : UInt32} {length : Nat} {data : Bytes}
    (h : bank.read? address length = some data) : data.length = length := by
  simp only [Bank.read?, Bank.offset?, Option.map_eq_some_iff] at h
  obtain ⟨offset, hoffset, rfl⟩ := h
  split at hoffset
  · split at hoffset
    · simp only [Option.some.injEq] at hoffset
      rw [List.length_take, List.length_drop]
      omega
    · simp at hoffset
  · simp at hoffset

/-- A read that succeeds gives as many bytes as were asked for. -/
theorem Board.length_of_read {board : Board} {address : UInt32} {count : Nat} {data : Bytes}
    (h : board.read address count = .ok data) : data.length = count := by
  unfold Board.read at h
  split at h
  next => simp at h
  next =>
      split at h
      next flash hflash =>
          simp only [Except.ok.injEq] at h
          subst h
          exact Bank.length_of_read? hflash
      next =>
          split at h
          next eeprom heeprom =>
              simp only [Except.ok.injEq] at h
              subst h
              exact Bank.length_of_read? heeprom
          next => simp at h

/-- A frame fits: its part of the region is there, it has room for what it holds, it is
not longer than the host allows, and it is made of whole blocks. -/
structure Frame.Fits (frame : Frame) (block limit remaining width : Nat) : Prop where
  data_le : frame.data ≤ remaining
  trailer_le : frame.trailer ≤ width
  room : frame.data + frame.trailer ≤ frame.size
  size_le : frame.size ≤ limit
  blocks : frame.size % block = 0

theorem Frame.plan_fits {block : Nat} (hblock : 0 < block) (limit remaining width : Nat) :
    (plan block limit remaining width).Fits block limit remaining width := by
  have hround := (Bytes.roundUp_bounds (remaining + width) hblock).1
  by_cases hlast : Bytes.roundUp (remaining + width) block ≤ limit
  · simp only [plan, hlast, ↓reduceIte]
    exact ⟨Nat.le_refl _, Nat.le_refl _, hround, hlast, Bytes.roundUp_mod _ _⟩
  · have hwhole : min limit remaining - min limit remaining % block ≤ min limit remaining :=
      Nat.sub_le _ _
    simp only [plan, hlast, ↓reduceIte]
    refine ⟨Nat.le_trans hwhole (Nat.min_le_right _ _), Nat.zero_le _, Nat.le_refl _,
      Nat.le_trans hwhole (Nat.min_le_left _ _), ?_⟩
    exact Nat.sub_mod_eq_zero_of_mod_eq (Nat.mod_mod _ _).symm

theorem Frame.plan_of_fits {block limit remaining width : Nat}
    (h : Bytes.roundUp (remaining + width) block ≤ limit) :
    plan block limit remaining width =
      ⟨remaining, width, Bytes.roundUp (remaining + width) block⟩ :=
  if_pos h

/-- A frame with bytes of the checksum takes all that is left of the region. -/
theorem Frame.data_plan_of_trailer {block limit remaining width : Nat}
    (h : 0 < (plan block limit remaining width).trailer) :
    (plan block limit remaining width).data = remaining := by
  by_cases hlast : Bytes.roundUp (remaining + width) block ≤ limit
  · rw [plan_of_fits hlast]
  · simp only [plan, hlast, ↓reduceIte, Nat.lt_irrefl] at h

/-- When not everything fits, a frame is made of whole blocks of the region alone. -/
theorem Frame.plan_of_not_fits {block limit remaining width : Nat} (hblock : 0 < block)
    (h : ¬ Bytes.roundUp (remaining + width) block ≤ limit) :
    ∃ whole, plan block limit remaining width = ⟨whole, 0, whole⟩ ∧ whole % block = 0 := by
  have hblocks := (plan_fits hblock limit remaining width).blocks
  simp only [plan, h, ↓reduceIte] at hblocks ⊢
  exact ⟨_, rfl, hblocks⟩

/-- A limit that leaves room for a block, and for the last bytes of a region with their
checksum, always leaves room for whole blocks of what is left. -/
theorem Frame.plan_of_exceeds {block limit remaining width : Nat} (hblock : 0 < block)
    (hlimit : max block (Bytes.roundUp (block - 1 + width) block) ≤ limit)
    (h : ¬ Bytes.roundUp (remaining + width) block ≤ limit) :
    ∃ whole, plan block limit remaining width = ⟨whole, 0, whole⟩ ∧ block ≤ whole ∧
      whole ≤ remaining ∧ whole % block = 0 := by
  have hroom : block ≤ remaining := by
    rcases Nat.lt_or_ge remaining block with hshort | hroom
    · have hle : remaining + width ≤ block - 1 + width := by omega
      have hround := Bytes.roundUp_mono hle block
      omega
    · exact hroom
  have hfits : block ≤ min limit remaining := by omega
  have hrest := Nat.mod_lt (min limit remaining) hblock
  have hdiv := Nat.div_add_mod (min limit remaining) block
  have hone : block * 1 ≤ block * (min limit remaining / block) :=
    Nat.mul_le_mul_left block (Nat.div_pos hfits hblock)
  refine ⟨min limit remaining - min limit remaining % block, ?_, by omega, by omega, ?_⟩
  · simp only [plan, h, ↓reduceIte]
  · exact Nat.sub_mod_eq_zero_of_mod_eq (Nat.mod_mod _ _).symm

namespace Session

variable {s : Session} {frame : Frame} {data plain secret : Bytes} {cipher : Cipher}

/-- The bytes of a frame before they are encrypted: of the region, of its checksum, and
zeros. -/
def contents (s : Session) (frame : Frame) (data : Bytes) : Bytes :=
  let sum := s.uploadSum.map (·.update data)
  let trailer := sum.elim [] fun sum => sum.trailer.take frame.trailer
  data ++ trailer ++ List.replicate (frame.size - (frame.data + trailer.length)) 0

theorem length_trailer_take_le (sum : Option Checksum) (count : Nat) :
    (sum.elim [] fun sum => sum.trailer.take count).length ≤ count := by
  cases sum with
  | none => exact Nat.zero_le _
  | some sum => exact List.length_take_le _ _

theorem front_loaded (h : data.length ≤ Defaults.maxTransferSize) :
    (s.loaded data).buffer.front data.length = data :=
  Block.front_write_zero s.buffer data h

theorem front_received (h : plain.length ≤ Defaults.maxTransferSize) :
    (s.received plain cipher).buffer.front plain.length = plain :=
  Block.front_write_zero s.buffer plain h

theorem scanner_received (h : plain.length ≤ Defaults.maxTransferSize) :
    (s.received plain cipher).scanner = s.scanner.map (·.update plain) := by
  simp only [received, Block.front_write_zero s.buffer plain h]

theorem uploadSum_framed (hdata : data.length = frame.data)
    (h : data.length ≤ Defaults.maxTransferSize) :
    (s.framed frame data).uploadSum = s.uploadSum.map (·.update data) := by
  simp only [framed, ← hdata, Block.front_write_zero s.buffer data h]

/-- The front of the buffer is the frame, whatever was there before. -/
theorem front_framed (hdata : data.length = frame.data)
    (hsize : frame.data + frame.trailer ≤ frame.size)
    (h : frame.size ≤ Defaults.maxTransferSize) :
    (s.framed frame data).buffer.front frame.size = s.contents frame data := by
  have hfront : (s.buffer.write 0 data).front frame.data = data := by
    rw [← hdata]
    exact Block.front_write_zero s.buffer data (by omega)
  simp only [framed, contents, hfront]
  generalize htrailer : ((s.uploadSum.map (·.update data)).elim [] fun sum =>
    sum.trailer.take frame.trailer) = trailer
  have hlength : trailer.length ≤ frame.trailer := by
    rw [← htrailer]
    exact length_trailer_take_le _ _
  have hzeros : frame.data + trailer.length
      + (List.replicate (frame.size - (frame.data + trailer.length)) (0 : UInt8)).length =
        frame.size := by
    rw [List.length_replicate]
    omega
  have htail := Block.front_write ((s.buffer.write 0 data).write frame.data trailer)
    (frame.data + trailer.length) (List.replicate (frame.size - (frame.data + trailer.length)) 0)
    (by omega)
  rw [hzeros] at htail
  rw [htail, Block.front_write _ _ _ (by omega), hfront]

theorem length_contents (hdata : data.length = frame.data)
    (hsize : frame.data + frame.trailer ≤ frame.size) :
    (s.contents frame data).length = frame.size := by
  unfold contents
  have hlength := length_trailer_take_le (s.uploadSum.map (·.update data)) frame.trailer
  simp only [List.length_append, List.length_replicate]
  omega

end Session

namespace Device

variable {d : Device} {data plain secret : Bytes} {cipher : Cipher} {frame : Frame}
  {length : Nat} {board : Board}

theorem length_of_fetch {count : Nat} (h : d.fetch count = .ok data) : data.length = count := by
  unfold fetch at h
  split at h
  next hzero =>
      simp only [Except.ok.injEq] at h
      rw [← h, hzero]
      rfl
  next => exact Board.length_of_read h

/-- The device waits for a block, and this one is not too long for a transfer. -/
structure ExpectsBlock (d : Device) (data : Bytes) : Prop where
  phase : d.session.phase.takesDownload = true
  nonempty : data ≠ []
  transfer : data.length ≤ d.setup.profile.transferSize.toNat

/-- A block that is taken in: it also fits the region and the cipher, and `plain` is what it
decrypts to. -/
structure TakesBlock (d : Device) (data plain : Bytes) (cipher : Cipher) : Prop
    extends ExpectsBlock d data where
  room : data.length ≤ d.session.remaining
  decrypt : d.session.cipher.decrypt data = .ok (plain, cipher)

theorem ExpectsBlock.length_le (h : d.ExpectsBlock data) :
    data.length ≤ Defaults.maxTransferSize :=
  Nat.le_trans h.transfer d.setup.profile.transferSize_le

theorem TakesBlock.length_plain (h : d.TakesBlock data plain cipher) :
    plain.length = data.length :=
  Cipher.length_of_apply h.decrypt

theorem TakesBlock.length_plain_le (h : d.TakesBlock data plain cipher) :
    plain.length ≤ Defaults.maxTransferSize := by
  rw [h.length_plain]
  exact h.length_le

theorem TakesBlock.front_received (h : d.TakesBlock data plain cipher) :
    ((d.session.loaded data).received plain cipher).buffer.front data.length = plain := by
  rw [← h.length_plain]
  exact Session.front_received h.length_plain_le

/-- The session behind a block that is taken in, whatever the buffer is left with. -/
theorem TakesBlock.received_eq (h : d.TakesBlock data plain cipher) :
    ∃ buffer, (d.session.loaded data).received plain cipher =
      { d.session with
        cipher := cipher
        scanner := d.session.scanner.map (·.update plain)
        buffer := buffer } := by
  refine ⟨((d.session.loaded data).received plain cipher).buffer, ?_⟩
  have hscanner : ((d.session.loaded data).received plain cipher).scanner =
      d.session.scanner.map (·.update plain) := Session.scanner_received h.length_plain_le
  rw [← hscanner]
  rfl

theorem download_of_unexpected (h : d.session.phase.takesDownload = false) :
    d.download data = d.refuse := by
  simp only [download, h, Bool.not_false, ↓reduceIte]

theorem download_nil (h : d.session.phase.takesDownload = true) :
    d.download [] = ⟨d.inPhase .manifestSync, .accepted, []⟩ := by
  simp only [download, h, List.isEmpty_nil, Bool.not_true, Bool.false_eq_true, ↓reduceIte]

theorem download_of_tooLong (h : d.session.phase.takesDownload = true) (hdata : data ≠ [])
    (htransfer : d.setup.profile.transferSize.toNat < data.length) :
    d.download data = d.refuse := by
  have hempty : data.isEmpty = false := List.isEmpty_eq_false_iff.mpr hdata
  simp only [download, h, hempty, htransfer, Bool.not_true, Bool.false_eq_true, ↓reduceIte]

theorem download_of_pastEnd (h : d.ExpectsBlock data)
    (hroom : d.session.remaining < data.length) :
    d.download data = ⟨d.inPhase (.error .address), .accepted, []⟩ := by
  have hempty : data.isEmpty = false := List.isEmpty_eq_false_iff.mpr h.nonempty
  have htransfer := Nat.not_lt.mpr h.transfer
  simp only [download, h.phase, hempty, htransfer, hroom, Bool.not_true, Bool.false_eq_true,
    ↓reduceIte]

theorem download_of_misfit {e : CipherError} (h : d.ExpectsBlock data)
    (hroom : data.length ≤ d.session.remaining)
    (he : d.session.cipher.decrypt data = .error e) :
    d.download data =
      ⟨(d.withSession (d.session.loaded data)).inPhase (.error .file), .accepted, []⟩ := by
  have hempty : data.isEmpty = false := List.isEmpty_eq_false_iff.mpr h.nonempty
  have htransfer := Nat.not_lt.mpr h.transfer
  have hroom' := Nat.not_lt.mpr hroom
  have hdecrypt : (d.session.loaded data).cipher.decrypt
      ((d.session.loaded data).buffer.front data.length) = .error e := by
    rw [Session.front_loaded h.length_le]
    exact he
  simp only [download, h.phase, hempty, htransfer, hroom', hdecrypt, Bool.not_true,
    Bool.false_eq_true, ↓reduceIte]

/-- A block that is taken in goes to the memory as it was decrypted. -/
theorem download_of_takesBlock (h : d.TakesBlock data plain cipher) :
    d.download data =
      (d.withSession ((d.session.loaded data).received plain cipher)).programBlock data.length := by
  have hempty : data.isEmpty = false := List.isEmpty_eq_false_iff.mpr h.nonempty
  have htransfer := Nat.not_lt.mpr h.transfer
  have hroom := Nat.not_lt.mpr h.room
  have hdecrypt : (d.session.loaded data).cipher.decrypt
      ((d.session.loaded data).buffer.front data.length) = .ok (plain, cipher) := by
    rw [Session.front_loaded h.length_le]
    exact h.decrypt
  simp only [download, h.phase, hempty, htransfer, hroom, hdecrypt, Bool.not_true,
    Bool.false_eq_true, ↓reduceIte]

theorem download_of_programmed (h : d.TakesBlock data plain cipher)
    (hboard : d.board.program d.session.target d.session.address plain = .ok board) :
    d.download data =
      ⟨{ d with
          session :=
            { ((d.session.loaded data).received plain cipher).advance data.length with
              phase := d.programmedPhase }
          board := board }, .accepted,
        [.program d.session.target d.session.address plain]⟩ := by
  have hprogram : d.board.program ((d.session.loaded data).received plain cipher).target
      ((d.session.loaded data).received plain cipher).address plain = .ok board := hboard
  rw [download_of_takesBlock h]
  simp only [programBlock, withSession, h.front_received, hprogram]
  rfl

theorem download_of_not_programmed {fault : MemoryFault} (h : d.TakesBlock data plain cipher)
    (hfault : d.board.program d.session.target d.session.address plain = .error fault) :
    d.download data =
      ⟨(d.withSession ((d.session.loaded data).received plain cipher)).inPhase
          (.error fault.code), .accepted,
        [.program d.session.target d.session.address plain]⟩ := by
  have hprogram : d.board.program ((d.session.loaded data).received plain cipher).target
      ((d.session.loaded data).received plain cipher).address plain = .error fault := hfault
  rw [download_of_takesBlock h]
  simp only [programBlock, withSession, h.front_received, hprogram]
  rfl

/-- What a device makes of the data of a download request. -/
inductive Incoming (d : Device) (data : Bytes) : Prop
  | unexpected (h : d.session.phase.takesDownload = false)
  | final (h : d.session.phase.takesDownload = true) (hdata : data = [])
  | tooLong (h : d.session.phase.takesDownload = true) (hdata : data ≠ [])
      (htransfer : d.setup.profile.transferSize.toNat < data.length)
  | pastEnd (h : d.ExpectsBlock data) (hroom : d.session.remaining < data.length)
  | misfit (e : CipherError) (h : d.ExpectsBlock data)
      (hroom : data.length ≤ d.session.remaining)
      (he : d.session.cipher.decrypt data = .error e)
  | block (plain : Bytes) (cipher : Cipher) (h : d.TakesBlock data plain cipher)

theorem incoming (d : Device) (data : Bytes) : d.Incoming data := by
  cases hphase : d.session.phase.takesDownload with
  | false => exact .unexpected hphase
  | true =>
      by_cases hdata : data = []
      · exact .final hphase hdata
      · rcases Nat.lt_or_ge d.setup.profile.transferSize.toNat data.length with
          htransfer | htransfer
        · exact .tooLong hphase hdata htransfer
        · have hexpects : d.ExpectsBlock data := ⟨hphase, hdata, htransfer⟩
          rcases Nat.lt_or_ge d.session.remaining data.length with hroom | hroom
          · exact .pastEnd hexpects hroom
          · cases hdecrypt : d.session.cipher.decrypt data with
            | error e => exact .misfit e hexpects hroom hdecrypt
            | ok result => exact .block _ _ ⟨hexpects, hroom, hdecrypt⟩

/-- What holds of each outcome that a download request can have holds of the one it has. -/
theorem download_cases {motive : Outcome → Prop} (d : Device) (data : Bytes)
    (refused : motive d.refuse)
    (final : d.session.phase.takesDownload = true →
      motive ⟨d.inPhase .manifestSync, .accepted, []⟩)
    (pastEnd : d.ExpectsBlock data → d.session.remaining < data.length →
      motive ⟨d.inPhase (.error .address), .accepted, []⟩)
    (misfit : ∀ e, d.ExpectsBlock data → d.session.cipher.decrypt data = .error e →
      motive ⟨(d.withSession (d.session.loaded data)).inPhase (.error .file), .accepted, []⟩)
    (notProgrammed : ∀ plain cipher fault, d.TakesBlock data plain cipher →
      d.board.program d.session.target d.session.address plain = .error fault →
      motive
        ⟨(d.withSession ((d.session.loaded data).received plain cipher)).inPhase
            (.error fault.code), .accepted,
          [.program d.session.target d.session.address plain]⟩)
    (programmed : ∀ plain cipher board, d.TakesBlock data plain cipher →
      d.board.program d.session.target d.session.address plain = .ok board →
      motive
        ⟨{ d with
            session :=
              { ((d.session.loaded data).received plain cipher).advance data.length with
                phase := d.programmedPhase }
            board := board }, .accepted,
          [.program d.session.target d.session.address plain]⟩) :
    motive (d.download data) := by
  cases d.incoming data with
  | unexpected hphase =>
      rw [download_of_unexpected hphase]
      exact refused
  | final hphase hdata =>
      rw [hdata, download_nil hphase]
      exact final hphase
  | tooLong hphase hdata htransfer =>
      rw [download_of_tooLong hphase hdata htransfer]
      exact refused
  | pastEnd hexpects hroom =>
      rw [download_of_pastEnd hexpects hroom]
      exact pastEnd hexpects hroom
  | misfit e hexpects hroom he =>
      rw [download_of_misfit hexpects hroom he]
      exact misfit e hexpects he
  | block plain cipher htakes =>
      cases hboard : d.board.program d.session.target d.session.address plain with
      | error fault =>
          rw [download_of_not_programmed htakes hboard]
          exact notProgrammed plain cipher fault htakes hboard
      | ok board =>
          rw [download_of_programmed htakes hboard]
          exact programmed plain cipher board htakes hboard

/-- The frame that answers a request for at most `length` bytes. -/
def nextFrame (d : Device) (length : Nat) : Frame :=
  Frame.plan d.session.cipher.blockSize (min length d.setup.profile.transferSize.toNat)
    d.session.remaining d.session.trailerWidth

theorem nextFrame_fits (d : Device) (length : Nat) :
    (d.nextFrame length).Fits d.session.cipher.blockSize
      (min length d.setup.profile.transferSize.toNat) d.session.remaining
      d.session.trailerWidth :=
  Frame.plan_fits d.session.cipher.blockSize_pos _ _ _

theorem size_nextFrame_le (d : Device) (length : Nat) :
    (d.nextFrame length).size ≤ Defaults.maxTransferSize := by
  have hlimit := (d.nextFrame_fits length).size_le
  have htransfer := d.setup.profile.transferSize_le
  omega

/-- The device may be asked for the next part of an upload. -/
structure ExpectsUpload (d : Device) : Prop where
  enabled : d.setup.profile.uploads = true
  phase : d.session.phase.takesUpload = true

/-- Something is left to send, and some of it fits a reply of at most `length` bytes. -/
structure OffersFrame (d : Device) (length : Nat) : Prop extends ExpectsUpload d where
  left : ¬ (d.session.remaining = 0 ∧ d.session.trailerWidth = 0)
  size : (d.nextFrame length).size ≠ 0

/-- A frame that is sent: `data` is its part of the region, and `secret` what all of it is
encrypted to. -/
structure SendsFrame (d : Device) (length : Nat) (data secret : Bytes) (cipher : Cipher) : Prop
    extends OffersFrame d length where
  fetch : d.fetch (d.nextFrame length).data = .ok data
  encrypt : d.session.cipher.encrypt (d.session.contents (d.nextFrame length) data) =
    .ok (secret, cipher)

/-- The session of a device that has sent a frame. -/
def sentSession (d : Device) (frame : Frame) (data secret : Bytes) (cipher : Cipher) : Session :=
  (d.session.framed frame data).sent frame secret cipher

theorem SendsFrame.length_secret (h : d.SendsFrame length data secret cipher) :
    secret.length = (d.nextFrame length).size := by
  rw [Cipher.length_of_apply h.encrypt,
    Session.length_contents (length_of_fetch h.fetch) (d.nextFrame_fits length).room]

theorem SendsFrame.length_data_le (h : d.SendsFrame length data secret cipher) :
    data.length ≤ d.session.remaining := by
  rw [length_of_fetch h.fetch]
  exact (d.nextFrame_fits length).data_le

/-- The session behind a frame that was sent, whatever the buffer is left with. -/
theorem SendsFrame.sentSession_eq (h : d.SendsFrame length data secret cipher) :
    ∃ buffer, d.sentSession (d.nextFrame length) data secret cipher =
      { d.session with
        phase := .uploadIdle
        address := d.session.address + UInt32.ofNat data.length
        remaining := d.session.remaining - data.length
        cipher := cipher
        uploadSum := d.session.uploadSum.map (·.update data)
        trailerSent := d.session.trailerSent || 0 < (d.nextFrame length).trailer
        buffer := buffer } := by
  have hroom := (d.nextFrame_fits length).room
  have hsize := d.size_nextFrame_le length
  have hdata := length_of_fetch h.fetch
  refine ⟨(d.sentSession (d.nextFrame length) data secret cipher).buffer, ?_⟩
  have hsum : (d.session.framed (d.nextFrame length) data).uploadSum =
      d.session.uploadSum.map (·.update data) := Session.uploadSum_framed hdata (by omega)
  rw [← hsum, hdata]
  rfl

theorem guard_of_unexpected (h : ¬ d.ExpectsUpload) :
    (!d.setup.profile.uploads || !d.session.phase.takesUpload) = true := by
  rw [← Bool.not_and, Bool.not_eq_true', ← Bool.not_eq_true, Bool.and_eq_true]
  intro hboth
  exact h ⟨hboth.1, hboth.2⟩

theorem upload_of_unexpected (h : ¬ d.ExpectsUpload) : d.upload length = d.refuse := by
  simp only [upload, guard_of_unexpected h, ↓reduceIte]

theorem upload_of_nothing_left (h : d.ExpectsUpload)
    (hleft : d.session.remaining = 0 ∧ d.session.trailerWidth = 0) :
    d.upload length = ⟨d.restart, .reply [], []⟩ := by
  simp only [upload, h.enabled, h.phase, hleft, Bool.not_true, Bool.or_self, Bool.false_eq_true,
    ↓reduceIte, and_self]

theorem upload_of_tooShort (h : d.ExpectsUpload)
    (hleft : ¬ (d.session.remaining = 0 ∧ d.session.trailerWidth = 0))
    (hsize : (d.nextFrame length).size = 0) : d.upload length = d.refuse := by
  unfold nextFrame at hsize
  simp only [upload, h.enabled, h.phase, hleft, hsize, Bool.not_true, Bool.or_self,
    Bool.false_eq_true, ↓reduceIte]

theorem upload_eq_sendFrame (h : d.OffersFrame length) :
    d.upload length = d.sendFrame (d.nextFrame length) := by
  have hsize := h.size
  unfold nextFrame at hsize
  simp only [upload, nextFrame, h.enabled, h.phase, h.left, hsize, Bool.not_true, Bool.or_self,
    Bool.false_eq_true, ↓reduceIte]

theorem upload_of_not_fetched {fault : MemoryFault} (h : d.OffersFrame length)
    (hfault : d.fetch (d.nextFrame length).data = .error fault) :
    d.upload length =
      ⟨d.inPhase (.error fault.code), .stalled, d.fetchCalls (d.nextFrame length).data⟩ := by
  rw [upload_eq_sendFrame h]
  simp only [sendFrame, hfault]

/-- A frame goes to the host as it was encrypted. -/
theorem upload_of_sendsFrame (h : d.SendsFrame length data secret cipher) :
    d.upload length =
      ⟨d.withSession (d.sentSession (d.nextFrame length) data secret cipher), .reply secret,
        d.fetchCalls (d.nextFrame length).data⟩ := by
  have hlimit := d.size_nextFrame_le length
  have hencrypt : (d.session.framed (d.nextFrame length) data).cipher.encrypt
      ((d.session.framed (d.nextFrame length) data).buffer.front (d.nextFrame length).size) =
        .ok (secret, cipher) := by
    rw [Session.front_framed (length_of_fetch h.fetch) (d.nextFrame_fits length).room hlimit]
    exact h.encrypt
  have hreply : ((d.session.framed (d.nextFrame length) data).sent (d.nextFrame length) secret
      cipher).buffer.front (d.nextFrame length).size = secret := by
    rw [← h.length_secret] at hlimit ⊢
    exact Block.front_write_zero _ secret hlimit
  rw [upload_eq_sendFrame h.toOffersFrame]
  simp only [sendFrame, h.fetch, hencrypt, hreply]
  rfl

/-- Whole blocks are never refused by the cipher, so a frame that was read is sent. -/
theorem OffersFrame.exists_sendsFrame (h : d.OffersFrame length)
    (hfetch : d.fetch (d.nextFrame length).data = .ok data) :
    ∃ secret cipher, d.SendsFrame length data secret cipher := by
  have hfits := d.nextFrame_fits length
  have haligned : (d.session.contents (d.nextFrame length) data).length
      % d.session.cipher.blockSize = 0 := by
    rw [Session.length_contents (length_of_fetch hfetch) hfits.room, hfits.blocks]
  obtain ⟨secret, cipher, hencrypt⟩ :=
    Cipher.apply_eq_ok_of_aligned d.session.cipher .encrypt _ haligned
  exact ⟨secret, cipher, h, hfetch, hencrypt⟩

/-- What a device makes of a request for at most `length` bytes of an upload. -/
inductive Asked (d : Device) (length : Nat) : Prop
  | unexpected (h : ¬ d.ExpectsUpload)
  | finished (h : d.ExpectsUpload)
      (hleft : d.session.remaining = 0 ∧ d.session.trailerWidth = 0)
  | tooShort (h : d.ExpectsUpload)
      (hleft : ¬ (d.session.remaining = 0 ∧ d.session.trailerWidth = 0))
      (hsize : (d.nextFrame length).size = 0)
  | notFetched (fault : MemoryFault) (h : d.OffersFrame length)
      (hfault : d.fetch (d.nextFrame length).data = .error fault)
  | frame (data secret : Bytes) (cipher : Cipher) (h : d.SendsFrame length data secret cipher)

theorem asked (d : Device) (length : Nat) : d.Asked length := by
  by_cases hexpects : d.ExpectsUpload
  · by_cases hleft : d.session.remaining = 0 ∧ d.session.trailerWidth = 0
    · exact .finished hexpects hleft
    · by_cases hsize : (d.nextFrame length).size = 0
      · exact .tooShort hexpects hleft hsize
      · have hoffers : d.OffersFrame length := ⟨hexpects, hleft, hsize⟩
        cases hfetch : d.fetch (d.nextFrame length).data with
        | error fault => exact .notFetched fault hoffers hfetch
        | ok data =>
            obtain ⟨secret, cipher, hsends⟩ := hoffers.exists_sendsFrame hfetch
            exact .frame data secret cipher hsends
  · exact .unexpected hexpects

/-- What holds of each outcome that an upload request can have holds of the one it has. -/
theorem upload_cases {motive : Outcome → Prop} (d : Device) (length : Nat)
    (refused : motive d.refuse)
    (finished : d.ExpectsUpload → motive ⟨d.restart, .reply [], []⟩)
    (notFetched : ∀ fault, d.OffersFrame length →
      d.fetch (d.nextFrame length).data = .error fault →
      motive
        ⟨d.inPhase (.error fault.code), .stalled, d.fetchCalls (d.nextFrame length).data⟩)
    (frame : ∀ data secret cipher, d.SendsFrame length data secret cipher →
      motive
        ⟨d.withSession (d.sentSession (d.nextFrame length) data secret cipher), .reply secret,
          d.fetchCalls (d.nextFrame length).data⟩) :
    motive (d.upload length) := by
  cases d.asked length with
  | unexpected h =>
      rw [upload_of_unexpected h]
      exact refused
  | finished hexpects hleft =>
      rw [upload_of_nothing_left hexpects hleft]
      exact finished hexpects
  | tooShort hexpects hleft hsize =>
      rw [upload_of_tooShort hexpects hleft hsize]
      exact refused
  | notFetched fault hoffers hfault =>
      rw [upload_of_not_fetched hoffers hfault]
      exact notFetched fault hoffers hfault
  | frame data secret cipher hsends =>
      rw [upload_of_sendsFrame hsends]
      exact frame data secret cipher hsends

end Device

end Dfu

end FirmwareUpdate
