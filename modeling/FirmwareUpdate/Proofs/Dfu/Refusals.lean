/-
What requests leave behind that come to nothing.  One that is not for the bootloader leaves it
as it is; one that it refuses leaves all but its state as it was; and a block that it
acknowledges and cannot take moves neither the pointer nor a byte of the memories.
-/
import FirmwareUpdate.Proofs.Dfu.ErrorState

namespace FirmwareUpdate

namespace Dfu

/-- Whether a step is a request on the bus. -/
def Step.isRequest : Step → Bool
  | .control _ | .setInterface _ _ | .getInterface _ | .getDescriptor _ => true
  | _ => false

namespace Device

variable {d : Device} {r : Request} {s : Step} {data : Bytes}

/-- A request that neither arrives nor selects a setting on offer changes nothing. -/
theorem step_of_elsewhere (hrequest : s.isRequest = true)
    (harrives : s.request? d.setup.interface = none) (hselected : d.setup.selected? s = none) :
    ∃ answer, d.step s = ⟨d, answer, []⟩ := by
  cases s with
  | control r => exact step_of_no_request harrives
  | setInterface alternate index => exact setInterface_of_not_selected hselected
  | getInterface index => exact step_of_foreign (.getInterface index)
  | getDescriptor query => exact step_of_foreign (.getDescriptor query)
  | _ => cases hrequest

/-- A reply that fits the buffer of the bus is no refusal. -/
theorem deliver_reply_ne_stalled {length : Nat} {data : Bytes} (h : data.length ≤ controlBuffer) :
    deliver length (.reply data) ≠ .stalled := by
  simp only [deliver, Nat.not_lt.mpr h, ↓reduceIte, ne_eq, reduceCtorEq, not_false_eq_true]

/-- The board is asked for a fetch that fails. -/
theorem read_of_fetch_error {count : Nat} {fault : MemoryFault} (h : d.fetch count = .error fault) :
    d.board.read d.session.address count = .error fault ∧
      d.fetchCalls count = [.read d.session.address count] := by
  unfold fetch at h
  unfold fetchCalls
  split at h
  next => cases h
  next hcount => exact ⟨h, if_neg hcount⟩

/-- What a device has done that refused a request: it is in an error, and if it was asked for a
frame it may have called the board for bytes that it did not get. -/
inductive Refused (d : Device) (r : Request) : Outcome → Prop
  | refused : Refused d r d.refuse
  | notFetched {count : Nat} {fault : MemoryFault}
      (hupload : Command.ofCode? r.isInput r.code = some .upload)
      (hfault : d.board.read d.session.address count = .error fault) :
      Refused d r
        ⟨d.inPhase (.error fault.code), .stalled, [.read d.session.address count]⟩

/-- A block is never answered by data. -/
theorem download_refused_or_accepted (d : Device) (data : Bytes) :
    d.download data = d.refuse ∨ (d.download data).answer = .accepted := by
  apply download_cases (motive := fun outcome => outcome = d.refuse ∨ outcome.answer = .accepted)
  case refused => exact .inl rfl
  case final => exact fun _ => .inr rfl
  case pastEnd => exact fun _ _ => .inr rfl
  case misfit => exact fun _ _ _ => .inr rfl
  case notProgrammed => exact fun _ _ _ _ _ => .inr rfl
  case programmed => exact fun _ _ _ _ _ => .inr rfl

/-- A request for the status is told the status, whatever comes of it. -/
theorem getStatus_refused_or_told (d : Device) (length : Nat) :
    d.getStatus length = d.refuse ∨
      (d.getStatus length).answer = .reply (d.session.report d.setup) := by
  apply getStatus_cases (motive := fun outcome =>
    outcome = d.refuse ∨ outcome.answer = .reply (d.session.report d.setup))
  case refused => exact .inl rfl
  case resumed => exact fun _ => .inr rfl
  case notManifested => exact fun _ _ _ => .inr rfl
  case manifested => exact fun _ _ => .inr rfl
  case told => exact .inr rfl

theorem upload_refused (hupload : Command.ofCode? r.isInput r.code = some .upload)
    (htransfer : d.setup.profile.transferSize.toNat ≤ controlBuffer) {length : Nat}
    (h : deliver length (d.upload r.length.toNat).answer = .stalled) :
    d.Refused r (d.upload r.length.toNat) := by
  revert h
  apply upload_cases (motive := fun outcome =>
    deliver length outcome.answer = .stalled → d.Refused r outcome)
  case refused => exact fun _ => .refused
  case finished => exact fun _ h => absurd h (deliver_reply_ne_stalled (Nat.zero_le _))
  case notFetched =>
      intro fault hoffers hfault _
      obtain ⟨hread, hcalls⟩ := read_of_fetch_error hfault
      rw [hcalls]
      exact .notFetched hupload hread
  case frame =>
      intro data secret cipher hsends h
      have hsize := (d.nextFrame_fits r.length.toNat).size_le
      have hfits : secret.length ≤ controlBuffer := by
        rw [hsends.length_secret]
        omega
      exact absurd h (deliver_reply_ne_stalled hfits)

/-- A request is answered by a stall only if it was refused, since all replies fit the bus. -/
theorem command_refused (htransfer : d.setup.profile.transferSize.toNat ≤ controlBuffer)
    {length : Nat} (h : deliver length (d.command r).answer = .stalled) :
    d.Refused r (d.command r) := by
  revert h
  apply command_cases (motive := fun outcome =>
    deliver length outcome.answer = .stalled → d.Refused r outcome)
  case refused => exact fun _ => .refused
  case detached => exact fun _ _ h => nomatch h
  case download =>
      intro _ h
      rcases d.download_refused_or_accepted r.data with hrefused | haccepted
      · rw [hrefused]
        exact .refused
      · rw [haccepted] at h
        cases h
  case upload => exact fun hupload h => upload_refused hupload htransfer h
  case getStatus =>
      intro _ h
      rcases d.getStatus_refused_or_told r.length.toNat with hrefused | htold
      · rw [hrefused]
        exact .refused
      · rw [htold] at h
        exact absurd h (deliver_reply_ne_stalled (by rw [length_report]; decide))
  case getState =>
      intro _ h
      exact absurd h (deliver_reply_ne_stalled (by exact Nat.le_of_ble_eq_true rfl))
  case restarted => exact fun h => nomatch h

theorem step_refused (htransfer : d.setup.profile.transferSize.toNat ≤ controlBuffer)
    (harrives : s.request? d.setup.interface = some r) (h : (d.step s).answer = .stalled) :
    d.Refused r (d.step s) := by
  rw [step_of_request harrives] at h ⊢
  have hrefused : d.Refused r (d.command r) := command_refused htransfer h
  generalize d.command r = outcome at hrefused
  cases hrefused with
  | refused => exact .refused
  | notFetched hupload hfault => exact .notFetched hupload hfault

/-- What a device has done with a block that it acknowledged and could not take: the block
passes the end of the region, or does not fill the blocks of the cipher, or the board fails to
program it when the cipher and the scanner have taken it in. -/
inductive FailedBlock (d : Device) (data : Bytes) : Outcome → Prop
  | pastEnd (h : d.ExpectsBlock data) (hroom : d.session.remaining < data.length) :
      FailedBlock d data ⟨d.inPhase (.error .address), .accepted, []⟩
  | misfit (h : d.ExpectsBlock data) (hroom : data.length ≤ d.session.remaining)
      (hblocks : data.length % d.session.cipher.blockSize ≠ 0) (buffer) :
      FailedBlock d data
        ⟨d.withSession { d.session with phase := .error .file, buffer := buffer }, .accepted, []⟩
  | notProgrammed {plain : Bytes} {cipher : Cipher} {fault : MemoryFault}
      (h : d.TakesBlock data plain cipher)
      (hfault : d.board.program d.session.target d.session.address plain = .error fault)
      (scanner buffer) :
      FailedBlock d data
        ⟨d.withSession
            { d.session with
              phase := .error fault.code
              cipher := cipher
              scanner := scanner
              buffer := buffer }, .accepted,
          [.program d.session.target d.session.address plain]⟩

theorem blocks_of_decrypt_error {e : CipherError} (h : d.session.cipher.decrypt data = .error e) :
    data.length % d.session.cipher.blockSize ≠ 0 := by
  intro hblocks
  obtain ⟨plain, cipher, hdecrypt⟩ :=
    Cipher.apply_eq_ok_of_aligned d.session.cipher .decrypt data hblocks
  cases h.symm.trans hdecrypt

/-- A block that is acknowledged and leads to an error is one that could not be taken. -/
theorem download_failed {code : ErrorCode} (hanswer : (d.download data).answer = .accepted)
    (hphase : (d.download data).device.session.phase = .error code) :
    d.FailedBlock data (d.download data) := by
  cases d.incoming data with
  | unexpected h =>
      rw [download_of_unexpected h] at hanswer
      cases hanswer
  | final h hdata =>
      rw [hdata, download_nil h] at hphase
      cases hphase
  | tooLong h hdata htransfer =>
      rw [download_of_tooLong h hdata htransfer] at hanswer
      cases hanswer
  | pastEnd h hroom =>
      rw [download_of_pastEnd h hroom]
      exact .pastEnd h hroom
  | misfit e h hroom he =>
      rw [download_of_misfit h hroom he]
      exact .misfit h hroom (blocks_of_decrypt_error he) _
  | block plain cipher h =>
      cases hboard : d.board.program d.session.target d.session.address plain with
      | error fault =>
          rw [download_of_not_programmed h hboard]
          exact .notProgrammed h hboard _ _
      | ok board =>
          have hprogrammed : d.programmedPhase = .error code := by
            rw [download_of_programmed h hboard] at hphase
            exact hphase
          unfold programmedPhase at hprogrammed
          split at hprogrammed <;> cases hprogrammed

/-- A block that does not fit the region or the cipher is acknowledged all the same. -/
theorem download_of_unfit (h : d.ExpectsBlock data)
    (hunfit : d.session.remaining < data.length ∨
      data.length % d.session.cipher.blockSize ≠ 0) :
    (d.download data).answer = .accepted ∧ (d.download data).calls = [] ∧
      (d.download data).device.session.phase =
        .error (if d.session.remaining < data.length then .address else .file) := by
  rcases Nat.lt_or_ge d.session.remaining data.length with hroom | hroom
  · rw [download_of_pastEnd h hroom, if_pos hroom]
    exact ⟨rfl, rfl, rfl⟩
  · have hblocks := hunfit.resolve_left (Nat.not_lt.mpr hroom)
    cases hdecrypt : d.session.cipher.decrypt data with
    | error e =>
        rw [download_of_misfit h hroom hdecrypt, if_neg (Nat.not_lt.mpr hroom)]
        exact ⟨rfl, rfl, rfl⟩
    | ok result => exact absurd (Cipher.aligned_of_apply_eq_ok hdecrypt) hblocks

/-- The bus adds nothing to what a device answers to a block. -/
theorem step_of_block (harrives : s.request? d.setup.interface = some r)
    (hdownload : Command.ofCode? r.isInput r.code = some .download) :
    d.step s = d.download r.data := by
  simp only [step_of_request harrives, command, hdownload]
  have hanswer :
      deliver r.length.toNat (d.download r.data).answer = (d.download r.data).answer := by
    rcases d.download_refused_or_accepted r.data with hrefused | haccepted
    · rw [hrefused]
      rfl
    · rw [haccepted]
      rfl
  rw [hanswer]

end Device

/-- Requests that come to nothing leave the session intact, if the transfers fit the bus.  One
that is not for the bootloader, does not fit the bus, or selects nothing on offer changes
nothing.  One that the bootloader stalls leaves everything but the state as it was; the state
tells that the request was refused, or, for an upload, how the read failed, which is all that
the board was called for.  A block that is acknowledged and leads to an error was refused for
its length, with nothing changed but the state and the transfer buffer and no call, or not
programmed; one that is too long for the rest of the region, or does not fill the blocks of the
cipher, always ends so. -/
theorem session_intact_of_refused (d : Device)
    (htransfer : d.setup.profile.transferSize.toNat ≤ controlBuffer) :
    (∀ s, s.isRequest = true → s.request? d.setup.interface = none →
      d.setup.selected? s = none → ∃ answer, d.step s = ⟨d, answer, []⟩) ∧
    (∀ s r, s.request? d.setup.interface = some r → (d.step s).answer = .stalled →
      d.Refused r (d.step s)) ∧
    ∀ s r, s.request? d.setup.interface = some r →
      Command.ofCode? r.isInput r.code = some .download →
        (∀ code, (d.step s).answer = .accepted →
          (d.step s).device.session.phase = .error code → d.FailedBlock r.data (d.step s)) ∧
        (d.ExpectsBlock r.data →
          d.session.remaining < r.data.length ∨
            r.data.length % d.session.cipher.blockSize ≠ 0 →
          (d.step s).answer = .accepted ∧ (d.step s).calls = [] ∧
            (d.step s).device.session.phase =
              .error (if d.session.remaining < r.data.length then .address else .file)) := by
  refine ⟨fun s => Device.step_of_elsewhere, fun s r => Device.step_refused htransfer, ?_⟩
  intro s r harrives hdownload
  rw [Device.step_of_block harrives hdownload]
  exact ⟨fun code => Device.download_failed, Device.download_of_unfit⟩

/-- In the middle of a download: a request of a vendor, an upload, a block that ends inside a
block of the cipher, and one that passes the end of the flash. -/
theorem session_intact_of_refused_mid_download :
    let setup : Setup := ⟨{}, 0, ⟨0, 16⟩, none⟩
    let board : Board := ⟨⟨0, List.replicate 16 0xFF⟩, ⟨0, []⟩, {}, none, none, none⟩
    let xtea := Primitive.keyed .xtea Defaults.keyA
    let cipher : Cipher :=
      ⟨.block .xtea, .ecb, .chain (Chain.start xtea .ecb (Block.zero xtea.size))⟩
    let block (data : Bytes) : Request :=
      { type := 0x21, code := 1, index := 0, length := UInt16.ofNat data.length, data }
    let d := (Device.start setup cipher board).after [.control (block (List.replicate 8 7))]
    let upload : Request := { type := 0xA1, code := 2, index := 0, length := 8 }
    let odd := block (List.replicate 5 7)
    let long := block (List.replicate 16 7)
    (∃ answer, d.step (.control { type := 0x40, code := 1, index := 0 }) = ⟨d, answer, []⟩) ∧
      d.Refused upload (d.step (.control upload)) ∧
      d.FailedBlock odd.data (d.step (.control odd)) ∧
      (d.step (.control odd)).device.session.phase = .error .file ∧
      (d.step (.control odd)).device.session.address = 8 ∧
      (d.step (.control long)).answer = .accepted ∧
      (d.step (.control long)).device.session.phase = .error .address := by
  intro setup board xtea cipher block d upload odd long
  obtain ⟨hforeign, hstalled, hdownload⟩ := session_intact_of_refused d (by decide +kernel)
  have harrives (r : Request) (h : r.isFor 0 && (r.isInput || r.data.length ≤ controlBuffer)) :
      (Step.control r).request? d.setup.interface = some r := by
    have hinterface : d.setup.interface = 0 := by decide +kernel
    rw [hinterface]
    exact if_pos h
  have hodd := hdownload (.control odd) odd (harrives odd (by decide)) (by decide)
  have hlong := hdownload (.control long) long (harrives long (by decide)) (by decide)
  have hphase : (d.step (.control odd)).device.session.phase = .error .file := by
    decide +kernel
  have hexpects : d.ExpectsBlock long.data :=
    ⟨by decide +kernel, List.cons_ne_nil _ _, by decide +kernel⟩
  have hpast : d.session.remaining < long.data.length := by decide +kernel
  obtain ⟨haccepted, -, haddress⟩ := hlong.2 hexpects (.inl hpast)
  rw [if_pos hpast] at haddress
  refine ⟨hforeign _ rfl (by decide +kernel) rfl,
    hstalled _ upload (harrives upload (by decide)) (by decide +kernel),
    hodd.1 .file (by decide +kernel) hphase, hphase, by decide +kernel, haccepted, haddress⟩

end Dfu

end FirmwareUpdate
