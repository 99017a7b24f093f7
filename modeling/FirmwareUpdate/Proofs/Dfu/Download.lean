/-
A download from end to end.  However an image is cut into blocks, and however often the
host asks for the status in between, the memory ends up with the payload, its checksum
and zeros, and the firmware is started once, with the length of the payload.
-/
import FirmwareUpdate.Proofs.Dfu.Memory
import FirmwareUpdate.Proofs.Dfu.Moves
import FirmwareUpdate.Proofs.Dfu.Requests
import FirmwareUpdate.Proofs.ImageRoundTrip

namespace FirmwareUpdate

namespace Dfu

/-- The steps of a host that sends an image in blocks, each a multiple of the cipher's block
and not above a limit, and may ask for the status or talk to others at any time. -/
inductive SendsImage (interface : UInt8) (block limit : Nat) : Bytes → List Step → Prop
  | done : SendsImage interface block limit [] []
  | polls {image : Bytes} {steps : List Step} (r : Request) (h : r.Polls interface)
      (rest : SendsImage interface block limit image steps) :
      SendsImage interface block limit image (.control r :: steps)
  | foreign {image : Bytes} {steps : List Step} (s : Step) (h : s.Foreign interface)
      (rest : SendsImage interface block limit image steps) :
      SendsImage interface block limit image (s :: steps)
  | block {image : Bytes} {steps : List Step} (r : Request) (h : r.Carries interface .download)
      (hdata : r.data ≠ []) (hblocks : r.data.length % block = 0)
      (hlimit : r.data.length ≤ limit) (rest : SendsImage interface block limit image steps) :
      SendsImage interface block limit (r.data ++ image) (.control r :: steps)

/-- The most bytes that a host may send at once. -/
def Setup.blockLimit (setup : Setup) : Nat :=
  min setup.profile.transferSize.toNat controlBuffer

/-- A download under way on a board: `received` has come, `plain` is what it decrypts to,
and cipher, scanner, pointer and memory are where `plain` takes them. -/
structure Downloading (setup : Setup) (cipher : Cipher) (target : Target) (board : Board)
    (received plain : Bytes) (d : Device) : Prop where
  same_setup : d.setup = setup
  phase : d.session.phase.takesDownload = true
  same_target : d.session.target = target
  address : d.session.address = (setup.region target).start + UInt32.ofNat plain.length
  remaining : d.session.remaining = (setup.region target).length.toNat - plain.length
  decrypt : cipher.decrypt received = .ok (plain, d.session.cipher)
  scanner : d.session.scanner =
    setup.profile.checksum.map fun kind => (Scanner.start kind).update plain
  stored : d.board = board.stored target (setup.region target) 0 plain

namespace Downloading

variable {setup : Setup} {cipher : Cipher} {target : Target} {board : Board}
  {received plain image : Bytes} {d : Device} {r : Request} {steps : List Step}

theorem length_plain (h : Downloading setup cipher target board received plain d) :
    plain.length = received.length :=
  Cipher.length_of_apply h.decrypt

/-- An idle device has received nothing. -/
theorem start (h : Sound setup cipher d) (hidle : d.session.phase = .idle)
    (hcipher : cipher.reset = cipher) :
    Downloading setup cipher d.session.target d.board [] [] d := by
  have hsession := h.session_eq hidle
  rw [hcipher] at hsession
  refine ⟨h.same_setup, ?_, rfl, ?_, ?_, ?_, ?_, ?_⟩
  · rw [hidle]
    rfl
  · rw [hsession]
    exact (UInt32.add_zero _).symm
  · rw [hsession]
    rfl
  · rw [hsession]
    exact cipher.apply_nil .decrypt
  · rw [hsession]
    rfl
  · exact (d.board.stored_nil _ _ _).symm

theorem inPhase (h : Downloading setup cipher target board received plain d) {phase : Phase}
    (hphase : phase.takesDownload = true) :
    Downloading setup cipher target board received plain (d.inPhase phase) :=
  ⟨h.same_setup, hphase, h.same_target, h.address, h.remaining, h.decrypt, h.scanner, h.stored⟩

theorem polls (h : Downloading setup cipher target board received plain d)
    (hpolls : r.Polls setup.interface) :
    (d.step (.control r)).calls = [] ∧
      Downloading setup cipher target board received plain (d.step (.control r)).device := by
  rw [← h.same_setup] at hpolls
  obtain ⟨htakes, hunfinished⟩ := Phase.takesStatus_of_takes (.inl h.phase)
  obtain ⟨data, hstep | ⟨-, hstep⟩⟩ := Device.step_of_polls hpolls htakes hunfinished
  · rw [hstep]
    exact ⟨rfl, h⟩
  · rw [hstep]
    exact ⟨rfl, h.inPhase rfl⟩

/-- A block moves cipher, scanner, pointer and memory on by what it decrypts to. -/
theorem block (h : Downloading setup cipher target board received plain d)
    (hholds : board.Holds target (setup.region target))
    (hregion : (setup.region target).Addressable)
    (hcarries : r.Carries setup.interface .download) (hdata : r.data ≠ [])
    (hblocks : r.data.length % cipher.blockSize = 0) (hlimit : r.data.length ≤ setup.blockLimit)
    (hroom : received.length + r.data.length ≤ (setup.region target).length.toNat) :
    ∃ piece,
      (d.step (.control r)).calls = [.program target d.session.address piece] ∧
        Downloading setup cipher target board (received ++ r.data) (plain ++ piece)
          (d.step (.control r)).device := by
  have hplain := h.length_plain
  have hkept := Cipher.kept_of_apply h.decrypt
  rw [← hkept.2.1] at hblocks
  obtain ⟨piece, after, hpiece⟩ :=
    Cipher.apply_eq_ok_of_aligned d.session.cipher .decrypt r.data hblocks
  have hlength := Cipher.length_of_apply hpiece
  have htakes : d.TakesBlock r.data piece after := by
    refine ⟨⟨h.phase, hdata, ?_⟩, ?_, hpiece⟩
    · rw [h.same_setup]
      exact Nat.le_trans hlimit (Nat.min_le_left _ _)
    · rw [h.remaining]
      omega
  -- the board takes the block behind those before it
  have hpiece_ne : piece ≠ [] := by
    apply List.ne_nil_of_length_pos
    rw [hlength]
    exact List.length_pos_iff.mpr hdata
  have hboard : d.board.program d.session.target d.session.address piece =
      .ok (board.stored target (setup.region target) 0 (plain ++ piece)) := by
    have hprogram := (hholds.stored 0 plain (by omega)).program_eq hregion plain.length hpiece_ne
      (by omega)
    have hjoin := hholds.stored_stored 0 plain piece (by omega)
    rw [Nat.zero_add] at hjoin
    rw [h.same_target, h.address, h.stored, hprogram, hjoin]
  have hfits : r.data.length ≤ controlBuffer := Nat.le_trans hlimit (Nat.min_le_right _ _)
  rw [← h.same_setup] at hcarries
  obtain ⟨buffer, hreceived⟩ := htakes.received_eq
  rw [Device.step_of_download hcarries hfits, Device.download_of_programmed htakes hboard,
    hreceived]
  refine ⟨piece, by rw [h.same_target], h.same_setup, ?_, h.same_target, ?_, ?_, ?_, ?_, rfl⟩
  · simp only [Device.programmedPhase]
    split <;> rfl
  · simp only [Session.advance]
    rw [h.address, List.length_append, UInt32.ofNat_add, UInt32.add_assoc, hlength]
  · simp only [Session.advance]
    rw [h.remaining, List.length_append, hlength, Nat.sub_sub]
  · exact Cipher.apply_append h.decrypt hpiece
  · simp only [Session.advance]
    rw [h.scanner, Option.map_map]
    congr 1
    funext kind
    exact (Scanner.update_append _ _ _).symm

/-- Every way to send an image that fits leads to the same memory and manifests nothing. -/
theorem run (h : Downloading setup cipher target board received plain d)
    (hholds : board.Holds target (setup.region target))
    (hregion : (setup.region target).Addressable)
    (hsteps : SendsImage setup.interface cipher.blockSize setup.blockLimit image steps)
    (hroom : received.length + image.length ≤ (setup.region target).length.toNat) :
    (d.calls steps).filter Call.isManifest = [] ∧
      ∃ out, Downloading setup cipher target board (received ++ image) out (d.after steps) := by
  induction hsteps generalizing d received plain with
  | done =>
      refine ⟨rfl, plain, ?_⟩
      rw [List.append_nil]
      exact h
  | polls r hpolls rest ih =>
      obtain ⟨hcalls, hnext⟩ := h.polls hpolls
      rw [Device.calls_cons, hcalls, List.nil_append]
      exact ih hnext hroom
  | foreign s hforeign rest ih =>
      rw [← h.same_setup] at hforeign
      obtain ⟨answer, hstep⟩ := Device.step_of_foreign hforeign
      rw [Device.calls_cons, Device.after_cons, hstep, List.nil_append]
      exact ih h hroom
  | @block image steps r hcarries hdata hblocks hlimit rest ih =>
      rw [List.length_append, ← Nat.add_assoc] at hroom
      obtain ⟨piece, hcalls, hnext⟩ :=
        h.block hholds hregion hcarries hdata hblocks hlimit (by omega)
      rw [← List.length_append] at hroom
      obtain ⟨hrest, out, hout⟩ := ih hnext hroom
      rw [Device.calls_cons, hcalls, List.filter_append, hrest]
      rw [List.append_assoc] at hout
      exact ⟨rfl, out, hout⟩

/-- An idle device that was sent an image has stored what the image decrypts to. -/
theorem of_image {s : Settings} {payload : Bytes}
    (himage : Image.encrypt s payload = .ok image) (hcipher : s.freshCipher = .ok cipher)
    (hsound : Sound setup cipher d) (hidle : d.session.phase = .idle)
    (hholds : d.board.Holds d.session.target (setup.region d.session.target))
    (hregion : (setup.region d.session.target).Addressable)
    (hsteps : SendsImage setup.interface s.cipher.blockSize setup.blockLimit image steps)
    (hroom : image.length ≤ (setup.region d.session.target).length.toNat) :
    (d.calls steps).filter Call.isManifest = [] ∧
      Downloading setup cipher d.session.target d.board image
        (Image.plain s payload image.length) (d.after steps) := by
  obtain ⟨hreset, hblock, -⟩ := Settings.freshCipher_spec hcipher
  rw [← hblock] at hsteps
  have hstart := start hsound hidle hreset
  obtain ⟨hcalls, out, hreceived⟩ := hstart.run hholds hregion hsteps (by
    rw [List.length_nil, Nat.zero_add]
    exact hroom)
  rw [List.nil_append] at hreceived
  obtain ⟨after, hdecrypt⟩ := Image.decrypt_eq_plain himage hcipher
  have hout : Image.plain s payload image.length = out := by
    have hagain := hreceived.decrypt
    rw [hdecrypt, Except.ok.injEq, Prod.mk.injEq] at hagain
    exact hagain.1
  rw [hout]
  exact ⟨hcalls, hreceived⟩

/-- The scan has found the end of the payload when the image has come. -/
theorem checkedLength_eq {s : Settings} {payload : Bytes}
    (h : Downloading setup cipher target board image (Image.plain s payload image.length) d)
    (himage : Image.encrypt s payload = .ok image)
    (hchecksum : setup.profile.checksum = s.checksum) (hpayload : payload ≠ []) :
    d.session.checkedLength = s.checksum.map fun _ => payload.length := by
  unfold Session.checkedLength
  rw [h.scanner, hchecksum]
  cases hkind : s.checksum with
  | none => rfl
  | some kind =>
      have hpos : 0 < payload.length := List.length_pos_iff.mpr hpayload
      simp only [Option.map_some, Option.bind_some, Scanner.found_update_start,
        Image.find?_plain himage hkind]
      simp [hpos]

end Downloading

namespace Device

variable {d : Device} {r : Request}

theorem step_of_final (hcarries : r.Carries d.setup.interface .download) (hdata : r.data = [])
    (hphase : d.session.phase.takesDownload = true) :
    d.step (.control r) = ⟨d.inPhase .manifestSync, .accepted, []⟩ := by
  have hfits : r.data.length ≤ controlBuffer := by
    rw [hdata]
    exact Nat.zero_le _
  rw [step_of_download hcarries hfits, hdata, download_nil hphase]
  rfl

/-- Asking for the status of a finished download starts the firmware. -/
theorem step_of_manifestSync (hcarries : r.Carries d.setup.interface .getStatus)
    (hlength : 6 ≤ r.length.toNat) (hphase : d.session.phase = .manifestSync) :
    (d.step (.control r)).calls = [.manifest d.session.checkedLength] ∧
      (d.step (.control r)).device.board = d.board ∧
      (d.board.manifest = none →
        (d.step (.control r)).device.session =
          { d.session.restart d.setup with manifested := true }) ∧
      ∀ fault, d.board.manifest = some fault →
        (d.step (.control r)).device.session = { d.session with phase := .error fault.code } := by
  have hshort : ¬ r.length.toNat < 6 := Nat.not_lt.mpr hlength
  rw [step_of_getStatus hcarries]
  simp only [getStatus, hshort, hphase, Phase.takesStatus, decide_false, Bool.not_true,
    Bool.or_self, Bool.false_eq_true, ↓reduceIte]
  cases hmanifest : d.board.manifest with
  | none =>
      refine ⟨rfl, rfl, fun _ => rfl, ?_⟩
      intro fault hfault
      cases hfault
  | some fault =>
      refine ⟨rfl, rfl, ?_, ?_⟩
      · intro hnone
        cases hnone
      · intro fault' hfault
        cases hfault
        rfl

end Device

/-- The empty block and one request for the status end a download. -/
theorem Downloading.finish {setup : Setup} {cipher : Cipher} {target : Target} {board : Board}
    {received plain : Bytes} {d : Device} {last status : Request}
    (h : Downloading setup cipher target board received plain d)
    (hlast : last.Carries setup.interface .download ∧ last.data = [])
    (hstatus : status.Carries setup.interface .getStatus ∧ 6 ≤ status.length.toNat) :
    let after := d.after [.control last, .control status]
    d.calls [.control last, .control status] = [.manifest d.session.checkedLength] ∧
      after.board = d.board ∧
      (d.board.manifest = none →
        after.session.phase = .idle ∧ after.session.address = (setup.region target).start ∧
          after.session.manifested = true) ∧
      ∀ fault, d.board.manifest = some fault → after.session.phase = .error fault.code := by
  rw [← h.same_setup] at hlast hstatus
  have hfinal := Device.step_of_final hlast.1 hlast.2 h.phase
  obtain ⟨hcalls, hboard, hsuccess, hfailure⟩ :=
    Device.step_of_manifestSync (d := d.inPhase .manifestSync) hstatus.1 hstatus.2 rfl
  intro after
  have hafter : after = ((d.inPhase .manifestSync).step (.control status)).device := by
    change d.after [.control last, .control status] = _
    rw [Device.after_cons, hfinal]
    rfl
  rw [← hafter] at hboard hsuccess hfailure
  refine ⟨?_, hboard, ?_, ?_⟩
  · rw [Device.calls_cons, hfinal, Device.calls_cons, hcalls]
    rfl
  · intro hnone
    rw [hsuccess hnone]
    refine ⟨rfl, ?_, rfl⟩
    change (d.setup.region d.session.target).start = _
    rw [h.same_setup, h.same_target]
  · intro fault hfault
    rw [hfailure fault hfault]

/-- An image that is sent to an idle device, in whatever blocks, is decrypted into the
selected memory and nowhere else, and the firmware is started once. -/
theorem memory_after_download {s : Settings} {payload image : Bytes} {setup : Setup}
    {cipher : Cipher} {d : Device} {steps : List Step} {last status : Request}
    (hpayload : payload ≠ []) (himage : Image.encrypt s payload = .ok image)
    (hcipher : s.freshCipher = .ok cipher) (hchecksum : setup.profile.checksum = s.checksum)
    (hd : Reachable setup cipher d) (hidle : d.session.phase = .idle)
    (hroom : image.length ≤ (setup.region d.session.target).length.toNat)
    (hregion : (setup.region d.session.target).Addressable)
    (haccepts : d.board.Accepts d.session.target (setup.region d.session.target))
    (hsteps : SendsImage setup.interface s.cipher.blockSize setup.blockLimit image steps)
    (hlast : last.Carries setup.interface .download ∧ last.data = [])
    (hstatus : status.Carries setup.interface .getStatus ∧ 6 ≤ status.length.toNat) :
    let region := setup.region d.session.target
    let run := steps ++ [.control last, .control status]
    let after := d.after run
    (∀ target address, (after.board.bank target).byteAt? address =
        if target = d.session.target ∧ region.start.toNat ≤ address ∧
            address < region.start.toNat + image.length then
          (Image.plain s payload image.length)[address - region.start.toNat]?
        else (d.board.bank target).byteAt? address) ∧
      (d.calls run).filter Call.isManifest =
        [.manifest (s.checksum.map fun _ => payload.length)] ∧
      (d.board.manifest = none →
        after.session.phase = .idle ∧ after.session.address = region.start ∧
          after.session.manifested = true) ∧
      ∀ fault, d.board.manifest = some fault → after.session.phase = .error fault.code := by
  intro region run after
  have hpositive : 0 < image.length := by
    obtain ⟨-, hblock, -⟩ := Settings.freshCipher_spec hcipher
    have hround := (Bytes.roundUp_bounds (payload.length + s.trailerWidth) cipher.blockSize_pos).1
    have hpos := List.length_pos_iff.mpr hpayload
    rw [Image.length_of_encrypt himage, ← hblock]
    omega
  have hholds := haccepts.holds (Nat.lt_of_lt_of_le hpositive hroom)
  obtain ⟨hcalls, hreceived⟩ :=
    Downloading.of_image himage hcipher hd.sound hidle hholds hregion hsteps hroom
  obtain ⟨hmanifest, hboard, hsuccess, hfailure⟩ := hreceived.finish hlast hstatus
  have hafter : after = (d.after steps).after [.control last, .control status] :=
    d.after_append steps _
  rw [← hafter] at hboard hsuccess hfailure
  rw [hreceived.stored, Board.manifest_stored] at hsuccess hfailure
  refine ⟨?_, ?_, hsuccess, hfailure⟩
  · intro target address
    have hlength := hreceived.length_plain
    rw [hboard, hreceived.stored, hholds.byteAt?_stored (by rw [hlength]; exact hroom), hlength]
  · change (d.calls (steps ++ [.control last, .control status])).filter _ = _
    rw [Device.calls_append, List.filter_append, hcalls, hmanifest,
      hreceived.checkedLength_eq himage hchecksum hpayload]
    rfl

/-- Five bytes with their checksum, in two blocks with a request for the status between. -/
theorem memory_after_download_two_blocks :
    let setup : Setup :=
      { profile := { checksum := some .crc32Small }, interface := 0, flash := ⟨0x100, 32⟩,
        eeprom := none }
    let chain := Chain.start (Primitive.keyed .xtea Defaults.keyA) .cbc
      (Block.ofBytes _ Defaults.nonce)
    let board : Board :=
      { flash := ⟨0x100, List.replicate 32 0xFF⟩, eeprom := ⟨0x200, []⟩ }
    let d := Device.start setup ⟨.block .xtea, .cbc, .chain chain⟩ board
    let block (data : Bytes) : Request := { type := 0x21, code := 1, index := 0, data := data }
    let status : Request := { type := 0xA1, code := 3, index := 0, length := 6 }
    let run : List Step :=
      [.control (block [30, 12, 10, 156, 118, 43, 108, 96]), .control status,
        .control (block [64, 94, 22, 251, 68, 29, 135, 14]), .control (block []),
        .control status]
    (d.calls run).filter Call.isManifest = [.manifest (some 5)] ∧
      (d.after run).session.phase = .idle ∧
      ((d.after run).board.bank .flash).byteAt? 0x104 = some 5 := by
  intro setup chain board d block status run
  let s : Settings := { cipher := .block .xtea, checksum := some .crc32Small }
  let first : Bytes := [30, 12, 10, 156, 118, 43, 108, 96]
  let second : Bytes := [64, 94, 22, 251, 68, 29, 135, 14]
  have hmade : (Image.encrypt s [1, 2, 3, 4, 5]).toOption = some (first ++ second) := by
    decide +kernel
  cases himage : Image.encrypt s [1, 2, 3, 4, 5] with
  | error e =>
      rw [himage] at hmade
      cases hmade
  | ok image =>
      rw [himage] at hmade
      cases hmade
      have hholds : board.Holds .flash (setup.region .flash) := ⟨rfl, rfl, by decide, by decide⟩
      have hblock (data : Bytes) : (block data).Carries setup.interface .download := by
        have hcode : ((0x21 : UInt8) &&& 0x7F == 0x21 && (0 : UInt16) == (0 : UInt8).toUInt16) ∧
            Command.ofCode? ((0x21 : UInt8) &&& 0x80 != 0) 1 = some .download := by decide
        exact hcode
      have hstatus : status.Carries setup.interface .getStatus ∧ 6 ≤ status.length.toNat :=
        ⟨⟨by decide, by decide⟩, by decide⟩
      have hsecond : SendsImage setup.interface 8 setup.blockLimit (second ++ [])
          [.control (block second)] :=
        .block (block second) (hblock second) (by decide) (by decide) (by decide) .done
      have hsteps : SendsImage setup.interface 8 setup.blockLimit (first ++ (second ++ []))
          [.control (block first), .control status, .control (block second)] :=
        .block (block first) (hblock first) (by decide) (by decide) (by decide)
          (.polls status (Or.inl hstatus) hsecond)
      have hreachable : Reachable setup _ d := ⟨board, [], rfl⟩
      obtain ⟨hmemory, hmanifest, hidle, -⟩ :=
        memory_after_download (s := s) (by decide) himage rfl rfl hreachable rfl (by decide)
          (by decide) (hholds.accepts (by decide)) hsteps ⟨hblock [], rfl⟩ hstatus
      refine ⟨hmanifest, (hidle rfl).1, ?_⟩
      exact (hmemory .flash 0x104).trans (by decide +kernel)

end Dfu

end FirmwareUpdate
