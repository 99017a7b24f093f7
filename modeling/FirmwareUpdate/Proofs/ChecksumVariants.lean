/-
One algorithm, with a table or without.  Host and bootloader do the same whichever variant they
are built with: exchanging the variant in all that they keep changes neither what they give out
nor what they do next.
-/
import FirmwareUpdate.CommandLine
import FirmwareUpdate.Proofs.TableLookup
import FirmwareUpdate.Proofs.Dfu.Forgetting

namespace FirmwareUpdate

/-- The settings with the other variant of their checksum. -/
def Settings.small (s : Settings) : Settings :=
  { s with checksum := s.checksum.map ChecksumKind.small }

/-- The error with the other variant in the place of the checksum that it names. -/
def ImageError.small : ImageError → ImageError
  | checksumNotFound kind => checksumNotFound kind.small
  | e => e

@[simp] theorem ImageError.message_small (e : ImageError) : e.small.message = e.message := by
  cases e with
  | checksumNotFound kind =>
      change "no " ++ kind.small.name ++ " checksum found in the decrypted image" = _
      rw [ChecksumKind.name_small]
      rfl
  | _ => rfl

namespace Image

variable (s : Settings)

theorem sign_small (checksum : Option ChecksumKind) (payload : Bytes) :
    sign (checksum.map ChecksumKind.small) payload = sign checksum payload := by
  cases checksum with
  | none => rfl
  | some kind =>
      simp only [sign, Option.map_some, Checksum.ofBytes_small, Checksum.trailer_small,
        Trailer.payloadLength_small]

theorem payload_small (checksum : Option ChecksumKind) (plain : Bytes) :
    payload (checksum.map ChecksumKind.small) plain =
      (payload checksum plain).mapError ImageError.small := by
  cases checksum with
  | none => rfl
  | some kind =>
      simp only [payload, Option.map_some, Trailer.payloadLength_small]
      split <;> rfl

/-- An image is made alike, or refused for the same reason. -/
theorem encrypt_small (plain : Bytes) : encrypt s.small plain = encrypt s plain := by
  have hfresh : s.small.freshCipher = s.freshCipher := rfl
  have hsign : sign s.small.checksum plain = sign s.checksum plain := sign_small s.checksum plain
  simp only [encrypt, hfresh, hsign]

/-- No error in the making of an image names a checksum. -/
theorem mapError_encrypt (plain : Bytes) :
    (encrypt s plain).mapError ImageError.small = encrypt s plain := by
  have hsign : (sign s.checksum plain).mapError ImageError.small = sign s.checksum plain := by
    cases s.checksum with
    | none => rfl
    | some kind =>
        simp only [sign]
        split <;> rfl
  simp only [encrypt]
  cases s.freshCipher with
  | error e => rfl
  | ok c =>
      dsimp only
      cases hsigned : sign s.checksum plain with
      | error e =>
          rw [hsigned] at hsign
          have he : e.small = e := Except.error.inj hsign
          exact congrArg Except.error he
      | ok signed =>
          dsimp only
          cases c.encrypt (Bytes.padZero c.blockSize signed) <;> rfl

/-- An image is opened alike, or refused in the same words. -/
theorem decrypt_small (image : Bytes) :
    decrypt s.small image = (decrypt s image).mapError ImageError.small := by
  have hfresh : s.small.freshCipher = s.freshCipher := rfl
  have hpayload (plain : Bytes) : payload s.small.checksum plain =
      (payload s.checksum plain).mapError ImageError.small := payload_small s.checksum plain
  simp only [decrypt, hfresh, hpayload]
  split
  · rfl
  · split
    · rfl
    · split <;> rfl

end Image

/-- The job with the other variant of its checksum. -/
def Job.small (job : Job) : Job :=
  { job with settings := job.settings.small }

/-- The error with the other variant in the place of the checksum that it names. -/
def JobError.small : JobError → JobError
  | image cause => image cause.small
  | e => e

theorem JobError.report_small (e : JobError) : e.small.report = e.report := by
  cases e with
  | image cause =>
      change "Error: " ++ cause.small.message = "Error: " ++ cause.message
      rw [ImageError.message_small]
  | _ => rfl

theorem Job.transform_small (job : Job) (content : Bytes) :
    job.small.transform content = (job.transform content).mapError JobError.small := by
  obtain ⟨s, direction, input, output⟩ := job
  cases direction with
  | encrypt =>
      have hencrypt := Image.mapError_encrypt s content
      simp only [transform, small, Image.process, Image.encrypt_small]
      cases h : Image.encrypt s content with
      | ok image => rfl
      | error e =>
          rw [h] at hencrypt
          have he : e.small = e := Except.error.inj hencrypt
          exact congrArg (fun cause => Except.error (JobError.image cause)) he.symm
  | decrypt =>
      simp only [transform, small, Image.process, Image.decrypt_small]
      cases Image.decrypt s content <;> rfl

/-- The same files are written, or the job fails in the same words. -/
theorem Job.run_small (job : Job) (fs : FileSystem) :
    job.small.run fs = (job.run fs).mapError JobError.small := by
  have hinput : job.small.input = job.input := rfl
  have houtput : job.small.output = job.output := rfl
  simp only [run, hinput, houtput, transform_small]
  cases fs.read job.input with
  | error e => rfl
  | ok content =>
      dsimp only
      cases job.transform content with
      | error e => rfl
      | ok result =>
          have hok : (Except.ok result).mapError JobError.small = .ok result := rfl
          rw [hok]
          dsimp only
          cases fs.write job.output result <;> rfl

/-- Two command lines that ask for jobs with the two variants end alike. -/
theorem CommandLine.run_small {args args' : List String} {job : Job}
    (h : parse args = .ok job) (h' : parse args' = .ok job.small) (fs : FileSystem) :
    run args' fs = run args fs := by
  have hname : job.small.settings.name = job.settings.name := rfl
  simp only [run, h, h', hname, Job.run_small]
  cases job.settings.name with
  | error e => rfl
  | ok name =>
      cases job.run fs with
      | error e =>
          have hreport : failure e.small = failure e :=
            congrArg (Outcome.mk 1 "") e.report_small
          exact congrArg (·, fs) hreport
      | ok result => rfl

namespace Dfu

/-- The profile with the other variant of its checksum. -/
def Profile.small (p : Profile) : Profile :=
  { p with checksum := p.checksum.map ChecksumKind.small }

/-- The bootloader built with the other variant. -/
def Setup.small (setup : Setup) : Setup :=
  { setup with profile := setup.profile.small }

/-- The session with the other variant in its scanner and in the checksum of its upload. -/
def Session.small (s : Session) : Session :=
  { s with scanner := s.scanner.map Scanner.small, uploadSum := s.uploadSum.map Checksum.small }

def Device.small (d : Device) : Device :=
  { d with setup := d.setup.small, session := d.session.small }

def Outcome.small (o : Outcome) : Outcome :=
  { o with device := o.device.small }

namespace Session

variable (setup : Setup) (s : Session)

theorem restart_small : s.small.restart setup.small = (s.restart setup).small := by
  have hscanner : (s.scanner.map Scanner.small).map Scanner.reset =
      (s.scanner.map Scanner.reset).map Scanner.small := by
    rw [Option.map_map, Option.map_map]
    exact congrArg (Option.map · s.scanner) (funext Scanner.reset_small)
  have hsum : (setup.profile.checksum.map ChecksumKind.small).map Checksum.start =
      (setup.profile.checksum.map Checksum.start).map Checksum.small := by
    rw [Option.map_map, Option.map_map]
    exact congrArg (Option.map · setup.profile.checksum)
      (funext fun kind => (Checksum.small_start kind).symm)
  simp only [restart, small, Setup.small, Profile.small, Setup.region, hscanner, hsum]

theorem initial_small (cipher : Cipher) :
    initial setup.small cipher = (initial setup cipher).small := by
  have hscanner : (setup.profile.checksum.map ChecksumKind.small).map Scanner.start =
      (setup.profile.checksum.map Scanner.start).map Scanner.small := by
    rw [Option.map_map, Option.map_map]
    exact congrArg (Option.map · setup.profile.checksum)
      (funext fun kind => (Scanner.small_start kind).symm)
  rw [initial, initial, ← restart_small]
  simp only [small, Setup.small, Profile.small, hscanner, Option.map_none]

@[simp] theorem checkedLength_small : s.small.checkedLength = s.checkedLength := by
  simp only [checkedLength, small]
  cases s.scanner <;> rfl

@[simp] theorem trailerWidth_small : s.small.trailerWidth = s.trailerWidth := by
  simp only [trailerWidth, small]
  cases s.uploadSum with
  | none => rfl
  | some sum => simp only [Option.map_some, Checksum.kind_small, ChecksumKind.width_small]

theorem received_small (plain : Bytes) (cipher : Cipher) :
    s.small.received plain cipher = (s.received plain cipher).small := by
  have hscanner (data : Bytes) : (s.scanner.map Scanner.small).map (·.update data) =
      (s.scanner.map (·.update data)).map Scanner.small := by
    rw [Option.map_map, Option.map_map]
    exact congrArg (Option.map · s.scanner) (funext fun scanner => scanner.update_small data)
  simp only [received, small, hscanner]

theorem framed_small (frame : Frame) (data : Bytes) :
    s.small.framed frame data = (s.framed frame data).small := by
  simp only [framed, small]
  cases s.uploadSum with
  | none => rfl
  | some sum => simp only [Option.map_some, Option.elim_some, Checksum.update_small,
      Checksum.trailer_small]

end Session

namespace Device

variable (d : Device)

theorem restart_small : d.small.restart = d.restart.small := by
  simp only [restart, withSession, small, Session.restart_small]

theorem programBlock_small (count : Nat) :
    d.small.programBlock count = (d.programBlock count).small := by
  simp only [programBlock, small, Session.small]
  split <;> rfl

theorem download_small (data : Bytes) : d.small.download data = (d.download data).small := by
  have hreceived (plain : Bytes) (cipher : Cipher) :
      d.small.withSession ((d.small.session.loaded data).received plain cipher) =
        (d.withSession ((d.session.loaded data).received plain cipher)).small :=
    congrArg d.small.withSession ((d.session.loaded data).received_small plain cipher)
  have hphase : d.small.session.phase = d.session.phase := rfl
  have htransfer :
      d.small.setup.profile.transferSize = d.setup.profile.transferSize := rfl
  have hremaining : d.small.session.remaining = d.session.remaining := rfl
  have hdecrypt : (d.small.session.loaded data).cipher.decrypt
      ((d.small.session.loaded data).buffer.front data.length) =
        (d.session.loaded data).cipher.decrypt
          ((d.session.loaded data).buffer.front data.length) := rfl
  simp only [download, hreceived, programBlock_small, hphase, htransfer, hremaining, hdecrypt]
  split
  · rfl
  · split
    · rfl
    · split
      · rfl
      · split
        · rfl
        · split <;> rfl

theorem sendFrame_small (frame : Frame) :
    d.small.sendFrame frame = (d.sendFrame frame).small := by
  have hframed (data : Bytes) :
      d.small.session.framed frame data = (d.session.framed frame data).small :=
    d.session.framed_small frame data
  have hfetch : d.small.fetch frame.data = d.fetch frame.data := rfl
  simp only [sendFrame, hframed, hfetch]
  split
  · rfl
  · simp only [Session.small]
    split <;> rfl

theorem upload_small (length : Nat) : d.small.upload length = (d.upload length).small := by
  have huploads : d.small.setup.profile.uploads = d.setup.profile.uploads := rfl
  have hphase : d.small.session.phase = d.session.phase := rfl
  have htransfer :
      d.small.setup.profile.transferSize = d.setup.profile.transferSize := rfl
  have hremaining : d.small.session.remaining = d.session.remaining := rfl
  have hcipher : d.small.session.cipher = d.session.cipher := rfl
  have hwidth : d.small.session.trailerWidth = d.session.trailerWidth :=
    d.session.trailerWidth_small
  simp only [upload, huploads, hphase, htransfer, hremaining, hcipher, hwidth, sendFrame_small,
    restart_small]
  split
  · rfl
  · split
    · rfl
    · split <;> rfl

theorem getStatus_small (length : Nat) :
    d.small.getStatus length = (d.getStatus length).small := by
  have hchecked : d.small.session.checkedLength = d.session.checkedLength :=
    d.session.checkedLength_small
  have hphase : d.small.session.phase = d.session.phase := rfl
  have hboard : d.small.board = d.board := rfl
  simp only [getStatus, hchecked, hphase, hboard, restart_small]
  split
  · rfl
  · split
    · rfl
    · split <;> rfl
    · rfl

theorem command_small (r : Request) : d.small.command r = (d.command r).small := by
  have hphase : d.small.session.phase = d.session.phase := rfl
  unfold command
  split
  next =>
      change (if d.setup.profile.detaches then _ else _) = _
      rw [detach]
      split <;> rfl
  next => exact d.download_small r.data
  next => exact d.upload_small r.length.toNat
  next => exact d.getStatus_small r.length.toNat
  next =>
      simp only [clearStatus, hphase, restart_small]
      split <;> rfl
  next =>
      simp only [getState, hphase]
      split <;> rfl
  next =>
      simp only [abort, hphase, restart_small]
      split <;> rfl
  next => rfl

theorem control_small (r : Request) : d.small.control r = (d.control r).small := by
  have hinterface : d.small.setup.interface = d.setup.interface := rfl
  simp only [control, hinterface, command_small]
  split
  · rfl
  · split <;> rfl

theorem select?_small (alternate : UInt8) :
    d.small.select? alternate = (d.select? alternate).map small := by
  have htarget : d.small.setup.target? alternate = d.setup.target? alternate := rfl
  simp only [select?, htarget, Option.map_map]
  apply congrArg (Option.map · (d.setup.target? alternate))
  funext target
  exact (d.withSession { d.session with target := target }).restart_small

theorem setInterface_small (alternate index : UInt16) :
    d.small.setInterface alternate index = (d.setInterface alternate index).small := by
  have hinterface : d.small.setup.interface = d.setup.interface := rfl
  simp only [setInterface, hinterface, select?_small]
  split
  · rfl
  · by_cases hindex : index.toUInt8 = d.setup.interface
    · simp only [hindex, ↓reduceIte]
      cases d.select? alternate.toUInt8 <;> rfl
    · simp only [hindex, ↓reduceIte]
      rfl

/-- A step answers alike, calls the board alike, and leaves devices that differ in the
variant alone. -/
theorem step_small (s : Step) : d.small.step s = (d.step s).small := by
  cases s with
  | control r => exact d.control_small r
  | setInterface alternate index => exact d.setInterface_small alternate index
  | getInterface index =>
      simp only [step, getInterface]
      split
      · rfl
      · change (if index.toUInt8 = d.setup.interface then _ else _) = _
        split <;> rfl
  | busReset =>
      change d.small.busReset = d.busReset.small
      cases hleaves : d.session.leaves with
      | true =>
          rw [busReset_of_leaves hleaves, busReset_of_leaves (d := d.small) hleaves]
          rfl
      | false =>
          rw [busReset_of_stays hleaves, busReset_of_stays (d := d.small) hleaves]
          rfl
  | _ => rfl

theorem run_small (steps : List Step) : d.small.run steps = (d.run steps).map Outcome.small := by
  induction steps generalizing d with
  | nil => rfl
  | cons s steps ih =>
      change d.small.step s :: (d.small.step s).device.run steps =
        (d.step s).small :: ((d.step s).device.run steps).map Outcome.small
      rw [step_small]
      exact congrArg _ (ih (d.step s).device)

theorem start_small (setup : Setup) (cipher : Cipher) (board : Board) :
    start setup.small cipher board = (start setup cipher board).small := by
  rw [start, start, Session.initial_small]
  rfl

end Device

@[simp] theorem Outcome.view_small (o : Outcome) : o.small.view = o.view := by
  have hchecked : o.device.small.session.checkedLength = o.device.session.checkedLength :=
    o.device.session.checkedLength_small
  simp only [Outcome.view, Outcome.small, hchecked]
  rfl

/-- No run tells the bootloaders with the two variants apart. -/
theorem Device.views_small (d : Device) (steps : List Step) :
    d.small.views steps = d.views steps := by
  rw [Device.views, Device.views, run_small, List.map_map]
  exact congrArg (List.map · (d.run steps)) (funext Outcome.view_small)

end Dfu

/-- An algorithm with a table and the same one without cannot be told apart.  Values agree
after any pieces; trailers are stored alike and found at the same place, also by a scanner
that gets the bytes in pieces.  The host makes the same images, opens them to the same
payloads, leaves the same files and prints the same words; the bootloader gives the same
answers and makes the same calls in every run, and its states differ in the variant alone. -/
theorem variants_agree (kind : ChecksumKind) :
    (∀ pieces : List Bytes,
      (pieces.foldl Checksum.update (Checksum.start kind.small)).value =
        (pieces.foldl Checksum.update (Checksum.start kind)).value) ∧
    (∀ buffer len, Trailer.append kind.small buffer len = Trailer.append kind buffer len) ∧
    (∀ data, Trailer.find? kind.small data = Trailer.find? kind data ∧
      Trailer.payloadLength kind.small data = Trailer.payloadLength kind data) ∧
    (∀ pieces : List Bytes,
      (pieces.foldl Scanner.update (Scanner.start kind.small)).found =
        (pieces.foldl Scanner.update (Scanner.start kind)).found) ∧
    (∀ (s : Settings) (content : Bytes),
      Image.encrypt s.small content = Image.encrypt s content ∧
        Image.decrypt s.small content = (Image.decrypt s content).mapError ImageError.small) ∧
    (∀ e : ImageError, e.small.message = e.message) ∧
    (∀ (job : Job) (fs : FileSystem), job.small.run fs = (job.run fs).mapError JobError.small) ∧
    (∀ e : JobError, e.small.report = e.report) ∧
    (∀ (args args' : List String) (job : Job) (fs : FileSystem),
      CommandLine.parse args = .ok job → CommandLine.parse args' = .ok job.small →
      CommandLine.run args' fs = CommandLine.run args fs) ∧
    (∀ setup : Dfu.Setup, setup.small.descriptors = setup.descriptors ∧
      setup.small.string? = setup.string?) ∧
    ∀ (setup : Dfu.Setup) (cipher : Cipher) (board : Dfu.Board) (steps : List Dfu.Step),
      (Dfu.Device.start setup.small cipher board).run steps =
          ((Dfu.Device.start setup cipher board).run steps).map Dfu.Outcome.small ∧
        (Dfu.Device.start setup.small cipher board).views steps =
          (Dfu.Device.start setup cipher board).views steps := by
  refine ⟨?values, Trailer.append_small kind, ?places, ?scans, ?images, ImageError.message_small,
    Job.run_small, JobError.report_small, ?lines, fun _ => ⟨rfl, rfl⟩, ?devices⟩
  case values =>
    intro pieces
    rw [← Checksum.small_start, Checksum.foldl_update_small, Checksum.value_small]
  case places =>
    exact fun data => ⟨Trailer.find?_small kind data, Trailer.payloadLength_small kind data⟩
  case scans =>
    intro pieces
    rw [← Scanner.small_start, Scanner.foldl_update_small, Scanner.found_small]
  case images =>
    exact fun s content => ⟨Image.encrypt_small s content, Image.decrypt_small s content⟩
  case lines =>
    exact fun args args' job fs h h' => CommandLine.run_small h h' fs
  case devices =>
    intro setup cipher board steps
    rw [Dfu.Device.start_small]
    exact ⟨Dfu.Device.run_small _ steps, Dfu.Device.views_small _ steps⟩

/-- Two lines that name the two variants of CRC-32 leave the same files. -/
theorem variants_agree_on_lines :
    let line (name : String) := ["-e", "-i", "a", "-o", "b", "--checksum", name]
    let fs : FileSystem := { entries := [(["a"], .file [1, 2, 3])] }
    CommandLine.run (line "crc32-small") fs = CommandLine.run (line "crc32") fs := by
  intro line fs
  have hlines := (variants_agree .crc32).2.2.2.2.2.2.2.2.1
  let job : Job := ⟨{ checksum := some .crc32 }, .encrypt, "a", "b"⟩
  exact hlines (line "crc32") (line "crc32-small") job fs rfl rfl

end FirmwareUpdate
