/-
When the firmware is manifested.  The one step that does it is a request for the status of a
finished download; the length that the board is told is found in the bytes that were programmed
since the device was last idle, no more and no less.
-/
import FirmwareUpdate.Proofs.Dfu.Leaving
import FirmwareUpdate.Proofs.FirstMatch

namespace FirmwareUpdate

namespace Dfu

namespace Device

/-- The bytes that a call brings into the memory: those of a block that the board programs. -/
def programmedBytes (d : Device) : Call → Bytes
  | .program target address data =>
      if (d.board.program target address data).isOk then data else []
  | _ => []

/-- The bytes that a step brings into the memory. -/
def programs (d : Device) (s : Step) : Bytes :=
  (d.step s).calls.flatMap d.programmedBytes

/-- Whether a step asks for the status of a finished download, with room for all of it. -/
def asksFinished (d : Device) (s : Step) : Bool :=
  d.session.phase.stage == .manifestSync &&
    (s.request? d.setup.interface).any fun r =>
      Command.ofCode? r.isInput r.code == some .getStatus && decide (6 ≤ r.length.toNat)

variable {d : Device} {r : Request} {s : Step} {length : Nat}

theorem download_manifests (d : Device) (data : Bytes) :
    (d.download data).calls.any Call.isManifest = false := by
  apply download_cases (motive := fun outcome => outcome.calls.any Call.isManifest = false)
  case refused => rfl
  case final => exact fun _ => rfl
  case pastEnd => exact fun _ _ => rfl
  case misfit => exact fun _ _ _ => rfl
  case notProgrammed => exact fun _ _ _ _ _ => rfl
  case programmed => exact fun _ _ _ _ _ => rfl

theorem upload_manifests (d : Device) (length : Nat) :
    (d.upload length).calls.any Call.isManifest = false := by
  apply upload_cases (motive := fun outcome => outcome.calls.any Call.isManifest = false)
  case refused => rfl
  case finished => exact fun _ => rfl
  case notFetched => exact fun _ _ _ => d.fetchCalls_any _ fun _ _ => rfl
  case frame => exact fun _ _ _ _ => d.fetchCalls_any _ fun _ _ => rfl

/-- A finished download is manifested, well or badly, and its status told as it was before. -/
theorem getStatus_of_finished (hphase : d.session.phase.stage = .manifestSync)
    (hlength : 6 ≤ length) :
    d.getStatus length =
      ⟨match d.board.manifest with
        | some fault => d.inPhase (.error fault.code)
        | none => d.withSession { d.session.restart d.setup with manifested := true },
        .reply (d.session.report d.setup), [.manifest d.session.checkedLength]⟩ := by
  simp only [getStatus, Nat.not_lt.mpr hlength, Phase.takesStatus, hphase, decide_false,
    Bool.not_true, Bool.or_self, Bool.false_eq_true, ↓reduceIte]
  cases d.board.manifest <;> rfl

theorem getStatus_manifests (d : Device) (length : Nat) :
    (d.getStatus length).calls.any Call.isManifest =
      (d.session.phase.stage == .manifestSync && decide (6 ≤ length)) := by
  by_cases hphase : d.session.phase.stage = .manifestSync
  · rcases Nat.lt_or_ge length 6 with hshort | hlength
    · simp only [getStatus, hshort, Nat.not_le.mpr hshort, decide_true, decide_false, Bool.true_or,
        Bool.and_false, ↓reduceIte]
      rfl
    · rw [getStatus_of_finished hphase hlength, hphase, decide_eq_true hlength]
      rfl
  · rw [beq_false_of_ne hphase, Bool.false_and]
    apply getStatus_cases (motive := fun outcome => outcome.calls.any Call.isManifest = false)
    case refused => rfl
    case resumed => exact fun _ => rfl
    case notManifested => exact fun _ hfinished _ => absurd hfinished hphase
    case manifested => exact fun hfinished _ => absurd hfinished hphase
    case told => rfl

theorem command_manifests (d : Device) (r : Request) :
    (d.command r).calls.any Call.isManifest =
      (d.session.phase.stage == .manifestSync &&
        (Command.ofCode? r.isInput r.code == some .getStatus && decide (6 ≤ r.length.toNat))) := by
  by_cases hstatus : Command.ofCode? r.isInput r.code = some .getStatus
  · simp only [command, hstatus, beq_self_eq_true, Bool.true_and]
    exact d.getStatus_manifests r.length.toNat
  · rw [beq_false_of_ne hstatus, Bool.false_and, Bool.and_false]
    apply command_cases (motive := fun outcome => outcome.calls.any Call.isManifest = false)
    case refused => rfl
    case detached => exact fun _ _ => rfl
    case download => exact fun _ => d.download_manifests r.data
    case upload => exact fun _ => d.upload_manifests r.length.toNat
    case getStatus => exact fun h => absurd h hstatus
    case getState => exact fun _ => rfl
    case restarted => rfl

/-- A step that brings no request can call nothing but the reset of the board. -/
theorem calls_of_no_request (h : s.request? d.setup.interface = none) :
    (d.step s).calls = [] ∨ (d.step s).calls = [.busReset] := by
  cases s with
  | control request =>
      obtain ⟨answer, hstep⟩ := step_of_no_request h
      rw [hstep]
      exact .inl rfl
  | setInterface alternate index =>
      apply setInterface_cases
        (motive := fun outcome => outcome.calls = [] ∨ outcome.calls = [.busReset])
      case same => exact fun _ => .inl rfl
      case selected => exact fun _ _ => .inl rfl
  | getInterface index =>
      simp only [step, getInterface]
      split
      · exact .inl rfl
      · split <;> exact .inl rfl
  | busReset =>
      cases hleaves : d.session.leaves with
      | true =>
          rw [step, busReset_of_leaves hleaves]
          exact .inr rfl
      | false =>
          rw [step, busReset_of_stays hleaves]
          exact .inl rfl
  | _ => exact .inl rfl

/-- No other step manifests. -/
theorem step_manifests (d : Device) (s : Step) :
    (d.step s).calls.any Call.isManifest = d.asksFinished s := by
  cases harrives : s.request? d.setup.interface with
  | none =>
      rw [asksFinished, harrives, Option.any_none, Bool.and_false]
      rcases calls_of_no_request harrives with hcalls | hcalls
      · rw [hcalls]
        rfl
      · rw [hcalls]
        rfl
  | some r =>
      rw [step_of_request harrives, asksFinished, harrives, Option.any_some]
      exact d.command_manifests r

/-- The request that asks for the status of a finished download gets all of it, and the board is
called once. -/
theorem step_of_asksFinished (h : d.asksFinished s = true) :
    d.step s =
      ⟨match d.board.manifest with
        | some fault => d.inPhase (.error fault.code)
        | none => d.withSession { d.session.restart d.setup with manifested := true },
        .reply (d.session.report d.setup), [.manifest d.session.checkedLength]⟩ := by
  rw [asksFinished, Bool.and_eq_true, beq_iff_eq, Option.any_eq_true] at h
  obtain ⟨hphase, r, harrives, hstatus⟩ := h
  rw [Bool.and_eq_true, beq_iff_eq, decide_eq_true_eq] at hstatus
  obtain ⟨hcode, hlength⟩ := hstatus
  rw [step_of_request harrives]
  simp only [command, hcode, getStatus_of_finished hphase hlength, deliver_report _ _ hlength]

end Device

/-- A device whose scanner has taken in the bytes that were programmed since it was last idle. -/
structure Scanned (setup : Setup) (cipher : Cipher) (d : Device) (programmed : Bytes) : Prop
    extends Sound setup cipher d where
  scanner : d.session.phase.downloads = true →
    d.session.scanner =
      setup.profile.checksum.map fun kind => (Scanner.start kind).update programmed

namespace Scanned

variable {setup : Setup} {cipher : Cipher} {d d' : Device} {programmed : Bytes}

theorem start (setup : Setup) (cipher : Cipher) (board : Board) :
    Scanned setup cipher (Device.start setup cipher board) [] :=
  { Sound.start setup cipher board with scanner := nofun }

theorem scanner_kept (h : Scanned setup cipher d programmed)
    (hphase : d.session.phase = .idle ∨ d.session.phase.downloads = true) :
    d.session.scanner =
      setup.profile.checksum.map fun kind => (Scanner.start kind).update (d.keptLog programmed) := by
  rcases hphase with hidle | hdownloads
  · rw [Device.keptLog_of_idle hidle]
    exact congrArg Session.scanner (h.toSound.session_eq hidle)
  · rw [Device.keptLog_of_busy (by rintro hidle; rw [hidle] at hdownloads; cases hdownloads)]
    exact h.scanner hdownloads

/-- A step that programs nothing and leaves the scanner as it is. -/
theorem quiet (h : Scanned setup cipher d programmed) (hsound : Sound setup cipher d')
    (hscanner : d'.session.scanner = d.session.scanner)
    (hphase : d'.session.phase.downloads = true →
      d.session.phase = .idle ∨ d.session.phase.downloads = true) :
    Scanned setup cipher d' (d.keptLog programmed ++ []) := by
  refine { hsound with scanner := ?_ }
  intro hdownloads
  rw [List.append_nil, hscanner]
  exact h.scanner_kept (hphase hdownloads)

/-- A step that ends a download, well or badly. -/
theorem closed (hsound : Sound setup cipher d') (log : Bytes)
    (hphase : d'.session.phase.downloads = false) : Scanned setup cipher d' log := by
  refine { hsound with scanner := ?_ }
  intro hdownloads
  rw [hphase] at hdownloads
  cases hdownloads

theorem move (h : Scanned setup cipher d programmed) {calls : List Call} (hmove : Move d calls d') :
    Scanned setup cipher d' (d.keptLog programmed ++ calls.flatMap d.programmedBytes) := by
  have hsound := h.toSound.move hmove
  cases hmove with
  | stay => exact h.quiet hsound rfl .inr
  | failures program read manifest => exact h.quiet hsound rfl .inr
  | arm harm => exact h.quiet hsound rfl .inr
  | finish hphase =>
      exact h.quiet hsound rfl fun _ => h.coherent.idle_or_downloads hphase
  | resume hphase => exact h.quiet hsound rfl fun _ => .inr (by rw [Phase.downloads, hphase])
  | @programmed data plain after board htakes hboard =>
      obtain ⟨buffer, hreceived⟩ := htakes.received_eq
      have hscanner := h.scanner_kept (h.coherent.idle_or_downloads htakes.phase)
      have hbytes : d.programmedBytes (.program d.session.target d.session.address plain) = plain := by
        rw [Device.programmedBytes, hboard]
        rfl
      refine { hsound with scanner := ?_ }
      intro _
      rw [List.flatMap_singleton, hbytes, hreceived]
      simp only [Session.advance]
      rw [hscanner, Option.map_map]
      congr 1
      funext kind
      exact (Scanner.update_append _ _ _).symm
  | resetLeaving hleaves => exact closed hsound _ h.coherent.downloads_afterReset
  | resetStaying hleaves => exact closed hsound _ h.coherent.downloads_afterReset
  | _ => exact closed hsound _ rfl

theorem run (h : Scanned setup cipher d programmed) (steps : List Step) :
    Scanned setup cipher (d.after steps) (d.sinceIdle Device.programs programmed steps) :=
  Device.sinceIdle_induction (motive := Scanned setup cipher)
    (fun d _ s h => h.move (d.step_move s)) h steps

/-- The length that is told is that of the first place in the programmed bytes at which their
checksum is stored, unless that is their start. -/
theorem checkedLength_eq_some_iff (h : Scanned setup cipher d programmed)
    (hdownloads : d.session.phase.downloads = true) (n : Nat) :
    d.session.checkedLength = some n ↔
      0 < n ∧ ∃ kind, setup.profile.checksum = some kind ∧
        Trailer.find? kind programmed = some n := by
  rw [Session.checkedLength, h.scanner hdownloads, Option.filter_eq_some_iff, decide_eq_true_eq,
    and_comm]
  cases setup.profile.checksum with
  | none => simp
  | some kind =>
      simp only [Option.map_some, Option.bind_some, Scanner.found_update_start, Option.some.injEq,
        exists_eq_left']

end Scanned

/-- Whatever is done to a bootloader, it manifests the firmware once with each request for the
status of a finished download and at no other time.  The length that it tells is that of the
first place, not at their start, at which the bytes that were programmed since it was last idle
store their checksum.  It is idle afterwards, or in the error that the board gives; the host is
told that all was well and the manifestation still to come. -/
theorem manifest_of_run (setup : Setup) (cipher : Cipher) (board : Board) (steps : List Step)
    (s : Step) :
    let first := Device.start setup cipher board
    let d := first.after steps
    let programmed := first.sinceIdle Device.programs [] steps
    let outcome := d.step s
    outcome.calls.any Call.isManifest = d.asksFinished s ∧
      (d.asksFinished s = true →
        ∃ checked, outcome.calls = [.manifest checked] ∧
          (∀ n, checked = some n ↔
            0 < n ∧ ∃ kind, setup.profile.checksum = some kind ∧
              Trailer.StoredAt kind programmed n ∧
              ∀ q < n, ¬ Trailer.StoredAt kind programmed q) ∧
          outcome.answer =
            .reply ([0] ++ Bytes.ofNatLE 3 setup.profile.pollTimeout.toNat ++ [6, 0]) ∧
          (d.board.manifest = none →
            outcome.device.session.phase = .idle ∧
              outcome.device.session.address = (setup.region d.session.target).start ∧
              outcome.device.session.checkedLength = none) ∧
          ∀ fault, d.board.manifest = some fault →
            outcome.device.session.phase = .error fault.code ∧
              outcome.device.session.address = d.session.address) := by
  intro first d programmed outcome
  have hscanned : Scanned setup cipher d programmed :=
    (Scanned.start setup cipher board).run steps
  refine ⟨d.step_manifests s, ?_⟩
  intro hasks
  have hphase : d.session.phase = .manifestSync := by
    rw [Device.asksFinished, Bool.and_eq_true, beq_iff_eq] at hasks
    exact hscanned.coherent.eq_of_stage hasks.1 nofun
  have houtcome : outcome = _ := Device.step_of_asksFinished hasks
  rw [houtcome]
  refine ⟨d.session.checkedLength, rfl, ?_, ?_, ?_, ?_⟩
  · intro n
    simp only [hscanned.checkedLength_eq_some_iff (by rw [hphase]; rfl), Trailer.find?_eq_some_iff]
  · simp only [Session.report, hphase, hscanned.same_setup]
    rfl
  · intro hnone
    rw [hnone]
    refine ⟨rfl, ?_, ?_⟩
    · rw [← hscanned.same_setup]
      rfl
    · change ((d.session.scanner.map Scanner.reset).bind Scanner.found).filter _ = none
      cases d.session.scanner <;> rfl
  · intro fault hfault
    rw [hfault]
    exact ⟨rfl, rfl⟩

/-- A block that the memory refuses is not part of what is manifested later, in two blocks with
the checksum of the first byte across them. -/
theorem manifest_of_run_after_failure :
    let setup : Setup := ⟨{ checksum := some .crc32Small }, 0, ⟨0, 16⟩, none⟩
    let board : Board := ⟨⟨0, List.replicate 16 0xFF⟩, ⟨0, []⟩, {}, none, none, none⟩
    let download (data : Bytes) : Step :=
      .control { type := 0x21, code := 1, index := 0, length := UInt16.ofNat data.length, data }
    let status : Step := .control { type := 0xA1, code := 3, index := 0, length := 6 }
    let clear : Step := .control { type := 0x21, code := 4, index := 0 }
    let steps := [.failProgram (some .verify), download [7, 7], clear, .failProgram none,
      download [1, 228, 32], download [250, 90, 9], download []]
    let first := Device.start setup ⟨.plain, .ecb, .plain⟩ board
    let d := first.after steps
    d.asksFinished status = true ∧
      first.sinceIdle Device.programs [] steps = [1, 228, 32, 250, 90, 9] ∧
      (d.step status).calls = [.manifest (some 1)] ∧
      Trailer.StoredAt .crc32Small [1, 228, 32, 250, 90, 9] 1 := by
  intro setup board download status clear steps first d
  have hasks : d.asksFinished status = true := by decide +kernel
  have hprogrammed : first.sinceIdle Device.programs [] steps = [1, 228, 32, 250, 90, 9] := by
    decide +kernel
  have hone : (d.step status).calls = [.manifest (some 1)] := by decide +kernel
  obtain ⟨checked, hcalls, hchecked, -⟩ :=
    (manifest_of_run setup ⟨.plain, .ecb, .plain⟩ board steps status).2 hasks
  have hsame : checked = some 1 := by
    rw [hone] at hcalls
    cases hcalls
    rfl
  obtain ⟨-, kind, hkind, hstored, -⟩ := (hchecked 1).mp hsame
  have hsmall : ChecksumKind.crc32Small = kind := Option.some.inj hkind
  rw [hprogrammed, ← hsmall] at hstored
  exact ⟨hasks, hprogrammed, hone, hstored⟩

end Dfu

end FirmwareUpdate
