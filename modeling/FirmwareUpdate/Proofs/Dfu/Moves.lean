/-
What one step can do to a device.  Every request, choice of a setting, bus reset and
failure is one of a few moves, each with the conditions under which it is made and the
calls to the board; what all steps keep is read off them.
-/
import FirmwareUpdate.Proofs.Dfu.Phases
import FirmwareUpdate.Proofs.Dfu.Transfers

namespace FirmwareUpdate

@[simp] theorem Scanner.kind_push (s : Scanner) (b : UInt8) :
    (s.push b).running.kind = s.running.kind := by
  simp only [push]
  split
  · rfl
  · split
    · rfl
    · split
      · rfl
      · cases s.window ++ [b] <;> rfl

/-- The bytes that a scanner has taken in do not change where it starts again. -/
@[simp] theorem Scanner.reset_update (s : Scanner) (data : Bytes) :
    (s.update data).reset = s.reset := by
  induction data generalizing s with
  | nil => rfl
  | cons b rest ih =>
      have hcons : s.update (b :: rest) = (s.push b).update rest := rfl
      rw [hcons, ih, Scanner.reset, Scanner.reset, Scanner.kind_push]

namespace Dfu

def Call.isManifest : Call → Bool
  | .manifest _ => true
  | _ => false

/-- Whether a bus reset leaves the bootloader. -/
def Session.leaves (s : Session) : Bool :=
  s.detachArmed || (s.manifested && s.phase.stage == .idle)

/-- What a step can do to a device, with the calls to the board that it makes. -/
inductive Move (d : Device) : List Call → Device → Prop
  | stay : Move d [] d
  | fail (code : ErrorCode) : Move d [] (d.inPhase (.error code))
  | failures (program read : Option MemoryFault) (manifest : Option ManifestFault) :
      Move d []
        { d with
          board :=
            { d.board with
              programFault := program, readFault := read, manifestFault := manifest } }
  | arm (h : d.setup.profile.detaches = true) :
      Move d [] (d.withSession { d.session with detachArmed := true })
  | restart : Move d [] d.restart
  | select {alternate : UInt8} {target : Target} (h : d.setup.target? alternate = some target) :
      Move d [] (d.withSession { d.session with target := target }).restart
  | finish (h : d.session.phase.takesDownload = true) : Move d [] (d.inPhase .manifestSync)
  | misfit {data : Bytes} {e : CipherError} (h : d.ExpectsBlock data)
      (he : d.session.cipher.decrypt data = .error e) :
      Move d [] ((d.withSession (d.session.loaded data)).inPhase (.error .file))
  | notProgrammed {data plain : Bytes} {cipher : Cipher} {fault : MemoryFault}
      (h : d.TakesBlock data plain cipher)
      (hfault : d.board.program d.session.target d.session.address plain = .error fault) :
      Move d [.program d.session.target d.session.address plain]
        ((d.withSession ((d.session.loaded data).received plain cipher)).inPhase
          (.error fault.code))
  | programmed {data plain : Bytes} {cipher : Cipher} {board : Board}
      (h : d.TakesBlock data plain cipher)
      (hboard : d.board.program d.session.target d.session.address plain = .ok board) :
      Move d [.program d.session.target d.session.address plain]
        { d with
          session :=
            { ((d.session.loaded data).received plain cipher).advance data.length with
              phase := d.programmedPhase }
          board := board }
  | resume (h : d.session.phase.stage = .downloadSync) : Move d [] (d.inPhase .downloadIdle)
  | notManifested {fault : ManifestFault} (h : d.session.phase.stage = .manifestSync)
      (hfault : d.board.manifest = some fault) :
      Move d [.manifest d.session.checkedLength] (d.inPhase (.error fault.code))
  | manifested (h : d.session.phase.stage = .manifestSync) (hnone : d.board.manifest = none) :
      Move d [.manifest d.session.checkedLength]
        (d.withSession { d.session.restart d.setup with manifested := true })
  | notFetched {length : Nat} {fault : MemoryFault} (h : d.OffersFrame length)
      (hfault : d.fetch (d.nextFrame length).data = .error fault) :
      Move d (d.fetchCalls (d.nextFrame length).data) (d.inPhase (.error fault.code))
  | sent {length : Nat} {data secret : Bytes} {cipher : Cipher}
      (h : d.SendsFrame length data secret cipher) :
      Move d (d.fetchCalls (d.nextFrame length).data)
        (d.withSession (d.sentSession (d.nextFrame length) data secret cipher))
  | resetLeaving (h : d.session.leaves = true) :
      Move d [.busReset]
        ((d.withSession { d.session with detachArmed := false, manifested := false }).inPhase
          d.session.phase.afterReset)
  | resetStaying (h : d.session.leaves = false) : Move d [] (d.inPhase d.session.phase.afterReset)

namespace Device

theorem download_move (d : Device) (data : Bytes) :
    Move d (d.download data).calls (d.download data).device := by
  apply download_cases (motive := fun outcome => Move d outcome.calls outcome.device)
  case refused => exact .fail .stalledPacket
  case final => exact fun hphase => .finish hphase
  case pastEnd => exact fun _ _ => .fail .address
  case misfit => exact fun _ hexpects he => .misfit hexpects he
  case notProgrammed => exact fun _ _ _ htakes hfault => .notProgrammed htakes hfault
  case programmed => exact fun _ _ _ htakes hboard => .programmed htakes hboard

theorem upload_move (d : Device) (length : Nat) :
    Move d (d.upload length).calls (d.upload length).device := by
  apply upload_cases (motive := fun outcome => Move d outcome.calls outcome.device)
  case refused => exact .fail .stalledPacket
  case finished => exact fun _ => .restart
  case notFetched => exact fun _ hoffers hfault => .notFetched hoffers hfault
  case frame => exact fun _ _ _ hsends => .sent hsends

/-- What holds of each outcome that a request for the status can have holds of the one it has. -/
theorem getStatus_cases {motive : Outcome → Prop} (d : Device) (length : Nat)
    (refused : motive d.refuse)
    (resumed : d.session.phase.stage = .downloadSync →
      motive ⟨d.inPhase .downloadIdle, .reply (d.session.report d.setup), []⟩)
    (notManifested : ∀ fault, d.session.phase.stage = .manifestSync →
      d.board.manifest = some fault →
      motive
        ⟨d.inPhase (.error fault.code), .reply (d.session.report d.setup),
          [.manifest d.session.checkedLength]⟩)
    (manifested : d.session.phase.stage = .manifestSync → d.board.manifest = none →
      motive
        ⟨d.withSession { d.session.restart d.setup with manifested := true },
          .reply (d.session.report d.setup), [.manifest d.session.checkedLength]⟩)
    (told : motive ⟨d, .reply (d.session.report d.setup), []⟩) :
    motive (d.getStatus length) := by
  unfold getStatus
  split
  · exact refused
  · split
    next hphase => exact resumed hphase
    next hphase =>
        split
        next fault hfault => exact notManifested fault hphase hfault
        next hnone => exact manifested hphase hnone
    next => exact told

theorem getStatus_move (d : Device) (length : Nat) :
    Move d (d.getStatus length).calls (d.getStatus length).device := by
  apply getStatus_cases (motive := fun outcome => Move d outcome.calls outcome.device)
  case refused => exact .fail .stalledPacket
  case resumed => exact fun hphase => .resume hphase
  case notManifested => exact fun _ hphase hfault => .notManifested hphase hfault
  case manifested => exact fun hphase hnone => .manifested hphase hnone
  case told => exact .stay

/-- What holds of each outcome that a request can have holds of the one it has. -/
theorem command_cases {motive : Outcome → Prop} (d : Device) (r : Request)
    (refused : motive d.refuse)
    (detached : Command.ofCode? r.isInput r.code = some .detach →
      d.setup.profile.detaches = true →
      motive ⟨d.withSession { d.session with detachArmed := true }, .accepted, []⟩)
    (download : Command.ofCode? r.isInput r.code = some .download → motive (d.download r.data))
    (upload : Command.ofCode? r.isInput r.code = some .upload →
      motive (d.upload r.length.toNat))
    (getStatus : Command.ofCode? r.isInput r.code = some .getStatus →
      motive (d.getStatus r.length.toNat))
    (getState : Command.ofCode? r.isInput r.code = some .getState →
      motive ⟨d, .reply [d.session.phase.state], []⟩)
    (restarted : motive ⟨d.restart, .accepted, []⟩) :
    motive (d.command r) := by
  unfold command
  split
  next hdetach =>
      unfold detach
      split
      next hable => exact detached hdetach hable
      next => exact refused
  next hdownload => exact download hdownload
  next hupload => exact upload hupload
  next hstatus => exact getStatus hstatus
  next =>
      unfold clearStatus
      split
      · exact restarted
      · exact refused
  next hstate =>
      unfold Device.getState
      split
      · exact refused
      · exact getState hstate
  next =>
      unfold abort
      split
      · exact restarted
      · exact refused
  next => exact refused

theorem command_move (d : Device) (r : Request) :
    Move d (d.command r).calls (d.command r).device := by
  apply command_cases (motive := fun outcome => Move d outcome.calls outcome.device)
  case refused => exact .fail .stalledPacket
  case detached => exact fun _ hable => .arm hable
  case download => exact fun _ => d.download_move r.data
  case upload => exact fun _ => d.upload_move r.length.toNat
  case getStatus => exact fun _ => d.getStatus_move r.length.toNat
  case getState => exact fun _ => .stay
  case restarted => exact .restart

/-- What holds of each outcome that the choice of a setting can have holds of the one it has. -/
theorem setInterface_cases {motive : Outcome → Prop} (d : Device) (alternate index : UInt16)
    (same : ∀ answer, motive ⟨d, answer, []⟩)
    (selected : ∀ target, d.setup.target? alternate.toUInt8 = some target →
      motive ⟨(d.withSession { d.session with target := target }).restart, .accepted, []⟩) :
    motive (d.setInterface alternate index) := by
  by_cases hrange : maxNumber < index ∨ maxNumber < alternate
  · simp only [setInterface, hrange, ↓reduceIte]
    exact same .stalled
  · by_cases hindex : index.toUInt8 = d.setup.interface
    · cases htarget : d.setup.target? alternate.toUInt8 with
      | none =>
          simp only [setInterface, select?, hrange, hindex, htarget, Option.map_none, ↓reduceIte]
          exact same _
      | some target =>
          simp only [setInterface, select?, hrange, hindex, htarget, Option.map_some, ↓reduceIte]
          exact selected target htarget
    · simp only [setInterface, hrange, hindex, ↓reduceIte]
      exact same _

theorem setInterface_move (d : Device) (alternate index : UInt16) :
    Move d (d.setInterface alternate index).calls (d.setInterface alternate index).device := by
  apply setInterface_cases (motive := fun outcome => Move d outcome.calls outcome.device)
  case same => exact fun _ => .stay
  case selected => exact fun _ htarget => .select htarget

theorem busReset_of_leaves {d : Device} (h : d.session.leaves = true) :
    d.busReset =
      ⟨(d.withSession { d.session with detachArmed := false, manifested := false }).inPhase
        d.session.phase.afterReset, .done, [.busReset]⟩ := by
  unfold Session.leaves at h
  simp only [busReset, h, ↓reduceIte]
  rfl

theorem busReset_of_stays {d : Device} (h : d.session.leaves = false) :
    d.busReset = ⟨d.inPhase d.session.phase.afterReset, .done, []⟩ := by
  unfold Session.leaves at h
  simp only [busReset, h, Bool.false_eq_true, ↓reduceIte]
  rfl

theorem busReset_move (d : Device) : Move d d.busReset.calls d.busReset.device := by
  cases hleaves : d.session.leaves with
  | true =>
      rw [busReset_of_leaves hleaves]
      exact .resetLeaving hleaves
  | false =>
      rw [busReset_of_stays hleaves]
      exact .resetStaying hleaves

/-- Every step is one of the moves. -/
theorem step_move (d : Device) (s : Step) : Move d (d.step s).calls (d.step s).device := by
  cases s with
  | control r =>
      simp only [step, control]
      split
      · exact .stay
      · split
        · exact .stay
        · exact d.command_move r
  | setInterface alternate index => exact d.setInterface_move alternate index
  | getInterface index =>
      simp only [step, getInterface]
      split
      · exact .stay
      · split
        · exact .stay
        · exact .stay
  | getDescriptor query => exact .stay
  | busReset => exact d.busReset_move
  | markPowerOnReset => exact .fail .powerOnReset
  | markCorruptFirmware => exact .fail .firmware
  | failProgram fault => exact .failures fault d.board.readFault d.board.manifestFault
  | failRead fault => exact .failures d.board.programFault fault d.board.manifestFault
  | failManifest fault => exact .failures d.board.programFault d.board.readFault fault

end Device

theorem Move.setup_eq {d d' : Device} {calls : List Call} (h : Move d calls d') :
    d'.setup = d.setup := by
  cases h <;> rfl

namespace Session

theorem restart_restart (setup : Setup) (s : Session) :
    (s.restart setup).restart setup = s.restart setup := by
  have hscanner : (s.scanner.map Scanner.reset).map Scanner.reset =
      s.scanner.map Scanner.reset := by
    cases s.scanner <;> rfl
  simp only [restart, Cipher.reset_reset, hscanner]

end Session

theorem Device.TakesBlock.reset_scanner {d : Device} {data plain : Bytes} {cipher : Cipher}
    (h : d.TakesBlock data plain cipher) :
    ((d.session.loaded data).received plain cipher).scanner.map Scanner.reset =
      d.session.scanner.map Scanner.reset := by
  obtain ⟨buffer, hreceived⟩ := h.received_eq
  rw [hreceived, Option.map_map]
  cases d.session.scanner with
  | none => rfl
  | some scanner => exact congrArg some (scanner.reset_update plain)

theorem Device.coherent_programmedPhase (d : Device) : d.programmedPhase.Coherent := by
  unfold programmedPhase
  split
  · exact .downloadSync
  · exact .downloadIdle

/-- Every step leaves a coherent phase behind. -/
theorem Move.coherent {d d' : Device} {calls : List Call} (h : Move d calls d')
    (hcoherent : d.session.phase.Coherent) : d'.session.phase.Coherent := by
  cases h with
  | stay => exact hcoherent
  | fail code => exact .error code
  | failures program read manifest => exact hcoherent
  | arm hable => exact hcoherent
  | restart => exact .idle
  | select htarget => exact .idle
  | finish hphase => exact .manifestSync
  | misfit hexpects he => exact .error .file
  | notProgrammed htakes hfault => exact .error _
  | programmed htakes hboard => exact d.coherent_programmedPhase
  | resume hphase => exact .downloadIdle
  | notManifested hphase hfault => exact .error _
  | manifested hphase hnone => exact .idle
  | notFetched hoffers hfault => exact .error _
  | sent hsends => exact .uploadIdle
  | resetLeaving hleaves => exact hcoherent.afterReset
  | resetStaying hleaves => exact hcoherent.afterReset

theorem Device.programmedPhase_ne_idle (d : Device) : d.programmedPhase ≠ .idle := by
  unfold programmedPhase
  split <;> exact nofun

/-- What holds between the steps of a device that was started with a setup and a cipher:
the setup stays, the phase is coherent, cipher and scanner can be started again, and an idle
device stands at the start of a session. -/
structure Sound (setup : Setup) (cipher : Cipher) (d : Device) : Prop where
  same_setup : d.setup = setup
  coherent : d.session.phase.Coherent
  reset_cipher : d.session.cipher.reset = cipher.reset
  reset_scanner : d.session.scanner.map Scanner.reset = setup.profile.checksum.map Scanner.start
  at_start : d.session.phase = .idle → d.session.restart setup = d.session

namespace Sound

variable {setup : Setup} {cipher : Cipher} {d : Device}

theorem start (setup : Setup) (cipher : Cipher) (board : Board) :
    Sound setup cipher (Device.start setup cipher board) where
  same_setup := rfl
  coherent := .idle
  reset_cipher := cipher.reset_reset
  reset_scanner := by
    simp only [Device.start, Session.initial, Session.restart]
    cases setup.profile.checksum <;> rfl
  at_start := fun _ => Session.restart_restart setup _

/-- A session that starts again is sound, whatever it remembers. -/
theorem restarted (h : Sound setup cipher d) (s : Session)
    (hcipher : s.cipher = d.session.cipher) (hscanner : s.scanner = d.session.scanner) :
    Sound setup cipher (d.withSession (s.restart d.setup)) := by
  refine ⟨h.same_setup, .idle, ?_, ?_, ?_⟩
  · change s.cipher.reset.reset = cipher.reset
    rw [Cipher.reset_reset, hcipher, h.reset_cipher]
  · change (s.scanner.map Scanner.reset).map Scanner.reset = _
    rw [hscanner, h.reset_scanner]
    cases setup.profile.checksum <;> rfl
  · intro _
    rw [h.same_setup]
    exact Session.restart_restart setup s

/-- A session in the middle of something is sound if its phase, cipher and scanner are. -/
theorem busy (h : Sound setup cipher d) (s : Session) (board : Board)
    (hcoherent : s.phase.Coherent) (hphase : s.phase ≠ .idle)
    (hcipher : s.cipher.reset = d.session.cipher.reset)
    (hscanner : s.scanner.map Scanner.reset = d.session.scanner.map Scanner.reset) :
    Sound setup cipher { d with session := s, board := board } where
  same_setup := h.same_setup
  coherent := hcoherent
  reset_cipher := hcipher.trans h.reset_cipher
  reset_scanner := hscanner.trans h.reset_scanner
  at_start := fun hidle => absurd hidle hphase

/-- What is remembered for the next bus reset does not matter. -/
theorem flagged (h : Sound setup cipher d) (armed manifested : Bool) :
    Sound setup cipher
      (d.withSession { d.session with detachArmed := armed, manifested := manifested }) := by
  refine ⟨h.same_setup, h.coherent, h.reset_cipher, h.reset_scanner, ?_⟩
  intro hidle
  have hsession := h.at_start hidle
  change { d.session.restart setup with detachArmed := armed, manifested := manifested } = _
  rw [hsession]
  rfl

theorem afterReset (h : Sound setup cipher d) :
    Sound setup cipher (d.inPhase d.session.phase.afterReset) := by
  unfold Phase.afterReset
  split
  · exact h.busy _ _ (.error .usbReset) nofun rfl rfl
  · exact h

theorem move (h : Sound setup cipher d) {calls : List Call} {d' : Device}
    (hmove : Move d calls d') : Sound setup cipher d' := by
  have hcoherent := hmove.coherent h.coherent
  cases hmove with
  | stay => exact h
  | fail code => exact h.busy _ _ hcoherent nofun rfl rfl
  | failures program read manifest =>
      exact ⟨h.same_setup, hcoherent, h.reset_cipher, h.reset_scanner, h.at_start⟩
  | arm harm => exact h.flagged true d.session.manifested
  | restart => exact h.restarted d.session rfl rfl
  | @select alternate target htarget =>
      exact h.restarted { d.session with target := target } rfl rfl
  | finish hphase => exact h.busy _ _ hcoherent nofun rfl rfl
  | misfit hphase he => exact h.busy _ _ hcoherent nofun rfl rfl
  | notProgrammed htakes hfault =>
      have hcipher := (Cipher.kept_of_apply htakes.decrypt).1
      exact h.busy _ _ hcoherent nofun hcipher htakes.reset_scanner
  | programmed htakes hboard =>
      have hcipher := (Cipher.kept_of_apply htakes.decrypt).1
      exact h.busy _ _ hcoherent d.programmedPhase_ne_idle hcipher htakes.reset_scanner
  | resume hphase => exact h.busy _ _ hcoherent nofun rfl rfl
  | notManifested hphase hfault => exact h.busy _ _ hcoherent nofun rfl rfl
  | manifested hphase hnone =>
      exact h.restarted { d.session with manifested := true } rfl rfl
  | notFetched hphase hfault => exact h.busy _ _ hcoherent nofun rfl rfl
  | sent hsends =>
      have hcipher := (Cipher.kept_of_apply hsends.encrypt).1
      exact h.busy _ _ hcoherent nofun hcipher rfl
  | resetLeaving hleaves => exact (h.flagged false false).afterReset
  | resetStaying hleaves => exact h.afterReset

theorem step (h : Sound setup cipher d) (s : Step) : Sound setup cipher (d.step s).device :=
  h.move (d.step_move s)

theorem after (h : Sound setup cipher d) (steps : List Step) :
    Sound setup cipher (d.after steps) := by
  induction steps generalizing d with
  | nil => exact h
  | cons s steps ih => exact ih (h.step s)

/-- An idle device has forgotten everything but its target, what the next bus reset is to
do, and what lies in the transfer buffer. -/
theorem session_eq (h : Sound setup cipher d) (hidle : d.session.phase = .idle) :
    d.session =
      { phase := .idle
        target := d.session.target
        address := (setup.region d.session.target).start
        remaining := (setup.region d.session.target).length.toNat
        detachArmed := d.session.detachArmed
        manifested := d.session.manifested
        cipher := cipher.reset
        scanner := setup.profile.checksum.map Scanner.start
        uploadSum := setup.profile.checksum.map Checksum.start
        trailerSent := false
        buffer := d.session.buffer } := by
  have hstart := h.at_start hidle
  rw [← h.reset_cipher, ← h.reset_scanner]
  exact hstart.symm

end Sound

namespace Device

/-- The calls to the board in a run, in order. -/
def calls (d : Device) (steps : List Step) : List Call :=
  (d.run steps).flatMap Outcome.calls

theorem after_cons (d : Device) (s : Step) (steps : List Step) :
    d.after (s :: steps) = (d.step s).device.after steps := rfl

theorem after_append (d : Device) (first second : List Step) :
    d.after (first ++ second) = (d.after first).after second :=
  List.foldl_append

theorem after_concat (d : Device) (steps : List Step) (s : Step) :
    d.after (steps ++ [s]) = ((d.after steps).step s).device :=
  d.after_append steps [s]

/-- No step touches the setup. -/
theorem after_setup (d : Device) (steps : List Step) : (d.after steps).setup = d.setup := by
  induction steps generalizing d with
  | nil => rfl
  | cons s steps ih => exact (ih (d.step s).device).trans (d.step_move s).setup_eq

/-- A device with a coherent phase never loses it. -/
theorem coherent_after {d : Device} (h : d.session.phase.Coherent) (steps : List Step) :
    (d.after steps).session.phase.Coherent := by
  induction steps generalizing d with
  | nil => exact h
  | cons s steps ih => exact ih ((d.step_move s).coherent h)

theorem run_append (d : Device) (first second : List Step) :
    d.run (first ++ second) = d.run first ++ (d.after first).run second := by
  induction first generalizing d with
  | nil => rfl
  | cons s first ih => exact congrArg (d.step s :: ·) (ih (d.step s).device)

theorem calls_cons (d : Device) (s : Step) (steps : List Step) :
    d.calls (s :: steps) = (d.step s).calls ++ (d.step s).device.calls steps := rfl

theorem calls_append (d : Device) (first second : List Step) :
    d.calls (first ++ second) = d.calls first ++ (d.after first).calls second := by
  simp only [calls, run_append, List.flatMap_append]

theorem calls_concat (d : Device) (steps : List Step) (s : Step) :
    d.calls (steps ++ [s]) = d.calls steps ++ ((d.after steps).step s).calls := by
  rw [calls_append, calls_cons]
  exact congrArg _ (List.append_nil _)

end Device

/-- The states of a device that was started with a setup and a cipher. -/
def Reachable (setup : Setup) (cipher : Cipher) (d : Device) : Prop :=
  ∃ board history, d = (Device.start setup cipher board).after history

theorem Reachable.sound {setup : Setup} {cipher : Cipher} {d : Device}
    (h : Reachable setup cipher d) : Sound setup cipher d := by
  obtain ⟨board, history, rfl⟩ := h
  exact (Sound.start setup cipher board).after history

end Dfu

end FirmwareUpdate
