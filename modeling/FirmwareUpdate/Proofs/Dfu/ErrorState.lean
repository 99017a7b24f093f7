/-
The error state.  A bootloader in an error refuses what would move data and touches neither
pointer nor memory until the status is cleared or a setting is chosen; then it starts again
as if nothing had happened before.
-/
import FirmwareUpdate.Proofs.Dfu.Consistency

namespace FirmwareUpdate

namespace Dfu

/-- The memory that a step selects: an alternate setting on offer, of the interface of the
bootloader. -/
def Setup.selected? (setup : Setup) : Step → Option Target
  | .setInterface alternate index =>
      if index = setup.interface.toUInt16 ∧ alternate ≤ maxNumber then
        setup.target? alternate.toUInt8
      else none
  | _ => none

/-- Whether a step gets a bootloader out of an error: a request to clear the status, or the
choice of a setting on offer. -/
def Setup.leavesError (setup : Setup) (s : Step) : Bool :=
  (s.request? setup.interface).any
      (fun r => Command.ofCode? r.isInput r.code == some .clearStatus) ||
    (setup.selected? s).isSome

/-- A device in an error, the rest of it as it was: nothing but the error code, what the next
bus reset is to do, and the failures that wait for the board can have changed. -/
structure Device.Stuck (d d' : Device) : Prop where
  error : ∃ code, d'.session.phase = .error code
  session : d'.session =
    { d.session with
      phase := d'.session.phase
      detachArmed := d'.session.detachArmed
      manifested := d'.session.manifested }
  board : d'.board =
    { d.board with
      programFault := d'.board.programFault
      readFault := d'.board.readFault
      manifestFault := d'.board.manifestFault }
  setup : d'.setup = d.setup

/-- The number of an interface is never too large for the bus. -/
theorem toUInt16_le_maxNumber (interface : UInt8) : interface.toUInt16 ≤ maxNumber := by
  rw [UInt16.le_iff_toNat_le, UInt8.toNat_toUInt16]
  exact Nat.le_of_lt_succ interface.toNat_lt

namespace Device

variable {d d' d'' : Device} {r : Request} {s : Step} {code : ErrorCode} {target : Target}

theorem Stuck.refl (h : d.session.phase = .error code) : d.Stuck d :=
  ⟨⟨code, h⟩, rfl, rfl, rfl⟩

theorem Stuck.trans (h : d.Stuck d') (h' : d'.Stuck d'') : d.Stuck d'' := by
  refine ⟨h'.error, ?_, ?_, h'.setup.trans h.setup⟩
  · rw [h'.session, h.session]
  · rw [h'.board, h.board]

/-- Neither the pointer nor the target moves, and both memories keep what they hold. -/
theorem Stuck.unmoved (h : d.Stuck d') :
    d'.session.address = d.session.address ∧ d'.session.remaining = d.session.remaining ∧
      d'.session.target = d.session.target ∧
      d'.board.flash = d.board.flash ∧ d'.board.eeprom = d.board.eeprom := by
  rw [h.session, h.board]
  exact ⟨rfl, rfl, rfl, rfl, rfl⟩

/-- An error may follow on another one. -/
theorem stuck_inPhase (d : Device) (code : ErrorCode) : d.Stuck (d.inPhase (.error code)) :=
  ⟨⟨code, rfl⟩, rfl, rfl, rfl⟩

/-- In an error, the blocks of a download, the frames of an upload and their end are refused. -/
theorem command_of_transfer (h : d.session.phase = .error code) {command : Command}
    (hcode : Command.ofCode? r.isInput r.code = some command)
    (hcommand : command ∈ [.download, .upload, .abort]) : d.command r = d.refuse := by
  simp only [List.mem_cons, List.not_mem_nil, or_false] at hcommand
  simp only [Device.command, hcode]
  rcases hcommand with rfl | rfl | rfl
  · exact download_of_unexpected (by rw [h]; rfl)
  · refine upload_of_unexpected fun hexpects => ?_
    have hphase := hexpects.phase
    rw [h] at hphase
    cases hphase
  · rw [abort, h]
    rfl

/-- No request but the one to clear the status gets a device out of an error, and none calls the
board. -/
theorem command_stuck (h : d.session.phase = .error code)
    (hcode : Command.ofCode? r.isInput r.code ≠ some .clearStatus) :
    d.Stuck (d.command r).device ∧ (d.command r).calls = [] := by
  have hrefused : d.Stuck d.refuse.device ∧ d.refuse.calls = [] :=
    ⟨d.stuck_inPhase .stalledPacket, rfl⟩
  cases hcommand : Command.ofCode? r.isInput r.code with
  | none =>
      simp only [command, hcommand]
      exact hrefused
  | some command =>
      cases command with
      | detach =>
          simp only [Device.command, hcommand, detach]
          split
          · exact ⟨⟨⟨code, h⟩, rfl, rfl, rfl⟩, rfl⟩
          · exact hrefused
      | getStatus =>
          simp only [Device.command, hcommand, getStatus, h]
          split
          · exact hrefused
          · exact ⟨.refl h, rfl⟩
      | getState =>
          simp only [Device.command, hcommand, Device.getState]
          split
          · exact hrefused
          · exact ⟨.refl h, rfl⟩
      | clearStatus => exact absurd hcommand hcode
      | _ =>
          rw [command_of_transfer h hcommand (by decide)]
          exact hrefused

/-- The choice of a setting that is on offer is accepted, whatever the device was doing. -/
theorem step_of_selected (h : d.setup.selected? s = some target) :
    d.step s = ⟨(d.withSession { d.session with target := target }).restart, .accepted, []⟩ := by
  cases s with
  | setInterface alternate index =>
      simp only [Setup.selected?, Option.ite_none_right_eq_some] at h
      obtain ⟨⟨rfl, halternate⟩, htarget⟩ := h
      have hrange : ¬ (maxNumber < d.setup.interface.toUInt16 ∨ maxNumber < alternate) := by
        rintro (hindex | hlarge)
        · exact absurd hindex (UInt16.not_lt.mpr (toUInt16_le_maxNumber d.setup.interface))
        · exact absurd hlarge (UInt16.not_lt.mpr halternate)
      simp only [step, setInterface, hrange, UInt8.toUInt8_toUInt16, select?, htarget,
        Option.map_some, ↓reduceIte]
  | _ => cases h

/-- Any other choice of a setting changes nothing, whatever the bus answers. -/
theorem setInterface_of_not_selected {alternate index : UInt16}
    (h : d.setup.selected? (.setInterface alternate index) = none) :
    ∃ answer, d.step (.setInterface alternate index) = ⟨d, answer, []⟩ := by
  by_cases hindex : index = d.setup.interface.toUInt16
  · by_cases halternate : alternate ≤ maxNumber
    · rw [Setup.selected?, if_pos ⟨hindex, halternate⟩] at h
      simp only [step, setInterface, select?, h, Option.map_none, ite_self]
      split
      · exact ⟨.stalled, rfl⟩
      · exact ⟨_, rfl⟩
    · simp only [step, setInterface, UInt16.not_le.mp halternate, or_true, ↓reduceIte]
      exact ⟨.stalled, rfl⟩
  · exact step_of_foreign (.setInterface alternate index hindex)

/-- What one step does to a device in an error, unless it gets it out: the board is called for
one cause only. -/
theorem step_stuck (h : d.session.phase = .error code) (hstays : d.setup.leavesError s = false) :
    d.Stuck (d.step s).device ∧
      (d.step s).calls =
        if s = .busReset ∧ d.session.detachArmed = true then [.busReset] else [] := by
  rw [Setup.leavesError, Bool.or_eq_false_iff] at hstays
  obtain ⟨hrequest, hselected⟩ := hstays
  cases s with
  | control request =>
      cases harrives : (Step.control request).request? d.setup.interface with
      | none =>
          obtain ⟨answer, hstep⟩ := step_of_no_request harrives
          rw [hstep]
          exact ⟨.refl h, rfl⟩
      | some r =>
          rw [harrives, Option.any_some, beq_eq_false_iff_ne] at hrequest
          rw [step_of_request harrives]
          exact command_stuck h hrequest
  | setInterface alternate index =>
      rw [Option.isSome_eq_false_iff, Option.isNone_iff_eq_none] at hselected
      obtain ⟨answer, hstep⟩ := setInterface_of_not_selected hselected
      rw [hstep]
      exact ⟨.refl h, rfl⟩
  | getInterface index =>
      obtain ⟨answer, hstep⟩ := step_of_foreign (d := d) (.getInterface index)
      rw [hstep]
      exact ⟨.refl h, rfl⟩
  | busReset =>
      have hleaves : d.session.leaves = d.session.detachArmed := by
        have hbusy : (d.session.phase.stage == .idle) = false := by
          rw [h]
          rfl
        rw [Session.leaves, hbusy, Bool.and_false, Bool.or_false]
      have hafter : d.session.phase.afterReset = .error code := by
        rw [h]
        rfl
      cases harmed : d.session.detachArmed with
      | true =>
          rw [step, busReset_of_leaves (hleaves.trans harmed), hafter]
          exact ⟨⟨⟨code, rfl⟩, rfl, rfl, rfl⟩, rfl⟩
      | false =>
          rw [step, busReset_of_stays (hleaves.trans harmed), hafter]
          exact ⟨d.stuck_inPhase code, rfl⟩
  | markPowerOnReset => exact ⟨d.stuck_inPhase .powerOnReset, rfl⟩
  | markCorruptFirmware => exact ⟨d.stuck_inPhase .firmware, rfl⟩
  | _ => exact ⟨⟨⟨code, h⟩, rfl, rfl, rfl⟩, rfl⟩

/-- A step that gets a device out of an error is accepted, and the device starts again. -/
theorem step_of_leavesError (h : d.session.phase = .error code)
    (hleaves : d.setup.leavesError s = true) :
    d.step s =
      ⟨(d.withSession
          { d.session with
            target := (d.setup.selected? s).getD d.session.target }).restart, .accepted, []⟩ := by
  cases hselected : d.setup.selected? s with
  | some target => exact step_of_selected hselected
  | none =>
      rw [Setup.leavesError, hselected, Option.isSome_none, Bool.or_false,
        Option.any_eq_true] at hleaves
      obtain ⟨r, harrives, hclear⟩ := hleaves
      rw [step_of_request harrives]
      simp only [command, beq_iff_eq.mp hclear, clearStatus, h, ↓reduceIte]
      rfl

/-- Steps that do not get a device out of an error leave it there. -/
theorem stuck_of_run (h : d.session.phase = .error code) (steps : List Step)
    (hsteps : ∀ s ∈ steps, d.setup.leavesError s = false) :
    d.Stuck (d.after steps) ∧ ∀ call ∈ d.calls steps, call = .busReset := by
  induction steps generalizing d code with
  | nil => exact ⟨.refl h, nofun⟩
  | cons s steps ih =>
      obtain ⟨hfirst, hrest⟩ := List.forall_mem_cons.mp hsteps
      obtain ⟨hstuck, hcalls⟩ := step_stuck h hfirst
      obtain ⟨code', hcode⟩ := hstuck.error
      obtain ⟨hafter, hafterCalls⟩ := ih hcode (by rw [hstuck.setup]; exact hrest)
      refine ⟨hstuck.trans hafter, ?_⟩
      intro call hcall
      rw [calls_cons, List.mem_append, hcalls] at hcall
      rcases hcall with hnow | hlater
      · split at hnow
        · exact List.mem_singleton.mp hnow
        · cases hnow
      · exact hafterCalls call hlater

end Device

/-- However an error came about, and whatever is done that does not get the device out of it:
the state stays the error state with an error code to report; downloads, uploads and their end
are refused; the pointer, the target and the memories stay as they are; and the board is called
for nothing but a bus reset with a detach armed.  A request to clear the status, or the choice
of a setting on offer, is accepted then, and a new session starts. -/
theorem error_until_cleared {setup : Setup} {cipher : Cipher} {d : Device} {code : ErrorCode}
    (hreach : Reachable setup cipher d) (herror : d.session.phase = .error code)
    (steps : List Step) (hsteps : ∀ s ∈ steps, setup.leavesError s = false) :
    let d' := d.after steps
    d'.session.phase.state = 10 ∧ d'.session.phase.status ≠ 0 ∧
      d'.session.address = d.session.address ∧
      d'.session.remaining = d.session.remaining ∧
      d'.session.target = d.session.target ∧
      d'.board.flash = d.board.flash ∧ d'.board.eeprom = d.board.eeprom ∧
      (∀ call ∈ d.calls steps, call = .busReset) ∧
      (∀ s, setup.leavesError s = false → (d'.step s).calls =
        if s = .busReset ∧ d'.session.detachArmed = true then [.busReset] else []) ∧
      (∀ r command, command ∈ [.download, .upload, .abort] →
        Command.ofCode? r.isInput r.code = some command →
          (d'.command r).answer = .stalled ∧
            ∀ s, s.request? setup.interface = some r → (d'.step s).answer = .stalled) ∧
      ∀ s, setup.leavesError s = true →
        let target := (setup.selected? s).getD d.session.target
        let outcome := d'.step s
        outcome.answer = .accepted ∧ outcome.calls = [] ∧
          outcome.device.session.phase.status = 0 ∧
          outcome.device.session =
            { d'.session with
              phase := .idle
              target := target
              address := (setup.region target).start
              remaining := (setup.region target).length.toNat
              cipher := cipher.reset
              scanner := setup.profile.checksum.map Scanner.start
              uploadSum := setup.profile.checksum.map Checksum.start
              trailerSent := false } := by
  intro d'
  have hsound : Sound setup cipher d' := hreach.sound.after steps
  rw [← hreach.sound.same_setup] at hsteps
  have hrun : d.Stuck d' ∧ ∀ call ∈ d.calls steps, call = .busReset :=
    Device.stuck_of_run herror steps hsteps
  obtain ⟨hstuck, hcalls⟩ := hrun
  obtain ⟨code', hcode⟩ := hstuck.error
  obtain ⟨haddress, hremaining, htarget, hflash, heeprom⟩ := hstuck.unmoved
  have hsetup : d'.setup = setup := hsound.same_setup
  have hstate : d'.session.phase.state = 10 := by
    rw [hcode]
    rfl
  have hstatus : d'.session.phase.status ≠ 0 :=
    fun hzero => hsound.coherent.status_eq_zero_iff.mp hzero hstate
  refine ⟨hstate, hstatus, haddress, hremaining, htarget, hflash, heeprom, hcalls, ?_, ?_, ?_⟩
  · intro s hs
    rw [← hsetup] at hs
    exact (Device.step_stuck hcode hs).2
  · intro r command hcommand hofCode
    have hrefused := Device.command_of_transfer hcode hofCode hcommand
    refine ⟨by rw [hrefused]; rfl, ?_⟩
    intro s harrives
    rw [← hsetup] at harrives
    rw [Device.step_of_request harrives, hrefused]
    rfl
  · intro s hs target outcome
    rw [← hsetup] at hs
    have houtcome : outcome = _ := Device.step_of_leavesError hcode hs
    rw [houtcome]
    refine ⟨rfl, rfl, rfl, ?_⟩
    simp only [Device.restart, Device.withSession, Session.restart, hsetup, htarget,
      hsound.reset_cipher, hsound.reset_scanner]
    rfl

/-- An EEPROM that fails to verify the second block, then a bus reset with a detach armed, an
empty block, and a setting of another interface; the status is cleared at last. -/
theorem error_until_cleared_half_eeprom :
    let setup : Setup := ⟨{}, 0, ⟨0, 64⟩, some ⟨0x100, 16⟩⟩
    let cipher : Cipher := ⟨.plain, .ecb, .plain⟩
    let board : Board :=
      ⟨⟨0, List.replicate 64 0xFF⟩, ⟨0x100, List.replicate 16 0⟩, {}, none, none, none⟩
    let download (data : Bytes) : Step :=
      .control { type := 0x21, code := 1, index := 0, length := UInt16.ofNat data.length, data }
    let clear : Step := .control { type := 0x21, code := 4, index := 0 }
    let history := [.setInterface 1 0, download [1, 2], .failProgram (some .verify),
      download [3, 4]]
    let detach : Step := .control { type := 0x21, code := 0, index := 0 }
    let steps := [detach, .busReset, download [], .setInterface 1 5]
    let d := (Device.start setup cipher board).after history
    Reachable setup cipher d ∧ d.session.phase = .error .verify ∧
      (∀ s ∈ steps, setup.leavesError s = false) ∧ d.calls steps = [.busReset] ∧
      (d.after steps).session.phase.state = 10 ∧ (d.after steps).session.address = 0x102 ∧
      setup.leavesError clear = true ∧ ((d.after steps).step clear).answer = .accepted ∧
      ((d.after steps).step clear).device.session.address = 0x100 := by
  intro setup cipher board download clear history detach steps d
  have hreach : Reachable setup cipher d := ⟨board, history, rfl⟩
  have herror : d.session.phase = .error .verify := by decide +kernel
  have hsteps : ∀ s ∈ steps, setup.leavesError s = false := by decide +kernel
  have hclear : setup.leavesError clear = true := by decide +kernel
  have haddress : d.session.address = 0x102 := by decide +kernel
  have htarget : d.session.target = .eeprom := by decide +kernel
  have hcalls : d.calls steps = [.busReset] := by decide +kernel
  obtain ⟨hstate, -, hkept, -, -, -, -, -, -, -, hleaves⟩ :=
    error_until_cleared hreach herror steps hsteps
  obtain ⟨haccepted, -, -, hsession⟩ := hleaves clear hclear
  -- from here on the device counts for these facts, not for its value
  clear_value d
  have hregion : (setup.region ((setup.selected? clear).getD d.session.target)).start = 0x100 := by
    change (setup.region d.session.target).start = 0x100
    rw [htarget]
    rfl
  exact ⟨hreach, herror, hsteps, hcalls, hstate, hkept.trans haddress, hclear, haccepted,
    (congrArg Session.address hsession).trans hregion⟩

end Dfu

end FirmwareUpdate
