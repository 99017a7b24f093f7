/-
The law of the bus reset.  It resets the board exactly if there is a cause that no reset since
has used up: a detach that was accepted, or a manifestation that finished and behind which the
device is idle.  A transfer that it interrupts becomes an error; nothing else changes.
-/
import Mathlib.Data.List.Induction
import FirmwareUpdate.Proofs.Dfu.Leaving

namespace FirmwareUpdate

namespace Dfu

/-- A bus reset finds a device in the middle of a transfer, or leaves its state as it is. -/
theorem Phase.Coherent.afterReset_eq {phase : Phase} (h : phase.Coherent) :
    phase.afterReset =
      if phase ∈ [.downloadSync, .downloadIdle, .manifestSync, .uploadIdle] then .error .usbReset
      else phase := by
  cases h <;> rfl

theorem Phase.stage_afterReset_beq_idle (phase : Phase) :
    (phase.afterReset.stage == .idle) = (phase.stage == .idle) := by
  obtain ⟨stage, code⟩ := phase
  cases stage <;> rfl

namespace Device

/-- Whether something has happened in a run behind which the board was not reset again. -/
def Pending (d : Device) (event : Device → Step → Bool) (steps : List Step) : Prop :=
  ∃ before s later, steps = before ++ s :: later ∧ event (d.after before) s = true ∧
    .busReset ∉ (d.after (before ++ [s])).calls later

variable {d : Device} {event : Device → Step → Bool} {r : Request}

theorem leavesAt_iff (d : Device) (s : Step) :
    d.leavesAt s = true ↔ .busReset ∈ (d.step s).calls := by
  rw [leavesAt, List.any_eq_true]
  constructor
  · rintro ⟨call, hcall, hreset⟩
    cases call with
    | busReset => exact hcall
    | _ => cases hreset
  · intro hcall
    exact ⟨.busReset, hcall, rfl⟩

/-- What is pending behind one more step is what happens there, and what was pending before if
the board is not reset. -/
theorem pending_concat (d : Device) (event : Device → Step → Bool) (steps : List Step) (s : Step) :
    d.Pending event (steps ++ [s]) ↔
      event (d.after steps) s = true ∨
        d.Pending event steps ∧ (d.after steps).leavesAt s = false := by
  have hlast (steps : List Step) : (d.after steps).leavesAt s = false ↔
      .busReset ∉ ((d.after steps).step s).calls := by
    rw [← Bool.not_eq_true, leavesAt_iff]
  constructor
  · rintro ⟨before, t, later, hsteps, hevent, hcalls⟩
    rcases List.eq_nil_or_concat later with rfl | ⟨rest, last, rfl⟩
    · obtain ⟨rfl, hs⟩ := List.append_inj' hsteps rfl
      cases hs
      exact .inl hevent
    · rw [List.concat_eq_append] at hsteps hcalls
      rw [← List.cons_append, ← List.append_assoc] at hsteps
      obtain ⟨rfl, hs⟩ := List.append_inj' hsteps rfl
      cases hs
      rw [calls_concat, List.mem_append, not_or, ← after_append, List.append_assoc] at hcalls
      exact .inr ⟨⟨before, t, rest, rfl, hevent, hcalls.1⟩, (hlast _).mpr hcalls.2⟩
  · rintro (hevent | ⟨⟨before, t, later, rfl, hevent, hcalls⟩, hstays⟩)
    · exact ⟨steps, s, [], rfl, hevent, List.not_mem_nil⟩
    · refine ⟨before, t, later ++ [s], by simp, hevent, ?_⟩
      rw [calls_concat, List.mem_append, not_or, ← after_append, List.append_assoc]
      exact ⟨hcalls, (hlast _).mp hstays⟩

theorem past_concat (d : Device) (past : Past) (steps : List Step) (s : Step) :
    d.past past (steps ++ [s]) = (d.past past steps).next (d.after steps) s := by
  induction steps generalizing d past with
  | nil => rfl
  | cons first steps ih => exact ih (d.step first).device (past.next d first)

/-- A flag of the past that an event sets, and a reset of the board clears, tells whether the
event is pending. -/
theorem past_iff_pending (flag : Past → Bool) (hnone : flag {} = false)
    (hnext : ∀ past d s, flag (Past.next past d s) = (event d s || flag past && !d.leavesAt s))
    (d : Device) (steps : List Step) :
    flag (d.past {} steps) = true ↔ d.Pending event steps := by
  induction steps using List.reverseRecOn with
  | nil =>
      constructor
      · intro h
        cases hnone.symm.trans h
      · rintro ⟨before, s, later, hsteps, -⟩
        cases List.append_eq_nil_iff.mp hsteps.symm |>.2
  | append_singleton steps s ih =>
      rw [past_concat, hnext, pending_concat, ← ih, Bool.or_eq_true, Bool.and_eq_true,
        Bool.not_eq_true']

theorem busReset_eq (d : Device) :
    d.step .busReset =
      ⟨d.withSession
        { d.session with
          phase := d.session.phase.afterReset
          detachArmed := d.session.detachArmed && !d.session.leaves
          manifested := d.session.manifested && !d.session.leaves }, .done,
        if d.session.leaves then [.busReset] else []⟩ := by
  cases hleaves : d.session.leaves with
  | true =>
      rw [step, busReset_of_leaves hleaves, Bool.not_true, Bool.and_false, Bool.and_false]
      rfl
  | false =>
      rw [step, busReset_of_stays hleaves, Bool.not_false, Bool.and_true, Bool.and_true]
      rfl

/-- A cause is used up by the reset of the board that it brings about. -/
theorem not_pending_of_leaves {steps : List Step} (h : (d.after steps).leavesAt .busReset = true)
    (hevent : event (d.after steps) .busReset = false) :
    ¬ d.Pending event (steps ++ [.busReset]) := by
  rw [pending_concat, hevent, h]
  simp

/-- A bus reset that follows another one at once finds no cause left. -/
theorem busReset_busReset (d : Device) : ((d.step .busReset).device.step .busReset).calls = [] := by
  have hstays : (d.step .busReset).device.session.leaves = false := by
    simp only [busReset_eq, withSession, Session.leaves, Phase.stage_afterReset_beq_idle]
    cases d.session.detachArmed <;> cases d.session.manifested <;>
      cases d.session.phase.stage == .idle <;> rfl
  rw [busReset_eq, hstays]
  rfl

/-- A request with a code that is none of the protocol is refused. -/
theorem step_of_unknown {s : Step} (h : s.request? d.setup.interface = some r)
    (hunknown : Command.ofCode? r.isInput r.code = none) : d.step s = d.refuse := by
  simp only [step_of_request h, command, hunknown]
  rfl

end Device

/-- At a bus reset the board is reset, once, exactly if a detach was accepted since it was last
reset, or a manifestation finished since and the device is idle.  Both causes are used up then,
and another bus reset right behind it never resets the board.  A bus reset turns the state of a
transfer under way into an error, and leaves all the rest of the device and the board as it was.
A request to detach does nothing but arm the bus reset, whatever the device is doing; where it
is not offered it is refused as an unknown one. -/
theorem busReset_of_run (setup : Setup) (cipher : Cipher) (board : Board) (steps : List Step) :
    let first := Device.start setup cipher board
    let d := first.after steps
    let outcome := d.step .busReset
    let caused := first.Pending Device.detachesAt steps ∨
      first.Pending Device.manifestsAt steps ∧ d.session.phase = .idle
    (caused → outcome.calls = [.busReset] ∧
      ¬ first.Pending Device.detachesAt (steps ++ [.busReset]) ∧
      ¬ first.Pending Device.manifestsAt (steps ++ [.busReset])) ∧
    (¬ caused → outcome.calls = []) ∧
    (outcome.device.step .busReset).calls = [] ∧
    (∃ armed manifested, outcome.device =
      d.withSession
        { d.session with
          phase :=
            if d.session.phase ∈ [.downloadSync, .downloadIdle, .manifestSync, .uploadIdle] then
              .error .usbReset
            else d.session.phase
          detachArmed := armed
          manifested := manifested }) ∧
    ∀ s r, s.request? setup.interface = some r →
      (Command.ofCode? r.isInput r.code = some .detach → d.step s =
        if setup.profile.detaches then
          ⟨d.withSession { d.session with detachArmed := true }, .accepted, []⟩
        else d.refuse) ∧
      (Command.ofCode? r.isInput r.code = none → d.step s = d.refuse) := by
  intro first d outcome caused
  have hrecalls : Recalls (first.past {} steps) d := (Recalls.start setup cipher board).run steps
  have hcoherent : d.session.phase.Coherent := Device.coherent_after .idle steps
  have hsetup : d.setup = setup := first.after_setup steps
  have hdetached : (first.past {} steps).detached = true ↔ first.Pending Device.detachesAt steps :=
    Device.past_iff_pending Past.detached rfl (fun _ _ _ => rfl) first steps
  have hmanifested :
      (first.past {} steps).manifested = true ↔ first.Pending Device.manifestsAt steps :=
    Device.past_iff_pending Past.manifested rfl (fun _ _ _ => rfl) first steps
  have hleaves : d.session.leaves = true ↔ caused := by
    rw [Session.leaves, hrecalls.detached, hrecalls.manifested, Bool.or_eq_true,
      Bool.and_eq_true, beq_iff_eq, hcoherent.stage_eq_idle_iff, hdetached, hmanifested]
  have hcalls : outcome.calls = if d.session.leaves then [.busReset] else [] :=
    congrArg Outcome.calls d.busReset_eq
  refine ⟨?_, ?_, d.busReset_busReset, ?_, ?_⟩
  · intro hcaused
    rw [← hleaves] at hcaused
    rw [hcaused] at hcalls
    have hused : d.leavesAt .busReset = true := by
      rw [Device.leavesAt_iff]
      exact hcalls ▸ List.mem_singleton_self _
    have hnot : d.manifestsAt .busReset = false := by
      rw [Device.manifestsAt]
      change (outcome.calls.any Call.isManifest && _) = false
      rw [hcalls]
      rfl
    exact ⟨hcalls, Device.not_pending_of_leaves hused rfl, Device.not_pending_of_leaves hused hnot⟩
  · intro hcaused
    rw [← hleaves, Bool.not_eq_true] at hcaused
    rw [hcalls, hcaused]
    rfl
  · rw [← hcoherent.afterReset_eq]
    exact ⟨_, _, congrArg Outcome.device d.busReset_eq⟩
  · intro s r harrives
    rw [← hsetup] at harrives ⊢
    exact ⟨Device.step_of_detach harrives, Device.step_of_unknown harrives⟩

/-- A detach that is armed in an error, and a download that the bus reset interrupts: the board
is reset, and the download is an error. -/
theorem busReset_of_run_armed_in_error :
    let setup : Setup := ⟨{}, 0, ⟨0, 64⟩, none⟩
    let board : Board := ⟨⟨0, List.replicate 64 0xFF⟩, ⟨0, []⟩, {}, none, none, none⟩
    let detach : Step := .control { type := 0x21, code := 0, index := 0 }
    let clear : Step := .control { type := 0x21, code := 4, index := 0 }
    let download : Step :=
      .control { type := 0x21, code := 1, index := 0, length := 2, data := [0xAA, 0xBB] }
    let steps := [.markCorruptFirmware, detach, clear, download]
    let first := Device.start setup ⟨.plain, .ecb, .plain⟩ board
    let outcome := (first.after steps).step .busReset
    first.Pending Device.detachesAt steps ∧ outcome.calls = [.busReset] ∧
      ¬ first.Pending Device.detachesAt (steps ++ [.busReset]) ∧
      (outcome.device.step .busReset).calls = [] ∧
      outcome.device.session.phase = .error .usbReset ∧
      outcome.device.session.address = 2 := by
  intro setup board detach clear download steps first outcome
  have hpending : first.Pending Device.detachesAt steps :=
    ⟨[.markCorruptFirmware], detach, [clear, download], rfl, by decide +kernel, by decide +kernel⟩
  obtain ⟨hcaused, -, hagain, ⟨armed, manifested, hdevice⟩, -⟩ :=
    busReset_of_run setup ⟨.plain, .ecb, .plain⟩ board steps
  obtain ⟨hcalls, hused, -⟩ := hcaused (.inl hpending)
  have hphase : (first.after steps).session.phase = .downloadIdle := by decide +kernel
  have haddress : (first.after steps).session.address = 2 := by decide +kernel
  refine ⟨hpending, hcalls, hused, hagain, ?_, ?_⟩
  · exact (congrArg (·.session.phase) hdevice).trans (by rw [Device.withSession, hphase])
  · exact (congrArg (·.session.address) hdevice).trans haddress

end Dfu

end FirmwareUpdate
