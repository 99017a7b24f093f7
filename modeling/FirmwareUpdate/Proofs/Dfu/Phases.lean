/-
The phases that a bootloader gets to.  Of the states of the protocol it uses six, and it keeps an
error code exactly in the error state; neither follows from what a phase is made of.
-/
import FirmwareUpdate.Dfu.Status

namespace FirmwareUpdate

namespace Dfu

namespace Phase

/-- The phases in which the state is one of the six and the error code fits it. -/
inductive Coherent : Phase → Prop
  | idle : Coherent .idle
  | downloadSync : Coherent .downloadSync
  | downloadIdle : Coherent .downloadIdle
  | manifestSync : Coherent .manifestSync
  | uploadIdle : Coherent .uploadIdle
  | error (code : ErrorCode) : Coherent (.error code)

/-- Whether a download is under way. -/
def downloads (phase : Phase) : Bool :=
  match phase.stage with
  | .downloadSync | .downloadIdle | .manifestSync => true
  | _ => false

/-- The phase behind a bus reset. -/
def afterReset (phase : Phase) : Phase :=
  if phase.interruptible then .error .usbReset else phase

variable {phase : Phase}

/-- Where a block may come, or a frame be asked for, so may the status, and nothing waits to be
manifested. -/
theorem takesStatus_of_takes (h : phase.takesDownload = true ∨ phase.takesUpload = true) :
    phase.takesStatus = true ∧ phase.stage ≠ .manifestSync := by
  obtain ⟨stage, code⟩ := phase
  cases stage <;> simp [takesDownload, takesUpload, takesStatus] at h ⊢

/-- A bus reset leaves a device as it is, or in an error. -/
theorem afterReset_cases (phase : Phase) :
    phase.afterReset = phase ∨ phase.afterReset = .error .usbReset := by
  unfold afterReset
  split
  · exact .inr rfl
  · exact .inl rfl

/-- It makes no device idle. -/
theorem eq_idle_of_afterReset (h : phase.afterReset = .idle) : phase = .idle := by
  rcases phase.afterReset_cases with hsame | herror
  · exact hsame.symm.trans h
  · cases herror.symm.trans h

namespace Coherent

/-- Outside of the error state there is no error code. -/
theorem eq_of_stage (h : phase.Coherent) {stage : Stage} (hstage : phase.stage = stage)
    (hne : stage ≠ .error) : phase = { stage := stage } := by
  subst hstage
  cases h with
  | error code => exact absurd rfl hne
  | _ => rfl

theorem stage_eq_idle_iff (h : phase.Coherent) : phase.stage = .idle ↔ phase = .idle := by
  constructor
  · intro hstage
    exact h.eq_of_stage hstage nofun
  · rintro rfl
    rfl

/-- The state that is reported is one of six. -/
theorem state_mem (h : phase.Coherent) : phase.state ∈ [2, 3, 5, 6, 9, 10] := by
  cases h <;> simp [state, Stage.byte]

/-- The status that is reported tells of an error exactly in the error state. -/
theorem status_eq_zero_iff (h : phase.Coherent) : phase.status = 0 ↔ phase.state ≠ 10 := by
  cases h with
  | error code => cases code <;> decide
  | _ => decide

theorem takesStatus (h : phase.Coherent) : phase.takesStatus = true := by
  cases h <;> rfl

theorem idle_or_downloads (h : phase.Coherent) (htakes : phase.takesDownload = true) :
    phase = .idle ∨ phase.downloads = true := by
  cases h with
  | idle => exact .inl rfl
  | downloadSync => exact .inr rfl
  | downloadIdle => exact .inr rfl
  | _ => cases htakes

theorem idle_or_uploads (h : phase.Coherent) (htakes : phase.takesUpload = true) :
    phase = .idle ∨ phase = .uploadIdle := by
  cases h with
  | idle => exact .inl rfl
  | uploadIdle => exact .inr rfl
  | _ => cases htakes

/-- A device is idle behind a bus reset, or in an error. -/
theorem idle_or_error_of_afterReset (h : phase.Coherent) :
    phase.afterReset = .idle ∨ ∃ code, phase.afterReset = .error code := by
  cases h with
  | idle => exact .inl rfl
  | error code => exact .inr ⟨code, rfl⟩
  | _ => exact .inr ⟨.usbReset, rfl⟩

/-- Behind a bus reset no download is under way. -/
theorem downloads_afterReset (h : phase.Coherent) : phase.afterReset.downloads = false := by
  rcases h.idle_or_error_of_afterReset with hidle | ⟨code, hcode⟩
  · rw [hidle]
    rfl
  · rw [hcode]
    rfl

protected theorem afterReset (h : phase.Coherent) : phase.afterReset.Coherent := by
  rcases phase.afterReset_cases with hsame | herror
  · rw [hsame]
    exact h
  · rw [herror]
    exact .error .usbReset

end Coherent

end Phase

end Dfu

end FirmwareUpdate
