/-
The requests that a host sends around the blocks of a transfer: those that only ask how
the bootloader is, and those that are meant for somebody else.
-/
import FirmwareUpdate.Dfu.Bus

namespace FirmwareUpdate

namespace Dfu

namespace Request

/-- Whether a request to an interface carries a command. -/
def Carries (r : Request) (interface : UInt8) (command : Command) : Prop :=
  r.isFor interface = true ∧ Command.ofCode? r.isInput r.code = some command

instance (r : Request) (interface : UInt8) (command : Command) :
    Decidable (r.Carries interface command) :=
  inferInstanceAs (Decidable (_ ∧ _))

/-- Whether a request asks for the status or the state, with room for all of it. -/
def Polls (r : Request) (interface : UInt8) : Prop :=
  (r.Carries interface .getStatus ∧ 6 ≤ r.length.toNat) ∨
    (r.Carries interface .getState ∧ 1 ≤ r.length.toNat)

end Request

/-- Whether a step is none of the business of the bootloader on an interface. -/
inductive Step.Foreign (interface : UInt8) : Step → Prop
  | control (r : Request) (h : r.isFor interface = false) : Foreign interface (.control r)
  | setInterface (alternate index : UInt16) (h : index ≠ interface.toUInt16) :
      Foreign interface (.setInterface alternate index)
  | getInterface (index : UInt16) : Foreign interface (.getInterface index)
  | getDescriptor (query : Query) : Foreign interface (.getDescriptor query)

theorem Command.input_of_ofCode? {input : Bool} {code : UInt8} {command : Command}
    (h : ofCode? input code = some command)
    (hcommand : command = .upload ∨ command = .getStatus ∨ command = .getState) :
    input = true := by
  cases input with
  | true => rfl
  | false =>
      unfold ofCode? at h
      simp only [Bool.false_eq_true, ↓reduceIte] at h
      split at h
      · cases h
        simp at hcommand
      · split at h
        · cases h
          simp at hcommand
        · split at h
          · cases h
            simp at hcommand
          · split at h
            · cases h
              simp at hcommand
            · cases h

/-- A number of an interface is not changed by its way over the bus. -/
theorem toUInt16_toUInt8 {index : UInt16} (h : ¬ maxNumber < index) :
    index.toUInt8.toUInt16 = index := by
  have hsmall : ¬ maxNumber.toNat < index.toNat := mt UInt16.lt_iff_toNat_lt.mpr h
  have hmax : maxNumber.toNat = 255 := rfl
  apply UInt16.toNat_inj.mp
  rw [UInt8.toNat_toUInt16, UInt16.toNat_toUInt8]
  omega

namespace Device

variable {d : Device} {r : Request} {command : Command}

/-- A request of the protocol whose data fit the bus reaches the bootloader. -/
theorem control_of_fits (h : r.isFor d.setup.interface = true)
    (hfits : r.isInput = true ∨ r.data.length ≤ controlBuffer) :
    d.control r =
      { d.command r with answer := deliver r.length.toNat (d.command r).answer } := by
  have hguard : (!r.isInput && decide (controlBuffer < r.data.length)) = false := by
    rcases hfits with hinput | hdata
    · rw [hinput]
      rfl
    · rw [decide_eq_false (Nat.not_lt.mpr hdata), Bool.and_false]
  simp only [control, hguard, h, Bool.not_true, Bool.false_eq_true, ↓reduceIte]

theorem deliver_of_fits {length : Nat} {data : Bytes} (hbuffer : data.length ≤ controlBuffer)
    (hlength : data.length ≤ length) : deliver length (.reply data) = .reply data := by
  simp only [deliver, Nat.not_lt.mpr hbuffer, ↓reduceIte, List.take_of_length_le hlength]

theorem step_of_download (h : r.Carries d.setup.interface .download)
    (hfits : r.data.length ≤ controlBuffer) :
    d.step (.control r) =
      { d.download r.data with
        answer := deliver r.length.toNat (d.download r.data).answer } := by
  simp only [step, control_of_fits h.1 (Or.inr hfits), Device.command, h.2]

theorem step_of_upload (h : r.Carries d.setup.interface .upload) :
    d.step (.control r) =
      { d.upload r.length.toNat with
        answer := deliver r.length.toNat (d.upload r.length.toNat).answer } := by
  have hinput := Command.input_of_ofCode? h.2 (Or.inl rfl)
  simp only [step, control_of_fits h.1 (Or.inl hinput), Device.command, h.2]

theorem step_of_getStatus (h : r.Carries d.setup.interface .getStatus) :
    d.step (.control r) =
      { d.getStatus r.length.toNat with
        answer := deliver r.length.toNat (d.getStatus r.length.toNat).answer } := by
  have hinput := Command.input_of_ofCode? h.2 (Or.inr (Or.inl rfl))
  simp only [step, control_of_fits h.1 (Or.inl hinput), Device.command, h.2]

theorem step_of_getState (h : r.Carries d.setup.interface .getState) :
    d.step (.control r) =
      { d.getState r.length.toNat with
        answer := deliver r.length.toNat (d.getState r.length.toNat).answer } := by
  have hinput := Command.input_of_ofCode? h.2 (Or.inr (Or.inr rfl))
  simp only [step, control_of_fits h.1 (Or.inl hinput), Device.command, h.2]

/-- A step that is none of its business leaves a bootloader as it is. -/
theorem step_of_foreign {s : Step} (h : s.Foreign d.setup.interface) :
    ∃ answer, d.step s = ⟨d, answer, []⟩ := by
  cases h with
  | control r hfor =>
      simp only [step, control, hfor, Bool.not_false, ↓reduceIte]
      split
      · exact ⟨.ignored, rfl⟩
      · exact ⟨.stalled, rfl⟩
  | setInterface alternate index hindex =>
      by_cases hrange : maxNumber < index ∨ maxNumber < alternate
      · simp only [step, setInterface, hrange, ↓reduceIte]
        exact ⟨.stalled, rfl⟩
      · have hother : index.toUInt8 ≠ d.setup.interface := by
          intro heq
          apply hindex
          rw [← heq, toUInt16_toUInt8 (fun hlt => hrange (Or.inl hlt))]
        simp only [step, setInterface, hrange, hother, ↓reduceIte]
        exact ⟨_, rfl⟩
  | getInterface index =>
      simp only [step, getInterface]
      split
      · exact ⟨.stalled, rfl⟩
      · split
        · exact ⟨_, rfl⟩
        · exact ⟨_, rfl⟩
  | getDescriptor query => exact ⟨_, rfl⟩

theorem getStatus_of_fits {length : Nat} (hlength : 6 ≤ length)
    (htakes : d.session.phase.takesStatus = true)
    (hphase : d.session.phase.stage ≠ .manifestSync) :
    d.getStatus length =
      ⟨if d.session.phase.stage = .downloadSync then d.inPhase .downloadIdle else d,
        .reply (d.session.report d.setup), []⟩ := by
  simp only [getStatus, Nat.not_lt.mpr hlength, htakes, decide_false, Bool.not_true, Bool.or_self,
    Bool.false_eq_true, ↓reduceIte]
  split
  next hsync => rw [if_pos hsync]
  next hmanifest => exact absurd hmanifest hphase
  next hsync _ => rw [if_neg hsync]

theorem length_report (s : Session) (setup : Setup) : (s.report setup).length = 6 := by
  simp [Session.report]

/-- The bus hands over a report of the status as it is. -/
theorem deliver_report (s : Session) (setup : Setup) {length : Nat} (hlength : 6 ≤ length) :
    deliver length (.reply (s.report setup)) = .reply (s.report setup) := by
  apply deliver_of_fits
  · rw [length_report]
    decide
  · rw [length_report]
    exact hlength

theorem step_of_getStatus_of_fits (h : r.Carries d.setup.interface .getStatus)
    (hlength : 6 ≤ r.length.toNat) (htakes : d.session.phase.takesStatus = true)
    (hphase : d.session.phase.stage ≠ .manifestSync) :
    d.step (.control r) =
      ⟨if d.session.phase.stage = .downloadSync then d.inPhase .downloadIdle else d,
        .reply (d.session.report d.setup), []⟩ := by
  rw [step_of_getStatus h, getStatus_of_fits hlength htakes hphase, deliver_report _ _ hlength]

theorem step_of_getState_of_fits (h : r.Carries d.setup.interface .getState)
    (hlength : 1 ≤ r.length.toNat) :
    d.step (.control r) = ⟨d, .reply [d.session.phase.state], []⟩ := by
  have hnonzero : r.length.toNat ≠ 0 := by omega
  have hdeliver : deliver r.length.toNat (.reply [d.session.phase.state]) =
      .reply [d.session.phase.state] := by
    apply deliver_of_fits
    · exact Nat.le_of_ble_eq_true rfl
    · exact hlength
  rw [step_of_getState h]
  simp only [getState, hnonzero, hdeliver, ↓reduceIte]

/-- Asking how the bootloader is, while nothing waits to be manifested, is answered, calls
nothing, and changes at most that a synchronised download waits for its next block. -/
theorem step_of_polls (h : r.Polls d.setup.interface)
    (htakes : d.session.phase.takesStatus = true)
    (hphase : d.session.phase.stage ≠ .manifestSync) :
    ∃ data, d.step (.control r) = ⟨d, .reply data, []⟩ ∨
      d.session.phase.stage = .downloadSync ∧
        d.step (.control r) = ⟨d.inPhase .downloadIdle, .reply data, []⟩ := by
  rcases h with ⟨hcarries, hlength⟩ | ⟨hcarries, hlength⟩
  · refine ⟨d.session.report d.setup, ?_⟩
    rw [step_of_getStatus_of_fits hcarries hlength htakes hphase]
    by_cases hsync : d.session.phase.stage = .downloadSync
    · rw [if_pos hsync]
      exact Or.inr ⟨hsync, rfl⟩
    · rw [if_neg hsync]
      exact Or.inl rfl
  · exact ⟨_, Or.inl (step_of_getState_of_fits hcarries hlength)⟩

end Device

end Dfu

end FirmwareUpdate
