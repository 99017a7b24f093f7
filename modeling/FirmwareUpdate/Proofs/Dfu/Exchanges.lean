/-
What passes between a host and a bootloader.  A block that a download takes in, and a frame
that an upload hands to the bus with the bytes that were read for it, are all that a step
can move; every other step leaves a transfer where it is, or ends it.
-/
import FirmwareUpdate.Proofs.Dfu.Requests
import FirmwareUpdate.Proofs.Dfu.Sessions

namespace FirmwareUpdate

namespace Dfu

/-- The request that a step brings to the bootloader on an interface; data that do not fit
the bus never arrive. -/
def Step.request? (interface : UInt8) : Step → Option Request
  | .control r =>
      if r.isFor interface && (r.isInput || r.data.length ≤ controlBuffer) then some r else none
  | _ => none

/-- The bytes that a call gets from the memory. -/
def Device.readBytes (d : Device) : Call → Bytes
  | .read address length => (d.board.read address length).toOption.getD []
  | _ => []

/-- The bytes of an answer. -/
def Answer.bytes : Answer → Bytes
  | .reply data => data
  | _ => []

/-- What a step moves: the block that a download takes in, the bytes that an upload reads, and
the frame that it hands to the bus. -/
structure Exchange where
  received : Bytes := []
  fetched : Bytes := []
  replied : Bytes := []
deriving DecidableEq, Repr

/-- What a step moves to or from a device.  A block is taken in if the device waits for the next
one behind it.  A frame counts as the device hands it over, before the bus cuts it. -/
def Device.exchange (d : Device) (s : Step) : Exchange :=
  match s.request? d.setup.interface with
  | none => {}
  | some r =>
      match Command.ofCode? r.isInput r.code with
      | some .download =>
          let outcome := d.download r.data
          { received := if outcome.device.session.phase.takesDownload then r.data else [] }
      | some .upload =>
          let outcome := d.upload r.length.toNat
          { fetched := outcome.calls.flatMap d.readBytes, replied := outcome.answer.bytes }
      | _ => {}

/-- What a step can do to a transfer: end it, leave it where it is, or take it one block or one
frame further. -/
inductive Progress (d : Device) : Exchange → Device → Prop
  | closed {e : Exchange} {d' : Device}
      (h : d'.session.phase = .idle ∨ ∃ code, d'.session.phase = .error code) : Progress d e d'
  | still {phase : Phase} {armed : Bool} {board : Board}
      (h : phase = d.session.phase ∨
        d.session.phase.takesDownload = true ∧ phase.downloads = true) :
      Progress d {}
        { d with
          session := { d.session with phase := phase, detachArmed := armed }
          board := board }
  | block {data plain : Bytes} {cipher : Cipher} {board : Board}
      (h : d.TakesBlock data plain cipher) :
      Progress d { received := data }
        { d with
          session :=
            { ((d.session.loaded data).received plain cipher).advance data.length with
              phase := d.programmedPhase }
          board := board }
  | frame {length : Nat} {data secret : Bytes} {cipher : Cipher}
      (h : d.SendsFrame length data secret cipher) :
      Progress d { fetched := data, replied := secret }
        (d.withSession (d.sentSession (d.nextFrame length) data secret cipher))

theorem Progress.stay (d : Device) : Progress d {} d :=
  .still (d := d) (.inl rfl)

namespace Device

variable {d : Device} {r : Request} {s : Step}

/-- A request that arrives is carried out, and its answer goes back over the bus. -/
theorem step_of_request (h : s.request? d.setup.interface = some r) :
    d.step s =
      { d.command r with answer := deliver r.length.toNat (d.command r).answer } := by
  cases s with
  | control r' =>
      simp only [Step.request?, Option.ite_none_right_eq_some, Option.some.injEq,
        Bool.and_eq_true, Bool.or_eq_true, decide_eq_true_eq] at h
      obtain ⟨⟨hfor, hfits⟩, rfl⟩ := h
      exact control_of_fits hfor hfits
  | _ => cases h

/-- A request that does not arrive changes nothing. -/
theorem step_of_no_request (h : (Step.control r).request? d.setup.interface = none) :
    ∃ answer, d.step (.control r) = ⟨d, answer, []⟩ := by
  cases hfor : r.isFor d.setup.interface with
  | false => exact step_of_foreign (.control r hfor)
  | true =>
      simp only [Step.request?, hfor, Bool.true_and, ite_eq_right_iff, reduceCtorEq, imp_false,
        Bool.or_eq_true, decide_eq_true_eq, not_or, Bool.not_eq_true, Nat.not_le] at h
      obtain ⟨hinput, hlong⟩ := h
      refine ⟨.ignored, ?_⟩
      simp only [step, control, hinput, hlong, Bool.not_false, decide_true, Bool.and_self,
        ↓reduceIte]

/-- The calls of a fetch read what it gives. -/
theorem readBytes_fetchCalls {count : Nat} {data : Bytes} (h : d.fetch count = .ok data) :
    (d.fetchCalls count).flatMap d.readBytes = data := by
  unfold fetch at h
  unfold fetchCalls
  split at h
  next hzero =>
      cases h
      rw [if_pos hzero, List.flatMap_nil]
  next hpos =>
      rw [if_neg hpos, List.flatMap_singleton, readBytes, h]
      rfl

theorem download_progress (d : Device) (data : Bytes) :
    Progress d
      { received :=
          if (d.download data).device.session.phase.takesDownload then data else [] }
      (d.download data).device := by
  apply download_cases (motive := fun outcome =>
    Progress d
      { received := if outcome.device.session.phase.takesDownload then data else [] }
      outcome.device)
  case refused => exact .closed (.inr ⟨_, rfl⟩)
  case final => exact fun hphase => .still (d := d) (.inr ⟨hphase, rfl⟩)
  case pastEnd => exact fun _ _ => .closed (.inr ⟨_, rfl⟩)
  case misfit => exact fun _ _ _ => .closed (.inr ⟨_, rfl⟩)
  case notProgrammed => exact fun _ _ _ _ _ => .closed (.inr ⟨_, rfl⟩)
  case programmed =>
      intro plain cipher board htakes hboard
      have hphase : d.programmedPhase.takesDownload = true := by
        unfold programmedPhase
        split <;> rfl
      simp only [hphase, ↓reduceIte]
      exact .block htakes

theorem upload_progress (d : Device) (length : Nat) :
    Progress d
      { fetched := (d.upload length).calls.flatMap d.readBytes
        replied := (d.upload length).answer.bytes }
      (d.upload length).device := by
  apply upload_cases (motive := fun outcome =>
    Progress d
      { fetched := outcome.calls.flatMap d.readBytes, replied := outcome.answer.bytes }
      outcome.device)
  case refused => exact .closed (.inr ⟨_, rfl⟩)
  case finished => exact fun _ => .closed (.inl rfl)
  case notFetched => exact fun _ _ _ => .closed (.inr ⟨_, rfl⟩)
  case frame =>
      intro data secret cipher hsends
      simp only [readBytes_fetchCalls hsends.fetch]
      exact .frame hsends

theorem getStatus_progress (d : Device) (length : Nat) :
    Progress d {} (d.getStatus length).device := by
  apply getStatus_cases (motive := fun outcome => Progress d {} outcome.device)
  case refused => exact .closed (.inr ⟨_, rfl⟩)
  case resumed =>
      intro hphase
      have htakes : d.session.phase.takesDownload = true := by
        rw [Phase.takesDownload, hphase]
      exact .still (d := d) (.inr ⟨htakes, rfl⟩)
  case notManifested => exact fun _ _ _ => .closed (.inr ⟨_, rfl⟩)
  case manifested => exact fun _ _ => .closed (.inl rfl)
  case told => exact .stay d

theorem setInterface_progress (d : Device) (alternate index : UInt16) :
    Progress d {} (d.setInterface alternate index).device := by
  apply setInterface_cases (motive := fun outcome => Progress d {} outcome.device)
  case same => exact fun _ => .stay d
  case selected => exact fun _ _ => .closed (.inl rfl)

theorem busReset_progress (hcoherent : d.session.phase.Coherent) :
    Progress d {} d.busReset.device := by
  have hphase := hcoherent.idle_or_error_of_afterReset
  cases hleaves : d.session.leaves with
  | true =>
      rw [busReset_of_leaves hleaves]
      exact .closed hphase
  | false =>
      rw [busReset_of_stays hleaves]
      exact .closed hphase

theorem request_progress (h : s.request? d.setup.interface = some r) :
    Progress d (d.exchange s) (d.command r).device := by
  simp only [exchange, h]
  apply command_cases (motive := fun outcome => Progress d _ outcome.device)
  case refused => exact .closed (.inr ⟨_, rfl⟩)
  case detached =>
      intro hdetach hable
      rw [hdetach]
      exact .still (d := d) (.inl rfl)
  case download =>
      intro hdownload
      rw [hdownload]
      exact d.download_progress r.data
  case upload =>
      intro hupload
      rw [hupload]
      exact d.upload_progress r.length.toNat
  case getStatus =>
      intro hstatus
      rw [hstatus]
      exact d.getStatus_progress r.length.toNat
  case getState =>
      intro hstate
      rw [hstate]
      exact .stay d
  case restarted => exact .closed (.inl rfl)

/-- What a step moves is what its transfer is taken further by. -/
theorem step_progress (hcoherent : d.session.phase.Coherent) (s : Step) :
    Progress d (d.exchange s) (d.step s).device := by
  cases s with
  | control r =>
      cases harrives : (Step.control r).request? d.setup.interface with
      | none =>
          obtain ⟨answer, hstep⟩ := step_of_no_request harrives
          rw [hstep, exchange, harrives]
          exact .stay d
      | some r =>
          rw [step_of_request harrives]
          exact request_progress harrives
  | setInterface alternate index => exact d.setInterface_progress alternate index
  | getInterface index =>
      simp only [exchange, Step.request?, step, getInterface]
      split
      · exact .stay d
      · split
        · exact .stay d
        · exact .stay d
  | getDescriptor query => exact .stay d
  | busReset => exact busReset_progress hcoherent
  | markPowerOnReset => exact .closed (.inr ⟨_, rfl⟩)
  | markCorruptFirmware => exact .closed (.inr ⟨_, rfl⟩)
  | failProgram fault => exact .still (d := d) (.inl rfl)
  | failRead fault => exact .still (d := d) (.inl rfl)
  | failManifest fault => exact .still (d := d) (.inl rfl)

end Device

end Dfu

end FirmwareUpdate
