/-
Synchronised downloads show in what is reported alone.  A device that waits behind each block
until it is asked for the status differs from one that waits for the next block at once in a
byte of some replies; and so does a device that was asked in between from one that was not.
-/
import FirmwareUpdate.Proofs.Dfu.Exchanges

namespace FirmwareUpdate

namespace Dfu

/-- The setup with synchronised downloads, or without. -/
def Setup.withSyncs (setup : Setup) (syncs : Bool) : Setup :=
  { setup with profile := { setup.profile with syncs := syncs } }

/-- The device of such a setup. -/
def Device.withSyncs (d : Device) (syncs : Bool) : Device :=
  { d with setup := d.setup.withSyncs syncs }

/-- Where the reply to a step tells the state. -/
def Step.statePlace? (interface : UInt8) (s : Step) : Option Nat :=
  (s.request? interface).bind fun r =>
    match Command.ofCode? r.isInput r.code with
    | some .getStatus => some 4
    | some .getState => some 0
    | _ => none

/-- A phase that is at most one request for the status behind another one. -/
def Phase.LagsBehind (phase phase' : Phase) : Prop :=
  phase' = phase ∨ phase = .downloadSync ∧ phase' = .downloadIdle

/-- Two answers that differ at most in a byte at one place: there the first tells that a block
waits to be synchronised, the second that the next block may come. -/
def Answer.LagsBehind (place? : Option Nat) (answer answer' : Answer) : Prop :=
  answer' = answer ∨
    ∃ place data, place? = some place ∧ answer = .reply data ∧
      data[place]? = some Phase.downloadSync.state ∧
      answer' = .reply (data.set place Phase.downloadIdle.state)

/-- Two devices that differ in their phases alone, and in whether downloads are synchronised. -/
inductive Device.LagsBehind (d : Device) : Device → Prop
  | recast (syncs : Bool) (phase : Phase) (hsyncs : syncs = true → d.setup.profile.syncs = true)
      (hphase : d.session.phase.LagsBehind phase) :
      LagsBehind d ((d.withSyncs syncs).inPhase phase)

/-- Two outcomes with the same calls, of two such devices. -/
structure Outcome.LagsBehind (place? : Option Nat) (o o' : Outcome) : Prop where
  answer : o.answer.LagsBehind place? o'.answer
  calls : o'.calls = o.calls
  device : o.device.LagsBehind o'.device

namespace Phase.LagsBehind

variable {phase phase' : Phase}

theorem refl (phase : Phase) : phase.LagsBehind phase :=
  .inl rfl

theorem takesDownload_eq (h : phase.LagsBehind phase') :
    phase'.takesDownload = phase.takesDownload := by
  rcases h with rfl | ⟨rfl, rfl⟩ <;> rfl

theorem takesUpload_eq (h : phase.LagsBehind phase') : phase'.takesUpload = phase.takesUpload := by
  rcases h with rfl | ⟨rfl, rfl⟩ <;> rfl

theorem beq_idle (h : phase.LagsBehind phase') :
    (phase'.stage == .idle) = (phase.stage == .idle) := by
  rcases h with rfl | ⟨rfl, rfl⟩ <;> rfl

theorem afterReset_eq (h : phase.LagsBehind phase') : phase'.afterReset = phase.afterReset := by
  rcases h with rfl | ⟨rfl, rfl⟩ <;> rfl

end Phase.LagsBehind

namespace Answer.LagsBehind

theorem refl (place? : Option Nat) (answer : Answer) : answer.LagsBehind place? answer :=
  .inl rfl

/-- The bus does not add to the difference. -/
theorem deliver {place? : Option Nat} {answer answer' : Answer}
    (h : answer.LagsBehind place? answer') (length : Nat) :
    (Device.deliver length answer).LagsBehind place? (Device.deliver length answer') := by
  rcases h with rfl | ⟨place, data, hplace, rfl, hdata, rfl⟩
  · exact .refl place? _
  · simp only [Device.deliver, List.length_set]
    split
    · exact .refl place? _
    · rw [List.take_set]
      rcases Nat.lt_or_ge place length with hinside | hcut
      · refine .inr ⟨place, data.take length, hplace, rfl, ?_, rfl⟩
        rw [List.getElem?_take_of_lt hinside, hdata]
      · have hlength : (data.take length).length ≤ place :=
          Nat.le_trans (List.length_take_le _ _) hcut
        rw [List.set_eq_of_length_le hlength]
        exact .refl place? _

end Answer.LagsBehind

namespace Outcome.LagsBehind

/-- The same outcome, but for the phase. -/
theorem same {place? : Option Nat} (o : Outcome) {syncs : Bool} {phase : Phase}
    (hsyncs : syncs = true → o.device.setup.profile.syncs = true)
    (hphase : o.device.session.phase.LagsBehind phase) :
    o.LagsBehind place? ⟨(o.device.withSyncs syncs).inPhase phase, o.answer, o.calls⟩ :=
  ⟨.refl place? _, rfl, .recast syncs phase hsyncs hphase⟩

end Outcome.LagsBehind

namespace Device

variable {d : Device} {syncs : Bool} {phase : Phase} {place? : Option Nat}

@[simp] theorem phase_recast (d : Device) (syncs : Bool) (phase : Phase) :
    ((d.withSyncs syncs).inPhase phase).session.phase = phase := rfl

theorem interface_recast (d : Device) (syncs : Bool) (phase : Phase) :
    ((d.withSyncs syncs).inPhase phase).setup.interface = d.setup.interface := rfl

section Commands

variable (hsyncs : syncs = true → d.setup.profile.syncs = true)
  (hphase : d.session.phase.LagsBehind phase)

include hsyncs

theorem refuse_lagsBehind (phase : Phase) :
    d.refuse.LagsBehind place? ((d.withSyncs syncs).inPhase phase).refuse :=
  .same d.refuse hsyncs (.refl _)

theorem programmedPhase_lagsBehind (phase : Phase) :
    d.programmedPhase.LagsBehind ((d.withSyncs syncs).inPhase phase).programmedPhase := by
  have hsetup : ((d.withSyncs syncs).inPhase phase).setup.profile.syncs = syncs := rfl
  simp only [programmedPhase, hsetup]
  cases hcase : syncs with
  | true =>
      rw [hsyncs hcase]
      exact .refl _
  | false =>
      cases d.setup.profile.syncs with
      | true => exact .inr ⟨rfl, rfl⟩
      | false => exact .refl _

include hphase

theorem download_lagsBehind (data : Bytes) :
    (d.download data).LagsBehind place? (((d.withSyncs syncs).inPhase phase).download data) := by
  have htakes : ((d.withSyncs syncs).inPhase phase).session.phase.takesDownload =
      d.session.phase.takesDownload := hphase.takesDownload_eq
  cases d.incoming data with
  | unexpected h =>
      rw [download_of_unexpected h, download_of_unexpected (htakes.trans h)]
      exact refuse_lagsBehind hsyncs phase
  | final h hdata =>
      rw [hdata, download_nil h, download_nil (htakes.trans h)]
      exact .same _ hsyncs (.refl _)
  | tooLong h hdata htransfer =>
      rw [download_of_tooLong h hdata htransfer,
        download_of_tooLong (htakes.trans h) hdata htransfer]
      exact refuse_lagsBehind hsyncs phase
  | pastEnd h hroom =>
      have h' : ((d.withSyncs syncs).inPhase phase).ExpectsBlock data :=
        ⟨htakes.trans h.phase, h.nonempty, h.transfer⟩
      rw [download_of_pastEnd h hroom, download_of_pastEnd h' hroom]
      exact .same _ hsyncs (.refl _)
  | misfit e h hroom he =>
      have h' : ((d.withSyncs syncs).inPhase phase).ExpectsBlock data :=
        ⟨htakes.trans h.phase, h.nonempty, h.transfer⟩
      rw [download_of_misfit h hroom he, download_of_misfit h' hroom he]
      exact .same _ hsyncs (.refl _)
  | block plain cipher h =>
      have h' : ((d.withSyncs syncs).inPhase phase).TakesBlock data plain cipher :=
        ⟨⟨htakes.trans h.phase, h.nonempty, h.transfer⟩, h.room, h.decrypt⟩
      cases hboard : d.board.program d.session.target d.session.address plain with
      | error fault =>
          rw [download_of_not_programmed h hboard, download_of_not_programmed h' hboard]
          exact .same _ hsyncs (.refl _)
      | ok board =>
          rw [download_of_programmed h hboard, download_of_programmed h' hboard]
          exact .same _ hsyncs (programmedPhase_lagsBehind hsyncs phase)

theorem upload_lagsBehind (length : Nat) :
    (d.upload length).LagsBehind place? (((d.withSyncs syncs).inPhase phase).upload length) := by
  have hexpects : ((d.withSyncs syncs).inPhase phase).ExpectsUpload ↔ d.ExpectsUpload := by
    have htakes : ((d.withSyncs syncs).inPhase phase).session.phase.takesUpload =
        d.session.phase.takesUpload := hphase.takesUpload_eq
    exact ⟨fun h => ⟨h.enabled, htakes ▸ h.phase⟩, fun h => ⟨h.enabled, htakes.trans h.phase⟩⟩
  cases d.asked length with
  | unexpected h =>
      rw [upload_of_unexpected h, upload_of_unexpected (mt hexpects.mp h)]
      exact refuse_lagsBehind hsyncs phase
  | finished h hleft =>
      rw [upload_of_nothing_left h hleft, upload_of_nothing_left (hexpects.mpr h) hleft]
      exact .same _ hsyncs (.refl _)
  | tooShort h hleft hsize =>
      rw [upload_of_tooShort h hleft hsize, upload_of_tooShort (hexpects.mpr h) hleft hsize]
      exact refuse_lagsBehind hsyncs phase
  | notFetched fault h hfault =>
      have h' : ((d.withSyncs syncs).inPhase phase).OffersFrame length :=
        ⟨hexpects.mpr h.toExpectsUpload, h.left, h.size⟩
      rw [upload_of_not_fetched h hfault, upload_of_not_fetched h' hfault]
      exact .same _ hsyncs (.refl _)
  | frame data secret cipher h =>
      have h' : ((d.withSyncs syncs).inPhase phase).SendsFrame length data secret cipher :=
        ⟨⟨hexpects.mpr h.toExpectsUpload, h.left, h.size⟩, h.fetch, h.encrypt⟩
      rw [upload_of_sendsFrame h, upload_of_sendsFrame h']
      exact .same _ hsyncs (.refl _)

theorem getState_lagsBehind (length : Nat) :
    (d.getState length).LagsBehind (some 0)
      (((d.withSyncs syncs).inPhase phase).getState length) := by
  unfold Device.getState
  split
  · exact refuse_lagsBehind hsyncs phase
  · refine ⟨?_, rfl, .recast syncs phase hsyncs hphase⟩
    rcases hphase with rfl | ⟨hsync, rfl⟩
    · exact .refl _ _
    · exact .inr ⟨0, [d.session.phase.state], rfl, rfl, by rw [hsync]; rfl, rfl⟩

/-- A device that tells that it is synchronised waits for the next block from then on. -/
theorem getStatus_lagsBehind (length : Nat) :
    (d.getStatus length).LagsBehind (some 4)
      (((d.withSyncs syncs).inPhase phase).getStatus length) := by
  rcases hphase with rfl | ⟨hsync, rfl⟩
  · have hboard : ((d.withSyncs syncs).inPhase d.session.phase).board = d.board := rfl
    simp only [getStatus, phase_recast, hboard]
    split
    · exact refuse_lagsBehind hsyncs _
    · split
      · exact .same _ hsyncs (.refl _)
      · split
        · exact .same _ hsyncs (.refl _)
        · exact .same _ hsyncs (.refl _)
      · exact .same _ hsyncs (.refl _)
  · rcases Nat.lt_or_ge length 6 with hshort | hlength
    · simp only [getStatus, hshort, decide_true, Bool.true_or, ↓reduceIte]
      exact refuse_lagsBehind hsyncs _
    · have hstage : d.session.phase.stage = .downloadSync := congrArg Phase.stage hsync
      have hdone : d.getStatus length =
          ⟨d.inPhase .downloadIdle, .reply (d.session.report d.setup), []⟩ := by
        rw [getStatus_of_fits hlength (by rw [hsync]; rfl) (by rw [hstage]; decide),
          if_pos hstage]
      have hdone' : ((d.withSyncs syncs).inPhase .downloadIdle).getStatus length =
          ⟨(d.withSyncs syncs).inPhase .downloadIdle,
            .reply ((d.session.report d.setup).set 4 Phase.downloadIdle.state), []⟩ := by
        rw [getStatus_of_fits hlength rfl Stage.noConfusion, phase_recast, if_neg (by decide)]
        simp only [Session.report, hsync]
        rfl
      rw [hdone, hdone']
      refine ⟨.inr ⟨4, _, rfl, rfl, ?_, rfl⟩, rfl, .recast syncs _ hsyncs (.refl _)⟩
      simp only [Session.report, hsync]
      rfl

theorem clearStatus_lagsBehind :
    d.clearStatus.LagsBehind place? ((d.withSyncs syncs).inPhase phase).clearStatus := by
  rcases hphase with rfl | ⟨hsync, rfl⟩
  · by_cases herror : d.session.phase.stage = .error
    · simp only [clearStatus, phase_recast, herror, ↓reduceIte]
      exact .same _ hsyncs (.refl _)
    · simp only [clearStatus, phase_recast, herror, ↓reduceIte]
      exact refuse_lagsBehind hsyncs _
  · simp only [clearStatus, phase_recast, hsync, reduceCtorEq, ↓reduceIte]
    exact refuse_lagsBehind hsyncs _

theorem abort_lagsBehind :
    d.abort.LagsBehind place? ((d.withSyncs syncs).inPhase phase).abort := by
  rcases hphase with rfl | ⟨hsync, rfl⟩
  · cases habort : d.session.phase.takesAbort with
    | true =>
        simp only [abort, phase_recast, habort, ↓reduceIte]
        exact .same _ hsyncs (.refl _)
    | false =>
        simp only [abort, phase_recast, habort, Bool.false_eq_true, ↓reduceIte]
        exact refuse_lagsBehind hsyncs _
  · simp only [abort, phase_recast, hsync, Phase.takesAbort, ↓reduceIte]
    exact .same _ hsyncs (.refl _)

theorem command_lagsBehind {r : Request}
    (harrives : (Step.control r).request? d.setup.interface = some r) :
    (d.command r).LagsBehind ((Step.control r).statePlace? d.setup.interface)
      (((d.withSyncs syncs).inPhase phase).command r) := by
  rw [Step.statePlace?, harrives, Option.bind_some]
  unfold command
  cases Command.ofCode? r.isInput r.code with
  | none => exact refuse_lagsBehind hsyncs phase
  | some command =>
      cases command with
      | detach =>
          have hsetup : ((d.withSyncs syncs).inPhase phase).setup.profile.detaches =
              d.setup.profile.detaches := rfl
          simp only [detach, hsetup]
          split
          · exact .same _ hsyncs hphase
          · exact refuse_lagsBehind hsyncs phase
      | download => exact download_lagsBehind hsyncs hphase r.data
      | upload => exact upload_lagsBehind hsyncs hphase r.length.toNat
      | getStatus => exact getStatus_lagsBehind hsyncs hphase r.length.toNat
      | clearStatus => exact clearStatus_lagsBehind hsyncs hphase
      | getState => exact getState_lagsBehind hsyncs hphase r.length.toNat
      | abort => exact abort_lagsBehind hsyncs hphase

theorem control_lagsBehind (r : Request) :
    (d.control r).LagsBehind ((Step.control r).statePlace? d.setup.interface)
      (((d.withSyncs syncs).inPhase phase).control r) := by
  have hinterface := interface_recast d syncs phase
  simp only [control, hinterface]
  split
  · exact .same _ hsyncs hphase
  · split
    · exact .same _ hsyncs hphase
    next hfits hfor =>
        have harrives : (Step.control r).request? d.setup.interface = some r := by
          simp only [Bool.not_eq_true, Bool.and_eq_false_iff, Bool.not_eq_false',
            decide_eq_false_iff_not, Nat.not_lt] at hfits hfor
          rw [Step.request?, hfor, Bool.true_and, if_pos]
          rw [Bool.or_eq_true, decide_eq_true_eq]
          exact hfits
        have hcommand := command_lagsBehind hsyncs hphase harrives
        exact ⟨hcommand.answer.deliver r.length.toNat, hcommand.calls, hcommand.device⟩

theorem setInterface_lagsBehind (alternate index : UInt16) :
    (d.setInterface alternate index).LagsBehind place?
      (((d.withSyncs syncs).inPhase phase).setInterface alternate index) := by
  have htarget : ((d.withSyncs syncs).inPhase phase).setup.target? alternate.toUInt8 =
      d.setup.target? alternate.toUInt8 := rfl
  by_cases hrange : maxNumber < index ∨ maxNumber < alternate
  · simp only [setInterface, hrange, ↓reduceIte]
    exact .same _ hsyncs hphase
  · by_cases hindex : index.toUInt8 = d.setup.interface
    · simp only [setInterface, select?, interface_recast, htarget, hrange, hindex, ↓reduceIte]
      cases d.setup.target? alternate.toUInt8 with
      | none => exact .same _ hsyncs hphase
      | some target => exact .same _ hsyncs (.refl _)
    · simp only [setInterface, interface_recast, hrange, hindex, ↓reduceIte]
      exact .same _ hsyncs hphase

theorem busReset_lagsBehind :
    d.busReset.LagsBehind place? ((d.withSyncs syncs).inPhase phase).busReset := by
  have hleaves : ((d.withSyncs syncs).inPhase phase).session.leaves = d.session.leaves := by
    change (_ || (_ && phase.stage == .idle)) = _
    rw [hphase.beq_idle]
    rfl
  have hafter : ((d.withSyncs syncs).inPhase phase).session.phase.afterReset =
      d.session.phase.afterReset := hphase.afterReset_eq
  cases hcase : d.session.leaves with
  | true =>
      rw [busReset_of_leaves hcase, busReset_of_leaves (hleaves.trans hcase), hafter]
      exact .same _ hsyncs (.refl _)
  | false =>
      rw [busReset_of_stays hcase, busReset_of_stays (hleaves.trans hcase), hafter]
      exact .same _ hsyncs (.refl _)

end Commands

/-- Every step keeps the difference to the phase and to the byte that tells it. -/
theorem LagsBehind.step {d' : Device} (h : d.LagsBehind d') (s : Step) :
    (d.step s).LagsBehind (s.statePlace? d.setup.interface) (d'.step s) := by
  obtain ⟨syncs, phase, hsyncs, hphase⟩ := h
  cases s with
  | control r => exact control_lagsBehind hsyncs hphase r
  | setInterface alternate index => exact setInterface_lagsBehind hsyncs hphase alternate index
  | getInterface index =>
      have hinterface := interface_recast d syncs phase
      simp only [Device.step, getInterface, hinterface]
      split
      · exact .same _ hsyncs hphase
      · split
        · exact .same _ hsyncs hphase
        · exact .same _ hsyncs hphase
  | getDescriptor query =>
      cases query with
      | configuration => exact .same _ hsyncs hphase
      | string index language => exact .same _ hsyncs hphase
  | busReset => exact busReset_lagsBehind hsyncs hphase
  | markPowerOnReset => exact .same _ hsyncs (.refl _)
  | markCorruptFirmware => exact .same _ hsyncs (.refl _)
  | failProgram fault => exact .same _ hsyncs hphase
  | failRead fault => exact .same _ hsyncs hphase
  | failManifest fault => exact .same _ hsyncs hphase

/-- A device lags behind itself where the blocks need not be synchronised. -/
theorem lagsBehind_withSyncs (d : Device) :
    (d.withSyncs true).LagsBehind (d.withSyncs false) :=
  .recast false d.session.phase Bool.noConfusion (.refl _)

theorem LagsBehind.refl (d : Device) : d.LagsBehind d :=
  .recast d.setup.profile.syncs d.session.phase id (.refl _)

/-- The difference does not grow in a run. -/
theorem LagsBehind.after {d d' : Device} (h : d.LagsBehind d') (steps : List Step) :
    (d.after steps).LagsBehind (d'.after steps) := by
  induction steps generalizing d d' with
  | nil => exact h
  | cons s steps ih => exact ih (h.step s).device

/-- Whether a request asks a device for its state, or for its status while nothing waits to be
manifested, with room for all of the reply. -/
def Peeks (d : Device) (r : Request) : Prop :=
  r.Carries d.setup.interface .getState ∧ 1 ≤ r.length.toNat ∨
    r.Carries d.setup.interface .getStatus ∧ 6 ≤ r.length.toNat ∧
      d.session.phase.stage ≠ .manifestSync

instance (d : Device) (r : Request) : Decidable (d.Peeks r) :=
  inferInstanceAs (Decidable (_ ∨ _))

/-- A device that was asked once more is still at most one request ahead. -/
theorem LagsBehind.peek {d d' : Device} {r : Request} (h : d.LagsBehind d')
    (hcoherent : d'.session.phase.Coherent) (hpeeks : d'.Peeks r) :
    d.LagsBehind (d'.step (.control r)).device ∧ (d'.step (.control r)).calls = [] := by
  rcases hpeeks with ⟨hcarries, hlength⟩ | ⟨hcarries, hlength, hnone⟩
  · rw [step_of_getState_of_fits hcarries hlength]
    exact ⟨h, rfl⟩
  · rw [step_of_getStatus_of_fits hcarries hlength hcoherent.takesStatus hnone]
    refine ⟨?_, rfl⟩
    obtain ⟨syncs, phase, hsyncs, hphase⟩ := h
    change d.LagsBehind
      (if phase.stage = .downloadSync then (d.withSyncs syncs).inPhase .downloadIdle
      else (d.withSyncs syncs).inPhase phase)
    split
    next hstage =>
        -- this one is synchronised now; the other one still waits for its request
        have hsync : phase = .downloadSync := hcoherent.eq_of_stage hstage nofun
        have hbehind : d.session.phase = .downloadSync := by
          rcases hphase with heq | ⟨-, heq⟩
          · exact heq.symm.trans hsync
          · cases hsync.symm.trans heq
        exact .recast syncs .downloadIdle hsyncs (.inr ⟨hbehind, rfl⟩)
    next => exact .recast syncs phase hsyncs hphase

/-- The same run, with requests for the state or the status put in anywhere. -/
inductive Polled (d : Device) : List Step → List Step → Prop
  | start : Polled d [] []
  | step {steps polled : List Step} (s : Step) (h : Polled d steps polled) :
      Polled d (steps ++ [s]) (polled ++ [s])
  | peek {steps polled : List Step} (r : Request) (h : Polled d steps polled)
      (hpeeks : (d.after polled).Peeks r) : Polled d steps (polled ++ [.control r])

/-- Requests put into a run call nothing, and leave the device at most one of them ahead. -/
theorem Polled.lagsBehind {d : Device} {steps polled : List Step} (h : d.Polled steps polled)
    (hcoherent : d.session.phase.Coherent) :
    (d.after steps).LagsBehind (d.after polled) ∧ d.calls polled = d.calls steps := by
  induction h with
  | start => exact ⟨.refl d, rfl⟩
  | step s h ih =>
      have hstep := ih.1.step s
      rw [after_concat, after_concat, calls_concat, calls_concat, ih.2, hstep.calls]
      exact ⟨hstep.device, rfl⟩
  | @peek steps polled r h hpeeks ih =>
      obtain ⟨hdevice, hcalls⟩ := ih.1.peek (coherent_after hcoherent polled) hpeeks
      rw [after_concat, calls_concat, ih.2, hcalls, List.append_nil]
      exact ⟨hdevice, rfl⟩

end Device

/-- Two outcomes that cannot be told apart but by the byte at one place of the reply: what the
board was called for and what it holds, the pointer, the target and the length that the scan for
a checksum has found are the same. -/
structure Outcome.SeenAlike (place? : Option Nat) (o o' : Outcome) : Prop where
  answer : o.answer.LagsBehind place? o'.answer
  calls : o'.calls = o.calls
  board : o'.device.board = o.device.board
  address : o'.device.session.address = o.device.session.address
  target : o'.device.session.target = o.device.session.target
  checkedLength : o'.device.session.checkedLength = o.device.session.checkedLength

theorem Outcome.LagsBehind.seenAlike {place? : Option Nat} {o o' : Outcome}
    (h : o.LagsBehind place? o') : o.SeenAlike place? o' := by
  obtain ⟨device', answer', calls'⟩ := o'
  obtain ⟨hanswer, hcalls, hdevice⟩ := h
  cases hdevice with
  | recast syncs phase hsyncs hphase => exact ⟨hanswer, hcalls, rfl, rfl, rfl, rfl⟩

/-- Whether downloads are synchronised can only be seen in the state that is reported: whatever
two devices go through that agree in all the rest, their answers are the same but for a state
that tells that a block waits to be synchronised, where the other one tells that the next block
may come.  The calls to the board, its memories, the pointer, the target and the length that the
scan for a checksum has found are the same.  So are they, in either case, whether or not a device
was asked for its state or its status in between; for that its state and its error code have to
fit each other, as they do in each device that was ever started. -/
theorem seenAlike_of_syncs (d : Device) :
    (∀ steps s,
      (((d.withSyncs true).after steps).step s).SeenAlike (s.statePlace? d.setup.interface)
        (((d.withSyncs false).after steps).step s)) ∧
    (d.session.phase.Coherent → ∀ steps polled, d.Polled steps polled →
      d.calls polled = d.calls steps ∧
      ∀ s, ((d.after steps).step s).SeenAlike (s.statePlace? d.setup.interface)
        ((d.after polled).step s)) := by
  constructor
  · intro steps s
    have hinterface : ((d.withSyncs true).after steps).setup.interface = d.setup.interface := by
      rw [Device.after_setup]
      rfl
    have hstep := (d.lagsBehind_withSyncs.after steps).step s
    rw [hinterface] at hstep
    exact hstep.seenAlike
  · intro hcoherent steps polled hpolled
    obtain ⟨hlags, hcalls⟩ := hpolled.lagsBehind hcoherent
    refine ⟨hcalls, fun s => ?_⟩
    have hstep := hlags.step s
    rw [Device.after_setup] at hstep
    exact hstep.seenAlike

/-- A synchronised download of two blocks, asked for its status in between or not: asked for the
state, it tells that it waits for the next block, or that it is still to be synchronised. -/
theorem seenAlike_of_syncs_two_blocks :
    let setup : Setup := ⟨{ syncs := true }, 0, ⟨0, 64⟩, none⟩
    let board : Board := ⟨⟨0, List.replicate 64 0xFF⟩, ⟨0, []⟩, {}, none, none, none⟩
    let d := Device.start setup ⟨.plain, .ecb, .plain⟩ board
    let download (data : Bytes) : Step :=
      .control { type := 0x21, code := 1, index := 0, length := 2, data }
    let status : Request := { type := 0xA1, code := 3, index := 0, length := 6 }
    let state : Step := .control { type := 0xA1, code := 5, index := 0, length := 1 }
    let steps := [download [0xAA, 0xBB], download [0xCC, 0xDD]]
    let polled := [download [0xAA, 0xBB], .control status, download [0xCC, 0xDD]]
    let polledTwice := polled ++ [.control status]
    d.Polled steps polledTwice ∧ d.calls polledTwice = d.calls steps ∧ d.calls steps ≠ [] ∧
      ((d.after steps).step state).answer = .reply [Phase.downloadSync.state] ∧
      ((d.after polledTwice).step state).answer = .reply [Phase.downloadIdle.state] ∧
      ((d.after steps).step state).SeenAlike (some 0) ((d.after polledTwice).step state) ∧
      (((d.withSyncs true).after steps).step state).SeenAlike (some 0)
        (((d.withSyncs false).after steps).step state) := by
  intro setup board d download status state steps polled polledTwice
  have hpolled : d.Polled steps polledTwice := by
    have hfirst : d.Polled [download [0xAA, 0xBB]] [download [0xAA, 0xBB]] := .step _ .start
    have hasked := hfirst.peek status (by decide +kernel)
    exact (hasked.step (download [0xCC, 0xDD])).peek status (by decide +kernel)
  obtain ⟨hmodes, hpolls⟩ := seenAlike_of_syncs d
  obtain ⟨hcalls, hseen⟩ := hpolls .idle steps polledTwice hpolled
  exact ⟨hpolled, hcalls, by decide +kernel, by decide +kernel, by decide +kernel, hseen state,
    hmodes steps state⟩

end Dfu

end FirmwareUpdate
