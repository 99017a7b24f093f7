/-
When a bus reset leaves the bootloader.  What a session remembers for the next bus reset is
whether a detach was accepted, or a manifestation finished, since the bootloader was last left.
A download that was broken off behind a manifestation is forgotten.
-/
import FirmwareUpdate.Proofs.Dfu.Exchanges

namespace FirmwareUpdate

namespace Dfu

def Call.isProgram : Call → Bool
  | .program _ _ _ => true
  | _ => false

def Call.isReset : Call → Bool
  | .busReset => true
  | _ => false

namespace Device

/-- Whether a step is a request to detach that is accepted. -/
def detachesAt (d : Device) (s : Step) : Bool :=
  (s.request? d.setup.interface).any
      (fun r => Command.ofCode? r.isInput r.code == some .detach) &&
    (d.step s).answer == .accepted

/-- Whether a step leaves the bootloader. -/
def leavesAt (d : Device) (s : Step) : Bool :=
  (d.step s).calls.any Call.isReset

/-- Whether a step manifests the firmware, and the board does not fail. -/
def manifestsAt (d : Device) (s : Step) : Bool :=
  (d.step s).calls.any Call.isManifest && d.board.manifest.isNone

/-- Whether a step writes to a memory. -/
def writesAt (d : Device) (s : Step) : Bool :=
  (d.step s).calls.any Call.isProgram

end Device

/-- What has happened to a bootloader: a detach was accepted, or a manifestation finished, since
it was last left; a memory was written since the last manifestation, by the session that is
under way, or by one that was broken off. -/
structure Past where
  detached : Bool := false
  manifested : Bool := false
  written : Bool := false
  underWay : Bool := false
  brokenOff : Bool := false
deriving DecidableEq, Repr

/-- The past behind one more step.  A session that is idle again without a manifestation was
broken off. -/
def Past.next (past : Past) (d : Device) (s : Step) : Past :=
  let writing := past.underWay || d.writesAt s
  let ended := (d.step s).device.session.phase == .idle
  { detached := d.detachesAt s || past.detached && !d.leavesAt s
    manifested := d.manifestsAt s || past.manifested && !d.leavesAt s
    written := d.writesAt s || past.written && !d.manifestsAt s
    underWay := writing && !ended
    brokenOff := (past.brokenOff || writing && ended) && !d.manifestsAt s }

/-- The past behind the steps of a run. -/
def Device.past (d : Device) (past : Past) : List Step → Past
  | [] => past
  | s :: steps => (d.step s).device.past (past.next d s) steps

/-- An outcome that neither arms the detach nor leaves the bootloader. -/
structure Outcome.Stays (o : Outcome) (d : Device) : Prop where
  armed : o.device.session.detachArmed = d.session.detachArmed
  noReset : o.calls.any Call.isReset = false

namespace Device

variable {d : Device} {r : Request}

/-- A fetch only reads. -/
theorem fetchCalls_any (d : Device) (count : Nat) {kind : Call → Bool}
    (h : ∀ address length, kind (.read address length) = false) :
    (d.fetchCalls count).any kind = false := by
  unfold fetchCalls
  split
  · rfl
  · rw [List.any_cons, h, List.any_nil, Bool.or_false]

theorem refuse_stays (d : Device) : d.refuse.Stays d :=
  ⟨rfl, rfl⟩

theorem download_stays (d : Device) (data : Bytes) : (d.download data).Stays d := by
  apply download_cases (motive := fun outcome => outcome.Stays d)
  case refused => exact d.refuse_stays
  case final => exact fun _ => ⟨rfl, rfl⟩
  case pastEnd => exact fun _ _ => ⟨rfl, rfl⟩
  case misfit => exact fun _ _ _ => ⟨rfl, rfl⟩
  case notProgrammed => exact fun _ _ _ _ _ => ⟨rfl, rfl⟩
  case programmed => exact fun _ _ _ _ _ => ⟨rfl, rfl⟩

theorem upload_stays (d : Device) (length : Nat) : (d.upload length).Stays d := by
  apply upload_cases (motive := fun outcome => outcome.Stays d)
  case refused => exact d.refuse_stays
  case finished => exact fun _ => ⟨rfl, rfl⟩
  case notFetched => exact fun _ _ _ => ⟨rfl, d.fetchCalls_any _ fun _ _ => rfl⟩
  case frame => exact fun _ _ _ _ => ⟨rfl, d.fetchCalls_any _ fun _ _ => rfl⟩

theorem getStatus_stays (d : Device) (length : Nat) : (d.getStatus length).Stays d := by
  apply getStatus_cases (motive := fun outcome => outcome.Stays d)
  case refused => exact d.refuse_stays
  case resumed => exact fun _ => ⟨rfl, rfl⟩
  case notManifested => exact fun _ _ _ => ⟨rfl, rfl⟩
  case manifested => exact fun _ _ => ⟨rfl, rfl⟩
  case told => exact ⟨rfl, rfl⟩

theorem command_stays (h : Command.ofCode? r.isInput r.code ≠ some .detach) :
    (d.command r).Stays d := by
  apply command_cases (motive := fun outcome => outcome.Stays d)
  case refused => exact d.refuse_stays
  case detached => exact fun hdetach _ => absurd hdetach h
  case download => exact fun _ => d.download_stays r.data
  case upload => exact fun _ => d.upload_stays r.length.toNat
  case getStatus => exact fun _ => d.getStatus_stays r.length.toNat
  case getState => exact fun _ => ⟨rfl, rfl⟩
  case restarted => exact ⟨rfl, rfl⟩

theorem setInterface_stays (d : Device) (alternate index : UInt16) :
    (d.setInterface alternate index).Stays d := by
  apply setInterface_cases (motive := fun outcome => outcome.Stays d)
  case same => exact fun _ => ⟨rfl, rfl⟩
  case selected => exact fun _ _ => ⟨rfl, rfl⟩

theorem getInterface_stays (d : Device) (index : UInt16) : (d.getInterface index).Stays d := by
  unfold getInterface
  split
  · exact ⟨rfl, rfl⟩
  · split <;> exact ⟨rfl, rfl⟩

/-- A request to detach is accepted by a bootloader that detaches, and refused by any other. -/
theorem step_of_detach {s : Step} (h : s.request? d.setup.interface = some r)
    (hdetach : Command.ofCode? r.isInput r.code = some .detach) :
    d.step s =
      if d.setup.profile.detaches then
        ⟨d.withSession { d.session with detachArmed := true }, .accepted, []⟩
      else d.refuse := by
  simp only [step_of_request h, command, hdetach, detach]
  split <;> rfl

/-- The armed detach is a detach that was accepted, until the bootloader is left. -/
theorem step_detachArmed (d : Device) (s : Step) :
    (d.step s).device.session.detachArmed =
      (d.detachesAt s || d.session.detachArmed && !d.leavesAt s) := by
  have hstays (hdetaches : d.detachesAt s = false) (h : (d.step s).Stays d) :
      (d.step s).device.session.detachArmed =
        (d.detachesAt s || d.session.detachArmed && !d.leavesAt s) := by
    -- all steps but two kinds leave both sides as they are
    rw [leavesAt, hdetaches, h.armed, h.noReset, Bool.not_false, Bool.and_true, Bool.false_or]
  cases s with
  | control request =>
      cases harrives : (Step.control request).request? d.setup.interface with
      | none =>
          obtain ⟨answer, hstep⟩ := step_of_no_request harrives
          apply hstays
          · rw [detachesAt, harrives, Option.any_none, Bool.false_and]
          · rw [hstep]
            exact ⟨rfl, rfl⟩
      | some r =>
          by_cases hdetach : Command.ofCode? r.isInput r.code = some .detach
          · have hstep := step_of_detach harrives hdetach
            by_cases hable : d.setup.profile.detaches = true
            · rw [if_pos hable] at hstep
              have hdetaches : d.detachesAt (.control request) = true := by
                rw [detachesAt, harrives, Option.any_some, hdetach, hstep]
                rfl
              rw [hdetaches, hstep, Bool.true_or]
              rfl
            · rw [if_neg hable] at hstep
              apply hstays
              · rw [detachesAt, hstep]
                exact Bool.and_false _
              · rw [hstep]
                exact d.refuse_stays
          · apply hstays
            · rw [detachesAt, harrives, Option.any_some, beq_false_of_ne hdetach, Bool.false_and]
            · rw [step_of_request harrives]
              exact ⟨(command_stays hdetach).armed, (command_stays hdetach).noReset⟩
  | setInterface alternate index => exact hstays rfl (d.setInterface_stays alternate index)
  | getInterface index => exact hstays rfl (d.getInterface_stays index)
  | busReset =>
      cases hleaves : d.session.leaves with
      | true =>
          have hstep : d.step .busReset = _ := busReset_of_leaves hleaves
          rw [leavesAt, hstep]
          exact (Bool.and_false _).symm
      | false =>
          have hstep : d.step .busReset = _ := busReset_of_stays hleaves
          apply hstays rfl
          rw [hstep]
          exact ⟨rfl, rfl⟩
  | _ => exact hstays rfl ⟨rfl, rfl⟩

end Device

namespace Move

variable {d d' : Device} {calls : List Call}

/-- The manifestation that is remembered is one that the board did not fail, until the
bootloader is left. -/
theorem manifested_eq (hmove : Move d calls d') :
    d'.session.manifested =
      (calls.any Call.isManifest && d.board.manifest.isNone ||
        d.session.manifested && !calls.any Call.isReset) := by
  cases hmove with
  | notManifested hphase hfault =>
      rw [hfault]
      exact (Bool.and_true _).symm
  | manifested hphase hnone =>
      rw [hnone]
      rfl
  | resetLeaving hleaves => exact (Bool.and_false _).symm
  | notFetched hoffers hfault =>
      rw [d.fetchCalls_any _ fun _ _ => rfl, d.fetchCalls_any _ fun _ _ => rfl]
      exact (Bool.and_true _).symm
  | sent hsends =>
      rw [d.fetchCalls_any _ fun _ _ => rfl, d.fetchCalls_any _ fun _ _ => rfl]
      exact (Bool.and_true _).symm
  | _ => exact (Bool.and_true _).symm

/-- A manifestation that the board does not fail ends the session, and writes nothing. -/
theorem idle_of_manifests (hmove : Move d calls d')
    (h : (calls.any Call.isManifest && d.board.manifest.isNone) = true) :
    d'.session.phase = .idle ∧ calls.any Call.isProgram = false := by
  cases hmove with
  | manifested hphase hnone => exact ⟨rfl, rfl⟩
  | notManifested hphase hfault =>
      rw [hfault] at h
      cases h
  | notFetched hoffers hfault =>
      rw [d.fetchCalls_any _ fun _ _ => rfl] at h
      cases h
  | sent hsends =>
      rw [d.fetchCalls_any _ fun _ _ => rfl] at h
      cases h
  | _ => cases h

/-- The bootloader is only left for one of two causes. -/
theorem leaves_of_isReset (hmove : Move d calls d') (h : calls.any Call.isReset = true) :
    d.session.leaves = true := by
  cases hmove with
  | resetLeaving hleaves => exact hleaves
  | notFetched hoffers hfault =>
      rw [d.fetchCalls_any _ fun _ _ => rfl] at h
      cases h
  | sent hsends =>
      rw [d.fetchCalls_any _ fun _ _ => rfl] at h
      cases h
  | _ => cases h

end Move

/-- A device that remembers what matters of its past. -/
structure Recalls (past : Past) (d : Device) : Prop where
  detached : d.session.detachArmed = past.detached
  manifested : d.session.manifested = past.manifested
  written : past.written = (past.brokenOff || past.underWay)
  ended : d.session.phase = .idle → past.underWay = false

namespace Recalls

theorem start (setup : Setup) (cipher : Cipher) (board : Board) :
    Recalls {} (Device.start setup cipher board) :=
  ⟨rfl, rfl, rfl, fun _ => rfl⟩

variable {past : Past} {d : Device}

theorem written_next (h : Recalls past d) (s : Step) :
    (past.next d s).written = ((past.next d s).brokenOff || (past.next d s).underWay) := by
  simp only [Past.next, h.written]
  cases hmanifests : d.manifestsAt s with
  | true =>
      obtain ⟨hidle, hwrites⟩ := (d.step_move s).idle_of_manifests hmanifests
      have hnothing : d.writesAt s = false := hwrites
      simp only [hidle, hnothing, beq_self_eq_true, Bool.not_true, Bool.and_false, Bool.or_self]
  | false =>
      cases past.brokenOff <;> cases past.underWay <;> cases d.writesAt s <;>
        cases (d.step s).device.session.phase == .idle <;> rfl

theorem step (h : Recalls past d) (s : Step) : Recalls (past.next d s) (d.step s).device := by
  refine ⟨?_, ?_, h.written_next s, ?_⟩
  · rw [d.step_detachArmed s, h.detached]
    rfl
  · rw [(d.step_move s).manifested_eq, h.manifested]
    rfl
  · intro hidle
    simp only [Past.next, hidle, beq_self_eq_true, Bool.not_true, Bool.and_false]

theorem run (h : Recalls past d) (steps : List Step) :
    Recalls (d.past past steps) (d.after steps) := by
  induction steps generalizing d past with
  | nil => exact h
  | cons s steps ih => exact ih (h.step s)

end Recalls

/-- Whoever leaves the bootloader without a detach has manifested and is idle, and something was
written since exactly if a download was broken off since. -/
theorem written_eq_brokenOff_of_leavesAt (setup : Setup) (cipher : Cipher) (board : Board)
    (steps : List Step) (s : Step) :
    let d := (Device.start setup cipher board).after steps
    let past := (Device.start setup cipher board).past {} steps
    d.leavesAt s = true → past.detached = false →
      past.manifested = true ∧ d.session.phase = .idle ∧ past.written = past.brokenOff := by
  intro d past hleaves hdetached
  have hrecalls : Recalls past d := (Recalls.start setup cipher board).run steps
  have hcoherent : d.session.phase.Coherent := Device.coherent_after .idle steps
  have hcauses := (d.step_move s).leaves_of_isReset hleaves
  rw [Session.leaves, hrecalls.detached, hrecalls.manifested, hdetached, Bool.false_or,
    Bool.and_eq_true, beq_iff_eq] at hcauses
  obtain ⟨hmanifested, hstage⟩ := hcauses
  have hidle : d.session.phase = .idle := hcoherent.stage_eq_idle_iff.mp hstage
  refine ⟨hmanifested, hidle, ?_⟩
  rw [hrecalls.written, hrecalls.ended hidle, Bool.or_false]

/-- A download of two bytes, manifested and left by a bus reset. -/
theorem written_eq_brokenOff_of_leavesAt_two_bytes :
    let setup : Setup := ⟨{}, 0, ⟨0, 64⟩, none⟩
    let board : Board := ⟨⟨0, List.replicate 64 0xFF⟩, ⟨0, []⟩, {}, none, none, none⟩
    let download (data : Bytes) : Step :=
      .control { type := 0x21, code := 1, index := 0, length := UInt16.ofNat data.length, data }
    let status : Step := .control { type := 0xA1, code := 3, index := 0, length := 6 }
    let steps := [download [0xAA, 0xBB], download [], status]
    let first := Device.start setup ⟨.plain, .ecb, .plain⟩ board
    (first.after steps).leavesAt .busReset = true ∧ (first.past {} steps).detached = false ∧
      (first.past {} steps).manifested = true ∧ (first.past {} steps).written = false ∧
      (first.past {} steps).written = (first.past {} steps).brokenOff := by
  intro setup board download status steps first
  have hleaves : (first.after steps).leavesAt .busReset = true := by decide
  have hdetached : (first.past {} steps).detached = false := by decide
  obtain ⟨hmanifested, -, hwritten⟩ := written_eq_brokenOff_of_leavesAt setup
    ⟨.plain, .ecb, .plain⟩ board steps .busReset hleaves hdetached
  exact ⟨hleaves, hdetached, hmanifested, by decide, hwritten⟩

/-- Half a firmware can be left to run: the memory was manifested, then a second download wrote
one byte and was aborted, and the next bus reset leaves the bootloader all the same. -/
theorem exists_leavesAt_written :
    ¬ ∀ (setup : Setup) (cipher : Cipher) (board : Board) (steps : List Step) (s : Step),
      ((Device.start setup cipher board).after steps).leavesAt s = true →
        ((Device.start setup cipher board).past {} steps).detached = false →
          ((Device.start setup cipher board).past {} steps).written = false := by
  intro h
  have hsound := h ⟨{}, 0, ⟨0, 64⟩, none⟩ ⟨.plain, .ecb, .plain⟩
    ⟨⟨0, List.replicate 64 0xFF⟩, ⟨0, []⟩, {}, none, none, none⟩
    [.control { type := 0x21, code := 1, index := 0, length := 2, data := [0xAA, 0xBB] },
      .control { type := 0x21, code := 1, index := 0 },
      .control { type := 0xA1, code := 3, index := 0, length := 6 },
      .control { type := 0x21, code := 1, index := 0, length := 1, data := [0x01] },
      .control { type := 0x21, code := 6, index := 0 }]
    .busReset (by decide +kernel) (by decide +kernel)
  exact absurd hsound (by decide +kernel)

end Dfu

end FirmwareUpdate
