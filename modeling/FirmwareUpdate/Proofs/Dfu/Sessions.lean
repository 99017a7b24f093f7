/-
The sessions of a run.  A session begins with the step that finds the device idle and lasts
until the device is idle again; within it the pointer stands as far behind the start of the
selected region as bytes of the region are gone.
-/
import FirmwareUpdate.Proofs.Dfu.Memory
import FirmwareUpdate.Proofs.Dfu.Moves

namespace FirmwareUpdate

namespace Dfu

namespace Device

/-- What of a log still counts when the next step comes: an idle device begins a new one. -/
def keptLog {α : Type} (d : Device) (log : List α) : List α :=
  if d.session.phase = .idle then [] else log

/-- What the steps of a run have added to a log since the device was last idle, the step that
found it idle included. -/
def sinceIdle {α : Type} (entry : Device → Step → List α) (d : Device) (log : List α) :
    List Step → List α
  | [] => log
  | s :: steps => sinceIdle entry (d.step s).device (d.keptLog log ++ entry d s) steps

variable {α : Type} {d : Device} {log : List α}

theorem keptLog_of_idle (h : d.session.phase = .idle) : d.keptLog log = [] :=
  if_pos h

theorem keptLog_of_busy (h : d.session.phase ≠ .idle) : d.keptLog log = log :=
  if_neg h

/-- The entry of the last step stands at the end of the log. -/
theorem sinceIdle_concat (entry : Device → Step → List α) (steps : List Step) (s : Step) :
    d.sinceIdle entry log (steps ++ [s]) =
      (d.after steps).keptLog (d.sinceIdle entry log steps) ++ entry (d.after steps) s := by
  induction steps generalizing d log with
  | nil => rfl
  | cons first steps ih => exact ih

/-- A relation between a device and its log that every step keeps holds after every run. -/
theorem sinceIdle_induction {entry : Device → Step → List α} {motive : Device → List α → Prop}
    (hstep : ∀ d log s, motive d log →
      motive (d.step s).device (d.keptLog log ++ entry d s))
    (h : motive d log) (steps : List Step) :
    motive (d.after steps) (d.sinceIdle entry log steps) := by
  induction steps generalizing d log with
  | nil => exact h
  | cons s steps ih => exact ih (hstep d log s h)

end Device

/-- The place of the pointer: as many bytes behind the start of the selected region as are
gone of it, and none of an idle device.  Only an EEPROM that is there can be selected. -/
structure Pointed (setup : Setup) (d : Device) : Prop where
  same_setup : d.setup = setup
  offered : d.session.target = .eeprom → setup.eeprom.isSome = true
  remaining_le : d.session.remaining ≤ (setup.region d.session.target).length.toNat
  remaining_of_idle : d.session.phase = .idle →
    d.session.remaining = (setup.region d.session.target).length.toNat
  address : d.session.address = (setup.region d.session.target).start +
    UInt32.ofNat ((setup.region d.session.target).length.toNat - d.session.remaining)

theorem Setup.offered_of_target? {setup : Setup} {alternate : UInt8} {target : Target}
    (h : setup.target? alternate = some target) :
    target = .eeprom → setup.eeprom.isSome = true := by
  rintro rfl
  unfold target? at h
  split at h
  · cases h
  · split at h
    next hone =>
        rw [Bool.and_eq_true] at hone
        exact hone.2
    next => cases h

namespace Pointed

variable {setup : Setup} {cipher : Cipher} {d : Device}

/-- A session that starts again points at the start of its region. -/
theorem restarted (hsetup : d.setup = setup) (s : Session)
    (hoffered : s.target = .eeprom → setup.eeprom.isSome = true) :
    Pointed setup (d.withSession (s.restart d.setup)) := by
  subst hsetup
  have hzero (region : Region) : region.start =
      region.start + UInt32.ofNat (region.length.toNat - region.length.toNat) := by
    rw [Nat.sub_self]
    exact (UInt32.add_zero _).symm
  exact ⟨rfl, hoffered, Nat.le_refl _, fun _ => rfl, hzero _⟩

theorem start (setup : Setup) (cipher : Cipher) (board : Board) :
    Pointed setup (Device.start setup cipher board) :=
  restarted (d := Device.start setup cipher board) rfl _ nofun

/-- A session that goes on with the pointer `count` bytes further. -/
theorem advance (h : Pointed setup d) (s : Session) (board : Board) {count : Nat}
    (hphase : s.phase ≠ .idle) (hcount : count ≤ d.session.remaining)
    (htarget : s.target = d.session.target)
    (hremaining : s.remaining = d.session.remaining - count)
    (haddress : s.address = d.session.address + UInt32.ofNat count) :
    Pointed setup { d with session := s, board := board } := by
  have hle := h.remaining_le
  refine ⟨h.same_setup, ?_, ?_, fun hidle => absurd hidle hphase, ?_⟩
  · rw [htarget]
    exact h.offered
  · simp only [htarget, hremaining]
    omega
  · simp only [htarget, hremaining]
    rw [haddress, h.address, UInt32.add_assoc, ← UInt32.ofNat_add]
    congr 2
    omega

/-- The pointer stays where it is when neither the target nor what is left changes. -/
theorem busy (h : Pointed setup d) (s : Session) (board : Board) (hphase : s.phase ≠ .idle)
    (htarget : s.target = d.session.target) (hremaining : s.remaining = d.session.remaining)
    (haddress : s.address = d.session.address) :
    Pointed setup { d with session := s, board := board } :=
  h.advance s board hphase (Nat.zero_le _) htarget hremaining
    (haddress.trans (UInt32.add_zero _).symm)

theorem afterReset (h : Pointed setup d) (s : Session) (htarget : s.target = d.session.target)
    (hremaining : s.remaining = d.session.remaining) (haddress : s.address = d.session.address) :
    Pointed setup ((d.withSession s).inPhase d.session.phase.afterReset) := by
  refine ⟨h.same_setup, fun heeprom => h.offered (htarget.symm.trans heeprom), ?_, ?_, ?_⟩
  · simp only [Device.inPhase, Device.withSession, htarget, hremaining]
    exact h.remaining_le
  · intro hidle
    simp only [Device.inPhase, Device.withSession, htarget, hremaining]
    exact h.remaining_of_idle (Phase.eq_idle_of_afterReset hidle)
  · simp only [Device.inPhase, Device.withSession, htarget, hremaining, haddress]
    exact h.address

/-- Every step keeps the pointer at its place. -/
theorem move (h : Pointed setup d) {calls : List Call} {d' : Device} (hmove : Move d calls d') :
    Pointed setup d' := by
  cases hmove with
  | restart => exact restarted h.same_setup d.session h.offered
  | select htarget =>
      rw [h.same_setup] at htarget
      exact restarted h.same_setup { d.session with target := _ }
        (Setup.offered_of_target? htarget)
  | manifested hphase hnone =>
      exact restarted h.same_setup { d.session with manifested := true } h.offered
  | programmed htakes hboard =>
      exact h.advance _ _ d.programmedPhase_ne_idle htakes.room rfl rfl rfl
  | sent hsends =>
      obtain ⟨buffer, hsession⟩ := hsends.sentSession_eq
      rw [hsession]
      exact h.advance _ d.board nofun hsends.length_data_le rfl rfl rfl
  | stay => exact h
  | failures program read manifest =>
      exact ⟨h.same_setup, h.offered, h.remaining_le, h.remaining_of_idle, h.address⟩
  | arm harm => exact ⟨h.same_setup, h.offered, h.remaining_le, h.remaining_of_idle, h.address⟩
  | resetLeaving hleaves => exact h.afterReset _ rfl rfl rfl
  | resetStaying hleaves => exact h.afterReset d.session rfl rfl rfl
  | _ => exact h.busy _ _ nofun rfl rfl rfl

theorem step (h : Pointed setup d) (s : Step) : Pointed setup (d.step s).device :=
  h.move (d.step_move s)

/-- Before the end of its region the pointer has not wrapped around. -/
theorem toNat_address (h : Pointed setup d)
    (hregion : (setup.region d.session.target).Addressable) (hleft : 0 < d.session.remaining) :
    d.session.address.toNat = (setup.region d.session.target).start.toNat +
      ((setup.region d.session.target).length.toNat - d.session.remaining) := by
  have hle := h.remaining_le
  rw [h.address, hregion.toNat_add (by omega)]

end Pointed

end Dfu

end FirmwareUpdate
