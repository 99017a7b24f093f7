/-
A new session forgets the old one.  What lies in the transfer buffer between two steps
is never seen again, and an idle device has put everything else of its last session
back; so two devices that differ in their pasts alone cannot be told apart.
-/
import FirmwareUpdate.Proofs.Dfu.Moves

namespace FirmwareUpdate

namespace Dfu

/-- What can be seen of a step: the answer, the calls to the board with their addresses
and bytes, the length that the scan for a checksum has found, and the board. -/
structure View where
  answer : Answer
  calls : List Call
  checked : Option Nat
  board : Board
deriving DecidableEq, Repr

def Outcome.view (o : Outcome) : View :=
  ⟨o.answer, o.calls, o.device.session.checkedLength, o.device.board⟩

/-- What can be seen of a run, step by step. -/
def Device.views (d : Device) (steps : List Step) : List View :=
  (d.run steps).map Outcome.view

/-- The device with other bytes in its transfer buffer. -/
def Device.withBuffer (d : Device) (buffer : Block Defaults.maxTransferSize) : Device :=
  d.withSession { d.session with buffer := buffer }

/-- Two outcomes that differ in the bytes of the transfer buffer alone. -/
def Outcome.Alike (o o' : Outcome) : Prop :=
  o'.answer = o.answer ∧ o'.calls = o.calls ∧
    ∃ buffer, o'.device = o.device.withBuffer buffer

theorem Outcome.Alike.view_eq {o o' : Outcome} (h : o.Alike o') : o'.view = o.view := by
  obtain ⟨hanswer, hcalls, buffer, hdevice⟩ := h
  rw [Outcome.view, Outcome.view, hanswer, hcalls, hdevice]
  rfl

namespace Device

variable (d : Device) (buffer : Block Defaults.maxTransferSize)

theorem refuse_withBuffer : d.refuse.Alike (d.withBuffer buffer).refuse :=
  ⟨rfl, rfl, buffer, rfl⟩

theorem download_withBuffer (data : Bytes) :
    (d.download data).Alike ((d.withBuffer buffer).download data) := by
  cases d.incoming data with
  | unexpected hphase =>
      rw [download_of_unexpected hphase, download_of_unexpected (d := d.withBuffer buffer) hphase]
      exact d.refuse_withBuffer buffer
  | final hphase hdata =>
      rw [hdata, download_nil hphase, download_nil (d := d.withBuffer buffer) hphase]
      exact ⟨rfl, rfl, buffer, rfl⟩
  | tooLong hphase hdata htransfer =>
      rw [download_of_tooLong hphase hdata htransfer,
        download_of_tooLong (d := d.withBuffer buffer) hphase hdata htransfer]
      exact d.refuse_withBuffer buffer
  | pastEnd h hroom =>
      have h' : (d.withBuffer buffer).ExpectsBlock data := ⟨h.phase, h.nonempty, h.transfer⟩
      rw [download_of_pastEnd h hroom, download_of_pastEnd h' hroom]
      exact ⟨rfl, rfl, buffer, rfl⟩
  | misfit e h hroom he =>
      have h' : (d.withBuffer buffer).ExpectsBlock data := ⟨h.phase, h.nonempty, h.transfer⟩
      rw [download_of_misfit h hroom he, download_of_misfit h' hroom he]
      exact ⟨rfl, rfl, _, rfl⟩
  | block plain cipher h =>
      have h' : (d.withBuffer buffer).TakesBlock data plain cipher :=
        ⟨⟨h.phase, h.nonempty, h.transfer⟩, h.room, h.decrypt⟩
      obtain ⟨left, hleft⟩ := h.received_eq
      obtain ⟨right, hright⟩ := h'.received_eq
      cases hboard : d.board.program d.session.target d.session.address plain with
      | error fault =>
          rw [download_of_not_programmed h hboard, download_of_not_programmed h' hboard, hleft,
            hright]
          exact ⟨rfl, rfl, right, rfl⟩
      | ok board =>
          rw [download_of_programmed h hboard, download_of_programmed h' hboard, hleft, hright]
          exact ⟨rfl, rfl, right, rfl⟩

theorem upload_withBuffer (length : Nat) :
    (d.upload length).Alike ((d.withBuffer buffer).upload length) := by
  cases d.asked length with
  | unexpected h =>
      have h' : ¬ (d.withBuffer buffer).ExpectsUpload :=
        fun hexpects => h ⟨hexpects.enabled, hexpects.phase⟩
      rw [upload_of_unexpected h, upload_of_unexpected h']
      exact d.refuse_withBuffer buffer
  | finished h hleft =>
      have h' : (d.withBuffer buffer).ExpectsUpload := ⟨h.enabled, h.phase⟩
      rw [upload_of_nothing_left h hleft, upload_of_nothing_left h' hleft]
      exact ⟨rfl, rfl, buffer, rfl⟩
  | tooShort h hleft hsize =>
      have h' : (d.withBuffer buffer).ExpectsUpload := ⟨h.enabled, h.phase⟩
      rw [upload_of_tooShort h hleft hsize, upload_of_tooShort h' hleft hsize]
      exact d.refuse_withBuffer buffer
  | notFetched fault h hfault =>
      have h' : (d.withBuffer buffer).OffersFrame length :=
        ⟨⟨h.enabled, h.phase⟩, h.left, h.size⟩
      rw [upload_of_not_fetched h hfault, upload_of_not_fetched h' hfault]
      exact ⟨rfl, rfl, buffer, rfl⟩
  | frame data secret cipher h =>
      have h' : (d.withBuffer buffer).SendsFrame length data secret cipher :=
        ⟨⟨⟨h.enabled, h.phase⟩, h.left, h.size⟩, h.fetch, h.encrypt⟩
      obtain ⟨left, hleft⟩ := h.sentSession_eq
      obtain ⟨right, hright⟩ := h'.sentSession_eq
      rw [upload_of_sendsFrame h, upload_of_sendsFrame h', hleft, hright]
      exact ⟨rfl, rfl, right, rfl⟩

theorem getStatus_withBuffer (length : Nat) :
    (d.getStatus length).Alike ((d.withBuffer buffer).getStatus length) := by
  have hphase : (d.withBuffer buffer).session.phase = d.session.phase := rfl
  have hboard : (d.withBuffer buffer).board = d.board := rfl
  simp only [getStatus, hphase, hboard]
  split
  · exact d.refuse_withBuffer buffer
  · split
    · exact ⟨rfl, rfl, buffer, rfl⟩
    · split <;> exact ⟨rfl, rfl, buffer, rfl⟩
    · exact ⟨rfl, rfl, buffer, rfl⟩

theorem command_withBuffer (r : Request) :
    (d.command r).Alike ((d.withBuffer buffer).command r) := by
  have hphase : (d.withBuffer buffer).session.phase = d.session.phase := rfl
  have hsetup : (d.withBuffer buffer).setup = d.setup := rfl
  unfold command
  split
  next =>
      simp only [detach, hsetup]
      split
      · exact ⟨rfl, rfl, buffer, rfl⟩
      · exact d.refuse_withBuffer buffer
  next => exact d.download_withBuffer buffer r.data
  next => exact d.upload_withBuffer buffer r.length.toNat
  next => exact d.getStatus_withBuffer buffer r.length.toNat
  next =>
      simp only [clearStatus, hphase]
      split
      · exact ⟨rfl, rfl, buffer, rfl⟩
      · exact d.refuse_withBuffer buffer
  next =>
      simp only [getState, hphase]
      split
      · exact d.refuse_withBuffer buffer
      · exact ⟨rfl, rfl, buffer, rfl⟩
  next =>
      simp only [abort, hphase]
      split
      · exact ⟨rfl, rfl, buffer, rfl⟩
      · exact d.refuse_withBuffer buffer
  next => exact d.refuse_withBuffer buffer

theorem control_withBuffer (r : Request) :
    (d.control r).Alike ((d.withBuffer buffer).control r) := by
  have hsetup : (d.withBuffer buffer).setup = d.setup := rfl
  simp only [control, hsetup]
  split
  · exact ⟨rfl, rfl, buffer, rfl⟩
  · split
    · exact ⟨rfl, rfl, buffer, rfl⟩
    · obtain ⟨hanswer, hcalls, after, hdevice⟩ := d.command_withBuffer buffer r
      exact ⟨congrArg (deliver r.length.toNat) hanswer, hcalls, after, hdevice⟩

theorem setInterface_withBuffer (alternate index : UInt16) :
    (d.setInterface alternate index).Alike
      ((d.withBuffer buffer).setInterface alternate index) := by
  have hsetup : (d.withBuffer buffer).setup = d.setup := rfl
  by_cases hrange : maxNumber < index ∨ maxNumber < alternate
  · simp only [setInterface, hrange, ↓reduceIte]
    exact ⟨rfl, rfl, buffer, rfl⟩
  · by_cases hindex : index.toUInt8 = d.setup.interface
    · simp only [setInterface, select?, hsetup, hrange, hindex, ↓reduceIte]
      cases d.setup.target? alternate.toUInt8 with
      | none => exact ⟨rfl, rfl, buffer, rfl⟩
      | some target => exact ⟨rfl, rfl, buffer, rfl⟩
    · simp only [setInterface, hsetup, hrange, hindex, ↓reduceIte]
      exact ⟨rfl, rfl, buffer, rfl⟩

/-- What lies in the buffer before a step is not seen in it. -/
theorem step_withBuffer (s : Step) : (d.step s).Alike ((d.withBuffer buffer).step s) := by
  cases s with
  | control r => exact d.control_withBuffer buffer r
  | setInterface alternate index => exact d.setInterface_withBuffer buffer alternate index
  | getInterface index =>
      have hsetup : (d.withBuffer buffer).setup = d.setup := rfl
      simp only [step, getInterface, hsetup]
      split
      · exact ⟨rfl, rfl, buffer, rfl⟩
      · split <;> exact ⟨rfl, rfl, buffer, rfl⟩
  | getDescriptor query => exact ⟨rfl, rfl, buffer, rfl⟩
  | busReset =>
      change d.busReset.Alike (d.withBuffer buffer).busReset
      cases hleaves : d.session.leaves with
      | true =>
          rw [busReset_of_leaves hleaves, busReset_of_leaves (d := d.withBuffer buffer) hleaves]
          exact ⟨rfl, rfl, buffer, rfl⟩
      | false =>
          rw [busReset_of_stays hleaves, busReset_of_stays (d := d.withBuffer buffer) hleaves]
          exact ⟨rfl, rfl, buffer, rfl⟩
  | markPowerOnReset => exact ⟨rfl, rfl, buffer, rfl⟩
  | markCorruptFirmware => exact ⟨rfl, rfl, buffer, rfl⟩
  | failProgram fault => exact ⟨rfl, rfl, buffer, rfl⟩
  | failRead fault => exact ⟨rfl, rfl, buffer, rfl⟩
  | failManifest fault => exact ⟨rfl, rfl, buffer, rfl⟩

/-- What lies in the buffer before a run is never seen. -/
theorem views_withBuffer (steps : List Step) :
    (d.withBuffer buffer).views steps = d.views steps := by
  induction steps generalizing d buffer with
  | nil => rfl
  | cons s steps ih =>
      have hstep := d.step_withBuffer buffer s
      obtain ⟨after, hdevice⟩ := hstep.2.2
      change ((d.withBuffer buffer).step s).view ::
          ((d.withBuffer buffer).step s).device.views steps =
        (d.step s).view :: (d.step s).device.views steps
      rw [hstep.view_eq, hdevice, ih]

end Device

/-- Two idle devices with the same past but for the buffer: one is the other with another
buffer. -/
theorem eq_withBuffer_of_idle {setup : Setup} {c₁ c₂ : Cipher} {d₁ d₂ : Device}
    (h₁ : Sound setup c₁ d₁) (h₂ : Sound setup c₂ d₂) (hcipher : c₁.reset = c₂.reset)
    (hidle₁ : d₁.session.phase = .idle) (hidle₂ : d₂.session.phase = .idle)
    (htarget : d₁.session.target = d₂.session.target)
    (harmed : d₁.session.detachArmed = d₂.session.detachArmed)
    (hmanifested : d₁.session.manifested = d₂.session.manifested)
    (hboard : d₁.board = d₂.board) : d₂ = d₁.withBuffer d₂.session.buffer := by
  have hsession : d₂.session = { d₁.session with buffer := d₂.session.buffer } := by
    have hleft := h₁.session_eq hidle₁
    rw [htarget, harmed, hmanifested, hcipher] at hleft
    rw [hleft]
    exact h₂.session_eq hidle₂
  have hsetup : d₁.setup = d₂.setup := h₁.same_setup.trans h₂.same_setup.symm
  obtain ⟨setup₁, session₁, board₁⟩ := d₁
  obtain ⟨setup₂, session₂, board₂⟩ := d₂
  simp only at hsetup hboard hsession
  rw [Device.withBuffer, Device.withSession, ← hsetup, ← hboard, ← hsession]

/-- Two devices of one setup, whose ciphers are of one kind, mode, key and nonce, are idle
with the same target, the same memory and the same flags for the next bus reset.  Then no
run tells them apart, however different their pasts; nor do the bytes in the buffer. -/
theorem views_eq_of_idle {setup : Setup} {kind : CipherKind} {mode : ChainMode}
    {key nonce : Bytes} {c₁ c₂ : Cipher} {d₁ d₂ : Device}
    (hc₁ : Cipher.make kind mode key nonce = .ok c₁.reset)
    (hc₂ : Cipher.make kind mode key nonce = .ok c₂.reset)
    (h₁ : Reachable setup c₁ d₁) (h₂ : Reachable setup c₂ d₂)
    (hidle₁ : d₁.session.phase = .idle) (hidle₂ : d₂.session.phase = .idle)
    (htarget : d₁.session.target = d₂.session.target)
    (harmed : d₁.session.detachArmed = d₂.session.detachArmed)
    (hmanifested : d₁.session.manifested = d₂.session.manifested)
    (hboard : d₁.board = d₂.board) (steps : List Step) :
    d₁.views steps = d₂.views steps ∧
      ∀ buffer, (d₁.withBuffer buffer).views steps = d₁.views steps := by
  have hcipher : c₁.reset = c₂.reset := by
    rw [hc₁] at hc₂
    exact Except.ok.inj hc₂
  have heq := eq_withBuffer_of_idle h₁.sound h₂.sound hcipher hidle₁ hidle₂ htarget harmed
    hmanifested hboard
  constructor
  · rw [heq, Device.views_withBuffer]
  · intro buffer
    exact d₁.views_withBuffer buffer steps

/-- Half of an upload under a chained cipher, broken off, leaves no trace in the next one. -/
theorem views_after_broken_upload :
    let setup : Setup := { profile := {}, interface := 0, flash := ⟨0, 16⟩, eeprom := none }
    let chain := Chain.start (Primitive.keyed .xtea Defaults.keyA) .cbc
      (Block.ofBytes _ Defaults.nonce)
    let cipher : Cipher := ⟨.block .xtea, .cbc, .chain chain⟩
    let board : Board := { flash := ⟨0, List.replicate 16 7⟩, eeprom := ⟨0x100, []⟩ }
    let fresh := Device.start setup cipher board
    let upload : Step := .control { type := 0xA1, code := 2, index := 0, length := 8 }
    let abort : Step := .control { type := 0x21, code := 6, index := 0 }
    fresh.views [upload, upload] = (fresh.after [upload, abort]).views [upload, upload] := by
  intro setup chain cipher board fresh upload abort
  have hmake : Cipher.make (.block .xtea) .cbc Defaults.keyA Defaults.nonce = .ok cipher.reset :=
    rfl
  have hfresh : Reachable setup cipher fresh := ⟨board, [], rfl⟩
  have hbroken : Reachable setup cipher (fresh.after [upload, abort]) :=
    ⟨board, [upload, abort], rfl⟩
  have hidle : (fresh.after [upload, abort]).session.phase = .idle := by decide +kernel
  have htarget : fresh.session.target = (fresh.after [upload, abort]).session.target := by
    decide +kernel
  have hflags : fresh.session.detachArmed = (fresh.after [upload, abort]).session.detachArmed ∧
      fresh.session.manifested = (fresh.after [upload, abort]).session.manifested := by
    decide +kernel
  have hboard : fresh.board = (fresh.after [upload, abort]).board := by decide +kernel
  exact (views_eq_of_idle hmake hmake hfresh hbroken rfl hidle htarget hflags.1 hflags.2 hboard
    [upload, upload]).1

end Dfu

end FirmwareUpdate
