/-
What a bootloader does to the memory in a run.  Every access lies inside the selected region,
and the accesses of one session are all of one kind and follow each other without a gap, until
one fails.
-/
import FirmwareUpdate.Proofs.Dfu.Sessions

namespace FirmwareUpdate

namespace Dfu

/-- What an access does: it programs a memory, or it reads. -/
inductive AccessKind
  | program (target : Target)
  | read
deriving DecidableEq, Repr

/-- An access to the memory: the target that was selected at the time, the range, and whether
the memory did what it was told. -/
structure Access where
  selected : Target
  kind : AccessKind
  address : UInt32
  length : Nat
  succeeded : Bool
deriving DecidableEq, Repr

/-- The number of bytes that the accesses of a log cover together. -/
def Access.total : List Access → Nat
  | [] => 0
  | a :: log => a.length + total log

theorem Access.total_concat (log : List Access) (a : Access) :
    total (log ++ [a]) = total log + a.length := by
  induction log with
  | nil => exact Nat.add_comm a.length 0
  | cons b log ih => rw [List.cons_append, total, total, ih, Nat.add_assoc]

/-- The access that a call makes, if it is one to the memory. -/
def Device.access? (d : Device) : Call → Option Access
  | .program target address data =>
      some ⟨d.session.target, .program target, address, data.length,
        (d.board.program target address data).isOk⟩
  | .read address length =>
      some ⟨d.session.target, .read, address, length, (d.board.read address length).isOk⟩
  | _ => none

/-- The accesses that a step makes. -/
def Device.accesses (d : Device) (s : Step) : List Access :=
  (d.step s).calls.filterMap d.access?

/-- An access that does no harm: it goes to the selected target, which is there, and to a
range inside its region that is not empty and not too long for a transfer. -/
structure Access.Permitted (setup : Setup) (a : Access) : Prop where
  programs_selected : ∀ target, a.kind = .program target → target = a.selected
  offered : a.selected = .eeprom → setup.eeprom.isSome = true
  nonempty : 0 < a.length
  transfer : a.length ≤ setup.profile.transferSize.toNat
  start_le : (setup.region a.selected).start.toNat ≤ a.address.toNat
  stop_le : a.address.toNat + a.length ≤
    (setup.region a.selected).start.toNat + (setup.region a.selected).length.toNat

/-- Each access starts where the one before it ended, and after one that failed there is
no other. -/
def Consecutive (start : Nat) : List Access → Prop
  | [] => True
  | a :: log => a.address.toNat = start ∧ (a.succeeded = false → log = []) ∧
      Consecutive (start + a.length) log

theorem Consecutive.append {start : Nat} {log : List Access} {a : Access}
    (h : Consecutive start log) (hsucceeded : ∀ b ∈ log, b.succeeded = true)
    (ha : a.address.toNat = start + Access.total log) :
    Consecutive start (log ++ [a]) := by
  induction log generalizing start with
  | nil => exact ⟨ha, fun _ => rfl, trivial⟩
  | cons b log ih =>
      obtain ⟨haddress, -, hrest⟩ := h
      have hb := hsucceeded b List.mem_cons_self
      refine ⟨haddress, ?_, ?_⟩
      · intro hfailed
        rw [hb] at hfailed
        cases hfailed
      · apply ih hrest
        · intro c hc
          exact hsucceeded c (List.mem_cons_of_mem b hc)
        · rw [ha, Access.total, Nat.add_assoc]

/-- The accesses of one session: to one target, of one kind, from the start of the region on. -/
structure SessionLog (setup : Setup) (target : Target) (kind : AccessKind) (log : List Access) :
    Prop where
  permitted : ∀ a ∈ log, a.Permitted setup
  alike : ∀ a ∈ log, a.selected = target ∧ a.kind = kind
  consecutive : Consecutive (setup.region target).start.toNat log

/-- The kinds of access that the phase of a device leaves open. -/
def Device.Allows (d : Device) : AccessKind → Prop
  | .program target => target = d.session.target ∧ d.session.phase.takesDownload = true
  | .read => d.session.phase.takesUpload = true

theorem Device.not_allows {d : Device} (hdownload : d.session.phase.takesDownload = false)
    (hupload : d.session.phase.takesUpload = false) (kind : AccessKind) : ¬ d.Allows kind := by
  intro h
  cases kind with
  | program target =>
      rw [Device.Allows, hdownload] at h
      exact Bool.false_ne_true h.2
  | read =>
      rw [Device.Allows, hupload] at h
      exact Bool.false_ne_true h

/-- The log of a session in which everything succeeded and led up to the pointer. -/
structure Reaches (setup : Setup) (d : Device) (kind : AccessKind) (log : List Access) : Prop
    extends SessionLog setup d.session.target kind log where
  succeeded : ∀ a ∈ log, a.succeeded = true
  reach : Access.total log + d.session.remaining =
    (setup.region d.session.target).length.toNat

/-- An access of an allowed kind from the pointer on, with room for it in the region. -/
structure NextAccess (setup : Setup) (d : Device) (a : Access) : Prop where
  selected : a.selected = d.session.target
  allowed : d.Allows a.kind
  address : a.address = d.session.address
  nonempty : 0 < a.length
  transfer : a.length ≤ setup.profile.transferSize.toNat
  room : a.length ≤ d.session.remaining

namespace NextAccess

variable {setup : Setup} {d : Device} {a : Access}

theorem toNat_address (ha : NextAccess setup d a) (hpointed : Pointed setup d)
    (hregion : (setup.region d.session.target).Addressable) :
    a.address.toNat = (setup.region d.session.target).start.toNat +
      ((setup.region d.session.target).length.toNat - d.session.remaining) := by
  have hleft : 0 < d.session.remaining := Nat.lt_of_lt_of_le ha.nonempty ha.room
  rw [ha.address, hpointed.toNat_address hregion hleft]

theorem permitted (ha : NextAccess setup d a) (hpointed : Pointed setup d)
    (hregion : (setup.region d.session.target).Addressable) : a.Permitted setup := by
  have haddress := ha.toNat_address hpointed hregion
  have hle := hpointed.remaining_le
  have hroom := ha.room
  refine ⟨?_, ?_, ha.nonempty, ha.transfer, ?_, ?_⟩
  · intro target htarget
    have hallowed := ha.allowed
    rw [htarget] at hallowed
    rw [ha.selected]
    exact hallowed.1
  · rw [ha.selected]
    exact hpointed.offered
  · rw [ha.selected]
    omega
  · rw [ha.selected]
    omega

end NextAccess

namespace Reaches

variable {setup : Setup} {d : Device} {log : List Access} {a : Access}

/-- A device at the start of its region has accessed nothing. -/
theorem nil (h : d.session.remaining = (setup.region d.session.target).length.toNat)
    (kind : AccessKind) : Reaches setup d kind [] :=
  ⟨⟨nofun, nofun, trivial⟩, nofun, (Nat.zero_add _).trans h⟩

/-- The next access carries the log on, whether it succeeds or not. -/
theorem append (h : Reaches setup d a.kind log) (hpointed : Pointed setup d)
    (hregion : (setup.region d.session.target).Addressable) (ha : NextAccess setup d a) :
    SessionLog setup d.session.target a.kind (log ++ [a]) := by
  have hreach := h.reach
  refine ⟨?_, ?_, ?_⟩
  · rw [List.forall_mem_append, List.forall_mem_singleton]
    exact ⟨h.permitted, ha.permitted hpointed hregion⟩
  · rw [List.forall_mem_append, List.forall_mem_singleton]
    exact ⟨h.alike, ha.selected, rfl⟩
  · apply h.consecutive.append h.succeeded
    rw [ha.toNat_address hpointed hregion]
    omega

/-- After an access that succeeded the log leads up to the pointer again. -/
theorem append_of_succeeded (h : Reaches setup d a.kind log) (hpointed : Pointed setup d)
    (hregion : (setup.region d.session.target).Addressable) (ha : NextAccess setup d a)
    (hsucceeded : a.succeeded = true) {d' : Device}
    (htarget : d'.session.target = d.session.target)
    (hremaining : d'.session.remaining = d.session.remaining - a.length) :
    Reaches setup d' a.kind (log ++ [a]) := by
  have hreach := h.reach
  have hroom := ha.room
  refine ⟨?_, ?_, ?_⟩
  · rw [htarget]
    exact h.append hpointed hregion ha
  · rw [List.forall_mem_append, List.forall_mem_singleton]
    exact ⟨h.succeeded, hsucceeded⟩
  · rw [htarget, hremaining, Access.total_concat]
    omega

end Reaches

/-- A device with the accesses that it has made since it was last idle. -/
structure Accessed (setup : Setup) (d : Device) (log : List Access) : Prop
    extends Pointed setup d where
  session : ∃ target kind, SessionLog setup target kind log
  reaches : d.session.phase ≠ .idle → ∀ kind, d.Allows kind → Reaches setup d kind log

namespace Accessed

variable {setup : Setup} {d d' : Device} {log : List Access} {a : Access}

theorem start (setup : Setup) (cipher : Cipher) (board : Board) :
    Accessed setup (Device.start setup cipher board) [] :=
  ⟨Pointed.start setup cipher board, ⟨.flash, .read, nofun, nofun, trivial⟩,
    fun hbusy => absurd rfl hbusy⟩

theorem session_kept (h : Accessed setup d log) :
    ∃ target kind, SessionLog setup target kind (d.keptLog log) := by
  by_cases hidle : d.session.phase = .idle
  · rw [Device.keptLog_of_idle hidle]
    exact ⟨.flash, .read, nofun, nofun, trivial⟩
  · rw [Device.keptLog_of_busy hidle]
    exact h.session

theorem reaches_kept (h : Accessed setup d log) {kind : AccessKind} (hkind : d.Allows kind) :
    Reaches setup d kind (d.keptLog log) := by
  by_cases hidle : d.session.phase = .idle
  · rw [Device.keptLog_of_idle hidle]
    exact Reaches.nil (h.remaining_of_idle hidle) kind
  · rw [Device.keptLog_of_busy hidle]
    exact h.reaches hidle kind hkind

/-- The log stays when nothing is accessed and no other kind of access is opened. -/
theorem quiet (h : Accessed setup d log) (hpointed : Pointed setup d')
    (hbusy : d'.session.phase ≠ .idle → d'.session.target = d.session.target ∧
      d'.session.remaining = d.session.remaining ∧ ∀ kind, d'.Allows kind → d.Allows kind) :
    Accessed setup d' (d.keptLog log ++ []) := by
  rw [List.append_nil]
  refine ⟨hpointed, h.session_kept, ?_⟩
  intro hphase kind hkind
  obtain ⟨htarget, hremaining, hallows⟩ := hbusy hphase
  obtain ⟨⟨hpermitted, halike, hconsecutive⟩, hsucceeded, hreach⟩ :=
    h.reaches_kept (hallows kind hkind)
  refine ⟨⟨hpermitted, ?_, ?_⟩, hsucceeded, ?_⟩
  · rw [htarget]
    exact halike
  · rw [htarget]
    exact hconsecutive
  · rw [htarget, hremaining]
    exact hreach

/-- A device that is done with its session, well or badly, keeps the log of it. -/
theorem closed (h : Accessed setup d log) (hpointed : Pointed setup d')
    (hphase : d'.session.phase = .idle ∨ ∃ code, d'.session.phase = .error code) :
    Accessed setup d' (d.keptLog log ++ []) := by
  rw [List.append_nil]
  refine ⟨hpointed, h.session_kept, ?_⟩
  intro hbusy kind hkind
  rcases hphase with hidle | ⟨code, hcode⟩
  · exact absurd hidle hbusy
  · exact absurd hkind (Device.not_allows (by rw [hcode]; rfl) (by rw [hcode]; rfl) kind)

/-- A bus reset ends a session, or opens no other kind of access. -/
theorem afterReset (h : Accessed setup d log) {s : Session}
    (hpointed : Pointed setup ((d.withSession s).inPhase d.session.phase.afterReset))
    (htarget : s.target = d.session.target) (hremaining : s.remaining = d.session.remaining) :
    Accessed setup ((d.withSession s).inPhase d.session.phase.afterReset)
      (d.keptLog log ++ []) := by
  rcases d.session.phase.afterReset_cases with hsame | herror
  · rw [hsame] at hpointed ⊢
    refine h.quiet hpointed fun _ => ⟨htarget, hremaining, fun kind hkind => ?_⟩
    cases kind with
    | program target => exact ⟨hkind.1.trans htarget, hkind.2⟩
    | read => exact hkind
  · rw [herror] at hpointed ⊢
    exact h.closed hpointed (.inr ⟨.usbReset, rfl⟩)

/-- An access that fails ends the session in an error. -/
theorem failed (h : Accessed setup d log) (hregion : (setup.region d.session.target).Addressable)
    (hpointed : Pointed setup d') (ha : NextAccess setup d a)
    (hphase : ∃ code, d'.session.phase = .error code) :
    Accessed setup d' (d.keptLog log ++ [a]) := by
  have hlog := (h.reaches_kept ha.allowed).append h.toPointed hregion ha
  refine ⟨hpointed, ⟨_, _, hlog⟩, ?_⟩
  intro hbusy kind hkind
  obtain ⟨code, hcode⟩ := hphase
  exact absurd hkind (Device.not_allows (by rw [hcode]; rfl) (by rw [hcode]; rfl) kind)

/-- After an access that succeeded only its kind is left open. -/
theorem succeeded (h : Accessed setup d log)
    (hregion : (setup.region d.session.target).Addressable) (hpointed : Pointed setup d')
    (ha : NextAccess setup d a) (hsucceeded : a.succeeded = true)
    (htarget : d'.session.target = d.session.target)
    (hremaining : d'.session.remaining = d.session.remaining - a.length)
    (honly : ∀ kind, d'.Allows kind → kind = a.kind) :
    Accessed setup d' (d.keptLog log ++ [a]) := by
  have hlog := (h.reaches_kept ha.allowed).append h.toPointed hregion ha
  refine ⟨hpointed, ⟨_, _, hlog⟩, ?_⟩
  intro hbusy kind hkind
  rw [honly kind hkind]
  exact (h.reaches_kept ha.allowed).append_of_succeeded h.toPointed hregion ha hsucceeded htarget
    hremaining

/-- A block of a download is programmed from the pointer on. -/
theorem next_of_takesBlock (h : Accessed setup d log) {data plain : Bytes} {cipher : Cipher}
    (htakes : d.TakesBlock data plain cipher) (succeeded : Bool) :
    NextAccess setup d ⟨d.session.target, .program d.session.target, d.session.address,
      plain.length, succeeded⟩ := by
  have hlength := htakes.length_plain
  have hpos := List.length_pos_iff.mpr htakes.nonempty
  have htransfer := htakes.transfer
  rw [h.same_setup] at htransfer
  refine ⟨rfl, ⟨rfl, htakes.phase⟩, rfl, ?_, ?_, ?_⟩
  · rw [hlength]
    exact hpos
  · rw [hlength]
    exact htransfer
  · rw [hlength]
    exact htakes.room

/-- The part of the region in a frame is read from the pointer on. -/
theorem next_of_offersFrame (h : Accessed setup d log) {length : Nat}
    (hoffers : d.OffersFrame length) (hpos : (d.nextFrame length).data ≠ 0) (succeeded : Bool) :
    NextAccess setup d ⟨d.session.target, .read, d.session.address, (d.nextFrame length).data,
      succeeded⟩ := by
  have hfits := d.nextFrame_fits length
  have hroom := hfits.room
  have hlimit := hfits.size_le
  rw [h.same_setup] at hlimit
  refine ⟨rfl, hoffers.phase, rfl, Nat.pos_of_ne_zero hpos, ?_, hfits.data_le⟩
  simp only
  omega

/-- What every step keeps. -/
theorem move (h : Accessed setup d log) (hregions : ∀ target, (setup.region target).Addressable)
    {calls : List Call} (hmove : Move d calls d') :
    Accessed setup d' (d.keptLog log ++ calls.filterMap d.access?) := by
  have hpointed := h.toPointed.move hmove
  have hregion := hregions d.session.target
  cases hmove with
  | stay => exact h.quiet hpointed fun _ => ⟨rfl, rfl, fun _ => id⟩
  | failures program read manifest =>
      exact h.quiet hpointed fun _ => ⟨rfl, rfl, fun kind hkind => by cases kind <;> exact hkind⟩
  | arm harm =>
      exact h.quiet hpointed fun _ => ⟨rfl, rfl, fun kind hkind => by cases kind <;> exact hkind⟩
  | fail code => exact h.closed hpointed (.inr ⟨code, rfl⟩)
  | restart => exact h.closed hpointed (.inl rfl)
  | select htarget => exact h.closed hpointed (.inl rfl)
  | finish hphase =>
      exact h.quiet hpointed fun _ =>
        ⟨rfl, rfl, fun kind hkind => absurd hkind (Device.not_allows rfl rfl kind)⟩
  | misfit hexpects he => exact h.closed hpointed (.inr ⟨.file, rfl⟩)
  | @notProgrammed data plain cipher fault htakes hfault =>
      have hnext := h.next_of_takesBlock htakes false
      have hlog := h.failed hregion hpointed hnext ⟨fault.code, rfl⟩
      simpa only [Device.access?, hfault, Except.isOk, Except.toBool, List.filterMap_cons,
        List.filterMap_nil] using hlog
  | @programmed data plain cipher board htakes hboard =>
      have hnext := h.next_of_takesBlock htakes true
      have hlog := h.succeeded hregion hpointed hnext rfl rfl
        (by rw [htakes.length_plain]; rfl) (by
          intro kind hkind
          cases kind with
          | program target => exact congrArg AccessKind.program hkind.1
          | read =>
              simp only [Device.Allows, Device.programmedPhase] at hkind
              split at hkind <;> cases hkind)
      simpa only [Device.access?, hboard, Except.isOk, Except.toBool, List.filterMap_cons,
        List.filterMap_nil] using hlog
  | resume hphase =>
      apply h.quiet hpointed
      intro _
      refine ⟨rfl, rfl, ?_⟩
      intro kind hkind
      cases kind with
      | program target => exact ⟨hkind.1, by rw [Phase.takesDownload, hphase]⟩
      | read => cases hkind
  | notManifested hphase hfault => exact h.closed hpointed (.inr ⟨_, rfl⟩)
  | manifested hphase hnone => exact h.closed hpointed (.inl rfl)
  | @notFetched length fault hoffers hfault =>
      by_cases hzero : (d.nextFrame length).data = 0
      · rw [Device.fetch, if_pos hzero] at hfault
        cases hfault
      · rw [Device.fetch, if_neg hzero] at hfault
        have hnext := h.next_of_offersFrame hoffers hzero false
        have hlog := h.failed hregion hpointed hnext ⟨fault.code, rfl⟩
        simpa only [Device.fetchCalls, hzero, Device.access?, hfault, Except.isOk, Except.toBool,
          List.filterMap_cons, List.filterMap_nil, ↓reduceIte] using hlog
  | @sent length data secret cipher hsends =>
      obtain ⟨buffer, hsession⟩ := hsends.sentSession_eq
      have hlength := Device.length_of_fetch hsends.fetch
      have hfetch := hsends.fetch
      rw [hsession] at hpointed ⊢
      by_cases hzero : (d.nextFrame length).data = 0
      · have hcalls : d.fetchCalls (d.nextFrame length).data = [] := if_pos hzero
        rw [hcalls]
        apply h.quiet hpointed
        intro _
        refine ⟨rfl, ?_, ?_⟩
        · change d.session.remaining - data.length = d.session.remaining
          rw [hlength, hzero, Nat.sub_zero]
        · intro kind hkind
          cases kind with
          | program target => cases hkind.2
          | read => exact hsends.phase
      · rw [Device.fetch, if_neg hzero] at hfetch
        have hnext := h.next_of_offersFrame hsends.toOffersFrame hzero true
        have hlog := h.succeeded hregion hpointed hnext rfl rfl (congrArg _ hlength) (by
          intro kind hkind
          cases kind with
          | program target => cases hkind.2
          | read => rfl)
        simpa only [Device.fetchCalls, hzero, Device.access?, hfetch, Except.isOk, Except.toBool,
          List.filterMap_cons, List.filterMap_nil, ↓reduceIte] using hlog
  | resetLeaving hleaves => exact h.afterReset hpointed rfl rfl
  | resetStaying hleaves => exact h.afterReset (s := d.session) hpointed rfl rfl

end Accessed

/-- Whatever is done to a bootloader, every access to the memory is one that its setup permits.
In one session all accesses are of one kind, the first begins at the start of the region, each
other one where the one before it ended, and none follows one that failed. -/
theorem sessionLog_of_run {setup : Setup}
    (hregions : ∀ target, (setup.region target).Addressable) (cipher : Cipher) (board : Board)
    (steps : List Step) :
    (∃ target kind, SessionLog setup target kind
      ((Device.start setup cipher board).sinceIdle Device.accesses [] steps)) ∧
    ∀ s, ∀ a ∈ ((Device.start setup cipher board).after steps).accesses s, a.Permitted setup := by
  have hrun (steps : List Step) : Accessed setup ((Device.start setup cipher board).after steps)
      ((Device.start setup cipher board).sinceIdle Device.accesses [] steps) :=
    Device.sinceIdle_induction (motive := Accessed setup)
      (fun d log s h => h.move hregions (d.step_move s)) (.start setup cipher board) steps
  refine ⟨(hrun steps).session, ?_⟩
  intro s a ha
  -- an access of the next step is the last one of the log that ends with it
  obtain ⟨target, kind, hlog⟩ := (hrun (steps ++ [s])).session
  apply hlog.permitted a
  rw [Device.sinceIdle_concat]
  exact List.mem_append_right _ ha

/-- A region at the very top of the address space: a block is programmed, the next one fails. -/
theorem sessionLog_of_run_top_of_memory :
    let setup : Setup := ⟨{}, 0, ⟨0xFFFFFFF0, 16⟩, none⟩
    let board : Board := ⟨⟨0xFFFFFFF0, List.replicate 16 0xFF⟩, ⟨0, []⟩, {}, none, none, none⟩
    let block (data : Bytes) : Step :=
      .control { type := 0x21, code := 1, index := 0, length := UInt16.ofNat data.length, data }
    let steps := [block [1, 2, 3, 4, 5, 6, 7, 8], .failProgram (some .write), block [9, 10, 11, 12]]
    let cipher : Cipher := ⟨.plain, .ecb, .plain⟩
    let log := (Device.start setup cipher board).sinceIdle Device.accesses [] steps
    log = [⟨.flash, .program .flash, 0xFFFFFFF0, 8, true⟩,
        ⟨.flash, .program .flash, 0xFFFFFFF8, 4, false⟩] ∧
      (∀ target, (setup.region target).Addressable) ∧
      ∃ target kind, SessionLog setup target kind log := by
  intro setup board block steps cipher log
  have hregions (target : Target) : (setup.region target).Addressable := by
    cases target <;> decide
  exact ⟨by decide, hregions, (sessionLog_of_run hregions cipher board steps).1⟩

end Dfu

end FirmwareUpdate
