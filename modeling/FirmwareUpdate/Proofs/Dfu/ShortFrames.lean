/-
What a host receives that asks for whole transfers and takes the first short reply for the end
of the upload.  The last bytes of a region may fit a transfer that has no room for their
checksum; they go in a short frame then, and the host does not ask for what is behind it.
-/
import FirmwareUpdate.Proofs.Dfu.Upload

namespace FirmwareUpdate

namespace Dfu

section

variable {block limit remaining width : Nat}

/-- A limit of whole blocks is used up while more of the region is left. -/
theorem Frame.plan_of_more (hlimit : limit % block = 0) (hmore : limit ≤ remaining)
    (h : ¬ Bytes.roundUp (remaining + width) block ≤ limit) :
    plan block limit remaining width = ⟨limit, 0, limit⟩ := by
  simp only [plan, h, ↓reduceIte, Nat.min_eq_left hmore, hlimit, Nat.sub_zero]

/-- The last bytes of the region go without their checksum if that does not fit. -/
theorem Frame.plan_of_less (hless : remaining ≤ limit)
    (h : ¬ Bytes.roundUp (remaining + width) block ≤ limit) :
    plan block limit remaining width =
      ⟨remaining - remaining % block, 0, remaining - remaining % block⟩ := by
  simp only [plan, h, ↓reduceIte, Nat.min_eq_right hless]

end

/-- What a host has that joins the replies to its requests and stops at the first one that is
shorter than it asked for; nothing if it comes to no end. -/
def Device.receiveUntilShort (d : Device) : List Request → Option Bytes
  | [] => none
  | r :: rest =>
      match (d.step (.control r)).answer with
      | .reply data =>
          if data.length < r.length.toNat then some data
          else ((d.step (.control r)).device.receiveUntilShort rest).map (data ++ ·)
      | _ => none

/-- What such a host has, before it is encrypted, that asks for whole transfers: everything, if
the last bytes of the region and their checksum fit one transfer together; else neither the
checksum nor the bytes that fill no block. -/
def Setup.textUntilShort (setup : Setup) (block : Nat) (stored : Bytes) : Bytes :=
  let rest := stored.length % setup.profile.transferSize.toNat
  if rest + setup.trailerWidth ≤ setup.profile.transferSize.toNat then
    Bytes.padZero block (stored ++ setup.trailer stored)
  else stored.take (stored.length - rest % block)

section

variable {setup : Setup} {block : Nat} {stored : Bytes}

theorem Setup.textUntilShort_of_fits
    (h : stored.length % setup.profile.transferSize.toNat + setup.trailerWidth ≤
      setup.profile.transferSize.toNat) :
    setup.textUntilShort block stored = Bytes.padZero block (stored ++ setup.trailer stored) :=
  if_pos h

theorem Setup.textUntilShort_of_over
    (h : setup.profile.transferSize.toNat <
      stored.length % setup.profile.transferSize.toNat + setup.trailerWidth) :
    setup.textUntilShort block stored =
      stored.take (stored.length - stored.length % setup.profile.transferSize.toNat % block) :=
  if_neg (Nat.not_le.mpr h)

/-- What such a host has is always the front of the upload. -/
theorem Setup.textUntilShort_prefix (setup : Setup) (block : Nat) (stored : Bytes) :
    setup.textUntilShort block stored <+:
      Bytes.padZero block (stored ++ setup.trailer stored) := by
  unfold textUntilShort
  simp only
  split
  · exact List.prefix_rfl
  · exact (List.take_prefix _ _).trans ((List.prefix_append _ _).trans (List.prefix_append _ _))

end

/-- An upload in whole transfers is on offer: they fit the bus, are made of whole blocks, and have
room for a block, and for the last bytes of a region that fill none with their checksum. -/
structure Setup.UploadsWhole (setup : Setup) (block : Nat) : Prop where
  enabled : setup.profile.uploads = true
  transfer : setup.profile.transferSize.toNat ≤ controlBuffer
  whole : setup.profile.transferSize.toNat % block = 0
  room : setup.leastRoom block ≤ setup.profile.transferSize.toNat

theorem Setup.UploadsWhole.transferSize_pos {setup : Setup} {block : Nat}
    (h : setup.UploadsWhole block) (hblock : 0 < block) :
    0 < setup.profile.transferSize.toNat :=
  Nat.lt_of_lt_of_le hblock (Nat.le_trans (Nat.le_max_left _ _) h.room)

/-- The requests of a host that asks for whole transfers. -/
def Setup.AsksWhole (setup : Setup) (r : Request) : Prop :=
  r.Carries setup.interface .upload ∧ r.length = setup.profile.transferSize

instance (setup : Setup) (r : Request) : Decidable (setup.AsksWhole r) :=
  inferInstanceAs (Decidable (_ ∧ _))

namespace Device

variable {d d' : Device} {piece : Bytes} {calls : List Call} {r : Request} {length : Nat}

/-- A reply that is not the end is as long as its frame. -/
theorem length_of_upload (hleft : ¬ (d.session.remaining = 0 ∧ d.session.trailerWidth = 0))
    (hupload : d.upload length = ⟨d', .reply piece, calls⟩) :
    piece.length = (d.nextFrame length).size := by
  cases d.asked length with
  | unexpected h =>
      rw [upload_of_unexpected h] at hupload
      cases hupload
  | finished h hdone => exact absurd hdone hleft
  | tooShort h _ hsize =>
      rw [upload_of_tooShort h hleft hsize] at hupload
      cases hupload
  | notFetched fault h hfault =>
      rw [upload_of_not_fetched h hfault] at hupload
      cases hupload
  | frame data secret cipher h =>
      rw [upload_of_sendsFrame h] at hupload
      cases hupload
      exact h.length_secret

end Device

section

variable {setup : Setup} {cipher : Cipher} {target : Target} {board : Board}
  {stored plain secret piece : Bytes} {count sent : Nat} {d d' : Device} {calls : List Call}
  {r : Request}

/-- A host goes on behind a reply that is as long as it asked for. -/
theorem Serving.receiveUntilShort_cons (h : Serving setup cipher target board plain secret d)
    (hr : setup.AsksWhole r)
    (hupload : d.upload setup.profile.transferSize.toNat = ⟨d', .reply piece, calls⟩)
    (hbuffer : piece.length ≤ controlBuffer)
    (hlength : piece.length ≤ setup.profile.transferSize.toNat) (rest : List Request) :
    d.receiveUntilShort (r :: rest) =
      if piece.length < setup.profile.transferSize.toNat then some piece
      else (d'.receiveUntilShort rest).map (piece ++ ·) := by
  obtain ⟨hcarries, hsize⟩ := hr
  rw [← h.same_setup] at hcarries
  rw [← hsize] at hupload hlength ⊢
  rw [Device.receiveUntilShort, Device.step_of_upload hcarries, hupload,
    Device.deliver_of_fits hbuffer hlength]

/-- Behind everything comes an empty reply. -/
theorem AllSent.receiveUntilShort (h : AllSent setup cipher target board stored count secret d)
    (hset : setup.UploadsWhole cipher.blockSize) (hr : setup.AsksWhole r)
    (rest : List Request) :
    d.receiveUntilShort (r :: rest) = some [] := by
  have henabled := hset.enabled
  rw [← h.same_setup] at henabled
  have hupload : d.upload setup.profile.transferSize.toNat = ⟨d.restart, .reply [], []⟩ :=
    Device.upload_of_nothing_left ⟨henabled, h.phase⟩ ⟨h.remaining, h.trailerWidth⟩
  rw [h.receiveUntilShort_cons hr hupload (Nat.zero_le _) (Nat.zero_le _), List.length_nil,
    if_pos (hset.transferSize_pos cipher.blockSize_pos)]

namespace UnderWay

/-- A frame without the checksum takes the upload further by its size. -/
theorem upload_part (h : UnderWay setup cipher target board stored count sent secret d)
    (hreads : board.Reads (setup.region target) stored)
    (hset : setup.UploadsWhole cipher.blockSize)
    (hfits : ¬ Bytes.roundUp (stored.length - sent + setup.trailerWidth) cipher.blockSize ≤
      setup.profile.transferSize.toNat) :
    ∃ d' piece calls,
      d.upload setup.profile.transferSize.toNat = ⟨d', .reply piece, calls⟩ ∧
      piece.length = (Frame.plan cipher.blockSize setup.profile.transferSize.toNat
        (stored.length - sent) setup.trailerWidth).size ∧
      UnderWay setup cipher target board stored (count + 1) (sent + piece.length)
        (secret ++ piece) d' := by
  have hlimit := Nat.min_self setup.profile.transferSize.toNat
  have hroom := hset.room
  have hexceeds := hfits
  rw [← hlimit] at hroom hexceeds
  obtain ⟨d', piece, calls, next, hupload, -, -, hnext⟩ :=
    h.upload_middle hreads hset.enabled hroom hexceeds
  have hleft : ¬ (d.session.remaining = 0 ∧ d.session.trailerWidth = 0) := by
    rw [h.remaining, h.trailerWidth_eq]
    rintro ⟨hnothing, hwidth⟩
    rw [hnothing, hwidth, Nat.zero_add,
      Bytes.roundUp_of_aligned cipher.blockSize_pos (Nat.zero_mod _)] at hfits
    exact hfits (Nat.zero_le _)
  have hsize := Device.length_of_upload hleft hupload
  rw [h.nextFrame_eq, hlimit] at hsize
  have hbefore := Cipher.length_of_apply h.encrypt
  have hafter := Cipher.length_of_apply hnext.encrypt
  rw [List.length_take_of_le h.sent_le] at hbefore
  rw [List.length_take_of_le hnext.sent_le, List.length_append, hbefore] at hafter
  rw [← hafter] at hnext
  exact ⟨d', piece, calls, hupload, hsize, hnext⟩

/-- The last bytes of the region with their checksum are what the host stops with, in a short
frame or in a whole one with an empty reply behind it. -/
theorem receive_last (h : UnderWay setup cipher target board stored count sent secret d)
    (hreads : board.Reads (setup.region target) stored)
    (hset : setup.UploadsWhole cipher.blockSize)
    (hleft : ¬ (stored.length - sent = 0 ∧ setup.trailerWidth = 0))
    (hfits : Bytes.roundUp (stored.length - sent + setup.trailerWidth) cipher.blockSize ≤
      setup.profile.transferSize.toNat)
    {r next : Request} (hr : setup.AsksWhole r) (hnext : setup.AsksWhole next)
    (rest : List Request) :
    ∃ piece after, d.receiveUntilShort (r :: next :: rest) = some piece ∧
      cipher.encrypt (Bytes.padZero cipher.blockSize (stored ++ setup.trailer stored)) =
        .ok (secret ++ piece, after) := by
  have hlimit := Nat.min_self setup.profile.transferSize.toNat
  rw [← hlimit] at hfits
  obtain ⟨d', piece, calls, hupload, -, hsize, hall⟩ :=
    h.upload_last hreads hset.enabled hleft hfits
  rw [hlimit] at hsize
  refine ⟨piece, d'.session.cipher, ?_, hall.encrypt⟩
  rw [h.receiveUntilShort_cons hr hupload (Nat.le_trans hsize hset.transfer) hsize]
  split
  · rfl
  · rw [hall.receiveUntilShort hset hnext, Option.map_some, List.append_nil]

/-- The last bytes of the region without their checksum go in a short frame, and the host stops
with it. -/
theorem receive_short (h : UnderWay setup cipher target board stored count sent secret d)
    (hreads : board.Reads (setup.region target) stored)
    (hset : setup.UploadsWhole cipher.blockSize)
    (hless : stored.length - sent < setup.profile.transferSize.toNat)
    (hfits : ¬ Bytes.roundUp (stored.length - sent + setup.trailerWidth) cipher.blockSize ≤
      setup.profile.transferSize.toNat)
    {r : Request} (hr : setup.AsksWhole r) (rest : List Request) :
    ∃ piece after, d.receiveUntilShort (r :: rest) = some piece ∧
      cipher.encrypt
          (stored.take (stored.length - (stored.length - sent) % cipher.blockSize)) =
        .ok (secret ++ piece, after) := by
  obtain ⟨d', piece, calls, hupload, hsize, hnext⟩ := h.upload_part hreads hset hfits
  rw [Frame.plan_of_less (Nat.le_of_lt hless) hfits] at hsize
  simp only at hsize
  have hsent := h.sent_le
  have hrest := Nat.mod_le (stored.length - sent) cipher.blockSize
  have hstop : sent + piece.length =
      stored.length - (stored.length - sent) % cipher.blockSize := by omega
  refine ⟨piece, d'.session.cipher, ?_, ?_⟩
  · have hbuffer := hset.transfer
    rw [h.receiveUntilShort_cons hr hupload (by omega) (by omega), if_pos (by omega)]
  · rw [← hstop]
    exact hnext.encrypt

/-- While a whole transfer of the region is left, the host gets one and goes on. -/
theorem receive_whole (h : UnderWay setup cipher target board stored count sent secret d)
    (hreads : board.Reads (setup.region target) stored)
    (hset : setup.UploadsWhole cipher.blockSize)
    (hmore : setup.profile.transferSize.toNat ≤ stored.length - sent)
    (hfits : ¬ Bytes.roundUp (stored.length - sent + setup.trailerWidth) cipher.blockSize ≤
      setup.profile.transferSize.toNat)
    {r : Request} (hr : setup.AsksWhole r) (rest : List Request) :
    ∃ d' piece,
      d.receiveUntilShort (r :: rest) = (d'.receiveUntilShort rest).map (piece ++ ·) ∧
      UnderWay setup cipher target board stored (count + 1)
        (sent + setup.profile.transferSize.toNat) (secret ++ piece) d' := by
  obtain ⟨d', piece, calls, hupload, hsize, hnext⟩ := h.upload_part hreads hset hfits
  rw [Frame.plan_of_more hset.whole hmore hfits] at hsize
  simp only at hsize
  rw [hsize] at hnext
  refine ⟨d', piece, ?_, hnext⟩
  have hbuffer := hset.transfer
  rw [h.receiveUntilShort_cons hr hupload (by omega) (by omega), if_neg (by omega)]

/-- While whole transfers are sent, what is left of the region ends as all of it does. -/
theorem rest_eq (h : UnderWay setup cipher target board stored count sent secret d)
    (hsent : sent % setup.profile.transferSize.toNat = 0) :
    stored.length % setup.profile.transferSize.toNat =
      (stored.length - sent) % setup.profile.transferSize.toNat := by
  calc
    stored.length % setup.profile.transferSize.toNat =
        (stored.length - sent + sent) % setup.profile.transferSize.toNat := by
      rw [Nat.sub_add_cancel h.sent_le]
    _ = (stored.length - sent) % setup.profile.transferSize.toNat := by
      rw [Nat.add_mod, hsent, Nat.add_zero, Nat.mod_mod]

/-- From the end of a whole transfer on, the host comes to an end, and has what it is to have. -/
theorem receiveUntilShort (h : UnderWay setup cipher target board stored count sent secret d)
    (hreads : board.Reads (setup.region target) stored)
    (hset : setup.UploadsWhole cipher.blockSize)
    (hsent : sent % setup.profile.transferSize.toNat = 0) {requests : List Request}
    (hrequests : ∀ r ∈ requests, setup.AsksWhole r)
    (hmany : (stored.length - sent) / setup.profile.transferSize.toNat + 1 < requests.length) :
    ∃ received after, d.receiveUntilShort requests = some received ∧
      cipher.encrypt (setup.textUntilShort cipher.blockSize stored) =
        .ok (secret ++ received, after) := by
  induction requests generalizing d count sent secret with
  | nil => cases hmany
  | cons r requests ih =>
      obtain ⟨hr, hrest⟩ := List.forall_mem_cons.mp hrequests
      rw [List.length_cons] at hmany
      have htail := h.rest_eq hsent
      by_cases hleft : stored.length - sent = 0 ∧ setup.trailerWidth = 0
      · have hall := h.allSent hleft
        refine ⟨[], d.session.cipher, hall.receiveUntilShort hset hr requests, ?_⟩
        rw [List.append_nil, Setup.textUntilShort_of_fits]
        · exact hall.encrypt
        · rw [htail, hleft.1, hleft.2, Nat.zero_mod]
          exact Nat.zero_le _
      · by_cases hfits : Bytes.roundUp (stored.length - sent + setup.trailerWidth)
            cipher.blockSize ≤ setup.profile.transferSize.toNat
        · obtain ⟨next, rest, rfl⟩ := List.exists_cons_of_length_pos
            (Nat.zero_lt_of_lt (Nat.lt_of_succ_lt_succ hmany))
          have hroomLeft := (Bytes.roundUp_le_iff cipher.blockSize_pos hset.whole).mp hfits
          have hmod := Nat.mod_le (stored.length - sent) setup.profile.transferSize.toNat
          rw [Setup.textUntilShort_of_fits (by omega)]
          exact h.receive_last hreads hset hleft hfits hr
            (hrest next List.mem_cons_self) rest
        · rcases Nat.lt_or_ge (stored.length - sent) setup.profile.transferSize.toNat with
            hless | hmore
          · have hover := mt (Bytes.roundUp_le_iff cipher.blockSize_pos hset.whole).mpr hfits
            rw [Nat.mod_eq_of_lt hless] at htail
            rw [Setup.textUntilShort_of_over (by omega), htail]
            exact h.receive_short hreads hset hless hfits hr requests
          · obtain ⟨d', piece, hreceive, hnext⟩ :=
              h.receive_whole hreads hset hmore hfits hr requests
            have hdiv := Nat.div_eq_sub_div (hset.transferSize_pos cipher.blockSize_pos) hmore
            obtain ⟨received, after, hlater, hencrypt⟩ := ih hnext
              (by rw [Nat.add_mod_right, hsent]) hrest (by rw [← Nat.sub_sub]; omega)
            refine ⟨piece ++ received, after, ?_, ?_⟩
            · rw [hreceive, hlater, Option.map_some]
            · rw [← List.append_assoc]
              exact hencrypt

end UnderWay

end

/-- A host that asks for whole transfers and stops at the first short reply comes to an end.  It
has received all of the upload exactly if the last bytes of the region, those behind its whole
transfers, fit one transfer together with the checksum; else it lacks the checksum, and the
bytes that fill no block. -/
theorem receiveUntilShort_eq_iff {setup : Setup} {kind : CipherKind} {mode : ChainMode}
    {key nonce stored : Bytes} {cipher : Cipher} {d : Device}
    (hcipher : Cipher.make kind mode key nonce = .ok cipher.reset)
    (hset : setup.UploadsWhole kind.blockSize)
    (hd : Reachable setup cipher d) (hidle : d.session.phase = .idle)
    (hreads : d.board.Reads (setup.region d.session.target) stored) :
    let transfer := setup.profile.transferSize.toNat
    let rest := stored.length % transfer
    ∃ secret after,
      cipher.reset.encrypt (Bytes.padZero kind.blockSize (stored ++ setup.trailer stored)) =
        .ok (secret, after) ∧
      ∀ requests, (∀ r ∈ requests, setup.AsksWhole r) →
        stored.length / transfer + 1 < requests.length →
          ∃ received, d.receiveUntilShort requests = some received ∧
            (received = secret ↔ rest + setup.trailerWidth ≤ transfer) ∧
            (transfer < rest + setup.trailerWidth →
              received = secret.take (stored.length - rest % kind.blockSize)) := by
  intro transfer rest
  obtain ⟨-, hblock, -⟩ := Cipher.make_spec hcipher
  rw [← hblock] at hset ⊢
  have hpos := cipher.reset.blockSize_pos
  have hround := (Bytes.roundUp_bounds (stored ++ setup.trailer stored).length hpos).1
  have hpadded := Bytes.length_padZero (stored ++ setup.trailer stored) hpos
  rw [List.length_append, setup.length_trailer] at hround hpadded
  obtain ⟨secret, after, hsecret⟩ :=
    Cipher.apply_eq_ok_of_aligned cipher.reset .encrypt
      (Bytes.padZero cipher.reset.blockSize (stored ++ setup.trailer stored))
      (by rw [hpadded, Bytes.roundUp_mod])
  have hlength := Cipher.length_of_apply hsecret
  refine ⟨secret, after, hsecret, ?_⟩
  intro requests hrequests hmany
  obtain ⟨received, stop, hreceive, hencrypt⟩ :=
    (UnderWay.of_idle hd.sound hidle hreads).receiveUntilShort hreads hset (Nat.zero_mod _)
      hrequests hmany
  rw [List.nil_append] at hencrypt
  obtain ⟨behind, hbehind⟩ := setup.textUntilShort_prefix cipher.reset.blockSize stored
  rw [← hbehind] at hsecret
  have hfront := Cipher.eq_take_of_apply_append hencrypt hsecret
  refine ⟨received, hreceive, ⟨?_, ?_⟩, ?_⟩
  · rintro rfl
    rcases Nat.lt_or_ge transfer (rest + setup.trailerWidth) with hover | hfits
    · -- the checksum at least is missing
      have hrest : rest < transfer := Nat.mod_lt _ (hset.transferSize_pos hpos)
      have hless := Cipher.length_of_apply hencrypt
      rw [Setup.textUntilShort_of_over hover, List.length_take_of_le (Nat.sub_le _ _)] at hless
      omega
    · exact hfits
  · intro hfits
    rw [hfront, Setup.textUntilShort_of_fits hfits, ← hlength, List.take_length]
  · intro hover
    rw [hfront, Setup.textUntilShort_of_over hover, List.length_take_of_le (Nat.sub_le _ _)]

/-- Ten bytes with their checksum of four, in one transfer of sixteen. -/
theorem receiveUntilShort_eq_iff_ten_bytes :
    let setup : Setup :=
      { profile := { checksum := some .crc32Small, transferSize := 16 }, interface := 0,
        flash := ⟨0x100, 10⟩, eeprom := none }
    let chain := Chain.start (Primitive.keyed .xtea Defaults.keyA) .cbc
      (Block.ofBytes _ Defaults.nonce)
    let cipher : Cipher := ⟨.block .xtea, .cbc, .chain chain⟩
    let stored : Bytes := [1, 2, 3, 4, 5, 6, 7, 8, 9, 10]
    let board : Board := { flash := ⟨0x100, stored⟩, eeprom := ⟨0x200, []⟩ }
    let d := Device.start setup cipher board
    let ask : Request := { type := 0xA1, code := 2, index := 0, length := 16 }
    ∃ secret after, cipher.encrypt (Bytes.padZero 8 (stored ++ setup.trailer stored)) =
        .ok (secret, after) ∧
      d.receiveUntilShort [ask, ask] = some secret := by
  intro setup chain cipher stored board d ask
  have hmake : Cipher.make (.block .xtea) .cbc Defaults.keyA Defaults.nonce = .ok cipher.reset :=
    rfl
  have hset : setup.UploadsWhole 8 := ⟨rfl, by decide, by decide, by decide⟩
  have hreachable : Reachable setup cipher d := ⟨board, [], rfl⟩
  have hreads : d.board.Reads (setup.region d.session.target) stored :=
    Board.reads_flash rfl (by decide) (by decide) (by decide) (by decide)
  have hasks : ∀ r ∈ [ask, ask], setup.AsksWhole r := by decide
  obtain ⟨secret, after, hsecret, hreceived⟩ :=
    receiveUntilShort_eq_iff hmake hset hreachable rfl hreads
  obtain ⟨received, hreceive, hwhole, -⟩ := hreceived [ask, ask] hasks (by decide)
  rw [hwhole.mpr (by decide)] at hreceive
  exact ⟨secret, after, hsecret, hreceive⟩

/-- Not every upload arrives: of eight bytes in transfers of ten, with a checksum of four, the
host has the eight bytes and takes their frame for the end. -/
theorem exists_receiveUntilShort_ne :
    ¬ ∀ (setup : Setup) (kind : CipherKind) (mode : ChainMode) (key nonce stored : Bytes)
      (cipher : Cipher) (d : Device),
      Cipher.make kind mode key nonce = .ok cipher.reset → setup.UploadsWhole kind.blockSize →
        Reachable setup cipher d → d.session.phase = .idle →
          d.board.Reads (setup.region d.session.target) stored →
            ∃ secret after,
              cipher.reset.encrypt
                  (Bytes.padZero kind.blockSize (stored ++ setup.trailer stored)) =
                .ok (secret, after) ∧
              ∀ requests, (∀ r ∈ requests, setup.AsksWhole r) →
                stored.length / setup.profile.transferSize.toNat + 1 < requests.length →
                  d.receiveUntilShort requests = some secret := by
  intro h
  let setup : Setup :=
    { profile := { checksum := some .fnv1a32, transferSize := 10 }, interface := 0,
      flash := ⟨0, 8⟩, eeprom := none }
  let stored : Bytes := List.replicate 8 0
  let board : Board := { flash := ⟨0, stored⟩, eeprom := ⟨0, []⟩ }
  let cipher : Cipher := ⟨.plain, .ecb, .plain⟩
  let ask : Request := { type := 0xA1, code := 2, index := 0, length := 10 }
  have hset : setup.UploadsWhole 1 := ⟨rfl, by decide, by decide, by decide⟩
  have hreads : board.Reads setup.flash stored :=
    Board.reads_flash rfl (by decide) (by decide) (by decide) (by decide)
  have hasks : ∀ r ∈ [ask, ask], setup.AsksWhole r := by decide
  obtain ⟨secret, after, hsecret, hall⟩ :=
    h setup .plain .ecb [] [] stored cipher (Device.start setup cipher board) rfl hset
      ⟨board, [], rfl⟩ rfl hreads
  have hreceive := hall [ask, ask] hasks (by decide)
  have hshort : (Device.start setup cipher board).receiveUntilShort [ask, ask] = some stored := by
    decide +kernel
  have htwelve : (Bytes.padZero 1 (stored ++ setup.trailer stored)).length = 12 := by
    decide +kernel
  have hlength : secret.length = 12 := (Cipher.length_of_apply hsecret).trans htwelve
  rw [hshort, Option.some.injEq] at hreceive
  rw [← hreceive] at hlength
  exact absurd hlength (by decide)

end Dfu

end FirmwareUpdate
