/-
Data that go through a cipher in pieces.  However a string is cut into pieces of whole blocks,
the pieces come out as the string does at one go and leave the cipher at the same place; so a
sender and a receiver that cut it differently stay in step.
-/
import FirmwareUpdate.Defaults
import FirmwareUpdate.Proofs.Chaining

namespace FirmwareUpdate

/-- A string cut into pieces of whole blocks. -/
structure Cut (block : Nat) (data : Bytes) (pieces : List Bytes) : Prop where
  joined : pieces.flatten = data
  blocks : ∀ piece ∈ pieces, piece.length % block = 0

namespace Cipher

/-- Send pieces through one after another: the results and the cipher behind them.  A piece
that is refused ends it. -/
def applyEach (c : Cipher) (direction : Direction) :
    List Bytes → Except CipherError (List Bytes × Cipher)
  | [] => .ok ([], c)
  | piece :: pieces =>
      match c.apply direction piece with
      | .error e => .error e
      | .ok (out, c₁) =>
          match applyEach c₁ direction pieces with
          | .error e => .error e
          | .ok (outs, c₂) => .ok (out :: outs, c₂)

theorem applyEach_cons {c c₁ c₂ : Cipher} {direction : Direction} {piece out : Bytes}
    {pieces outs : List Bytes} (hpiece : c.apply direction piece = .ok (out, c₁))
    (hpieces : c₁.applyEach direction pieces = .ok (outs, c₂)) :
    c.applyEach direction (piece :: pieces) = .ok (out :: outs, c₂) := by
  simp only [applyEach, hpiece, hpieces]

/-- Pieces of whole blocks are all taken, each comes out as long as it went in, and together
they are the whole sent at once. -/
theorem applyEach_of_aligned (c : Cipher) (direction : Direction) (pieces : List Bytes)
    (h : ∀ piece ∈ pieces, piece.length % c.blockSize = 0) :
    ∃ outs after, c.applyEach direction pieces = .ok (outs, after) ∧
      outs.map List.length = pieces.map List.length ∧
      c.apply direction pieces.flatten = .ok (outs.flatten, after) := by
  induction pieces generalizing c with
  | nil => exact ⟨[], c, rfl, rfl, c.apply_nil direction⟩
  | cons piece pieces ih =>
      obtain ⟨out, c₁, hpiece⟩ :=
        apply_eq_ok_of_aligned c direction piece (h piece List.mem_cons_self)
      have hblock : c₁.blockSize = c.blockSize := (kept_of_apply hpiece).2.1
      have hrest : ∀ piece ∈ pieces, piece.length % c₁.blockSize = 0 := by
        intro other hother
        rw [hblock]
        exact h other (List.mem_cons_of_mem piece hother)
      obtain ⟨outs, after, hpieces, hlengths, hwhole⟩ := ih c₁ hrest
      refine ⟨out :: outs, after, applyEach_cons hpiece hpieces, ?_, ?_⟩
      · rw [List.map_cons, List.map_cons, hlengths, length_of_apply hpiece]
      · exact apply_append hpiece hwhole

/-- Whatever the cut, the pieces come out as the whole does. -/
theorem applyEach_of_cut {c after : Cipher} {direction : Direction} {data out : Bytes}
    {pieces : List Bytes} (hdata : c.apply direction data = .ok (out, after))
    (h : Cut c.blockSize data pieces) :
    ∃ outs, c.applyEach direction pieces = .ok (outs, after) ∧ outs.flatten = out := by
  obtain ⟨outs, behind, hpieces, -, hwhole⟩ := applyEach_of_aligned c direction pieces h.blocks
  rw [h.joined, hdata, Except.ok.injEq, Prod.mk.injEq] at hwhole
  obtain ⟨rfl, rfl⟩ := hwhole
  exact ⟨outs, hpieces, rfl⟩

/-- A string that goes through a new cipher in pieces comes back from the other direction of
another new cipher of the same parameters, into whatever pieces the result is cut on its way.
Both ciphers end at the same place, and neither the result nor that place depends on the cut. -/
theorem pieces_round_trip {kind : CipherKind} {mode : ChainMode} {key nonce : Bytes}
    {sender receiver : Cipher} (hsender : make kind mode key nonce = .ok sender)
    (hreceiver : make kind mode key nonce = .ok receiver) (direction : Direction)
    {data : Bytes} (hdata : data.length % kind.blockSize = 0) :
    ∃ out after, out.length = data.length ∧
      (∀ pieces, Cut kind.blockSize data pieces →
        ∃ outs, sender.applyEach direction pieces = .ok (outs, after) ∧ outs.flatten = out) ∧
      ∀ pieces, Cut kind.blockSize out pieces →
        ∃ backs, receiver.applyEach direction.opposite pieces = .ok (backs, after) ∧
          backs.flatten = data := by
  obtain ⟨-, hblock, hlawful⟩ := make_spec hsender
  have hsame : sender = receiver := by
    rw [hsender] at hreceiver
    exact Except.ok.inj hreceiver
  subst hsame
  rw [← hblock] at hdata ⊢
  obtain ⟨out, after, hout⟩ := apply_eq_ok_of_aligned sender direction data hdata
  have hback : sender.apply direction.opposite out = .ok (data, after) :=
    apply_opposite hlawful hout
  refine ⟨out, after, length_of_apply hout, ?_, ?_⟩
  · intro pieces hpieces
    exact applyEach_of_cut hout hpieces
  · intro pieces hpieces
    exact applyEach_of_cut hback hpieces

/-- Three blocks that are encrypted as one and two, and decrypted as two and one. -/
theorem pieces_round_trip_three_blocks :
    ∃ c, make (.block .rc6) .pcbc Defaults.keyA Defaults.nonce = .ok c ∧
      ∃ outs after, c.applyEach .encrypt [List.replicate 16 1, List.replicate 32 2] =
          .ok (outs, after) ∧
        ∃ backs, c.applyEach .decrypt [outs.flatten.take 32, outs.flatten.drop 32] =
            .ok (backs, after) ∧
          backs.flatten = List.replicate 16 1 ++ List.replicate 32 2 := by
  let cipher := Primitive.keyed .rc6 Defaults.keyA
  let c : Cipher :=
    ⟨.block .rc6, .pcbc, .chain (Chain.start cipher .pcbc (Block.ofBytes _ Defaults.nonce))⟩
  have hmake : make (.block .rc6) .pcbc Defaults.keyA Defaults.nonce = .ok c := rfl
  have hdata : (List.replicate 16 (1 : UInt8) ++ List.replicate 32 2).length
      % CipherKind.blockSize (.block .rc6) = 0 := by decide
  obtain ⟨out, after, hlength, hsent, hreceived⟩ :=
    pieces_round_trip hmake hmake .encrypt hdata
  obtain ⟨outs, houts, rfl⟩ := hsent [List.replicate 16 1, List.replicate 32 2]
    ⟨by decide, by decide⟩
  have hfirst : (outs.flatten.take 32).length = 32 := by
    rw [List.length_take, hlength]
    rfl
  have hsecond : (outs.flatten.drop 32).length = 16 := by
    rw [List.length_drop, hlength]
    rfl
  have hcut : Cut 16 outs.flatten [outs.flatten.take 32, outs.flatten.drop 32] := by
    constructor
    · simp only [List.flatten_cons, List.flatten_nil, List.append_nil, List.take_append_drop]
    · intro piece hpiece
      simp only [List.mem_cons, List.not_mem_nil, or_false] at hpiece
      rcases hpiece with rfl | rfl
      · rw [hfirst]
      · rw [hsecond]
  exact ⟨c, hmake, outs, after, houts, hreceived _ hcut⟩

end Cipher

end FirmwareUpdate
