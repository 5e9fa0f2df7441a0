import FpgaNetworkStack.Axi.Keep

/-!
# The laws of the byte shifters (`axi_utils.hpp`)

`lshiftWordByOctet` puts bytes in front of every packet, `rshiftWordByOctet` takes the first bytes of every packet
away, and one after the other they give the packets back.  The bytes in front are marked by a constant of 32 bits,
so in a word of 64 bytes no more than 32 of them are kept.
-/

namespace FpgaNetworkStack.Axi

open Lib

variable {N offset : Nat} {w : Word N} {ws out : List (Word N)} {bs : List (BitVec 8)} {bss : List (List (BitVec 8))}

/-- Every packet with `offset` bytes in front. -/
def Padded (offset : Nat) : List (List (BitVec 8)) → List (List (BitVec 8)) → Prop :=
  List.Forall₂ fun bs padded => ∃ pad : List (BitVec 8), pad.length = offset ∧ padded = pad ++ bs

theorem padded_zeros (offset : Nat) (bss : List (List (BitVec 8))) :
    Padded offset bss (bss.map (List.replicate offset 0 ++ ·)) := by
  unfold Padded
  rw [List.forall₂_map_right_iff, List.forall₂_same]
  exact fun bs _ => ⟨_, List.length_replicate, rfl⟩

/-- What is expected of the shifters on the words `ws`, which carry the packets `bss`.  However the words come in, each
process comes to rest with all of them read. -/
structure ShiftLaws (offset : Nat) (ws : List (Word N)) (bss : List (List (BitVec 8))) : Prop where
  pads : ∃ out padded, Completes (lshiftWordByOctet offset) [] id LShift.Idle {} [] ws out ∧ Packets out padded ∧
    Padded offset bss padded
  cuts : (∀ bs ∈ bss, offset < bs.length) →
    ∃ out, Completes (rshiftWordByOctet offset) [] id (RShift.Idle offset) (.init offset) [] ws out ∧
      Packets out (bss.map (·.drop offset))
  back : ∃ mid out, Completes (lshiftWordByOctet offset) [] id LShift.Idle {} [] ws mid ∧
    Completes (rshiftWordByOctet offset) [] id (RShift.Idle offset) (.init offset) [] mid out ∧ Packets out bss

/-! ## Up to 32 bytes -/

theorem lshift_completes (hoff : offset ≤ N) (hoff' : offset ≤ 32) (h : Packets ws bss) :
    ∃ out, Completes (lshiftWordByOctet offset) [] id LShift.Idle {} [] ws out ∧
      Packets out (bss.map (List.replicate offset 0 ++ ·)) := by
  obtain ⟨os, t, hrun, ht, hpackets⟩ := lshift_packets hoff hoff' h LShift.idle_init
  exact ⟨os.flatten, .of_rests (lshift_waits offset) rfl ⟨hrun, lshift_idle ht⟩ ht List.flatMap_id, hpackets⟩

theorem rshift_completes (hoff : offset < N) (h : Packets ws bss) :
    ∃ out, Completes (rshiftWordByOctet offset) [] id (RShift.Idle offset) (.init offset) [] ws out ∧
      Packets out (bss.map (·.drop offset)) := by
  obtain ⟨os, t, hrun, ht, hpackets⟩ := rshift_packets hoff h (RShift.idle_init offset)
  exact ⟨os.flatten, .of_rests (rshift_waits offset) rfl ⟨hrun, rshift_idle ht⟩ ht List.flatMap_id, hpackets⟩

-- the bytes that were put in front are taken away again
theorem drop_padded (offset : Nat) (bss : List (List (BitVec 8))) :
    (bss.map (List.replicate offset 0 ++ ·)).map (·.drop offset) = bss := by
  rw [List.map_map]
  apply List.map_id''
  intro bs
  exact List.drop_left' List.length_replicate

theorem shiftLaws_of_le (hoff : offset < N) (hoff' : offset ≤ 32) (h : Packets ws bss) : ShiftLaws offset ws bss := by
  obtain ⟨mid, hmid, hpadded⟩ := lshift_completes (Nat.le_of_lt hoff) hoff' h
  obtain ⟨out, hout, hpackets⟩ := rshift_completes hoff hpadded
  rw [drop_padded] at hpackets
  exact ⟨⟨mid, _, hmid, hpadded, padded_zeros offset bss⟩, fun _ => rshift_completes hoff h,
    mid, out, hmid, hout, hpackets⟩

theorem shiftLaws_nil (hoff : offset < N) : ShiftLaws offset ([] : List (Word N)) [] := by
  have hl : Completes (lshiftWordByOctet (N := N) offset) [] id LShift.Idle {} [] [] [] :=
    .of_rests (lshift_waits offset) rfl ⟨.refl _ _, lshift_idle LShift.idle_init⟩ LShift.idle_init rfl
  obtain ⟨out, hr, hout⟩ := rshift_completes hoff .nil
  exact ⟨⟨[], [], hl, .nil, .nil⟩, fun _ => ⟨out, hr, hout⟩, [], out, hl, hr, hout⟩

/-! ## More than 32 bytes -/

theorem Word.keepAt_eq (w : Word N) {k : Nat} (hk : k < w.lanes.length) : w.keepAt k = w.lanes[k].keep := by
  have hk' : k < w.keeps.length := by
    rw [Word.keeps, List.length_map]
    exact hk
  unfold Word.keepAt
  rw [List.getElem?_eq_getElem hk']
  simp only [Word.keeps, List.getElem_map, Option.getD_some]

-- a packet begins with its first byte
theorem Packet.first_kept {l : Lane} {ls : List Lane} (h : Packet (w :: ws) bs) (hN : 0 < N) (hbs : bs ≠ [])
    (hw : w.lanes = l :: ls) : l.keep = true := by
  have hhead {q : List (BitVec 8)} {rest : List Lane} (hq : q ≠ []) (hlanes : w.lanes = q.map Lane.kept ++ rest) :
      l.keep = true := by
    cases q with
    | nil => exact absurd rfl hq
    | cons b q =>
      rw [hw, List.map_cons, List.cons_append] at hlanes
      rw [(List.cons.inj hlanes).1]
      rfl
  cases h with
  | last _ hholds =>
    obtain ⟨rest, hlanes, -⟩ := hholds
    exact hhead hbs hlanes
  | @cons _ _ q _ _ hfull _ =>
    have hlen : q.length = N := Word.length_full hfull
    rw [← List.append_nil (q.map Lane.kept)] at hfull
    exact hhead (List.ne_nil_of_length_pos (by omega)) hfull

/-- In the first word of a packet the constant ends before the bytes of the packet begin. -/
theorem lshift_gap (hoff : offset < N) (hwide : 32 < offset) (h : Packet (w :: ws) bs) (hbs : bs ≠ [])
    (q : List (BitVec 8)) : ¬(({} : LShift N).send offset w).Holds q := by
  intro hholds
  have hconst : ((filler : Word N).lanes.take offset).length = offset := by
    rw [List.length_take, (filler : Word N).length_eq, Nat.min_eq_left (Nat.le_of_lt hoff)]
  have hlanes : (({} : LShift N).send offset w).lanes = (filler : Word N).lanes.take offset ++ w.lanes.take (N - offset) := by
    show List.take N (List.take offset _) ++ List.take (N - min offset N) w.lanes = _
    rw [Nat.min_eq_left (Nat.le_of_lt hoff), List.take_of_length_le (by rw [hconst]; exact Nat.le_of_lt hoff)]
  have hlen := (({} : LShift N).send offset w).length_eq
  have hgap : (({} : LShift N).send offset w).keepAt 32 = false := by
    rw [Word.keepAt_eq _ (by omega)]
    simp only [hlanes]
    rw [List.getElem_append_left (by omega)]
    simp [filler]
  have hfirst : (({} : LShift N).send offset w).keepAt offset = true := by
    have hlength := w.length_eq
    cases hw : w.lanes with
    | nil =>
      rw [hw, List.length_nil] at hlength
      omega
    | cons l ls =>
      obtain ⟨k, hk⟩ := Nat.exists_eq_add_of_lt hoff
      have hpos : N - offset = k + 1 := by omega
      rw [Word.keepAt_eq _ (by omega)]
      simp only [hlanes]
      rw [List.getElem_append_right (Nat.le_of_eq hconst)]
      simp only [hconst, Nat.sub_self, hpos, hw, List.take_succ_cons, List.getElem_cons_zero]
      exact h.first_kept (by omega) hbs hw
  rw [hholds.keepAt] at hgap hfirst
  have hle : ¬32 < q.length := of_decide_eq_false hgap
  have hlt : offset < q.length := of_decide_eq_true hfirst
  omega

theorem lshift_head (hpos : 0 < offset) (h : Completes (lshiftWordByOctet offset) [] id LShift.Idle {} [] (w :: ws) out) :
    ({} : LShift N).send offset w ∈ out := by
  obtain ⟨os, t, ⟨hrun, -⟩, -, hos⟩ := h.rests
  cases hrun with
  | @call o _ _ _ _ _ _ _ hcall _ =>
    have hwrite : (lshiftWordByOctet offset ({} : LShift N) (w :: ws)).2.2 = [({} : LShift N).send offset w] := by
      simp [lshiftWordByOctet, Nat.pos_iff_ne_zero.mp hpos]
    have ho : o = [({} : LShift N).send offset w] := by
      rw [← hwrite, hcall]
    rw [← hos, List.flatMap_cons, ho]
    exact List.mem_append_left _ (List.mem_singleton_self _)

theorem not_shiftLaws (hoff : offset < N) (hwide : 32 < offset) (h : Packets ws (bs :: bss)) (hbs : bs ≠ []) :
    ¬ShiftLaws offset ws (bs :: bss) := by
  rintro ⟨⟨out, padded, hout, hpackets, -⟩, -, -⟩
  generalize hall : bs :: bss = all at h
  cases h with
  | nil => cases hall
  | @cons vs ws' b bss' hfirst _ =>
    obtain ⟨rfl, rfl⟩ := List.cons.inj hall
    obtain ⟨w, vs, rfl⟩ := List.exists_cons_of_ne_nil hfirst.ne_nil
    obtain ⟨q, hq⟩ := hpackets.holds _ (lshift_head (by omega) hout)
    exact lshift_gap hoff hwide hfirst hbs q hq

/-- The laws hold as far as the constant reaches. -/
theorem shift_laws_iff (hoff : offset < N) (h : Packets ws bss) (hne : ∀ bs ∈ bss, bs ≠ []) :
    ShiftLaws offset ws bss ↔ offset ≤ 32 ∨ bss = [] := by
  constructor
  · intro hlaws
    by_contra hnot
    rw [not_or, Nat.not_le] at hnot
    obtain ⟨bs, bss, rfl⟩ := List.exists_cons_of_ne_nil hnot.2
    exact not_shiftLaws hoff hnot.1 h (hne bs List.mem_cons_self) hlaws
  · rintro (hle | rfl)
    · exact shiftLaws_of_le hoff hle h
    · cases h
      exact shiftLaws_nil hoff

/-- One byte in words of 16 bytes. -/
theorem shift_laws_sixteen : ShiftLaws 14 [Word.ofBytes (N := 16) [0xAB] (by decide) true] [[0xAB]] ↔
    14 ≤ 32 ∨ ([[0xAB]] : List (List (BitVec 8))) = [] :=
  shift_laws_iff (by decide)
    (Packets.cons (.last rfl (Word.ofBytes_holds [0xAB] (by decide) true)) .nil)
    (List.forall_mem_singleton.mpr (List.cons_ne_nil _ _))

/-- One byte in words of 64 bytes behind 33 others: lane 32 is not kept. -/
theorem shift_laws_fail : ¬∀ (N offset : Nat) (ws : List (Word N)) (bss : List (List (BitVec 8))), N ∈ [8, 16, 32, 64] →
    offset < N → Packets ws bss → (∀ bs ∈ bss, bs ≠ []) → ShiftLaws offset ws bss := by
  intro hall
  have hpackets : Packets [Word.ofBytes (N := 64) [0xAB] (by decide) true] [[0xAB]] :=
    .cons (.last rfl (Word.ofBytes_holds [0xAB] (by decide) true)) .nil
  exact not_shiftLaws (by decide) (by decide) hpackets (List.cons_ne_nil _ _)
    (hall 64 33 _ _ (by decide) (by decide) hpackets (List.forall_mem_singleton.mpr (List.cons_ne_nil _ _)))

end FpgaNetworkStack.Axi
