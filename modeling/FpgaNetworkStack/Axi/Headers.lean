import FpgaNetworkStack.Axi.Packets
import FpgaNetworkStack.Roce.PacketHeaders
import Mathlib.Data.List.GetD

/-!
# Headers in a stream

A header is a number whose bytes go out from the lowest on.  It is written over the first lanes of a packet, and
read from the words at its start.
-/

namespace FpgaNetworkStack.Axi

open Lib
open Roce (packetNat testBit_packetNat_append testBit_packetNat_cons)

variable {N : Nat}

/-- The first `n` bytes of the bits. -/
def octets {w : Nat} (n : Nat) (x : BitVec w) : List (BitVec 8) := (List.range n).map fun k => x.extractLsb' (8 * k) 8

theorem length_octets {w : Nat} (n : Nat) (x : BitVec w) : (octets n x).length = n := by
  rw [octets, List.length_map, List.length_range]

theorem octets_succ {w : Nat} (n : Nat) (x : BitVec w) :
    octets (n + 1) x = octets n x ++ [x.extractLsb' (8 * n) 8] := by
  rw [octets, List.range_succ, List.map_append, List.map_singleton]
  rfl

theorem octets_append {k l : Nat} (hi : BitVec (8 * l)) (lo : BitVec (8 * k)) :
    octets (k + l) (hi ++ lo) = octets k lo ++ octets l hi := by
  apply List.ext_getElem
  · rw [length_octets, List.length_append, length_octets, length_octets]
  · intro j hj hj'
    rw [length_octets] at hj
    simp only [octets, List.getElem_map, List.getElem_range, List.getElem_append, List.length_map, List.length_range]
    by_cases hlow : j < k
    · rw [dif_pos hlow]
      apply BitVec.eq_of_getLsbD_eq
      intro i hi
      have hlt : 8 * j + i < 8 * k := by omega
      simp [BitVec.getLsbD_append, hi, hlt]
    · rw [dif_neg hlow]
      apply BitVec.eq_of_getLsbD_eq
      intro i hi
      have hge : ¬8 * j + i < 8 * k := by omega
      have hsub : 8 * j + i - 8 * k = 8 * (j - k) + i := by omega
      simp [BitVec.getLsbD_append, hi, hge, hsub]

/-! ## Writing -/

/-- The bytes replace the first ones of the word; the enables stay. -/
def overlay (bytes : List (BitVec 8)) (w : Word N) : Word N where
  lanes := List.zipWith (fun b (l : Lane) => { l with data := b }) bytes w.lanes ++ w.lanes.drop bytes.length
  last := w.last
  length_eq := by
    rw [List.length_append, List.length_zipWith, List.length_drop, w.length_eq]
    omega

theorem overlay_lanes {w : Word N} {q q' : List (BitVec 8)} {ls : List Lane} (hw : w.lanes = q.map Lane.kept ++ ls)
    (hlen : q'.length = q.length) : (overlay q' w).lanes = q'.map Lane.kept ++ ls := by
  show List.zipWith _ q' w.lanes ++ w.lanes.drop q'.length = _
  rw [hw, List.drop_left' (by rw [List.length_map, hlen])]
  congr 1
  rw [← List.append_nil q', List.zipWith_append (by rw [List.length_map, hlen])]
  rw [List.zipWith_nil_left, List.append_nil, List.append_nil]
  apply List.ext_getElem
  · simp [hlen]
  · intro k hk hk'
    simp [Lane.kept]

section

variable {σ ι : Type} {f : σ → ι → σ × ι × List (Word N)} (input : List (Word N) → ι) (busy idle : σ → Prop)
  {ws : List (Word N)} {q q' bs : List (BitVec 8)} {s : σ}

theorem forward_overlay
    (hmore : ∀ s w rest, busy s → w.last = false → ∃ t, f s (input (w :: rest)) = (t, input rest, [w]) ∧ busy t)
    (hlast : ∀ s w rest, busy s → w.last = true → ∃ t, f s (input (w :: rest)) = (t, input rest, [w]) ∧ idle t)
    (hfirst : ∀ w rest, ∃ t, f s (input (w :: rest)) = (t, input rest, [overlay q' w]) ∧
      (w.last = false → busy t) ∧ (w.last = true → idle t))
    (hlen : q'.length = q.length) (hN : q.length ≤ N) (h : Packet ws (q ++ bs)) (rest : List (Word N)) :
    ∃ os t, Runs f s (input (ws ++ rest)) os t (input rest) ∧ idle t ∧ Packet os.flatten (q' ++ bs) := by
  obtain ⟨os, t, w, ws', hrun, ht, hws, hos⟩ := forward_first input busy idle hmore hlast hfirst h rest
  refine ⟨os, t, hrun, ht, ?_⟩
  rw [hws] at h
  rw [hos]
  exact h.replace hN rfl fun _ hls => overlay_lanes hls hlen

end

/-! ## Reading -/

section

variable {W : Nat}

theorem packetNat_append (as bs : List (BitVec W)) :
    packetNat (as ++ bs) = packetNat as + 2 ^ (W * as.length) * packetNat bs := by
  induction as with
  | nil => simp [packetNat]
  | cons a as ih =>
    rw [List.cons_append, packetNat, packetNat, ih, List.length_cons, Nat.mul_succ, Nat.pow_add, Nat.mul_add,
      Nat.mul_comm (2 ^ (W * as.length)) (2 ^ W), Nat.mul_assoc]
    omega

theorem packetNat_lt (ws : List (BitVec W)) : packetNat ws < 2 ^ (W * ws.length) := by
  induction ws with
  | nil => exact Nat.one_pos
  | cons w ws ih =>
    have hw := w.isLt
    rw [packetNat, List.length_cons, Nat.mul_succ, Nat.pow_add, Nat.mul_comm (2 ^ (W * ws.length))]
    calc 2 ^ W * packetNat ws + w.toNat
      _ < 2 ^ W * packetNat ws + 2 ^ W := Nat.add_lt_add_left hw _
      _ = 2 ^ W * (packetNat ws + 1) := (Nat.mul_succ _ _).symm
      _ ≤ 2 ^ W * 2 ^ (W * ws.length) := Nat.mul_le_mul_left _ ih

-- what comes behind a number is cut off
theorem ofNat_packetNat_append {size : Nat} (as bs : List (BitVec W)) (h : size ≤ W * as.length) :
    BitVec.ofNat size (packetNat (as ++ bs)) = BitVec.ofNat size (packetNat as) := by
  obtain ⟨k, hk⟩ := Nat.exists_eq_add_of_le h
  apply BitVec.eq_of_toNat_eq
  rw [BitVec.toNat_ofNat, BitVec.toNat_ofNat, packetNat_append, hk, Nat.pow_add, Nat.mul_assoc,
    Nat.add_mul_mod_self_left]

end

theorem testBit_packetNat_octets {w : Nat} (n : Nat) (x : BitVec w) (i : Nat) :
    (packetNat (octets n x)).testBit i = (decide (i < 8 * n) && x.getLsbD i) := by
  induction n with
  | zero => simp [octets, packetNat]
  | succ n ih =>
    rw [octets_succ, testBit_packetNat_append, length_octets, ih, BitVec.getLsbD_extractLsb']
    by_cases hlow : i < n * 8
    · have h1 : i < 8 * n := by omega
      have h2 : i < 8 * (n + 1) := by omega
      rw [if_pos hlow, decide_eq_true h1, decide_eq_true h2]
    · have hsum : 8 * n + (i - n * 8) = i := by omega
      have hiff : i - n * 8 < 8 ↔ i < 8 * (n + 1) := by omega
      rw [if_neg hlow, hsum, decide_eq_decide.mpr hiff]

theorem packetNat_octets {n : Nat} (x : BitVec (8 * n)) : packetNat (octets n x) = x.toNat := by
  apply Nat.eq_of_testBit_eq
  intro i
  rw [testBit_packetNat_octets]
  by_cases hi : i < 8 * n
  · rw [decide_eq_true hi, Bool.true_and]
    rfl
  · rw [decide_eq_false hi, Bool.false_and, BitVec.testBit_toNat, BitVec.getLsbD_of_ge x i (Nat.le_of_not_lt hi)]

def Word.data (w : Word N) : BitVec (8 * N) := BitVec.ofNat (8 * N) (packetNat (w.lanes.map (·.data)))

theorem Word.toNat_data (w : Word N) : w.data.toNat = packetNat (w.lanes.map (·.data)) := by
  rw [Word.data, BitVec.toNat_ofNat]
  apply Nat.mod_eq_of_lt
  have hlt := packetNat_lt (w.lanes.map (·.data))
  rw [List.length_map, w.length_eq] at hlt
  exact hlt

theorem packetNat_data (ws : List (Word N)) :
    packetNat (ws.map Word.data) = packetNat (ws.flatMap fun w => w.lanes.map (·.data)) := by
  induction ws with
  | nil => rfl
  | cons w ws ih =>
    rw [List.map_cons, packetNat, ih, Word.toNat_data, List.flatMap_cons, packetNat_append, List.length_map,
      w.length_eq, Nat.add_comm]

def laneData (ws : List (Word N)) : List (BitVec 8) := ws.flatMap fun w => w.lanes.map (·.data)

theorem laneData_cons (w : Word N) (ws : List (Word N)) : laneData (w :: ws) = w.lanes.map (·.data) ++ laneData ws :=
  List.flatMap_cons

theorem laneData_append (ws ws' : List (Word N)) : laneData (ws ++ ws') = laneData ws ++ laneData ws' :=
  List.flatMap_append

theorem length_laneData (ws : List (Word N)) : (laneData ws).length = ws.length * N := by
  induction ws with
  | nil => exact (Nat.zero_mul N).symm
  | cons w ws ih =>
    rw [laneData_cons, List.length_append, List.length_map, w.length_eq, ih, List.length_cons, Nat.succ_mul, Nat.add_comm]

theorem Packet.lanes {ws : List (Word N)} {bs : List (BitVec 8)} (h : Packet ws bs) :
    ∃ unkept, (ws.flatMap fun w => w.lanes.map (·.data)) = bs ++ unkept := by
  induction h with
  | last _ hw =>
    obtain ⟨rest, hlanes, -⟩ := hw
    exact ⟨rest.map (·.data), by rw [List.flatMap_singleton, hlanes, List.map_append, map_data_kept]⟩
  | cons _ hw _ ih =>
    obtain ⟨unkept, hrest⟩ := ih
    exact ⟨unkept, by rw [List.flatMap_cons, hrest, hw, map_data_kept, List.append_assoc]⟩

theorem Packet.header {ws more : List (Word N)} {n : Nat} {x : BitVec (8 * n)} {bs : List (BitVec 8)}
    (h : Packet (ws ++ more) (octets n x ++ bs)) (hfull : 8 * n ≤ 8 * N * ws.length) :
    BitVec.ofNat (8 * n) (packetNat (ws.map Word.data)) = x := by
  obtain ⟨unkept, hlanes⟩ := h.lanes
  have hfull' : 8 * n ≤ 8 * N * (ws.map Word.data).length := by
    rw [List.length_map]
    exact hfull
  rw [← ofNat_packetNat_append _ (more.map Word.data) hfull', ← List.map_append, packetNat_data, hlanes,
    List.append_assoc, ofNat_packetNat_append _ _ (by rw [length_octets]), packetNat_octets, BitVec.ofNat_toNat,
    BitVec.setWidth_eq]

/-! ## The bytes at the start of a packet -/

/-- The first `n` bytes as a header. -/
def headerOf (n : Nat) (bytes : List (BitVec 8)) : BitVec (8 * n) := BitVec.ofNat (8 * n) (packetNat bytes)

theorem testBit_packetNat (bytes : List (BitVec 8)) (k : Nat) {i : Nat} (hi : i < 8) :
    (packetNat bytes).testBit (8 * k + i) = (bytes.getD k 0).getLsbD i := by
  induction bytes generalizing k with
  | nil => simp [packetNat]
  | cons b bytes ih =>
    rw [testBit_packetNat_cons]
    cases k with
    | zero => rw [Nat.mul_zero, Nat.zero_add, if_pos hi, List.getD_cons_zero]
    | succ k =>
      have hge : ¬8 * (k + 1) + i < 8 := by omega
      have hsub : 8 * (k + 1) + i - 8 = 8 * k + i := by omega
      rw [if_neg hge, hsub, ih, List.getD_cons_succ]

theorem headerOf_octet {n k : Nat} (hk : k < n) (bytes : List (BitVec 8)) :
    (headerOf n bytes).extractLsb' (8 * k) 8 = bytes.getD k 0 := by
  apply BitVec.eq_of_getLsbD_eq
  intro i hi
  have hlt : 8 * k + i < 8 * n := by omega
  rw [BitVec.getLsbD_extractLsb', headerOf, BitVec.getLsbD_ofNat, testBit_packetNat bytes k hi]
  simp only [hi, hlt, decide_true, Bool.true_and]

theorem Packet.header_bytes {ws more : List (Word N)} {n : Nat} {bytes : List (BitVec 8)}
    (h : Packet (ws ++ more) bytes) (hfull : 8 * n ≤ 8 * N * ws.length) (hlen : n ≤ bytes.length) :
    BitVec.ofNat (8 * n) (packetNat (ws.map Word.data)) = headerOf n bytes := by
  obtain ⟨unkept, hlanes⟩ := h.lanes
  have hfull' : 8 * n ≤ 8 * N * (ws.map Word.data).length := by
    rw [List.length_map]
    exact hfull
  rw [← ofNat_packetNat_append _ (more.map Word.data) hfull', ← List.map_append, packetNat_data, hlanes,
    ofNat_packetNat_append _ _ (Nat.mul_le_mul_left 8 hlen)]
  rfl

theorem Packet.first_octet {w : Word N} {ws : List (Word N)} {bytes : List (BitVec 8)} {k : Nat}
    (h : Packet (w :: ws) bytes) (hk : k < N) (hlen : k < bytes.length) :
    w.data.extractLsb' (8 * k) 8 = bytes.getD k 0 := by
  obtain ⟨unkept, hlanes⟩ := h.lanes
  have hdata : w.data = headerOf N (w.lanes.map (·.data)) := rfl
  have hk' : k < (w.lanes.map (·.data)).length := by
    rw [List.length_map, w.length_eq]
    exact hk
  rw [List.flatMap_cons] at hlanes
  rw [hdata, headerOf_octet hk, ← List.getD_append _ (ws.flatMap fun w => w.lanes.map (·.data)) _ _ hk', hlanes,
    List.getD_append _ _ _ _ hlen]

end FpgaNetworkStack.Axi
