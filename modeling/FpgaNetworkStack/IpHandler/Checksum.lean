import FpgaNetworkStack.IpHandler.Stages
import Mathlib.Data.List.Forall2

/-!
# The checksum verdict

The halfwords of the header go into 32 sums, which are added in pairs until one is left.  That one is the sum of
the header in ones' complement.
-/

namespace FpgaNetworkStack.IpHandler

open Lib
open Axi (Word Packet)
open Toe (reverse16)

/-! ## Adding in pairs -/

theorem foldAdd_toNat {a b : BitVec 17} (ha : a.toNat < 65536) (hb : b.toNat < 65536) :
    (foldAdd a b).toNat = onesAdd 65536 a.toNat b.toNat := by
  have hsum : (a + b).toNat = a.toNat + b.toNat := by
    rw [BitVec.toNat_add, Nat.mod_eq_of_lt (by omega)]
  have hcarry : ((a + b) >>> 16).toNat = (a.toNat + b.toNat) / 65536 := by
    rw [BitVec.toNat_ushiftRight, hsum, Nat.shiftRight_eq_div_pow]
  have hmask : (0xFFFF : BitVec 17).toNat = 2 ^ 16 - 1 := rfl
  have hlt : (a.toNat + b.toNat + (a.toNat + b.toNat) / 65536) < 2 ^ 17 := by omega
  rw [foldAdd, BitVec.toNat_and, BitVec.toNat_add, hsum, hcarry, hmask, Nat.and_two_pow_sub_one_eq_mod,
    Nat.mod_eq_of_lt hlt, onesAdd]
  omega

def StandsFor (l : SubSums) (xs : List Nat) : Prop := List.Forall₂ (fun e x => Folds 65536 e.toNat x) l xs

theorem StandsFor.zipWith {l l' : SubSums} {xs xs' : List Nat} (h : StandsFor l xs) (h' : StandsFor l' xs') :
    StandsFor (List.zipWith foldAdd l l') (List.zipWith (· + ·) xs xs') := by
  induction h generalizing l' xs' with
  | nil => exact .nil
  | @cons e x l xs he _ ih =>
    cases h' with
    | nil => exact .nil
    | @cons e' x' l' xs' he' h' =>
      refine .cons ?_ (ih h')
      rw [foldAdd_toNat he.lt he'.lt]
      exact he.add he'

/-- `n` sums that stand for numbers with the given total. -/
def Total (l : SubSums) (n total : Nat) : Prop := ∃ xs, StandsFor l xs ∧ xs.length = n ∧ xs.sum = total

theorem Total.addHalves {l : SubSums} {n total : Nat} (h : Total l (2 * n) total) : Total (addHalves n l) n total := by
  obtain ⟨xs, hxs, hlen, hsum⟩ := h
  have htake : (xs.take n).length = n := by rw [List.length_take]; omega
  have hdrop : (xs.drop n).length = n := by rw [List.length_drop]; omega
  refine ⟨List.zipWith (· + ·) (xs.take n) (xs.drop n), ?_, ?_, ?_⟩
  · exact StandsFor.zipWith (List.forall₂_take n hxs) (List.forall₂_drop n hxs)
  · rw [List.length_zipWith, htake, hdrop, Nat.min_self]
  · rw [← List.sum_add_sum_eq_sum_zipWith_of_length_eq _ _ (htake.trans hdrop.symm), List.sum_take_add_sum_drop, hsum]

-- the one that is left
theorem Total.one {l : SubSums} {total : Nat} (h : Total l 1 total) : Folds 65536 (l.headD 0).toNat total := by
  obtain ⟨xs, hxs, hlen, hsum⟩ := h
  cases hxs with
  | nil => cases hlen
  | @cons e x l xs he hrest =>
    cases hrest with
    | nil =>
      rw [List.sum_singleton] at hsum
      rw [← hsum]
      exact he
    | cons => cases hlen

theorem not_eq_zero_iff {e : BitVec 17} (he : e.toNat < 65536) : ((~~~e).extractLsb' 0 16 == 0) = (e.toNat == 65535) := by
  have hnat : ((~~~e).extractLsb' 0 16).toNat = 65535 - e.toNat := by
    rw [BitVec.extractLsb'_toNat, BitVec.toNat_not, Nat.shiftRight_zero]
    omega
  rw [Bool.eq_iff_iff, beq_iff_eq, beq_iff_eq, ← BitVec.toNat_inj, hnat]
  show 65535 - e.toNat = 0 ↔ e.toNat = 65535
  omega

theorem checksumValid_eq {l : SubSums} {xs : List Nat} (hxs : ∀ x ∈ xs, x < 65536) (h : Total l 32 xs.sum) :
    checksumValid l = (onesSum 65536 xs == 65535) := by
  have hone : Folds 65536 ((addHalves 1 (addHalves 2 (addHalves 4 (addHalves 8 (addHalves 16 l))))).headD 0).toNat
      xs.sum := (h.addHalves (n := 16)).addHalves (n := 8) |>.addHalves (n := 4) |>.addHalves (n := 2)
        |>.addHalves (n := 1) |>.one
  show ((~~~_ : BitVec 17).extractLsb' 0 16 == 0) = _
  rw [not_eq_zero_iff hone.lt, hone.eq_onesSum (by decide) hxs]

/-! ## The header of a packet -/

variable {w : Word 64} {ws : List (Word 64)} {ip : List (BitVec 8)}

/-- The sums of a header of which `n` halfwords are counted. -/
def headerSums (ip : List (BitVec 8)) : List Nat :=
  (List.range 32).map fun i => if i < headerHalfwords ip then (ip.getD (2 * i) 0 ++ ip.getD (2 * i + 1) 0).toNat else 0

theorem headerHalfwords_le (ip : List (BitVec 8)) : headerHalfwords ip ≤ 30 := by
  have hlt := ((ip.getD 0 0).extractLsb' 0 4).isLt
  unfold headerHalfwords
  omega

-- behind the header zeros are added
theorem headerSums_sum (ip : List (BitVec 8)) : (headerSums ip).sum = (halfwords ip).sum := by
  have hle := headerHalfwords_le ip
  have hrange : List.range 32 =
      List.range (headerHalfwords ip) ++ (List.range (32 - headerHalfwords ip)).map (headerHalfwords ip + ·) := by
    rw [← List.range_add, Nat.add_sub_cancel' (by omega)]
  have hzero : (((List.range (32 - headerHalfwords ip)).map (headerHalfwords ip + ·)).map fun i =>
      if i < headerHalfwords ip then (ip.getD (2 * i) 0 ++ ip.getD (2 * i + 1) 0).toNat else 0).sum = 0 := by
    apply List.sum_eq_zero
    intro x hx
    rw [List.map_map] at hx
    obtain ⟨k, -, rfl⟩ := List.mem_map.mp hx
    exact if_neg (Nat.not_lt.mpr (Nat.le_add_right _ k))
  have hhalf : ((List.range (headerHalfwords ip)).map fun i =>
      if i < headerHalfwords ip then (ip.getD (2 * i) 0 ++ ip.getD (2 * i + 1) 0).toNat else 0) = halfwords ip := by
    apply List.map_congr_left
    intro i hi
    exact if_pos (List.mem_range.mp hi)
  rw [headerSums, hrange, List.map_append, List.sum_append, hzero, hhalf, Nat.add_zero]

theorem halfwords_lt (ip : List (BitVec 8)) : ∀ x ∈ halfwords ip, x < 65536 := by
  intro x hx
  obtain ⟨k, -, rfl⟩ := List.mem_map.mp hx
  exact BitVec.isLt _

theorem headerLen_eq (h : Packet (w :: ws) ip) (hpos : 0 < ip.length) :
    w.data.extractLsb' 0 4 = (ip.getD 0 0).extractLsb' 0 4 := by
  rw [← h.first_octet (by decide) hpos]
  apply BitVec.eq_of_getLsbD_eq
  intro i hi
  simp [hi]

theorem addHeader_standsFor (h : Packet (w :: ws) ip) (hpos : 0 < ip.length) (hlen : 2 * headerHalfwords ip ≤ ip.length) :
    StandsFor (addHeader (List.replicate 32 0) (w.data.extractLsb' 0 4) w.data) (headerSums ip) := by
  have hlist : addHeader (List.replicate 32 0) (w.data.extractLsb' 0 4) w.data = (List.range 32).map fun i =>
      if i / 2 < ((ip.getD 0 0).extractLsb' 0 4).toNat then
        foldAdd 0 ((reverse16 (w.data.extractLsb' (16 * i) 16)).setWidth 17) else 0 := by
    rw [addHeader, headerLen_eq h hpos]
    apply List.ext_getElem
    · rw [List.length_mapIdx, List.length_replicate, List.length_map, List.length_range]
    · intro i hi hi'
      rw [List.getElem_mapIdx, List.getElem_map, List.getElem_replicate, List.getElem_range]
  rw [hlist]
  apply List.forall₂_map_left_iff.mpr
  apply List.forall₂_map_right_iff.mpr
  apply List.forall₂_same.mpr
  intro i hi
  have hlt := List.mem_range.mp hi
  by_cases hin : i < headerHalfwords ip
  · have hdiv : i / 2 < ((ip.getD 0 0).extractLsb' 0 4).toNat := by
      unfold headerHalfwords at hin
      omega
    have hswap := reverse16_extract w.data (2 * i)
    have hidx : 8 * (2 * i) = 16 * i := by omega
    rw [h.first_octet (by omega) (by omega), h.first_octet (by omega) (by omega), hidx] at hswap
    rw [if_pos hin, if_pos hdiv, hswap]
    have hbytes := (ip.getD (2 * i) 0 ++ ip.getD (2 * i + 1) 0).isLt
    have hwidth : ((ip.getD (2 * i) 0 ++ ip.getD (2 * i + 1) 0).setWidth 17).toNat =
        (ip.getD (2 * i) 0 ++ ip.getD (2 * i + 1) 0).toNat := by
      rw [BitVec.toNat_setWidth, Nat.mod_eq_of_lt (by omega)]
    rw [foldAdd_toNat (by decide) (by rw [hwidth]; exact hbytes), hwidth]
    have hadd := (folds_zero (B := 65536) (by decide)).add (folds_self hbytes)
    rw [Nat.zero_add] at hadd
    exact hadd
  · have hdiv : ¬i / 2 < ((ip.getD 0 0).extractLsb' 0 4).toNat := by
      unfold headerHalfwords at hin
      omega
    rw [if_neg hin, if_neg hdiv]
    exact folds_zero (by decide)

theorem checksumValid_packet (h : Packet (w :: ws) ip) (hpos : 0 < ip.length)
    (hlen : 2 * headerHalfwords ip ≤ ip.length) :
    checksumValid (addHeader (List.replicate 32 0) (w.data.extractLsb' 0 4) w.data) = checksumOk ip := by
  refine checksumValid_eq (halfwords_lt ip) ⟨headerSums ip, addHeader_standsFor h hpos hlen, ?_, headerSums_sum ip⟩
  rw [headerSums, List.length_map, List.length_range]

end FpgaNetworkStack.IpHandler
