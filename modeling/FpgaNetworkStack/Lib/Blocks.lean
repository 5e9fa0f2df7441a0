import FpgaNetworkStack.Lib.Serial
import Mathlib.Algebra.BigOperators.Group.List.Basic
import Mathlib.Data.List.Induction

/-!
# Consecutive blocks of a stream

A stream is cut into blocks, one behind the other, and a block is named by the image of its first
position in a register of `w` bits.  The same blocks have names of different widths: a buffer address
and a sequence number.  `cover` finds the last block that contains a name.
-/

namespace FpgaNetworkStack.Lib

variable {w : Nat} {n x : Nat} {ls ms : List Nat}

/-- Blocks of the given lengths from position `n` on. -/
def blocks (w : Nat) : Nat → List Nat → List (BitVec w × Nat)
  | _, [] => []
  | n, l :: ls => (BitVec.ofNat w n, l) :: blocks w (n + l) ls

@[simp] theorem blocks_nil : blocks w n [] = [] := rfl

theorem blocks_append : blocks w n (ls ++ ms) = blocks w n ls ++ blocks w (n + ls.sum) ms := by
  induction ls generalizing n with
  | nil => simp
  | cons l ls ih => simp [blocks, ih, Nat.add_assoc]

/-- One more block at the end. -/
theorem blocks_snoc {l : Nat} :
    blocks w n (ls ++ [l]) = blocks w n ls ++ [(BitVec.ofNat w (n + ls.sum), l)] := by
  rw [blocks_append]
  rfl

@[simp] theorem blocks_map_snd : (blocks w n ls).map Prod.snd = ls := by
  induction ls generalizing n with
  | nil => rfl
  | cons l ls ih => simp [blocks, ih]

@[simp] theorem blocks_length : (blocks w n ls).length = ls.length := by
  rw [← List.length_map (f := Prod.snd), blocks_map_snd]

theorem blocks_getElem? (k : Nat) :
    (blocks w n ls)[k]? = ls[k]?.map fun l => (BitVec.ofNat w (n + (ls.take k).sum), l) := by
  induction ls generalizing n k with
  | nil => simp
  | cons l ls ih =>
    cases k with
    | zero => simp [blocks]
    | succ k => simp [blocks, ih, Nat.add_assoc]

theorem sum_take_succ {k l : Nat} (h : ls[k]? = some l) : (ls.take (k + 1)).sum = (ls.take k).sum + l := by
  rw [List.take_add_one, h, Option.toList_some, List.sum_append, List.sum_singleton]

theorem sum_take_le {i j : Nat} (h : i ≤ j) : (ls.take i).sum ≤ (ls.take j).sum := by
  obtain ⟨d, rfl⟩ := Nat.exists_eq_add_of_le h
  rw [List.take_add, List.sum_append]
  exact Nat.le_add_right _ _

/-- Two blocks have no name in common when the blocks from the one to the other fit in one turn. -/
theorem blocks_disjoint {i j : Nat} {a b : BitVec w} {l m : Nat} (hij : i < j)
    (hi : (blocks w n ls)[i]? = some (a, l)) (hj : (blocks w n ls)[j]? = some (b, m))
    (hfit : (ls.take (j + 1)).sum ≤ (ls.take i).sum + 2 ^ w) {x y : Nat} (hx : x < l) (hy : y < m) :
    a + BitVec.ofNat w x ≠ b + BitVec.ofNat w y := by
  rw [blocks_getElem?, Option.map_eq_some_iff] at hi hj
  obtain ⟨l', hl, heq⟩ := hi
  obtain ⟨m', hm, heq'⟩ := hj
  obtain ⟨rfl, rfl⟩ := Prod.mk.inj heq
  obtain ⟨rfl, rfl⟩ := Prod.mk.inj heq'
  have hstart := sum_take_succ hl
  have hend := sum_take_succ hm
  have hle : (ls.take (i + 1)).sum ≤ (ls.take j).sum := sum_take_le (Nat.succ_le_of_lt hij)
  rw [← BitVec.ofNat_add, ← BitVec.ofNat_add]
  exact ofNat_ne (by omega) (by omega) (by omega)

/-- The last block, in a list with the last one first, that contains `x`: its number and the offset in
it. -/
def coverRev : List (BitVec w × Nat) → BitVec w → Option (Nat × Nat)
  | [], _ => none
  | (a, l) :: bs, x => if (x - a).toNat < l then some (bs.length, (x - a).toNat) else coverRev bs x

def cover (bs : List (BitVec w × Nat)) (x : BitVec w) : Option (Nat × Nat) := coverRev bs.reverse x

theorem cover_snoc (bs : List (BitVec w × Nat)) (a : BitVec w) (l : Nat) (x : BitVec w) :
    cover (bs ++ [(a, l)]) x =
      if (x - a).toNat < l then some (bs.length, (x - a).toNat) else cover bs x := by
  simp [cover, coverRev]

/-- A block of the stream that starts behind `x` and ends within one turn of the register does not
contain the image of `x`. -/
theorem not_covered {p l : Nat} (hp : x < p) (hend : p + l ≤ x + 2 ^ w) :
    ¬(BitVec.ofNat w x - BitVec.ofNat w p).toNat < l := by
  have hne : BitVec.ofNat w x - BitVec.ofNat w p = -(BitVec.ofNat w p - BitVec.ofNat w x) := by
    rw [BitVec.neg_sub, BitVec.sub_eq_add_neg, BitVec.add_comm]
  by_cases hturn : p = x + 2 ^ w
  · -- a whole turn leaves no room for the block
    omega
  · have hd := ofNat_sub_toNat (w := w) (Nat.le_of_lt hp) (by omega)
    rw [hne, BitVec.toNat_neg, hd, Nat.mod_eq_of_lt (by omega)]
    omega

/-- The block of a position is found in every width, as long as the stream has gone on for less than one
turn of the register and no block is longer than a turn. -/
theorem cover_blocks (hx : n ≤ x) (hlt : x < n + ls.sum) :
    ∃ k i, ∀ (w : Nat) (ms : List Nat), (∀ l ∈ ls, l ≤ 2 ^ w) → n + (ls ++ ms).sum ≤ x + 2 ^ w →
      cover (blocks w n (ls ++ ms)) (BitVec.ofNat w x) = some (k, i) := by
  induction ls using List.reverseRecOn with
  | nil => simp at hlt; omega
  | append_singleton ls l ih =>
    rw [List.sum_append, List.sum_singleton] at hlt
    by_cases hin : n + ls.sum ≤ x
    · refine ⟨ls.length, x - (n + ls.sum), ?_⟩
      intro w ms hturn hend
      have hl := hturn l (by simp)
      induction ms using List.reverseRecOn with
      | nil =>
        simp only [List.append_nil, List.sum_append, List.sum_singleton] at hend
        rw [List.append_nil, blocks_snoc, cover_snoc, ofNat_sub_toNat hin (by omega),
          if_pos (by omega), blocks_length]
      | append_singleton ms m ihm =>
        -- the blocks behind lie less than one turn ahead
        simp only [List.sum_append, List.sum_singleton, ← List.append_assoc] at hend ihm ⊢
        rw [blocks_snoc, cover_snoc, if_neg (not_covered _ _)]
        · exact ihm (by omega)
        · simp only [List.sum_append, List.sum_singleton]
          omega
        · simp only [List.sum_append, List.sum_singleton]
          omega
    · obtain ⟨k, i, h⟩ := ih (by omega)
      refine ⟨k, i, fun w ms hturn hend => ?_⟩
      rw [List.append_assoc] at hend ⊢
      exact h w _ (fun l hl => hturn l (List.mem_append_left _ hl)) hend

end FpgaNetworkStack.Lib
