import Mathlib.Data.Nat.ModEq
import Mathlib.Tactic.SplitIfs

/-!
# Serial numbers

A counter that only grows is kept in a register of `w` bits, so what is stored of position `n` is
`BitVec.ofNat w n`.  The lemmas say when such images can be compared as if they did not wrap: as long
as the positions lie less than `2 ^ w` apart.
-/

namespace FpgaNetworkStack.Lib

variable {w : Nat}

/-- The distance between two positions is read off their images. -/
theorem ofNat_sub_toNat {lo n : Nat} (h : lo ≤ n) (hw : n < lo + 2 ^ w) :
    (BitVec.ofNat w n - BitVec.ofNat w lo).toNat = n - lo := by
  obtain ⟨d, rfl⟩ := Nat.exists_eq_add_of_le h
  rw [BitVec.ofNat_add, BitVec.add_comm, BitVec.add_sub_cancel, BitVec.toNat_ofNat,
    Nat.add_sub_cancel_left]
  exact Nat.mod_eq_of_lt (by omega)

/-- The space left in a ring between a position and one further on, less one. -/
theorem ofNat_sub_sub_one_toNat {lo n : Nat} (h : lo ≤ n) (hw : n < lo + 2 ^ w) :
    (BitVec.ofNat w lo - BitVec.ofNat w n - 1).toNat = 2 ^ w - 1 - (n - lo) := by
  have hnot : BitVec.ofNat w lo - BitVec.ofNat w n - 1 = ~~~(BitVec.ofNat w n - BitVec.ofNat w lo) := by
    have hneg : BitVec.ofNat w lo - BitVec.ofNat w n = -(BitVec.ofNat w n - BitVec.ofNat w lo) := by
      rw [BitVec.neg_sub, BitVec.sub_eq_add_neg, BitVec.add_comm]
    rw [hneg, BitVec.neg_eq_not_add]
    exact BitVec.add_sub_cancel _ _
  rw [hnot, BitVec.toNat_not, ofNat_sub_toNat h hw]

/-- Positions less than `2 ^ w` apart have different images. -/
theorem ofNat_inj {m n : Nat} (h : BitVec.ofNat w m = BitVec.ofNat w n) (hmn : m < n + 2 ^ w)
    (hnm : n < m + 2 ^ w) : m = n := by
  rcases Nat.le_total m n with hle | hle
  · have hd := ofNat_sub_toNat hle hnm
    rw [h, BitVec.sub_self] at hd
    simp at hd
    omega
  · have hd := ofNat_sub_toNat hle hmn
    rw [h, BitVec.sub_self] at hd
    simp at hd
    omega

theorem ofNat_ne {m n : Nat} (hne : m ≠ n) (hmn : m < n + 2 ^ w) (hnm : n < m + 2 ^ w) :
    BitVec.ofNat w m ≠ BitVec.ofNat w n :=
  fun h => hne (ofNat_inj h hmn hnm)

theorem ofNat_add_two_pow (n : Nat) : BitVec.ofNat w (n + 2 ^ w) = BitVec.ofNat w n := by
  apply BitVec.eq_of_toNat_eq
  simp

/-- A narrower register keeps the image of the same position. -/
theorem setWidth_ofNat {v : Nat} (h : v ≤ w) (n : Nat) :
    (BitVec.ofNat w n).setWidth v = BitVec.ofNat v n :=
  BitVec.setWidth_ofNat_of_le h n

/-- Every register value is the image of a position less than `2 ^ w` after a given one. -/
theorem eq_ofNat_add (lo : Nat) (x : BitVec w) :
    x = BitVec.ofNat w (lo + (x - BitVec.ofNat w lo).toNat) := by
  rw [BitVec.ofNat_add, BitVec.ofNat_toNat, BitVec.setWidth_eq, BitVec.add_comm,
    BitVec.sub_add_cancel]

/-- Comparing the stored values themselves is right when no multiple of `2 ^ w` lies in between, and
the distance shows whether one does. -/
theorem toNat_ofNat_add (lo d : Nat) (hd : d < 2 ^ w) :
    (BitVec.ofNat w (lo + d)).toNat =
      if (BitVec.ofNat w lo).toNat + d < 2 ^ w then (BitVec.ofNat w lo).toNat + d
      else (BitVec.ofNat w lo).toNat + d - 2 ^ w := by
  have hlt : (BitVec.ofNat w lo).toNat < 2 ^ w := (BitVec.ofNat w lo).isLt
  rw [BitVec.ofNat_add, BitVec.toNat_add, BitVec.toNat_ofNat d w, Nat.mod_eq_of_lt hd]
  split
  · next h => exact Nat.mod_eq_of_lt h
  · next h =>
      rw [Nat.mod_eq_sub_mod (by omega)]
      exact Nat.mod_eq_of_lt (by omega)

end FpgaNetworkStack.Lib
