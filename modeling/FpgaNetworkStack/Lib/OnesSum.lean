import Mathlib.Algebra.BigOperators.Group.List.Basic
import Mathlib.Data.Nat.ModEq

/-!
# Sums in ones' complement

Numbers below `B` are added with the carry put back at the low end.  Up to zero such a sum is the sum modulo
`B - 1`, so it does not matter in which order the numbers are added.
-/

namespace FpgaNetworkStack.Lib

variable {B : Nat}

/-- Addition with an end-around carry. -/
def onesAdd (B a b : Nat) : Nat := (a + b) % B + (a + b) / B

/-- The sum from left to right. -/
def onesSum (B : Nat) (l : List Nat) : Nat := l.foldl (onesAdd B) 0

/-- `s` is what is left of the sum `n` when all carries are put back. -/
structure Folds (B s n : Nat) : Prop where
  lt : s < B
  mod : s % (B - 1) = n % (B - 1)
  zero : s = 0 ↔ n = 0

theorem folds_zero (hB : 1 < B) : Folds B 0 0 := ⟨Nat.lt_of_succ_lt hB, rfl, Iff.rfl⟩

theorem folds_self {a : Nat} (h : a < B) : Folds B a a := ⟨h, rfl, Iff.rfl⟩

-- one carry at most, and then there is room for it
theorem onesAdd_lt {a b : Nat} (ha : a < B) (hb : b < B) : onesAdd B a b < B := by
  have hB : 0 < B := Nat.lt_of_le_of_lt (Nat.zero_le a) ha
  by_cases h : a + b < B
  · rw [onesAdd, Nat.mod_eq_of_lt h, Nat.div_eq_of_lt h]
    exact h
  · have hmod : (a + b) % B = a + b - B := by
      rw [Nat.mod_eq_sub_mod (Nat.le_of_not_lt h), Nat.mod_eq_of_lt (by omega)]
    have hdiv : (a + b) / B = 1 := Nat.div_eq_of_lt_le (by omega) (by omega)
    rw [onesAdd, hmod, hdiv]
    omega

theorem onesAdd_mod (hB : 0 < B) (a b : Nat) : onesAdd B a b % (B - 1) = (a + b) % (B - 1) := by
  have hone : B % (B - 1) = 1 % (B - 1) := by
    have hadd := Nat.add_mod_right 1 (B - 1)
    rw [Nat.add_sub_cancel' hB] at hadd
    exact hadd
  calc onesAdd B a b % (B - 1)
    _ = ((a + b) / B * 1 + (a + b) % B) % (B - 1) := by rw [onesAdd, Nat.mul_one, Nat.add_comm]
    _ = ((a + b) / B * B + (a + b) % B) % (B - 1) := by
        rw [Nat.add_mod, Nat.mul_mod, ← hone, ← Nat.mul_mod, ← Nat.add_mod]
    _ = (a + b) % (B - 1) := by rw [Nat.div_add_mod']

theorem onesAdd_eq_zero {a b : Nat} : onesAdd B a b = 0 ↔ a + b = 0 := by
  constructor
  · intro h
    obtain ⟨hmod, hdiv⟩ := Nat.add_eq_zero_iff.mp h
    rw [← Nat.div_add_mod (a + b) B, hmod, hdiv]
    rfl
  · intro h
    rw [onesAdd, h, Nat.zero_mod, Nat.zero_div]

theorem Folds.add {s t n m : Nat} (h : Folds B s n) (h' : Folds B t m) : Folds B (onesAdd B s t) (n + m) := by
  have hB : 0 < B := Nat.lt_of_le_of_lt (Nat.zero_le s) h.lt
  refine ⟨onesAdd_lt h.lt h'.lt, ?_, ?_⟩
  · rw [onesAdd_mod hB, Nat.add_mod, h.mod, h'.mod, ← Nat.add_mod]
  · rw [onesAdd_eq_zero, Nat.add_eq_zero_iff, Nat.add_eq_zero_iff, h.zero, h'.zero]

/-- A sum folds in one way. -/
theorem Folds.unique {s t n : Nat} (h : Folds B s n) (h' : Folds B t n) : s = t := by
  have hmod := h.mod.trans h'.mod.symm
  have hzero := h.zero.trans h'.zero.symm
  have hs := h.lt
  have ht := h'.lt
  by_cases h0 : s = 0
  · rw [h0, hzero.mp h0]
  · have ht0 : t ≠ 0 := fun heq => h0 (hzero.mpr heq)
    -- among `1, …, B - 1` the remainder tells the number
    have hs' : s - 1 < B - 1 := by omega
    have ht' : t - 1 < B - 1 := by omega
    have hcongr : Nat.ModEq (B - 1) (s - 1) (t - 1) := by
      apply Nat.ModEq.add_right_cancel' 1
      rw [Nat.sub_add_cancel (Nat.pos_of_ne_zero h0), Nat.sub_add_cancel (Nat.pos_of_ne_zero ht0)]
      exact hmod
    have heq : s - 1 = t - 1 := by
      rw [← Nat.mod_eq_of_lt hs', hcongr, Nat.mod_eq_of_lt ht']
    omega

theorem folds_foldl {l : List Nat} (hl : ∀ a ∈ l, a < B) :
    ∀ {s n : Nat}, Folds B s n → Folds B (l.foldl (onesAdd B) s) (n + l.sum) := by
  induction l with
  | nil =>
    intro s n h
    exact h
  | cons a l ih =>
    intro s n h
    obtain ⟨ha, hrest⟩ := List.forall_mem_cons.mp hl
    rw [List.sum_cons, ← Nat.add_assoc]
    exact ih hrest (h.add (folds_self ha))

theorem folds_onesSum (hB : 1 < B) {l : List Nat} (hl : ∀ a ∈ l, a < B) : Folds B (onesSum B l) l.sum := by
  have h := folds_foldl hl (folds_zero hB)
  rw [Nat.zero_add] at h
  exact h

/-- Any way of adding up the numbers gives their sum from left to right. -/
theorem Folds.eq_onesSum (hB : 1 < B) {s : Nat} {l : List Nat} (hl : ∀ a ∈ l, a < B) (h : Folds B s l.sum) :
    s = onesSum B l := h.unique (folds_onesSum hB hl)

end FpgaNetworkStack.Lib
