import Mathlib.Algebra.CharP.Two
import Mathlib.Algebra.Polynomial.Div
import Mathlib.Algebra.Field.ZMod
import Mathlib.RingTheory.Coprime.Lemmas
import Mathlib.Tactic.LinearCombination

/-!
# Cyclic redundancy checks

A bit-reflected check of `n` bits goes through a message bit by bit.  Over the field of two elements its register is the
remainder of the message by the generator, so two messages get one check exactly when the generator divides what they
differ in.
-/

namespace FpgaNetworkStack.Lib

open Polynomial

variable {n : Nat} (g r : BitVec n)

/-- One bit of the message: the register moves down one place, and `g` is added when a 1 falls out. -/
def bitStep (b : Bool) : BitVec n := (r >>> 1) ^^^ if r.getLsbD 0 ^^ b then g else 0

/-- The register after a message, its first bit first. -/
def register (bits : List Bool) : BitVec n := bits.foldl (bitStep g) r

@[simp]
theorem register_nil : register g r [] = r := rfl

@[simp]
theorem register_cons (b : Bool) (bits : List Bool) : register g r (b :: bits) = register g (bitStep g r b) bits := rfl

theorem register_append (bits more : List Bool) : register g r (bits ++ more) = register g (register g r bits) more :=
  List.foldl_append

/-! ## Linearity -/

theorem bitStep_xor (s : BitVec n) (b c : Bool) : bitStep g (r ^^^ s) (b ^^ c) = bitStep g r b ^^^ bitStep g s c := by
  have hbit : ((r ^^^ s).getLsbD 0 ^^ (b ^^ c)) = ((r.getLsbD 0 ^^ b) ^^ (s.getLsbD 0 ^^ c)) := by
    rw [BitVec.getLsbD_xor]
    cases r.getLsbD 0 <;> cases s.getLsbD 0 <;> cases b <;> cases c <;> rfl
  rw [bitStep, bitStep, bitStep, hbit, BitVec.ushiftRight_xor_distrib]
  cases r.getLsbD 0 ^^ b <;> cases s.getLsbD 0 ^^ c
  · simp
  · simp [BitVec.xor_assoc]
  · simp only [Bool.xor_false, if_true, Bool.false_eq_true, if_false]
    ac_rfl
  · have hcancel : (r >>> 1 ^^^ g) ^^^ (s >>> 1 ^^^ g) = (r >>> 1 ^^^ s >>> 1) ^^^ (g ^^^ g) := by ac_rfl
    simp [hcancel]

/-- The check is linear: of two messages of one length, and of what they differ in. -/
theorem register_xor {bits bits' : List Bool} (hlen : bits.length = bits'.length) (s : BitVec n) :
    register g (r ^^^ s) (List.zipWith (· ^^ ·) bits bits') = register g r bits ^^^ register g s bits' := by
  induction bits generalizing bits' r s with
  | nil =>
    cases bits' with
    | nil => rfl
    | cons c bits' => cases hlen
  | cons b bits ih =>
    cases bits' with
    | nil => cases hlen
    | cons c bits' =>
      rw [List.zipWith_cons_cons, register_cons, register_cons, register_cons, bitStep_xor]
      exact ih _ (Nat.succ.inj hlen) _

/-- Messages of one length have one check exactly when what they differ in leaves nothing. -/
theorem register_eq_iff {bits bits' : List Bool} (hlen : bits.length = bits'.length) :
    register g r bits = register g r bits' ↔ register g 0 (List.zipWith (· ^^ ·) bits bits') = 0 := by
  have hlinear := register_xor g r hlen r
  rw [BitVec.xor_self] at hlinear
  change register g 0 _ = _ at hlinear
  rw [hlinear]
  exact BitVec.xor_eq_zero_iff.symm

/-! ## Remainders -/

/-- A bit as a coefficient. -/
def coefficient (b : Bool) : ZMod 2 := if b then 1 else 0

theorem coefficient_xor (b c : Bool) : coefficient (b ^^ c) = coefficient b + coefficient c := by
  cases b <;> cases c <;> decide

theorem coefficient_injective {b c : Bool} (h : coefficient b = coefficient c) : b = c := by
  cases b <;> cases c <;> first | rfl | exact absurd h (by decide)

/-- The register as a polynomial: the upper bit is the constant. -/
noncomputable def regPoly : (ZMod 2)[X] := ∑ j ∈ Finset.range n, C (coefficient (r.getMsbD j)) * X ^ j

theorem regPoly_coeff (j : Nat) : (regPoly r).coeff j = coefficient (r.getMsbD j) := by
  rw [regPoly, finsetSum_coeff]
  simp only [coeff_C_mul, coeff_X_pow, mul_ite, mul_one, mul_zero]
  rw [Finset.sum_ite_eq]
  by_cases hj : j < n
  · rw [if_pos (Finset.mem_range.mpr hj)]
  · rw [if_neg (by rwa [Finset.mem_range]), BitVec.getMsbD_of_ge r j (by omega)]
    rfl

theorem regPoly_xor (s : BitVec n) : regPoly (r ^^^ s) = regPoly r + regPoly s := by
  ext j
  rw [coeff_add, regPoly_coeff, regPoly_coeff, regPoly_coeff, BitVec.getMsbD_xor, coefficient_xor]

theorem regPoly_zero : regPoly (0 : BitVec n) = 0 := by
  ext j
  rw [regPoly_coeff, coeff_zero]
  simp [coefficient]

theorem regPoly_injective {s : BitVec n} (h : regPoly r = regPoly s) : r = s := by
  apply BitVec.eq_of_getMsbD_eq
  intro j hj
  apply coefficient_injective
  rw [← regPoly_coeff, h, regPoly_coeff]

theorem regPoly_degree : (regPoly r).degree < n := by
  rw [degree_lt_iff_coeff_zero]
  intro j hj
  rw [regPoly_coeff, BitVec.getMsbD_of_ge r j hj]
  rfl

/-- The register moved down one place, and the bit that falls out. -/
theorem regPoly_shift : X * regPoly r = regPoly (r >>> 1) + C (coefficient (r.getLsbD 0)) * X ^ n := by
  ext j
  rw [coeff_add, regPoly_coeff, coeff_C_mul, coeff_X_pow, BitVec.getMsbD_ushiftRight]
  cases j with
  | zero =>
    rw [coeff_X_mul_zero]
    cases n with
    | zero | succ => simp [coefficient]
  | succ j =>
    rw [coeff_X_mul, regPoly_coeff, Nat.add_sub_cancel]
    have hone : decide (j + 1 < 1) = false := decide_eq_false (by omega)
    rw [hone, Bool.not_false, Bool.true_and]
    by_cases hj : j + 1 < n
    · have hne : ¬j + 1 = n := by omega
      rw [decide_eq_true hj, Bool.true_and, if_neg hne, mul_zero, add_zero]
    · rw [decide_eq_false hj, Bool.false_and]
      by_cases heq : j + 1 = n
      · have hlsb : r.getMsbD j = r.getLsbD 0 := by
          rw [BitVec.getMsbD, decide_eq_true (by omega), Bool.true_and]
          congr 1
          omega
        rw [if_pos heq, mul_one, hlsb]
        simp [coefficient]
      · rw [if_neg heq, mul_zero, BitVec.getMsbD_of_ge r j (by omega)]
        simp [coefficient]

/-- The generator that `g` stands for. -/
noncomputable def generator : (ZMod 2)[X] := X ^ n + regPoly g

/-- A message as a polynomial: its first bit has the highest power. -/
noncomputable def bitsPoly : List Bool → (ZMod 2)[X]
  | [] => 0
  | b :: bits => C (coefficient b) * X ^ bits.length + bitsPoly bits

theorem bitStep_poly (b : Bool) :
    X * regPoly r + C (coefficient b) * X ^ n =
      regPoly (bitStep g r b) + C (coefficient (r.getLsbD 0 ^^ b)) * generator g := by
  have hstep : regPoly (bitStep g r b) = regPoly (r >>> 1) + C (coefficient (r.getLsbD 0 ^^ b)) * regPoly g := by
    rw [bitStep, regPoly_xor]
    cases r.getLsbD 0 ^^ b
    · have hzero : regPoly (0#n) = 0 := regPoly_zero
      simp [coefficient, hzero]
    · simp [coefficient]
  have htwice : C (coefficient (r.getLsbD 0 ^^ b)) * regPoly g + C (coefficient (r.getLsbD 0 ^^ b)) * regPoly g = 0 :=
    CharTwo.add_self_eq_zero _
  have hbit : C (coefficient (r.getLsbD 0 ^^ b)) = C (coefficient (r.getLsbD 0)) + C (coefficient b) := by
    rw [coefficient_xor, C_add]
  rw [hstep, generator, regPoly_shift]
  linear_combination -X ^ n * hbit - htwice

/-- The register is what the message leaves, with `n` zeros behind it and the first register in front of it. -/
theorem register_poly (bits : List Bool) :
    generator g ∣ regPoly r * X ^ bits.length + bitsPoly bits * X ^ n - regPoly (register g r bits) := by
  induction bits generalizing r with
  | nil => simp [bitsPoly]
  | cons b bits ih =>
    obtain ⟨q, hq⟩ := ih (bitStep g r b)
    refine ⟨C (coefficient (r.getLsbD 0 ^^ b)) * X ^ bits.length + q, ?_⟩
    rw [register_cons, bitsPoly, List.length_cons]
    linear_combination X ^ bits.length * bitStep_poly g r b + hq

theorem generator_degree : (generator g).degree = n := by
  rw [generator, degree_add_eq_left_of_degree_lt, degree_X_pow]
  rw [degree_X_pow]
  exact regPoly_degree g

/-- A generator that ends in a one has nothing in common with a power of `X`. -/
theorem generator_coprime (hg : g.getMsbD 0 = true) : IsCoprime (generator g) (X ^ n) := by
  have hn : 0 < n := by
    rcases Nat.eq_zero_or_pos n with rfl | hn
    · simp at hg
    · exact hn
  have hone : (generator g).coeff 0 = 1 := by
    rw [generator, coeff_add, regPoly_coeff, hg, coeff_X_pow, if_neg (by omega)]
    decide
  have hcoprime : IsCoprime (generator g) X := by
    obtain ⟨q, hq⟩ := X_dvd_sub_C (p := generator g)
    refine ⟨1, -q, ?_⟩
    rw [hone, C_1] at hq
    linear_combination hq
  exact hcoprime.pow_right

/-- The check is 0 exactly when the generator divides the message. -/
theorem register_eq_zero_iff (hg : g.getMsbD 0 = true) (bits : List Bool) :
    register g 0 bits = 0 ↔ generator g ∣ bitsPoly bits := by
  have hpoly := register_poly g 0 bits
  rw [regPoly_zero, zero_mul, zero_add] at hpoly
  constructor
  · intro h
    rw [h, regPoly_zero, sub_zero] at hpoly
    exact (generator_coprime g hg).dvd_of_dvd_mul_right hpoly
  · intro h
    have hreg : generator g ∣ regPoly (register g 0 bits) := by
      rw [← dvd_sub_right (h.mul_right (X ^ n))]
      exact hpoly
    have hzero : regPoly (register g 0 bits) = 0 := by
      by_contra hne
      have hle := degree_le_of_dvd hreg hne
      rw [generator_degree] at hle
      exact absurd (regPoly_degree (register g 0 bits)) (not_lt_of_ge hle)
    apply regPoly_injective
    rw [hzero, regPoly_zero]

end FpgaNetworkStack.Lib
