import Mathlib.Algebra.BigOperators.Group.List.Basic
import Mathlib.Algebra.Ring.Nat
import Mathlib.Data.List.Induction

/-!
# Jobs with several acknowledgements

Every job waits for a number of acknowledgements, and these arrive in the order of the jobs.  A job is
settled when all of its acknowledgements are there.
-/

namespace FpgaNetworkStack.Lib

variable {β : Type*} (keep : β → List Bool → Bool)

/-- The settled jobs that `keep` keeps, in order. -/
def settled : List (β × Nat) → List Bool → List β
  | [], _ => []
  | (j, k) :: jobs, acks =>
    if acks.length < k then []
    else (if keep j (acks.take k) then [j] else []) ++ settled jobs (acks.drop k)

variable {keep}

-- A job for which an acknowledgement is missing holds back all that follow.
theorem settled_waiting {j : β} {k : Nat} {jobs : List (β × Nat)} {acks : List Bool}
    (h : acks.length < k) : settled keep ((j, k) :: jobs) acks = [] := if_pos h

theorem settled_nil {jobs : List (β × Nat)} (h : ∀ x ∈ jobs, 0 < x.2) : settled keep jobs [] = [] := by
  cases jobs with
  | nil => rfl
  | cons x jobs => exact settled_waiting (h x List.mem_cons_self)

/-- Jobs that have used up their acknowledgements, and the rest. -/
theorem settled_append {done rest : List (β × Nat)} {used more : List Bool}
    (h : used.length = (done.map (·.2)).sum) :
    settled keep (done ++ rest) (used ++ more) = settled keep done used ++ settled keep rest more := by
  induction done generalizing used with
  | nil =>
    rw [List.length_eq_zero_iff.mp h]
    rfl
  | cons x done ih =>
    obtain ⟨j, k⟩ := x
    simp only [List.map_cons, List.sum_cons] at h
    have hk : ¬ used.length < k := by omega
    have hk' : ¬ (used ++ more).length < k := by
      rw [List.length_append]
      omega
    have hdrop : (used.drop k).length = (done.map (·.2)).sum := by
      rw [List.length_drop]
      omega
    simp only [List.cons_append, settled, if_neg hk, if_neg hk']
    rw [List.take_append_of_le_length (by omega), List.drop_append_of_le_length (by omega), ih hdrop,
      List.append_assoc]

/-- One more job is settled. -/
theorem settled_snoc {done : List (β × Nat)} {used acks : List Bool} (j : β)
    (h : used.length = (done.map (·.2)).sum) :
    settled keep (done ++ [(j, acks.length)]) (used ++ acks) =
      settled keep done used ++ if keep j acks then [j] else [] := by
  rw [settled_append h, settled, if_neg (Nat.lt_irrefl _), List.take_of_length_le (Nat.le_refl _),
    settled, List.append_nil]

/-! ## Owners -/

/-- The job that each acknowledgement belongs to, for jobs that wait for the given numbers of them. -/
def owners (sizes : List Nat) : List Nat := sizes.zipIdx.flatMap fun x => List.replicate x.1 x.2

theorem owners_snoc (sizes : List Nat) (k : Nat) :
    owners (sizes ++ [k]) = owners sizes ++ List.replicate k sizes.length := by
  rw [owners, List.zipIdx_append, List.flatMap_append]
  simp [owners]

theorem owners_start {sizes sizes' : List Nat} (h : sizes <+: sizes') : owners sizes <+: owners sizes' := by
  obtain ⟨rest, rfl⟩ := h
  rw [owners, owners, List.zipIdx_append, List.flatMap_append]
  exact List.prefix_append _ _

/-- As many acknowledgements belong to a job as it waits for. -/
theorem count_owners {sizes : List Nat} {i k : Nat} (h : sizes[i]? = some k) : (owners sizes).count i = k := by
  induction sizes using List.reverseRecOn with
  | nil => cases h
  | append_singleton sizes n ih =>
    rw [owners_snoc, List.count_append, List.count_replicate]
    by_cases hi : i < sizes.length
    · rw [List.getElem?_append_left hi] at h
      have hne : (sizes.length == i) = false := beq_false_of_ne (by omega)
      rw [ih h, hne]
      rfl
    · -- the last job: none before it is number `i`
      have hlast : i = sizes.length := by
        have hlt := (List.getElem?_eq_some_iff.mp h).1
        rw [List.length_append, List.length_singleton] at hlt
        omega
      subst hlast
      rw [List.getElem?_concat_length] at h
      have hzero : (owners sizes).count sizes.length = 0 := by
        rw [List.count_eq_zero]
        intro hm
        obtain ⟨x, hx, hm⟩ := List.mem_flatMap.mp hm
        have hlt := List.snd_lt_of_mem_zipIdx hx
        rw [List.eq_of_mem_replicate hm] at hlt
        omega
      rw [hzero, beq_self_eq_true, if_pos rfl, Nat.zero_add]
      exact Option.some.inj h

end FpgaNetworkStack.Lib
