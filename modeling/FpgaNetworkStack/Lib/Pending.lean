import FpgaNetworkStack.Lib.Serial

/-!
# Updates of a pointer that are still on their way

A pointer register only moves forward, but the process that moves it queues its updates.  `Moves upd N
P qs` says that serving the queue `qs` takes the register from position `N` to position `P`, by updates
`upd q` that each go forward.
-/

namespace FpgaNetworkStack.Lib

variable {Q : Type*} {w : Nat} {upd : Q → Option (BitVec w)} {qs qs' : List Q} {q : Q} {N P : Nat}

def Moves (upd : Q → Option (BitVec w)) : Nat → Nat → List Q → Prop
  | N, P, [] => N = P
  | N, P, q :: qs =>
    match upd q with
    | some x => ∃ M, x = BitVec.ofNat w M ∧ N ≤ M ∧ Moves upd M P qs
    | none => Moves upd N P qs

namespace Moves

theorem cons_some {x : BitVec w} (hx : upd q = some x) :
    Moves upd N P (q :: qs) ↔ ∃ M, x = BitVec.ofNat w M ∧ N ≤ M ∧ Moves upd M P qs := by
  rw [Moves, hx]

theorem cons_none (hx : upd q = none) : Moves upd N P (q :: qs) ↔ Moves upd N P qs := by
  rw [Moves, hx]

theorem nil : Moves upd N N [] := rfl

theorem single {x : BitVec w} (hx : upd q = some x) (hP : x = BitVec.ofNat w P) (hle : N ≤ P) :
    Moves upd N P [q] :=
  (cons_some hx).mpr ⟨P, hP, hle, nil⟩

theorem le (h : Moves upd N P qs) : N ≤ P := by
  induction qs generalizing N with
  | nil => exact Nat.le_of_eq h
  | cons q qs ih =>
    cases hx : upd q with
    | none => exact ih ((cons_none hx).mp h)
    | some x =>
      obtain ⟨M, -, hle, h⟩ := (cons_some hx).mp h
      exact Nat.le_trans hle (ih h)

theorem append {R : Nat} (h : Moves upd N P qs) (h' : Moves upd P R qs') :
    Moves upd N R (qs ++ qs') := by
  induction qs generalizing N with
  | nil =>
    cases h
    exact h'
  | cons q qs ih =>
    rw [List.cons_append]
    cases hx : upd q with
    | none => exact (cons_none hx).mpr (ih ((cons_none hx).mp h))
    | some x =>
      obtain ⟨M, hM, hle, h⟩ := (cons_some hx).mp h
      exact (cons_some hx).mpr ⟨M, hM, hle, ih h⟩

/-- A queue without updates. -/
theorem skip (h : ∀ q ∈ qs, upd q = none) : Moves upd N N qs := by
  induction qs with
  | nil => rfl
  | cons q qs ih =>
    exact (cons_none (h q List.mem_cons_self)).mpr (ih fun q hq => h q (List.mem_cons_of_mem _ hq))

/-- Any number of updates to one position; there may be none. -/
theorem const {x : Nat} (hx : N ≤ x) (h : ∀ q ∈ qs, ∀ y, upd q = some y → y = BitVec.ofNat w x) :
    ∃ P, P ≤ x ∧ Moves upd N P qs := by
  induction qs generalizing N with
  | nil => exact ⟨N, hx, nil⟩
  | cons q qs ih =>
    have hqs := fun q hq => h q (List.mem_cons_of_mem _ hq)
    cases hq : upd q with
    | none =>
      obtain ⟨P, hP, hm⟩ := ih hx hqs
      exact ⟨P, hP, (cons_none hq).mpr hm⟩
    | some y =>
      obtain ⟨P, hP, hm⟩ := ih (Nat.le_refl x) hqs
      exact ⟨P, hP, (cons_some hq).mpr ⟨x, h q List.mem_cons_self y hq, hx, hm⟩⟩

/-- The last update decides where the register ends. -/
theorem settled (h : Moves upd N P qs) :
    (qs.filterMap upd).foldl (fun _ x => x) (BitVec.ofNat w N) = BitVec.ofNat w P := by
  induction qs generalizing N with
  | nil =>
    cases h
    rfl
  | cons q qs ih =>
    cases hx : upd q with
    | none =>
      rw [List.filterMap_cons_none hx]
      exact ih ((cons_none hx).mp h)
    | some x =>
      obtain ⟨M, rfl, -, h⟩ := (cons_some hx).mp h
      rw [List.filterMap_cons_some hx]
      exact ih h

/-- Every update on its way lies between an earlier position and the last one. -/
theorem within {A : Nat} (h : Moves upd N P qs) (hA : A ≤ N) (hlt : P < A + 2 ^ w) {x : BitVec w}
    (hq : q ∈ qs) (hx : upd q = some x) :
    (x - BitVec.ofNat w A).toNat ≤ (BitVec.ofNat w P - BitVec.ofNat w A).toNat := by
  induction qs generalizing N with
  | nil => cases hq
  | cons q' qs ih =>
    cases hx' : upd q' with
    | none =>
      rcases List.mem_cons.mp hq with rfl | hq
      · rw [hx] at hx'
        cases hx'
      · exact ih ((cons_none hx').mp h) hA hq
    | some y =>
      obtain ⟨M, rfl, hle, hrest⟩ := (cons_some hx').mp h
      rcases List.mem_cons.mp hq with rfl | hq
      · rw [hx] at hx'
        cases hx'
        have := hrest.le
        rw [ofNat_sub_toNat (by omega) (by omega), ofNat_sub_toNat (by omega) hlt]
        omega
      · exact ih hrest (by omega) hq

end Moves

end FpgaNetworkStack.Lib
