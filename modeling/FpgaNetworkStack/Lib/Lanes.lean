import Mathlib.Data.List.Basic

/-!
# Two lanes with a common order

The items of one sequence go two ways, and each way is a FIFO.  Taken from the two lanes one at a time they come
out as the sequence they were, as long as nothing that belongs in front of the taken item is left in the other
lane.
-/

namespace FpgaNetworkStack.Lib

variable {α : Type*}

/-- `l` are the items of `w` on the left lane, and `r` the ones on the right lane. -/
structure Lanes (left : α → Bool) (w l r : List α) : Prop where
  left_eq : w.filter left = l
  right_eq : w.filter (fun x => !left x) = r

namespace Lanes

variable {left : α → Bool} {w w' l l' r r' : List α} {before : α → α → Prop} {x : α}

theorem nil : Lanes left [] [] [] := ⟨rfl, rfl⟩

theorem swap (h : Lanes left w l r) : Lanes (fun x => !left x) w r l :=
  ⟨h.right_eq, by simpa using h.left_eq⟩

theorem of_swap (h : Lanes (fun x => !left x) w r l) : Lanes left w l r :=
  ⟨by simpa using h.right_eq, h.left_eq⟩

theorem append (h : Lanes left w l r) (h' : Lanes left w' l' r') : Lanes left (w ++ w') (l ++ l') (r ++ r') :=
  ⟨by rw [List.filter_append, h.left_eq, h'.left_eq], by rw [List.filter_append, h.right_eq, h'.right_eq]⟩

theorem filter (p : α → Bool) (h : Lanes left w l r) : Lanes left (w.filter p) (l.filter p) (r.filter p) where
  left_eq := by rw [← h.left_eq, List.filter_filter, List.filter_filter]; simp only [Bool.and_comm]
  right_eq := by rw [← h.right_eq, List.filter_filter, List.filter_filter]; simp only [Bool.and_comm]

-- items that all go to one side
theorem all_left (h : ∀ y ∈ w, left y = true) : Lanes left w w [] :=
  ⟨List.filter_eq_self.mpr h, List.filter_eq_nil_iff.mpr fun y hy => by simp [h y hy]⟩

theorem all_right (h : ∀ y ∈ w, left y = false) : Lanes left w [] w :=
  of_swap (all_left fun y hy => by simp [h y hy])

theorem cons_left (hx : left x = true) (h : Lanes left (x :: w) l r) : ∃ l', l = x :: l' ∧ Lanes left w l' r := by
  refine ⟨w.filter left, ?_, rfl, ?_⟩
  · rw [← h.left_eq, List.filter_cons_of_pos hx]
  · rw [← h.right_eq, List.filter_cons_of_neg (by simp [hx])]

/-- The head of the left lane is the oldest item, when none of the right lane is before it. -/
theorem take_left (h : Lanes left w (x :: l) r) (hw : w.Pairwise before) (hfirst : ∀ y ∈ r, ¬ before y x) :
    ∃ w', w = x :: w' ∧ Lanes left w' l r := by
  cases w with
  | nil => cases h.left_eq
  | cons y w =>
    cases hy : left y with
    | true =>
      obtain ⟨l', hl, hw'⟩ := h.cons_left hy
      obtain ⟨rfl, rfl⟩ := List.cons.inj hl
      exact ⟨w, rfl, hw'⟩
    | false =>
      -- the oldest item waits on the right, so it is not before `x`
      obtain ⟨r', hr, hw'⟩ := h.swap.cons_left (by simp [hy])
      have hx : x ∈ w := by
        apply List.mem_of_mem_filter (p := left)
        rw [hw'.of_swap.left_eq]
        exact List.mem_cons_self
      have hmem : y ∈ r := by
        rw [hr]
        exact List.mem_cons_self
      exact absurd (List.rel_of_pairwise_cons hw hx) (hfirst y hmem)

theorem take_right (h : Lanes left w l (x :: r)) (hw : w.Pairwise before) (hfirst : ∀ y ∈ l, ¬ before y x) :
    ∃ w', w = x :: w' ∧ Lanes left w' l r := by
  obtain ⟨w', hx, hw'⟩ := h.swap.take_left hw hfirst
  exact ⟨w', hx, hw'.of_swap⟩

end Lanes

end FpgaNetworkStack.Lib
