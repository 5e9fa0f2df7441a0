import FpgaNetworkStack.Lib.Chains
import Mathlib.Data.List.Nodup

/-!
# Lists of several owners in one table

Every owner has a head and a tail, and the cells of all lists, as well as the free ones, share a table.  `SharedLists` relates
the table to the lists it holds.  Values are appended in a free cell and removed at the head.
-/

namespace FpgaNetworkStack.Lib

/-- Head and tail of a list; without `valid` the list is empty. -/
structure ListEnds (ι : Type*) where
  head : ι
  tail : ι
  valid : Bool
  deriving DecidableEq, Inhabited

/-- What the lists use of a cell. -/
structure CellView (κ ι E V : Type*) where
  next : E → ι
  isTail : E → Bool
  valid : E → Bool
  value : κ → E → V
  /-- The cell with another one behind it. -/
  link : E → ι → E
  next_link : ∀ e i, next (link e i) = i
  isTail_link : ∀ e i, isTail (link e i) = false
  valid_link : ∀ e i, valid (link e i) = valid e
  value_link : ∀ k e i, value k (link e i) = value k e

variable {κ ι E V : Type*}

/-- The cells `l` are the list between the ends. -/
def ListEnds.Spans (p : ListEnds ι) (next : ι → ι) (last : ι → Bool) (l : List ι) : Prop :=
  if p.valid then Chain next last p.head p.tail l else l = []

/-- The ends after `x` was appended. -/
def ListEnds.append (p : ListEnds ι) (x : ι) : ListEnds ι := if p.valid then { p with tail := x } else ⟨x, x, true⟩

namespace CellView

variable (c : CellView κ ι E V)

/-- The table after `x` was linked to the tail of a list. -/
def linked [DecidableEq ι] (table : ι → E) (p : ListEnds ι) (x : ι) : ι → E :=
  if p.valid then Function.update table p.tail (c.link (table p.tail) x) else table

/-- The cells of a list, found by walking along the links. -/
def walk (table : ι → E) (p : ListEnds ι) (n : Nat) : List ι :=
  if p.valid then follow (fun i => c.next (table i)) (fun i => c.isTail (table i)) n p.head else []

theorem linked_same [DecidableEq ι] (table : ι → E) (p : ListEnds ι) (x i : ι) (k : κ) :
    c.valid (c.linked table p x i) = c.valid (table i) ∧ c.value k (c.linked table p x i) = c.value k (table i) := by
  unfold linked
  split
  · by_cases hi : i = p.tail
    · subst hi
      rw [Function.update_self]
      exact ⟨c.valid_link _ _, c.value_link _ _ _⟩
    · rw [Function.update_of_ne hi]
      exact ⟨rfl, rfl⟩
  · exact ⟨rfl, rfl⟩

end CellView

/-- The table holds `lists`, in the cells `cells`; the other ones among `slots` are free. -/
structure SharedLists (c : CellView κ ι E V) (ends : κ → ListEnds ι) (table : ι → E) (slots free : List ι)
    (lists : κ → List V) (cells : κ → List ι) : Prop where
  spans : ∀ k, (ends k).Spans (fun i => c.next (table i)) (fun i => c.isTail (table i)) (cells k)
  valid : ∀ k, ∀ i ∈ cells k, c.valid (table i) = true
  values : ∀ k, (cells k).map (fun i => c.value k (table i)) = lists k
  partition : Partition slots free cells

namespace SharedLists

variable {c : CellView κ ι E V} {ends : κ → ListEnds ι} {table table' : ι → E} {slots free : List ι}
  {lists : κ → List V} {cells : κ → List ι} {x : ι} {k : κ}

theorem empty (hends : ∀ k, (ends k).valid = false) (hslots : slots.Nodup) :
    SharedLists c ends table slots slots (fun _ => []) fun _ => [] := by
  refine ⟨fun k => ?_, fun _ _ hi => (List.not_mem_nil hi).elim, fun _ => rfl, hslots, fun _ => List.nodup_nil,
    fun _ _ _ _ hi => (List.not_mem_nil hi).elim, fun _ _ hi => (List.not_mem_nil hi).elim, fun y => ?_⟩
  · rw [ListEnds.Spans, hends k]
    rfl
  · simp

/-- The free cells may be in any order. -/
theorem perm {free' : List ι} (h : SharedLists c ends table slots free lists cells) (hf : free.Perm free') :
    SharedLists c ends table slots free' lists cells := ⟨h.spans, h.valid, h.values, h.partition.perm hf⟩

/-- A list depends on its own cells only. -/
theorem spans_congr {p : ListEnds ι} {l : List ι} (h : p.Spans (fun i => c.next (table i)) (fun i => c.isTail (table i)) l)
    (heq : ∀ i ∈ l, table' i = table i) : p.Spans (fun i => c.next (table' i)) (fun i => c.isTail (table' i)) l := by
  unfold ListEnds.Spans at h ⊢
  split
  · next hv =>
      rw [if_pos hv] at h
      exact h.congr (fun i hi => by rw [heq i hi]) fun i hi => by rw [heq i hi]
  · next hv =>
      rw [if_neg hv] at h
      exact h

section

variable [DecidableEq κ]

/-- Changes outside the cells of the other lists; owner `k` gets the cells `l`. -/
theorem change {p : ListEnds ι} {free' l : List ι} {vs : List V} (h : SharedLists c ends table slots free lists cells)
    (hother : ∀ k', k' ≠ k → ∀ i ∈ cells k', table' i = table i)
    (hspans : p.Spans (fun i => c.next (table' i)) (fun i => c.isTail (table' i)) l)
    (hvalid : ∀ i ∈ l, c.valid (table' i) = true) (hvs : l.map (fun i => c.value k (table' i)) = vs)
    (hpart : Partition slots free' (Function.update cells k l)) :
    SharedLists c (Function.update ends k p) table' slots free' (Function.update lists k vs) (Function.update cells k l) := by
  refine ⟨fun k' => ?_, fun k' i hi => ?_, fun k' => ?_, hpart⟩
  · by_cases hk : k' = k
    · subst hk
      rw [Function.update_self, Function.update_self]
      exact hspans
    · rw [Function.update_of_ne hk, Function.update_of_ne hk]
      exact spans_congr (h.spans k') (hother k' hk)
  · by_cases hk : k' = k
    · subst hk
      rw [Function.update_self] at hi
      exact hvalid i hi
    · rw [Function.update_of_ne hk] at hi
      rw [hother k' hk i hi]
      exact h.valid k' i hi
  · by_cases hk : k' = k
    · subst hk
      rw [Function.update_self, Function.update_self]
      exact hvs
    · rw [Function.update_of_ne hk, Function.update_of_ne hk, ← h.values k']
      exact List.map_congr_left fun i hi => by rw [hother k' hk i hi]

/-- A value is appended in the free cell `x`. -/
theorem insert [DecidableEq ι] (h : SharedLists c ends table slots (x :: free) lists cells) (k : κ) {e : E} (htail : c.isTail e = true)
    (hvalid : c.valid e = true) :
    SharedLists c (Function.update ends k ((ends k).append x)) (Function.update (c.linked table (ends k) x) x e) slots free
      (Function.update lists k (lists k ++ [c.value k e])) (Function.update cells k (cells k ++ [x])) := by
  have hx (k' : κ) : x ∉ cells k' := fun hm => h.partition.apart_free k' hm List.mem_cons_self
  have hne (k' : κ) : ∀ i ∈ cells k', i ≠ x := by
    rintro i hi rfl
    exact hx k' hi
  have hspans := h.spans k
  have hnew : c.isTail (Function.update (c.linked table (ends k) x) x e x) = true := by
    rw [Function.update_self]
    exact htail
  -- the new cell and the old tail are the only ones that change
  have hother : ∀ k', k' ≠ k → ∀ i ∈ cells k', Function.update (c.linked table (ends k) x) x e i = table i := by
    intro k' hk i hi
    rw [Function.update_of_ne (hne k' i hi)]
    unfold CellView.linked
    split
    · next hv =>
        rw [ListEnds.Spans, if_pos hv] at hspans
        rw [Function.update_of_ne]
        rintro rfl
        exact h.partition.apart k' k hk hi hspans.tail_mem
    · rfl
  have hown : ∀ i ∈ cells k, Function.update (c.linked table (ends k) x) x e i = c.linked table (ends k) x i :=
    fun i hi => Function.update_of_ne (hne k i hi) _ _
  have hsame := c.linked_same table (ends k) x
  refine h.change hother ?_ (fun i hi => ?_) ?_ (h.partition.insert k)
  · unfold ListEnds.append
    cases hv : (ends k).valid with
    | false =>
      rw [ListEnds.Spans, hv] at hspans
      rw [hspans]
      exact ⟨rfl, rfl, hnew⟩
    | true =>
      rw [ListEnds.Spans, if_pos hv] at hspans
      simp only [ListEnds.Spans, if_true]
      have hcell : ∀ i ∈ cells k, Function.update (c.linked table (ends k) x) x e i =
          if i = (ends k).tail then c.link (table i) x else table i := by
        intro i hi
        rw [hown i hi, CellView.linked, if_pos hv, Function.update_apply]
        split
        · next hi' => rw [hi']
        · rfl
      refine hspans.append (h.partition.nodup k) (hx k) (fun i hi => ?_) (fun i hi => ?_) hnew
      · rw [hcell i hi]
        split
        · exact c.next_link _ _
        · rfl
      · rw [hcell i hi]
        split
        · exact c.isTail_link _ _
        · rfl
  · rcases List.mem_append.mp hi with hi | hi
    · rw [hown i hi, (hsame i k).1]
      exact h.valid k i hi
    · rw [List.mem_singleton.mp hi, Function.update_self]
      exact hvalid
  · rw [List.map_append, List.map_singleton, Function.update_self, ← h.values k]
    congr 1
    exact List.map_congr_left fun i hi => by rw [hown i hi, (hsame i k).2]

end

/-- The head of a list and its cell. -/
theorem head (h : SharedLists c ends table slots free lists cells) (hv : (ends k).valid = true) :
    ∃ l, cells k = (ends k).head :: l ∧ c.valid (table (ends k).head) = true ∧
      c.isTail (table (ends k).head) = l.isEmpty ∧ (lists k).head? = some (c.value k (table (ends k).head)) := by
  have hspans := h.spans k
  rw [ListEnds.Spans, if_pos hv] at hspans
  obtain ⟨y, l, hc⟩ := List.exists_cons_of_ne_nil hspans.ne_nil
  rw [hc] at hspans
  obtain ⟨hy, hlast⟩ := hspans.last_head
  refine ⟨l, by rw [hc, hy], ?_, hlast, ?_⟩
  · rw [hy]
    exact h.valid k y (by rw [hc]; exact List.mem_cons_self)
  · rw [← h.values k, hc, hy]
    rfl

theorem nil (h : SharedLists c ends table slots free lists cells) (hv : (ends k).valid = false) : lists k = [] := by
  have hspans := h.spans k
  rw [ListEnds.Spans, hv] at hspans
  rw [← h.values k, show cells k = [] from hspans]
  rfl

/-- The head of a list is removed. -/
theorem pop [DecidableEq κ] (h : SharedLists c ends table slots free lists cells) (hv : (ends k).valid = true) :
    SharedLists c (Function.update ends k { ends k with
        head := c.next (table (ends k).head), valid := !c.isTail (table (ends k).head) })
      table slots ((ends k).head :: free) (Function.update lists k (lists k).tail)
      (Function.update cells k (cells k).tail) := by
  obtain ⟨l, hl, -, htail, -⟩ := h.head hv
  have hspans := h.spans k
  rw [ListEnds.Spans, if_pos hv, hl] at hspans
  have hvalues := h.values k
  rw [hl, List.map_cons] at hvalues
  rw [← hvalues, hl]
  refine h.change (fun _ _ _ _ => rfl) ?_ (fun i hi => ?_) rfl (h.partition.remove hl)
  · rw [ListEnds.Spans, htail]
    cases l with
    | nil => rfl
    | cons y l => exact hspans.pop
  · exact h.valid k i (by rw [hl]; exact List.mem_cons_of_mem _ hi)

/-- A list has at most as many cells as there are. -/
theorem length_le (h : SharedLists c ends table slots free lists cells) (k : κ) : (cells k).length ≤ slots.length := by
  have hsub : cells k ⊆ slots := fun i hi => (h.partition.cover i).mpr (.inr ⟨k, hi⟩)
  exact (h.partition.nodup k).length_le_of_subset hsub

/-- The cells are found by walking along the links. -/
theorem walk_eq (h : SharedLists c ends table slots free lists cells) (k : κ) :
    c.walk table (ends k) slots.length = cells k := by
  have hspans := h.spans k
  unfold ListEnds.Spans at hspans
  unfold CellView.walk
  split
  · next hv =>
      rw [if_pos hv] at hspans
      exact hspans.follow_eq (h.length_le k)
  · next hv =>
      rw [if_neg hv] at hspans
      exact hspans.symm

end SharedLists

end FpgaNetworkStack.Lib
