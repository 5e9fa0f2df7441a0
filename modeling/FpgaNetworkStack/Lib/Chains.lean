import Mathlib.Data.List.Basic
import Mathlib.Logic.Function.Basic

/-!
# Linked lists in a shared table

Cells of a table are linked by `next`, and the last cell of a list is marked.  Several lists and a list of
free cells share the table.  `Chain` relates a head and a tail cell to the cells of a list, `follow` walks
along the links, and `Partition` says that every cell has exactly one place.
-/

namespace FpgaNetworkStack.Lib

variable {ι κ : Type*} {next next' : ι → ι} {last last' : ι → Bool} {h t x y : ι} {l : List ι}

/-- The cells `l` are linked from `h` to `t`, and `t` is the marked one. -/
def Chain (next : ι → ι) (last : ι → Bool) : ι → ι → List ι → Prop
  | _, _, [] => False
  | h, t, [x] => h = x ∧ t = x ∧ last x = true
  | h, t, x :: y :: l => h = x ∧ last x = false ∧ Chain next last (next x) t (y :: l)

/-- Walk along the links for at most `n` cells. -/
def follow (next : ι → ι) (last : ι → Bool) : Nat → ι → List ι
  | 0, _ => []
  | n + 1, h => if last h then [h] else h :: follow next last n (next h)

namespace Chain

theorem ne_nil (hc : Chain next last h t l) : l ≠ [] := by
  cases l with
  | nil => exact hc.elim
  | cons x l => exact List.cons_ne_nil x l

theorem tail_mem (hc : Chain next last h t l) : t ∈ l := by
  induction l generalizing h with
  | nil => exact hc.elim
  | cons x l ih =>
    cases l with
    | nil => exact hc.2.1 ▸ List.mem_singleton.mpr rfl
    | cons y l => exact List.mem_cons_of_mem _ (ih hc.2.2)

/-- A chain depends on its own cells only. -/
theorem congr (hc : Chain next last h t l) (hn : ∀ x ∈ l, next' x = next x)
    (hl : ∀ x ∈ l, last' x = last x) : Chain next' last' h t l := by
  induction l generalizing h with
  | nil => exact hc
  | cons x l ih =>
    have hx := List.mem_cons_self (a := x) (l := l)
    cases l with
    | nil => exact ⟨hc.1, hc.2.1, by rw [hl x hx]; exact hc.2.2⟩
    | cons y l =>
      refine ⟨hc.1, by rw [hl x hx]; exact hc.2.1, ?_⟩
      rw [hn x hx]
      exact ih hc.2.2 (fun z hz => hn z (List.mem_cons_of_mem _ hz))
        fun z hz => hl z (List.mem_cons_of_mem _ hz)

/-- The head is marked exactly when it is the only cell. -/
theorem last_head (hc : Chain next last h t (x :: l)) : h = x ∧ last h = l.isEmpty := by
  cases l with
  | nil => exact ⟨hc.1, by rw [hc.1]; exact hc.2.2⟩
  | cons y l => exact ⟨hc.1, by rw [hc.1]; exact hc.2.1⟩

/-- The list behind its head. -/
theorem pop (hc : Chain next last h t (x :: y :: l)) : Chain next last (next h) t (y :: l) := by
  rw [hc.1]
  exact hc.2.2

/-- A new cell is linked to the tail. -/
theorem append [DecidableEq ι] (hc : Chain next last h t l) (hnd : l.Nodup) (hx : x ∉ l)
    (hn : ∀ y ∈ l, next' y = if y = t then x else next y)
    (hl : ∀ y ∈ l, last' y = if y = t then false else last y) (hlast : last' x = true) :
    Chain next' last' h x (l ++ [x]) := by
  induction l generalizing h with
  | nil => exact hc.elim
  | cons z l ih =>
    have hz := List.mem_cons_self (a := z) (l := l)
    cases l with
    | nil =>
      obtain ⟨rfl, ht, -⟩ := hc
      refine ⟨rfl, ?_, ?_⟩
      · rw [hl h hz, if_pos ht.symm]
      · exact ⟨by rw [hn h hz, if_pos ht.symm], rfl, hlast⟩
    | cons y l =>
      obtain ⟨rfl, hzl, hc⟩ := hc
      have hzt : h ≠ t := by
        rintro rfl
        exact (List.nodup_cons.mp hnd).1 hc.tail_mem
      refine ⟨rfl, by rw [hl h hz, if_neg hzt]; exact hzl, ?_⟩
      rw [hn h hz, if_neg hzt]
      exact ih hc (List.nodup_cons.mp hnd).2 (fun hm => hx (List.mem_cons_of_mem _ hm))
        (fun w hw => hn w (List.mem_cons_of_mem _ hw)) fun w hw => hl w (List.mem_cons_of_mem _ hw)

/-- Walking along a chain finds its cells. -/
theorem follow_eq {n : Nat} (hc : Chain next last h t l) (hn : l.length ≤ n) : follow next last n h = l := by
  induction l generalizing h n with
  | nil => exact hc.elim
  | cons x l ih =>
    cases n with
    | zero => simp at hn
    | succ n =>
      obtain ⟨rfl, hmark⟩ := hc.last_head
      rw [follow, hmark]
      cases l with
      | nil => rfl
      | cons y l =>
        simp only [List.isEmpty_cons, Bool.false_eq_true, if_false]
        rw [ih hc.pop (by simpa using hn)]

end Chain

/-- Every cell of `cells` is in `free` or in exactly one of the lists, and there once. -/
structure Partition (cells free : List ι) (lists : κ → List ι) : Prop where
  free_nodup : free.Nodup
  nodup : ∀ q, (lists q).Nodup
  apart : ∀ q q', q ≠ q' → (lists q).Disjoint (lists q')
  apart_free : ∀ q, (lists q).Disjoint free
  cover : ∀ x, x ∈ cells ↔ x ∈ free ∨ ∃ q, x ∈ lists q

namespace Partition

variable {cells free free' : List ι} {lists lists' : κ → List ι} {q : κ}

/-- Only the order of the free cells changes. -/
theorem perm (hp : Partition cells free lists) (hf : free.Perm free') : Partition cells free' lists := by
  refine ⟨hf.nodup_iff.mp hp.free_nodup, hp.nodup, hp.apart, ?_, ?_⟩
  · exact fun q x hx hx' => hp.apart_free q hx (hf.mem_iff.mpr hx')
  · intro x
    rw [hp.cover, hf.mem_iff]

variable [DecidableEq κ]

/-- A free cell is moved to the end of a list. -/
theorem insert (hp : Partition cells (x :: free) lists) (q : κ) :
    Partition cells free (Function.update lists q (lists q ++ [x])) := by
  have hx : x ∉ free := (List.nodup_cons.mp hp.free_nodup).1
  have hxl (q' : κ) : x ∉ lists q' := fun hm => hp.apart_free q' hm List.mem_cons_self
  have hmem (q' : κ) (y : ι) : y ∈ Function.update lists q (lists q ++ [x]) q' ↔
      y ∈ lists q' ∨ q' = q ∧ y = x := by
    by_cases hq : q' = q
    · subst hq
      simp
    · simp [hq]
  refine ⟨(List.nodup_cons.mp hp.free_nodup).2, ?_, ?_, ?_, ?_⟩
  · intro q'
    by_cases hq : q' = q
    · subst hq
      rw [Function.update_self, List.nodup_append]
      refine ⟨hp.nodup q', by simp, ?_⟩
      intro a ha b hb hab
      rw [List.mem_singleton.mp hb] at hab
      exact hxl q' (hab ▸ ha)
    · rw [Function.update_of_ne hq]
      exact hp.nodup q'
  · intro q₁ q₂ hne y hy₁ hy₂
    rw [hmem] at hy₁ hy₂
    rcases hy₁ with hy₁ | ⟨rfl, rfl⟩
    · rcases hy₂ with hy₂ | ⟨rfl, rfl⟩
      · exact hp.apart q₁ q₂ hne hy₁ hy₂
      · exact hxl q₁ hy₁
    · rcases hy₂ with hy₂ | ⟨rfl, -⟩
      · exact hxl q₂ hy₂
      · exact hne rfl
  · intro q' y hy hf
    rw [hmem] at hy
    rcases hy with hy | ⟨-, rfl⟩
    · exact hp.apart_free q' hy (List.mem_cons_of_mem _ hf)
    · exact hx hf
  · intro y
    rw [hp.cover]
    simp only [hmem, List.mem_cons]
    constructor
    · rintro ((rfl | hf) | ⟨q', hy⟩)
      · exact .inr ⟨q, .inr ⟨rfl, rfl⟩⟩
      · exact .inl hf
      · exact .inr ⟨q', .inl hy⟩
    · rintro (hf | ⟨q', hy | ⟨-, rfl⟩⟩)
      · exact .inl (.inr hf)
      · exact .inr ⟨q', hy⟩
      · exact .inl (.inl rfl)

/-- The head of a list becomes free. -/
theorem remove (hp : Partition cells free lists) {q : κ} (hl : lists q = x :: l) :
    Partition cells (x :: free) (Function.update lists q l) := by
  have hnd := hp.nodup q
  rw [hl, List.nodup_cons] at hnd
  have hxq : x ∈ lists q := by
    rw [hl]
    exact List.mem_cons_self
  have hsub (q' : κ) (y : ι) (hy : y ∈ Function.update lists q l q') : y ∈ lists q' ∧ y ≠ x := by
    by_cases hq : q' = q
    · subst hq
      rw [Function.update_self] at hy
      refine ⟨by rw [hl]; exact List.mem_cons_of_mem _ hy, ?_⟩
      rintro rfl
      exact hnd.1 hy
    · rw [Function.update_of_ne hq] at hy
      refine ⟨hy, ?_⟩
      rintro rfl
      exact hp.apart q' q hq hy hxq
  refine ⟨?_, ?_, ?_, ?_, ?_⟩
  · rw [List.nodup_cons]
    exact ⟨fun hf => hp.apart_free q hxq hf, hp.free_nodup⟩
  · intro q'
    by_cases hq : q' = q
    · subst hq
      rw [Function.update_self]
      exact hnd.2
    · rw [Function.update_of_ne hq]
      exact hp.nodup q'
  · exact fun q₁ q₂ hne y hy₁ hy₂ => hp.apart q₁ q₂ hne (hsub q₁ y hy₁).1 (hsub q₂ y hy₂).1
  · intro q' y hy hf
    obtain ⟨hy, hne⟩ := hsub q' y hy
    rcases List.mem_cons.mp hf with rfl | hf
    · exact hne rfl
    · exact hp.apart_free q' hy hf
  · intro y
    rw [hp.cover]
    constructor
    · rintro (hf | ⟨q', hy⟩)
      · exact .inl (List.mem_cons_of_mem _ hf)
      · by_cases hyx : y = x
        · exact .inl (hyx ▸ List.mem_cons_self)
        · refine .inr ⟨q', ?_⟩
          by_cases hq : q' = q
          · subst hq
            rw [hl] at hy
            rw [Function.update_self]
            exact (List.mem_cons.mp hy).resolve_left hyx
          · rw [Function.update_of_ne hq]
            exact hy
    · rintro (hf | ⟨q', hy⟩)
      · rcases List.mem_cons.mp hf with rfl | hf
        · exact .inr ⟨q, hxq⟩
        · exact .inl hf
      · exact .inr ⟨q', (hsub q' y hy).1⟩

end Partition

end FpgaNetworkStack.Lib
