import Mathlib.Data.List.Basic
import Mathlib.Tactic.TypeStar

/-!
# Processes called in rounds

The processes of a system are called in any order.  If a busy process stays busy until it is called, and its call
makes the work less, then as many rounds as there is work are enough, whatever the order in each round.
-/

namespace FpgaNetworkStack.Lib

variable {σ α π : Type*} {call : σ → α → σ} {process : α → π} {inv : σ → Prop} {busy : π → σ → Prop}
  {work : σ → Nat} {s : σ} {as : List α}

/-- What the calls do to the work, in the states of an invariant. -/
structure Works (call : σ → α → σ) (process : α → π) (inv : σ → Prop) (busy : π → σ → Prop) (work : σ → Nat) :
    Prop where
  keeps : ∀ {s} a, inv s → inv (call s a)
  le : ∀ s a, work (call s a) ≤ work s
  less : ∀ {s} a, inv s → busy (process a) s → work (call s a) < work s
  stays : ∀ {s} a {p}, inv s → busy p s → p ≠ process a → busy p (call s a)
  some_busy : ∀ {s}, inv s → 0 < work s → ∃ p, busy p s

/-- Every process is called. -/
def Round (process : α → π) (as : List α) : Prop := ∀ p, p ∈ as.map process

namespace Works

theorem keeps_calls (h : Works call process inv busy work) (hs : inv s) : inv (as.foldl call s) := by
  induction as generalizing s with
  | nil => exact hs
  | cons a as ih => exact ih (h.keeps a hs)

theorem le_calls (h : Works call process inv busy work) : work (as.foldl call s) ≤ work s := by
  induction as generalizing s with
  | nil => exact Nat.le_refl _
  | cons a as ih => exact Nat.le_trans ih (h.le s a)

/-- Calls among which there is one of a busy process. -/
theorem less_calls (h : Works call process inv busy work) {p : π} (hs : inv s) (hp : busy p s)
    (hmem : p ∈ as.map process) : work (as.foldl call s) < work s := by
  induction as generalizing s with
  | nil => cases hmem
  | cons a as ih =>
    by_cases hpa : p = process a
    · subst hpa
      have hrest : work (as.foldl call (call s a)) ≤ work (call s a) := h.le_calls
      exact Nat.lt_of_le_of_lt hrest (h.less a hs hp)
    · have hrest : p ∈ as.map process := (List.mem_cons.mp hmem).resolve_left hpa
      exact Nat.lt_of_lt_of_le (ih (h.keeps a hs) (h.stays a hs hp hpa) hrest) (h.le s a)

/-- After as many rounds as there is work nothing is left to do. -/
theorem rounds (h : Works call process inv busy work) {rounds : List (List α)}
    (hrounds : ∀ as ∈ rounds, Round process as) (hs : inv s) (hle : work s ≤ rounds.length) :
    work (rounds.flatten.foldl call s) = 0 := by
  induction rounds generalizing s with
  | nil => exact Nat.le_zero.mp hle
  | cons as rounds ih =>
    obtain ⟨has, hrest⟩ := List.forall_mem_cons.mp hrounds
    rw [List.flatten_cons, List.foldl_append]
    apply ih hrest (h.keeps_calls hs)
    by_cases hzero : work s = 0
    · have hless : work (as.foldl call s) ≤ work s := h.le_calls
      omega
    · obtain ⟨p, hp⟩ := h.some_busy hs (Nat.pos_of_ne_zero hzero)
      have hless := h.less_calls hs hp (has p)
      rw [List.length_cons] at hle
      omega

end Works

end FpgaNetworkStack.Lib
