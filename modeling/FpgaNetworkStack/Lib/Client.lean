import Mathlib.Data.List.Basic

/-!
# Clients of a table

A process and a table are joined by a FIFO of requests and a FIFO of answers.  The process writes
freely, but after a read it waits: it makes no further request until it has taken the answer.  Then
an answer is never old with respect to the client's own writes, since all of them were served before
the read.
-/

namespace FpgaNetworkStack.Lib

variable {Q R : Type*} {write : Q → Bool} {reqs ws : List Q} {rsps : List R} {q : Q} {busy : Bool}

/-- The two FIFOs of a client; `busy` from the read to the moment its answer is taken. -/
inductive TableClient (write : Q → Bool) : Bool → List Q → List R → Prop
  | quiet {reqs : List Q} (h : ∀ q ∈ reqs, write q = true) : TableClient write false reqs []
  | asked {ws : List Q} {q : Q} (h : ∀ q ∈ ws, write q = true) (hq : write q = false) :
      TableClient write true (ws ++ [q]) []
  | answered (r : R) : TableClient write true [] [r]

namespace TableClient

theorem push (h : TableClient write false reqs rsps) (hw : ∀ q ∈ ws, write q = true) :
    TableClient write false (reqs ++ ws) rsps := by
  cases h with
  | quiet hr =>
    apply TableClient.quiet
    intro q hq
    rcases List.mem_append.mp hq with hq | hq
    · exact hr q hq
    · exact hw q hq

theorem ask (h : TableClient write false reqs rsps) (hq : write q = false) :
    TableClient write true (reqs ++ [q]) rsps := by
  cases h with
  | quiet hr => exact TableClient.asked hr hq

/-- A client that is not busy has no answer to take. -/
theorem rsps_eq_nil (h : TableClient write false reqs rsps) : rsps = [] := by
  cases h with
  | quiet _ => rfl

theorem writes (h : TableClient write false reqs rsps) : ∀ q ∈ reqs, write q = true := by
  cases h with
  | quiet hr => exact hr

theorem take {r : R} (h : TableClient write busy reqs (r :: rsps)) :
    busy = true ∧ reqs = [] ∧ rsps = [] := by
  cases h with
  | answered => exact ⟨rfl, rfl, rfl⟩

/-- A client that waits has its answer once all requests are served. -/
theorem answer_of_nil (h : TableClient write true [] rsps) : ∃ r, rsps = [r] := by
  generalize hl : ([] : List Q) = l at h
  cases h with
  | asked _ _ => exact absurd hl.symm (List.append_ne_nil_of_right_ne_nil _ (List.cons_ne_nil _ _))
  | answered r => exact ⟨r, rfl⟩

theorem serve_write (h : TableClient write busy (q :: reqs) rsps) (hq : write q = true) :
    TableClient write busy reqs rsps := by
  generalize hl : q :: reqs = l at h
  cases h with
  | quiet hr =>
    apply TableClient.quiet
    intro q' hq'
    exact hr q' (hl ▸ List.mem_cons_of_mem q hq')
  | @asked ws q' hr hq' =>
    cases ws with
    | nil =>
      -- the read itself is at the head, and `q` is a write
      cases hl
      rw [hq] at hq'
      cases hq'
    | cons w ws =>
      cases hl
      exact TableClient.asked (fun q' hq' => hr q' (List.mem_cons_of_mem q hq')) hq'
  | answered => cases hl

/-- When the read is served, nothing stands behind it. -/
theorem serve_read (h : TableClient write busy (q :: reqs) rsps) (hq : write q = false) :
    busy = true ∧ reqs = [] ∧ rsps = [] := by
  generalize hl : q :: reqs = l at h
  cases h with
  | quiet hr =>
    have := hr q (hl ▸ List.mem_cons_self)
    rw [hq] at this
    cases this
  | @asked ws q' hr hq' =>
    cases ws with
    | nil =>
      cases hl
      exact ⟨rfl, rfl, rfl⟩
    | cons w ws =>
      cases hl
      have := hr q List.mem_cons_self
      rw [hq] at this
      cases this
  | answered => cases hl

end TableClient

end FpgaNetworkStack.Lib
