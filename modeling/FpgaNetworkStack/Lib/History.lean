import Mathlib.Data.List.Basic
import Mathlib.Logic.Function.Basic

/-!
# Histories of answered operations

A component that serves one request after the other leaves a history of the requests with their answers.
`after` replays it on an abstract object, and `Conforms` says that each of its operations met a condition on the
object as it was then.  The second part is the case of a map: look up a key, insert a fresh key, delete a key.
-/

namespace FpgaNetworkStack.Lib

section History

variable {σ α : Type*} {effect : σ → α → σ} {p : σ → α → Prop} {s : σ} {log : List α} {e : α}

/-- The abstract object after the operations of the history. -/
def after (effect : σ → α → σ) (s : σ) (log : List α) : σ := log.foldl effect s

/-- Every operation met the condition on the object before it. -/
def Conforms (effect : σ → α → σ) (p : σ → α → Prop) (s : σ) (log : List α) : Prop :=
  ∀ pre e post, log = pre ++ e :: post → p (after effect s pre) e

@[simp] theorem after_nil : after effect s [] = s := rfl

@[simp] theorem after_snoc : after effect s (log ++ [e]) = effect (after effect s log) e := by
  simp [after]

theorem conforms_nil : Conforms effect p s [] := by
  intro pre e post h
  simp at h

theorem conforms_snoc : Conforms effect p s (log ++ [e]) ↔ Conforms effect p s log ∧ p (after effect s log) e := by
  constructor
  · intro h
    refine ⟨fun pre x post hx => h pre x (post ++ [e]) ?_, h log e [] rfl⟩
    rw [hx, List.append_assoc, List.cons_append]
  · rintro ⟨h, he⟩ pre x post hx
    -- the operation is the last one, or it is in the history before
    rcases List.eq_nil_or_concat post with rfl | ⟨post', y, rfl⟩
    · obtain ⟨rfl, hy⟩ := List.append_inj' hx rfl
      cases List.singleton_inj.mp hy
      exact he
    · rw [List.concat_eq_append, ← List.cons_append, ← List.append_assoc] at hx
      exact h pre x post' (List.append_inj' hx rfl).1

/-- What the last operation adds to the operations of some kind. -/
theorem filterMap_snoc {β : Type*} (f : α → Option β) (log : List α) (e : α) :
    (log ++ [e]).filterMap f = log.filterMap f ++ (f e).toList := by
  rw [List.filterMap_append]
  cases h : f e <;> simp [h]

end History

/-! ## Maps -/

/-- An operation on a map with its answer. -/
inductive MapOp (κ ν : Type*) where
  | lookup (key : κ) (found : Option ν)
  | insert (key : κ) (value : ν) (success : Bool)
  | delete (key : κ) (success : Bool)

namespace MapOp

variable {κ ν : Type*} [DecidableEq κ]

def effect (m : κ → Option ν) : MapOp κ ν → κ → Option ν
  | .lookup _ _ => m
  | .insert key value _ => Function.update m key (some value)
  | .delete key _ => Function.update m key none

omit [DecidableEq κ] in
/-- The answer is the one a map gives. -/
def Answered (m : κ → Option ν) : MapOp κ ν → Prop
  | .lookup key found => found = m key
  | .insert _ _ success => success = true
  | .delete key success => success = (m key).isSome

omit [DecidableEq κ] in
/-- An insertion is of a key that is not there, and it succeeded. -/
def Fresh (m : κ → Option ν) : MapOp κ ν → Prop
  | .insert key _ success => m key = none ∧ success = true
  | .lookup _ _ => True
  | .delete _ _ => True

end MapOp

end FpgaNetworkStack.Lib
