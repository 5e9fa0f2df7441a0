import Mathlib.Logic.Relation

/-!
# Runs of guarded transition systems

A system is a partial step function `step : σ → α → Option σ` over labels `α`; `none` means that
the label is not enabled.  `Reach step ok` is reachability by enabled steps that also meet the
condition `ok` on the state before the step, so one development can speak about every run
(`ok := fun _ _ => True`) and about the runs that avoid some kind of step.
-/

namespace FpgaNetworkStack.Lib

variable {σ α : Type*} {step : σ → α → Option σ} {ok : σ → α → Prop}

/-- One enabled step that meets `ok`. -/
def Step (step : σ → α → Option σ) (ok : σ → α → Prop) (s t : σ) : Prop :=
  ∃ a, ok s a ∧ step s a = some t

/-- States reached from `s` by steps that all meet `ok`. -/
def Reach (step : σ → α → Option σ) (ok : σ → α → Prop) : σ → σ → Prop :=
  Relation.ReflTransGen (Step step ok)

/-- No condition on the steps: every run. -/
def anyStep (_ : σ) (_ : α) : Prop := True

theorem Reach.refl (s : σ) : Reach step ok s s := Relation.ReflTransGen.refl

/-- The invariant rule: what holds initially and is kept by every step that meets `ok` holds in
every reachable state. -/
theorem Reach.invariant {P : σ → Prop} {s t : σ} (h : Reach step ok s t) (h0 : P s)
    (hstep : ∀ u a v, P u → ok u a → step u a = some v → P v) : P t := by
  induction h with
  | refl => exact h0
  | tail _ hs ih =>
    obtain ⟨a, ha, hv⟩ := hs
    exact hstep _ a _ ih ha hv

/-- A condition on the steps may be dropped. -/
theorem Reach.any {s t : σ} (h : Reach step ok s t) : Reach step anyStep s t := by
  induction h with
  | refl => exact Reach.refl s
  | tail _ hs ih =>
    obtain ⟨a, -, hv⟩ := hs
    exact ih.tail ⟨a, trivial, hv⟩

/-- The steps of a part of a system are steps of the system. -/
theorem Reach.map {ν β : Type*} {step' : ν → β → Option ν} {s t : σ} (g : σ → ν) (label : α → β)
    (hg : ∀ s a t, step s a = some t → step' (g s) (label a) = some (g t)) (h : Reach step anyStep s t) :
    Reach step' anyStep (g s) (g t) := by
  induction h with
  | refl => exact .refl _
  | tail _ hs ih =>
    obtain ⟨a, -, hs⟩ := hs
    exact ih.tail ⟨label a, trivial, hg _ a _ hs⟩

/-- Run a list of labels; `none` when one of them is not enabled. -/
def run (step : σ → α → Option σ) : σ → List α → Option σ
  | s, [] => some s
  | s, a :: as => (step s a).bind fun t => run step t as

/-- A run that evaluates is a run of the system. -/
theorem reach_of_run {as : List α} : ∀ {s t : σ}, run step s as = some t → Reach step anyStep s t := by
  induction as with
  | nil =>
    intro s t h
    cases Option.some.inj h
    exact Reach.refl _
  | cons a as ih =>
    intro s t h
    obtain ⟨u, hu, ht⟩ := Option.bind_eq_some_iff.mp h
    exact Relation.ReflTransGen.head ⟨a, trivial, hu⟩ (ih ht)

/-- Run a list of labels that all have to meet `ok`. -/
def runIf (step : σ → α → Option σ) (ok : σ → α → Prop) [∀ s a, Decidable (ok s a)] :
    σ → List α → Option σ
  | s, [] => some s
  | s, a :: as => if ok s a then (step s a).bind fun t => runIf step ok t as else none

theorem reach_of_runIf [∀ s a, Decidable (ok s a)] {as : List α} :
    ∀ {s t : σ}, runIf step ok s as = some t → Reach step ok s t := by
  induction as with
  | nil =>
    intro s t h
    cases Option.some.inj h
    exact Reach.refl _
  | cons a as ih =>
    intro s t h
    rw [runIf] at h
    split at h
    · rename_i hok
      obtain ⟨u, hu, ht⟩ := Option.bind_eq_some_iff.mp h
      exact Relation.ReflTransGen.head ⟨a, hok, hu⟩ (ih ht)
    · cases h

end FpgaNetworkStack.Lib
