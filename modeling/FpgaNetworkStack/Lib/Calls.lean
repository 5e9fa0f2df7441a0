import Mathlib.Tactic.TypeStar

/-!
# A process called again and again

A process is a function of its static variables and its input streams; each call returns both and what it
writes.  `calls f n` calls it `n` times and keeps everything it wrote, in order.
-/

namespace FpgaNetworkStack.Lib

variable {σ ι ο : Type*} {f : σ → ι → σ × ι × ο}

/-- `n` calls: the state, what is left of the streams, and the writes of each call. -/
def calls (f : σ → ι → σ × ι × ο) : Nat → σ → ι → σ × ι × List ο
  | 0, s, i => (s, i, [])
  | n + 1, s, i =>
    ((calls f n (f s i).1 (f s i).2.1).1, (calls f n (f s i).1 (f s i).2.1).2.1,
      (f s i).2.2 :: (calls f n (f s i).1 (f s i).2.1).2.2)

/-- What `n` calls write. -/
def written (f : σ → ι → σ × ι × ο) (n : Nat) (s : σ) (i : ι) : List ο := (calls f n s i).2.2

theorem written_zero {s : σ} {i : ι} : written f 0 s i = [] := rfl

/-- The first call, and the calls that follow. -/
theorem written_succ {n : Nat} {s t : σ} {i j : ι} {out : ο} (h : f s i = (t, j, out)) :
    written f (n + 1) s i = out :: written f n t j := by
  simp only [written, calls, h]

/-- A process that has nothing to do writes the same thing at every call. -/
theorem written_idle {s : σ} {i : ι} {out : ο} (h : f s i = (s, i, out)) (n : Nat) :
    written f n s i = List.replicate n out := by
  induction n with
  | zero => rfl
  | succ n ih => rw [written_succ h, ih, List.replicate_succ]

/-! ## Runs

Where the number of calls does not matter: some calls, and calls until nothing happens any more.
-/

variable {o idle : ο} {os os' : List ο} {s t u : σ} {i j k : ι}

/-- Some calls one after the other, with everything they write. -/
inductive Runs (f : σ → ι → σ × ι × ο) : σ → ι → List ο → σ → ι → Prop
  | refl (s : σ) (i : ι) : Runs f s i [] s i
  | call {o : ο} {os : List ο} {s t u : σ} {i j k : ι} (h : f s i = (t, j, o)) (rest : Runs f t j os u k) :
      Runs f s i (o :: os) u k

theorem Runs.one (h : f s i = (t, j, o)) : Runs f s i [o] t j := .call h (.refl t j)

theorem Runs.trans (h : Runs f s i os t j) (h' : Runs f t j os' u k) : Runs f s i (os ++ os') u k := by
  induction h with
  | refl => exact h'
  | call hcall _ ih => exact .call hcall (ih h')

/-- A process that another one follows call by call has the runs of the other one. -/
theorem Runs.lift {σ' ι' ο' : Type*} {g : σ' → ι' → σ' × ι' × ο'} {state : σ → σ'} {input : ι → ι'} {out : ο → ο'}
    (hcall : ∀ s i, g (state s) (input i) = (state (f s i).1, input (f s i).2.1, out (f s i).2.2))
    {os : List ο'} {t : σ'} {j : ι'} (h : Runs g (state s) (input i) os t j) :
    ∃ os' t' j', Runs f s i os' t' j' ∧ t = state t' ∧ j = input j' ∧ os = os'.map out := by
  generalize hs : state s = s', hi : input i = i' at h
  induction h generalizing s i with
  | refl =>
    subst hs hi
    exact ⟨[], s, i, .refl s i, rfl, rfl, rfl⟩
  | call hone _ ih =>
    subst hs hi
    rw [hcall] at hone
    cases hone
    obtain ⟨os', t', j', hrun, ht, hj, rfl⟩ := ih rfl rfl
    exact ⟨_, t', j', .call rfl hrun, ht, hj, rfl⟩

/-- The process comes to rest; `idle` is the output of a call that does nothing. -/
structure Rests (f : σ → ι → σ × ι × ο) (idle : ο) (s : σ) (i : ι) (os : List ο) (t : σ) (j : ι) : Prop where
  run : Runs f s i os t j
  rest : f t j = (t, j, idle)

/-- A process of which every call with something to do makes a measure smaller comes to rest. -/
theorem Rests.exists (μ : σ → ι → Nat) (h : ∀ s i, f s i = (s, i, idle) ∨ μ (f s i).1 (f s i).2.1 < μ s i) (s : σ)
    (i : ι) : ∃ os t j, Rests f idle s i os t j := by
  induction hμ : μ s i using Nat.strongRecOn generalizing s i with
  | ind n ih =>
    rcases h s i with hrest | hless
    · exact ⟨[], s, i, .refl s i, hrest⟩
    · obtain ⟨os, t, j, hrun, hrest⟩ := ih _ (hμ ▸ hless) _ _ rfl
      exact ⟨_, t, j, .call rfl hrun, hrest⟩

-- nothing changes any more
theorem Runs.of_rest (hrest : f s i = (s, i, idle)) (h : Runs f s i os t j) :
    t = s ∧ j = i ∧ ∀ o ∈ os, o = idle := by
  induction h with
  | refl => exact ⟨rfl, rfl, fun _ ho => (List.not_mem_nil ho).elim⟩
  | call hcall _ ih =>
    rw [hrest] at hcall
    cases hcall
    obtain ⟨ht, hj, hos⟩ := ih hrest
    exact ⟨ht, hj, List.forall_mem_cons.mpr ⟨rfl, hos⟩⟩

theorem flatMap_idle {β : Type*} {g : ο → List β} (hg : g idle = []) (h : ∀ o ∈ os, o = idle) :
    os.flatMap g = [] := by
  rw [List.flatMap_eq_nil_iff]
  intro o ho
  rw [h o ho, hg]

/-- A process comes to rest in one way: at the same place, and with the same items written. -/
theorem Rests.unique {β : Type*} {t' : σ} {j' : ι} {g : ο → List β} (hg : g idle = [])
    (h : Rests f idle s i os t j) (h' : Rests f idle s i os' t' j') :
    os.flatMap g = os'.flatMap g ∧ t = t' ∧ j = j' := by
  obtain ⟨hrun, hrest⟩ := h
  obtain ⟨hrun', hrest'⟩ := h'
  induction hrun generalizing os' with
  | refl =>
    obtain ⟨ht, hj, hos⟩ := hrun'.of_rest hrest
    exact ⟨(flatMap_idle hg hos).symm, ht.symm, hj.symm⟩
  | call hcall hmore ih =>
    cases hrun' with
    | refl =>
      obtain ⟨ht, hj, hos⟩ := (Runs.call hcall hmore).of_rest hrest'
      exact ⟨flatMap_idle hg hos, ht, hj⟩
    | call hcall' hmore' =>
      rw [hcall] at hcall'
      cases hcall'
      obtain ⟨hos, ht, hj⟩ := ih hrest hmore'
      exact ⟨by rw [List.flatMap_cons, List.flatMap_cons, hos], ht, hj⟩

end FpgaNetworkStack.Lib
