import FpgaNetworkStack.Lib.Calls
import FpgaNetworkStack.Lib.Reach
import Mathlib.Algebra.Ring.Nat
import Mathlib.Data.List.Forall2

/-!
# Processes that wait for their input

Input that comes later does not change what a call does.  So a process that is called while its input comes in
writes what it would write with all of it at hand.
-/

namespace FpgaNetworkStack.Lib

variable {σ ι ο : Type*} {f : σ → ι → σ × ι × ο} {idle o : ο} {os : List ο} {s t : σ} {i j x : ι}

/-- A call has nothing to do, or more input does not change it. -/
def Waits [Append ι] (f : σ → ι → σ × ι × ο) (idle : ο) : Prop :=
  ∀ s i, f s i = (s, i, idle) ∨ ∀ x, f s (i ++ x) = ((f s i).1, (f s i).2.1 ++ x, (f s i).2.2)

/-- What a call leaves of a run to rest. -/
theorem Rests.step (h : Rests f idle s i os t j) :
    ∃ os', Rests f idle (f s i).1 (f s i).2.1 os' t j ∧ (os = (f s i).2.2 :: os' ∨ (f s i).2.2 = idle ∧ os' = os) := by
  obtain ⟨hrun, hrest⟩ := h
  cases hrun with
  | refl =>
    rw [hrest]
    exact ⟨[], ⟨.refl _ _, hrest⟩, .inr ⟨rfl, rfl⟩⟩
  | call hcall hrun =>
    rw [hcall]
    exact ⟨_, ⟨hrun, hrest⟩, .inl rfl⟩

/-- The same for a process that is called before the rest `x` of its input is there. -/
theorem Rests.called [Append ι] (hf : Waits f idle) (h : Rests f idle s (i ++ x) os t j) :
    ∃ os', Rests f idle (f s i).1 ((f s i).2.1 ++ x) os' t j ∧
      (os = (f s i).2.2 :: os' ∨ (f s i).2.2 = idle ∧ os' = os) := by
  rcases hf s i with hidle | hmore
  · rw [hidle]
    exact ⟨os, h, .inr ⟨rfl, rfl⟩⟩
  · have hstep := h.step
    rw [hmore x] at hstep
    exact hstep

/-- What was written by the call and what is written later. -/
theorem flatMap_called {β : Type*} {g : ο → List β} {os' : List ο} (hg : g idle = [])
    (h : os = o :: os' ∨ o = idle ∧ os' = os) : os.flatMap g = g o ++ os'.flatMap g := by
  rcases h with rfl | ⟨rfl, rfl⟩
  · rw [List.flatMap_cons]
  · rw [hg, List.nil_append]

theorem flatten_called {β : Type*} {os os' : List (List β)} {o : List β} (h : os = o :: os' ∨ o = [] ∧ os' = os) :
    os.flatten = o ++ os'.flatten := by
  rcases h with rfl | ⟨rfl, rfl⟩
  · rw [List.flatten_cons]
  · rw [List.nil_append]

/-- A process at rest, whatever there was to come. -/
theorem Rests.at_rest (h : Rests f idle s i os t j) (hrest : f s i = (s, i, idle)) :
    t = s ∧ j = i ∧ ∀ o ∈ os, o = idle := h.run.of_rest hrest

/-! ## Input that comes between the calls -/

section

variable [Append ι] {xs : List ι} {os' : List ο} {u : σ} {k : ι}

/-- Some calls, between which the pieces `xs` are put behind the input. -/
inductive Fed (f : σ → ι → σ × ι × ο) : σ → ι → List ι → List ο → σ → ι → Prop
  | refl (s : σ) (i : ι) : Fed f s i [] [] s i
  | call {o : ο} {os : List ο} {s t u : σ} {i j k : ι} {xs : List ι} (h : f s i = (t, j, o))
      (rest : Fed f t j xs os u k) : Fed f s i xs (o :: os) u k
  | feed {os : List ο} {s u : σ} {i k : ι} {xs : List ι} (x : ι) (rest : Fed f s (i ++ x) xs os u k) :
      Fed f s i (x :: xs) os u k

/-- All of the input is there before the first call. -/
theorem Runs.fed (h : Runs f s (xs.foldl (· ++ ·) i) os t j) : Fed f s i xs os t j := by
  induction xs generalizing i with
  | nil =>
    rw [List.foldl_nil] at h
    induction h with
    | refl => exact .refl _ _
    | call hcall _ ih => exact .call hcall ih
  | cons x xs ih => exact .feed x (ih h)

variable [Std.Associative (α := ι) (· ++ ·)]

/-- However the input comes in, the process comes to the rest it comes to with all of it at hand. -/
theorem Fed.rests (hf : Waits f idle) (h : Fed f s i xs os u k)
    (hrest : Rests f idle s (xs.foldl (· ++ ·) i) os' t j) :
    ∃ os'', Rests f idle u k os'' t j ∧
      ∀ {β : Type} {g : ο → List β}, g idle = [] → os'.flatMap g = os.flatMap g ++ os''.flatMap g := by
  induction h generalizing os' with
  | refl => exact ⟨os', hrest, fun _ => rfl⟩
  | feed x _ ih => exact ih hrest
  | @call o os s t' _ i j' _ xs hcall _ ih =>
    have hlater : ∃ os₁, Rests f idle t' (xs.foldl (· ++ ·) j') os₁ t j ∧ (os' = o :: os₁ ∨ o = idle ∧ os₁ = os') := by
      cases xs with
      | nil =>
        have hstep := hrest.step
        rwa [List.foldl_nil, hcall] at hstep
      | cons x xs =>
        rw [List.foldl_cons, List.foldl_assoc] at hrest ⊢
        have hstep := hrest.called hf
        rwa [hcall] at hstep
    obtain ⟨os₁, hrest₁, hos⟩ := hlater
    obtain ⟨os'', hrest'', hsplit⟩ := ih hrest₁
    refine ⟨os'', hrest'', fun hg => ?_⟩
    rw [flatMap_called hg hos, hsplit hg, List.flatMap_cons, List.append_assoc]

/-- A process that has come to rest has written all of it. -/
theorem Fed.at_rest (hf : Waits f idle) (h : Fed f s i xs os u k) (hend : f u k = (u, k, idle))
    (hrest : Rests f idle s (xs.foldl (· ++ ·) i) os' t j) {β : Type} {g : ο → List β} (hg : g idle = []) :
    os.flatMap g = os'.flatMap g := by
  obtain ⟨os'', hrest'', hsplit⟩ := h.rests hf hrest
  obtain ⟨-, -, hidle⟩ := hrest''.at_rest hend
  rw [hsplit hg, flatMap_idle hg hidle, List.append_nil]

/-- A process that has come to rest is where it comes to rest with all of its input at hand. -/
theorem Fed.ends (hf : Waits f idle) (h : Fed f s i xs os u k) (hend : f u k = (u, k, idle))
    (hrest : Rests f idle s (xs.foldl (· ++ ·) i) os' t j) : t = u ∧ j = k := by
  obtain ⟨os'', hrest'', -⟩ := h.rests hf hrest
  obtain ⟨ht, hj, -⟩ := hrest''.at_rest hend
  exact ⟨ht, hj⟩

end

/-! ## All of the input -/

section

variable [Append ι] {β : Type} {g : ο → List β} {done : σ → Prop} {zero : ι} {out out' : List β}

/-- However the input comes in, the process comes to rest in a state of `done` with nothing left to read, and `g` of what
it has written is `out` then. -/
structure Completes (f : σ → ι → σ × ι × ο) (idle : ο) (g : ο → List β) (done : σ → Prop) (s : σ)
    (zero input : ι) (out : List β) : Prop where
  rests : ∃ os t, Rests f idle s input os t zero ∧ done t ∧ os.flatMap g = out
  fed : ∀ {xs os t j}, xs.foldl (· ++ ·) zero = input → Fed f s zero xs os t j → f t j = (t, j, idle) →
    done t ∧ j = zero ∧ os.flatMap g = out

theorem Completes.of_rests [Std.Associative (α := ι) (· ++ ·)] (hf : Waits f idle) (hg : g idle = [])
    (h : Rests f idle s i os t zero) (hdone : done t) (hout : os.flatMap g = out) :
    Completes f idle g done s zero i out := by
  constructor
  · exact ⟨os, t, h, hdone, hout⟩
  · rintro xs os' u k rfl hfed hend
    obtain ⟨rfl, rfl⟩ := hfed.ends hf hend h
    exact ⟨hdone, rfl, (hfed.at_rest hf hend h hg).trans hout⟩

/-- A process completes its input in one way. -/
theorem Completes.of_run (h : Completes f idle g done s zero i out) (hg : g idle = [])
    (hrest : Rests f idle s i os t j) : done t ∧ j = zero ∧ os.flatMap g = out := by
  obtain ⟨os', t', hrest', hdone, hout⟩ := h.rests
  obtain ⟨hos, rfl, rfl⟩ := hrest.unique hg hrest'
  exact ⟨hdone, rfl, hos.trans hout⟩

theorem Completes.unique (h : Completes f idle g done s zero i out) (hg : g idle = [])
    (h' : Completes f idle g done s zero i out') : out' = out := by
  obtain ⟨os, t, hrest, -, hout⟩ := h'.rests
  exact hout.symm.trans (h.of_run hg hrest).2.2

end

/-- What is left to do after some calls. -/
theorem Rests.after {β : Type*} {g : ο → List β} {os' : List ο} {u : σ} {k : ι} (h : Rests f idle s i os t j)
    (hg : g idle = []) (hrun : Runs f s i os' u k) :
    ∃ os'', Rests f idle u k os'' t j ∧ os.flatMap g = os'.flatMap g ++ os''.flatMap g := by
  induction hrun generalizing os with
  | refl => exact ⟨os, h, rfl⟩
  | call hcall _ ih =>
    obtain ⟨os₁, hrest₁, hos⟩ := h.step
    rw [hcall] at hrest₁ hos
    obtain ⟨os₂, hrest₂, hsplit⟩ := ih hrest₁
    refine ⟨os₂, hrest₂, ?_⟩
    rw [flatMap_called hg hos, hsplit, List.flatMap_cons, List.append_assoc]

theorem Rests.before {os' : List ο} {u : σ} {k : ι} (h : Rests f idle u k os t j) (hrun : Runs f s i os' u k) :
    Rests f idle s i (os' ++ os) t j := ⟨hrun.trans h.run, h.rest⟩

/-! ## One item after the other -/

/-- What a process makes of one item, it makes of every item of a list. -/
theorem runs_each {δ : Type*} (ready : σ → Prop) (P : δ → Prop) (input : List δ → ι) (out : δ → List ο)
    (hone : ∀ s d ds, ready s → P d → ∃ t, Runs f s (input (d :: ds)) (out d) t (input ds) ∧ ready t) (ds : List δ) :
    ∀ {s : σ}, ready s → (∀ d ∈ ds, P d) → ∃ t, Runs f s (input ds) (ds.flatMap out) t (input []) ∧ ready t := by
  induction ds with
  | nil =>
    intro s hs _
    exact ⟨s, .refl s _, hs⟩
  | cons d ds ih =>
    intro s hs hP
    obtain ⟨hd, hds⟩ := List.forall_mem_cons.mp hP
    obtain ⟨t, hrun, ht⟩ := hone s d ds hs hd
    obtain ⟨u, hmore, hu⟩ := ih ht hds
    exact ⟨u, hrun.trans hmore, hu⟩

/-- The same where only something is known of what is written for an item. -/
theorem runs_blocks {δ : Type*} (ready : σ → Prop) (P : δ → Prop) (R : δ → List ο → Prop) (input : List δ → ι)
    (hone : ∀ s d ds, ready s → P d → ∃ os t, Runs f s (input (d :: ds)) os t (input ds) ∧ ready t ∧ R d os) (ds : List δ) :
    ∀ {s : σ}, ready s → (∀ d ∈ ds, P d) →
      ∃ oss t, Runs f s (input ds) oss.flatten t (input []) ∧ ready t ∧ List.Forall₂ R ds oss := by
  induction ds with
  | nil =>
    intro s hs _
    exact ⟨[], s, .refl s _, hs, .nil⟩
  | cons d ds ih =>
    intro s hs hP
    obtain ⟨hd, hds⟩ := List.forall_mem_cons.mp hP
    obtain ⟨os, t, hrun, ht, hos⟩ := hone s d ds hs hd
    obtain ⟨oss, u, hmore, hu, hoss⟩ := ih ht hds
    exact ⟨os :: oss, u, hrun.trans hmore, hu, .cons hos hoss⟩

/-- What is written for all items is what is written for each of them. -/
theorem flatMap_blocks {δ β : Type*} {R : δ → List ο → Prop} {g : ο → List β} {h : δ → List β} {ds : List δ}
    {oss : List (List ο)} (hR : ∀ d os, R d os → os.flatMap g = h d) (hoss : List.Forall₂ R ds oss) :
    oss.flatten.flatMap g = ds.flatMap h := by
  induction hoss with
  | nil => rfl
  | cons hos _ ih => rw [List.flatten_cons, List.flatMap_append, hR _ _ hos, ih, List.flatMap_cons]

section Iff

variable {δ β : Type} {g : ο → List β} {ready : σ → Prop} {Q P : δ → Prop} {Spec : List δ → List β → Prop} {zero : ι}
  (h : δ → List β) [Append ι] [Std.Associative (α := ι) (· ++ ·)] (Fits : List δ → List β → Prop) (input : List δ → ι)
  (hf : Waits f idle) (hg : g idle = []) (hzero : input [] = zero) (hready : ∀ s, ready s → f s zero = (s, zero, idle))

include hf hg hzero hready

/-- Each item is read on its own, and what is written for it meets the specification exactly when the item is one of
`P`, whatever fits the items behind it.  Then the whole output meets the specification exactly when all items are. -/
theorem completes_iff_of_fits (hnil : Spec [] [] ∧ Fits [] [])
    (hone : ∀ s d ds, ready s → Q d → ∃ os t, Runs f s (input (d :: ds)) os t (input ds) ∧ ready t ∧
      ∀ rest, Fits ds rest →
        (Spec (d :: ds) (os.flatMap g ++ rest) ↔ P d ∧ Spec ds rest) ∧ Fits (d :: ds) (os.flatMap g ++ rest))
    (ds : List δ) (hs : ready s) (hds : ∀ d ∈ ds, Q d) :
    (∃ out, Completes f idle g ready s zero (input ds) out ∧ Spec ds out) ↔ ∀ d ∈ ds, P d := by
  have hrests : ∃ os t, Rests f idle s (input ds) os t zero ∧ ready t ∧ Fits ds (os.flatMap g) ∧
      (Spec ds (os.flatMap g) ↔ ∀ d ∈ ds, P d) := by
    induction ds generalizing s with
    | nil =>
      refine ⟨[], s, ⟨?_, hready s hs⟩, hs, hnil.2, iff_of_true hnil.1 fun d hd => absurd hd List.not_mem_nil⟩
      rw [hzero]
      exact .refl s zero
    | cons d ds ih =>
      obtain ⟨hd, hds⟩ := List.forall_mem_cons.mp hds
      obtain ⟨os, t, hrun, ht, hrest⟩ := hone s d ds hs hd
      obtain ⟨os', u, hrests, hu, hfits, hspec⟩ := ih ht hds
      obtain ⟨hspec', hfits'⟩ := hrest _ hfits
      refine ⟨os ++ os', u, hrests.before hrun, hu, ?_, ?_⟩
      · rw [List.flatMap_append]
        exact hfits'
      · rw [List.flatMap_append, hspec', hspec, List.forall_mem_cons]
  obtain ⟨os, t, hrest, ht, -, hspec⟩ := hrests
  rw [← hspec]
  constructor
  · rintro ⟨out, hcompletes, hout⟩
    obtain ⟨-, -, hos⟩ := hcompletes.of_run hg hrest
    rw [hos]
    exact hout
  · intro hout
    exact ⟨_, .of_rests hf hg hrest ht rfl, hout⟩

/-- The same when what is written for an item can be told from what is written behind it. -/
theorem completes_iff (hnil : Spec [] [])
    (hone : ∀ s d ds, ready s → Q d → ∃ os t, Runs f s (input (d :: ds)) os t (input ds) ∧ ready t ∧
      ∀ rest, Spec (d :: ds) (os.flatMap g ++ rest) ↔ P d ∧ Spec ds rest)
    (ds : List δ) (hs : ready s) (hds : ∀ d ∈ ds, Q d) :
    (∃ out, Completes f idle g ready s zero (input ds) out ∧ Spec ds out) ↔ ∀ d ∈ ds, P d := by
  refine completes_iff_of_fits (fun _ _ => True) input hf hg hzero hready ⟨hnil, trivial⟩ ?_ ds hs hds
  intro s d ds hs hd
  obtain ⟨os, t, hrun, ht, hspec⟩ := hone s d ds hs hd
  exact ⟨os, t, hrun, ht, fun rest _ => ⟨hspec rest, trivial⟩⟩

/-- What is written item by item. -/
theorem completes_each
    (hone : ∀ s d ds, ready s → Q d →
      ∃ os t, Runs f s (input (d :: ds)) os t (input ds) ∧ ready t ∧ os.flatMap g = h d)
    (ds : List δ) (hs : ready s) (hds : ∀ d ∈ ds, Q d) :
    Completes f idle g ready s zero (input ds) (ds.flatMap h) := by
  have hrests : ∃ os t, Rests f idle s (input ds) os t zero ∧ ready t ∧ os.flatMap g = ds.flatMap h := by
    induction ds generalizing s with
    | nil =>
      refine ⟨[], s, ⟨?_, hready s hs⟩, hs, rfl⟩
      rw [hzero]
      exact .refl s zero
    | cons d ds ih =>
      obtain ⟨hd, hds⟩ := List.forall_mem_cons.mp hds
      obtain ⟨os, t, hrun, ht, hout⟩ := hone s d ds hs hd
      obtain ⟨os', u, hrests, hu, hmore⟩ := ih ht hds
      refine ⟨os ++ os', u, hrests.before hrun, hu, ?_⟩
      rw [List.flatMap_append, hout, hmore, List.flatMap_cons]
  obtain ⟨os, t, hrest, ht, hout⟩ := hrests
  exact .of_rests hf hg hrest ht hout

/-- One value for each item: when no item has more than one, none may lack its own. -/
theorem completes_iff_forall₂ {R : δ → β → Prop}
    (hone : ∀ s d ds, ready s → Q d → ∃ os t, Runs f s (input (d :: ds)) os t (input ds) ∧ ready t ∧
      (os.flatMap g).length ≤ 1 ∧ ((∃ r, os.flatMap g = [r] ∧ R d r) ↔ P d))
    (ds : List δ) (hs : ready s) (hds : ∀ d ∈ ds, Q d) :
    (∃ out, Completes f idle g ready s zero (input ds) out ∧ List.Forall₂ R ds out) ↔ ∀ d ∈ ds, P d := by
  refine completes_iff_of_fits (fun ds out => out.length ≤ ds.length) input hf hg hzero hready
    ⟨.nil, Nat.le_refl _⟩ ?_ ds hs hds
  intro s d ds hs hd
  obtain ⟨os, t, hrun, ht, hlen, hP⟩ := hone s d ds hs hd
  refine ⟨os, t, hrun, ht, fun rest hrest => ⟨?_, ?_⟩⟩
  · rw [← hP]
    generalize os.flatMap g = one at hlen
    match one, hlen with
    | [], _ =>
      constructor
      · intro h
        have hall := h.length_eq
        rw [List.nil_append, List.length_cons] at hall
        omega
      · rintro ⟨⟨r, hnone, -⟩, -⟩
        cases hnone
    | [r], _ =>
      rw [List.singleton_append, List.forall₂_cons]
      constructor
      · rintro ⟨hr, hmore⟩
        exact ⟨⟨r, rfl, hr⟩, hmore⟩
      · rintro ⟨⟨r', hone, hr⟩, hmore⟩
        cases hone
        exact ⟨hr, hmore⟩
  · rw [List.length_append, List.length_cons]
    omega

/-- Items of `P` are read on their own and written right; when the first item is not one of them, what is written from
there on is wrong, whatever comes behind it. -/
theorem completes_iff_of_wrong (hnil : Spec [] [])
    (hright : ∀ s d ds, ready s → Q d → P d → ∃ os t, Runs f s (input (d :: ds)) os t (input ds) ∧ ready t ∧
      ∀ rest, Spec (d :: ds) (os.flatMap g ++ rest) ↔ Spec ds rest)
    (hwrong : ∀ s d ds os t j, ready s → Q d → (∀ d ∈ ds, Q d) → ¬P d → Rests f idle s (input (d :: ds)) os t j →
      ¬Spec (d :: ds) (os.flatMap g))
    (ds : List δ) (hs : ready s) (hds : ∀ d ∈ ds, Q d) :
    (∃ out, Completes f idle g ready s zero (input ds) out ∧ Spec ds out) ↔ ∀ d ∈ ds, P d := by
  have hrests : (∃ os t, Rests f idle s (input ds) os t zero ∧ ready t ∧ Spec ds (os.flatMap g)) ↔ ∀ d ∈ ds, P d := by
    induction ds generalizing s with
    | nil =>
      refine iff_of_true ⟨[], s, ⟨?_, hready s hs⟩, hs, hnil⟩ fun d hd => absurd hd List.not_mem_nil
      rw [hzero]
      exact .refl s zero
    | cons d ds ih =>
      obtain ⟨hd, hds⟩ := List.forall_mem_cons.mp hds
      rw [List.forall_mem_cons]
      by_cases hP : P d
      · obtain ⟨os, t, hrun, ht, hspec⟩ := hright s d ds hs hd hP
        rw [← ih ht hds]
        constructor
        · rintro ⟨os', u, hrests, hu, hout⟩
          obtain ⟨os'', hrests', hsplit⟩ := hrests.after hg hrun
          rw [hsplit, hspec] at hout
          exact ⟨hP, os'', u, hrests', hu, hout⟩
        · rintro ⟨-, os'', u, hrests', hu, hout⟩
          refine ⟨os ++ os'', u, hrests'.before hrun, hu, ?_⟩
          rw [List.flatMap_append, hspec]
          exact hout
      · refine iff_of_false ?_ fun h => hP h.1
        rintro ⟨os, t, hrest, -, hout⟩
        exact hwrong s d ds os t zero hs hd hds hP hrest hout
  rw [← hrests]
  constructor
  · rintro ⟨out, hcompletes, hout⟩
    obtain ⟨os, t, hrest, ht, rfl⟩ := hcompletes.rests
    exact ⟨os, t, hrest, ht, hout⟩
  · rintro ⟨os, t, hrest, ht, hout⟩
    exact ⟨_, .of_rests hf hg hrest ht rfl, hout⟩

end Iff

/-- When no call writes more than it takes from `μ`, all of them together do not. -/
theorem Runs.spends (I : σ → ι → Prop) (μ : σ → ι → Nat) (c : ο → Nat)
    (hstep : ∀ s i, I s i → I (f s i).1 (f s i).2.1 ∧ c (f s i).2.2 + μ (f s i).1 (f s i).2.1 ≤ μ s i)
    (h : Runs f s i os t j) (hI : I s i) : (os.map c).sum + μ t j ≤ μ s i := by
  induction h with
  | refl => simp
  | @call o os s t u i j k hcall _ ih =>
    obtain ⟨hnext, hle⟩ := hstep s i hI
    rw [hcall] at hnext hle
    change c o + μ t j ≤ μ s i at hle
    have hrest := ih hnext
    rw [List.map_cons, List.sum_cons]
    omega

/-- What is written for the items of a list, item by item. -/
theorem flatMap_each {δ β : Type*} {g : ο → List β} {h : δ → List β} {out : δ → List ο}
    (hone : ∀ d, (out d).flatMap g = h d) (ds : List δ) : (ds.flatMap out).flatMap g = ds.flatMap h := by
  rw [List.flatMap_assoc]
  simp only [hone]

theorem flatten_each {δ β : Type*} {h : δ → List β} {out : δ → List (List β)} (hone : ∀ d, (out d).flatten = h d)
    (ds : List δ) : (ds.flatMap out).flatten = ds.flatMap h := by
  rw [← List.flatMap_id]
  exact flatMap_each (fun d => List.flatMap_id.trans (hone d)) ds

/-- Items for which nothing is written may be left out. -/
theorem flatMap_if {δ β : Type*} (q : δ → Bool) (h : δ → List β) (ds : List δ) :
    (ds.flatMap fun d => if q d = true then h d else []) = (ds.filter q).flatMap h := by
  induction ds with
  | nil => rfl
  | cons d ds ih =>
    rw [List.flatMap_cons, ih]
    by_cases hq : q d = true
    · rw [if_pos hq, List.filter_cons_of_pos hq, List.flatMap_cons]
    · rw [if_neg hq, List.filter_cons_of_neg hq, List.nil_append]

theorem flatMap_one_if {δ β : Type*} {p : δ → Prop} [DecidablePred p] (f : δ → β) (ds : List δ) :
    (ds.flatMap fun d => if p d then [f d] else []) = (ds.filter (p ·)).map f := by
  have hif := flatMap_if (fun d => decide (p d)) (fun d => [f d]) ds
  simp only [decide_eq_true_eq] at hif
  rw [hif, List.map_eq_flatMap]

/-- Blocks of one length can be told apart. -/
theorem flatMap_inj_of_length {δ β : Type*} {f g : δ → List β} {n : Nat} {ds : List δ} (hf : ∀ d ∈ ds, (f d).length = n)
    (hg : ∀ d ∈ ds, (g d).length = n) : ds.flatMap f = ds.flatMap g ↔ ∀ d ∈ ds, f d = g d := by
  induction ds with
  | nil => exact iff_of_true rfl fun d hd => absurd hd List.not_mem_nil
  | cons d ds ih =>
    obtain ⟨hfd, hf⟩ := List.forall_mem_cons.mp hf
    obtain ⟨hgd, hg⟩ := List.forall_mem_cons.mp hg
    rw [List.flatMap_cons, List.flatMap_cons, List.forall_mem_cons, ← ih hf hg]
    constructor
    · exact fun h => List.append_inj h (hfd.trans hgd.symm)
    · rintro ⟨hd, hds⟩
      rw [hd, hds]

/-! ## In a system

`place` puts the static variables, the input and what was written so far of one process into the system.
-/

variable {ν α : Type*}

/-- The calls of one process are steps of the system. -/
theorem Runs.reach {step : ν → α → Option ν} {place : σ → ι → List ο → ν} {n : ν} (a : α)
    (hstep : ∀ s i os, step (place s i os) a = some (place (f s i).1 (f s i).2.1 (os ++ [(f s i).2.2])))
    (hn : place s i [] = n) (os : List ο) (t : σ) (j : ι) (h : Runs f s i os t j) :
    Reach step anyStep n (place t j os) := by
  have hrun : ∀ written, Reach step anyStep (place s i written) (place t j (written ++ os)) := by
    clear hn
    induction h with
    | refl s i =>
      intro written
      rw [List.append_nil]
      exact Reach.refl _
    | @call o os s _ _ i _ _ hcall _ ih =>
      intro written
      have hs := hstep s i written
      rw [hcall] at hs
      have hrest := ih (written ++ [o])
      rw [List.append_assoc, List.singleton_append] at hrest
      exact Relation.ReflTransGen.head ⟨a, trivial, hs⟩ hrest
  rw [← hn]
  exact hrun []

end FpgaNetworkStack.Lib
