import Mathlib.Data.List.Induction
import Mathlib.Logic.Function.Basic
import Mathlib.Tactic.SplitIfs

/-!
# Tables with read locks

A table is shared by clients that read an entry and later write it back.  A read takes the entry,
the client's write of the same entry releases it.  A log of accesses is legal when no access touches
an entry that another client holds; then nothing comes between a read and its write.
-/

namespace FpgaNetworkStack.Lib

variable {C K V : Type} [DecidableEq C] [DecidableEq K]

inductive Access (C K V : Type) where
  | read (c : C) (k : K)
  | write (c : C) (k : K) (v : V)
  /-- A write that belongs to no client. -/
  | force (k : K) (v : V)
  /-- A read that takes nothing. -/
  | peek (k : K)
  deriving DecidableEq

structure Locks (C K V : Type) where
  held : C → Option K
  table : K → V

namespace Locks

/-- A client holds at most one entry at a time and writes back the one it holds; with nothing held
it may also write any entry that nobody holds. -/
def Enabled (l : Locks C K V) : Access C K V → Prop
  | .read c k => l.held c = none ∧ ∀ d, l.held d ≠ some k
  | .write c k _ => (l.held c = none ∨ l.held c = some k) ∧ ∀ d, d ≠ c → l.held d ≠ some k
  | .force k _ => ∀ d, l.held d ≠ some k
  | .peek _ => True

def apply (l : Locks C K V) : Access C K V → Locks C K V
  | .read c k => { l with held := Function.update l.held c (some k) }
  | .write c k v =>
    { held := Function.update l.held c none, table := Function.update l.table k v }
  | .force k v => { l with table := Function.update l.table k v }
  | .peek _ => l

def replay (l : Locks C K V) (log : List (Access C K V)) : Locks C K V := log.foldl apply l

def Legal : Locks C K V → List (Access C K V) → Prop
  | _, [] => True
  | l, a :: log => l.Enabled a ∧ Legal (l.apply a) log

theorem replay_append (l : Locks C K V) (log log' : List (Access C K V)) :
    l.replay (log ++ log') = (l.replay log).replay log' := by
  simp [replay]

theorem legal_append (l : Locks C K V) (log log' : List (Access C K V)) :
    Legal l (log ++ log') ↔ Legal l log ∧ Legal (l.replay log) log' := by
  induction log generalizing l with
  | nil => simp [Legal, replay]
  | cons a log ih =>
    rw [List.cons_append, Legal, Legal, ih, and_assoc]
    rfl

/-- The values the accesses selected by `p` find in the table. -/
def answers (p : Access C K V → Option K) : Locks C K V → List (Access C K V) → List V
  | _, [] => []
  | l, a :: log => ((p a).map l.table).toList ++ answers p (l.apply a) log

theorem answers_append (p : Access C K V → Option K) (l : Locks C K V)
    (log log' : List (Access C K V)) :
    answers p l (log ++ log') = answers p l log ++ answers p (l.replay log) log' := by
  induction log generalizing l with
  | nil => rfl
  | cons a log ih =>
    rw [List.cons_append, answers, answers, ih, List.append_assoc]
    rfl

/-- The access touches entry `k` and is not one of client `c`. -/
def Foreign (c : C) (k : K) : Access C K V → Prop
  | .read d k' => d ≠ c ∧ k' = k
  | .write d k' _ => d ≠ c ∧ k' = k
  | .force k' _ => k' = k
  | .peek _ => False

/-- While a client holds an entry, an enabled access is not foreign to it, and unless it is the
client's own write the entry stays held with the same value. -/
theorem enabled_held {l : Locks C K V} {a : Access C K V} {c : C} {k : K} (h : l.Enabled a)
    (hc : l.held c = some k) (ha : ∀ v, a ≠ .write c k v) :
    ¬ Foreign c k a ∧ (l.apply a).held c = some k ∧ (l.apply a).table k = l.table k := by
  cases a with
  | read d k' =>
    have hd : d ≠ c := by
      rintro rfl
      rw [h.1] at hc
      cases hc
    refine ⟨fun hf => h.2 c (by rw [hc, hf.2]), ?_, rfl⟩
    simp only [apply, Function.update_of_ne hd.symm, hc]
  | write d k' v =>
    by_cases hd : d = c
    · -- the client's own write would have to be of the entry it holds
      subst hd
      rcases h.1 with hn | hs
      · rw [hn] at hc
        cases hc
      · rw [hs] at hc
        cases hc
        exact absurd rfl (ha v)
    · have hk : k' ≠ k := by
        rintro rfl
        exact h.2 c (Ne.symm hd) hc
      refine ⟨fun hf => hk hf.2, ?_, ?_⟩
      · simp only [apply, Function.update_of_ne (Ne.symm hd), hc]
      · simp only [apply, Function.update_of_ne hk.symm]
  | force k' v =>
    have hk : k' ≠ k := by
      rintro rfl
      exact h c hc
    refine ⟨hk, hc, ?_⟩
    simp only [apply, Function.update_of_ne hk.symm]
  | peek k' => exact ⟨id, hc, rfl⟩

/-- As long as a client has not written back the entry it holds, a legal log has no access foreign to
it, and the entry keeps its value. -/
theorem legal_held {l : Locks C K V} {log : List (Access C K V)} {c : C} {k : K} (h : Legal l log)
    (hc : l.held c = some k) (hw : ∀ v, Access.write c k v ∉ log) :
    (∀ a ∈ log, ¬ Foreign c k a) ∧ (l.replay log).table k = l.table k := by
  induction log generalizing l with
  | nil => exact ⟨by simp, rfl⟩
  | cons a log ih =>
    have ha : ∀ v, a ≠ .write c k v := by
      rintro v rfl
      exact hw v (List.mem_cons_self ..)
    obtain ⟨hf, hheld, htable⟩ := enabled_held h.1 hc ha
    obtain ⟨hrest, htable'⟩ :=
      ih h.2 hheld fun v hv => hw v (List.mem_cons_of_mem _ hv)
    refine ⟨?_, htable'.trans htable⟩
    intro a' ha'
    rcases List.mem_cons.mp ha' with rfl | ha'
    · exact hf
    · exact hrest a' ha'

/-- Mutual exclusion, for a read anywhere in a legal log and any stretch of the log after it that
does not yet hold the matching write. -/
theorem legal_exclusive {l : Locks C K V} {before mid after : List (Access C K V)} {c : C} {k : K}
    (h : Legal l (before ++ .read c k :: (mid ++ after))) (hw : ∀ v, Access.write c k v ∉ mid) :
    (∀ a ∈ mid, ¬ Foreign c k a) ∧
      (l.replay (before ++ .read c k :: mid)).table k = (l.replay before).table k := by
  obtain ⟨-, -, hmid⟩ := (legal_append ..).mp h
  obtain ⟨hmid, -⟩ := (legal_append ..).mp hmid
  have hheld : ((l.replay before).apply (.read c k)).held c = some k := by
    simp [apply]
  obtain ⟨hf, ht⟩ := legal_held hmid hheld hw
  refine ⟨hf, ?_⟩
  rw [replay_append]
  exact ht

/-- The last answer to a client that holds an entry is what the table holds. -/
theorem legal_answered {p : Access C K V → Option K} {c : C} (hp : ∀ a k, p a = some k ↔ a = .read c k)
    {l : Locks C K V} (hl : l.held c = none) {log : List (Access C K V)} (h : Legal l log) {k : K}
    (hheld : (l.replay log).held c = some k) : ∃ xs, answers p l log = xs ++ [(l.replay log).table k] := by
  induction log using List.reverseRecOn with
  | nil =>
    rw [replay, List.foldl_nil, hl] at hheld
    cases hheld
  | append_singleton log a ih =>
    obtain ⟨hlog, henabled, -⟩ := (legal_append ..).mp h
    rw [replay_append] at hheld ⊢
    rw [answers_append]
    change ((l.replay log).apply a).held c = some k at hheld
    show ∃ xs, answers p l log ++ (((p a).map (l.replay log).table).toList ++ []) =
      xs ++ [((l.replay log).apply a).table k]
    by_cases hread : a = .read c k
    · rw [(hp a k).mpr hread, hread]
      exact ⟨answers p l log, rfl⟩
    · -- the entry was held before
      have hbefore : (l.replay log).held c = some k ∧ ∀ k', a ≠ .read c k' := by
        cases a with
        | read d k' =>
          by_cases hd : c = d
          · subst hd
            simp only [apply, Function.update_self] at hheld
            cases hheld
            exact absurd rfl hread
          · simp only [apply, Function.update_of_ne hd] at hheld
            exact ⟨hheld, fun k' hk => hd (Access.read.inj hk).1.symm⟩
        | write d k' v =>
          by_cases hd : c = d
          · subst hd
            simp only [apply, Function.update_self] at hheld
            cases hheld
          · simp only [apply, Function.update_of_ne hd] at hheld
            exact ⟨hheld, by simp⟩
        | force | peek => exact ⟨hheld, by simp⟩
      have hwrite (v : V) : a ≠ .write c k v := by
        rintro rfl
        simp only [apply, Function.update_self] at hheld
        cases hheld
      have hnone : p a = none := by
        cases hpa : p a with
        | none => rfl
        | some k' => exact absurd ((hp a k').mp hpa) (hbefore.2 k')
      rw [hnone, (enabled_held henabled hbefore.1 hwrite).2.2]
      obtain ⟨xs, hxs⟩ := ih hlog hbefore.1
      exact ⟨xs, by rw [hxs, Option.map_none, Option.toList_none, List.append_nil, List.append_nil]⟩

/-- No two clients hold the same entry. -/
def Exclusive (l : Locks C K V) : Prop :=
  ∀ c d k, l.held c = some k → l.held d = some k → c = d

theorem Exclusive.apply {l : Locks C K V} {a : Access C K V} (hx : l.Exclusive) (h : l.Enabled a) :
    (l.apply a).Exclusive := by
  intro c d k hc hd
  cases a with
  | read e k' =>
    simp only [Locks.apply, Function.update_apply] at hc hd
    split_ifs at hc hd with h1 h2 h2
    · rw [h1, h2]
    · cases hc
      exact absurd hd (h.2 d)
    · cases hd
      exact absurd hc (h.2 c)
    · exact hx c d k hc hd
  | write e k' v =>
    simp only [Locks.apply, Function.update_apply] at hc hd
    split_ifs at hc hd
    exact hx c d k hc hd
  | force | peek => exact hx c d k hc hd

end Locks

end FpgaNetworkStack.Lib
