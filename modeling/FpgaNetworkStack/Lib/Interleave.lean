import Mathlib.Data.List.Chain
import Mathlib.Data.List.Infix
import Mathlib.Logic.Function.Basic

/-!
# Packets of several sources on one line

A packet is a list of items.  The line carries whole packets one after the other, for every source its own in their
order.
-/

namespace FpgaNetworkStack.Lib

variable {κ α : Type*}

section

variable [DecidableEq κ] {ps : κ → List (List α)} {served : List (κ × List α)} {sources : List κ} {out : List α}

/-- The packets among them that are those of the source `k`. -/
def servedFrom (served : List (κ × List α)) (k : κ) : List (List α) := (served.filter (·.1 = k)).map (·.2)

theorem servedFrom_snoc_same (served : List (κ × List α)) (k : κ) (p : List α) :
    servedFrom (served ++ [(k, p)]) k = servedFrom served k ++ [p] := by
  simp [servedFrom]

theorem servedFrom_snoc_other (served : List (κ × List α)) {j k : κ} (h : k ≠ j) (p : List α) :
    servedFrom (served ++ [(k, p)]) j = servedFrom served j := by
  simp [servedFrom, h]

theorem length_servedFrom (served : List (κ × List α)) (k : κ) :
    (servedFrom served k).length = (served.map (·.1)).count k := by
  rw [servedFrom, List.length_map, ← List.countP_eq_length_filter, List.count, List.countP_map]
  apply List.countP_congr
  intro p _
  simp

/-- The next packet of the source `k`. -/
theorem servedFrom_next {rest : κ → List (List α)} {k : κ} {p : List α} {later : List (List α)}
    (h : ∀ j, ps j = servedFrom served j ++ rest j) (hk : rest k = p :: later) (j : κ) :
    ps j = servedFrom (served ++ [(k, p)]) j ++ Function.update rest k later j := by
  by_cases hj : k = j
  · subst hj
    rw [servedFrom_snoc_same, Function.update_self, h, hk, List.append_assoc]
    rfl
  · rw [servedFrom_snoc_other served hj, Function.update_of_ne (Ne.symm hj), h]

/-- `out` is made of all packets, which come from `sources` in this order. -/
def Interleaving (ps : κ → List (List α)) (sources : List κ) (out : List α) : Prop :=
  ∃ served : List (κ × List α), (∀ k, servedFrom served k = ps k) ∧ served.map (·.1) = sources ∧
    out = served.flatMap (·.2)

/-- `out` is made of the first packets of every source, and maybe of the beginning of one more. -/
inductive Interleaved (ps : κ → List (List α)) : List κ → List α → Prop
  | whole {served : List (κ × List α)} (h : ∀ k, servedFrom served k <+: ps k) :
      Interleaved ps (served.map (·.1)) (served.flatMap (·.2))
  | within {served : List (κ × List α)} {k : κ} {part more : List α} (hpart : part ≠ []) (hmore : more ≠ [])
      (h : ∀ j, servedFrom (served ++ [(k, part ++ more)]) j <+: ps j) :
      Interleaved ps (served.map (·.1) ++ [k]) (served.flatMap (·.2) ++ part)

/-- Every packet of a source is begun once. -/
theorem Interleaving.count (h : Interleaving ps sources out) (k : κ) : sources.count k = (ps k).length := by
  obtain ⟨served, hps, hsources, -⟩ := h
  rw [← hsources, ← length_servedFrom, hps]

end

/-! ## Turns -/

/-- A packet is begun; did another source have one to send then? -/
structure Turn (κ : Type*) where
  source : κ
  otherWaits : Bool
  deriving DecidableEq

/-- No source is served twice in a row while another one waits. -/
def Fair (turns : List (Turn κ)) : Prop := turns.IsChain fun a b => a.source = b.source → b.otherWaits = false

theorem fair_snoc {turns : List (Turn κ)} {b : Turn κ} :
    Fair (turns ++ [b]) ↔ Fair turns ∧ ∀ a ∈ turns.getLast?, a.source = b.source → b.otherWaits = false := by
  unfold Fair
  rw [List.isChain_append]
  constructor
  · exact fun h => ⟨h.1, fun a ha => h.2.2 a ha b rfl⟩
  · rintro ⟨hturns, hlast⟩
    refine ⟨hturns, .singleton b, fun a ha b' hb => ?_⟩
    cases Option.some.inj hb
    exact hlast a ha

theorem Fair.of_prefix {turns later : List (Turn κ)} (h : Fair later) (hpre : turns <+: later) : Fair turns := by
  obtain ⟨rest, rfl⟩ := hpre
  exact h.left_of_append

end FpgaNetworkStack.Lib
