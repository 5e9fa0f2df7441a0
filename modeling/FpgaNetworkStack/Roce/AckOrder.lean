import FpgaNetworkStack.Roce.RetransLists
import FpgaNetworkStack.Roce.TxEngine
import Mathlib.Data.List.Basic

/-!
# Sequence numbers of outstanding requests

The requests in a retransmission list take consecutive numbers, so a number that lies between the last numbers
of two neighbours separates the list.
-/

namespace FpgaNetworkStack.Roce

open IbOpCode

-- half of the number space; a number is after another one when it is less than this ahead
def PSN_HALF : Nat := 2 ^ 23

/-- `a` is after `p` in the order modulo `2^24`. -/
def psnAfter (p a : BitVec 24) : Bool := decide (0 < (a - p).toNat) && decide ((a - p).toNat < PSN_HALF)

namespace RetransEntry

/-- The numbers a request takes: one, and one for every packet of the response to a read request. -/
def numPkg (e : RetransEntry) : BitVec 22 := if e.opCode = RC_RDMA_READ_REQUEST then numPackets e.length else 1

def lastPsn (e : RetransEntry) : BitVec 24 :=
  if e.numPkg = 0 then e.psn else e.psn + (e.numPkg - 1).setWidth 24

/-- A request of length zero still has a number of its own. -/
def packets (e : RetransEntry) : Nat := max 1 e.numPkg.toNat

end RetransEntry

/-- Every request starts where the one before it ends, and the next one starts at `next`. -/
def Consecutive : List RetransEntry → BitVec 24 → Prop
  | [], _ => True
  | [e], next => e.psn + e.numPkg.setWidth 24 = next
  | e :: e' :: l, next => e.psn + e.numPkg.setWidth 24 = e'.psn ∧ Consecutive (e' :: l) next

/-- The oldest of these requests is after `p`, and all of them fit in half of the number space behind `p`. -/
def ahead (p : BitVec 24) : List RetransEntry → Bool
  | [] => true
  | e :: l => decide (0 < (e.lastPsn - p).toNat) &&
      decide ((e.lastPsn - p).toNat + (l.map RetransEntry.packets).sum < PSN_HALF)

/-- A response with number `p` leaves exactly the requests whose last number is after `p`. -/
def Released (p : BitVec 24) (before after : List RetransEntry) : Prop :=
  after.map RetransEntry.lastPsn = (before.map RetransEntry.lastPsn).filter (psnAfter p)

instance (p : BitVec 24) (before after : List RetransEntry) : Decidable (Released p before after) :=
  inferInstanceAs (Decidable (_ = _))

/-- The response acknowledges the oldest request and no other one; a response that is not complete belongs
to a read request with further packets and acknowledges none. -/
def acksOldest (u : RetransUpdate) : List RetransEntry → Bool
  | [] => true
  | e :: l =>
    if readMore u.opCode then
      e.opCode == RC_RDMA_READ_REQUEST && decide (PMTU < e.length.toNat) && ahead u.latestAckedReq (e :: l)
    else !psnAfter u.latestAckedReq e.lastPsn && ahead u.latestAckedReq l

namespace Consecutive

variable {l : List RetransEntry} {e e' : RetransEntry} {next : BitVec 24}

theorem tail (h : Consecutive l next) : Consecutive l.tail next := by
  match l, h with
  | [], _ => trivial
  | [_], _ => trivial
  | _ :: _ :: _, h => exact h.2

-- only the first request is replaced, by one that ends at the same number
theorem head (h : Consecutive (e :: l) next)
    (he : e'.psn + e'.numPkg.setWidth 24 = e.psn + e.numPkg.setWidth 24) : Consecutive (e' :: l) next := by
  match l, h with
  | [], h => exact he.trans h
  | _ :: _, h => exact ⟨he.trans h.1, h.2⟩

theorem left {l' : List RetransEntry} (h : Consecutive (l ++ l') next) : ∃ next', Consecutive l next' := by
  induction l with
  | nil => exact ⟨next, trivial⟩
  | cons e l ih =>
    cases l with
    | nil => exact ⟨_, rfl⟩
    | cons e' l =>
      obtain ⟨next', hn⟩ := ih h.2
      exact ⟨next', h.1, hn⟩

theorem snoc (h : Consecutive l e.psn) (he : e.psn + e.numPkg.setWidth 24 = next) :
    Consecutive (l ++ [e]) next := by
  induction l with
  | nil => exact he
  | cons e₁ l ih =>
    match l, h with
    | [], h => exact ⟨h, he⟩
    | e₂ :: l, h => exact ⟨h.1, ih h.2⟩

end Consecutive

theorem numPackets_toNat (length : BitVec 32) :
    (numPackets length).toNat = (length.toNat + (PMTU - 1)) / PMTU := by
  have hlt := length.isLt
  rw [numPackets, BitVec.toNat_ofNat]
  apply Nat.mod_eq_of_lt
  simp only [PMTU]
  omega

theorem setWidth_pred {n : BitVec 22} (h : n ≠ 0) :
    (n - 1).setWidth 24 + 1 = n.setWidth 24 ∧ (n - 1).toNat + 1 = n.toNat := by
  have hlt := n.isLt
  have hpos : 0 < n.toNat := by
    rw [Nat.pos_iff_ne_zero]
    exact fun h0 => h (BitVec.eq_of_toNat_eq h0)
  have hpred : (n - 1).toNat + 1 = n.toNat := by
    have hle : (1 : BitVec 22) ≤ n := by
      rw [BitVec.le_def]
      exact hpos
    rw [BitVec.toNat_sub_of_le hle]
    show n.toNat - 1 + 1 = n.toNat
    omega
  refine ⟨?_, hpred⟩
  apply BitVec.eq_of_toNat_eq
  rw [BitVec.toNat_add, BitVec.toNat_setWidth, BitVec.toNat_setWidth, ← hpred]
  show ((n - 1).toNat % 2 ^ 24 + 1) % 2 ^ 24 = _
  omega

variable {e e' : RetransEntry}

/-- The last number of the next request, seen from the one before it. -/
theorem lastPsn_next (h : e.psn + e.numPkg.setWidth 24 = e'.psn) :
    ∃ d : BitVec 24, e'.lastPsn = e.lastPsn + d ∧ d.toNat ≤ e'.packets := by
  have hlt := e'.numPkg.isLt
  unfold RetransEntry.packets RetransEntry.lastPsn
  rw [← h]
  by_cases h0 : e.numPkg = 0 <;> by_cases h0' : e'.numPkg = 0
  · refine ⟨0, ?_, by simp⟩
    rw [if_pos h0, if_pos h0', h0]
    simp
  · refine ⟨(e'.numPkg - 1).setWidth 24, ?_, ?_⟩
    · rw [if_pos h0, if_neg h0', h0]
      simp
    · have hpred := (setWidth_pred h0').2
      rw [BitVec.toNat_setWidth, Nat.mod_eq_of_lt (by omega)]
      omega
  · refine ⟨1, ?_, by simp⟩
    rw [if_neg h0, if_pos h0', BitVec.add_assoc, (setWidth_pred h0).1]
  · refine ⟨e'.numPkg.setWidth 24, ?_, ?_⟩
    · rw [if_neg h0, if_neg h0', ← (setWidth_pred h0).1, ← (setWidth_pred h0').1]
      ac_rfl
    · rw [BitVec.toNat_setWidth, Nat.mod_eq_of_lt (by omega)]
      omega

theorem lastPsn_sub {p : BitVec 24} (h : e.psn + e.numPkg.setWidth 24 = e'.psn)
    (hp : (e.lastPsn - p).toNat + e'.packets < PSN_HALF) :
    (e.lastPsn - p).toNat ≤ (e'.lastPsn - p).toNat ∧
      (e'.lastPsn - p).toNat ≤ (e.lastPsn - p).toNat + e'.packets := by
  obtain ⟨d, hd, hle⟩ := lastPsn_next h
  have hsub : e'.lastPsn - p = (e.lastPsn - p) + d := by
    rw [hd, BitVec.sub_eq_add_neg, BitVec.sub_eq_add_neg]
    ac_rfl
  unfold PSN_HALF at hp
  rw [hsub, BitVec.toNat_add, Nat.mod_eq_of_lt (by omega)]
  omega

theorem ahead_tail {l : List RetransEntry} {p : BitVec 24}
    (h : e.psn + e.numPkg.setWidth 24 = e'.psn) (ha : ahead p (e :: e' :: l) = true) :
    ahead p (e' :: l) = true := by
  simp only [ahead, List.map_cons, List.sum_cons, Bool.and_eq_true, decide_eq_true_eq] at ha ⊢
  have hd := lastPsn_sub (p := p) h (by omega)
  omega

/-- Consecutive requests are all after `p` when the oldest one is. -/
theorem after_of_ahead {l : List RetransEntry} {next p : BitVec 24} (h : Consecutive l next)
    (ha : ahead p l = true) : ∀ e ∈ l, psnAfter p e.lastPsn = true := by
  induction l with
  | nil => exact fun e he => (List.not_mem_nil he).elim
  | cons e l ih =>
    have hfirst : psnAfter p e.lastPsn = true := by
      simp only [ahead, Bool.and_eq_true, decide_eq_true_eq] at ha
      simp only [psnAfter, Bool.and_eq_true, decide_eq_true_eq]
      omega
    match l, h with
    | [], _ =>
      intro e₁ he₁
      rw [List.mem_singleton.mp he₁]
      exact hfirst
    | e' :: l, h =>
      intro e₁ he₁
      rcases List.mem_cons.mp he₁ with rfl | he₁
      · exact hfirst
      · exact ih h.2 (ahead_tail h.1 ha) e₁ he₁

/-- One packet of a longer read response: the request ends where it ended before. -/
theorem RetransEntry.advance_spec {e : RetransEntry} (hop : e.opCode = RC_RDMA_READ_REQUEST)
    (hlen : PMTU < e.length.toNat) :
    e.advance.psn + e.advance.numPkg.setWidth 24 = e.psn + e.numPkg.setWidth 24 ∧
      e.advance.lastPsn = e.lastPsn := by
  have hlt := e.length.isLt
  have hop' : e.advance.opCode = RC_RDMA_READ_REQUEST := hop
  have hpsn : e.advance.psn = e.psn + 1 := rfl
  have hlen' : e.advance.length.toNat = e.length.toNat - PMTU := by
    show (e.length - BitVec.ofNat 32 PMTU).toNat = _
    rw [BitVec.toNat_sub, BitVec.toNat_ofNat]
    unfold PMTU at hlen ⊢
    omega
  have hnum : e.numPkg.toNat = e.advance.numPkg.toNat + 1 ∧ 0 < e.advance.numPkg.toNat := by
    unfold RetransEntry.numPkg
    rw [if_pos hop, if_pos hop', numPackets_toNat, numPackets_toNat, hlen']
    unfold PMTU at hlen ⊢
    omega
  have hne : e.numPkg ≠ 0 := by
    intro h0
    rw [h0] at hnum
    simp at hnum
  have hne' : e.advance.numPkg ≠ 0 := by
    intro h0
    rw [h0] at hnum
    simp at hnum
  have hsub : e.numPkg - 1 = e.advance.numPkg := by
    apply BitVec.eq_of_toNat_eq
    have hpred := (setWidth_pred hne).2
    omega
  constructor
  · rw [hpsn, ← (setWidth_pred hne).1, hsub]
    ac_rfl
  · unfold RetransEntry.lastPsn
    rw [if_neg hne, if_neg hne', hpsn, hsub, ← (setWidth_pred hne').1]
    ac_rfl

variable {lists : Qpn → List RetransEntry} {u : RetransUpdate} {next : BitVec 24}

theorem consecutive_update {rest : List RetransEntry} (h : Consecutive (lists u.qpn ++ rest) next)
    (ha : acksOldest u (lists u.qpn) = true) :
    Consecutive (listStep lists (.update u) u.qpn ++ rest) next := by
  simp only [listStep, Function.update_self]
  cases hl : lists u.qpn with
  | nil =>
    rw [hl] at h
    split <;> exact h
  | cons e l =>
    rw [hl] at h ha
    simp only [acksOldest] at ha
    split at ha
    · next hmore =>
        simp only [Bool.and_eq_true, beq_iff_eq, decide_eq_true_eq] at ha
        rw [if_pos hmore, List.modifyHead_cons]
        exact Consecutive.head h (RetransEntry.advance_spec ha.1.1 ha.1.2).1
    · next hmore =>
        rw [if_neg hmore]
        exact Consecutive.tail h

theorem released_update (h : Consecutive (lists u.qpn) next) (ha : acksOldest u (lists u.qpn) = true) :
    Released u.latestAckedReq (lists u.qpn) (listStep lists (.update u) u.qpn) := by
  simp only [Released, listStep, Function.update_self]
  cases hl : lists u.qpn with
  | nil => split <;> rfl
  | cons e l =>
    rw [hl] at h ha
    simp only [acksOldest] at ha
    split at ha
    · next hmore =>
        simp only [Bool.and_eq_true, beq_iff_eq, decide_eq_true_eq] at ha
        have hafter := after_of_ahead h ha.2
        rw [if_pos hmore, List.modifyHead_cons, List.map_cons, (RetransEntry.advance_spec ha.1.1 ha.1.2).2,
          ← List.map_cons (f := RetransEntry.lastPsn)]
        rw [List.filter_eq_self.mpr]
        intro a ha'
        obtain ⟨e₁, he₁, rfl⟩ := List.mem_map.mp ha'
        exact hafter e₁ he₁
    · next hmore =>
        simp only [Bool.and_eq_true, Bool.not_eq_true'] at ha
        have hafter := after_of_ahead h.tail ha.2
        rw [if_neg hmore, List.map_cons, List.filter_cons_of_neg (by simp [ha.1]), List.tail_cons]
        rw [List.filter_eq_self.mpr]
        intro a ha'
        obtain ⟨e₁, he₁, rfl⟩ := List.mem_map.mp ha'
        exact hafter e₁ he₁

end FpgaNetworkStack.Roce
