import FpgaNetworkStack.Roce.Responder

/-!
# Duplicates and the end of the number space

`rx_ibh_fsm` takes a request for a duplicate when its number lies between `resp_old_outstanding` and
`resp_epsn`.  The lower end is stored when the connection is made and never moves, so the window is empty again
each time `resp_epsn` has gone round.
-/

namespace FpgaNetworkStack.Roce

open Lib IbOpCode

theorem duplicate_iff (m : IbhMeta) (r : RxStateRsp) :
    duplicate m r = true ↔
      (m.psn - r.oldestOutstandingPsn).toNat < (r.epsn - r.oldestOutstandingPsn).toNat := by
  have hx := m.psn.isLt
  have ha := r.oldestOutstandingPsn.isLt
  have hb := r.epsn.isLt
  simp only [duplicate, Bool.or_eq_true, Bool.and_eq_true, decide_eq_true_eq, BitVec.lt_def, BitVec.le_def,
    BitVec.toNat_sub]
  omega

-- an invalid request always writes to the state table, a duplicate never does
theorem processDuplicate_writes (m : IbhMeta) : (processDuplicate m).stateTableUpdReq = [] := by
  unfold processDuplicate
  split
  · rfl
  · split <;> rfl

theorem processInvalid_writes {m : IbhMeta} (h : m.opCode ≠ RC_ACK) (isResponse : Bool) (r : RxStateRsp) :
    (processInvalid m isResponse r).stateTableUpdReq ≠ [] := by
  rw [processInvalid, if_pos h]
  exact List.cons_ne_nil _ _

namespace ResponderNet

variable {q : Qpn} {t u t₀ : ResponderNet}

def taken (t : ResponderNet) (q : Qpn) : Nat := ((t.accepted q).map Packet.covers).sum

/-- The lower end is the number the connection started with. -/
structure Window (q : Qpn) (e : BitVec 24) (t : ResponderNet) : Prop where
  inv : Inv q e.toNat t
  oldest : (t.table q).respOldOutstanding = e
  answer : ∀ r ∈ t.rsp, t.current.isRequest q = true → r.oldestOutstandingPsn = e

variable {e : BitVec 24}

theorem rxUpdate_oldest (s : StateTableEntry) (r : RxStateReq) :
    (s.rxUpdate r).respOldOutstanding = s.respOldOutstanding := by
  unfold StateTableEntry.rxUpdate
  split <;> rfl

theorem update_oldest (table : Qpn → StateTableEntry) (k : Qpn) {s : StateTableEntry}
    (h : s.respOldOutstanding = (table k).respOldOutstanding) :
    (Function.update table k s q).respOldOutstanding = (table q).respOldOutstanding := by
  by_cases hq : q = k
  · subst hq
    rw [Function.update_self, h]
  · rw [Function.update_of_ne hq]

theorem Window.stateTable (h : Window q e t) (hs : t.step q .stateTable = some u) : Window q e u := by
  have hinv := inv_step h.inv hs
  simp only [step, Option.some.injEq] at hs
  unfold Roce.stateTable at hs
  split at hs
  · next r rest hrx =>
      split at hs
      · rw [← hs] at hinv ⊢
        refine ⟨hinv, ?_, by simpa using h.answer⟩
        exact (update_oldest t.table r.qpn (rxUpdate_oldest _ r)).trans h.oldest
      · next hw =>
          have hread := h.inv.reads r (by rw [hrx]; exact List.mem_cons_self) (by simpa using hw)
          rw [← hs] at hinv ⊢
          refine ⟨hinv, h.oldest, ?_⟩
          intro x hx hreq
          rcases List.mem_append.mp hx with hx | hx
          · exact h.answer x hx hreq
          · -- the answer is that of the queue pair of the packet
            simp only [Packet.isRequest, Bool.and_eq_true, beq_iff_eq, Bool.not_eq_true'] at hreq
            rw [List.mem_singleton.mp hx, hread, hreq.2, ← h.oldest, ← hreq.1]
            rfl
  · next r rest hrx htx =>
      split at hs
      · rw [← hs] at hinv ⊢
        refine ⟨hinv, ?_, by simpa using h.answer⟩
        exact (update_oldest t.table r.qpn (s := { t.table r.qpn with reqNextPsn := r.psn }) rfl).trans h.oldest
      · rw [← hs] at hinv ⊢
        exact ⟨hinv, h.oldest, by simpa using h.answer⟩
  · next r rest hrx htx hqpi =>
      have hne := h.inv.qpi r (by rw [hqpi]; exact List.mem_cons_self)
      split at hs
      · next hw =>
          rw [← hs] at hinv ⊢
          refine ⟨hinv, ?_, by simpa using h.answer⟩
          simp only [Function.update_of_ne (hne hw).symm]
          exact h.oldest
      · rw [← hs] at hinv ⊢
        exact ⟨hinv, h.oldest, by simpa using h.answer⟩
  · rw [← hs] at hinv ⊢
    exact ⟨hinv, h.oldest, by simpa using h.answer⟩

theorem Window.rxIbhFsm (h : Window q e t) (hs : t.step q .rxIbhFsm = some u) : Window q e u := by
  have hinv := inv_step h.inv hs
  have hclient := h.inv.client
  simp only [step, Option.some.injEq] at hs
  have htable : u.table = t.table := by rw [← hs]
  refine ⟨hinv, by rw [htable]; exact h.oldest, ?_⟩
  cases hst : t.fsm.fsmState with
  | LOAD =>
    -- no answer is waiting before the read
    rw [hst] at hclient
    have hrsp : u.rsp = [] := by
      rw [← hs]
      have hnil := hclient.rsps_eq_nil
      cases hp : t.packets <;> simp [Roce.rxIbhFsm, hst, hnil]
    rw [hrsp]
    exact fun r hr => (List.not_mem_nil hr).elim
  | PROCESS =>
    cases hrsp : t.rsp with
    | nil =>
      have : u.rsp = [] := by
        rw [← hs]
        simp [Roce.rxIbhFsm, hst, hrsp]
      rw [this]
      exact fun r hr => (List.not_mem_nil hr).elim
    | cons r rs =>
      rw [hrsp] at hclient
      have : u.rsp = [] := by
        rw [← hs]
        simp [Roce.rxIbhFsm, hst, hrsp, hclient.take.2.2]
      rw [this]
      exact fun r hr => (List.not_mem_nil hr).elim

theorem window_step {l : ResponderLabel} (h : Window q e t) (hs : t.step q l = some u) : Window q e u := by
  cases l with
  | arrive | tx =>
    have hinv := inv_step h.inv hs
    cases hs
    exact ⟨hinv, h.oldest, h.answer⟩
  | qpi r =>
    have hinv := inv_step h.inv hs
    simp only [step] at hs
    split at hs
    · cases hs
    · cases hs
      exact ⟨hinv, h.oldest, h.answer⟩
  | rxIbhFsm => exact h.rxIbhFsm hs
  | stateTable => exact h.stateTable hs

/-! ## Main result -/

/-- A number that was taken `d` numbers ago is still in the window when `d` numbers were taken since
`resp_epsn` went round. -/
theorem window_wraps {n d : Nat} (h0 : 0 < d) (hd : d ≤ 2 ^ 23) (hn : d ≤ n) :
    (n - d) % 2 ^ 24 < n % 2 ^ 24 ↔ d ≤ n % 2 ^ 24 := by
  omega

theorem sub_start (e : BitVec 24) (n : Nat) : (e + BitVec.ofNat 24 n - e).toNat = n % 2 ^ 24 := by
  rw [BitVec.add_comm, BitVec.add_sub_cancel, BitVec.toNat_ofNat]

/-- A request whose number was accepted among the last `2^23` ones is taken for a duplicate exactly when as many
numbers were accepted since `resp_epsn` last passed the first one; else it is taken for an invalid one. -/
theorem duplicate_window (h₀ : Connected q e t₀) (hold : (t₀.table q).respOldOutstanding = e)
    (h : Reach (step q) anyStep t₀ t) {r : RxStateRsp} {rs : List RxStateRsp} (hst : t.fsm.fsmState = .PROCESS)
    (hrsp : t.rsp = r :: rs) (hq : t.current.isRequest q = true) {d : Nat} (hpos : 0 < d) (hd : d ≤ 2 ^ 23)
    (hn : d ≤ t.taken q) (hpsn : t.current.ibh.psn = e + BitVec.ofNat 24 (t.taken q - d)) :
    (t.current.decide r = processDuplicate t.current.ibh ↔ d ≤ t.taken q % 2 ^ 24) ∧
      (t.taken q % 2 ^ 24 < d → t.current.decide r = processInvalid t.current.ibh false r) := by
  have hwin : Window q e t := by
    refine h.invariant ⟨h₀.inv, hold, ?_⟩ fun u l v hu _ hs => window_step hu hs
    rw [h₀.rsp]
    exact fun r hr => (List.not_mem_nil hr).elim
  have hmem : r ∈ t.rsp := by rw [hrsp]; exact List.mem_cons_self
  have hclient := hwin.inv.client
  rw [hrsp] at hclient
  have hepsn : r.epsn = e + BitVec.ofNat 24 (t.taken q) := by
    rw [hwin.inv.answer r hmem hq, hwin.inv.epsn, BitVec.ofNat_add, BitVec.ofNat_toNat, BitVec.setWidth_eq]
    rfl
  have hdup : duplicate t.current.ibh r = true ↔ d ≤ t.taken q % 2 ^ 24 := by
    rw [duplicate_iff, hwin.answer r hmem hq, hepsn, hpsn, sub_start, sub_start]
    exact window_wraps hpos hd hn
  simp only [Packet.isRequest, Bool.and_eq_true, Bool.not_eq_true'] at hq
  have hack : t.current.ibh.opCode ≠ RC_ACK := by
    intro hop
    rw [hop] at hq
    cases hq.2
  have hin : inOrder t.current.ibh r = false := by
    rw [inOrder, Bool.or_eq_false_iff, beq_eq_false_iff_ne, beq_eq_false_iff_ne]
    refine ⟨?_, hack⟩
    rw [hepsn, hpsn, ne_eq, BitVec.add_right_inj]
    exact ofNat_ne (by omega) (by omega) (by omega)
  have hdec : t.current.decide r = if duplicate t.current.ibh r then processDuplicate t.current.ibh
      else processInvalid t.current.ibh false r := by
    rw [Packet.decide, process, hin, hq.2]
    rfl
  refine ⟨⟨fun heq => ?_, fun hle => ?_⟩, fun hlt => ?_⟩
  · rw [← hdup]
    by_contra hno
    rw [hdec, if_neg hno] at heq
    refine processInvalid_writes hack false r ?_
    rw [heq]
    exact processDuplicate_writes _
  · rw [hdec, if_pos (hdup.mpr hle)]
  · rw [hdec, if_neg]
    rw [hdup]
    omega

theorem connected_oldest : (connected.table 3).respOldOutstanding = 0xFFFFFF := rfl

/-- The next packet arrives and its state is read. -/
def arriveAgain (opCode : IbOpCode) (psn : BitVec 24) : List ResponderLabel :=
  [.arrive { ibh := ⟨opCode, 0, 3, psn, true, 1⟩, length := 64 }, .rxIbhFsm, .stateTable]

-- A write is received twice.
theorem duplicate_window_write : ∃ t r, Reach (step 3) anyStep connected t ∧ t.rsp = [r] ∧
    t.current.ibh.opCode = RC_RDMA_WRITE_ONLY ∧ t.current.decide r = processDuplicate t.current.ibh := by
  have hrun : (run (step 3) connected (receive RC_RDMA_WRITE_ONLY 0xFFFFFF 64 ++
      arriveAgain RC_RDMA_WRITE_ONLY 0xFFFFFF)).map
      (fun t => ((t.fsm.fsmState, t.current.ibh), t.rsp, t.taken 3)) =
        some ((.PROCESS, ⟨RC_RDMA_WRITE_ONLY, 0, 3, 0xFFFFFF, true, 1⟩), [⟨0, 0xFFFFFF, 0, 7⟩], 1) := by
    decide +kernel
  obtain ⟨t, ht, hval⟩ := Option.map_eq_some_iff.mp hrun
  obtain ⟨hfsm, hval⟩ := Prod.mk.inj hval
  obtain ⟨hst, hibh⟩ := Prod.mk.inj hfsm
  obtain ⟨hrsp, htaken⟩ := Prod.mk.inj hval
  have hreach := reach_of_run ht
  have hwin := duplicate_window connected_connected connected_oldest hreach hst hrsp
    (by rw [Packet.isRequest, Packet.qpn, hibh]; rfl) Nat.one_pos (by decide) (by rw [htaken])
    (by rw [hibh, htaken]; rfl)
  exact ⟨t, _, hreach, hrsp, by rw [hibh], hwin.1.mpr (by rw [htaken]; decide)⟩

/-- Sixteen read requests that take `2^20` numbers each. -/
def wholeTurn : List ResponderLabel :=
  (List.range 16).flatMap fun i =>
    receive RC_RDMA_READ_REQUEST (0xFFFFFF + BitVec.ofNat 24 (i * 2 ^ 20)) 0xFFFFFFFF

-- The number space was passed once; the last request is received again and answered by a NAK.
theorem duplicate_after_wrap : ∃ t r, Connected 3 0xFFFFFF connected ∧ Reach (step 3) anyStep connected t ∧
    t.rsp = [r] ∧ t.taken 3 = 2 ^ 24 ∧ ((t.accepted 3).getLast?.map fun p => p.ibh) = some t.current.ibh ∧
    (t.current.decide r).ibhEventFifo = [⟨3, 0xFFFFFF, true, true⟩] ∧
    (t.current.decide r).ibhDropMetaFifo = [⟨true, false⟩] := by
  have hrun : (run (step 3) connected (wholeTurn ++ arriveAgain RC_RDMA_READ_REQUEST 0xEFFFFF)).map
      (fun t => ((t.rsp, t.taken 3), (t.accepted 3).getLast?.map fun p => p.ibh, t.current.ibh)) =
        some (([⟨0xFFFFFF, 0xFFFFFF, 0xFFFFFF, 7⟩], 2 ^ 24), some ⟨RC_RDMA_READ_REQUEST, 0, 3, 0xEFFFFF, true, 1⟩,
          ⟨RC_RDMA_READ_REQUEST, 0, 3, 0xEFFFFF, true, 1⟩) := by
    decide +kernel
  obtain ⟨t, ht, hval⟩ := Option.map_eq_some_iff.mp hrun
  obtain ⟨hfst, hval⟩ := Prod.mk.inj hval
  obtain ⟨hrsp, htaken⟩ := Prod.mk.inj hfst
  obtain ⟨hlast, hibh⟩ := Prod.mk.inj hval
  refine ⟨t, _, connected_connected, reach_of_run ht, hrsp, htaken, by rw [hlast, hibh], ?_, ?_⟩
  · unfold Packet.decide
    rw [hibh]
    rfl
  · unfold Packet.decide
    rw [hibh]
    rfl

end ResponderNet

end FpgaNetworkStack.Roce
