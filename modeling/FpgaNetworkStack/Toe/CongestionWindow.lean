import FpgaNetworkStack.Toe.SendWindow

/-!
# The bounds of the congestion window

`rxTcpFSM` reads the window, lets it grow and writes it back, while `metaLoader` may set it back to its initial value.
Every value on its way is at least the one in the table, so an acknowledgement never makes the window smaller.
-/

namespace FpgaNetworkStack.Toe

open Lib EventType SessionState

variable {b : Build} {sid : SessionID}

/-! ## The two rules -/

/-- The window is at least the initial one, and the threshold at least two segments. -/
structure Sound (b : Build) (congWindow slowstartThreshold : BitVec b.windowBits) : Prop where
  window : 0x3908 ≤ congWindow.toNat
  threshold : 2 * b.mss.toNat ≤ slowstartThreshold.toNat

/-- By how much a new acknowledgement opens the window. -/
def growth (b : Build) (r : RxTxSarReply b) : Nat :=
  if (r.congWindow.toNat : Int) ≤ r.slowstartThreshold.toNat - b.mss.toNat then b.mss.toNat
  else if r.congWindow.toNat ≤ b.congestionWindowMax then 365
  else 0

theorem toNat_ofNat_window (n : Nat) (hn : n < 2 ^ 16) : (BitVec.ofNat b.windowBits n).toNat = n := by
  have hle : 2 ^ 16 ≤ 2 ^ b.windowBits := Nat.pow_le_pow_right (by decide) b.le_windowBits
  rw [BitVec.toNat_ofNat]
  exact Nat.mod_eq_of_lt (by omega)

theorem toNat_initialCongWindow : (initialCongWindow b).toNat = 0x3908 := toNat_ofNat_window _ (by decide)

/-- The new window is the sum: it does not wrap. -/
theorem growCongWindow_toNat (r : RxTxSarReply b) :
    (growCongWindow b r).toNat = r.congWindow.toNat + growth b r := by
  have hwindow := r.slowstartThreshold.isLt
  have hsize : b.bufferSize = 2 ^ b.windowBits := rfl
  have hbig : 2 ^ 16 ≤ 2 ^ b.windowBits := Nat.pow_le_pow_right (by decide) b.le_windowBits
  unfold growCongWindow growth
  by_cases hslow : (r.congWindow.toNat : Int) ≤ r.slowstartThreshold.toNat - b.mss.toNat
  · -- up to the threshold
    have hmss := b.mss.isLt
    rw [if_pos hslow, if_pos hslow, BitVec.toNat_add, BitVec.toNat_setWidth,
      Nat.mod_eq_of_lt (show b.mss.toNat < 2 ^ b.windowBits by omega)]
    exact Nat.mod_eq_of_lt (by omega)
  · rw [if_neg hslow, if_neg hslow]
    by_cases hmax : r.congWindow.toNat ≤ b.congestionWindowMax
    · have hstep : ((365 : BitVec b.windowBits)).toNat = 365 := toNat_ofNat_window 365 (by decide)
      unfold Build.congestionWindowMax at hmax
      rw [if_pos (by unfold Build.congestionWindowMax; exact hmax),
        if_pos (by unfold Build.congestionWindowMax; exact hmax), BitVec.toNat_add, hstep]
      exact Nat.mod_eq_of_lt (by omega)
    · rw [if_neg hmax, if_neg hmax]
      rfl

/-- A transition makes at most one request, and it writes the window that was read or a larger one. -/
theorem transition_congWindow (e : RxTcpFsmEnv b) (m : RxFsmMetaData) (tcpState : SessionState)
    (rxSar : RxSarEntry b) (r : RxTxSarReply b) :
    (transition b e m tcpState rxSar r).rxEng2txSarUpdReq = [] ∨
      ∃ q, (transition b e m tcpState rxSar r).rxEng2txSarUpdReq = [q] ∧ q.sessionID = m.sessionID ∧
        (controlBits m.metaData = .syn ∨
          m.metaData.ack = true ∧ r.congWindow.toNat ≤ q.congWindow.toNat) := by
  unfold transition
  cases hc : controlBits m.metaData with
  | ack =>
    have hack := controlBits_ack (by rw [hc]; decide) (by rw [hc]; decide)
    simp only [transitionAck]
    split
    · simp only
      split
      · right
        refine ⟨_, rfl, rfl, .inr ⟨hack, ?_⟩⟩
        show _ ≤ (ackTxSar b m r).congWindow.toNat
        unfold ackTxSar
        split
        · split <;> exact Nat.le_refl _
        · show _ ≤ (growCongWindow b r).toNat
          rw [growCongWindow_toNat]
          omega
      · left
        rfl
    · left
      rfl
  | syn =>
    simp only [transitionSyn]
    split
    · right
      exact ⟨_, rfl, rfl, .inl trivial⟩
    · left
      split_ifs <;> rfl
  | synAck =>
    have hack := controlBits_ack (by rw [hc]; decide) (by rw [hc]; decide)
    simp only [transitionSynAck]
    split
    · right
      exact ⟨_, rfl, rfl, .inr ⟨hack, Nat.le_refl _⟩⟩
    · left
      split_ifs <;> rfl
  | fin =>
    have hack := controlBits_ack (by rw [hc]; decide) (by rw [hc]; decide)
    simp only [transitionFin]
    split
    · right
      exact ⟨_, rfl, rfl, .inr ⟨hack, Nat.le_refl _⟩⟩
    · left
      rfl
  | other =>
    left
    simp only [transitionOther]
    split_ifs <;> rfl

theorem mlRt_threshold (hmss : 2 * b.mss.toNat ≤ 0xFFFF) (sid : SessionID) (currLength : BitVec b.windowBits) :
    2 * b.mss.toNat ≤ ((TxTxSarQuery.rt b sid (if 4 * b.mss.toNat < currLength.toNat then currLength >>> 1
      else BitVec.ofNat _ (2 * b.mss.toNat))).getThreshold b).toNat := by
  rw [TxTxSarQuery.getThreshold, TxTxSarQuery.rt, BitVec.setWidth_setWidth_of_le _ b.windowBits_le,
    BitVec.setWidth_eq]
  split
  · next hflight =>
      rw [BitVec.toNat_ushiftRight, Nat.shiftRight_eq_div_pow]
      omega
  · rw [toNat_ofNat_window _ (by omega)]

/-- A handler sets the window back only in the first call for a first time-out. -/
theorem handle_resets (hmss : 2 * b.mss.toNat ≤ 0xFFFF) (s : MetaLoader b) (rxSar : RxSarReply)
    (r : TxTxSarReply b) :
    (∀ q ∈ (s.handle rxSar r).2.txEng2txSarUpdReq, q.isRtQuery = false) ∨
      s.mlCurEvent.type = RT ∧ s.mlCurEvent.rtCount = 1 ∧ s.mlSarLoaded = false ∧
        ∃ q, (s.handle rxSar r).2.txEng2txSarUpdReq = [q] ∧ q.sessionID = s.mlCurEvent.sessionID ∧
          2 * b.mss.toNat ≤ (q.getThreshold b).toNat := by
  unfold MetaLoader.handle
  cases he : s.mlCurEvent.type with
  | RT =>
    simp only [mlRt]
    split
    · next hfirst =>
        rw [Bool.and_eq_true, Bool.not_eq_true', beq_iff_eq] at hfirst
        exact .inr ⟨trivial, hfirst.2, hfirst.1, _, rfl, rfl, mlRt_threshold hmss _ _⟩
    · left
      simp
  | TX =>
    left
    simp [mlTx, TxTxSarQuery.update]
  | FIN =>
    left
    simp only [mlFin]
    split <;> simp [TxTxSarQuery.update]
  | SYN =>
    left
    simp only [mlSyn, mlOpen]
    split <;> simp [TxTxSarQuery.update]
  | SYN_ACK =>
    left
    simp only [mlSynAck, mlOpen]
    split <;> simp [TxTxSarQuery.update]
  | ACK | ACK_NODELAY =>
    left
    simp [mlAck, mlSegment]
  | RST =>
    left
    intro q hq
    simp only at hq
    split at hq <;> cases hq

/-! ## The invariant -/

/-- The windows of `sid` that wait to be written. -/
def pendingWindows (sid : SessionID) (reqs : List (RxTxSarQuery b)) : List Nat :=
  (reqs.filter fun q => q.write && q.sessionID == sid).map (·.congWindow.toNat)

theorem pendingWindows_append (reqs reqs' : List (RxTxSarQuery b)) :
    pendingWindows sid (reqs ++ reqs') = pendingWindows sid reqs ++ pendingWindows sid reqs' := by
  rw [pendingWindows, List.filter_append, List.map_append]
  rfl

theorem pendingWindows_skip {reqs : List (RxTxSarQuery b)}
    (h : ∀ q ∈ reqs, ¬(q.write = true ∧ q.sessionID = sid)) : pendingWindows sid reqs = [] := by
  rw [pendingWindows, List.filter_eq_nil_iff.mpr fun q hq => by simpa using h q hq]
  rfl

theorem pendingWindows_cons {q : RxTxSarQuery b} (hw : q.write = true) (hid : q.sessionID = sid)
    (reqs : List (RxTxSarQuery b)) :
    pendingWindows sid (q :: reqs) = q.congWindow.toNat :: pendingWindows sid reqs := by
  rw [pendingWindows, List.filter_cons_of_pos (by simp [hw, hid])]
  rfl

/-- The update for a time-out of `sid`: it sets the window back. -/
def TxTxSarQuery.resets (sid : SessionID) (q : TxTxSarQuery) : Bool :=
  q.write && q.isRtQuery && q.sessionID == sid

namespace SendNet

/-- The updates for time-outs of `sid` that the table has not served yet. -/
def waitingResets (sid : SessionID) (t : SendNet b) : Nat := t.tx.txReq.countP (TxTxSarQuery.resets sid)

/-- `metaLoader` is about to work on the first time-out of `sid`: the segment is not one that follows in the burst. -/
def firstTimeout (sid : SessionID) (t : SendNet b) : Bool :=
  t.tx.ml.mlFsmState == .WORK && t.tx.ml.mlCurEvent.type == RT && t.tx.ml.mlCurEvent.rtCount == 1 &&
    !t.tx.ml.mlSarLoaded && t.tx.ml.mlCurEvent.sessionID == sid

/-- From the table through the pending writes the window of `sid` only grows, and what `rxTcpFSM` has read is not larger
than what is to be written. -/
structure Congested (sid : SessionID) (t : SendNet b) : Prop where
  entry : Sound b (t.entry sid).congWindow (t.entry sid).slowstartThreshold
  reset : ∀ q ∈ t.tx.txReq, q.resets sid = true → 2 * b.mss.toNat ≤ (q.getThreshold b).toNat
  pending : ((t.entry sid).congWindow.toNat :: pendingWindows sid t.rx.txSarReq).Pairwise (· ≤ ·)
  reply : ∀ r ∈ t.rx.fifo.txSar2rxEngUpdRsp, t.rx.fsm.fsmMeta.sessionID = sid →
    Sound b r.congWindow r.slowstartThreshold ∧ (t.entry sid).congWindow.toNat ≤ r.congWindow.toNat

/-- The segment that `rxTcpFSM` works on is not a bare SYN of `sid`. -/
def ackSegment (sid : SessionID) (t : SendNet b) : SendLabel b → Bool
  | .rx (.call _) => t.rx.fsm.fsmState != .TRANSITION || t.rx.fsm.fsmMeta.sessionID != sid ||
      controlBits t.rx.fsm.fsmMeta.metaData != .syn
  | _ => true

variable {t : SendNet b}

theorem Congested.rxSame {rx : FsmNet b} (h : Congested sid t) (hfsm : rx.fsm = t.rx.fsm)
    (hreq : rx.txSarReq = t.rx.txSarReq) (hrsp : rx.fifo.txSar2rxEngUpdRsp = t.rx.fifo.txSar2rxEngUpdRsp) :
    Congested sid { t with rx } := by
  refine ⟨h.entry, h.reset, ?_, ?_⟩
  · show (_ :: pendingWindows sid rx.txSarReq).Pairwise _
    rw [hreq]
    exact h.pending
  · show ∀ r ∈ rx.fifo.txSar2rxEngUpdRsp, rx.fsm.fsmMeta.sessionID = sid → _
    rw [hfsm, hrsp]
    exact h.reply

theorem Congested.rxCall {rx : FsmNet b} {e : RxTcpFsmEnv b} (h : Congested sid t)
    (he : Engines sid t) (hok : t.ackSegment sid (.rx (.call e)) = true) (hs : t.rx.step (.call e) = some rx) :
    Congested sid { t with rx } := by
  rcases call_cases t.rx rx e hs with ⟨hfsm, hreq, hrsp⟩ | ⟨m, hL, hT, hm, hreq, hrsp⟩ |
    ⟨tcpState, states, rxSar, entries, hT, hst, hent, hr, hL, hm, hreq, hrsp⟩
  · exact h.rxSame hfsm hreq hrsp
  · -- a read is added, and no answer is there
    have hquiet : rxAsks t.rx.fsm = false := by simp [rxAsks, hL]
    have hc := he.client
    rw [hquiet] at hc
    refine ⟨h.entry, h.reset, ?_, ?_⟩
    · show (_ :: pendingWindows sid rx.txSarReq).Pairwise _
      have hread : pendingWindows sid (if m.metaData.ack then [RxTxSarQuery.read b m.sessionID] else []) = [] := by
        apply pendingWindows_skip
        intro q hq
        split at hq
        · simp [List.mem_singleton.mp hq, RxTxSarQuery.read]
        · cases hq
      rw [hreq, pendingWindows_append, hread, List.append_nil]
      exact h.pending
    · show ∀ r ∈ rx.fifo.txSar2rxEngUpdRsp, _
      rw [hrsp, hc.rsps_eq_nil]
      exact fun r hr => (List.not_mem_nil hr).elim
  · rw [(takeTxSar_ready e he.rx hT hr).1] at hrsp
    refine ⟨h.entry, h.reset, ?_, ?_⟩
    · show (_ :: pendingWindows sid rx.txSarReq).Pairwise _
      rw [hreq]
      have hcases := transition_congWindow e t.rx.fsm.fsmMeta tcpState rxSar
        (takeTxSar b e t.rx.fsm.fsmMeta.metaData t.rx.fifo.txSar2rxEngUpdRsp).1
      rcases hcases with hnone | ⟨q, hone, hsid, hq⟩
      · rw [hnone, List.append_nil]
        exact h.pending
      · rw [hone]
        by_cases hid : q.write = true ∧ q.sessionID = sid
        · have hmeta : t.rx.fsm.fsmMeta.sessionID = sid := hsid.symm.trans hid.2
          have hnosyn : controlBits t.rx.fsm.fsmMeta.metaData ≠ .syn := by
            simpa [ackSegment, hT, hmeta] using hok
          rcases hq with hsyn | ⟨hack, hle⟩
          · exact absurd hsyn hnosyn
          · -- the window was read, and no update has been queued since
            rcases he.ready hT hr with ⟨-, hnil, r, hrsp'⟩ | ⟨hnoack, -, -⟩
            · rw [hrsp', takeTxSar_singleton e _ r hack] at hle
              obtain ⟨-, hentry⟩ := h.reply r (by rw [hrsp']; exact List.mem_singleton.mpr rfl) hmeta
              rw [hnil, List.nil_append, pendingWindows_cons hid.1 hid.2]
              refine List.pairwise_cons.mpr ⟨?_, List.pairwise_singleton _ _⟩
              intro n hn
              rw [List.mem_singleton.mp hn]
              exact Nat.le_trans hentry hle
            · rw [hack] at hnoack
              cases hnoack
        · have hskip : pendingWindows sid [q] = [] :=
            pendingWindows_skip fun q' hq' => List.mem_singleton.mp hq' ▸ hid
          rw [pendingWindows_append, hskip, List.append_nil]
          exact h.pending
    · show ∀ r ∈ rx.fifo.txSar2rxEngUpdRsp, _
      rw [hrsp]
      exact fun r hr => (List.not_mem_nil hr).elim

/-- What one step may do to the window of `sid`: it gets smaller only when the table serves the update of a time-out,
which sets it back to the initial value, and only the first call for a first time-out makes such an update. -/
structure Controlled (sid : SessionID) (t : SendNet b) (l : SendLabel b) (u : SendNet b) : Prop where
  window : (t.entry sid).congWindow.toNat ≤ (u.entry sid).congWindow.toNat ∨
    (u.entry sid).congWindow = initialCongWindow b ∧ u.waitingResets sid + 1 = t.waitingResets sid
  reset : u.waitingResets sid ≤ t.waitingResets sid ∨
    l = .metaLoader ∧ t.firstTimeout sid = true ∧ u.waitingResets sid = t.waitingResets sid + 1

theorem Controlled.same {t u : SendNet b} {l : SendLabel b} (hreq : u.tx.txReq = t.tx.txReq)
    (hwindow : (u.entry sid).congWindow = (t.entry sid).congWindow) : Controlled sid t l u := by
  refine ⟨.inl ?_, .inl ?_⟩
  · rw [hwindow]
  · rw [waitingResets, waitingResets, hreq]

theorem Congested.metaLoader (hmss : 2 * b.mss.toNat ≤ 0xFFFF) (h : Congested sid t)
    (he : Engines sid t) : Congested sid { t with tx := t.tx.callMl.1 } ∧
      Controlled sid t .metaLoader { t with tx := t.tx.callMl.1 } := by
  have hcalled := he.tx.called
  generalize t.tx.callMl = u at hcalled
  -- requests that are no resets
  have quiet (u : TxNet b) (ws : List TxTxSarQuery) (htable : u.table = t.tx.table)
      (hreq : u.txReq = t.tx.txReq ++ ws) (hws : ∀ q ∈ ws, q.isRtQuery = false) :
      Congested sid { t with tx := u } ∧ Controlled sid t .metaLoader { t with tx := u } := by
    have hentry : SendNet.entry { t with tx := u } sid = t.entry sid := congrFun htable sid
    have hnone : ws.countP (TxTxSarQuery.resets sid) = 0 := by
      rw [List.countP_eq_zero]
      intro q hq
      simp [TxTxSarQuery.resets, hws q hq]
    refine ⟨⟨?_, ?_, ?_, ?_⟩, .inl ?_, .inl ?_⟩
    · rw [hentry]
      exact h.entry
    · show ∀ q ∈ u.txReq, _
      rw [hreq]
      intro q hq hreset
      rcases List.mem_append.mp hq with hq | hq
      · exact h.reset q hq hreset
      · simp [TxTxSarQuery.resets, hws q hq] at hreset
    · rw [hentry]
      exact h.pending
    · rw [hentry]
      exact h.reply
    · rw [hentry]
    · show u.txReq.countP _ ≤ _
      rw [hreq, List.countP_append, hnone]
      exact Nat.le_refl _
  cases hcalled with
  | idle ml hml => exact quiet _ [] rfl (List.append_nil _).symm fun q hq => (List.not_mem_nil hq).elim
  | take e rest ml hI hev hW hcur hl =>
    refine quiet _ _ rfl rfl ?_
    intro q hq
    rw [TxNet.mlRequests_asks e ml hcur hl] at hq
    split at hq
    · rw [List.mem_singleton.mp hq]
      rfl
    · cases hq
  | work rxSar r fifo hW ht hr =>
    rcases handle_resets hmss t.tx.ml rxSar r with hnone | ⟨htype, hcount, hloaded, q, hone, hid, hthreshold⟩
    · exact quiet _ _ rfl rfl hnone
    · refine ⟨{ h with reset := ?_ }, .inl (Nat.le_refl _), ?_⟩
      · intro q' hq' hreset
        rcases List.mem_append.mp hq' with hq' | hq'
        · exact h.reset q' hq' hreset
        · rw [hone, List.mem_singleton] at hq'
          rw [hq']
          exact hthreshold
      · show List.countP _ (t.tx.txReq ++ (t.tx.ml.handle rxSar r).2.txEng2txSarUpdReq) ≤ _ ∨ _ ∧ _ ∧
          List.countP _ (t.tx.txReq ++ (t.tx.ml.handle rxSar r).2.txEng2txSarUpdReq) = _
        rw [hone, List.countP_append, List.countP_singleton]
        split
        · next hreset =>
            right
            refine ⟨rfl, ?_, rfl⟩
            simp only [TxTxSarQuery.resets, Bool.and_eq_true, beq_iff_eq] at hreset
            simp [firstTimeout, hW, htype, hcount, hloaded, ← hid, hreset.2]
        · left
          exact Nat.le_refl _

theorem Congested.table (h : Congested sid t) (he : Engines sid t) :
    Congested sid (t.served (t.tx.callTable t.rx.txSarReq)) ∧
      Controlled sid t .txSarTable (t.served (t.tx.callTable t.rx.txSarReq)) := by
  have hs := t.tx.served t.rx.txSarReq
  generalize t.tx.callTable t.rx.txSarReq = u at hs
  have hc := he.client
  -- the entry shows the same window and threshold, and no reset is served
  have stay (u : TxNet b) (hsub : ∀ q ∈ u.txReq, q ∈ t.tx.txReq)
      (hcount : u.txReq.countP (TxTxSarQuery.resets sid) = t.waitingResets sid)
      (hwindow : (u.table sid).congWindow = (t.entry sid).congWindow)
      (hthreshold : (u.table sid).slowstartThreshold = (t.entry sid).slowstartThreshold) :
      Congested sid { t with tx := u } ∧ Controlled sid t .txSarTable { t with tx := u } := by
    refine ⟨⟨?_, fun q hq => h.reset q (hsub q hq), ?_, ?_⟩, .inl ?_, .inl ?_⟩
    · show Sound b (u.table sid).congWindow (u.table sid).slowstartThreshold
      rw [hwindow, hthreshold]
      exact h.entry
    · show ((u.table sid).congWindow.toNat :: _).Pairwise _
      rw [hwindow]
      exact h.pending
    · show ∀ r ∈ _, _ → _ ∧ (u.table sid).congWindow.toNat ≤ _
      rw [hwindow]
      exact h.reply
    · show _ ≤ (u.table sid).congWindow.toNat
      rw [hwindow]
    · exact Nat.le_of_eq hcount
  cases hs with
  | txWrite q rest hq hw =>
    have hsub : ∀ q' ∈ rest, q' ∈ t.tx.txReq := fun q' hq' => hq ▸ List.mem_cons_of_mem q hq'
    simp only [served, List.append_nil]
    by_cases hreset : q.resets sid = true
    · have hcount : rest.countP (TxTxSarQuery.resets sid) + 1 = t.waitingResets sid := by
        rw [waitingResets, hq, List.countP_cons_of_pos hreset]
      have hbits := hreset
      simp only [TxTxSarQuery.resets, Bool.and_eq_true, beq_iff_eq] at hbits
      have hnew : Function.update t.tx.table q.sessionID ((t.tx.table q.sessionID).txEngUpdate q) sid =
          { t.entry sid with slowstartThreshold := q.getThreshold b, congWindow := initialCongWindow b } := by
        rw [entry_update (f := fun entry => entry.txEngUpdate q), if_pos hbits.2]
        simp [TxSarEntry.txEngUpdate, hbits.1.2]
      have hwindow := h.entry.window
      have hpending := List.pairwise_cons.mp h.pending
      refine ⟨⟨?_, fun q' hq' => h.reset q' (hsub q' hq'), ?_, ?_⟩, .inr ⟨?_, hcount⟩, .inl ?_⟩
      · show Sound b (Function.update t.tx.table _ _ sid).congWindow
          (Function.update t.tx.table _ _ sid).slowstartThreshold
        rw [hnew]
        exact ⟨Nat.le_of_eq toNat_initialCongWindow.symm, h.reset q (hq ▸ List.mem_cons_self) hreset⟩
      · show ((Function.update t.tx.table _ _ sid).congWindow.toNat :: _).Pairwise _
        rw [hnew]
        refine List.pairwise_cons.mpr ⟨fun n hn => ?_, hpending.2⟩
        have hle := hpending.1 n hn
        show (initialCongWindow b).toNat ≤ n
        rw [toNat_initialCongWindow]
        change (t.entry sid).congWindow.toNat ≤ n at hle
        omega
      · intro r hr hmeta
        obtain ⟨hsound, -⟩ := h.reply r hr hmeta
        refine ⟨hsound, ?_⟩
        show (Function.update t.tx.table _ _ sid).congWindow.toNat ≤ _
        rw [hnew]
        show (initialCongWindow b).toNat ≤ _
        rw [toNat_initialCongWindow]
        exact hsound.window
      · show (Function.update t.tx.table _ _ sid).congWindow = _
        rw [hnew]
      · show rest.countP _ ≤ _
        omega
    · have hcount : rest.countP (TxTxSarQuery.resets sid) = t.waitingResets sid := by
        rw [waitingResets, hq, List.countP_cons_of_neg hreset]
      by_cases hid : q.sessionID = sid
      · have hrt : q.isRtQuery = false := by
          simpa [TxTxSarQuery.resets, hw, hid] using hreset
        have hinit := he.once q (hq ▸ List.mem_cons_self) (by simp [TxTxSarQuery.moves, hw, hid, hrt])
        refine stay _ hsub hcount ?_ ?_
        · dsimp only
          rw [entry_update (f := fun entry => entry.txEngUpdate q), if_pos hid]
          simp [TxSarEntry.txEngUpdate, hrt, hinit]
        · dsimp only
          rw [entry_update (f := fun entry => entry.txEngUpdate q), if_pos hid]
          simp [TxSarEntry.txEngUpdate, hrt, hinit]
      · refine stay _ hsub hcount ?_ ?_
        · dsimp only
          rw [entry_update (f := fun entry => entry.txEngUpdate q), if_neg hid]
        · dsimp only
          rw [entry_update (f := fun entry => entry.txEngUpdate q), if_neg hid]
  | txRead q rest hq hw =>
    simp only [served, List.append_nil]
    refine stay _ (fun q' hq' => hq ▸ List.mem_cons_of_mem q hq') ?_ rfl rfl
    rw [waitingResets, hq, List.countP_cons_of_neg (by simp [TxTxSarQuery.resets, hw])]
  | app push rest ht hp =>
    simp only [served, List.append_nil]
    refine stay { t.tx with
      table := Function.update t.tx.table push.sessionID { t.tx.table push.sessionID with app := push.app }
      appPush := rest } (fun q hq => hq) rfl ?_ ?_
    · dsimp only
      rw [entry_update (f := fun entry => { entry with app := push.app })]
      split <;> rfl
    · dsimp only
      rw [entry_update (f := fun entry => { entry with app := push.app })]
      split <;> rfl
  | rxWrite q rest ht hq hw =>
    have hpending := h.pending
    rw [hq] at hc hpending
    -- no reply is held while an update is pending
    have hrsp : t.rx.fifo.txSar2rxEngUpdRsp = [] := by
      cases hr : t.rx.fifo.txSar2rxEngUpdRsp with
      | nil => rfl
      | cons r rs =>
        rw [hr] at hc
        cases hc.take.2.1
    simp only [served, List.append_nil]
    by_cases hid : q.sessionID = sid
    · rw [pendingWindows_cons hw hid] at hpending
      obtain ⟨hle, htail⟩ := List.pairwise_cons.mp hpending
      have hgrown : (t.entry sid).congWindow.toNat ≤ q.congWindow.toNat := hle _ List.mem_cons_self
      have hnew : Function.update t.tx.table q.sessionID ((t.tx.table q.sessionID).rxEngUpdate q) sid =
          (t.entry sid).rxEngUpdate q := by
        rw [entry_update (f := fun entry => entry.rxEngUpdate q), if_pos hid]
      refine ⟨⟨?_, h.reset, ?_, ?_⟩, .inl ?_, .inl (Nat.le_refl _)⟩
      · show Sound b (Function.update t.tx.table _ _ sid).congWindow
          (Function.update t.tx.table _ _ sid).slowstartThreshold
        rw [hnew]
        exact ⟨Nat.le_trans h.entry.window hgrown, h.entry.threshold⟩
      · show ((Function.update t.tx.table _ _ sid).congWindow.toNat :: _).Pairwise _
        rw [hnew]
        exact htail
      · show ∀ r ∈ t.rx.fifo.txSar2rxEngUpdRsp, _
        rw [hrsp]
        exact fun r hr => (List.not_mem_nil hr).elim
      · show _ ≤ (Function.update t.tx.table _ _ sid).congWindow.toNat
        rw [hnew]
        exact hgrown
    · have hskip : pendingWindows sid (q :: rest) = pendingWindows sid rest := by
        rw [pendingWindows, List.filter_cons_of_neg (by simp [hid])]
        rfl
      rw [hskip] at hpending
      have hsame : Function.update t.tx.table q.sessionID ((t.tx.table q.sessionID).rxEngUpdate q) sid =
          t.entry sid := by
        rw [entry_update (f := fun entry => entry.rxEngUpdate q), if_neg hid]
      refine ⟨⟨?_, h.reset, ?_, ?_⟩, .inl ?_, .inl (Nat.le_refl _)⟩
      · show Sound b (Function.update t.tx.table _ _ sid).congWindow
          (Function.update t.tx.table _ _ sid).slowstartThreshold
        rw [hsame]
        exact h.entry
      · show ((Function.update t.tx.table _ _ sid).congWindow.toNat :: _).Pairwise _
        rw [hsame]
        exact hpending
      · show ∀ r ∈ t.rx.fifo.txSar2rxEngUpdRsp, _
        rw [hrsp]
        exact fun r hr => (List.not_mem_nil hr).elim
      · show _ ≤ (Function.update t.tx.table _ _ sid).congWindow.toNat
        rw [hsame]
  | rxRead q rest ht hq hw =>
    have hpending := h.pending
    rw [hq] at hc hpending
    obtain ⟨-, rfl, hrsp⟩ := hc.serve_read hw
    have hasked := he.asked q (hq ▸ List.mem_cons_self) hw
    refine ⟨⟨h.entry, h.reset, List.pairwise_singleton _ _, ?_⟩, .same rfl rfl⟩
    -- the reply shows the window as it is now
    intro r hr hmeta
    simp only [served, hrsp, List.nil_append, List.mem_singleton] at hr
    rw [hr, hasked, show t.rx.fsm.fsmMeta.sessionID = sid from hmeta]
    exact ⟨h.entry, Nat.le_refl _⟩
  | none ht hq =>
    simp only [served, List.append_nil]
    exact ⟨h, .same rfl rfl⟩

theorem Congested.step (hmss : 2 * b.mss.toNat ≤ 0xFFFF) {t u : SendNet b} {l : SendLabel b} (h : Congested sid t)
    (he : Engines sid t) (hok : t.ackSegment sid l = true) (hs : t.step sid l = some u) :
    Congested sid u ∧ Controlled sid t l u := by
  cases l with
  | rx l =>
    obtain ⟨rx, hrx, rfl, ⟨e, rfl⟩ | ⟨hfsm, hreq, hrsp⟩⟩ := rx_cases hs
    · exact ⟨h.rxCall he hok hrx, .same rfl rfl⟩
    · exact ⟨h.rxSame hfsm hreq hrsp, .same rfl rfl⟩
  | event e =>
    simp only [SendNet.step] at hs
    split at hs
    · cases hs
    · cases hs
      exact ⟨{ h with }, .same rfl rfl⟩
  | rxSarRsp | appPush =>
    cases hs
    exact ⟨{ h with }, .same rfl rfl⟩
  | metaLoader =>
    cases hs
    exact h.metaLoader hmss he
  | txSarTable =>
    cases hs
    exact h.table he

theorem Opened.congested (hmss : 2 * b.mss.toNat ≤ 0xFFFF) {n : BitVec 32} (h : Opened sid n t) :
    Congested sid t ∧ t.waitingResets sid = 0 := by
  obtain ⟨entry, hentry⟩ := h.entry
  have hnone : pendingWindows sid t.rx.txSarReq = [] :=
    pendingWindows_skip fun q hq hq' => h.rx q hq hq'.1 hq'.2
  have hreset : ∀ q ∈ t.tx.txReq, q.resets sid = false := by
    intro q hq
    rw [Bool.eq_false_iff]
    intro hr
    simp only [TxTxSarQuery.resets, Bool.and_eq_true, beq_iff_eq] at hr
    exact h.tx q hq hr.1.1 hr.2
  refine ⟨⟨?_, ?_, ?_, ?_⟩, ?_⟩
  · rw [hentry]
    refine ⟨Nat.le_of_eq toNat_initialCongWindow.symm, ?_⟩
    show _ ≤ (BitVec.ofNat b.windowBits 0xFFFF).toNat
    rw [toNat_ofNat_window _ (by decide)]
    exact hmss
  · intro q hq hr
    rw [hreset q hq] at hr
    cases hr
  · rw [hnone]
    exact List.pairwise_singleton _ _
  · intro r hr hmeta
    exact absurd hmeta (h.reply (List.ne_nil_of_mem hr))
  · rw [waitingResets, List.countP_eq_zero]
    exact fun q hq => by simp [hreset q hq]

/-! ## Main result -/

/-- In every run from the initialisation of a session: the window stays at or above its initial value and the
threshold at or above two segments, in the table and in every reply that `rxTcpFSM` works on, so that the comparison
with `slowstart_threshold - MSS` does not underflow and the sum of the growth does not wrap; an update that waits is not
smaller than the window; and the window gets smaller by the first time-out of a segment only. -/
theorem congestion_bounds (hmss : 2 * b.mss.toNat ≤ 0xFFFF) {n : BitVec 32} {t₀ t : SendNet b}
    (h₀ : Opened sid n t₀) (h : Reach (step sid) (fun t l => t.ackSegment sid l = true) t₀ t) :
    t₀.waitingResets sid = 0 ∧ Sound b (t.entry sid).congWindow (t.entry sid).slowstartThreshold ∧
      (∀ r ∈ t.rx.fifo.txSar2rxEngUpdRsp, t.rx.fsm.fsmMeta.sessionID = sid →
        Sound b r.congWindow r.slowstartThreshold ∧ b.mss.toNat ≤ r.slowstartThreshold.toNat ∧
          (growCongWindow b r).toNat = r.congWindow.toNat + growth b r) ∧
      (∀ q ∈ t.rx.txSarReq, q.write = true → q.sessionID = sid →
        (t.entry sid).congWindow.toNat ≤ q.congWindow.toNat) ∧
      ∀ l u, t.ackSegment sid l = true → t.step sid l = some u → Controlled sid t l u := by
  obtain ⟨he, hc⟩ : Engines sid t ∧ Congested sid t := by
    apply h.invariant (P := fun t => Engines sid t ∧ Congested sid t)
    · exact ⟨h₀.engines, (h₀.congested hmss).1⟩
    · intro u l v hu hok hs
      exact ⟨hu.1.step hs, (hu.2.step hmss hu.1 hok hs).1⟩
  refine ⟨(h₀.congested hmss).2, hc.entry, ?_, ?_, fun l u hok hs => (hc.step hmss he hok hs).2⟩
  · intro r hr hmeta
    obtain ⟨hsound, -⟩ := hc.reply r hr hmeta
    have hthreshold := hsound.threshold
    exact ⟨hsound, by omega, growCongWindow_toNat r⟩
  · intro q hq hw hid
    have hle := (List.pairwise_cons.mp hc.pending).1
    apply hle
    exact List.mem_map.mpr ⟨q, List.mem_filter.mpr ⟨hq, by simp [hw, hid]⟩, rfl⟩

/-- The first time-out of session 0, up to the table's update. -/
def timeout : List (SendLabel .sample) :=
  [.event { type := RT, sessionID := 0, length := 0, rtCount := 1, tuple := default }, .metaLoader, .txSarTable,
    .rxSarRsp default, .metaLoader, .txSarTable]

-- An acknowledgement opens the window by a segment, and a time-out sets it back.
theorem congestion_bounds_timeout :
    ∃ t, Reach (step 0) (fun t l => t.ackSegment 0 l = true) (opened .sample 0 1000) t ∧
      (t.entry 0).congWindow = 0x3908 ∧ Sound .sample (t.entry 0).congWindow (t.entry 0).slowstartThreshold := by
  have h : (runIf (step 0) (fun t l => t.ackSegment 0 l = true) (opened .sample 0 1000)
      (handshake ++ transmit ++ receive (segment 42 1010 false false) .ESTABLISHED 42 ++ [.txSarTable] ++
        transmit ++ timeout)).map (fun t => (t.entry 0).congWindow) = some 0x3908 := by
    decide +kernel
  obtain ⟨t, ht, hp⟩ := Option.map_eq_some_iff.mp h
  have hr := reach_of_runIf ht
  exact ⟨t, hr, hp, (congestion_bounds (by decide) (opened_opened 0 1000) hr).2.1⟩

end SendNet

end FpgaNetworkStack.Toe
