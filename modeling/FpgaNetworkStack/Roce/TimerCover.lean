import FpgaNetworkStack.Roce.AckRelease
import FpgaNetworkStack.Roce.RetransProgress
import FpgaNetworkStack.Roce.TimedRequests

/-!
# The timer covers what is stored

A stored request is sent again only when the timer of its queue pair runs out.  The timer is started by a packet
that goes out, so a queue pair with stored requests is covered by such a packet, by the running timer, or by a
timeout that is not served yet, until it has been tried often enough.
-/

namespace FpgaNetworkStack.Roce

open Lib IbOpCode

namespace IndexNet

/-! ## Stored and covered -/

/-- The queue pair for which a new request is inserted later. -/
def newRequest (m : IbhMeta) : Option Qpn :=
  if !m.validPSN && m.opCode != RC_ACK then some (m.destQp.setWidth 16) else none

/-- The queue pairs of new requests that are sent and not in their list yet. -/
def inserting (t : IndexNet) : List Qpn :=
  t.retrans.inp.tx2retransInsertRequest.map (·.qpn) ++ t.insertMeta.map (·.qpn) ++
    (if t.ibhGen.giState = .GET_PSN ∧ t.ibhGen.metaReg.opCode ≠ RC_ACK then [t.ibhGen.metaReg.destQp.setWidth 16]
      else []) ++
    t.ibhGenIn.metaIn.filterMap newRequest

/-- The list of a queue pair when the responses that are known have been taken up. -/
def unanswered (t : IndexNet) (q : Qpn) : List RetransEntry :=
  listRun (t.retrans.taken ++ t.retrans.inp.rx2retransUpd.map .update) q

/-- The queue pair whose timer a packet starts. -/
def starts (opCode : IbOpCode) (qpn : BitVec 24) : Option Qpn :=
  if setsTimer opCode then some (qpn.setWidth 16) else none

/-- The queue pairs of packets that will start the timer. -/
def starting (t : IndexNet) : List Qpn :=
  t.localIn.retransEventFifo.filterMap (fun e => starts e.opCode e.qpn) ++
    t.mergerIn.txAppMetaFifo.filterMap (fun e => starts e.opCode e.qpn) ++
    t.exhGenIn.metaIn.filterMap (fun e => starts e.opCode e.qpn) ++
    t.timerIn.txSetTimerReq.map (·.setWidth 16)

def resends (s : ProcessRetrans) : Bool := s.rtState == .TIMER_RETRANS_0 || s.rtState == .RETRANS_2

/-- The queue pairs with a timeout that is not served to its end. -/
def timedOut (t : IndexNet) : List Qpn :=
  t.retrans.inp.timer2retransReq.map (·.qpn) ++
    if resends t.retrans.proc then [t.retrans.proc.retrans.qpn] else []

def entry (t : IndexNet) (q : Qpn) : TransportTimerEntry := t.timer.transportTimerTable q.toNat

/-- The timer runs, or the requests were given up. -/
def running (t : IndexNet) (q : Qpn) : Bool :=
  (t.entry q).active || decide (RETRANS_RETRY_CNT ≤ (t.entry q).retries.toNat)

def Stored (t : IndexNet) (q : Qpn) : Prop := t.unanswered q ≠ [] ∨ q ∈ t.inserting

instance (t : IndexNet) (q : Qpn) : Decidable (t.Stored q) := inferInstanceAs (Decidable (_ ∨ _))

def Covered (t : IndexNet) (q : Qpn) : Prop := q ∈ t.starting ∨ q ∈ t.timedOut ∨ t.running q = true

/-- The steps that leave no stored request without cover: no send is posted; a response stops the timer of a
queue pair, or sets the count of a timer back that does not run, only when nothing is stored for it or a packet
or a timeout is under way; and a timeout for an empty list is not served before the requests are inserted. -/
def keepsCover (t : IndexNet) (l : IndexLabel) : Prop :=
  noSend l = true ∧
    match l with
    | .transportTimer _ => ∀ upd ∈ t.timerIn.rxClearTimerReq.head?,
        t.Stored upd.qpn → upd.qpn ∈ t.starting ∨ upd.qpn ∈ t.timedOut ∨
          upd.stop = false ∧ (t.entry upd.qpn).active = true
    | .process => t.retrans.proc.rtState = .TIMER_RETRANS_0 → ∀ p ∈ t.retrans.inp.pointerRspFifo.head?,
        p.valid = false → t.retrans.proc.retrans.qpn ∈ t.inserting →
          t.retrans.proc.retrans.qpn ∈ t.starting ∨
            t.retrans.proc.retrans.qpn ∈ t.retrans.inp.timer2retransReq.map (·.qpn) ∨
            t.running t.retrans.proc.retrans.qpn = true
    | _ => True

instance (t : IndexNet) : (l : IndexLabel) → Decidable (t.keepsCover l)
  | .transportTimer _ => inferInstanceAs (Decidable (_ ∧ ∀ upd ∈ t.timerIn.rxClearTimerReq.head?, _))
  | .process => inferInstanceAs (Decidable (_ ∧ (_ → ∀ p ∈ t.retrans.inp.pointerRspFifo.head?, _)))
  | .ibh _ | .exhMeta _ | .udpLength _ | .header _ | .sqMeta _ | .qpContext _ | .connReq _ | .rxIbhFsm
  | .stateTable | .rxExhFsm | .msnTable | .handleReadRequests | .streamMerger | .localReqHandler | .metaMerger
  | .connTable | .txIpUdpMetaMerger | .generateIbh | .generateExh | .mergeRetransRequest | .pointerTable
  | .metaTable | .freelist | .qpInterface => inferInstanceAs (Decidable (_ ∧ True))

structure Cover (t : IndexNet) : Prop where
  inv : Inv (fun _ => True) t
  timed : Timed t
  retrans : Reach RetransNet.step anyStep {} t.retrans
  covered : ∀ q, t.Stored q → t.Covered q

variable {t u : IndexNet}

theorem covered_of (h : ∀ q, t.Stored q → t.Covered q) (hstored : ∀ q, u.Stored q → t.Stored q)
    (hcovered : ∀ q, t.Covered q → u.Covered q) : ∀ q, u.Stored q → u.Covered q :=
  fun q hq => hcovered q (h q (hstored q hq))

/-! ## Lists -/

theorem listRun_updates {ops : List RetransOp} {q : Qpn} (h : listRun ops q = []) (us : List RetransUpdate) :
    listRun (ops ++ us.map .update) q = [] := by
  induction us generalizing ops with
  | nil =>
    rw [List.map_nil, List.append_nil]
    exact h
  | cons v us ih =>
    have hv : ops ++ (v :: us).map .update = (ops ++ [RetransOp.update v]) ++ us.map .update := by simp
    rw [hv]
    refine ih ?_
    rw [listRun_snoc]
    show Function.update (listRun ops) v.qpn _ q = []
    rw [Function.update_apply]
    split
    · next hq =>
        rw [← hq, h]
        split <;> rfl
    · exact h

theorem listRun_insert {ops : List RetransOp} {e : RetransEntry} {q : Qpn} (h : q ≠ e.qpn) :
    listRun (ops ++ [.insert e]) q = listRun ops q := by
  rw [listRun_snoc]
  exact Function.update_of_ne h _ _

/-! ## Where a queue pair is found -/

variable {q : Qpn}

theorem mem_inserting : q ∈ t.inserting ↔
    (∃ e ∈ t.retrans.inp.tx2retransInsertRequest, e.qpn = q) ∨ (∃ m ∈ t.insertMeta, m.qpn = q) ∨
      (t.ibhGen.giState = .GET_PSN ∧ t.ibhGen.metaReg.opCode ≠ RC_ACK ∧ t.ibhGen.metaReg.destQp.setWidth 16 = q) ∨
      ∃ m ∈ t.ibhGenIn.metaIn, newRequest m = some q := by
  have hreg : (q ∈ if t.ibhGen.giState = .GET_PSN ∧ t.ibhGen.metaReg.opCode ≠ RC_ACK then
      [t.ibhGen.metaReg.destQp.setWidth 16] else []) ↔
      t.ibhGen.giState = .GET_PSN ∧ t.ibhGen.metaReg.opCode ≠ RC_ACK ∧ t.ibhGen.metaReg.destQp.setWidth 16 = q := by
    split
    · next hc => simp [hc, eq_comm]
    · next hc =>
        refine iff_of_false (List.not_mem_nil) ?_
        rintro ⟨hs, hop, -⟩
        exact hc ⟨hs, hop⟩
  rw [inserting, List.mem_append, List.mem_append, List.mem_append, List.mem_map, List.mem_map, hreg,
    List.mem_filterMap, or_assoc, or_assoc]

theorem mem_starting : q ∈ t.starting ↔
    (∃ e ∈ t.localIn.retransEventFifo, starts e.opCode e.qpn = some q) ∨
      (∃ e ∈ t.mergerIn.txAppMetaFifo, starts e.opCode e.qpn = some q) ∨
      (∃ e ∈ t.exhGenIn.metaIn, starts e.opCode e.qpn = some q) ∨
      ∃ x ∈ t.timerIn.txSetTimerReq, x.setWidth 16 = q := by
  rw [starting, List.mem_append, List.mem_append, List.mem_append, List.mem_map, List.mem_filterMap,
    List.mem_filterMap, List.mem_filterMap, or_assoc, or_assoc]

theorem mem_timedOut : q ∈ t.timedOut ↔
    (∃ r ∈ t.retrans.inp.timer2retransReq, r.qpn = q) ∨
      resends t.retrans.proc = true ∧ t.retrans.proc.retrans.qpn = q := by
  rw [timedOut, List.mem_append, List.mem_map]
  refine or_congr_right ?_
  cases resends t.retrans.proc <;> simp [eq_comm]

/-! ## One call -/

theorem Cover.ibh (h : Cover t) : ∀ q, t.callIbh.Stored q → t.callIbh.Covered q := by
  refine covered_of h.covered (fun q => ?_) fun _ hq => hq
  rintro (hq | hq)
  · left
    intro hnil
    refine hq ?_
    simp only [unanswered, callIbh, List.map_append, ← List.append_assoc]
    exact listRun_updates hnil _
  · exact .inr hq

theorem Cover.localReq (h : Cover t) : ∀ q, t.callLocalReq.Stored q → t.callLocalReq.Covered q := by
  refine covered_of h.covered (fun _ hq => hq) fun q => ?_
  rintro (hq | hq)
  · left
    rw [mem_starting] at hq ⊢
    simp only [callLocalReq, localReqHandler]
    split
    · next e rest hev =>
        simp only [hev, List.exists_mem_cons_iff] at hq
        simp only [List.mem_append, List.mem_singleton]
        grind
    · next m rest hev hm =>
        simp only [List.mem_append]
        grind
    · simpa using hq
  · exact .inr hq

theorem newRequest_eq_some {m : IbhMeta} :
    newRequest m = some q ↔ m.validPSN = false ∧ m.opCode ≠ RC_ACK ∧ m.destQp.setWidth 16 = q := by
  unfold newRequest
  cases m.validPSN <;> simp

theorem Cover.metaMerger (h : Cover t) : ∀ q, t.callMetaMerger.Stored q → t.callMetaMerger.Covered q := by
  intro q hq
  -- an event that needs no number stores nothing
  have hmove : ∀ (mergerIn : MetaMergerIn) (connIn : ConnTableIn) (m : IbhMeta) (ev : Event) (v : IndexNet),
      v = { t with
        mergerIn, connIn
        ibhGenIn := { t.ibhGenIn with metaIn := t.ibhGenIn.metaIn ++ [m] }
        exhGenIn := { t.exhGenIn with metaIn := t.exhGenIn.metaIn ++ [ev] } } →
      (newRequest m = some q → starts ev.opCode ev.qpn = some q) →
      (∀ e ∈ t.mergerIn.txAppMetaFifo, e = ev ∨ e ∈ mergerIn.txAppMetaFifo) → v.Stored q → v.Covered q := by
    rintro mergerIn connIn m ev v rfl hnew happ hstored
    by_cases hm : newRequest m = some q
    · left
      rw [mem_starting]
      exact .inr (.inr (.inl ⟨ev, by simp, hnew hm⟩))
    · have hold : t.Stored q := by
        rcases hstored with hstored | hstored
        · exact .inl hstored
        · right
          rw [mem_inserting] at hstored ⊢
          simp only [List.mem_append, List.mem_singleton] at hstored
          grind
      rcases h.covered q hold with hq | hq
      · left
        rw [mem_starting] at hq ⊢
        simp only [List.mem_append, List.mem_singleton]
        grind
      · exact .inr hq
  simp only [callMetaMerger, Roce.metaMerger] at hq ⊢
  split at hq
  · next a rest hev =>
      refine hmove _ _ _ _ _ rfl (fun hnew => ?_) (fun e he => .inr he) hq
      exact absurd rfl (newRequest_eq_some.mp hnew).2.1
  · next ev rest _ hev =>
      refine hmove _ _ _ _ _ rfl (fun hnew => ?_) (fun e he => .inr he) hq
      have hvalid : ev.validPsn = true := h.timed.read ev (by rw [hev]; exact List.mem_cons_self)
      have hno : ev.validPsn = false := (newRequest_eq_some.mp hnew).1
      rw [hvalid] at hno
      cases hno
  · next ev rest _ _ hev =>
      refine hmove _ _ _ _ _ rfl (fun hnew => ?_) (fun e he => List.mem_cons.mp (hev ▸ he)) hq
      have hop : setsTimer ev.opCode = true := h.timed.app ev (by rw [hev]; exact List.mem_cons_self)
      have hqpn := (newRequest_eq_some.mp hnew).2.2
      rw [starts, if_pos hop, ← hqpn]
      unfold Event.appIbhMeta
      split <;> rfl
  · simp only [List.append_nil] at hq ⊢
    exact h.covered q hq

theorem Cover.generateIbh (h : Cover t) : ∀ q, t.callGenerateIbh.Stored q → t.callGenerateIbh.Covered q := by
  refine covered_of h.covered (fun q => ?_) fun _ hq => hq
  rintro (hq | hq)
  · exact .inl hq
  · right
    rw [mem_inserting] at hq ⊢
    simp only [callGenerateIbh, Roce.generateIbh] at hq
    split at hq
    · next m ms dst dsts hs hm _ =>
        rw [hm]
        split at hq
        · simp only [List.append_nil, hs, reduceCtorEq, false_and, false_or] at hq
          simp only [List.mem_cons]
          grind
        · next hv =>
            simp only [List.append_nil] at hq
            have hnew : newRequest m = some q ↔ m.opCode ≠ RC_ACK ∧ m.destQp.setWidth 16 = q := by
              rw [newRequest_eq_some]
              simp [hv]
            simp only [List.mem_cons]
            grind
    · next r rest hs _ =>
        unfold getPsn at hq
        split at hq
        · simp only [List.append_nil] at hq
          grind
        · next hop =>
            simp only [List.mem_append, List.mem_singleton] at hq
            grind
    · simp only [List.append_nil] at hq
      exact hq

theorem Cover.generateExh {W : Nat} (h : Cover t) :
    ∀ q, (t.callGenerateExh W).Stored q → (t.callGenerateExh W).Covered q := by
  refine covered_of h.covered (fun _ hq => hq) fun q => ?_
  rintro (hq | hq)
  · left
    rw [mem_starting] at hq ⊢
    simp only [callGenerateExh, Roce.generateExh]
    split
    · next ev rest _ hm =>
        simp only [hm, List.mem_cons] at hq
        have hset : starts ev.opCode ev.qpn = some q →
            ∃ x ∈ (if setsTimer ev.opCode then [ev.qpn] else []), x.setWidth 16 = q := by
          unfold starts
          split <;> simp
        simp only [List.mem_append]
        grind
    · simpa using hq
    · simp only [List.mem_append]
      grind
    · simpa using hq
  · exact .inr hq

theorem Cover.mergeRetrans (h : Cover t) : ∀ q, t.callMergeRetrans.Stored q → t.callMergeRetrans.Covered q := by
  refine covered_of h.covered (fun q => ?_) fun _ hq => hq
  rintro (hq | hq)
  · exact .inl hq
  · right
    rw [mem_inserting] at hq ⊢
    simp only [callMergeRetrans, mergeRetransRequest] at hq
    split at hq
    · next m ms a as hm _ =>
        simp only [List.mem_append, List.mem_singleton, RetransEntry.merge] at hq
        simp only [hm, List.mem_cons]
        grind
    · simp only [List.append_nil] at hq
      exact hq

theorem set_active (e : TransportTimerEntry) : e.set.active = true := by
  unfold TransportTimerEntry.set
  split
  · assumption
  · rfl

theorem scan_running {e : TransportTimerEntry} (full : Bool)
    (h : e.active = true ∨ RETRANS_RETRY_CNT ≤ e.retries.toNat) :
    (e.scan full).2 = true ∨ (e.scan full).1.active = true ∨ RETRANS_RETRY_CNT ≤ (e.scan full).1.retries.toNat := by
  unfold TransportTimerEntry.scan
  split
  · exact .inr h
  · split
    · next hactive _ => exact .inr (.inl (by simpa using hactive))
    · split
      · next hactive _ _ => exact .inr (.inl (by simpa using hactive))
      · split
        · exact .inl rfl
        · next hretries => exact .inr (.inr (Nat.not_lt.mp hretries))

theorem running_iff : t.running q = true ↔
    (t.entry q).active = true ∨ RETRANS_RETRY_CNT ≤ (t.entry q).retries.toNat := by
  rw [running, Bool.or_eq_true, decide_eq_true_eq]

section

variable {full : Bool} {timer : TransportTimer} {timerIn : TransportTimerIn} {out : List Retransmission}
  (hcall : t.timer.call t.timerIn full = (timer, timerIn, out))
include hcall

theorem entry_callTimer : (t.callTimer full).entry q = timer.transportTimerTable q.toNat := by
  unfold callTimer entry
  rw [hcall]

/-- A packet that starts the timer is still to come, or was the one that is taken. -/
theorem covered_callTimer
    (hset : ∀ x ∈ t.timerIn.txSetTimerReq, x.setWidth 16 = q →
      x ∈ timerIn.txSetTimerReq ∨ (t.callTimer full).running q = true)
    (h : q ∈ t.starting ∨ q ∈ t.timedOut ∨ (t.callTimer full).running q = true ∨ ∃ r ∈ out, r.qpn = q) :
    (t.callTimer full).Covered q := by
  have hstart : (t.callTimer full).starting =
      t.localIn.retransEventFifo.filterMap (fun e => starts e.opCode e.qpn) ++
      t.mergerIn.txAppMetaFifo.filterMap (fun e => starts e.opCode e.qpn) ++
      t.exhGenIn.metaIn.filterMap (fun e => starts e.opCode e.qpn) ++ timerIn.txSetTimerReq.map (·.setWidth 16) := by
    unfold callTimer
    rw [hcall]
    rfl
  have hout : (t.callTimer full).timedOut = t.retrans.inp.timer2retransReq.map (·.qpn) ++ out.map (·.qpn) ++
      if resends t.retrans.proc then [t.retrans.proc.retrans.qpn] else [] := by
    unfold callTimer
    rw [hcall, timedOut, List.map_append]
  unfold Covered
  rw [hstart, hout]
  unfold starting timedOut at h
  simp only [List.mem_append, List.mem_map] at h ⊢
  grind

end

theorem Cover.timer {full : Bool} (h : Cover t) (hl : t.keepsCover (.transportTimer full)) :
    ∀ q, (t.callTimer full).Stored q → (t.callTimer full).Covered q := by
  intro q hq
  have hstored : t.Stored q := hq
  have hold := h.covered q hstored
  have hclear : ∀ upd ∈ t.timerIn.rxClearTimerReq.head?, t.Stored upd.qpn → upd.qpn ∈ t.starting ∨
      upd.qpn ∈ t.timedOut ∨ upd.stop = false ∧ (t.entry upd.qpn).active = true := hl.2
  -- the entry of another queue pair
  have hother : ∀ (e : TransportTimerEntry) {p : Qpn}, q ≠ p →
      Function.update t.timer.transportTimerTable p.toNat e q.toNat = t.entry q := by
    intro e p hp
    exact Function.update_of_ne (fun hc => hp (BitVec.eq_of_toNat_eq hc)) _ _
  cases hupd : t.timerIn.rxClearTimerReq with
  | cons upd rest =>
    have hcall : t.timer.call t.timerIn full =
        ({ t.timer with
            transportTimerTable := Function.update t.timer.transportTimerTable upd.qpn.toNat
              ((t.timer.transportTimerTable upd.qpn.toNat).clear upd.stop) },
          { t.timerIn with rxClearTimerReq := rest }, []) := by
      simp only [TransportTimer.call, hupd]
    have hentry : (t.callTimer full).entry q = Function.update t.timer.transportTimerTable upd.qpn.toNat
        ((t.timer.transportTimerTable upd.qpn.toNat).clear upd.stop) q.toNat := entry_callTimer hcall
    refine covered_callTimer hcall (fun x hx _ => .inl hx) ?_
    by_cases hqp : q = upd.qpn
    · subst hqp
      refine (hclear upd (by rw [hupd]; rfl) hstored).imp_right (Or.imp_right fun hkeep => .inl ?_)
      rw [running_iff, hentry, Function.update_self, hkeep.1]
      exact .inl hkeep.2
    · refine hold.imp_right (Or.imp_right fun hrun => .inl ?_)
      rw [running_iff] at hrun ⊢
      rw [hentry, hother _ hqp]
      exact hrun
  | nil =>
    cases hset : t.timerIn.txSetTimerReq with
    | cons setQP rest =>
      obtain ⟨p, -, hp⟩ := h.inv.timerSet setQP (by rw [hset]; exact List.mem_cons_self)
      have hnat : setQP.toNat = p.toNat := by
        have hlt := p.isLt
        rw [hp, BitVec.toNat_setWidth, Nat.mod_eq_of_lt (by omega)]
      have hcut : setQP.setWidth 16 = p := by
        rw [hp]
        simp
      have hcall : t.timer.call t.timerIn full =
          ({ transportTimerTable := Function.update t.timer.transportTimerTable p.toNat
              (t.timer.transportTimerTable p.toNat).set
             ttCurrPosition :=
              if t.timer.near setQP then t.timer.ttCurrPosition + 5 else t.timer.ttCurrPosition },
            { t.timerIn with txSetTimerReq := rest }, []) := by
        simp only [TransportTimer.call, hupd, hset, hnat]
      have hentry : (t.callTimer full).entry q = Function.update t.timer.transportTimerTable p.toNat
          (t.timer.transportTimerTable p.toNat).set q.toNat := entry_callTimer hcall
      have hset' : q = p → (t.callTimer full).running q = true := by
        rintro rfl
        rw [running_iff, hentry, Function.update_self]
        exact .inl (set_active _)
      refine covered_callTimer hcall (fun x hx hqx => ?_) (hold.imp_right (Or.imp_right fun hrun => .inl ?_))
      · rw [hset] at hx
        rcases List.mem_cons.mp hx with rfl | hx
        · exact .inr (hset' (hqx.symm.trans hcut))
        · exact .inl hx
      · by_cases hqp : q = p
        · exact hset' hqp
        · rw [running_iff] at hrun ⊢
          rw [hentry, hother _ hqp]
          exact hrun
    | nil =>
      have hcall : t.timer.call t.timerIn full =
          ({ transportTimerTable := Function.update t.timer.transportTimerTable t.timer.ttCurrPosition.toNat
              ((t.timer.transportTimerTable t.timer.ttCurrPosition.toNat).scan full).1
             ttCurrPosition := t.timer.next }, t.timerIn,
            if ((t.timer.transportTimerTable t.timer.ttCurrPosition.toNat).scan full).2
            then [⟨t.timer.ttCurrPosition, 0⟩] else []) := by
        simp only [TransportTimer.call, hupd, hset]
      refine covered_callTimer hcall (fun x hx _ => .inl hx) (hold.imp_right (Or.imp_right fun hrun => ?_))
      have hentry : (t.callTimer full).entry q =
          Function.update t.timer.transportTimerTable t.timer.ttCurrPosition.toNat
            ((t.timer.transportTimerTable t.timer.ttCurrPosition.toNat).scan full).1 q.toNat := entry_callTimer hcall
      rw [running_iff] at hrun ⊢
      rw [hentry]
      by_cases hqp : q = t.timer.ttCurrPosition
      · rw [← hqp, Function.update_self]
        rcases scan_running full hrun with hexp | hrun
        · right
          have hexp' : ((t.timer.transportTimerTable q.toNat).scan full).2 = true := hexp
          rw [if_pos hexp']
          exact ⟨_, List.mem_singleton_self _, rfl⟩
        · exact .inl hrun
      · rw [hother _ hqp]
        exact .inl hrun

/-! ## The retransmitter -/

theorem walks_of_reach {s : RetransNet} (h : Reach RetransNet.step anyStep {} s) :
    (∃ cells ops, RetransNet.Inv s cells ops) ∧ ∃ l, RetransNet.Walks s l := by
  refine h.invariant (P := fun s => (∃ cells ops, RetransNet.Inv s cells ops) ∧ ∃ l, RetransNet.Walks s l)
    ⟨⟨_, _, RetransNet.inv_init⟩, [], rfl⟩ fun s b s' hs _ hstep => ?_
  obtain ⟨⟨cells, ops, hinv⟩, l, hw⟩ := hs
  exact ⟨RetransNet.inv_step hinv hstep, RetransNet.walks_step hinv hw hstep⟩

theorem stored_of_process (hq : t.callProcess.Stored q) : t.Stored q := by
  have hinserts : q ∈ t.callProcess.inserting ↔
      (∃ e ∈ t.retrans.callProcess.1.inp.tx2retransInsertRequest, e.qpn = q) ∨ (∃ m ∈ t.insertMeta, m.qpn = q) ∨
        (t.ibhGen.giState = .GET_PSN ∧ t.ibhGen.metaReg.opCode ≠ RC_ACK ∧
          t.ibhGen.metaReg.destQp.setWidth 16 = q) ∨ ∃ m ∈ t.ibhGenIn.metaIn, newRequest m = some q := mem_inserting
  have hlist : t.callProcess.unanswered q =
      listRun (t.retrans.callProcess.1.taken ++ t.retrans.callProcess.1.inp.rx2retransUpd.map .update) q := rfl
  unfold Stored at hq ⊢
  rw [hlist, hinserts] at hq
  rw [unanswered, mem_inserting]
  rcases RequesterNet.callProcess_cases t.retrans with ⟨htaken, hupd, hins⟩ | ⟨v, rest, -, hv, htaken, hupd, hins⟩ |
    ⟨e, rest, hnil, he, htaken, hupd, hins⟩
  · rw [htaken, hupd, hins] at hq
    exact hq
  · rw [htaken, hupd, hins, List.append_assoc] at hq
    rw [hv]
    exact hq
  · rw [htaken, hupd, hins, List.map_nil, List.append_nil] at hq
    rw [hnil, he, List.map_nil, List.append_nil]
    simp only [List.mem_cons]
    by_cases hqe : q = e.qpn
    · exact .inr (.inl ⟨e, .inl rfl, hqe.symm⟩)
    · rw [listRun_insert hqe] at hq
      grind

/-- A timeout is served until a packet of the list is sent again; only for an empty list nothing is. -/
theorem timedOut_of_process (h : Cover t) (hq : q ∈ t.timedOut) :
    q ∈ t.callProcess.timedOut ∨ q ∈ t.callProcess.starting ∨
      t.retrans.proc.rtState = .TIMER_RETRANS_0 ∧ t.retrans.proc.retrans.qpn = q ∧
        q ∉ t.retrans.inp.timer2retransReq.map (·.qpn) ∧ ∃ p ∈ t.retrans.inp.pointerRspFifo.head?, p.valid = false := by
  have hproc : t.callProcess.retrans.proc = (processRetransmissions t.retrans.proc t.retrans.inp).1 := rfl
  have hinp : t.callProcess.retrans.inp = (processRetransmissions t.retrans.proc t.retrans.inp).2.1 := rfl
  rw [mem_timedOut] at hq ⊢
  rw [hproc, hinp]
  cases hs : t.retrans.proc.rtState with
  | MAIN =>
    have hqueue : ∃ r ∈ t.retrans.inp.timer2retransReq, r.qpn = q := hq.resolve_right (by simp [resends, hs])
    simp only [processRetransmissions, hs]
    unfold retransMain
    split
    · exact .inl (.inl hqueue)
    · exact .inl (.inl hqueue)
    · next r rest _ _ hr =>
        rw [hr] at hqueue
        obtain ⟨r', hr', hqr⟩ := hqueue
        rcases List.mem_cons.mp hr' with rfl | hr'
        · exact .inl (.inr ⟨rfl, hqr⟩)
        · exact .inl (.inl ⟨r', hr', hqr⟩)
    · exact .inl (.inl hqueue)
    · exact .inl (.inl hqueue)
  | TIMER_RETRANS_0 =>
    simp only [processRetransmissions, hs, withPointer]
    cases hrsp : t.retrans.inp.pointerRspFifo with
    | nil => exact .inl hq
    | cons p rest =>
      simp only [timerRetrans0]
      cases hv : p.valid with
      | true => exact .inl (hq.imp_right fun hr => ⟨rfl, hr.2⟩)
      | false =>
        by_cases hqueue : q ∈ t.retrans.inp.timer2retransReq.map (·.qpn)
        · exact .inl (.inl (List.mem_map.mp hqueue))
        · have hr := hq.resolve_left fun hc => hqueue (List.mem_map.mpr hc)
          exact .inr (.inr ⟨trivial, hr.2, hqueue, p, rfl, hv⟩)
  | RETRANS_2 =>
    simp only [processRetransmissions, hs, withMeta]
    cases hrsp : t.retrans.inp.metaRspFifo with
    | nil => exact .inl hq
    | cons m rest =>
      -- the cell is one of the list
      obtain ⟨-, l, hw⟩ := walks_of_reach h.retrans
      simp only [RetransNet.Walks, hs] at hw
      obtain ⟨c, l', -, -, -, -, hv, -⟩ := hw.answer hrsp
      rcases hq with hq | ⟨-, hr⟩
      · refine .inl (.inl ?_)
        simpa using hq
      · right
        left
        have hop : setsTimer m.opCode = true := h.timed.proc.cells m (by rw [hrsp]; exact List.mem_cons_self) hv
        rw [mem_starting]
        left
        refine ⟨m.event t.retrans.proc.retrans.qpn, ?_, ?_⟩
        · simp [callProcess, RetransNet.callProcess, processRetransmissions, hs, withMeta, hrsp, retrans2, hv]
        · show starts m.opCode (t.retrans.proc.retrans.qpn.setWidth 24) = some q
          rw [starts, if_pos hop, hr]
          simp
  | INSERT_0 | UPDATE_0 | RETRANS_0 =>
    have hqueue : ∃ r ∈ t.retrans.inp.timer2retransReq, r.qpn = q := hq.resolve_right (by simp [resends, hs])
    simp only [processRetransmissions, hs, withPointer]
    split <;> exact .inl (.inl hqueue)
  | UPDATE_1 | RETRANS_1 =>
    have hqueue : ∃ r ∈ t.retrans.inp.timer2retransReq, r.qpn = q := hq.resolve_right (by simp [resends, hs])
    simp only [processRetransmissions, hs, withMeta]
    split <;> exact .inl (.inl hqueue)
  | INSERT_1 =>
    have hqueue : ∃ r ∈ t.retrans.inp.timer2retransReq, r.qpn = q := hq.resolve_right (by simp [resends, hs])
    simp only [processRetransmissions, hs]
    exact .inl (.inl hqueue)

theorem listRun_of_invalid {p : RetransPointerEntry} (h : Cover t) (hs : t.retrans.proc.rtState = .TIMER_RETRANS_0)
    (hp : p ∈ t.retrans.inp.pointerRspFifo.head?) (hv : p.valid = false) :
    listRun t.retrans.taken t.retrans.proc.retrans.qpn = [] := by
  obtain ⟨cells, ops, hinv⟩ := RetransNet.inv_of_reach h.retrans
  obtain ⟨rest, hrsp⟩ : ∃ rest, t.retrans.inp.pointerRspFifo = p :: rest := List.head?_eq_some_iff.mp hp
  have hclient := hinv.pointer
  simp only [RetransNet.PointerClient, RetransNet.asked, hs, hrsp] at hclient
  have hentry : t.retrans.settledPtr t.retrans.proc.retrans.qpn = p := by
    rcases hclient with ⟨-, hnil⟩ | ⟨-, hone⟩
    · cases hnil
    · exact (List.cons.inj hone).1.symm
  have hrep := hinv.lists.represents t.retrans.proc.retrans.qpn
  unfold Represents at hrep
  rw [hentry, hv, if_neg Bool.false_ne_true] at hrep
  rw [hinv.taken, RetransNet.unfinished, hs, List.append_nil, ← hinv.lists.entries, hrep]
  rfl

theorem Cover.process (h : Cover t) (hl : t.keepsCover .process) :
    ∀ q, t.callProcess.Stored q → t.callProcess.Covered q := by
  intro q hq
  have hstored := stored_of_process hq
  have hmonotone : q ∈ t.starting → q ∈ t.callProcess.starting := by
    intro hs
    rw [mem_starting] at hs ⊢
    simp only [callProcess, List.mem_append]
    grind
  rcases h.covered q hstored with hs | ht | hrun
  · exact .inl (hmonotone hs)
  · rcases timedOut_of_process h ht with ht | hs | ⟨hst, hqr, hqueue, p, hp, hv⟩
    · exact .inr (.inl ht)
    · exact .inl hs
    · -- the list is empty, so requests are on their way to it
      have hnil := listRun_of_invalid h hst hp hv
      have hinserting : q ∈ t.inserting := by
        refine hstored.resolve_left fun hne => hne ?_
        rw [← hqr]
        exact listRun_updates hnil _
      have hcond := hl.2 hst p hp hv
      rw [hqr] at hcond
      rcases hcond hinserting with hs | ht | hrun
      · exact .inl (hmonotone hs)
      · exact absurd ht hqueue
      · exact .inr (.inr hrun)
  · exact .inr (.inr hrun)

/-! ## Runs -/

theorem retrans_step {W : Nat} {l : IndexLabel} (hs : t.step W l = some u) :
    Reach RetransNet.step anyStep t.retrans u.retrans := by
  have hone (b : RetransLabel) {s : RetransNet} (h : t.retrans.step b = some s) :
      Reach RetransNet.step anyStep t.retrans s := Relation.ReflTransGen.single ⟨b, trivial, h⟩
  cases l <;> cases hs
  case rxIbhFsm => exact RequesterNet.reach_updates t.retrans _
  case rxExhFsm => exact RequesterNet.reach_naks t.retrans _
  case transportTimer full => exact RequesterNet.reach_timeouts t.retrans _
  case process => exact hone .process rfl
  case pointerTable => exact hone .pointerTable rfl
  case metaTable => exact hone .metaTable rfl
  case freelist => exact hone .freelist rfl
  case mergeRetransRequest => exact RequesterNet.reach_inserts t.retrans _
  case streamMerger =>
      unfold callStreamMerger
      split <;> exact Reach.refl _
  all_goals exact Reach.refl _

theorem cover_step {W : Nat} {l : IndexLabel} (h : Cover t) (hl : t.keepsCover l) (hs : t.step W l = some u) :
    Cover u := by
  refine ⟨inv_step h.inv (by cases l <;> trivial) hs, timed_step h.timed hl.1 hs, h.retrans.trans (retrans_step hs), ?_⟩
  cases l <;> cases hs
  case rxIbhFsm => exact h.ibh
  case localReqHandler => exact h.localReq
  case metaMerger => exact h.metaMerger
  case generateIbh => exact h.generateIbh
  case generateExh => exact h.generateExh
  case mergeRetransRequest => exact h.mergeRetrans
  case transportTimer full => exact h.timer hl
  case process => exact h.process hl
  case streamMerger =>
      unfold callStreamMerger
      split <;> exact h.covered
  all_goals exact h.covered

theorem cover_init : Cover {} := by
  refine ⟨inv_init trivial, timed_init, Reach.refl _, fun q hq => ?_⟩
  rcases hq with hq | hq
  · exact absurd rfl hq
  · cases hq

/-- No packet that starts the timer of the queue pair and no response for it waits, and its list is not just
sent again. -/
structure Drained (t : IndexNet) (q : Qpn) : Prop where
  retransEventFifo : t.localIn.retransEventFifo = []
  txAppMetaFifo : t.mergerIn.txAppMetaFifo = []
  txExhMetaFifo : t.exhGenIn.metaIn = []
  txSetTimerReq : t.timerIn.txSetTimerReq = []
  rx2retransUpd : t.retrans.inp.rx2retransUpd = []
  resent : t.retrans.proc.rtState = .RETRANS_2 → t.retrans.proc.retrans.qpn ≠ q

def InFlight (t : IndexNet) (q : Qpn) : Prop :=
  (∃ r ∈ t.retrans.inp.timer2retransReq, r.qpn = q) ∨
    t.retrans.proc.rtState = .TIMER_RETRANS_0 ∧ t.retrans.proc.retrans.qpn = q

/-- In every run of the steps of `keepsCover`, a queue pair with stored requests has its timer running or a
timeout in flight, or was given up, once all queues are drained. -/
theorem stored_requests_timed {W : Nat} (h : Reach (step W) keepsCover {} t) {q : Qpn} (hd : Drained t q)
    (hlist : listRun t.retrans.taken q ≠ []) :
    (t.entry q).active = true ∨ t.InFlight q ∨ RETRANS_RETRY_CNT ≤ (t.entry q).retries.toNat := by
  have hcover := h.invariant cover_init fun u l v hu hl hs => cover_step hu hl hs
  have hstored : t.Stored q := by
    left
    rw [unanswered, hd.rx2retransUpd, List.map_nil, List.append_nil]
    exact hlist
  rcases hcover.covered q hstored with hs | ht | hrun
  · rw [starting, hd.retransEventFifo, hd.txAppMetaFifo, hd.txExhMetaFifo, hd.txSetTimerReq] at hs
    cases hs
  · right
    left
    rcases mem_timedOut.mp ht with ht | ⟨hst, hqr⟩
    · exact .inl ht
    · rcases Bool.or_eq_true_iff.mp hst with hst | hst
      · exact .inr ⟨eq_of_beq hst, hqr⟩
      · exact absurd hqr (hd.resent (eq_of_beq hst))
  · exact (running_iff.mp hrun).imp_right .inr

def idle (t : IndexNet) : Bool :=
  t.localIn.retransEventFifo.isEmpty && t.mergerIn.txAppMetaFifo.isEmpty && t.exhGenIn.metaIn.isEmpty &&
    t.timerIn.txSetTimerReq.isEmpty && t.retrans.inp.rx2retransUpd.isEmpty && t.retrans.proc.rtState == .MAIN

theorem drained_of_idle (h : t.idle = true) : Drained t q := by
  simp only [idle, Bool.and_eq_true, List.isEmpty_iff, beq_iff_eq] at h
  obtain ⟨⟨⟨⟨⟨hagain, happ⟩, hexh⟩, hset⟩, hupd⟩, hmain⟩ := h
  exact ⟨hagain, happ, hexh, hset, hupd, fun hst => by rw [hmain] at hst; cases hst⟩

theorem stored_requests_timed_write : ∃ t, Reach (step 512) keepsCover {} t ∧ Drained t 7 ∧
    listRun t.retrans.taken 7 ≠ [] ∧
    ((t.entry 7).active = true ∨ t.InFlight 7 ∨ RETRANS_RETRY_CNT ≤ (t.entry 7).retries.toNat) := by
  have hrun : (runIf (step 512) keepsCover {} sendWrite).map (fun t => (t.idle, (listRun t.retrans.taken 7).length)) =
      some (true, 1) := by decide +kernel
  obtain ⟨t, ht, hmap⟩ := Option.map_eq_some_iff.mp hrun
  obtain ⟨hidle, hlen⟩ := Prod.mk.inj hmap
  have hreach := reach_of_runIf ht
  have hlist : listRun t.retrans.taken 7 ≠ [] := fun hnil => by rw [hnil] at hlen; cases hlen
  exact ⟨t, hreach, drained_of_idle hidle, hlist, stored_requests_timed hreach (drained_of_idle hidle) hlist⟩

/-- A send of queue pair 7 instead. -/
def sendSend : List IndexLabel :=
  sendWrite.map fun l =>
    match l with
    | .sqMeta m => .sqMeta { m with opCode := RC_SEND_ONLY }
    | l => l

/-- The send is stored, and no timer was ever started for it. -/
theorem send_without_timer : ∃ t, Reach (step 512) anyStep {} t ∧ Drained t 7 ∧
    listRun t.retrans.taken 7 ≠ [] ∧
    ¬((t.entry 7).active = true ∨ t.InFlight 7 ∨ RETRANS_RETRY_CNT ≤ (t.entry 7).retries.toNat) := by
  have hrun : (run (step 512) {} sendSend).map (fun t =>
      (t.idle, (listRun t.retrans.taken 7).length, t.running 7, t.retrans.inp.timer2retransReq)) =
      some (true, 1, false, []) := by decide +kernel
  obtain ⟨t, ht, hmap⟩ := Option.map_eq_some_iff.mp hrun
  simp only [Prod.mk.injEq] at hmap
  obtain ⟨hidle, hlen, hrunning, hqueue⟩ := hmap
  have hlist : listRun t.retrans.taken 7 ≠ [] := fun hnil => by rw [hnil] at hlen; cases hlen
  have hmain : t.retrans.proc.rtState = .MAIN := by
    simp only [idle, Bool.and_eq_true, beq_iff_eq] at hidle
    exact hidle.2
  refine ⟨t, reach_of_run ht, drained_of_idle hidle, hlist, ?_⟩
  rintro (hactive | (⟨r, hr, -⟩ | ⟨hst, -⟩) | hretries)
  · rw [running_iff.mpr (.inl hactive)] at hrunning
    cases hrunning
  · rw [hqueue] at hr
    cases hr
  · rw [hmain] at hst
    cases hst
  · rw [running_iff.mpr (.inr hretries)] at hrunning
    cases hrunning

end IndexNet

end FpgaNetworkStack.Roce
