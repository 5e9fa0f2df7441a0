import FpgaNetworkStack.Roce.TableIndices

/-!
# Requests that start the timer

When the application posts no sends, every request that is stored for retransmission, and so every event of a
retransmission, is of a kind for which `generate_exh` starts the timer.
-/

namespace FpgaNetworkStack.Roce

open Lib IbOpCode

/-! ## The retransmitter -/

def RetransMetaEntry.Timed (m : RetransMetaEntry) : Prop := m.valid = true → setsTimer m.opCode = true

def RetransMetaReq.Timed : RetransMetaReq → Prop
  | .write _ entry => entry.Timed
  | _ => True

theorem timed_ofEntry {e : RetransEntry} (h : setsTimer e.opCode = true) : (RetransMetaEntry.ofEntry e).Timed :=
  fun _ => h

variable {m : RetransMetaEntry}

theorem RetransMetaEntry.Timed.advance (h : m.Timed) : m.advance.Timed := h

structure ProcessRetrans.Timed (s : ProcessRetrans) (i : ProcessRetransIn) : Prop where
  insert : s.rtState = .INSERT_0 ∨ s.rtState = .INSERT_1 → setsTimer s.insert.opCode = true
  inserts : ∀ e ∈ i.tx2retransInsertRequest, setsTimer e.opCode = true
  cells : ∀ m ∈ i.metaRspFifo, m.Timed

structure ProcessRetransOut.Timed (o : ProcessRetransOut) : Prop where
  writes : ∀ r ∈ o.metaReqFifo, r.Timed
  events : ∀ e ∈ o.retrans2event, setsTimer e.opCode = true

theorem ProcessRetransOut.timed_empty : ProcessRetransOut.Timed {} := by
  constructor <;> simp

theorem not_inserting {s : RetransState} (h : s ≠ .INSERT_0) (h' : s ≠ .INSERT_1) {p : Prop} :
    s = .INSERT_0 ∨ s = .INSERT_1 → p := by
  rintro (hs | hs)
  · exact absurd hs h
  · exact absurd hs h'

section

variable {s : ProcessRetrans} {i : ProcessRetransIn} (h : s.Timed i)
include h

theorem retransMain_timed (hs : s.rtState = .MAIN) :
    (retransMain s i).1.Timed (retransMain s i).2.1 ∧ (retransMain s i).2.2.Timed := by
  unfold retransMain
  split
  · exact ⟨{ h with insert := not_inserting (by simp) (by simp) }, by constructor <;> simp⟩
  · exact ⟨{ h with insert := not_inserting (by simp) (by simp) }, by constructor <;> simp⟩
  · exact ⟨{ h with insert := not_inserting (by simp) (by simp) }, by constructor <;> simp⟩
  · next insert rest idx free _ _ _ hins hfree =>
      have hq := List.forall_mem_cons.mp (hins ▸ h.inserts)
      exact ⟨{ h with insert := fun _ => hq.1, inserts := hq.2 }, by constructor <;> simp⟩
  · exact ⟨h, ProcessRetransOut.timed_empty⟩

theorem withPointer_timed {f : RetransPointerEntry → ProcessRetrans × ProcessRetransOut}
    (hf : ∀ p, ((f p).1.rtState = .INSERT_0 ∨ (f p).1.rtState = .INSERT_1 → setsTimer (f p).1.insert.opCode = true) ∧
      (f p).2.Timed) :
    (withPointer i s f).1.Timed (withPointer i s f).2.1 ∧ (withPointer i s f).2.2.Timed := by
  unfold withPointer
  split
  · exact ⟨h, ProcessRetransOut.timed_empty⟩
  · exact ⟨{ h with insert := (hf _).1 }, (hf _).2⟩

theorem withMeta_timed {f : RetransMetaEntry → ProcessRetrans × ProcessRetransOut}
    (hf : ∀ m : RetransMetaEntry, m.Timed → (f m).1.rtState ≠ .INSERT_0 ∧ (f m).1.rtState ≠ .INSERT_1 ∧ (f m).2.Timed) :
    (withMeta i s f).1.Timed (withMeta i s f).2.1 ∧ (withMeta i s f).2.2.Timed := by
  unfold withMeta
  split
  · exact ⟨h, ProcessRetransOut.timed_empty⟩
  · next m rest hrsp =>
      have hq := List.forall_mem_cons.mp (hrsp ▸ h.cells)
      obtain ⟨h0, h1, hout⟩ := hf m hq.1
      exact ⟨{ h with insert := not_inserting h0 h1, cells := hq.2 }, hout⟩

end

theorem update1_timed (s : ProcessRetrans) (hs : s.rtState = .UPDATE_1) (hm : m.Timed) :
    (update1 s m).1.rtState ≠ .INSERT_0 ∧ (update1 s m).1.rtState ≠ .INSERT_1 ∧ (update1 s m).2.Timed := by
  unfold update1
  simp only
  split
  · simp [hs, ProcessRetransOut.timed_empty]
  · split
    · refine ⟨by simp, by simp, ?_⟩
      constructor
      · simpa [RetransMetaReq.Timed] using hm.advance
      · simp
    · refine ⟨by simp, by simp, ?_⟩
      constructor <;> simp

theorem retrans1_timed (s : ProcessRetrans) (hm : m.Timed) :
    (retrans1 s m).1.rtState ≠ .INSERT_0 ∧ (retrans1 s m).1.rtState ≠ .INSERT_1 ∧ (retrans1 s m).2.Timed := by
  unfold retrans1
  split
  · next hv =>
      refine ⟨?_, ?_, ?_⟩
      · cases m.psn == s.retrans.psn <;> cases m.isTail <;> simp
      · cases m.psn == s.retrans.psn <;> cases m.isTail <;> simp
      constructor
      · cases m.isTail <;> simp [RetransMetaReq.Timed]
      · cases m.psn == s.retrans.psn <;> simp [RetransMetaEntry.event, hm hv]
  · exact ⟨by simp, by simp, ProcessRetransOut.timed_empty⟩

theorem retrans2_timed (s : ProcessRetrans) (hm : m.Timed) :
    (retrans2 s m).1.rtState ≠ .INSERT_0 ∧ (retrans2 s m).1.rtState ≠ .INSERT_1 ∧ (retrans2 s m).2.Timed := by
  unfold retrans2
  split
  · next hv =>
      refine ⟨?_, ?_, ?_⟩
      · cases m.isTail <;> simp
      · cases m.isTail <;> simp
      constructor
      · cases m.isTail <;> simp [RetransMetaReq.Timed]
      · simp [RetransMetaEntry.event, hm hv]
  · exact ⟨by simp, by simp, ProcessRetransOut.timed_empty⟩

/-- Every request that is written or sent again is of such a kind. -/
theorem processRetransmissions_timed {s : ProcessRetrans} {i : ProcessRetransIn} (h : s.Timed i) :
    (processRetransmissions s i).1.Timed (processRetransmissions s i).2.1 ∧
      (processRetransmissions s i).2.2.Timed := by
  unfold processRetransmissions
  split
  · next hs => exact retransMain_timed h hs
  · next hs =>
      have hop := h.insert (.inl hs)
      refine withPointer_timed h fun p => ?_
      unfold insert0
      split
      · refine ⟨fun _ => hop, ?_⟩
        constructor
        · simpa [RetransMetaReq.Timed] using timed_ofEntry hop
        · simp
      · refine ⟨fun _ => hop, ?_⟩
        constructor <;> simp [RetransMetaReq.Timed]
  · next hs =>
      have hop := h.insert (.inr hs)
      refine ⟨{ h with insert := fun _ => hop }, ?_⟩
      constructor
      · simpa [insert1, RetransMetaReq.Timed] using timed_ofEntry hop
      · simp [insert1]
  · refine withPointer_timed h fun p => ?_
    unfold update0
    split
    · exact ⟨not_inserting (by simp) (by simp), by constructor <;> simp [RetransMetaReq.Timed]⟩
    · exact ⟨not_inserting (by simp) (by simp), by constructor <;> simp⟩
  · next hs => exact withMeta_timed h fun m hm => update1_timed s hs hm
  · refine withPointer_timed h fun p => ?_
    unfold retrans0
    split
    · exact ⟨not_inserting (by simp) (by simp), by constructor <;> simp [RetransMetaReq.Timed]⟩
    · exact ⟨not_inserting (by simp) (by simp), ProcessRetransOut.timed_empty⟩
  · exact withMeta_timed h fun m hm => retrans1_timed s hm
  · exact withMeta_timed h fun m hm => retrans2_timed s hm
  · refine withPointer_timed h fun p => ?_
    unfold timerRetrans0
    split
    · exact ⟨not_inserting (by simp) (by simp), by constructor <;> simp [RetransMetaReq.Timed]⟩
    · exact ⟨not_inserting (by simp) (by simp), ProcessRetransOut.timed_empty⟩

/-! ## The network -/

namespace IndexNet

structure Timed (t : IndexNet) : Prop where
  posted : ∀ m ∈ t.localIn.sqMeta, forwarded m.opCode = true → setsTimer m.opCode = true
  again : ∀ e ∈ t.localIn.retransEventFifo, setsTimer e.opCode = true
  app : ∀ e ∈ t.mergerIn.txAppMetaFifo, setsTimer e.opCode = true
  -- a response has its number
  read : ∀ e ∈ t.mergerIn.rxReadEvenFifo, e.validPsn = true
  ibhMeta : ∀ m ∈ t.ibhGenIn.metaIn, m.validPSN = false → m.opCode ≠ RC_ACK → setsTimer m.opCode = true
  ibhReg : t.ibhGen.giState = .GET_PSN → t.ibhGen.metaReg.opCode ≠ RC_ACK → setsTimer t.ibhGen.metaReg.opCode = true
  insertMeta : ∀ m ∈ t.insertMeta, setsTimer m.opCode = true
  proc : t.retrans.proc.Timed t.retrans.inp
  metaReq : ∀ r ∈ t.retrans.metaReq, r.Timed
  metaTable : ∀ x, (t.retrans.metaTable x).Timed

variable {t u : IndexNet}

theorem Timed.readRequests (h : Timed t) : Timed t.callReadRequests := by
  have hemit : ∀ (r : ReadRequest) (op : IbOpCode) (n : BitVec 32),
      ∀ e ∈ (r.emit op n).readEventFifo, e.validPsn = true := by
    intro r op n e he
    rw [List.mem_singleton.mp he]
  have hcall : ∀ e ∈ (handleReadRequests t.reads t.readRequestFifo).2.2.readEventFifo, e.validPsn = true := by
    unfold handleReadRequests
    split
    · simp
    · split
      · exact hemit _ _ _
      · exact hemit _ _ _
    · simp only
      split
      · exact hemit _ _ _
      · exact hemit _ _ _
  exact { h with read := forall_mem_append h.read hcall }

theorem Timed.localReq (h : Timed t) : Timed t.callLocalReq := by
  simp only [callLocalReq, localReqHandler]
  split
  · next e rest hev =>
      have hq := List.forall_mem_cons.mp (hev ▸ h.again)
      exact { h with again := hq.2, app := forall_mem_append h.app (List.forall_mem_singleton.mpr hq.1) }
  · next m rest _ hm =>
      have hq := List.forall_mem_cons.mp (hm ▸ h.posted)
      have happ : ∀ e ∈ (if forwarded m.opCode then [m.event] else []), setsTimer e.opCode = true := by
        split
        · next hf => exact List.forall_mem_singleton.mpr (hq.1 hf)
        · simp
      exact { h with posted := hq.2, app := forall_mem_append h.app happ }
  · simp only [List.append_nil]
    exact h

theorem Timed.metaMerger (h : Timed t) : Timed t.callMetaMerger := by
  simp only [callMetaMerger, Roce.metaMerger]
  split
  · exact { h with ibhMeta := forall_mem_append h.ibhMeta (by simp) }
  · next e rest _ hev =>
      have hq := List.forall_mem_cons.mp (hev ▸ h.read)
      exact { h with read := hq.2, ibhMeta := forall_mem_append h.ibhMeta (by simp [Event.ibhMeta, hq.1]) }
  · next e rest _ _ hev =>
      have hq := List.forall_mem_cons.mp (hev ▸ h.app)
      have hop : e.appIbhMeta.opCode = e.opCode := by
        unfold Event.appIbhMeta
        split <;> rfl
      exact { h with
        app := hq.2
        ibhMeta := forall_mem_append h.ibhMeta (List.forall_mem_singleton.mpr fun _ _ => by rw [hop]; exact hq.1) }
  · simp only [List.append_nil]
    exact { h with }

theorem Timed.generateIbh (h : Timed t) : Timed t.callGenerateIbh := by
  simp only [callGenerateIbh, Roce.generateIbh]
  split
  · next m ms dst dsts hs hm _ =>
      have hq := List.forall_mem_cons.mp (hm ▸ h.ibhMeta)
      split
      · simp only [List.append_nil]
        exact { h with ibhMeta := hq.2, ibhReg := fun hc => by simp [hs] at hc }
      · next hv =>
          simp only [List.append_nil]
          exact { h with ibhMeta := hq.2, ibhReg := fun _ => hq.1 (by simpa using hv) }
  · next r rest hs hr =>
      unfold getPsn
      split
      · simp only [List.append_nil]
        exact { h with ibhReg := fun hc => by cases hc }
      · next hop =>
          exact { h with
            ibhReg := fun hc => by cases hc
            insertMeta := forall_mem_append h.insertMeta (List.forall_mem_singleton.mpr (h.ibhReg hs hop)) }
  · simp only [List.append_nil]
    exact { h with }

theorem Timed.mergeRetrans (h : Timed t) : Timed t.callMergeRetrans := by
  simp only [callMergeRetrans, mergeRetransRequest]
  split
  · next m ms a as hm _ =>
      have hq := List.forall_mem_cons.mp (hm ▸ h.insertMeta)
      exact { h with
        insertMeta := hq.2
        proc := { h.proc with
          inserts := forall_mem_append h.proc.inserts (List.forall_mem_singleton.mpr hq.1) } }
  · simp only [List.append_nil]
    exact { h with }

theorem Timed.process (h : Timed t) : Timed t.callProcess := by
  obtain ⟨hproc, hout⟩ := processRetransmissions_timed h.proc
  simp only [callProcess, RetransNet.callProcess]
  exact { h with
    proc := hproc
    metaReq := forall_mem_append h.metaReq hout.writes
    again := forall_mem_append h.again hout.events }

theorem Timed.pointerTable (h : Timed t) : Timed t.callPointerTable := by
  simp only [callPointerTable]
  exact { h with proc := { h.proc with } }

theorem Timed.metaTableCall (h : Timed t) : Timed t.callMetaTable := by
  unfold callMetaTable
  cases hreq : t.retrans.metaReq with
  | nil =>
    simp only [retransMetaTable, List.append_nil]
    exact { h with metaReq := by simp }
  | cons r rest =>
    have hq := List.forall_mem_cons.mp (hreq ▸ h.metaReq)
    have htable : ∀ x, (r.apply t.retrans.metaTable x).Timed := by
      intro x
      cases r with
      | read idx => exact h.metaTable x
      | append idx nxt =>
        simp only [RetransMetaReq.apply, Function.update_apply]
        split
        · exact h.metaTable idx
        · exact h.metaTable x
      | write idx m =>
        simp only [RetransMetaReq.apply, Function.update_apply]
        split
        · exact hq.1
        · exact h.metaTable x
    have hreply : ∀ m ∈ r.reply t.retrans.metaTable, m.Timed := by
      cases r with
      | read idx => exact List.forall_mem_singleton.mpr (h.metaTable idx)
      | append | write => simp [RetransMetaReq.reply]
    simp only [retransMetaTable]
    exact { h with
      metaReq := hq.2, metaTable := htable
      proc := { h.proc with cells := forall_mem_append h.proc.cells hreply } }

def noSend : IndexLabel → Bool
  | .sqMeta m => !forwarded m.opCode || setsTimer m.opCode
  | _ => true

theorem timed_step {W : Nat} {l : IndexLabel} (h : Timed t) (hl : noSend l = true) (hs : t.step W l = some u) :
    Timed u := by
  cases l with
  | sqMeta m =>
    cases hs
    have hm : forwarded m.opCode = true → setsTimer m.opCode = true := by
      intro hf
      simpa [noSend, hf] using hl
    exact { h with posted := forall_mem_append h.posted (List.forall_mem_singleton.mpr hm) }
  | ibh _ | exhMeta _ | udpLength _ | header _ | qpContext _ | connReq _ =>
    cases hs
    exact { h with }
  | rxIbhFsm => cases hs; simp only [callIbh]; exact { h with proc := { h.proc with } }
  | rxExhFsm => cases hs; simp only [callExh]; exact { h with proc := { h.proc with } }
  | transportTimer full => cases hs; simp only [callTimer]; exact { h with proc := { h.proc with } }
  | freelist => cases hs; simp only [callFreelist]; exact { h with proc := { h.proc with } }
  | stateTable => cases hs; simp only [callStateTable]; exact { h with }
  | msnTable => cases hs; simp only [callMsnTable]; exact { h with }
  | streamMerger => cases hs; unfold callStreamMerger; split <;> exact { h with }
  | connTable => cases hs; simp only [callConnTable]; exact { h with }
  | txIpUdpMetaMerger => cases hs; simp only [callIpUdp]; exact { h with }
  | generateExh => cases hs; simp only [callGenerateExh]; exact { h with }
  | qpInterface => cases hs; simp only [callQpInterface]; exact { h with }
  | handleReadRequests => cases hs; exact h.readRequests
  | localReqHandler => cases hs; exact h.localReq
  | metaMerger => cases hs; exact h.metaMerger
  | generateIbh => cases hs; exact h.generateIbh
  | mergeRetransRequest => cases hs; exact h.mergeRetrans
  | process => cases hs; exact h.process
  | pointerTable => cases hs; exact h.pointerTable
  | metaTable => cases hs; exact h.metaTableCall

theorem timed_init : Timed {} := by
  refine ⟨?_, ?_, ?_, ?_, ?_, fun hc => (by cases hc), ?_, ⟨not_inserting (by simp) (by simp), ?_, ?_⟩, ?_,
    fun _ hv => (by cases hv)⟩
  all_goals exact fun _ hx => (List.not_mem_nil hx).elim

end IndexNet

end FpgaNetworkStack.Roce
