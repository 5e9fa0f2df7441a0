import FpgaNetworkStack.Toe.SeqAddress

/-!
# The FIN is the last segment

Data and FIN events of a session take different ways to `metaLoader`, and both `txEventMerger` and
`event_engine` let the way of the FIN go first.  When no FIN overtakes data, all bytes of the session are
sent below the FIN, and retransmissions stay below it.
-/

namespace FpgaNetworkStack.Toe

open Lib EventType SessionState

variable {b : Build} {sid : SessionID}

/-! ## What the handlers emit -/

theorem MetaLoader.handle_noFin {s : MetaLoader b} (h : s.mlCurEvent.type ≠ FIN) (rxSar : RxSarReply)
    (r : TxTxSarReply b) : ∀ m ∈ (s.handle rxSar r).2.txEngTcpMetaFifoOut, m.fin = false := by
  intro m hm
  unfold handle at hm
  cases he : s.mlCurEvent.type with
  | TX =>
    simp only [he, mlTx] at hm
    split at hm
    · cases hm
    · simp [mlSegment, mlHeader] at hm
      simp [hm]
  | RT =>
    simp only [he, mlRt] at hm
    generalize (if decide (b.mss.toNat < r.usedLength.toNat) = true then b.mss
      else r.usedLength.setWidth 16) = length at hm
    split at hm
    · cases hm
    · simp [mlSegment, mlHeader] at hm
      simp [hm]
  | ACK | ACK_NODELAY =>
    simp [he, mlAck, mlSegment, mlHeader] at hm
    simp [hm]
  | SYN =>
    simp [he, mlSyn, mlOpen, mlSegment] at hm
    simp [hm]
  | SYN_ACK =>
    simp [he, mlSynAck, mlOpen, mlSegment] at hm
    simp [hm]
  | FIN => exact absurd he h
  | RST =>
    simp only [he] at hm
    split at hm
    · simp [mlRstSession, mlSegment, rstMeta] at hm
      simp [hm]
    · simp [mlRstTuple, rstMeta] at hm
      simp [hm]

/-- A FIN event sends one segment, a first one under `not_ackd`. -/
theorem MetaLoader.handle_fin {s : MetaLoader b} (h : s.mlCurEvent.type = FIN) (rxSar : RxSarReply)
    (r : TxTxSarReply b) :
    ∃ m, (s.handle rxSar r).2.txEngTcpMetaFifoOut = [m] ∧ m.fin = true ∧
      (s.mlCurEvent.rtCount = 0 → m.seqNumb = r.notAckd) := by
  refine ⟨{ mlHeader s rxSar (if s.mlCurEvent.rtCount ≠ 0 then r.notAckd - 1 else r.notAckd) 0 with
    fin := true }, ?_, rfl, ?_⟩
  · simp [handle, h, mlFin, mlSegment]
  · intro h0
    simp [mlHeader, h0]

namespace PathNet

/-! ## The log of a session -/

/-- The segments of `sid`, in the order they were emitted. -/
def sessionLog (sid : SessionID) (log : List (ExtendedEvent b × TxEngineMeta)) :
    List (ExtendedEvent b × TxEngineMeta) :=
  log.filter (·.1.sessionID == sid)

def carriesData (s : ExtendedEvent b × TxEngineMeta) : Bool :=
  (s.1.type == TX || s.1.type == RT) && s.2.length != 0

/-- Sequence number comparison: `seq` lies before `fin`. -/
def Below (seq fin : BitVec 32) : Prop := 0 < (fin - seq).toNat ∧ (fin - seq).toNat < 2 ^ 31

/-- The replies a retransmission of the current event can work on. -/
def rtReplies (t : PathNet b) : List (TxTxSarReply b) :=
  if t.send.tx.ml.loaded then [t.send.tx.ml.txSarReg] else t.send.tx.fifo.txSar2txEngUpdRsp

/-- A retransmission of `sid` is not about to send a segment that starts at the FIN: after the FIN was
sent, more than its own number is outstanding from the start of the segment, or nothing. -/
def rtBelowFin (t : PathNet b) (sid : SessionID) : Bool :=
  !t.current.any (fun e => e.type == RT && e.sessionID == sid) ||
    t.rtReplies.all fun r => !r.finSent || r.usedLength != 1

/-- The steps that keep the FIN last. -/
def finOrdered (sid : SessionID) (t : PathNet b) : PathLabel b → Bool
  | .metaLoader => orderly sid t .metaLoader && t.rtBelowFin sid
  | l => orderly sid t l

variable {l : PathLabel b}

theorem finOrdered_orderly {t : PathNet b} (h : finOrdered sid t l = true) :
    orderly sid t l = true := by
  unfold finOrdered at h
  split at h
  · simp only [Bool.and_eq_true] at h
    exact h.1
  · exact h

/-- Before the FIN no segment has the flag; the first one comes after all data, and what carries data
later starts below it. -/
structure FinLog (sid : SessionID) (n₀ : Nat) (t : PathNet b) : Prop where
  before : t.finSent sid = false → ∀ s ∈ sessionLog sid t.emitted, s.2.fin = false
  after : t.finSent sid = true → ∃ pre f post, sessionLog sid t.emitted = pre ++ f :: post ∧
    (∀ s ∈ pre, s.2.fin = false) ∧ f.2.fin = true ∧
    f.2.seqNumb = BitVec.ofNat 32 (n₀ + ((t.writes sid).map Prod.snd).sum) ∧
    segments pre sid = blocks 32 n₀ ((t.writes sid).map Prod.snd) ∧
    ∀ s ∈ post, carriesData s = true → Below s.2.seqNumb f.2.seqNumb

theorem sessionLog_append (log log' : List (ExtendedEvent b × TxEngineMeta)) :
    sessionLog sid (log ++ log') = sessionLog sid log ++ sessionLog sid log' := by
  simp [sessionLog]

/-- Data of `sid` is in the log of `sid`. -/
theorem segments_sessionLog (log : List (ExtendedEvent b × TxEngineMeta)) :
    segments (sessionLog sid log) sid = segments log sid := by
  unfold segments sessionLog
  rw [List.filter_filter]
  congr 1
  apply List.filter_congr
  intro s _
  cases hd : s.1.isData sid with
  | false => rfl
  | true =>
    simp only [Event.isData, Bool.and_eq_true, beq_iff_eq] at hd
    simp [hd.1.2]

/-- The first FIN splits a log in one way only. -/
theorem split_unique {α : Type*} {p : α → Bool} {pre pre' post post' : List α} {f f' : α}
    (h : pre ++ f :: post = pre' ++ f' :: post') (hpre : ∀ s ∈ pre, p s = false) (hf : p f = true)
    (hpre' : ∀ s ∈ pre', p s = false) (hf' : p f' = true) : pre = pre' ∧ f = f' ∧ post = post' := by
  induction pre generalizing pre' with
  | nil =>
    cases pre' with
    | nil =>
      cases h
      exact ⟨rfl, rfl, rfl⟩
    | cons a pre' =>
      cases h
      rw [hpre' f List.mem_cons_self] at hf
      cases hf
  | cons a pre ih =>
    cases pre' with
    | nil =>
      cases h
      rw [hpre f' List.mem_cons_self] at hf'
      cases hf'
    | cons a' pre' =>
      rw [List.cons_append, List.cons_append, List.cons.injEq] at h
      obtain ⟨rfl, h⟩ := h
      obtain ⟨rfl, rest⟩ := ih h (fun s hs => hpre s (List.mem_cons_of_mem _ hs))
        (fun s hs => hpre' s (List.mem_cons_of_mem _ hs))
      exact ⟨rfl, rest⟩

/-! ## Steps -/

variable {n₀ A N : Nat} {sent : List Nat} {t : PathNet b} {u : PathNet b} {time64us : BitVec 12}

/-- Only `metaLoader` emits segments and sends the FIN, and only `tasi_metaLoader` accepts writes. -/
theorem step_logs (hs : t.step sid time64us l = some u) (hl : l ≠ .metaLoader) :
    u.emitted = t.emitted ∧ u.finSent sid = t.finSent sid ∧
      (l ≠ .app .tasi → u.accepted = t.accepted) := by
  cases l with
  | app l =>
    cases l with
    | ackPush p => cases hs
    | tasi =>
      cases hs
      exact ⟨rfl, rfl, fun h => absurd rfl h⟩
    | request | table =>
      cases hs
      exact ⟨rfl, rfl, fun _ => rfl⟩
    | stateRsp state =>
      simp only [step, Option.map_eq_some_iff] at hs
      obtain ⟨app, -, rfl⟩ := hs
      exact ⟨rfl, rfl, fun _ => rfl⟩
  | appIf | timer =>
    simp only [step] at hs
    split at hs <;> cases hs
    exact ⟨rfl, rfl, fun _ => rfl⟩
  | rx l =>
    cases l with
    | txSarTable r => cases hs
    | _ =>
      simp only [step, Option.map_eq_some_iff] at hs
      obtain ⟨rx, -, rfl⟩ := hs
      exact ⟨rfl, rfl, fun _ => rfl⟩
  | metaLoader => exact absurd rfl hl
  | txSarTable =>
    cases hs
    exact ⟨rfl, congrArg SendPoint.finSent (t.send.tx.callTable_sendPoint _ sid), fun _ => rfl⟩
  | txEventMerger | reset | rxEventMerger | eventEngine | ackDelay | rxSarRsp | appPush =>
    cases hs
    exact ⟨rfl, rfl, fun _ => rfl⟩

/-- Once the FIN was sent no write of `sid` is accepted. -/
theorem tasi_writes (hok : orderly sid t (.app .tasi) = true)
    (hs : t.step sid time64us (.app .tasi) = some u) (hf : t.finSent sid = true) :
    u.writes sid = t.writes sid := by
  simp only [step, Option.some.injEq] at hs
  simp only [orderly, closing, hf, Bool.true_or, Bool.not_true, Bool.or_false, Bool.not_eq_true'] at hok
  have hnil : t.app.callTasi.2.txAppStream2eventEngSetEvent.filter (·.isData sid) = [] := by
    rw [List.filter_eq_nil_iff]
    intro e he
    have := List.any_eq_false.mp hok e he
    simp only [beq_iff_eq] at this
    simp [isData_other this]
  rw [← hs]
  simp [writes, hnil]

theorem FinLog.other (h : FinLog sid n₀ t)
    (hok : orderly sid t l = true) (hs : t.step sid time64us l = some u) (hl : l ≠ .metaLoader) :
    FinLog sid n₀ u := by
  obtain ⟨hemit, hfin, hacc⟩ := step_logs hs hl
  have hwr : t.finSent sid = true → u.writes sid = t.writes sid := by
    intro hf
    by_cases hl' : l = .app .tasi
    · subst hl'
      exact tasi_writes hok hs hf
    · rw [writes, writes, hacc hl']
  constructor
  · rw [hfin, hemit]
    exact h.before
  · rw [hfin, hemit]
    intro hf
    rw [hwr hf]
    exact h.after hf

theorem FinLog.append (h : FinLog sid n₀ t)
    (log : List (ExtendedEvent b × TxEngineMeta)) (hemit : u.emitted = t.emitted ++ log) (hwr : u.accepted = t.accepted)
    (hfin : u.finSent sid = t.finSent sid)
    (hlog : ∀ s ∈ sessionLog sid log, t.finSent sid = false → s.2.fin = false)
    (hbelow : ∀ s ∈ sessionLog sid log, t.finSent sid = true → carriesData s = true →
      Below s.2.seqNumb (BitVec.ofNat 32 (n₀ + ((t.writes sid).map Prod.snd).sum))) : FinLog sid n₀ u := by
  constructor
  · intro hf s hs
    rw [hfin] at hf
    rw [hemit, sessionLog_append] at hs
    rcases List.mem_append.mp hs with hs | hs
    · exact h.before hf s hs
    · exact hlog s hs hf
  · intro hf
    rw [hfin] at hf
    obtain ⟨pre, f, post, hsplit, hpre, hff, hseq, hseg, hpost⟩ := h.after hf
    rw [writes, hwr]
    refine ⟨pre, f, post ++ sessionLog sid log, ?_, hpre, hff, hseq, hseg, ?_⟩
    · rw [hemit, sessionLog_append, hsplit, List.append_assoc, List.cons_append]
    · intro s hs hd
      rcases List.mem_append.mp hs with hs | hs
      · exact hpost s hs hd
      · rw [hseq]
        exact hbelow s hs hf hd

/-- A retransmission after the FIN starts below it. -/
theorem rt_below (h : Path sid n₀ t A N sent) (hok : t.rtBelowFin sid = true)
    (hf : t.finSent sid = true) (hW : t.send.tx.ml.mlFsmState = .WORK)
    (hrt : t.send.tx.ml.mlCurEvent.type = RT) (hid : t.send.tx.ml.mlCurEvent.sessionID = sid)
    {rxSar : RxSarReply} {r : TxTxSarReply b} {fifo : MetaLoaderIn b}
    (htaken : t.send.tx.ml.Taken t.send.tx.fifo fifo r)
    (hr : t.send.tx.ml.asks = true ∨ t.send.tx.ml.loaded = true →
      r.sendPoint = t.send.tx.sendPoint t.send.tx.ml.mlCurEvent.sessionID) {m : TxEngineMeta}
    (hm : m ∈ (t.send.tx.ml.handle rxSar r).2.txEngTcpMetaFifoOut) :
    Below m.seqNumb (BitVec.ofNat 32 (n₀ + sent.sum)) := by
  obtain ⟨hseq, hlen, hle, -⟩ := MetaLoader.handle_rtSegment hrt rxSar r hm
  obtain ⟨x, hn, hx, hP, ha, hu⟩ := work_held h hW htaken hid hrt
  have hsize : b.bufferSize ≤ 262144 := by
    rcases b.bufferSize_eq with hs | hs <;> omega
  have hone : 1 < b.bufferSize := by
    rcases b.bufferSize_eq with hs | hs <;> omega
  simp only [hf, Bool.toNat_true] at hx hP hu
  have hmem : r ∈ t.rtReplies := by
    unfold rtReplies
    cases hl : t.send.tx.ml.loaded with
    | true =>
      rw [if_pos rfl, htaken.register hl]
      exact List.mem_singleton.mpr rfl
    | false =>
      have hask : t.send.tx.ml.asks = true := by simp [MetaLoader.asks, hrt, hl]
      rw [if_neg (by simp), htaken.fifo, hask, if_pos rfl]
      exact List.mem_cons_self
  have hrf : r.finSent = true := by
    have hheld : t.send.tx.ml.asks = true ∨ t.send.tx.ml.loaded = true := by
      cases hl : t.send.tx.ml.loaded <;> simp [MetaLoader.asks, hrt, hl]
    have := congrArg SendPoint.finSent (hr hheld)
    rw [hid] at this
    exact this.trans hf
  have hne : r.usedLength ≠ 1 := by
    simp only [rtBelowFin, current_work hW, List.any_cons, hrt, hid, beq_self_eq_true, Bool.and_self,
      Bool.true_or, Bool.not_true, Bool.false_or, List.all_eq_true] at hok
    have := hok r hmem
    simpa [hrf] using this
  -- the segment is not empty, so something is outstanding
  have hpos : 0 < m.length.toNat := by
    apply Nat.pos_of_ne_zero
    intro h0
    exact hlen (BitVec.eq_of_toNat_eq (by simpa using h0))
  have hxF : x < n₀ + sent.sum := by
    by_contra hge
    have hcase : n₀ + sent.sum + 1 - x = 0 ∨ n₀ + sent.sum + 1 - x = 1 := by omega
    rcases hcase with h0 | h1
    · rw [hu, h0] at hle
      simp at hle
      omega
    · rw [h1] at hu
      exact hne hu
  rw [hseq, ha]
  constructor
  · rw [ofNat_sub_toNat (Nat.le_of_lt hxF) (by omega)]
    omega
  · rw [ofNat_sub_toNat (Nat.le_of_lt hxF) (by omega)]
    omega

theorem writes_lengths (h : Path sid n₀ t A N sent) :
    (t.writes sid).map Prod.snd = sent ++ lengths sid (t.current ++ t.route) := by
  rw [h.writes, blocks_map_snd]

theorem FinLog.work {tx : TxNet b} {rxSar : RxSarReply} {r : TxTxSarReply b}
    {fifo : MetaLoaderIn b} (hl : FinLog sid n₀ t) (h : Path sid n₀ t A N sent)
    (hok : finOrdered sid t .metaLoader = true) (hW : t.send.tx.ml.mlFsmState = .WORK)
    (htaken : t.send.tx.ml.Taken t.send.tx.fifo fifo r)
    (hr : t.send.tx.ml.asks = true ∨ t.send.tx.ml.loaded = true →
      r.sendPoint = t.send.tx.sendPoint t.send.tx.ml.mlCurEvent.sessionID)
    (hu : MlCall t u tx ((t.send.tx.ml.handle rxSar r).2.txEngTcpMetaFifoOut.map
      fun m => (t.send.tx.ml.mlCurEvent, m)))
    (hpoint : tx.sendPoint sid = ((t.send.tx.ml.handle rxSar r).2.txEng2txSarUpdReq.filter
      (fun q => q.write && q.sessionID == sid)).foldl SendPoint.update (t.send.tx.sendPoint sid)) :
    FinLog sid n₀ u := by
  simp only [finOrdered, Bool.and_eq_true] at hok
  obtain ⟨hord, hrtok⟩ := hok
  rw [work_sendPoint h rxSar hW hr] at hpoint
  have hfin : u.finSent sid = (tx.sendPoint sid).finSent := by rw [finSent, hu.send]
  rw [hpoint] at hfin
  have hcur := current_work hW
  by_cases hid : t.send.tx.ml.mlCurEvent.sessionID = sid
  · have hmem {s : ExtendedEvent b × TxEngineMeta}
        (hs : s ∈ sessionLog sid ((t.send.tx.ml.handle rxSar r).2.txEngTcpMetaFifoOut.map
          fun m => (t.send.tx.ml.mlCurEvent, m))) :
        s.1 = t.send.tx.ml.mlCurEvent ∧ s.2 ∈ (t.send.tx.ml.handle rxSar r).2.txEngTcpMetaFifoOut := by
      obtain ⟨m, hm, rfl⟩ := List.mem_map.mp (List.mem_of_mem_filter hs)
      exact ⟨rfl, hm⟩
    by_cases htype : t.send.tx.ml.mlCurEvent.type = FIN
    · have hisFin : t.send.tx.ml.mlCurEvent.isFin sid = true := by simp [Event.isFin, htype, hid]
      by_cases hrt : t.send.tx.ml.mlCurEvent.rtCount = 0
      · -- the first FIN: all data of the session has been sent
        have hbefore : t.finSent sid = false := by
          simpa [orderly, hcur, hisFin, hrt] using hord
        rw [if_pos ⟨hid, .inr ⟨htype, hrt⟩⟩] at hfin
        have hafter : u.finSent sid = true := by simp [hfin, htype]
        obtain ⟨m, hm, hmfin, hmseq⟩ := MetaLoader.handle_fin htype rxSar r
        have hnil : lengths sid (t.current ++ t.route) = [] := by
          have horder := h.order
          rw [hcur] at horder ⊢
          exact (lengths_cons_other (isFin_not_data hisFin) _).trans (horder.head hisFin)
        have hlens := writes_lengths h
        rw [hnil, List.append_nil] at hlens
        have hrN : r.notAckd = BitVec.ofNat 32 (n₀ + sent.sum) := by
          have hheld : t.send.tx.ml.asks = true ∨ t.send.tx.ml.loaded = true := by
            cases hl : t.send.tx.ml.loaded <;> simp [MetaLoader.asks, htype, hl]
          have hN := h.window.sendPoint
          rw [hbefore, Bool.toNat_false, Nat.add_zero] at hN
          rw [← hN, ← hid, ← hr hheld]
          rfl
        constructor
        · intro hf
          rw [hafter] at hf
          cases hf
        · intro _
          have hwr : u.writes sid = t.writes sid := by rw [writes, writes, hu.accepted]
          rw [hwr, hlens]
          refine ⟨sessionLog sid t.emitted, (t.send.tx.ml.mlCurEvent, m), [], ?_, hl.before hbefore, hmfin,
            ?_, ?_, by simp⟩
          · rw [hu.emitted, sessionLog_append, hm]
            simp [sessionLog, hid]
          · rw [← hrN]
            exact hmseq hrt
          · rw [segments_sessionLog, h.segments]
      · -- a repeated FIN carries no data
        have hafter := h.repeated _ (by rw [hcur]; exact List.mem_singleton.mpr rfl) hisFin hrt
        have hskip : ¬(t.send.tx.ml.mlCurEvent.sessionID = sid ∧ (t.send.tx.ml.mlCurEvent.type = TX ∨
            t.send.tx.ml.mlCurEvent.type = FIN ∧ t.send.tx.ml.mlCurEvent.rtCount = 0)) := by
          rintro ⟨-, hTX | hFIN⟩
          · rw [htype] at hTX
            cases hTX
          · exact hrt hFIN.2
        rw [if_neg hskip] at hfin
        refine hl.append _ hu.emitted hu.accepted hfin ?_ ?_
        · intro s _ hf
          rw [hafter] at hf
          cases hf
        · intro s hs _ hd
          rw [carriesData, (hmem hs).1, htype] at hd
          cases hd
    · have hsame : u.finSent sid = t.finSent sid := by
        rw [hfin]
        split
        · simp [htype]
        · rfl
      refine hl.append _ hu.emitted hu.accepted hsame ?_ ?_
      · exact fun s hs _ => MetaLoader.handle_noFin htype rxSar r _ (hmem hs).2
      · intro s hs hf hd
        obtain ⟨he, hm⟩ := hmem hs
        simp only [carriesData, he, Bool.and_eq_true, Bool.or_eq_true, beq_iff_eq] at hd
        have hnil := h.done hf
        rcases hd.1 with hTX | hRT
        · -- no data event is left
          exfalso
          rw [MetaLoader.handle_tx hTX] at hm
          split at hm
          · cases hm
          · next hlen =>
              rw [hcur] at hnil
              have := lengths_eq_nil.mp hnil _ (List.mem_append_left _ (List.mem_singleton.mpr rfl))
              simp only [Event.isData, hTX, hid, beq_self_eq_true, Bool.and_self, Bool.true_and,
                bne_eq_false_iff_eq] at this
              exact hlen this
        · rw [writes_lengths h, hnil, List.append_nil]
          exact rt_below h hrtok hf hW hRT hid htaken hr hm
  · have hnone : sessionLog sid ((t.send.tx.ml.handle rxSar r).2.txEngTcpMetaFifoOut.map
        fun m => (t.send.tx.ml.mlCurEvent, m)) = [] := by
      rw [sessionLog, List.filter_eq_nil_iff]
      intro s hs
      obtain ⟨m, -, rfl⟩ := List.mem_map.mp hs
      simp [hid]
    rw [if_neg fun hc => hid hc.1] at hfin
    refine hl.append _ hu.emitted hu.accepted hfin ?_ ?_
    · simp [hnone]
    · simp [hnone]

theorem FinLog.metaLoader (hl : FinLog sid n₀ t)
    (h : Path sid n₀ t A N sent) (hok : finOrdered sid t .metaLoader = true)
    (hs : t.step sid time64us .metaLoader = some u) : FinLog sid n₀ u := by
  simp only [step, Option.some.injEq] at hs
  have hpoint := t.send.tx.callMl_sendPoint sid
  have hcalled := h.engines.tx.called
  have hu : MlCall t u t.send.tx.callMl.1
      (t.send.tx.callMl.2.txEngTcpMetaFifoOut.map fun m => (t.send.tx.ml.mlCurEvent, m)) := by
    rw [← hs]
    exact ⟨rfl, rfl, rfl, rfl, rfl, rfl, rfl, rfl, rfl, rfl⟩
  generalize t.send.tx.callMl = v at hu hpoint hcalled
  cases hcalled with
  | idle ml hml =>
    have hfin : u.finSent sid = t.finSent sid := by
      rw [finSent, hu.send]
      rfl
    exact hl.append [] hu.emitted hu.accepted hfin (by simp [sessionLog]) (by simp [sessionLog])
  | take e rest ml hI hev hW hcur hload =>
    have hnone : (mlRequests e).txEngTcpMetaFifoOut = [] := by
      unfold mlRequests
      split <;> rfl
    have hfilter : (mlRequests e).txEng2txSarUpdReq.filter
        (fun q => q.write && q.sessionID == sid) = [] := by
      rw [TxNet.mlRequests_asks e ml hcur hload]
      split <;> rfl
    dsimp only at hpoint
    rw [hfilter] at hpoint
    have hfin : u.finSent sid = t.finSent sid := by
      rw [finSent, hu.send]
      exact congrArg SendPoint.finSent hpoint
    have hemit := hu.emitted
    simp only [hnone, List.map_nil] at hemit
    exact hl.append [] hemit hu.accepted hfin (by simp [sessionLog]) (by simp [sessionLog])
  | work rxSar r fifo hW htaken hr => exact hl.work h hok hW htaken hr hu hpoint

theorem fin_inv_step (hb : b.tcpNodelay = true)
    (h : Inv sid n₀ t ∧ FinLog sid n₀ t) (hok : finOrdered sid t l = true)
    (hs : t.step sid time64us l = some u) : Inv sid n₀ u ∧ FinLog sid n₀ u := by
  have hord := finOrdered_orderly hok
  refine ⟨inv_step hb h.1 hord hs, ?_⟩
  by_cases hl : l = .metaLoader
  · subst hl
    obtain ⟨-, A, N, sent, hp⟩ := h.1
    exact h.2.metaLoader hp hok hs
  · exact h.2.other hord hs hl

/-! ## Main result -/

/-- In every run of a session from its initialisation whose steps keep FIN and data in order, the first FIN
segment of the session comes after all the bytes of all accepted writes, under the sequence number behind
them, and every segment with data that is emitted later starts below the FIN. -/
theorem fin_last {n : BitVec 32} {time64us : BitVec 12} {t₀ t : PathNet b} (hb : b.tcpNodelay = true)
    (h₀ : Opened sid n t₀) (h : Reach (step sid time64us) (fun t l => finOrdered sid t l = true) t₀ t) :
    ∀ pre f post, sessionLog sid t.emitted = pre ++ f :: post → (∀ s ∈ pre, s.2.fin = false) →
      f.2.fin = true →
      segments pre sid = blocks 32 ((n - 1).toNat + 1) ((t.writes sid).map Prod.snd) ∧
        f.2.seqNumb = n + BitVec.ofNat 32 ((t.writes sid).map Prod.snd).sum ∧
        ∀ s ∈ post, carriesData s = true → Below s.2.seqNumb f.2.seqNumb := by
  have hlog₀ : FinLog sid ((n - 1).toNat + 1) t₀ := by
    have hempty : sessionLog sid t₀.emitted = [] := by simp [h₀.logs, sessionLog]
    refine ⟨by simp [hempty], fun hf => ?_⟩
    rw [h₀.finSent] at hf
    cases hf
  have hinv := h.invariant (P := fun t => Inv sid ((n - 1).toNat + 1) t ∧ FinLog sid ((n - 1).toNat + 1) t)
    ⟨h₀.inv, hlog₀⟩ fun u l v hu hok hs => fin_inv_step hb hu hok hs
  intro pre f post hsplit hpre hf
  have hfin : t.finSent sid = true := by
    cases hfs : t.finSent sid with
    | true => rfl
    | false =>
      have := hinv.2.before hfs f (by rw [hsplit]; simp)
      rw [this] at hf
      cases hf
  obtain ⟨pre', f', post', hsplit', hpre', hf', hseq, hseg, hpost⟩ := hinv.2.after hfin
  obtain ⟨rfl, rfl, rfl⟩ := split_unique (p := fun s => s.2.fin) (hsplit.symm.trans hsplit') hpre hf hpre' hf'
  refine ⟨hseg, ?_, hpost⟩
  rw [hseq, BitVec.ofNat_add, ofNat_start]

def close : List (PathLabel b) :=
  [.appIf ⟨.CLOSE_CONN, 0⟩ { stateTable2txAppUpdRsp := [ESTABLISHED] }, .txEventMerger]

theorem fin_last_write :
    ∃ t, Reach (step 0 0) (fun t l => finOrdered 0 t l = true) (opened .sample 0 1000) t ∧
      ∃ pre f post, sessionLog 0 t.emitted = pre ++ f :: post ∧ f.2.fin = true ∧
        t.writes 0 = [(1000, 10)] ∧ segments pre 0 = [(1000, 10)] ∧ f.2.seqNumb = 1010 := by
  have h : (runIf (step 0 0) (fun t l => finOrdered 0 t l = true) (opened .sample 0 1000)
      (handshake ++ write 10 ++ transmit ++ close ++ fetch ++ [.metaLoader])).map
      (fun t => decide ((sessionLog 0 t.emitted).map (fun s => s.2.fin) = [false, true]) &&
        decide (t.writes 0 = [(1000, 10)])) = some true := by
    decide +kernel
  obtain ⟨t, ht, hp⟩ := Option.map_eq_some_iff.mp h
  simp only [Bool.and_eq_true, decide_eq_true_eq] at hp
  obtain ⟨hlog, hwr⟩ := hp
  have hr := reach_of_runIf ht
  obtain ⟨d, l, hd, hd', hl⟩ := List.map_eq_cons_iff.mp hlog
  obtain ⟨f, post, hf, hf', -⟩ := List.map_eq_cons_iff.mp hl
  have hsplit : sessionLog 0 t.emitted = [d] ++ f :: post := by rw [hd, hf, List.singleton_append]
  obtain ⟨hseg, hseq, -⟩ := fin_last rfl (opened_opened 0 1000) hr [d] f post hsplit
    (by simpa using hd') hf'
  refine ⟨t, hr, [d], f, post, hsplit, hf', hwr, ?_, ?_⟩
  · rw [hseg, hwr]
    decide
  · rw [hseq, hwr]
    decide

-- The write waits in `txAppStream2eventMergeEvent` when the application closes, and `txEventMerger` takes
-- the FIN first: the FIN has the number of the first byte, and the data follows behind it.
theorem fin_overtakes_write :
    ∃ t, Opened 0 1000 (opened .sample 0 1000) ∧
      Reach (step 0 0) (fun _ _ => True) (opened .sample 0 1000) t ∧
      t.writes 0 = [(1000, 10)] ∧ (sessionLog 0 t.emitted).map (fun s =>
        (s.2.fin, carriesData s, s.2.seqNumb)) = [(true, false, 1000), (false, true, 1001)] := by
  have h : (run (step 0 0) (opened .sample 0 1000)
      (handshake ++ write 10 ++ close ++ fetch ++ [.metaLoader, .txSarTable] ++ transmit)).map
      (fun t => decide ((sessionLog 0 t.emitted).map (fun s => (s.2.fin, carriesData s, s.2.seqNumb)) =
          [(true, false, 1000), (false, true, 1001)]) &&
        decide (t.writes 0 = [(1000, 10)])) = some true := by
    decide +kernel
  obtain ⟨t, ht, hp⟩ := Option.map_eq_some_iff.mp h
  simp only [Bool.and_eq_true, decide_eq_true_eq] at hp
  exact ⟨t, opened_opened 0 1000, reach_of_run ht, hp.2, hp.1⟩

end PathNet

end FpgaNetworkStack.Toe
