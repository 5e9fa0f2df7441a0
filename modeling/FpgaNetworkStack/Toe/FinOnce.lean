import FpgaNetworkStack.Toe.EventEngine
import FpgaNetworkStack.Toe.TxAppIf
import FpgaNetworkStack.Toe.TxNet

/-!
# The sequence number of the FIN

`metaLoader` sends a FIN for a FIN event and, after the FIN was sent, at the end of a retransmission.
A first FIN takes the number `not_ackd` and advances it; a repeated one is meant to reuse the number
before `not_ackd`, and the retry count of the event tells the two apart.
-/

namespace FpgaNetworkStack.Toe

open Lib EventType

variable {b : Build} {sid : SessionID}

/-! ## The network -/

variable (b) in
structure FinNet where
  appIf : TxAppIf
  appIn : TxAppIfIn
  tx : TxNet b
  rxReq : List (RxTxSarQuery b)
  /-- How often `not_ackd` of the session was advanced for a FIN. -/
  finUpdates : Nat

variable (b) in
inductive FinLabel where
  | close (id : SessionID)
  | closeState (state : SessionState)
  | appIf
  | event (e : ExtendedEvent b)
  | rxRequest (q : RxTxSarQuery b)
  | appPush (p : TxAppTxSarPush b)
  | rxSarRsp (r : RxSarReply)
  | metaLoader
  | txSarTable

/-- Sequence numbers of the FIN segments of `sid` among the emitted ones. -/
def finSeqs (sid : SessionID) (sent : List (SessionID × TxEngineMeta)) : List (BitVec 32) :=
  (sent.filter fun s => s.1 == sid && s.2.fin).map (·.2.seqNumb)

namespace FinNet

/-- An event the receive engine or a timer may raise while the connection lasts: it does not open
session `sid`, and a FIN has retry count 0 (the timers repeat a FIN with an RT event). -/
def raised (sid : SessionID) (e : ExtendedEvent b) : Bool :=
  !(e.sessionID == sid && e.opens) && !(e.type == FIN && e.rtCount != 0)

/-- The advance of `not_ackd` of `sid` for a FIN in the requests of one call. -/
def finCount (sid : SessionID) (qs : List TxTxSarQuery) : Nat :=
  qs.countP fun q => q.sessionID == sid && q.finSent

/-- Close requests go through `tx_app_if`; all other events, the replies of the state and rx_sar tables
and the requests of the receive engine are the environment. -/
def step (sid : SessionID) (t : FinNet b) : FinLabel b → Option (FinNet b)
  | .close id => some { t with appIn := { t.appIn with closeConnReq := t.appIn.closeConnReq ++ [id] } }
  | .closeState state => some { t with appIn := { t.appIn with
      stateTable2txAppUpdRsp := t.appIn.stateTable2txAppUpdRsp ++ [state] } }
  | .appIf =>
    let (appIf, appIn, out) := txAppIf b 0 t.appIf t.appIn
    some { t with
      appIf, appIn
      tx := { t.tx with fifo := { t.tx.fifo with eventEng2txEngEvent :=
        t.tx.fifo.eventEng2txEngEvent ++ out.txApp2eventEngSetEvent.map Event.extended } } }
  | .event e =>
    if raised sid e then
      some { t with tx := { t.tx with fifo := { t.tx.fifo with
        eventEng2txEngEvent := t.tx.fifo.eventEng2txEngEvent ++ [e] } } }
    else none
  | .rxRequest q => some { t with rxReq := t.rxReq ++ [q] }
  | .appPush p => some { t with tx := { t.tx with appPush := t.tx.appPush ++ [p] } }
  | .rxSarRsp r => some { t with tx := { t.tx with fifo := { t.tx.fifo with
      rxSar2txEngRsp := t.tx.fifo.rxSar2txEngRsp ++ [r] } } }
  | .metaLoader =>
    let (tx, out) := t.tx.callMl
    some { t with tx, finUpdates := t.finUpdates + finCount sid out.txEng2txSarUpdReq }
  | .txSarTable =>
    let (tx, rest, _) := t.tx.callTable t.rxReq
    some { t with tx, rxReq := rest }

/-- The event `metaLoader` works on advances `not_ackd` as if the FIN had not been sent: a FIN that
counts as a first one, or data. -/
def advances (e : ExtendedEvent b) : Bool :=
  e.type == FIN && e.rtCount == 0 || e.type == TX && e.length != 0

/-- Such an event of `sid` is worked on only while the FIN of `sid` has not been sent. -/
def fresh (sid : SessionID) (t : FinNet b) : FinLabel b → Bool
  | .metaLoader => t.tx.ml.mlFsmState != .WORK || t.tx.ml.mlCurEvent.sessionID != sid ||
      !advances t.tx.ml.mlCurEvent || !(t.tx.sendPoint sid).finSent
  | _ => true

end FinNet

/-! ## What `metaLoader` emits -/

/-- Segments with FIN set come from FIN events, one for each. -/
theorem handle_finSeqs (sid : SessionID) (s : MetaLoader b) (rxSar : RxSarReply) (r : TxTxSarReply b) :
    finSeqs sid ((s.handle rxSar r).2.txEng2sLookupRevReq.zip (s.handle rxSar r).2.txEngTcpMetaFifoOut) =
      if s.mlCurEvent.type = FIN ∧ s.mlCurEvent.sessionID = sid then
        [if s.mlCurEvent.rtCount ≠ 0 then r.notAckd - 1 else r.notAckd]
      else [] := by
  unfold MetaLoader.handle finSeqs
  cases he : s.mlCurEvent.type with
  | TX =>
    simp only [mlTx]
    split <;> simp [mlSegment, mlHeader]
  | RT =>
    simp only [mlRt]
    generalize (if decide (b.mss.toNat < r.usedLength.toNat) = true then b.mss
      else r.usedLength.setWidth 16) = length
    split <;> simp [mlSegment, mlHeader]
  | ACK | ACK_NODELAY => simp [mlAck, mlSegment, mlHeader]
  | SYN => simp [mlSyn, mlOpen, mlSegment]
  | SYN_ACK => simp [mlSynAck, mlOpen, mlSegment]
  | FIN =>
    by_cases hid : s.mlCurEvent.sessionID = sid
    · simp [mlFin, mlSegment, mlHeader, hid]
    · simp [mlFin, mlSegment, hid]
  | RST =>
    dsimp only
    split <;> simp [mlRstSession, mlRstTuple, mlSegment, rstMeta]

theorem finSeqs_append (sent sent' : List (SessionID × TxEngineMeta)) :
    finSeqs sid (sent ++ sent') = finSeqs sid sent ++ finSeqs sid sent' := by
  simp [finSeqs]

/-- `tx_app_if` raises FIN events only, unless a session is looked up. -/
theorem txAppIf_events (ip : BitVec 32) (s : TxAppIf) (i : TxAppIfIn) (h : i.sLookup2txAppRsp = []) :
    (txAppIf b ip s i).2.1.sLookup2txAppRsp = [] ∧
      ∀ e ∈ (txAppIf b ip s i).2.2.txApp2eventEngSetEvent, e.type = FIN ∧ e.rtCount = 0 := by
  have hopen : (openConnection ip i).1.sLookup2txAppRsp = [] := by
    unfold openConnection
    split <;> exact h
  unfold txAppIf taiFsm
  dsimp only
  split
  · split
    · next hl => simp [hopen] at hl
    · exact ⟨hopen, by simp⟩
    · exact ⟨hopen, by simp⟩
    · exact ⟨hopen, by simp⟩
    · exact ⟨hopen, by simp⟩
  · split
    · exact ⟨hopen, by simp⟩
    · refine ⟨hopen, ?_⟩
      split <;> simp

/-! ## The invariant -/

namespace FinNet

structure Inv (sid : SessionID) (t : FinNet b) : Prop where
  tx : t.tx.Inv
  noLookup : t.appIn.sLookup2txAppRsp = []
  events : ∀ e ∈ t.tx.fifo.eventEng2txEngEvent, raised sid e = true
  event : t.tx.ml.mlFsmState = .WORK → t.tx.ml.mlCurEvent.sessionID = sid →
    t.tx.ml.mlCurEvent.opens = false ∧
      (t.tx.ml.mlCurEvent.type = FIN → t.tx.ml.mlCurEvent.rtCount ≠ 0 →
        (t.tx.sendPoint sid).finSent = true)
  /-- Before the FIN nothing was counted, afterwards one update, and all FINs had the number before
  `not_ackd`. -/
  before : (t.tx.sendPoint sid).finSent = false → t.finUpdates = 0 ∧ finSeqs sid t.tx.sent = []
  after : (t.tx.sendPoint sid).finSent = true → t.finUpdates = 1 ∧ finSeqs sid t.tx.sent ≠ [] ∧
    ∀ f ∈ finSeqs sid t.tx.sent, f = (t.tx.sendPoint sid).notAckd - 1

variable {t u : FinNet b}

/-- Steps that leave the send point, the emitted segments and `metaLoader` alone. -/
theorem Inv.same (h : Inv sid t) (htx : u.tx.Inv)
    (hlookup : u.appIn.sLookup2txAppRsp = [])
    (hevents : ∀ e ∈ u.tx.fifo.eventEng2txEngEvent, raised sid e = true) (hml : u.tx.ml = t.tx.ml)
    (hpoint : u.tx.sendPoint sid = t.tx.sendPoint sid) (hsent : u.tx.sent = t.tx.sent)
    (hcount : u.finUpdates = t.finUpdates) : Inv sid u := by
  refine ⟨htx, hlookup, hevents, ?_, ?_, ?_⟩
  · rw [hml, hpoint]
    exact h.event
  · rw [hpoint, hsent, hcount]
    exact h.before
  · rw [hpoint, hsent, hcount]
    exact h.after

theorem foldl_other {qs : List TxTxSarQuery} {id : SessionID} (h : ∀ q ∈ qs, q.sessionID = id)
    (hid : id ≠ sid) : qs.filter (fun q => q.write && q.sessionID == sid) = [] ∧ finCount sid qs = 0 := by
  constructor
  · rw [List.filter_eq_nil_iff]
    intro q hq
    simp [h q hq, hid]
  · rw [finCount, List.countP_eq_zero]
    intro q hq
    simp [h q hq, hid]

theorem Inv.work {t : FinNet b} (h : Inv sid t) (hok : fresh sid t .metaLoader = true)
    (rxSar : RxSarReply) {r : TxTxSarReply b}
    (hW : t.tx.ml.mlFsmState = .WORK) (hr : t.tx.ml.asks = true ∨ t.tx.ml.loaded = true →
      r.sendPoint = t.tx.sendPoint t.tx.ml.mlCurEvent.sessionID) :
    let out := (t.tx.ml.handle rxSar r).2
    let p := (out.txEng2txSarUpdReq.filter (fun q => q.write && q.sessionID == sid)).foldl
      SendPoint.update (t.tx.sendPoint sid)
    let sent := finSeqs sid (t.tx.sent ++ out.txEng2sLookupRevReq.zip out.txEngTcpMetaFifoOut)
    let count := t.finUpdates + finCount sid out.txEng2txSarUpdReq
    (p.finSent = false → count = 0 ∧ sent = []) ∧
      (p.finSent = true → count = 1 ∧ sent ≠ [] ∧ ∀ f ∈ sent, f = p.notAckd - 1) ∧
      (t.tx.ml.mlCurEvent.type = RT → p = t.tx.sendPoint sid) := by
  intro out p sent count
  have hwrites := t.tx.ml.handle_writes rxSar r
  have hfins := handle_finSeqs sid t.tx.ml rxSar r
  by_cases hid : t.tx.ml.mlCurEvent.sessionID = sid
  · obtain ⟨hopen, hrep⟩ := h.event hW hid
    rw [hid] at hr
    rcases MetaLoader.handle_advance hopen rxSar r with hrt | ⟨hheld, htype, hone⟩
    · -- the pointer stays: no FIN goes out, or a repeated one
      have hp : p = t.tx.sendPoint sid :=
        SendPoint.foldl_rt _ _ fun q hq => (hrt q (List.mem_of_mem_filter hq)).1
      have hcount : count = t.finUpdates := by
        have h0 : finCount sid out.txEng2txSarUpdReq = 0 := by
          rw [finCount, List.countP_eq_zero]
          intro q hq
          simp [(hrt q hq).2]
        show t.finUpdates + _ = _
        rw [h0, Nat.add_zero]
      rw [hp, hcount]
      by_cases hfin : t.tx.ml.mlCurEvent.type = FIN
      · have hcnt : t.tx.ml.mlCurEvent.rtCount ≠ 0 := by
          -- a first FIN would have written
          intro h0
          have := (hrt (.update t.tx.ml.mlCurEvent.sessionID (r.notAckd + 1) false true true)
            (by simp [MetaLoader.handle, hfin, mlFin, h0])).1
          cases this
        have hfs := hrep hfin hcnt
        have hheld : t.tx.ml.asks = true ∨ t.tx.ml.loaded = true := by
          cases hl : t.tx.ml.loaded <;> simp [MetaLoader.asks, hfin, hl]
        have hN : r.notAckd = (t.tx.sendPoint sid).notAckd := by
          rw [← hr hheld]
          rfl
        obtain ⟨hone, hne, hall⟩ := h.after hfs
        have hs : sent = finSeqs sid t.tx.sent ++ [(t.tx.sendPoint sid).notAckd - 1] := by
          show finSeqs sid (_ ++ _) = _
          rw [finSeqs_append, hfins, if_pos ⟨hfin, hid⟩, if_pos hcnt, hN]
        rw [hs]
        refine ⟨fun h0 => ?_, fun _ => ⟨hone, by simp, ?_⟩, fun _ => rfl⟩
        · rw [hfs] at h0
          cases h0
        · intro f hf
          rcases List.mem_append.mp hf with hf | hf
          · exact hall f hf
          · exact List.mem_singleton.mp hf
      · have hs : sent = finSeqs sid t.tx.sent := by
          show finSeqs sid (_ ++ _) = _
          rw [finSeqs_append, hfins, if_neg (fun h => hfin h.1), List.append_nil]
        rw [hs]
        exact ⟨h.before, h.after, fun _ => rfl⟩
    · have hN : r.sendPoint = t.tx.sendPoint sid := hr hheld
      have hp : p = (t.tx.sendPoint sid).update (.update sid
          (r.notAckd + BitVec.ofNat 32 t.tx.ml.mlCurEvent.advance) false
          (t.tx.ml.mlCurEvent.type == FIN) (t.tx.ml.mlCurEvent.type == FIN)) := by
        show List.foldl _ _ (List.filter _ (t.tx.ml.handle rxSar r).2.txEng2txSarUpdReq) = _
        rw [hone, hid]
        simp [TxTxSarQuery.update]
      have hcount : count = t.finUpdates + if t.tx.ml.mlCurEvent.type = FIN then 1 else 0 := by
        show t.finUpdates + finCount sid (t.tx.ml.handle rxSar r).2.txEng2txSarUpdReq = _
        rw [hone, hid]
        simp [finCount, TxTxSarQuery.update, List.countP_cons]
      have hrN : r.notAckd = (t.tx.sendPoint sid).notAckd := by
        rw [← hN]
        rfl
      rcases htype with htx | ⟨hfin, h0⟩
      · have hs : sent = finSeqs sid t.tx.sent := by
          show finSeqs sid (_ ++ _) = _
          rw [finSeqs_append, hfins, if_neg (by simp [htx]), List.append_nil]
        have hnorm : p = ⟨(t.tx.sendPoint sid).notAckd + BitVec.ofNat 32 t.tx.ml.mlCurEvent.length.toNat,
            (t.tx.sendPoint sid).finSent⟩ := by
          rw [hp, hrN]
          simp [SendPoint.update, TxTxSarQuery.update, ExtendedEvent.advance, htx]
        rw [hs, hcount, hnorm, if_neg (by simp [htx]), Nat.add_zero]
        by_cases hlen : t.tx.ml.mlCurEvent.length = 0#16
        · -- an empty write changes nothing
          rw [hlen]
          refine ⟨h.before, ?_, by simp [htx]⟩
          simpa using h.after
        · have hfs : (t.tx.sendPoint sid).finSent = false := by
            simpa [fresh, advances, hW, hid, htx, hlen] using hok
          refine ⟨h.before, ?_, by simp [htx]⟩
          intro hf
          rw [show (t.tx.sendPoint sid).finSent = _ from hfs] at hf
          cases hf
      · have hfs : (t.tx.sendPoint sid).finSent = false := by
          simpa [fresh, advances, hW, hid, hfin, h0] using hok
        obtain ⟨hcnt0, hnil⟩ := h.before hfs
        have hs : sent = [(t.tx.sendPoint sid).notAckd] := by
          show finSeqs sid (_ ++ _) = _
          rw [finSeqs_append, hfins, if_pos ⟨hfin, hid⟩, if_neg (by simp [h0]), hnil, hrN]
          rfl
        have hnorm : p = ⟨(t.tx.sendPoint sid).notAckd + 1, true⟩ := by
          rw [hp, hrN]
          simp [SendPoint.update, TxTxSarQuery.update, ExtendedEvent.advance, hfin]
        rw [hs, hcount, hnorm, if_pos hfin, hcnt0]
        refine ⟨by simp, fun _ => ⟨rfl, by simp, ?_⟩, by simp [hfin]⟩
        intro f hf
        rw [List.mem_singleton.mp hf]
        exact (BitVec.add_sub_cancel _ _).symm
  · obtain ⟨hnil, hcount⟩ := foldl_other (fun q hq => (hwrites q hq).2) hid
    have hp : p = t.tx.sendPoint sid := by
      show List.foldl _ _ (List.filter _ out.txEng2txSarUpdReq) = _
      rw [hnil]
      rfl
    have hc : count = t.finUpdates := by
      show t.finUpdates + _ = _
      rw [hcount, Nat.add_zero]
    have hs : sent = finSeqs sid t.tx.sent := by
      show finSeqs sid (_ ++ _) = _
      rw [finSeqs_append, hfins, if_neg (fun h => hid h.2), List.append_nil]
    rw [hp, hc, hs]
    exact ⟨h.before, h.after, fun _ => rfl⟩

theorem Inv.metaLoader (h : Inv sid t) (hok : fresh sid t .metaLoader = true)
    (hs : t.step sid .metaLoader = some u) : Inv sid u := by
  simp only [step, Option.some.injEq] at hs
  subst hs
  have htx := h.tx.callMl
  have hpoint := t.tx.callMl_sendPoint sid
  have hcalled := h.tx.called
  generalize t.tx.callMl = v at htx hpoint hcalled
  cases hcalled with
  | idle ml hml =>
    refine { h with tx := htx, event := ?_ }
    rcases hml with rfl | ⟨-, hI⟩
    · exact h.event
    · intro hW
      rw [show ml.mlFsmState = _ from hI] at hW
      cases hW
  | take e rest ml hI hev hW he hl =>
    have hreads : (mlRequests e).txEng2txSarUpdReq.filter (fun q => q.write && q.sessionID == sid) = []
        ∧ finCount sid (mlRequests e).txEng2txSarUpdReq = 0 := by
      rw [TxNet.mlRequests_asks e ml he hl]
      split <;> simp [TxTxSarQuery.read, finCount]
    rw [hreads.1] at hpoint
    have hevents := h.events
    rw [hev] at hevents
    have hraised := hevents e List.mem_cons_self
    simp only [raised, Bool.and_eq_true, Bool.not_eq_eq_eq_not, Bool.not_true,
      Bool.and_eq_false_iff] at hraised
    refine ⟨htx, h.noLookup, fun e' he' => hevents e' (List.mem_cons_of_mem e he'), ?_, ?_, ?_⟩
    · intro _ hid
      change ml.mlCurEvent.sessionID = sid at hid
      show ml.mlCurEvent.opens = false ∧ (ml.mlCurEvent.type = FIN → ml.mlCurEvent.rtCount ≠ 0 → _)
      rw [he] at hid ⊢
      refine ⟨by simpa [hid] using hraised.1, fun hfin hcnt => ?_⟩
      have := hraised.2
      simp [hfin] at this
      exact absurd this hcnt
    · rw [hpoint, hreads.2]
      exact h.before
    · rw [hpoint, hreads.2]
      exact h.after
  | work rxSar r fifo hW ht hr =>
    obtain ⟨hb, ha, hrt⟩ := h.work hok rxSar hW hr
    refine ⟨htx, h.noLookup, ?_, ?_, ?_, ?_⟩
    · show ∀ e ∈ fifo.eventEng2txEngEvent, _
      rw [ht.event]
      exact h.events
    · intro hW' hid'
      rcases t.tx.ml.handle_next rxSar r with hI | ⟨htype, -, -, hcur, -, hreg⟩
      · rw [show (t.tx.ml.handle rxSar r).1.mlFsmState = _ from hI] at hW'
        cases hW'
      · change (t.tx.ml.handle rxSar r).1.mlCurEvent.sessionID = sid at hid'
        show (t.tx.ml.handle rxSar r).1.mlCurEvent.opens = false ∧
          ((t.tx.ml.handle rxSar r).1.mlCurEvent.type = FIN → _)
        rcases hcur with hcur | ⟨hfs, hcur⟩
        · rw [hcur]
          exact ⟨by simp [ExtendedEvent.opens, htype], fun hfin => by simp [htype] at hfin⟩
        · rw [hcur] at hid' ⊢
          refine ⟨by simp [ExtendedEvent.opens], fun _ _ => ?_⟩
          rw [hpoint]
          have hheld : t.tx.ml.asks = true ∨ t.tx.ml.loaded = true := by
            cases hl : t.tx.ml.loaded <;> simp [MetaLoader.asks, htype, hl]
          rw [show List.foldl SendPoint.update (t.tx.sendPoint sid) _ = t.tx.sendPoint sid from hrt htype,
            ← show t.tx.ml.mlCurEvent.sessionID = sid from hid', ← hr hheld]
          exact hfs
    · rw [hpoint]
      exact hb
    · rw [hpoint]
      exact ha

theorem inv_step {l : FinLabel b} (h : Inv sid t) (hok : fresh sid t l = true)
    (hs : t.step sid l = some u) : Inv sid u := by
  cases l with
  | close | closeState | rxRequest =>
    cases hs
    exact h.same h.tx h.noLookup h.events rfl rfl rfl rfl
  | appIf =>
    have happ := txAppIf_events (b := b) 0 t.appIf t.appIn h.noLookup
    simp only [step, Option.some.injEq] at hs
    subst hs
    generalize txAppIf b 0 t.appIf t.appIn = v at happ
    refine h.same ⟨h.tx.client, h.tx.asked, h.tx.reply, h.tx.register⟩ happ.1 ?_ rfl rfl rfl rfl
    intro e he
    rcases List.mem_append.mp he with he | he
    · exact h.events e he
    · obtain ⟨e', he', rfl⟩ := List.mem_map.mp he
      obtain ⟨hfin, h0⟩ := happ.2 e' he'
      simp [raised, ExtendedEvent.opens, Event.extended, hfin, h0]
  | event e =>
    simp only [step] at hs
    split at hs
    · next hraised =>
        cases hs
        refine h.same ⟨h.tx.client, h.tx.asked, h.tx.reply, h.tx.register⟩ h.noLookup ?_ rfl rfl rfl rfl
        intro e' he'
        rcases List.mem_append.mp he' with he' | he'
        · exact h.events e' he'
        · rw [List.mem_singleton.mp he']
          exact hraised
    · cases hs
  | appPush | rxSarRsp =>
    cases hs
    exact h.same ⟨h.tx.client, h.tx.asked, h.tx.reply, h.tx.register⟩ h.noLookup h.events rfl rfl rfl rfl
  | metaLoader => exact h.metaLoader hok hs
  | txSarTable =>
    simp only [step, Option.some.injEq] at hs
    subst hs
    exact h.same (h.tx.callTable t.rxReq) h.noLookup h.events rfl
      (t.tx.callTable_sendPoint t.rxReq sid) rfl rfl

/-! ## Main result -/

/-- A connection before its FIN: the engines are in any consistent state, nothing was counted yet, and
no opening of `sid` is on its way. -/
structure Opened (sid : SessionID) (t : FinNet b) : Prop where
  tx : t.tx.Inv
  noLookup : t.appIn.sLookup2txAppRsp = []
  events : ∀ e ∈ t.tx.fifo.eventEng2txEngEvent, raised sid e = true
  event : t.tx.ml.mlFsmState = .WORK → t.tx.ml.mlCurEvent.sessionID = sid →
    raised sid t.tx.ml.mlCurEvent = true
  finSent : (t.tx.sendPoint sid).finSent = false
  finUpdates : t.finUpdates = 0
  sent : finSeqs sid t.tx.sent = []

theorem Opened.inv {t : FinNet b} (h : Opened sid t) : Inv sid t := by
  refine ⟨h.tx, h.noLookup, h.events, ?_, fun _ => ⟨h.finUpdates, h.sent⟩, ?_⟩
  · intro hW hid
    have hraised := h.event hW hid
    simp only [raised, hid, Bool.and_eq_true, Bool.not_eq_eq_eq_not, Bool.not_true,
      Bool.and_eq_false_iff, beq_self_eq_true, Bool.true_and] at hraised
    refine ⟨by simpa using hraised.1, fun hfin hcnt => ?_⟩
    have := hraised.2
    simp [hfin] at this
    exact absurd this hcnt
  · intro hfs
    rw [h.finSent] at hfs
    cases hfs

/-- All FIN segments of `sid` have one sequence number, and `not_ackd` was advanced for a FIN exactly
once as soon as one was sent. -/
structure Once (sid : SessionID) (t : FinNet b) : Prop where
  same : ∀ f ∈ finSeqs sid t.tx.sent, ∀ g ∈ finSeqs sid t.tx.sent, f = g
  updates : t.finUpdates = if finSeqs sid t.tx.sent = [] then 0 else 1

theorem fin_once {t₀ t : FinNet b} (h₀ : Opened sid t₀)
    (h : Reach (step sid) (fun t l => fresh sid t l = true) t₀ t) : Once sid t := by
  have hinv : Inv sid t := h.invariant h₀.inv fun u l v hu hok hs => inv_step hu hok hs
  cases hfs : (t.tx.sendPoint sid).finSent with
  | false =>
    obtain ⟨hcount, hnil⟩ := hinv.before hfs
    refine ⟨?_, by rw [hnil, if_pos rfl, hcount]⟩
    rw [hnil]
    intro f hf
    cases hf
  | true =>
    obtain ⟨hcount, hne, hall⟩ := hinv.after hfs
    refine ⟨?_, by rw [if_neg hne, hcount]⟩
    intro f hf g hg
    rw [hall f hf, hall g hg]

variable (b) in
/-- Idle engines; session `sid` has `not_ackd = n` and nothing outstanding. -/
def opened (sid : SessionID) (n : BitVec 32) : FinNet b :=
  { appIf := {}, appIn := {}
    tx := ⟨.init b, {}, fun id => if id = sid then { (default : TxSarEntry b) with ackd := n, notAckd := n }
      else default, [], [], []⟩
    rxReq := [], finUpdates := 0 }

theorem opened_opened (sid : SessionID) (n : BitVec 32) : Opened sid (opened b sid n) := by
  have hw : (opened b sid n).tx.ml.mlFsmState ≠ .WORK := by simp [opened, MetaLoader.init]
  refine ⟨⟨TableClient.quiet (by simp [opened]), by simp [opened], by simp [opened], fun h => absurd h hw⟩,
    rfl, by simp [opened], fun h => absurd h hw, ?_, rfl, rfl⟩
  simp [TxNet.sendPoint, opened, TxSarEntry.sendPoint]
  rfl

/-- The application closes session 0, which is in `state`, and the event is taken. -/
def closing (state : SessionState) : List (FinLabel .sample) :=
  [.close 0, .appIf, .closeState state, .appIf, .metaLoader]

/-- The tables answer `metaLoader`, which handles its event; its write is served. -/
def handled : List (FinLabel .sample) := [.txSarTable, .rxSarRsp default, .metaLoader, .txSarTable]

/-- The retransmission timer of session 0 expires for the `n`-th time. -/
def timeout (n : BitVec 3) : FinLabel .sample :=
  .event { type := RT, sessionID := 0, rtCount := n, tuple := default }

theorem fin_once_retransmitted :
    ∃ t, Reach (step 0) (fun t l => fresh 0 t l = true) (opened .sample 0 1000) t ∧
      finSeqs 0 t.tx.sent = [1000, 1000] ∧ Once 0 t := by
  have h : (runIf (step 0) (fun t l => fresh 0 t l = true) (opened .sample 0 1000)
      (closing .ESTABLISHED ++ handled ++ [timeout 1, .metaLoader] ++ handled ++ [.metaLoader])).map
      (fun t => finSeqs 0 t.tx.sent) = some [1000, 1000] := by
    decide +kernel
  obtain ⟨t, ht, hp⟩ := Option.map_eq_some_iff.mp h
  exact ⟨t, reach_of_runIf ht, hp, fin_once (opened_opened 0 1000) (reach_of_runIf ht)⟩

-- The application closes twice: the second request is in FIN_WAIT_1 and sends another first FIN.
theorem second_close_moves_fin :
    ∃ t, Opened 0 (opened .sample 0 1000) ∧ Reach (step 0) anyStep (opened .sample 0 1000) t ∧
      finSeqs 0 t.tx.sent = [1000, 1001] ∧ t.finUpdates = 2 ∧ ¬Once 0 t := by
  have h : (run (step 0) (opened .sample 0 1000)
      (closing .ESTABLISHED ++ handled ++ closing .FIN_WAIT_1 ++ handled)).map
      (fun t => (finSeqs 0 t.tx.sent, t.finUpdates)) = some ([1000, 1001], 2) := by
    decide +kernel
  obtain ⟨t, ht, hp⟩ := Option.map_eq_some_iff.mp h
  simp only [Prod.mk.injEq] at hp
  refine ⟨t, opened_opened 0 1000, reach_of_run ht, hp.1, hp.2, ?_⟩
  intro honce
  have := honce.same 1000 (by rw [hp.1]; decide) 1001 (by rw [hp.1]; decide)
  exact absurd this (by decide)

end FinNet

end FpgaNetworkStack.Toe
