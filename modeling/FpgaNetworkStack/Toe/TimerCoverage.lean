import FpgaNetworkStack.Toe.EventEngine
import FpgaNetworkStack.Toe.SendWindow
import FpgaNetworkStack.Toe.Timers

/-!
# Data in flight and the retransmission timer

`metaLoader` starts the timer of a session with every segment that takes sequence numbers, and
`rxTcpFSM` stops it when an acknowledgement covers everything it has read about.  The two requests reach
`retransmit_timer` on different ways, and between the read of `rxTcpFSM` and the write of its stop
`metaLoader` may have sent more.
-/

namespace FpgaNetworkStack.Toe

open Lib EventType

variable {b : Build}

/-! ## When a handler starts the timer -/

/-- The types `metaLoader` writes to the timer table. -/
def EventType.timed (type : EventType) : Bool := type == RT || type == SYN || type == SYN_ACK

/-- A retransmission with this reply sends a segment. -/
def TxTxSarReply.resends (r : TxTxSarReply b) : Bool :=
  if r.usedLength = 0 then r.finSent else b.mss != 0

/-- The payload of a retransmitted segment. -/
def TxTxSarReply.rtLength (r : TxTxSarReply b) : BitVec 16 :=
  if decide (b.mss.toNat < r.usedLength.toNat) then b.mss else r.usedLength.setWidth 16

theorem mlRt_timer (s : MetaLoader b) (first : Bool) (rxSar : RxSarReply) (r : TxTxSarReply b) :
    (mlRt s first rxSar r).2.txEng2timerSetRetransmitTimer =
      if r.rtLength = 0 then [] else [⟨s.mlCurEvent.sessionID, RT⟩] := by
  simp only [mlRt, mlHeader, TxTxSarReply.rtLength]
  split <;> split <;> rfl

variable {r : TxTxSarReply b}

theorem TxTxSarReply.rtLength_ne_zero (hused : r.usedLength ≠ 0) (hmss : b.mss ≠ 0) :
    r.rtLength ≠ 0 := by
  unfold rtLength
  split
  · exact hmss
  · next hfull =>
      -- not more than `mss` is outstanding, so 16 bits hold it
      intro hzero
      apply hused
      apply BitVec.eq_of_toNat_eq
      have hlt := b.mss.isLt
      have hval := congrArg BitVec.toNat hzero
      rw [decide_eq_true_eq] at hfull
      rw [BitVec.toNat_setWidth, Nat.mod_eq_of_lt (by omega)] at hval
      simpa using hval

-- A handler starts the timer of its session, or it sends nothing that takes sequence numbers.
theorem MetaLoader.handle_timer (s : MetaLoader b) (rxSar : RxSarReply) (r : TxTxSarReply b) :
    (∃ type : EventType, type.timed = true ∧
      (s.handle rxSar r).2.txEng2timerSetRetransmitTimer = [⟨s.mlCurEvent.sessionID, type⟩]) ∨
      (s.handle rxSar r).2.txEng2timerSetRetransmitTimer = [] ∧
        ((∀ q ∈ (s.handle rxSar r).2.txEng2txSarUpdReq, q.isRtQuery = true) ∨
          (s.asks = true ∨ s.loaded = true) ∧
          (s.handle rxSar r).2.txEng2txSarUpdReq =
            [.update s.mlCurEvent.sessionID r.notAckd false false false]) := by
  unfold handle
  cases he : s.mlCurEvent.type with
  | TX =>
    by_cases hlen : s.mlCurEvent.length = 0#16
    · right
      refine ⟨by simp [mlTx, hlen], .inr ⟨by simp [asks, loaded, he], ?_⟩⟩
      simp [mlTx, hlen]
    · left
      exact ⟨RT, rfl, by simp [mlTx, hlen]⟩
  | RT =>
    have hrt := handle_rt he rxSar r
    simp only [handle, he] at hrt
    by_cases hlen : r.rtLength = 0#16
    · right
      exact ⟨by simp [mlRt_timer, hlen], .inl fun q hq => (hrt q hq).1⟩
    · left
      exact ⟨RT, rfl, by simp [mlRt_timer, hlen]⟩
  | ACK | ACK_NODELAY => exact .inr ⟨rfl, .inl (by simp [mlAck, mlSegment])⟩
  | SYN => exact .inl ⟨SYN, rfl, by simp [mlSyn, mlOpen, he]⟩
  | SYN_ACK => exact .inl ⟨SYN_ACK, rfl, by simp [mlSynAck, mlOpen, he]⟩
  | FIN => exact .inl ⟨RT, rfl, by simp [mlFin]⟩
  | RST =>
    right
    dsimp only
    split
    · exact ⟨rfl, .inl (by simp [mlRstSession, mlSegment])⟩
    · exact ⟨rfl, .inl (by simp [mlRstTuple])⟩

-- An event of the timer starts it again, in this call or with the FIN that follows.
theorem MetaLoader.handle_rearms {s : MetaLoader b} (htype : s.mlCurEvent.type.timed = true ∨ s.mlCurEvent.type = FIN)
    (rxSar : RxSarReply) (r : TxTxSarReply b) (hr : s.mlCurEvent.type = RT → r.resends = true) :
    (s.handle rxSar r).2.txEng2timerSetRetransmitTimer ≠ [] ∨
      (s.handle rxSar r).1.mlFsmState = .WORK ∧
        (s.handle rxSar r).1.mlCurEvent = { s.mlCurEvent with type := FIN } := by
  unfold handle
  cases he : s.mlCurEvent.type with
  | RT =>
    have hsends := hr he
    unfold TxTxSarReply.resends at hsends
    by_cases hused : r.usedLength = 0
    · right
      rw [if_pos hused] at hsends
      have hfull : ¬b.mss.toNat < r.usedLength.toNat := by simp [hused]
      simp [mlRt, hfull, hsends]
    · left
      rw [if_neg hused, bne_iff_ne] at hsends
      dsimp only
      rw [mlRt_timer, if_neg (TxTxSarReply.rtLength_ne_zero hused hsends)]
      exact List.cons_ne_nil _ _
  | SYN => exact .inl (by simp [mlSyn, mlOpen])
  | SYN_ACK => exact .inl (by simp [mlSynAck, mlOpen])
  | FIN => exact .inl (by simp [mlFin])
  | TX | ACK | ACK_NODELAY | RST => simp [he, EventType.timed] at htype

/-! ## The network -/

variable (b) in
structure CoverNet where
  rx : FsmNet b
  tx : TxNet b
  timer : RetransmitTimer
  timerIn : RetransmitTimerIn
  timerEvents : List (Event b)
  /-- Which of the events before `metaLoader` the timer has raised. -/
  fired : List Bool
  /-- The timer has raised the event `metaLoader` works on, and was not started again since. -/
  firing : Bool
  /-- The timer has given the session up, and was not started again since. -/
  exhausted : SessionID → Bool

variable (b) in
/-- The timer's events reach `metaLoader` among other events, which are the environment's, as are the
state table and the rx_sar table; `retransmitTimer full` is a call that finds its event FIFO full or not. -/
inductive CoverLabel where
  | arrive (m : RxFsmMetaData)
  | rxTcpFSM (e : RxTcpFsmEnv b)
  | stateTable (v : SessionState)
  | rxSarTable (r : RxSarEntry b)
  | event (e : ExtendedEvent b)
  | deliver
  | rxSarRsp (r : RxSarReply)
  | appPush (p : TxAppTxSarPush b)
  | metaLoader
  | txSarTable
  | retransmitTimer (full : Bool)

namespace CoverNet

variable (b) in
def init : CoverNet b :=
  ⟨.init b, ⟨.init b, {}, fun _ => default, [], [], []⟩, {}, {}, [], [], false, fun _ => false⟩

def push (t : CoverNet b) (e : ExtendedEvent b) (fired : Bool) : CoverNet b :=
  { t with
    tx := { t.tx with fifo := { t.tx.fifo with eventEng2txEngEvent := t.tx.fifo.eventEng2txEngEvent ++ [e] } }
    fired := t.fired ++ [fired] }

def callRx (t : CoverNet b) (e : RxTcpFsmEnv b) : CoverNet b :=
  let (fsm, fifo, out) := rxTcpFSM b e t.rx.fsm t.rx.fifo
  { t with
    rx := { t.rx with
      fsm, fifo
      stateReq := t.rx.stateReq ++ out.rxEng2stateTableUpdReq
      rxSarReq := t.rx.rxSarReq ++ out.rxEng2rxSarUpdReq
      txSarReq := t.rx.txSarReq ++ out.rxEng2txSarUpdReq }
    timerIn := { t.timerIn with rxEng2timerClearRetransmitTimer :=
      t.timerIn.rxEng2timerClearRetransmitTimer ++ out.rxEng2timerClearRetransmitTimer } }

def callMl (t : CoverNet b) : CoverNet b :=
  let (tx, out) := t.tx.callMl
  let taken := decide (tx.fifo.eventEng2txEngEvent.length < t.tx.fifo.eventEng2txEngEvent.length)
  { t with
    tx
    timerIn := { t.timerIn with txEng2timerSetRetransmitTimer :=
      t.timerIn.txEng2timerSetRetransmitTimer ++ out.txEng2timerSetRetransmitTimer }
    fired := if taken then t.fired.tail else t.fired
    firing := if taken then t.fired.headD false else t.firing && out.txEng2timerSetRetransmitTimer.isEmpty }

def callTable (t : CoverNet b) : CoverNet b :=
  let (tx, rest, out) := t.tx.callTable t.rx.txSarReq
  { t with
    rx := { t.rx with
      txSarReq := rest
      fifo := { t.rx.fifo with
        txSar2rxEngUpdRsp := t.rx.fifo.txSar2rxEngUpdRsp ++ out.txSar2rxEngUpdRsp } }
    tx }

def callTimer (times : RtTimes) (full : Bool) (t : CoverNet b) : CoverNet b :=
  let (timer, timerIn, out) := retransmitTimer b times full t.timer t.timerIn
  { t with
    timer, timerIn
    timerEvents := t.timerEvents ++ out.rtTimer2eventEngSetEvent
    exhausted := fun id => out.rtTimer2stateTableReleaseState.contains id ||
      (t.exhausted id && !(timer.retransmitTimerTable id).active) }

/-- The segments `rxTcpFSM` handles are acknowledgements. -/
def step (times : RtTimes) (t : CoverNet b) : CoverLabel b → Option (CoverNet b)
  | .arrive m =>
    if controlBits m.metaData = .ack then (t.rx.step (.arrive m)).map fun rx => { t with rx } else none
  | .rxTcpFSM e => some (t.callRx e)
  | .stateTable v => (t.rx.step (.stateTable v)).map fun rx => { t with rx }
  | .rxSarTable r => (t.rx.step (.rxSarTable r)).map fun rx => { t with rx }
  | .event e => some (t.push e false)
  | .deliver =>
    match t.timerEvents with
    | [] => none
    | e :: rest => some { t.push e.extended true with timerEvents := rest }
  | .rxSarRsp r =>
    some { t with tx := { t.tx with fifo := { t.tx.fifo with rxSar2txEngRsp := t.tx.fifo.rxSar2txEngRsp ++ [r] } } }
  | .appPush p => some { t with tx := { t.tx with appPush := t.tx.appPush ++ [p] } }
  | .metaLoader => some t.callMl
  | .txSarTable => some t.callTable
  | .retransmitTimer full => some (t.callTimer times full)

/-! ## Outstanding and covered -/

/-- The `ackd` of session `sid` that an initialising request of the transmit engine sets. -/
def openedAt (sid : SessionID) (q : TxTxSarQuery) : Option (BitVec 32) :=
  if q.write = true ∧ q.sessionID = sid ∧ q.isRtQuery = false ∧ q.init = true then some (q.notAckd - 1) else none

/-- The `ackd` of a session once the table has served all requests; those of the transmit engine go first. -/
def settledAckd (t : CoverNet b) (sid : SessionID) : BitVec 32 :=
  (t.rx.txSarReq.filterMap (RxTxSarQuery.moves sid)).foldl (fun _ x => x)
    ((t.tx.txReq.filterMap (openedAt sid)).foldl (fun _ x => x) (t.tx.table sid).ackd)

/-- Something the session has sent is not acknowledged. -/
def outstanding (t : CoverNet b) (sid : SessionID) : Bool :=
  t.settledAckd sid != (t.tx.sendPoint sid).notAckd

def active (t : CoverNet b) (sid : SessionID) : Bool := (t.timer.retransmitTimerTable sid).active

/-- A request to start the timer of the session is waiting. -/
def starting (t : CoverNet b) (sid : SessionID) : Bool :=
  t.timerIn.txEng2timerSetRetransmitTimer.any (·.sessionID == sid)

/-- The timer of the session has fired, and `metaLoader` has not answered its event yet. -/
def InFlight (t : CoverNet b) (sid : SessionID) : Prop :=
  (∃ e ∈ t.timerEvents, e.sessionID = sid) ∨
    (∃ p ∈ t.tx.fifo.eventEng2txEngEvent.zip t.fired, p.2 = true ∧ p.1.sessionID = sid) ∨
    t.tx.ml.mlFsmState = .WORK ∧ t.firing = true ∧ t.tx.ml.mlCurEvent.sessionID = sid

def Covered (t : CoverNet b) (sid : SessionID) : Prop :=
  t.active sid = true ∨ t.starting sid = true ∨ t.InFlight sid ∨ t.exhausted sid = true

/-! ## The steps on which the timer is not lost -/

/-- The stop that is written now is not older than the data: nothing is outstanding, or the timer does not
run or is about to be started. -/
def stopsInTime (t : CoverNet b) : Bool :=
  let sid := t.timer.rtUpdate.sessionID
  !(t.timer.rtWaitForWrite && sid != t.timer.rtPrevPosition && t.timer.rtUpdate.stop && t.active sid) ||
    !t.outstanding sid || t.starting sid

/-- The retransmission that the timer has asked for finds something to send. -/
def retransmits (t : CoverNet b) : Bool :=
  !(t.tx.ml.mlFsmState == .WORK && t.firing && t.tx.ml.mlCurEvent.type == RT &&
      t.outstanding t.tx.ml.mlCurEvent.sessionID) ||
    (if t.tx.ml.asks then t.tx.fifo.txSar2txEngUpdRsp else [t.tx.ml.txSarReg]).head?.all TxTxSarReply.resends

/-- An acknowledgement number in range is not one from before the sequence numbers went round. -/
def ackPresent (t : CoverNet b) : Bool :=
  match t.rx.fsm.fsmState, t.rx.fifo.stateTable2rxEngUpdRsp, t.rx.fifo.rxSar2rxEngUpdRsp,
      t.rx.fifo.txSar2rxEngUpdRsp with
  | .TRANSITION, _ :: _, _ :: _, r :: _ =>
    let m := t.rx.fsm.fsmMeta
    !ackInRange b m r || t.outstanding m.sessionID ||
      m.metaData.ackNumb == (t.tx.sendPoint m.sessionID).notAckd
  | _, _, _, _ => true

def safe (t : CoverNet b) : CoverLabel b → Bool
  | .retransmitTimer _ => t.stopsInTime
  | .metaLoader => t.retransmits
  | .rxTcpFSM _ => t.ackPresent
  | _ => true

/-! ## What a step does to the pointers -/

theorem openedAt_read (sid : SessionID) {q : TxTxSarQuery} (h : q.write = false) : openedAt sid q = none :=
  if_neg (by simp [h])

-- The table settles what is pending, whoever it serves.
theorem callTable_settledAckd (t : CoverNet b) (sid : SessionID) :
    t.callTable.settledAckd sid = t.settledAckd sid := by
  have hs := t.tx.served t.rx.txSarReq
  unfold settledAckd callTable
  generalize t.tx.callTable t.rx.txSarReq = u at hs
  cases hs with
  | txWrite q rest h hw =>
    by_cases hid : q.sessionID = sid
    · subst hid
      dsimp only
      rw [h, Function.update_self]
      cases hrt : q.isRtQuery <;> cases hi : q.init <;>
        simp [openedAt, TxSarEntry.txEngUpdate, hw, hrt, hi]
    · have hne : sid ≠ q.sessionID := fun h => hid h.symm
      simp [h, openedAt, hid, hne]
  | txRead q rest h hw => simp [h, openedAt_read sid hw]
  | app push rest ht h =>
    by_cases hid : sid = push.sessionID
    · subst hid
      simp
    · simp [hid]
  | rxWrite q rest ht h hw =>
    by_cases hid : q.sessionID = sid
    · subst hid
      simp [ht, h, RxTxSarQuery.moves, hw, TxSarEntry.rxEngUpdate]
    · have hne : sid ≠ q.sessionID := fun h => hid h.symm
      simp [h, RxTxSarQuery.moves, hid, hne]
  | rxRead q rest ht h hw => simp [h, RxTxSarQuery.moves, hw]
  | none ht h => rfl

theorem callTable_outstanding (t : CoverNet b) (sid : SessionID) :
    t.callTable.outstanding sid = t.outstanding sid := by
  have hpoint := t.tx.callTable_sendPoint t.rx.txSarReq sid
  unfold outstanding
  rw [callTable_settledAckd]
  exact congrArg (fun p : SendPoint => t.settledAckd sid != p.notAckd) hpoint

-- Writes that move no pointer of the session leave `not_ackd` where it is.
theorem foldl_notAckd (qs : List TxTxSarQuery) {p : SendPoint}
    (h : ∀ q ∈ qs, q.isRtQuery = true ∨ q.notAckd = p.notAckd) :
    (qs.foldl SendPoint.update p).notAckd = p.notAckd := by
  induction qs generalizing p with
  | nil => rfl
  | cons q qs ih =>
    have hq : (p.update q).notAckd = p.notAckd := by
      unfold SendPoint.update
      rcases h q List.mem_cons_self with hrt | hn
      · rw [if_pos hrt]
      · split
        · rfl
        · exact hn
    rw [List.foldl_cons, ih, hq]
    intro q' hq'
    rw [hq]
    exact h q' (List.mem_cons_of_mem _ hq')

variable {t u : CoverNet b} {sid : SessionID}

-- Requests of the transmit engine that are reads, or of other sessions, or repeat the pointers.
theorem outstanding_append (qs : List TxTxSarQuery) (hrx : u.rx = t.rx)
    (htable : u.tx.table = t.tx.table) (hreq : u.tx.txReq = t.tx.txReq ++ qs)
    (h : ∀ q ∈ qs, q.write = true → q.sessionID = sid →
      q.isRtQuery = true ∨ q.init = false ∧ q.notAckd = (t.tx.sendPoint sid).notAckd) :
    u.outstanding sid = t.outstanding sid := by
  have hopened : ∀ q ∈ qs, openedAt sid q = none := by
    intro q hq
    refine if_neg ?_
    rintro ⟨hw, hid, hrt, hinit⟩
    rcases h q hq hw hid with hrt' | ⟨hinit', -⟩
    · simp [hrt] at hrt'
    · simp [hinit] at hinit'
  have hackd : u.settledAckd sid = t.settledAckd sid := by
    unfold settledAckd
    rw [hrx, htable, hreq, List.filterMap_append, List.filterMap_eq_nil_iff.mpr hopened, List.append_nil]
  have hnotAckd : (u.tx.sendPoint sid).notAckd = (t.tx.sendPoint sid).notAckd := by
    have hkeep := foldl_notAckd (qs.filter (fun q => q.write && q.sessionID == sid))
      (p := t.tx.sendPoint sid) ?_
    · rw [← hkeep]
      unfold TxNet.sendPoint
      rw [htable, hreq, List.filter_append, List.foldl_append]
    · intro q hq
      obtain ⟨hq, hsel⟩ := List.mem_filter.mp hq
      simp only [Bool.and_eq_true, beq_iff_eq] at hsel
      exact (h q hq hsel.1 hsel.2).imp_right And.right
  unfold outstanding
  rw [hackd, hnotAckd]

/-! ## The invariant -/

structure Inv (t : CoverNet b) : Prop where
  tx : t.tx.Inv
  fired : t.fired.length = t.tx.fifo.eventEng2txEngEvent.length
  acks : ∀ m ∈ t.rx.fifo.fsmMetaDataFifo, controlBits m.metaData = .ack
  loaded : t.rx.fsm.fsmState = .TRANSITION →
    controlBits t.rx.fsm.fsmMeta.metaData = .ack ∧ t.rx.fsm.fsmTxSarRequest = true
  entries : ∀ sid, t.active sid = true → (t.timer.retransmitTimerTable sid).type.timed = true
  sets : ∀ q ∈ t.timerIn.txEng2timerSetRetransmitTimer, q.type.timed = true
  events : ∀ e ∈ t.timerEvents, e.type.timed = true
  queued : ∀ p ∈ t.tx.fifo.eventEng2txEngEvent.zip t.fired, p.2 = true → p.1.type.timed = true
  current : t.tx.ml.mlFsmState = .WORK → t.firing = true →
    t.tx.ml.mlCurEvent.type.timed = true ∨ t.tx.ml.mlCurEvent.type = FIN
  covered : ∀ sid, t.outstanding sid = true → t.Covered sid

theorem init_inv : Inv (init b) := by
  refine ⟨⟨TableClient.quiet ?_, ?_, ?_, ?_⟩, rfl, ?_, ?_, ?_, ?_, ?_, ?_, ?_, ?_⟩
  all_goals try simp [init, FsmNet.init, RxTcpFsm.init, MetaLoader.init, active]
  intro sid h
  exfalso
  simp [outstanding, settledAckd, TxNet.sendPoint, TxSarEntry.sendPoint] at h
  exact h rfl

/-- The coverage of a session by its timer is read off these parts of the state. -/
theorem Covered.same (h : t.Covered sid) (htimer : u.timer = t.timer)
    (hsets : u.timerIn.txEng2timerSetRetransmitTimer = t.timerIn.txEng2timerSetRetransmitTimer)
    (hex : u.exhausted = t.exhausted) (hflight : t.InFlight sid → u.InFlight sid) : u.Covered sid := by
  rcases h with h | h | h | h
  · left
    unfold active at h ⊢
    rwa [htimer]
  · right; left
    unfold starting at h ⊢
    rwa [hsets]
  · exact .inr (.inr (.inl (hflight h)))
  · right; right; right
    rwa [hex]

/-! ### The environment and the table -/

theorem inv_push (h : Inv t) (e : ExtendedEvent b) (fired : Bool)
    (he : fired = true → e.type.timed = true) : Inv (t.push e fired) := by
  have hzip : (t.tx.fifo.eventEng2txEngEvent ++ [e]).zip (t.fired ++ [fired]) =
      t.tx.fifo.eventEng2txEngEvent.zip t.fired ++ [(e, fired)] := by
    rw [List.zip_append h.fired.symm]
    rfl
  have htx : (t.push e fired).tx.Inv := ⟨h.tx.client, h.tx.asked, h.tx.reply, h.tx.register⟩
  refine { h with tx := htx, fired := ?_, queued := ?_, covered := ?_ }
  · simp [push, h.fired]
  · intro p hp hfired
    change p ∈ (t.tx.fifo.eventEng2txEngEvent ++ [e]).zip (t.fired ++ [fired]) at hp
    rw [hzip] at hp
    rcases List.mem_append.mp hp with hp | hp
    · exact h.queued p hp hfired
    · rw [List.mem_singleton] at hp
      subst hp
      exact he hfired
  · intro sid hout
    refine (h.covered sid hout).same rfl rfl rfl ?_
    rintro (hf | ⟨p, hp, hf⟩ | hf)
    · exact .inl hf
    · right; left
      refine ⟨p, ?_, hf⟩
      change p ∈ (t.tx.fifo.eventEng2txEngEvent ++ [e]).zip (t.fired ++ [fired])
      rw [hzip]
      exact List.mem_append_left _ hp
    · exact .inr (.inr hf)

theorem inv_deliver (h : Inv t) {e : Event b} {rest : List (Event b)}
    (he : t.timerEvents = e :: rest) : Inv { t.push e.extended true with timerEvents := rest } := by
  have hevents := h.events
  rw [he] at hevents
  have hpush := inv_push h e.extended true fun _ => hevents e List.mem_cons_self
  refine { hpush with events := fun e' he' => hevents e' (List.mem_cons_of_mem e he'), covered := ?_ }
  intro sid hout
  refine (hpush.covered sid hout).same rfl rfl rfl ?_
  rintro (⟨e', he', hid⟩ | hf | hf)
  · change e' ∈ t.timerEvents at he'
    rw [he] at he'
    rcases List.mem_cons.mp he' with rfl | he'
    · -- the event that has moved
      right; left
      refine ⟨(e'.extended, true), ?_, rfl, hid⟩
      change _ ∈ (t.tx.fifo.eventEng2txEngEvent ++ [e'.extended]).zip (t.fired ++ [true])
      rw [List.zip_append h.fired.symm]
      exact List.mem_append_right _ List.mem_cons_self
    · exact .inl ⟨e', he', hid⟩
  · exact .inr (.inl hf)
  · exact .inr (.inr hf)

theorem inv_callTable (h : Inv t) : Inv t.callTable := by
  have htx := h.tx.callTable t.rx.txSarReq
  have hout := callTable_outstanding t
  have hs := t.tx.served t.rx.txSarReq
  unfold callTable at hout ⊢
  generalize t.tx.callTable t.rx.txSarReq = u at htx hout hs
  have hevents : u.1.fifo.eventEng2txEngEvent = t.tx.fifo.eventEng2txEngEvent := by cases hs <;> rfl
  have hml : u.1.ml = t.tx.ml := by cases hs <;> rfl
  obtain ⟨tx, rest, out⟩ := u
  dsimp only at htx hout hevents hml ⊢
  refine { h with tx := htx, fired := ?_, queued := ?_, current := ?_, covered := ?_ }
  · rw [hevents]
    exact h.fired
  · rw [hevents]
    exact h.queued
  · rw [hml]
    exact h.current
  · intro sid hsid
    rw [hout] at hsid
    refine (h.covered sid hsid).same rfl rfl rfl fun hf => ?_
    unfold InFlight at hf ⊢
    rwa [hevents, hml]

/-! ### `rxTcpFSM` -/

-- An acknowledgement updates the table at most once, with its own number when that is in range.
theorem transition_ackUpdate {m : RxFsmMetaData} (hack : controlBits m.metaData = .ack) (e : RxTcpFsmEnv b)
    (tcpState : SessionState) (rxSar : RxSarEntry b) (r : RxTxSarReply b) :
    (transition b e m tcpState rxSar r).rxEng2txSarUpdReq = [] ∨
      ackInRange b m r = true ∧
        ∃ q, (transition b e m tcpState rxSar r).rxEng2txSarUpdReq = [q] ∧ q.write = true ∧
          q.sessionID = m.sessionID ∧ q.ackd = m.metaData.ackNumb := by
  have hackd := transition_ackd e m tcpState rxSar r
  have hwrites := transition_txSarReq e m tcpState rxSar r
  have hone : (transition b e m tcpState rxSar r).rxEng2txSarUpdReq = [] ∨
      ∃ q, (transition b e m tcpState rxSar r).rxEng2txSarUpdReq = [q] := by
    simp only [transition, hack, transitionAck]
    split
    · dsimp only
      split
      · exact .inr ⟨_, rfl⟩
      · exact .inl rfl
    · exact .inl rfl
  rcases hone with hnil | ⟨q, hq⟩
  · exact .inl hnil
  · obtain ⟨hid, hin | hfin | hsyn⟩ := hackd q (by rw [hq]; exact List.mem_cons_self)
    · exact .inr ⟨hin.2.2, q, hq, hwrites q (by rw [hq]; exact List.mem_cons_self), hid, hin.1⟩
    · rw [hack] at hfin
      cases hfin.2.1
    · rw [hack] at hsyn
      cases hsyn.1

theorem callRx_txSarReq (t : CoverNet b) (e : RxTcpFsmEnv b) :
    (t.callRx e).rx.txSarReq = t.rx.txSarReq ++ (rxTcpFSM b e t.rx.fsm t.rx.fifo).2.2.rxEng2txSarUpdReq := rfl

-- Reads leave the pointers alone; an update puts `ackd` where the segment says.
theorem callRx_outstanding (h : Inv t) (e : RxTcpFsmEnv b) (hok : t.ackPresent = true)
    (sid : SessionID) (hout : (t.callRx e).outstanding sid = true) : t.outstanding sid = true := by
  have hackd (qs : List (RxTxSarQuery b)) (hqs : (t.callRx e).rx.txSarReq = t.rx.txSarReq ++ qs) :
      (t.callRx e).settledAckd sid = (qs.filterMap (RxTxSarQuery.moves sid)).foldl (fun _ x => x)
        (t.settledAckd sid) := by
    unfold settledAckd
    rw [hqs, List.filterMap_append, List.foldl_append]
    rfl
  rcases rxTcpFSM_cases e t.rx.fsm t.rx.fifo with hc | ⟨m, rest, hL, hm, hc⟩ |
    ⟨tcpState, states, rxSar, entries, hT, hst, hrx, hr, hc⟩
  · have hsame := hackd [] (by rw [callRx_txSarReq, hc])
    unfold outstanding at hout ⊢
    rwa [hsame] at hout
  · have hsame := hackd (loadRequests b m).rxEng2txSarUpdReq (by rw [callRx_txSarReq, hc])
    have hnone : (loadRequests b m).rxEng2txSarUpdReq.filterMap (RxTxSarQuery.moves sid) = [] := by
      cases ha : m.metaData.ack <;> simp [loadRequests, ha, RxTxSarQuery.moves, RxTxSarQuery.read]
    rw [hnone] at hsame
    unfold outstanding at hout ⊢
    rwa [hsame] at hout
  · obtain ⟨hack, hreq⟩ := h.loaded hT
    cases hrsp : t.rx.fifo.txSar2rxEngUpdRsp with
    | nil => simp [hreq, hrsp] at hr
    | cons r replies =>
      have htake : (takeTxSar b e t.rx.fsm.fsmMeta.metaData t.rx.fifo.txSar2rxEngUpdRsp).1 = r := by
        simp [takeTxSar, hack, hrsp]
      rw [htake] at hc
      have hsame := hackd (transition b e t.rx.fsm.fsmMeta tcpState rxSar r).rxEng2txSarUpdReq
        (by rw [callRx_txSarReq, hc])
      simp only [ackPresent, hT, hst, hrx, hrsp, Bool.or_eq_true, Bool.not_eq_true', beq_iff_eq] at hok
      rcases transition_ackUpdate hack e tcpState rxSar r with hnil | ⟨hin, q, hq, hw, hid, hval⟩
      · rw [hnil] at hsame
        unfold outstanding at hout ⊢
        rwa [hsame] at hout
      · rw [hq] at hsame
        by_cases hsid : q.sessionID = sid
        · subst hsid
          rw [hid] at hsame hout ⊢
          -- the number acknowledges everything, or something was outstanding before
          rcases hok with (hnot | hok) | hok
          · rw [hin] at hnot
            cases hnot
          · exact hok
          · exfalso
            have hsome : q.moves t.rx.fsm.fsmMeta.sessionID = some q.ackd := if_pos ⟨hw, hid⟩
            simp only [List.filterMap_cons, hsome, List.filterMap_nil, List.foldl_cons, List.foldl_nil, hval] at hsame
            unfold outstanding at hout
            rw [hsame, hok] at hout
            exact absurd hout (by simp [callRx])
        · have hnone : q.moves sid = none := if_neg fun hq' => hsid hq'.2
          simp only [List.filterMap_cons, hnone, List.filterMap_nil, List.foldl_nil] at hsame
          unfold outstanding at hout ⊢
          rwa [hsame] at hout

theorem inv_callRx (h : Inv t) (e : RxTcpFsmEnv b) (hok : t.ackPresent = true) : Inv (t.callRx e) := by
  have hout := callRx_outstanding h e hok
  have hcover (sid : SessionID) (hsid : (t.callRx e).outstanding sid = true) : (t.callRx e).Covered sid :=
    (h.covered sid (hout sid hsid)).same rfl rfl rfl id
  refine { h with acks := ?_, loaded := ?_, covered := hcover }
  · intro m hm
    apply h.acks m
    rcases rxTcpFSM_cases e t.rx.fsm t.rx.fifo with hc | ⟨m', rest, -, hm', hc⟩ | ⟨_, _, _, _, -, -, -, -, hc⟩
    · simpa [callRx, hc] using hm
    · simp only [callRx, hc] at hm
      rw [hm']
      exact List.mem_cons_of_mem _ hm
    · simpa [callRx, hc] using hm
  · intro hT
    rcases rxTcpFSM_cases e t.rx.fsm t.rx.fifo with hc | ⟨m, rest, -, hm, hc⟩ | ⟨_, _, _, _, -, -, -, -, hc⟩
    · simp only [callRx, hc] at hT ⊢
      exact h.loaded hT
    · have hack := h.acks m (by rw [hm]; exact List.mem_cons_self)
      simp only [callRx, hc]
      exact ⟨hack, by simp [controlBits_ack (m := m.metaData) (by simp [hack]) (by simp [hack])]⟩
    · simp [callRx, hc] at hT

/-! ### `metaLoader` -/

/-- The call of `metaLoader` with what the transmit side made of it. -/
theorem callMl_eq (t : CoverNet b) {u : TxNet b × MetaLoaderOut} (hu : t.tx.callMl = u) (taken : Bool)
    (ht : decide (u.1.fifo.eventEng2txEngEvent.length < t.tx.fifo.eventEng2txEngEvent.length) = taken) :
    t.callMl = { t with
      tx := u.1
      timerIn := { t.timerIn with txEng2timerSetRetransmitTimer :=
        t.timerIn.txEng2timerSetRetransmitTimer ++ u.2.txEng2timerSetRetransmitTimer }
      fired := if taken then t.fired.tail else t.fired
      firing := if taken then t.fired.headD false else t.firing && u.2.txEng2timerSetRetransmitTimer.isEmpty } := by
  subst hu ht
  rfl

-- A handler that does not start the timer leaves the pointers of every session where they are.
theorem work_outstanding {rxSar : RxSarReply}
    (hr : t.tx.ml.asks = true ∨ t.tx.ml.loaded = true → r.sendPoint = t.tx.sendPoint t.tx.ml.mlCurEvent.sessionID)
    (hrx : u.rx = t.rx) (htable : u.tx.table = t.tx.table)
    (hreq : u.tx.txReq = t.tx.txReq ++ (t.tx.ml.handle rxSar r).2.txEng2txSarUpdReq)
    (hkeep : t.tx.ml.mlCurEvent.sessionID ≠ sid ∨
      (t.tx.ml.handle rxSar r).2.txEng2timerSetRetransmitTimer = []) :
    u.outstanding sid = t.outstanding sid := by
  refine outstanding_append _ hrx htable hreq ?_
  intro q hq _ hid
  have hown := (t.tx.ml.handle_writes rxSar r q hq).2
  rcases hkeep with hne | hnil
  · exact absurd (hown.symm.trans hid) hne
  · rcases t.tx.ml.handle_timer rxSar r with ⟨type, -, hset⟩ | ⟨-, hrt | ⟨hheld, hone⟩⟩
    · rw [hset] at hnil
      cases hnil
    · exact .inl (hrt q hq)
    · right
      rw [hone, List.mem_singleton] at hq
      subst hq
      refine ⟨rfl, ?_⟩
      rw [← hid, hown, ← hr hheld]
      rfl

theorem inv_take (h : Inv t) {e : ExtendedEvent b} {rest : List (ExtendedEvent b)}
    {ml : MetaLoader b} {tx : TxNet b} {fired : Bool} {fireds : List Bool} (htx : tx.Inv)
    (heq : tx = { t.tx with
      ml, fifo := { t.tx.fifo with eventEng2txEngEvent := rest }
      txReq := t.tx.txReq ++ (mlRequests e).txEng2txSarUpdReq })
    (hev : t.tx.fifo.eventEng2txEngEvent = e :: rest) (hf : t.fired = fired :: fireds)
    (hI : t.tx.ml.mlFsmState = .IDLE) (hW : ml.mlFsmState = .WORK) (he : ml.mlCurEvent = e)
    (hl : ml.mlSarLoaded = false) : Inv { t with tx, fired := fireds, firing := fired } := by
  have hlen := h.fired
  have hqueued := h.queued
  rw [hev, hf] at hlen hqueued
  subst heq
  refine { h with tx := htx, fired := ?_, queued := ?_, current := ?_, covered := ?_ }
  · exact Nat.succ_injective hlen
  · exact fun p hp => hqueued p (List.mem_cons_of_mem _ hp)
  · intro _ hfired
    rw [show ml.mlCurEvent = e from he]
    exact .inl (hqueued (e, fired) List.mem_cons_self hfired)
  · intro sid hout
    have hsame : CoverNet.outstanding { t with
        tx := { t.tx with
          ml, fifo := { t.tx.fifo with eventEng2txEngEvent := rest }
          txReq := t.tx.txReq ++ (mlRequests e).txEng2txSarUpdReq }
        fired := fireds, firing := fired } sid = t.outstanding sid := by
      refine outstanding_append (mlRequests e).txEng2txSarUpdReq rfl rfl rfl ?_
      -- only reads are asked for
      intro q hq hw _
      rw [TxNet.mlRequests_asks e ml he hl] at hq
      split at hq
      · rw [List.mem_singleton] at hq
        rw [hq] at hw
        cases hw
      · cases hq
    rw [hsame] at hout
    refine (h.covered sid hout).same rfl rfl rfl ?_
    rintro (hfl | ⟨p, hp, hp2, hid⟩ | ⟨hW', -, -⟩)
    · exact .inl hfl
    · rw [hev, hf] at hp
      rcases List.mem_cons.mp hp with rfl | hp
      · -- the event that is taken
        right; right
        exact ⟨hW, hp2, by rw [show ml.mlCurEvent = e from he]; exact hid⟩
      · exact .inr (.inl ⟨p, hp, hp2, hid⟩)
    · rw [hI] at hW'
      cases hW'

-- What the check says about the reply that is worked on.
theorem retransmits_reply (hok : t.retransmits = true) {fifo : MetaLoaderIn b}
    (hW : t.tx.ml.mlFsmState = .WORK) (ht : t.tx.ml.Taken t.tx.fifo fifo r) (hfiring : t.firing = true)
    (hrt : t.tx.ml.mlCurEvent.type = RT) (hout : t.outstanding t.tx.ml.mlCurEvent.sessionID = true) :
    r.resends = true := by
  have hask : t.tx.ml.asks = !t.tx.ml.loaded := by simp [MetaLoader.asks, hrt]
  have hfifo := ht.fifo
  simp only [retransmits, hW, hfiring, hrt, hout, beq_self_eq_true, Bool.and_self, Bool.not_true,
    Bool.false_or] at hok
  cases hl : t.tx.ml.loaded with
  | true =>
    rw [hask, hl] at hok
    rw [ht.register hl]
    exact hok
  | false =>
    rw [hask, hl] at hok hfifo
    simp only [Bool.not_false, if_true] at hok hfifo
    rw [hfifo] at hok
    exact hok

theorem inv_work (h : Inv t) (hok : t.retransmits = true) {rxSar : RxSarReply}
    {fifo : MetaLoaderIn b} {sent : List (SessionID × TxEngineMeta)} {tx : TxNet b}
    {out : MetaLoaderOut} (htx : tx.Inv) (hout : out = (t.tx.ml.handle rxSar r).2)
    (heq : tx = { t.tx with
      ml := (t.tx.ml.handle rxSar r).1, fifo, sent
      txReq := t.tx.txReq ++ out.txEng2txSarUpdReq })
    (hW : t.tx.ml.mlFsmState = .WORK) (ht : t.tx.ml.Taken t.tx.fifo fifo r)
    (hr : t.tx.ml.asks = true ∨ t.tx.ml.loaded = true →
      r.sendPoint = t.tx.sendPoint t.tx.ml.mlCurEvent.sessionID) :
    Inv { t with
      tx
      timerIn := { t.timerIn with txEng2timerSetRetransmitTimer :=
        t.timerIn.txEng2timerSetRetransmitTimer ++ out.txEng2timerSetRetransmitTimer }
      firing := t.firing && out.txEng2timerSetRetransmitTimer.isEmpty } := by
  subst hout heq
  have htimer := t.tx.ml.handle_timer rxSar r
  have hnext := t.tx.ml.handle_next rxSar r
  refine { h with tx := htx, fired := ?_, sets := ?_, queued := ?_, current := ?_, covered := ?_ }
  · show _ = fifo.eventEng2txEngEvent.length
    rw [ht.event]
    exact h.fired
  · intro q hq
    rcases List.mem_append.mp hq with hq | hq
    · exact h.sets q hq
    · rcases htimer with ⟨type, htype, hset⟩ | ⟨hnil, -⟩
      · rw [hset, List.mem_singleton] at hq
        rw [hq]
        exact htype
      · rw [hnil] at hq
        cases hq
  · show ∀ p ∈ fifo.eventEng2txEngEvent.zip t.fired, _
    rw [ht.event]
    exact h.queued
  · intro hW' hfiring
    change (t.tx.ml.handle rxSar r).1.mlFsmState = .WORK at hW'
    show (t.tx.ml.handle rxSar r).1.mlCurEvent.type.timed = true ∨ (t.tx.ml.handle rxSar r).1.mlCurEvent.type = FIN
    rcases hnext with hI | ⟨hrt, -, -, hcur | ⟨-, hcur⟩, -⟩
    · rw [hI] at hW'
      cases hW'
    · rw [hcur, hrt]
      exact .inl rfl
    · rw [hcur]
      exact .inr rfl
  · intro sid hout
    by_cases hset : t.tx.ml.mlCurEvent.sessionID ≠ sid ∨
        (t.tx.ml.handle rxSar r).2.txEng2timerSetRetransmitTimer = []
    · have hsame := work_outstanding (t := t) (u := { t with
          tx := { t.tx with
            ml := (t.tx.ml.handle rxSar r).1, fifo, sent
            txReq := t.tx.txReq ++ (t.tx.ml.handle rxSar r).2.txEng2txSarUpdReq }
          timerIn := { t.timerIn with txEng2timerSetRetransmitTimer :=
            t.timerIn.txEng2timerSetRetransmitTimer ++
              (t.tx.ml.handle rxSar r).2.txEng2timerSetRetransmitTimer }
          firing := t.firing && (t.tx.ml.handle rxSar r).2.txEng2timerSetRetransmitTimer.isEmpty })
        hr rfl rfl rfl hset
      rw [hsame] at hout
      rcases h.covered sid hout with ha | hs | (hf | hf | ⟨-, hfiring, hid⟩) | hex
      · exact .inl ha
      · right; left
        exact (List.any_append ..).trans (by rw [show List.any _ _ = true from hs]; rfl)
      · exact .inr (.inr (.inl (.inl hf)))
      · refine .inr (.inr (.inl (.inr (.inl ?_))))
        show ∃ p ∈ fifo.eventEng2txEngEvent.zip t.fired, _
        rw [ht.event]
        exact hf
      · -- the event of the timer is handled without a segment: the FIN follows
        have hnil := hset.resolve_left fun hne => hne hid
        have hrearms := MetaLoader.handle_rearms (h.current hW hfiring) rxSar r fun hrt =>
          retransmits_reply hok hW ht hfiring hrt (by rw [hid]; exact hout)
        rcases hrearms with hne | ⟨hW', hcur⟩
        · exact absurd hnil hne
        · refine .inr (.inr (.inl (.inr (.inr ⟨hW', ?_, ?_⟩))))
          · simp [hfiring, hnil]
          · show (t.tx.ml.handle rxSar r).1.mlCurEvent.sessionID = sid
            rw [hcur]
            exact hid
      · exact .inr (.inr (.inr hex))
    · -- the timer of the session is about to be started
      simp only [not_or, not_not] at hset
      obtain ⟨hid, hne⟩ := hset
      rcases htimer with ⟨type, -, hone⟩ | ⟨hnil, -⟩
      · right; left
        simp [starting, hone, hid]
      · exact absurd hnil hne

theorem inv_callMl (h : Inv t) (hok : t.retransmits = true) : Inv t.callMl := by
  have htx := h.tx.callMl
  have hcalled := h.tx.called
  generalize hu : t.tx.callMl = u at htx hcalled
  cases hcalled with
  | idle ml hml =>
    rw [callMl_eq t hu false (by simp)]
    simp only [List.append_nil, List.isEmpty_nil, Bool.and_true, Bool.false_eq_true, if_false]
    have hwork (hW : ml.mlFsmState = .WORK) : ml = t.tx.ml := by
      rcases hml with hml | ⟨-, hI⟩
      · exact hml
      · rw [hI] at hW
        cases hW
    refine { h with tx := htx, current := ?_, covered := ?_ }
    · intro hW
      have hsame := hwork hW
      subst hsame
      exact h.current hW
    · intro sid hout
      refine (h.covered sid hout).same rfl rfl rfl ?_
      rintro (hf | hf | ⟨hW, hf⟩)
      · exact .inl hf
      · exact .inr (.inl hf)
      · right; right
        rcases hml with rfl | ⟨hI, -⟩
        · exact ⟨hW, hf⟩
        · rw [hI] at hW
          cases hW
  | take e rest ml hI hev hW he hl =>
    rw [callMl_eq t hu true (by simp [hev])]
    have hlen := h.fired
    have hsets : (mlRequests e).txEng2timerSetRetransmitTimer = [] := by
      unfold mlRequests
      split <;> rfl
    cases hf : t.fired with
    | nil => simp [hf, hev] at hlen
    | cons fired fireds =>
      simp only [hsets, List.append_nil, if_true, List.tail_cons, List.headD_cons]
      exact inv_take h htx rfl hev hf hI hW he hl
  | work rxSar r fifo hW ht hr =>
    rw [callMl_eq t hu false (by simp [ht.event])]
    exact inv_work h hok htx rfl rfl hW ht hr

/-! ### `retransmit_timer` -/

theorem callTimer_eq (t : CoverNet b) (times : RtTimes) (full : Bool)
    {u : RetransmitTimer × RetransmitTimerIn × RetransmitTimerOut b}
    (hu : retransmitTimer b times full t.timer t.timerIn = u) :
    t.callTimer times full = { t with
      timer := u.1, timerIn := u.2.1
      timerEvents := t.timerEvents ++ u.2.2.rtTimer2eventEngSetEvent
      exhausted := fun id => u.2.2.rtTimer2stateTableReleaseState.contains id ||
        (t.exhausted id && !(u.1.retransmitTimerTable id).active) } := by
  subst hu
  rfl

-- A call of the timer keeps what it does not show to have lost a session.
theorem inv_timer (h : Inv t) {timer : RetransmitTimer} {timerIn : RetransmitTimerIn}
    {out : RetransmitTimerOut b}
    (hentries : ∀ sid, (timer.retransmitTimerTable sid).active = true →
      (timer.retransmitTimerTable sid).type.timed = true)
    (hsets : ∀ q ∈ timerIn.txEng2timerSetRetransmitTimer, q ∈ t.timerIn.txEng2timerSetRetransmitTimer)
    (hevents : ∀ e ∈ out.rtTimer2eventEngSetEvent, e.type.timed = true)
    (hactive : ∀ sid, t.outstanding sid = true → t.active sid = true ∨ t.starting sid = true →
      (timer.retransmitTimerTable sid).active = true ∨
        timerIn.txEng2timerSetRetransmitTimer.any (·.sessionID == sid) = true ∨
        (∃ e ∈ out.rtTimer2eventEngSetEvent, e.sessionID = sid) ∨
        sid ∈ out.rtTimer2stateTableReleaseState) :
    Inv { t with
      timer, timerIn
      timerEvents := t.timerEvents ++ out.rtTimer2eventEngSetEvent
      exhausted := fun id => out.rtTimer2stateTableReleaseState.contains id ||
        (t.exhausted id && !(timer.retransmitTimerTable id).active) } := by
  refine { h with entries := hentries, sets := fun q hq => h.sets q (hsets q hq), events := ?_, covered := ?_ }
  · intro e he
    rcases List.mem_append.mp he with he | he
    · exact h.events e he
    · exact hevents e he
  · intro sid hout
    have hkeep (hrun : t.active sid = true ∨ t.starting sid = true) : Covered { t with
        timer, timerIn
        timerEvents := t.timerEvents ++ out.rtTimer2eventEngSetEvent
        exhausted := fun id => out.rtTimer2stateTableReleaseState.contains id ||
          (t.exhausted id && !(timer.retransmitTimerTable id).active) } sid := by
      rcases hactive sid hout hrun with ha | hs | ⟨e, he, hid⟩ | hex
      · exact .inl ha
      · exact .inr (.inl hs)
      · exact .inr (.inr (.inl (.inl ⟨e, List.mem_append_right _ he, hid⟩)))
      · right; right; right
        simp [hex]
    rcases h.covered sid hout with ha | hs | (⟨e, he, hid⟩ | hf) | hex
    · exact hkeep (.inl ha)
    · exact hkeep (.inr hs)
    · exact .inr (.inr (.inl (.inl ⟨e, List.mem_append_left _ he, hid⟩)))
    · exact .inr (.inr (.inl (.inr hf)))
    · cases hact : (timer.retransmitTimerTable sid).active with
      | true => exact .inl hact
      | false =>
        right; right; right
        simp [hex, hact]

@[simp] theorem acknowledge_type (times : RtTimes) (entry : RetransmitTimerEntry) (stop : Bool) :
    (entry.acknowledge times stop).type = entry.type := by
  unfold RetransmitTimerEntry.acknowledge
  split <;> rfl

@[simp] theorem acknowledge_active (times : RtTimes) (entry : RetransmitTimerEntry) (stop : Bool) :
    (entry.acknowledge times stop).active = (entry.active && !stop) := by
  unfold RetransmitTimerEntry.acknowledge
  cases stop <;> simp

theorem inv_callTimer (h : Inv t) (times : RtTimes) (full : Bool) (hok : t.stopsInTime = true) :
    Inv (t.callTimer times full) := by
  have hcalled := rtCalled (b := b) times full t.timer t.timerIn
  generalize hu : retransmitTimer b times full t.timer t.timerIn = u at hcalled
  rw [callTimer_eq t times full hu]
  cases hcalled with
  | write hw hne =>
    refine inv_timer h ?_ (fun q hq => hq) (by simp) ?_
    · intro sid ha
      dsimp only at ha ⊢
      by_cases hid : sid = t.timer.rtUpdate.sessionID
      · subst hid
        rw [Function.update_self, acknowledge_active, Bool.and_eq_true] at ha
        rw [Function.update_self, acknowledge_type]
        exact h.entries _ ha.1
      · rw [Function.update_of_ne hid] at ha ⊢
        exact h.entries sid ha
    · intro sid hout hrun
      dsimp only
      rcases hrun with ha | hs
      · by_cases hid : sid = t.timer.rtUpdate.sessionID
        · -- a stop in time finds the next start waiting
          subst hid
          cases hstop : t.timer.rtUpdate.stop with
          | false =>
            left
            rw [Function.update_self, acknowledge_active, show (RetransmitTimerEntry.active _) = true from ha]
            rfl
          | true =>
            right; left
            have hne' : (t.timer.rtUpdate.sessionID != t.timer.rtPrevPosition) = true := by simpa using hne
            simp only [stopsInTime, hw, hne', hstop, ha, hout, Bool.and_self, Bool.not_true, Bool.false_or] at hok
            exact hok
        · left
          rw [Function.update_of_ne hid]
          exact ha
      · exact .inr (.inl hs)
  | read update rest hw hq =>
    exact inv_timer h h.entries (fun q hq => hq) (by simp) fun sid _ hrun => hrun.imp_right .inl
  | set q rest position hq =>
    have hsets := h.sets
    rw [hq] at hsets
    refine inv_timer h ?_ (fun q' hq' => hq ▸ List.mem_cons_of_mem q hq') (by simp) ?_
    · intro sid ha
      dsimp only at ha ⊢
      by_cases hid : sid = q.sessionID
      · subst hid
        rw [Function.update_self]
        exact hsets q List.mem_cons_self
      · rw [Function.update_of_ne hid] at ha ⊢
        exact h.entries sid ha
    · intro sid _ hrun
      dsimp only
      by_cases hid : sid = q.sessionID
      · left
        subst hid
        rw [Function.update_self]
        rfl
      · rcases hrun with ha | hs
        · left
          rw [Function.update_of_ne hid]
          exact ha
        · right; left
          have hne : ¬q.sessionID = sid := fun h => hid h.symm
          simpa [starting, hq, hne] using hs
  | visit position hnil =>
    have hv := visited (b := b) (t.timer.retransmitTimerTable t.timer.rtPosition) t.timer.rtPosition full
    generalize hvisit : (t.timer.retransmitTimerTable t.timer.rtPosition).visit (b := b) t.timer.rtPosition full = v
      at hv
    have hentry (hactive : v.1.active = true) : v.1.type.timed = true ∧
        t.active t.timer.rtPosition = true := by
      cases hv with
      | same => exact ⟨h.entries _ hactive, hactive⟩
      | tick ha => exact ⟨h.entries _ ha, ha⟩
      | fire | giveUp => cases hactive
    refine inv_timer h ?_ (fun q hq => hq) ?_ ?_
    · intro sid ha
      dsimp only at ha ⊢
      by_cases hid : sid = t.timer.rtPosition
      · subst hid
        rw [Function.update_self] at ha ⊢
        exact (hentry ha).1
      · rw [Function.update_of_ne hid] at ha ⊢
        exact h.entries sid ha
    · intro e he
      cases hv with
      | same | tick => cases he
      | fire ha =>
        rw [List.mem_singleton] at he
        rw [he]
        exact h.entries _ ha
      | giveUp out ha ht hr hevent =>
        dsimp only at he
        rw [hevent] at he
        cases he
    · intro sid _ hrun
      rcases hrun with ha | hs
      · by_cases hid : sid = t.timer.rtPosition
        · subst hid
          dsimp only
          rw [Function.update_self]
          cases hv with
          | same | tick => exact .inl ha
          | fire _ => exact .inr (.inr (.inl ⟨_, List.mem_cons_self, rfl⟩))
          | giveUp out _ _ _ _ hrel =>
            right; right; right
            rw [hrel]
            exact List.mem_cons_self
        · left
          dsimp only
          rw [Function.update_of_ne hid]
          exact ha
      · exact .inr (.inl hs)

/-! ### Main result -/

theorem inv_step {times : RtTimes} {l : CoverLabel b} (h : Inv t) (hok : t.safe l = true)
    (hs : t.step times l = some u) : Inv u := by
  cases l with
  | arrive m =>
    simp only [step] at hs
    split at hs
    · next hack =>
        cases hs
        refine { h with acks := ?_ }
        intro m' hm'
        rcases List.mem_append.mp hm' with hm' | hm'
        · exact h.acks m' hm'
        · rw [List.mem_singleton] at hm'
          rw [hm']
          exact hack
    · cases hs
  | rxTcpFSM e =>
    cases hs
    exact inv_callRx h e hok
  | stateTable | rxSarTable =>
    simp only [step, FsmNet.step] at hs
    split at hs
    · cases hs
    · cases hs
      exact { h with }
  | event e =>
    cases hs
    exact inv_push h e false (by simp)
  | deliver =>
    simp only [step] at hs
    split at hs
    · cases hs
    · next e rest he =>
        cases hs
        exact inv_deliver h he
  | rxSarRsp | appPush =>
    cases hs
    exact { h with tx := ⟨h.tx.client, h.tx.asked, h.tx.reply, h.tx.register⟩ }
  | metaLoader =>
    cases hs
    exact inv_callMl h hok
  | txSarTable =>
    cases hs
    exact inv_callTable h
  | retransmitTimer full =>
    cases hs
    exact inv_callTimer h times full hok

/-- In every run whose steps are all safe, whenever the requests to the table and to the timer are served and
the table shows data in flight, the timer of the session runs, or has fired and its event is on its way, or
has given the session up. -/
theorem timer_covers {times : RtTimes} {t : CoverNet b}
    (h : Reach (step times) (fun t l => t.safe l = true) (init b) t) (htx : t.tx.txReq = [])
    (hrx : t.rx.txSarReq = []) (hsets : t.timerIn.txEng2timerSetRetransmitTimer = []) (sid : SessionID)
    (hflight : (t.tx.table sid).ackd ≠ (t.tx.table sid).notAckd) :
    t.active sid = true ∨ t.InFlight sid ∨ t.exhausted sid = true := by
  have hinv : Inv t := h.invariant (P := Inv) init_inv fun _ _ _ hu hok hs => inv_step hu hok hs
  have hout : t.outstanding sid = true := by
    simpa [outstanding, settledAckd, TxNet.sendPoint, htx, hrx, TxSarEntry.sendPoint] using hflight
  rcases hinv.covered sid hout with ha | hs | hf | hex
  · exact .inl ha
  · simp [starting, hsets] at hs
  · exact .inr (.inl hf)
  · exact .inr (.inr hex)

def sampleTimes : RtTimes := ⟨1, 5, 10, 15, 30⟩

/-- `metaLoader` handles an event of session 3, and the timer takes its request. -/
def transmit (type : EventType) (length : BitVec 16) : List (CoverLabel .sample) :=
  [.event { type, sessionID := 3, length, tuple := default }, .metaLoader, .txSarTable, .rxSarRsp default,
    .metaLoader, .txSarTable, .retransmitTimer false]

/-- `rxTcpFSM` loads an acknowledgement of session 3 and reads the tx_sar table. -/
def load (ackNumb : BitVec 32) : List (CoverLabel .sample) :=
  let m : RxFsmMetaData :=
    { (default : RxFsmMetaData) with
      sessionID := 3, metaData := { (default : RxEngineMetaData) with ackNumb, ack := true } }
  [.arrive m, .rxTcpFSM ⟨default, 0, 0⟩, .txSarTable]

/-- `rxTcpFSM` handles it, and the table and the timer take what it asks for. -/
def acknowledge (tcpState : SessionState) : List (CoverLabel .sample) :=
  [.stateTable tcpState, .rxSarTable default, .rxTcpFSM ⟨default, 0, 0⟩, .stateTable default, .txSarTable,
    .retransmitTimer false, .retransmitTimer false, .retransmitTimer false]

/-- Session 3 is opened; its first byte is number `0x88C06C00`. -/
def opening : List (CoverLabel .sample) :=
  transmit SYN_ACK 0 ++ load 0x88C06C00 ++ acknowledge .SYN_RECEIVED

/-- The pointers of session 3, and its timer. -/
def view (t : CoverNet .sample) : List (BitVec 32) × List Bool :=
  ([(t.tx.table 3).ackd, (t.tx.table 3).notAckd],
    [t.active 3, t.exhausted 3, t.tx.txReq.isEmpty, t.rx.txSarReq.isEmpty,
      t.timerIn.txEng2timerSetRetransmitTimer.isEmpty, t.timerIn.rxEng2timerClearRetransmitTimer.isEmpty,
      t.timer.rtWaitForWrite, t.timerEvents.isEmpty, t.tx.fifo.eventEng2txEngEvent.isEmpty,
      t.tx.ml.mlFsmState == .IDLE])

-- 100 bytes are sent and acknowledged, then 50 more are sent.
theorem timer_covers_data :
    ∃ t, Reach (step sampleTimes) (fun t l => t.safe l = true) (init .sample) t ∧ t.active 3 = true ∧
      (t.active 3 = true ∨ t.InFlight 3 ∨ t.exhausted 3 = true) := by
  have h : (runIf (step sampleTimes) (fun t l => t.safe l = true) (init .sample)
      (opening ++ transmit TX 100 ++ load 0x88C06C64 ++ acknowledge .ESTABLISHED ++ transmit TX 50)).map view =
      some ([0x88C06C64, 0x88C06C96], [true, false, true, true, true, true, false, true, true, true]) := by
    decide +kernel
  obtain ⟨t, ht, hp⟩ := Option.map_eq_some_iff.mp h
  have hr := reach_of_runIf ht
  simp only [view, Prod.mk.injEq, List.cons.injEq, List.isEmpty_iff] at hp
  obtain ⟨⟨hackd, hnotAckd, -⟩, ha, -, htx, hrx, hsets, -⟩ := hp
  have hne : (t.tx.table 3).ackd ≠ (t.tx.table 3).notAckd := by
    rw [hackd, hnotAckd]
    decide
  exact ⟨t, hr, ha, timer_covers hr htx hrx hsets 3 hne⟩

-- Between the read of `rxTcpFSM` for the acknowledgement of the first 100 bytes and its handling, 50 more
-- are sent; their start of the timer is absorbed, and the stop that follows leaves them without one.
theorem stop_loses_timer :
    ∃ t, Reach (step sampleTimes) anyStep (init .sample) t ∧ t.tx.txReq = [] ∧ t.rx.txSarReq = [] ∧
      t.timerIn.txEng2timerSetRetransmitTimer = [] ∧ t.timerIn.rxEng2timerClearRetransmitTimer = [] ∧
      (t.tx.table 3).ackd ≠ (t.tx.table 3).notAckd ∧
      t.active 3 = false ∧ ¬t.InFlight 3 ∧ t.exhausted 3 = false := by
  have h : (run (step sampleTimes) (init .sample)
      (opening ++ transmit TX 100 ++ load 0x88C06C64 ++ transmit TX 50 ++ acknowledge .ESTABLISHED)).map view =
      some ([0x88C06C64, 0x88C06C96], [false, false, true, true, true, true, false, true, true, true]) := by
    decide +kernel
  obtain ⟨t, ht, hp⟩ := Option.map_eq_some_iff.mp h
  simp only [view, Prod.mk.injEq, List.cons.injEq, List.isEmpty_iff, beq_iff_eq] at hp
  obtain ⟨⟨hackd, hnotAckd, -⟩, ha, hex, htx, hrx, hsets, hclear, -, hevents, hfifo, hidle, -⟩ := hp
  refine ⟨t, reach_of_run ht, htx, hrx, hsets, hclear, ?_, ha, ?_, hex⟩
  · rw [hackd, hnotAckd]
    decide
  · -- no event of the timer is anywhere
    rintro (⟨e, he, -⟩ | ⟨p, hp, -⟩ | ⟨hW, -⟩)
    · rw [hevents] at he
      cases he
    · rw [hfifo] at hp
      cases hp
    · rw [hidle] at hW
      cases hW

end CoverNet

end FpgaNetworkStack.Toe
