import FpgaNetworkStack.Lib.Blocks
import FpgaNetworkStack.Toe.FinOnce
import FpgaNetworkStack.Toe.SendWindow
import FpgaNetworkStack.Toe.TxBuffer

/-!
# The path of a write

From `tasi_metaLoader` to the segment: an accepted write moves `mempt` of `tx_app_table` at once, and its
TX event goes through `txEventMerger`, `event_engine` and `ack_delay` to `metaLoader`, which moves
`not_ackd` of `tx_sar_table`.  The mergers have fixed priorities; every FIFO and every process of the path
is here, together with the receive engine that moves `ackd`.
-/

namespace FpgaNetworkStack.Toe

open Lib EventType

variable {b : Build} {sid : SessionID}

/-! ## The network -/

variable (b) in
structure PathNet where
  app : AppNet b
  merge : TxEventMergerIn b
  rxMerge : RxEventMergerIn b
  engine : EventEngine
  engineIn : EventEngineIn b
  delay : AckDelay
  delayIn : List (ExtendedEvent b)
  send : SendNet b
  /-- The event of every write answered with `NO_ERROR`. -/
  accepted : List (Event b)
  /-- Every segment `metaLoader` has emitted, with the event it worked on. -/
  emitted : List (ExtendedEvent b × TxEngineMeta)

variable (b) in
inductive PathLabel where
  | app (l : AppNet.Label b)
  | appIf (s : TxAppIf) (i : TxAppIfIn)
  | txEventMerger
  | reset (m : RxEngineMetaData) (tuple : FourTuple)
  | rxEventMerger
  | timer (e : Event b)
  | eventEngine (full : Bool)
  | ackDelay (full : Bool)
  | rx (l : FsmLabel b)
  | rxSarRsp (r : RxSarReply)
  | appPush (p : TxAppTxSarPush b)
  | metaLoader
  | txSarTable

namespace PathNet

/-- The events raised by a step of the receive engine. -/
def rxEvents (t : PathNet b) : FsmLabel b → List (Event b)
  | .call e => (rxTcpFSM b e t.send.rx.fsm t.send.rx.fifo).2.2.rxEng2eventEngSetEvent
  | _ => []

/-- A timer repeats a SYN or SYN-ACK with a retry count, or asks for a retransmission. -/
def timed (e : Event b) : Bool := e.type == RT || (e.type == SYN || e.type == SYN_ACK) && e.rtCount != 0

/-- One call of a process, or one action of the environment: requests of the application, replies of the
state and rx_sar tables, segments that arrive, timers, and calls of `tx_app_if` in any of its states.
Session `sid` is not opened again. -/
def step (sid : SessionID) (time64us : BitVec 12) (t : PathNet b) : PathLabel b → Option (PathNet b)
  | .app (.ackPush _) => none
  | .app .tasi =>
    let (app, out) := t.app.callTasi
    some { t with
      app
      merge := { t.merge with txAppStream2eventMergeEvent :=
        t.merge.txAppStream2eventMergeEvent ++ out.txAppStream2eventEngSetEvent }
      accepted := t.accepted ++ out.txAppStream2eventEngSetEvent }
  | .app l => (t.app.step sid l).map fun app => { t with app }
  | .appIf s i =>
    let events := (txAppIf b 0 s i).2.2.txApp2eventEngSetEvent
    if events.any fun e => e.sessionID == sid && e.type == SYN then none
    else some { t with merge := { t.merge with
      txApp2eventEngMergeEvent := t.merge.txApp2eventEngMergeEvent ++ events } }
  | .txEventMerger =>
    let (merge, out, _) := txEventMerger b t.merge
    some { t with
      merge
      engineIn := { t.engineIn with
        txApp2eventEngSetEvent := t.engineIn.txApp2eventEngSetEvent ++ out } }
  | .reset m tuple => some { t with rxMerge := { t.rxMerge with
      in1 := t.rxMerge.in1 ++ closedPortReset b m tuple } }
  | .rxEventMerger =>
    let (rxMerge, out) := rxEventMerger t.rxMerge
    some { t with
      rxMerge
      engineIn := { t.engineIn with
        rxEng2eventEngSetEvent := t.engineIn.rxEng2eventEngSetEvent ++ out } }
  | .timer e =>
    if timed e then
      some { t with engineIn := { t.engineIn with
        timer2eventEngSetEvent := t.engineIn.timer2eventEngSetEvent ++ [e] } }
    else none
  | .eventEngine full =>
    let (engine, engineIn, out) := eventEngine full t.engine t.engineIn
    some { t with engine, engineIn, delayIn := t.delayIn ++ out }
  | .ackDelay full =>
    let (delay, delayIn, out, reads) := ackDelay time64us full t.delay t.delayIn
    some { t with
      delay, delayIn
      engineIn := { t.engineIn with
        ackDelayFifoReadCount := t.engineIn.ackDelayFifoReadCount + reads
        ackDelayFifoWriteCount := t.engineIn.ackDelayFifoWriteCount + out.length }
      send := { t.send with tx := { t.send.tx with fifo := { t.send.tx.fifo with
        eventEng2txEngEvent := t.send.tx.fifo.eventEng2txEngEvent ++ out } } } }
  | .rx (.txSarTable _) => none
  | .rx l =>
    (t.send.rx.step l).map fun rx => { t with
      send := { t.send with rx }
      rxMerge := { t.rxMerge with in2 := t.rxMerge.in2 ++ t.rxEvents l } }
  | .rxSarRsp r => some { t with send := { t.send with tx := { t.send.tx with fifo :=
      { t.send.tx.fifo with rxSar2txEngRsp := t.send.tx.fifo.rxSar2txEngRsp ++ [r] } } } }
  | .appPush p => some { t with send := { t.send with tx := { t.send.tx with
      appPush := t.send.tx.appPush ++ [p] } } }
  | .metaLoader =>
    let (tx, out) := t.send.tx.callMl
    some { t with
      send := { t.send with tx }
      engineIn := { t.engineIn with
        txEngFifoReadCount := t.engineIn.txEngFifoReadCount + out.readCountFifo }
      emitted := t.emitted ++ out.txEngTcpMetaFifoOut.map fun m => (t.send.tx.ml.mlCurEvent, m) }
  | .txSarTable =>
    let u := t.send.tx.callTable t.send.rx.txSarReq
    some { t with
      send := t.send.served u
      app := { t.app with ackPush := t.app.ackPush ++ u.2.2.txSar2txAppAckPush } }

end PathNet

/-! ## Events on their way -/

/-- A TX event of `sid` that carries data. -/
def Event.isData (sid : SessionID) (e : Event b) : Bool :=
  e.type == TX && e.sessionID == sid && e.length != 0

def Event.isFin (sid : SessionID) (e : Event b) : Bool := e.type == FIN && e.sessionID == sid

/-- Lengths of the data events of `sid`. -/
def lengths (sid : SessionID) (es : List (ExtendedEvent b)) : List Nat :=
  (es.filter (·.isData sid)).map (·.length.toNat)

/-- No data event of `sid` stands behind a FIN event of `sid`. -/
def FinBehind (sid : SessionID) (es : List (ExtendedEvent b)) : Prop :=
  es.Pairwise fun e e' => e.isFin sid = true → e'.isData sid = false

@[simp] theorem lengths_append (es es' : List (ExtendedEvent b)) :
    lengths sid (es ++ es') = lengths sid es ++ lengths sid es' := by
  simp [lengths]

@[simp] theorem lengths_nil : lengths sid ([] : List (ExtendedEvent b)) = [] := rfl

variable {e : ExtendedEvent b}

theorem lengths_cons_data (h : e.isData sid = true) (es : List (ExtendedEvent b)) :
    lengths sid (e :: es) = e.length.toNat :: lengths sid es := by
  simp [lengths, h]

theorem lengths_cons_other (h : e.isData sid = false)
    (es : List (ExtendedEvent b)) : lengths sid (e :: es) = lengths sid es := by
  simp [lengths, h]

variable {es l₁ l₂ : List (ExtendedEvent b)}

theorem lengths_eq_nil : lengths sid es = [] ↔ ∀ e ∈ es, e.isData sid = false := by
  simp [lengths, List.filter_eq_nil_iff]

theorem isFin_not_data {e : Event b} (h : e.isFin sid = true) : e.isData sid = false := by
  simp only [Event.isFin, Bool.and_eq_true, beq_iff_eq] at h
  simp [Event.isData, h.1]

theorem FinBehind.of_lengths (h : lengths sid es = []) : FinBehind sid es := by
  have hall := lengths_eq_nil.mp h
  exact List.pairwise_of_forall_mem_list fun _ _ e' he' _ => hall e' he'

/-- A FIN may be inserted where no data follows, anything but data and FINs anywhere. -/
theorem FinBehind.insert (h : FinBehind sid (l₁ ++ l₂)) (hdata : e.isData sid = false)
    (hfin : e.isFin sid = true → lengths sid l₂ = []) : FinBehind sid (l₁ ++ e :: l₂) := by
  unfold FinBehind at h ⊢
  rw [List.pairwise_append] at h ⊢
  obtain ⟨h₁, h₂, h₁₂⟩ := h
  refine ⟨h₁, List.pairwise_cons.mpr ⟨?_, h₂⟩, ?_⟩
  · intro e' he' hf
    exact lengths_eq_nil.mp (hfin hf) e' he'
  · intro a ha e' he' hf
    rcases List.mem_cons.mp he' with rfl | he'
    · exact hdata
    · exact h₁₂ a ha e' he' hf

theorem FinBehind.insert_all
    (h : FinBehind sid (l₁ ++ l₂)) (hes : ∀ e ∈ es, e.isData sid = false ∧ e.isFin sid = false) :
    FinBehind sid (l₁ ++ (es ++ l₂)) := by
  induction es with
  | nil => exact h
  | cons e es ih =>
    obtain ⟨hdata, hfin⟩ := hes e List.mem_cons_self
    refine (ih fun e he => hes e (List.mem_cons_of_mem _ he)).insert hdata ?_
    rw [hfin]
    simp

theorem FinBehind.remove (h : FinBehind sid (l₁ ++ e :: l₂)) : FinBehind sid (l₁ ++ l₂) :=
  h.sublist (List.Sublist.append_left (List.sublist_cons_self e l₂) l₁)

theorem FinBehind.head
    (h : FinBehind sid (e :: es)) (hf : e.isFin sid = true) : lengths sid es = [] :=
  lengths_eq_nil.mpr fun e' he' => (List.pairwise_cons.mp h).1 e' he' hf

namespace PathNet

/-- The event `metaLoader` works on. -/
def current (t : PathNet b) : List (ExtendedEvent b) :=
  if t.send.tx.ml.mlFsmState = .WORK then [t.send.tx.ml.mlCurEvent] else []

/-- The FIFOs a TX event goes through, the oldest event first. -/
def route (t : PathNet b) : List (ExtendedEvent b) :=
  t.send.tx.fifo.eventEng2txEngEvent ++ t.delayIn ++
    (t.engineIn.txApp2eventEngSetEvent ++ t.merge.txAppStream2eventMergeEvent).map Event.extended

/-- The FIFOs on which the other events wait for the mergers. -/
def waiting (t : PathNet b) : List (ExtendedEvent b) :=
  t.merge.txApp2eventEngMergeEvent.map Event.extended ++ t.rxMerge.in1 ++
    t.rxMerge.in2.map Event.extended ++ t.engineIn.rxEng2eventEngSetEvent ++
    t.engineIn.timer2eventEngSetEvent.map Event.extended

/-- Buffer offsets and lengths of the accepted writes of `sid`, without the empty ones. -/
def writes (t : PathNet b) (sid : SessionID) : List (BitVec b.windowBits × Nat) :=
  (t.accepted.filter (·.isData sid)).map fun e => (e.address, e.length.toNat)

/-- Sequence numbers and lengths of the TX data segments of `sid`. -/
def segments (log : List (ExtendedEvent b × TxEngineMeta)) (sid : SessionID) : List (BitVec 32 × Nat) :=
  (log.filter (·.1.isData sid)).map fun s => (s.2.seqNumb, s.2.length.toNat)

end PathNet

end FpgaNetworkStack.Toe
