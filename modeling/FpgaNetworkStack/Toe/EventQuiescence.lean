import FpgaNetworkStack.Lib.Serial
import FpgaNetworkStack.Toe.EventEngine
import FpgaNetworkStack.Toe.TxNet

/-!
# Quiescence of the event path (`event_engine.cpp`, `ack_delay.cpp`, `metaLoader`, depths of `toe.cpp`)

`event_engine` admits an event of a timer or of the application only when it believes that no other event is on its
way.  It learns this from four wrapping counters and from tokens that come back through FIFOs.  A call that would
write to a full FIFO does not happen, so every FIFO stays within its depth, the differences of the counters stay
below 256, and equal counters mean equal totals.
-/

namespace FpgaNetworkStack.Toe

open Lib

variable {b : Build}

/-- `eventEng2ackDelay_event`, `eventEng2txEng_event` and the three count FIFOs have this depth. -/
def eventDepth : Nat := 64

variable (b) in
/-- The three processes with their FIFOs, the totals behind the counters, and the events that were `forwarded` by
`event_engine`, `handled` by `ack_delay` (passed on or not), `emitted` by it (passed on or its own), and `taken` by
`metaLoader`. -/
structure EventNet where
  ee : EventEngine := {}
  eeIn : EventEngineIn b := {}
  eventEng2ackDelay : List (ExtendedEvent b) := []
  ad : AckDelay := .init
  ml : MetaLoader b := .init b
  mlIn : MetaLoaderIn b := {}
  adRead : Nat := 0
  adWrite : Nat := 0
  txEngRead : Nat := 0
  forwarded : List (ExtendedEvent b) := []
  handled : List (ExtendedEvent b × Bool) := []
  emitted : List (ExtendedEvent b × Bool) := []
  taken : List (ExtendedEvent b) := []

namespace EventNet

variable (b) in
inductive Label where
  | rxEng (ev : ExtendedEvent b)
  | timer (ev : Event b)
  | txApp (ev : Event b)
  | eventEngine
  | ackDelay
  | metaLoader
  | rxSar (r : RxSarReply)
  | txSar (r : TxTxSarReply b)
  deriving DecidableEq

def callEventEngine (t : EventNet b) : EventNet b :=
  let full := decide (eventDepth ≤ t.eventEng2ackDelay.length)
  let (ee, eeIn, out) := eventEngine full t.ee t.eeIn
  { t with
    ee, eeIn
    eventEng2ackDelay := t.eventEng2ackDelay ++ out
    adRead := t.adRead + min 1 t.eeIn.ackDelayFifoReadCount
    adWrite := t.adWrite + min 1 t.eeIn.ackDelayFifoWriteCount
    txEngRead := t.txEngRead + min 1 t.eeIn.txEngFifoReadCount
    forwarded := t.forwarded ++ out }

/-- One call of `ack_delay`; each output also makes an entry of `writeCountFifo`. -/
def callAckDelay (time64us : BitVec 12) (t : EventNet b) : EventNet b :=
  let full := decide (eventDepth ≤ t.mlIn.eventEng2txEngEvent.length)
  let (ad, input, out, reads) := ackDelay time64us full t.ad t.eventEng2ackDelay
  { t with
    ad, eventEng2ackDelay := input
    mlIn := { t.mlIn with eventEng2txEngEvent := t.mlIn.eventEng2txEngEvent ++ out }
    eeIn := { t.eeIn with
      ackDelayFifoReadCount := t.eeIn.ackDelayFifoReadCount + reads
      ackDelayFifoWriteCount := t.eeIn.ackDelayFifoWriteCount + out.length }
    handled := t.handled ++ (t.eventEng2ackDelay.take reads).map fun ev => (ev, !out.isEmpty)
    emitted := t.emitted ++ out.map fun ev => (ev, reads != 0) }

def callMetaLoader (t : EventNet b) : EventNet b :=
  let (ml, mlIn, out) := metaLoader b t.ml t.mlIn
  { t with
    ml, mlIn
    eeIn := { t.eeIn with txEngFifoReadCount := t.eeIn.txEngFifoReadCount + out.readCountFifo }
    taken := t.taken ++ t.mlIn.eventEng2txEngEvent.take out.readCountFifo }

/-- The FIFOs between the processes are within their depths. -/
structure Fits (t : EventNet b) : Prop where
  events : t.eventEng2ackDelay.length ≤ eventDepth
  output : t.mlIn.eventEng2txEngEvent.length ≤ eventDepth
  readCount : t.eeIn.ackDelayFifoReadCount ≤ eventDepth
  writeCount : t.eeIn.ackDelayFifoWriteCount ≤ eventDepth
  txEngCount : t.eeIn.txEngFifoReadCount ≤ eventDepth

instance (t : EventNet b) : Decidable t.Fits :=
  decidable_of_iff (t.eventEng2ackDelay.length ≤ eventDepth ∧ t.mlIn.eventEng2txEngEvent.length ≤ eventDepth ∧
    t.eeIn.ackDelayFifoReadCount ≤ eventDepth ∧ t.eeIn.ackDelayFifoWriteCount ≤ eventDepth ∧
    t.eeIn.txEngFifoReadCount ≤ eventDepth)
    ⟨fun ⟨h1, h2, h3, h4, h5⟩ => ⟨h1, h2, h3, h4, h5⟩, fun ⟨h1, h2, h3, h4, h5⟩ => ⟨h1, h2, h3, h4, h5⟩⟩

/-- A call happens when there is room for what it writes. -/
def whenRoom (u : EventNet b) : Option (EventNet b) := if u.Fits then some u else none

def step (time64us : BitVec 12) (t : EventNet b) : Label b → Option (EventNet b)
  | .rxEng ev => some { t with
      eeIn := { t.eeIn with rxEng2eventEngSetEvent := t.eeIn.rxEng2eventEngSetEvent ++ [ev] } }
  | .timer ev => some { t with
      eeIn := { t.eeIn with timer2eventEngSetEvent := t.eeIn.timer2eventEngSetEvent ++ [ev] } }
  | .txApp ev => some { t with
      eeIn := { t.eeIn with txApp2eventEngSetEvent := t.eeIn.txApp2eventEngSetEvent ++ [ev] } }
  | .eventEngine => whenRoom t.callEventEngine
  | .ackDelay => whenRoom (t.callAckDelay time64us)
  | .metaLoader => whenRoom t.callMetaLoader
  | .rxSar r => some { t with mlIn := { t.mlIn with rxSar2txEngRsp := t.mlIn.rxSar2txEngRsp ++ [r] } }
  | .txSar r => some { t with mlIn := { t.mlIn with txSar2txEngUpdRsp := t.mlIn.txSar2txEngUpdRsp ++ [r] } }

/-! ## Totals and counters -/

/-- Every event and every token that was written has been taken or is in its FIFO, and the counters are the totals
modulo 256. -/
structure Counted (t : EventNet b) : Prop where
  events : t.forwarded.length = t.adRead + t.eeIn.ackDelayFifoReadCount + t.eventEng2ackDelay.length
  tokens : t.emitted.length = t.adWrite + t.eeIn.ackDelayFifoWriteCount
  output : t.emitted.length = t.txEngRead + t.eeIn.txEngFifoReadCount + t.mlIn.eventEng2txEngEvent.length
  eeWriteCounter : t.ee.eeWriteCounter = BitVec.ofNat 8 t.forwarded.length
  eeAdReadCounter : t.ee.eeAdReadCounter = BitVec.ofNat 8 t.adRead
  eeAdWriteCounter : t.ee.eeAdWriteCounter = BitVec.ofNat 8 t.adWrite
  eeTxEngReadCounter : t.ee.eeTxEngReadCounter = BitVec.ofNat 8 t.txEngRead

/-- Where the events are: `ack_delay` handled a prefix of the forwarded ones, passed each of them on once or kept
back an ACK, and `metaLoader` took a prefix of what was emitted. -/
structure Conserved (t : EventNet b) : Prop where
  forwarded : t.forwarded = t.handled.map (·.1) ++ t.eventEng2ackDelay
  passed : (t.handled.filter (·.2)).map (·.1) = (t.emitted.filter (·.2)).map (·.1)
  absorbed : ∀ e ∈ t.handled, e.2 = false → e.1.type = .ACK
  emitted : t.emitted.map (·.1) = t.taken ++ t.mlIn.eventEng2txEngEvent

/-! ### `event_engine` -/

variable {time64us : BitVec 12} {t u : EventNet b} {l : Label b}

theorem forwards_counts {full : Bool} {i i' : EventEngineIn b} {out : List (ExtendedEvent b)}
    (h : Forwards full i i' out) :
    i'.ackDelayFifoReadCount = i.ackDelayFifoReadCount ∧ i'.ackDelayFifoWriteCount = i.ackDelayFifoWriteCount ∧
      i'.txEngFifoReadCount = i.txEngFifoReadCount := by
  cases h with
  | rxEng | timer | txApp | none => exact ⟨rfl, rfl, rfl⟩

theorem counter_add (total n : Nat) :
    BitVec.ofNat 8 total + (if n = 0 then 0 else 1) = BitVec.ofNat 8 (total + min 1 n) := by
  rw [BitVec.ofNat_add]
  cases n with
  | zero => rfl
  | succ n =>
    rw [if_neg (Nat.succ_ne_zero n), Nat.min_eq_left (Nat.succ_le_succ (Nat.zero_le n))]
    rfl

/-- What a call of `event_engine` does beside forwarding: it takes a token of each kind. -/
theorem callEventEngine_eq (t : EventNet b) : ∃ eeIn out,
    eeIn = (eeForward (decide (eventDepth ≤ t.eventEng2ackDelay.length)) t.ee t.eeIn).1 ∧
    Forwards (decide (eventDepth ≤ t.eventEng2ackDelay.length)) t.eeIn eeIn out ∧
    t.callEventEngine = { t with
      ee :=
        { eeWriteCounter := t.ee.eeWriteCounter + BitVec.ofNat 8 out.length
          eeAdReadCounter := t.ee.eeAdReadCounter + if eeIn.ackDelayFifoReadCount = 0 then 0 else 1
          eeAdWriteCounter := t.ee.eeAdWriteCounter + if eeIn.ackDelayFifoWriteCount = 0 then 0 else 1
          eeTxEngReadCounter := t.ee.eeTxEngReadCounter + if eeIn.txEngFifoReadCount = 0 then 0 else 1 }
      eeIn := { eeIn with
        ackDelayFifoReadCount := eeIn.ackDelayFifoReadCount - 1
        ackDelayFifoWriteCount := eeIn.ackDelayFifoWriteCount - 1
        txEngFifoReadCount := eeIn.txEngFifoReadCount - 1 }
      eventEng2ackDelay := t.eventEng2ackDelay ++ out
      adRead := t.adRead + min 1 t.eeIn.ackDelayFifoReadCount
      adWrite := t.adWrite + min 1 t.eeIn.ackDelayFifoWriteCount
      txEngRead := t.txEngRead + min 1 t.eeIn.txEngFifoReadCount
      forwarded := t.forwarded ++ out } :=
  ⟨_, _, rfl, forwards _ t.ee t.eeIn, rfl⟩

theorem Counted.callEventEngine (h : Counted t) : Counted t.callEventEngine := by
  obtain ⟨eeIn, out, -, hforwards, hcall⟩ := t.callEventEngine_eq
  obtain ⟨hread, hwrite, htx⟩ := forwards_counts hforwards
  have hevents := h.events
  have htokens := h.tokens
  have houtput := h.output
  rw [hcall, hread, hwrite, htx]
  constructor
  · simp only [List.length_append]
    omega
  · show t.emitted.length = _
    dsimp only
    omega
  · show t.emitted.length = _
    dsimp only
    omega
  · dsimp only
    rw [h.eeWriteCounter, List.length_append, BitVec.ofNat_add]
  · dsimp only
    rw [h.eeAdReadCounter]
    exact counter_add _ _
  · dsimp only
    rw [h.eeAdWriteCounter]
    exact counter_add _ _
  · dsimp only
    rw [h.eeTxEngReadCounter]
    exact counter_add _ _

theorem Conserved.callEventEngine (h : Conserved t) : Conserved t.callEventEngine := by
  obtain ⟨eeIn, out, -, -, hcall⟩ := t.callEventEngine_eq
  rw [hcall]
  refine { h with forwarded := ?_ }
  dsimp only
  rw [h.forwarded, List.append_assoc]

/-! ### `ack_delay` -/

/-- A call of `ack_delay` keeps an ACK back, passes its event on, or has none. -/
inductive Handled (time64us : BitVec 12) (t : EventNet b) : EventNet b → Prop
  | hold (ev : ExtendedEvent b) (rest : List (ExtendedEvent b)) (ad : AckDelay)
      (hin : t.eventEng2ackDelay = ev :: rest) (hack : ev.type = .ACK)
      (htable : ad.ackTable ev.sessionID = time64us) : Handled time64us t
        { t with
          ad, eventEng2ackDelay := rest
          eeIn := { t.eeIn with ackDelayFifoReadCount := t.eeIn.ackDelayFifoReadCount + 1 }
          handled := t.handled ++ [(ev, false)] }
  | pass (ev : ExtendedEvent b) (rest : List (ExtendedEvent b)) (ad : AckDelay)
      (hin : t.eventEng2ackDelay = ev :: rest) : Handled time64us t
        { t with
          ad, eventEng2ackDelay := rest
          mlIn := { t.mlIn with eventEng2txEngEvent := t.mlIn.eventEng2txEngEvent ++ [ev] }
          eeIn := { t.eeIn with
            ackDelayFifoReadCount := t.eeIn.ackDelayFifoReadCount + 1
            ackDelayFifoWriteCount := t.eeIn.ackDelayFifoWriteCount + 1 }
          handled := t.handled ++ [(ev, true)]
          emitted := t.emitted ++ [(ev, true)] }
  | tick (ad : AckDelay) (out : List (ExtendedEvent b)) (hin : t.eventEng2ackDelay = []) : Handled time64us t
        { t with
          ad
          mlIn := { t.mlIn with eventEng2txEngEvent := t.mlIn.eventEng2txEngEvent ++ out }
          eeIn := { t.eeIn with ackDelayFifoWriteCount := t.eeIn.ackDelayFifoWriteCount + out.length }
          emitted := t.emitted ++ out.map fun ev => (ev, false) }

theorem callAckDelay_handled (time64us : BitVec 12) (t : EventNet b) :
    Handled time64us t (t.callAckDelay time64us) := by
  cases hin : t.eventEng2ackDelay with
  | nil =>
    have hcall : t.callAckDelay time64us = { t with
        ad := (adTick (b := b) (decide (eventDepth ≤ t.mlIn.eventEng2txEngEvent.length)) t.ad).1
        mlIn := { t.mlIn with
          eventEng2txEngEvent := t.mlIn.eventEng2txEngEvent ++
            (adTick (decide (eventDepth ≤ t.mlIn.eventEng2txEngEvent.length)) t.ad).2 }
        eeIn := { t.eeIn with
          ackDelayFifoWriteCount := t.eeIn.ackDelayFifoWriteCount +
            (adTick (b := b) (decide (eventDepth ≤ t.mlIn.eventEng2txEngEvent.length)) t.ad).2.length }
        emitted := t.emitted ++
          (adTick (decide (eventDepth ≤ t.mlIn.eventEng2txEngEvent.length)) t.ad).2.map fun ev => (ev, false) } := by
      simp [callAckDelay, ackDelay, hin]
    rw [hcall]
    exact .tick _ _ hin
  | cons ev rest =>
    by_cases hhold : ev.type = .ACK ∧ t.ad.ackTable ev.sessionID = 0
    · have hcall : t.callAckDelay time64us = { t with
          ad := { t.ad with ackTable := Function.update t.ad.ackTable ev.sessionID time64us }
          eventEng2ackDelay := rest
          eeIn := { t.eeIn with ackDelayFifoReadCount := t.eeIn.ackDelayFifoReadCount + 1 }
          handled := t.handled ++ [(ev, false)] } := by
        simp [callAckDelay, ackDelay, hin, hhold]
      rw [hcall]
      exact .hold ev rest _ hin hhold.1 (Function.update_self _ _ _)
    · have hcall : t.callAckDelay time64us = { t with
          ad := { t.ad with ackTable := Function.update t.ad.ackTable ev.sessionID 0 }
          eventEng2ackDelay := rest
          mlIn := { t.mlIn with eventEng2txEngEvent := t.mlIn.eventEng2txEngEvent ++ [ev] }
          eeIn := { t.eeIn with
            ackDelayFifoReadCount := t.eeIn.ackDelayFifoReadCount + 1
            ackDelayFifoWriteCount := t.eeIn.ackDelayFifoWriteCount + 1 }
          handled := t.handled ++ [(ev, true)]
          emitted := t.emitted ++ [(ev, true)] } := by
        simp only [callAckDelay, ackDelay, hin, if_neg hhold]
        simp
      rw [hcall]
      exact .pass ev rest _ hin

theorem Counted.callAckDelay (h : Counted t) : Counted (t.callAckDelay time64us) := by
  have hevents := h.events
  have htokens := h.tokens
  have houtput := h.output
  have hhandled := callAckDelay_handled time64us t
  generalize t.callAckDelay time64us = u at hhandled
  cases hhandled with
  | hold ev rest ad hin hack htable =>
    rw [hin, List.length_cons] at hevents
    refine { h with events := ?_ }
    dsimp only
    omega
  | pass ev rest ad hin =>
    rw [hin, List.length_cons] at hevents
    refine { h with events := ?_, tokens := ?_, output := ?_ }
    · dsimp only
      omega
    · simp only [List.length_append, List.length_singleton]
      omega
    · simp only [List.length_append, List.length_singleton]
      omega
  | tick ad out hin =>
    refine { h with tokens := ?_, output := ?_ }
    · simp only [List.length_append, List.length_map]
      omega
    · simp only [List.length_append, List.length_map]
      omega

theorem Conserved.callAckDelay (h : Conserved t) : Conserved (t.callAckDelay time64us) := by
  have hforwarded := h.forwarded
  have hpassed := h.passed
  have hemitted := h.emitted
  have hhandled := callAckDelay_handled time64us t
  generalize t.callAckDelay time64us = u at hhandled
  cases hhandled with
  | hold ev rest ad hin hack htable =>
    refine { h with forwarded := ?_, passed := ?_, absorbed := ?_ }
    · simp [hforwarded, hin]
    · simpa using hpassed
    · intro e he hfalse
      rcases List.mem_append.mp he with he | he
      · exact h.absorbed e he hfalse
      · rw [List.mem_singleton.mp he]
        exact hack
  | pass ev rest ad hin =>
    constructor
    · simp [hforwarded, hin]
    · simpa using hpassed
    · intro e he hfalse
      rcases List.mem_append.mp he with he | he
      · exact h.absorbed e he hfalse
      · rw [List.mem_singleton.mp he] at hfalse
        cases hfalse
    · simp [hemitted]
  | tick ad out hin =>
    refine { h with passed := ?_, emitted := ?_ }
    · -- an ACK of its own is not one that was passed on
      have hown : (out.map fun ev => (ev, false)).filter (·.2) = [] := by simp
      rw [List.filter_append, hown, List.append_nil]
      exact hpassed
    · simp [hemitted, Function.comp_def]

/-! ### `metaLoader` -/

theorem metaLoader_reads (s : MetaLoader b) (i : MetaLoaderIn b) :
    i.eventEng2txEngEvent =
      i.eventEng2txEngEvent.take (metaLoader b s i).2.2.readCountFifo ++ (metaLoader b s i).2.1.eventEng2txEngEvent ∧
    (i.eventEng2txEngEvent.take (metaLoader b s i).2.2.readCountFifo).length =
      (metaLoader b s i).2.2.readCountFifo := by
  cases hs : s.mlFsmState with
  | IDLE =>
    cases he : i.eventEng2txEngEvent with
    | nil => simp [metaLoader, hs, he]
    | cons e rest =>
      have hone : (mlRequests e).readCountFifo = 1 := by
        unfold mlRequests
        split <;> rfl
      simp [metaLoader, hs, he, hone]
  | WORK =>
    rcases MetaLoader.metaLoader_work i hs with hw | ⟨rxSar, r, i', ht, -, hw⟩
    · simp [hw]
    · rw [hw]
      show _ = List.take (s.handle rxSar r).2.readCountFifo _ ++ i'.eventEng2txEngEvent ∧
        (List.take (s.handle rxSar r).2.readCountFifo _).length = (s.handle rxSar r).2.readCountFifo
      rw [(s.handle_reads rxSar r).2, ht.event]
      exact ⟨rfl, rfl⟩

theorem Counted.callMetaLoader (h : Counted t) : Counted t.callMetaLoader := by
  obtain ⟨hevents, hlength⟩ := metaLoader_reads t.ml t.mlIn
  have hlen := congrArg List.length hevents
  rw [List.length_append, hlength] at hlen
  have houtput := h.output
  refine { h with output := ?_ }
  show t.emitted.length = t.txEngRead + (t.eeIn.txEngFifoReadCount + (metaLoader b t.ml t.mlIn).2.2.readCountFifo) +
    (metaLoader b t.ml t.mlIn).2.1.eventEng2txEngEvent.length
  have hlen : t.mlIn.eventEng2txEngEvent.length = (metaLoader b t.ml t.mlIn).2.2.readCountFifo +
    (metaLoader b t.ml t.mlIn).2.1.eventEng2txEngEvent.length := hlen
  omega

theorem Conserved.callMetaLoader (h : Conserved t) : Conserved t.callMetaLoader := by
  obtain ⟨hevents, -⟩ := metaLoader_reads t.ml t.mlIn
  refine { h with emitted := ?_ }
  show t.emitted.map _ = (t.taken ++ _) ++ _
  rw [h.emitted, List.append_assoc]
  exact congrArg (t.taken ++ ·) hevents

/-! ## Every run -/

structure Inv (t : EventNet b) : Prop where
  counted : Counted t
  conserved : Conserved t
  fits : Fits t

theorem Inv.init : Inv ({} : EventNet b) := by
  constructor
  · exact ⟨rfl, rfl, rfl, rfl, rfl, rfl, rfl⟩
  · exact ⟨rfl, rfl, fun e he => (by cases he), rfl⟩
  · constructor <;> exact Nat.zero_le _

theorem whenRoom_some (h : whenRoom t = some u) : t = u ∧ u.Fits := by
  unfold whenRoom at h
  split at h
  · next hfits =>
      cases Option.some.inj h
      exact ⟨rfl, hfits⟩
  · cases h

theorem inv_step (h : Inv t) (hs : t.step time64us l = some u) : Inv u := by
  obtain ⟨hcounted, hconserved, hfits⟩ := h
  cases l with
  | rxEng | timer | txApp | rxSar | txSar =>
    cases Option.some.inj hs
    exact ⟨{ hcounted with }, { hconserved with }, { hfits with }⟩
  | eventEngine =>
    obtain ⟨rfl, hroom⟩ := whenRoom_some hs
    exact ⟨hcounted.callEventEngine, hconserved.callEventEngine, hroom⟩
  | ackDelay =>
    obtain ⟨rfl, hroom⟩ := whenRoom_some hs
    exact ⟨hcounted.callAckDelay, hconserved.callAckDelay, hroom⟩
  | metaLoader =>
    obtain ⟨rfl, hroom⟩ := whenRoom_some hs
    exact ⟨hcounted.callMetaLoader, hconserved.callMetaLoader, hroom⟩

theorem Inv.drained_iff (h : Inv t) :
    t.ee.drained = true ↔ t.forwarded.length = t.adRead ∧ t.adWrite = t.txEngRead := by
  obtain ⟨hcounted, -, hfits⟩ := h
  have hevents := hcounted.events
  have htokens := hcounted.tokens
  have houtput := hcounted.output
  have h1 := hfits.events
  have h2 := hfits.output
  have h3 := hfits.readCount
  have h4 := hfits.writeCount
  have h5 := hfits.txEngCount
  unfold eventDepth at h1 h2 h3 h4 h5
  rw [EventEngine.drained, Bool.and_eq_true, beq_iff_eq, beq_iff_eq, hcounted.eeWriteCounter,
    hcounted.eeAdReadCounter, hcounted.eeAdWriteCounter, hcounted.eeTxEngReadCounter]
  constructor
  · rintro ⟨hread, hwrite⟩
    exact ⟨Lib.ofNat_inj hread (by omega) (by omega), Lib.ofNat_inj hwrite (by omega) (by omega)⟩
  · rintro ⟨hread, hwrite⟩
    rw [hread, hwrite]
    exact ⟨rfl, rfl⟩

theorem eeForward_undrained {s : EventEngine} (h : s.drained = false) (full : Bool) (i : EventEngineIn b) :
    (eeForward full s i).1.timer2eventEngSetEvent = i.timer2eventEngSetEvent ∧
      (eeForward full s i).1.txApp2eventEngSetEvent = i.txApp2eventEngSetEvent := by
  unfold eeForward
  split
  · exact ⟨rfl, rfl⟩
  · rw [h]
    exact ⟨rfl, rfl⟩

/-- When an event that is not one of the receive engine is admitted, the counters are equal. -/
theorem admits_drained (hs : t.step time64us .eventEngine = some u)
    (h : u.eeIn.timer2eventEngSetEvent ≠ t.eeIn.timer2eventEngSetEvent ∨
      u.eeIn.txApp2eventEngSetEvent ≠ t.eeIn.txApp2eventEngSetEvent) : t.ee.drained = true := by
  obtain ⟨rfl, -⟩ := whenRoom_some hs
  obtain ⟨eeIn, out, heq, -, hcall⟩ := t.callEventEngine_eq
  cases hd : t.ee.drained with
  | true => rfl
  | false =>
    obtain ⟨htimer, happ⟩ := eeForward_undrained hd (decide (eventDepth ≤ t.eventEng2ackDelay.length)) t.eeIn
    rw [hcall, heq] at h
    dsimp only at h
    rw [htimer, happ] at h
    rcases h with h | h
    · exact absurd rfl h
    · exact absurd rfl h

/-- Equal counters mean equal totals, an event of a timer or of the application is admitted only to an empty path
as far as the tokens say, and no event is lost or duplicated on the way. -/
theorem quiescence (h : Reach (step time64us) anyStep ({} : EventNet b) t) :
    (t.ee.drained = true ↔ t.forwarded.length = t.adRead ∧ t.adWrite = t.txEngRead) ∧
    (∀ u, t.step time64us .eventEngine = some u →
      (u.eeIn.timer2eventEngSetEvent ≠ t.eeIn.timer2eventEngSetEvent ∨
        u.eeIn.txApp2eventEngSetEvent ≠ t.eeIn.txApp2eventEngSetEvent) →
      t.eventEng2ackDelay = [] ∧ t.mlIn.eventEng2txEngEvent.length ≤ t.eeIn.ackDelayFifoWriteCount) ∧
    (∀ u ev rest, t.step time64us .ackDelay = some u → t.eventEng2ackDelay = ev :: rest →
      u.handled = t.handled ++ [(ev, true)] ∧ u.mlIn.eventEng2txEngEvent = t.mlIn.eventEng2txEngEvent ++ [ev] ∨
        u.handled = t.handled ++ [(ev, false)] ∧ ev.type = .ACK ∧ u.ad.ackTable ev.sessionID = time64us) ∧
    Conserved t := by
  have hinv := h.invariant (P := Inv) Inv.init fun _ _ _ hu _ hs => inv_step hu hs
  refine ⟨hinv.drained_iff, ?_, ?_, hinv.conserved⟩
  · intro u hs hadmit
    obtain ⟨hread, hwrite⟩ := hinv.drained_iff.mp (admits_drained hs hadmit)
    have hevents := hinv.counted.events
    have htokens := hinv.counted.tokens
    have houtput := hinv.counted.output
    exact ⟨List.eq_nil_of_length_eq_zero (by omega), by omega⟩
  · intro u ev rest hs hin
    obtain ⟨rfl, -⟩ := whenRoom_some hs
    have hhandled := callAckDelay_handled time64us t
    generalize t.callAckDelay time64us = u at hhandled
    cases hhandled with
    | hold ev' rest' ad hin' hack htable =>
      rw [hin] at hin'
      cases hin'
      exact .inr ⟨rfl, hack, htable⟩
    | pass ev' rest' ad hin' =>
      rw [hin] at hin'
      cases hin'
      exact .inl ⟨rfl, rfl⟩
    | tick ad out hin' =>
      rw [hin] at hin'
      cases hin'

/-- An ACK is held back; a timer event waits until the token of `ack_delay` has come back. -/
def timerWaits : List (Label Build.sample) :=
  [.rxEng (Event.extended { type := .ACK, sessionID := 3 }), .eventEngine, .ackDelay,
    .timer { type := .RT, sessionID := 3, rtCount := 1 }, .eventEngine]

theorem quiescence_timer : ∃ t u : EventNet Build.sample,
    t.step 11 .eventEngine = some u ∧ u.eeIn.timer2eventEngSetEvent ≠ t.eeIn.timer2eventEngSetEvent ∧
      t.eventEng2ackDelay = [] ∧ t.mlIn.eventEng2txEngEvent.length ≤ t.eeIn.ackDelayFifoWriteCount := by
  have hrun : ((run (step 11) {} timerWaits).bind fun t => (t.step 11 .eventEngine).map fun u =>
      (t.eeIn.timer2eventEngSetEvent.length, u.eeIn.timer2eventEngSetEvent.length)) = some (1, 0) := by
    decide +kernel
  obtain ⟨t, ht, hstep⟩ := Option.bind_eq_some_iff.mp hrun
  obtain ⟨u, hu, hview⟩ := Option.map_eq_some_iff.mp hstep
  have hne : u.eeIn.timer2eventEngSetEvent ≠ t.eeIn.timer2eventEngSetEvent := by
    intro hc
    rw [hc] at hview
    have h1 := (Prod.mk.inj hview).1
    rw [(Prod.mk.inj hview).2] at h1
    cases h1
  exact ⟨t, u, hu, hne, (quiescence (reach_of_run ht)).2.1 u hu (.inl hne)⟩

end EventNet

end FpgaNetworkStack.Toe
