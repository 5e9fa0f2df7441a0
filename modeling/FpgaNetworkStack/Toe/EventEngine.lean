import FpgaNetworkStack.Toe.Internals

/-!
# From the event sources to the transmit engine (`event_engine.cpp`, `ack_delay.cpp`, and
`rxEventMerger` of `rx_engine.cpp`)

FIFOs are unbounded lists, and whether a bounded one is full is an input of the call.
-/

namespace FpgaNetworkStack.Toe

variable {b : Build}

/-- `extendedEvent(ev)`; the tuple is not initialised. -/
def Event.extended (ev : Event b) : ExtendedEvent b := { ev with tuple := default }

@[simp] theorem extended_toEvent (ev : Event b) : ev.extended.toEvent = ev := rfl

/-! ## `rxEventMerger` -/

variable (b) in
/-- `in1`, the resets of `rxMetadataHandler`, and `in2`, the events of `rxTcpFSM`. -/
structure RxEventMergerIn where
  in1 : List (ExtendedEvent b) := []
  in2 : List (Event b) := []

def rxEventMerger (i : RxEventMergerIn b) : RxEventMergerIn b × List (ExtendedEvent b) :=
  match i.in1, i.in2 with
  | ev :: rest, _ => ({ i with in1 := rest }, [ev])
  | [], ev :: rest => ({ i with in2 := rest }, [ev.extended])
  | [], [] => (i, [])

/-! ## `event_engine` -/

/-- Counters of the events written, read and written by `ack_delay`, and read by the transmit engine. -/
structure EventEngine where
  eeWriteCounter : BitVec 8 := 0
  eeAdReadCounter : BitVec 8 := 0
  eeAdWriteCounter : BitVec 8 := 0
  eeTxEngReadCounter : BitVec 8 := 0
  deriving DecidableEq

variable (b) in
/-- The count FIFOs carry no data, so only their lengths are kept. -/
structure EventEngineIn where
  txApp2eventEngSetEvent : List (Event b) := []
  rxEng2eventEngSetEvent : List (ExtendedEvent b) := []
  timer2eventEngSetEvent : List (Event b) := []
  ackDelayFifoReadCount : Nat := 0
  ackDelayFifoWriteCount : Nat := 0
  txEngFifoReadCount : Nat := 0

/-- No event is between `event_engine` and the transmit engine, as far as the counters know. -/
def EventEngine.drained (s : EventEngine) : Bool :=
  s.eeWriteCounter == s.eeAdReadCounter && s.eeAdWriteCounter == s.eeTxEngReadCounter

/-- One event is forwarded: the receive engine first, then, when the path is drained, the timers and
the application. -/
def eeForward (full : Bool) (s : EventEngine) (i : EventEngineIn b) :
    EventEngineIn b × List (ExtendedEvent b) :=
  match i.rxEng2eventEngSetEvent, full with
  | ev :: rest, false => ({ i with rxEng2eventEngSetEvent := rest }, [ev])
  | _, _ =>
    if s.drained then
      match i.timer2eventEngSetEvent, i.txApp2eventEngSetEvent with
      | ev :: rest, _ => ({ i with timer2eventEngSetEvent := rest }, [ev.extended])
      | [], ev :: rest => ({ i with txApp2eventEngSetEvent := rest }, [ev.extended])
      | [], [] => (i, [])
    else (i, [])

/-- One call of `event_engine`; `full` says whether `eventEng2txEng_event` is full. -/
def eventEngine (full : Bool) (s : EventEngine) (i : EventEngineIn b) :
    EventEngine × EventEngineIn b × List (ExtendedEvent b) :=
  let (i, out) := eeForward full s i
  let count (n : Nat) : BitVec 8 := if n = 0 then 0 else 1
  ({ eeWriteCounter := s.eeWriteCounter + BitVec.ofNat 8 out.length
     eeAdReadCounter := s.eeAdReadCounter + count i.ackDelayFifoReadCount
     eeAdWriteCounter := s.eeAdWriteCounter + count i.ackDelayFifoWriteCount
     eeTxEngReadCounter := s.eeTxEngReadCounter + count i.txEngFifoReadCount },
    { i with
      ackDelayFifoReadCount := i.ackDelayFifoReadCount - 1
      ackDelayFifoWriteCount := i.ackDelayFifoWriteCount - 1
      txEngFifoReadCount := i.txEngFifoReadCount - 1 }, out)

/-- Where the event forwarded by one call comes from. -/
inductive Forwards (full : Bool) (i : EventEngineIn b) : EventEngineIn b → List (ExtendedEvent b) → Prop
  | rxEng (ev : ExtendedEvent b) (rest : List (ExtendedEvent b)) (hfull : full = false)
      (h : i.rxEng2eventEngSetEvent = ev :: rest) :
      Forwards full i { i with rxEng2eventEngSetEvent := rest } [ev]
  | timer (ev : Event b) (rest : List (Event b)) (h : i.timer2eventEngSetEvent = ev :: rest) :
      Forwards full i { i with timer2eventEngSetEvent := rest } [ev.extended]
  | txApp (ev : Event b) (rest : List (Event b)) (h : i.txApp2eventEngSetEvent = ev :: rest) :
      Forwards full i { i with txApp2eventEngSetEvent := rest } [ev.extended]
  | none : Forwards full i i []

theorem forwards (full : Bool) (s : EventEngine) (i : EventEngineIn b) :
    Forwards full i (eeForward full s i).1 (eeForward full s i).2 := by
  unfold eeForward
  split
  · next ev rest hrx => exact .rxEng ev rest rfl hrx
  · split
    · split
      · next ev rest ht => exact .timer ev rest ht
      · next ev rest _ ha => exact .txApp ev rest ha
      · exact .none
    · exact .none

/-! ## `ack_delay` -/

structure AckDelay where
  ackTable : SessionID → BitVec 12
  adPointer : BitVec 16

def AckDelay.init : AckDelay := ⟨fun _ => 0, 0⟩

/-- The delayed ACK of session `ad_pointer` is due, or one step closer. -/
def adTick (full : Bool) (s : AckDelay) : AckDelay × List (ExtendedEvent b) :=
  let next : BitVec 16 := if s.adPointer + 1 = b.maxSessions then 0 else s.adPointer + 1
  let left := s.ackTable s.adPointer
  if left ≠ 0 ∧ full = false then
    (⟨Function.update s.ackTable s.adPointer (left - 1), next⟩,
      if left = 1 then [Event.extended { type := .ACK, sessionID := s.adPointer }] else [])
  else ({ s with adPointer := next }, [])

/-- One call of `ack_delay`: state, remaining input, output and the number of entries written to
`readCountFifo`; each output also makes an entry of `writeCountFifo`.  `time64us` is `TIME_64us`, which
depends on the clock of the build. -/
def ackDelay (time64us : BitVec 12) (full : Bool) (s : AckDelay) (input : List (ExtendedEvent b)) :
    AckDelay × List (ExtendedEvent b) × List (ExtendedEvent b) × Nat :=
  match input with
  | ev :: rest =>
    if ev.type = .ACK ∧ s.ackTable ev.sessionID = 0 then
      ({ s with ackTable := Function.update s.ackTable ev.sessionID time64us }, rest, [], 1)
    else ({ s with ackTable := Function.update s.ackTable ev.sessionID 0 }, rest, [ev], 1)
  | [] =>
    let (s, out) := adTick full s
    (s, [], out, 0)

/-- What one call does to the stream of events: it holds back an ACK, forwards an event, or adds a
delayed ACK. -/
inductive Delays : List (ExtendedEvent b) → List (ExtendedEvent b) → List (ExtendedEvent b) → Prop
  | hold (ev : ExtendedEvent b) (rest : List (ExtendedEvent b)) (h : ev.type = .ACK) :
      Delays (ev :: rest) rest []
  | forward (ev : ExtendedEvent b) (rest : List (ExtendedEvent b)) : Delays (ev :: rest) rest [ev]
  | tick (out : List (ExtendedEvent b)) (h : ∀ e ∈ out, e.type = .ACK) : Delays [] [] out

theorem delays (time64us : BitVec 12) (full : Bool) (s : AckDelay) (input : List (ExtendedEvent b)) :
    Delays input (ackDelay time64us full s input).2.1 (ackDelay time64us full s input).2.2.1 := by
  unfold ackDelay
  cases input with
  | cons ev rest =>
    dsimp only
    split
    · next h => exact .hold ev rest h.1
    · exact .forward ev rest
  | nil =>
    refine .tick _ ?_
    intro e he
    dsimp only at he
    unfold adTick at he
    dsimp only at he
    split at he
    · dsimp only at he
      split at he
      · rw [List.mem_singleton] at he
        rw [he]
        rfl
      · cases he
    · cases he

end FpgaNetworkStack.Toe
