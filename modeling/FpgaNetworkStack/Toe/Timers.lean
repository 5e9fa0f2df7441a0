import FpgaNetworkStack.Toe.Internals
import Mathlib.Logic.Function.Basic

/-!
# The timers (`retransmit_timer.cpp`, `close_timer.cpp`, `probe_timer.cpp`)

They walk through their table, one session in a call, and take requests in between.  A request is written to the
table in a later call, and not while its session is the one that was worked on last.
-/

namespace FpgaNetworkStack.Toe

open EventType

variable (b : Build)

/-! ## `retransmit_timer` -/

/-- The time-out intervals `TIME_1s` to `TIME_30s`, in visits; they depend on the clock of the build. -/
structure RtTimes where
  time1s : BitVec 32
  time5s : BitVec 32
  time10s : BitVec 32
  time15s : BitVec 32
  time30s : BitVec 32

structure RetransmitTimerEntry where
  time : BitVec 32
  retries : BitVec 3
  active : Bool
  type : EventType
  deriving DecidableEq

structure RetransmitTimer where
  retransmitTimerTable : SessionID → RetransmitTimerEntry := fun _ => ⟨0, 0, false, TX⟩
  rtPosition : BitVec 16 := 0
  rtWaitForWrite : Bool := false
  rtPrevPosition : BitVec 16 := 0
  rtUpdate : RxRetransmitTimerUpdate := ⟨0, false⟩

structure RetransmitTimerIn where
  rxEng2timerClearRetransmitTimer : List RxRetransmitTimerUpdate := []
  txEng2timerSetRetransmitTimer : List TxRetransmitTimerSet := []

structure RetransmitTimerOut where
  rtTimer2eventEngSetEvent : List (Event b) := []
  rtTimer2stateTableReleaseState : List SessionID := []
  rtTimer2rxAppNotification : List AppNotification := []
  rtTimer2txAppNotification : List OpenStatus := []

/-- The interval of the next time-out, by the number of those so far. -/
def RtTimes.interval (times : RtTimes) (retries : BitVec 3) : BitVec 32 :=
  match retries.toNat with
  | 0 => times.time1s
  | 1 => times.time5s
  | 2 => times.time10s
  | 3 => times.time15s
  | _ => times.time30s

namespace RetransmitTimerEntry

/-- The acknowledgement of a session: it stops the timer, or starts its interval again. -/
def acknowledge (times : RtTimes) (entry : RetransmitTimerEntry) (stop : Bool) : RetransmitTimerEntry :=
  if stop then { entry with time := 0, active := false, retries := 0 }
  else { entry with time := times.time1s, retries := 0 }

/-- A segment of the session is on its way. -/
def set (times : RtTimes) (entry : RetransmitTimerEntry) (type : EventType) : RetransmitTimerEntry :=
  { entry with
    type, active := true
    time := if entry.active then entry.time else times.interval entry.retries }

variable {b} in
/-- A visit; `full` says whether the event FIFO is full. -/
def visit (entry : RetransmitTimerEntry) (id : SessionID) (full : Bool) :
    RetransmitTimerEntry × RetransmitTimerOut b :=
  if !entry.active then (entry, {})
  else if entry.time ≠ 0 then ({ entry with time := entry.time - 1 }, {})
  else if full then (entry, {})
  else if entry.retries.toNat < 4 then
    ({ entry with time := 0, active := false, retries := entry.retries + 1 },
      { rtTimer2eventEngSetEvent := [{ type := entry.type, sessionID := id, rtCount := entry.retries + 1 }] })
  else
    ({ entry with time := 0, active := false, retries := 0 },
      { rtTimer2stateTableReleaseState := [id]
        rtTimer2txAppNotification := if entry.type = SYN then [⟨id, false, 0, 0⟩] else []
        rtTimer2rxAppNotification := if entry.type = SYN then [] else [⟨id, 0, 0, 0, true⟩] })

end RetransmitTimerEntry

def retransmitTimer (times : RtTimes) (full : Bool) (s : RetransmitTimer) (i : RetransmitTimerIn) :
    RetransmitTimer × RetransmitTimerIn × RetransmitTimerOut b :=
  if s.rtWaitForWrite && s.rtUpdate.sessionID != s.rtPrevPosition then
    let id := s.rtUpdate.sessionID
    ({ s with
        retransmitTimerTable := Function.update s.retransmitTimerTable id
          ((s.retransmitTimerTable id).acknowledge times s.rtUpdate.stop)
        rtWaitForWrite := false }, i, {})
  else
    match i.rxEng2timerClearRetransmitTimer, s.rtWaitForWrite, i.txEng2timerSetRetransmitTimer with
    | update :: rest, false, _ =>
      ({ s with rtUpdate := update, rtWaitForWrite := true }, { i with rxEng2timerClearRetransmitTimer := rest }, {})
    | _, _, set :: rest =>
      let id := set.sessionID
      ({ s with
          retransmitTimerTable := Function.update s.retransmitTimerTable id
            ((s.retransmitTimerTable id).set times set.type)
          rtPosition :=
            if (id.toNat : Int) - 3 < s.rtPosition.toNat ∧ s.rtPosition.toNat ≤ id.toNat then s.rtPosition + 5
            else s.rtPosition
          rtPrevPosition := id }, { i with txEng2timerSetRetransmitTimer := rest }, {})
    | _, _, [] =>
      let id := s.rtPosition
      let (entry, out) := (s.retransmitTimerTable id).visit id full
      ({ s with
          retransmitTimerTable := Function.update s.retransmitTimerTable id entry
          rtPosition := if b.maxSessions.toNat ≤ (s.rtPosition + 1).toNat then 0 else s.rtPosition + 1
          rtPrevPosition := id }, i, out)

/-! ## `close_timer` -/

structure CloseTimerEntry where
  time : BitVec 32
  active : Bool
  deriving DecidableEq

structure CloseTimer where
  closeTimerTable : SessionID → CloseTimerEntry := fun _ => ⟨0, false⟩
  ctCurrSessionID : BitVec 16 := 0
  ctSetSessionID : BitVec 16 := 0
  ctPrevSessionID : BitVec 16 := 0
  ctWaitForWrite : Bool := false

/-- A visit, and whether the time is up. -/
def CloseTimerEntry.visit (entry : CloseTimerEntry) : CloseTimerEntry × Bool :=
  if !entry.active then (entry, false)
  else if entry.time ≠ 0 then ({ entry with time := entry.time - 1 }, false)
  else (⟨0, false⟩, true)

/-- One call of `close_timer`: new state, remaining requests, and the sessions released. -/
def closeTimer (time60s : BitVec 32) (s : CloseTimer) (setCloseTimer : List SessionID) :
    CloseTimer × List SessionID × List SessionID :=
  if s.ctWaitForWrite then
    let s' : CloseTimer :=
      if s.ctSetSessionID ≠ s.ctPrevSessionID then
        { s with
          closeTimerTable := Function.update s.closeTimerTable s.ctSetSessionID ⟨time60s, true⟩
          ctWaitForWrite := false }
      else s
    ({ s' with ctPrevSessionID := s.ctPrevSessionID - 1 }, setCloseTimer, [])
  else
    match setCloseTimer with
    | id :: rest => ({ s with ctSetSessionID := id, ctWaitForWrite := true }, rest, [])
    | [] =>
      let id := s.ctCurrSessionID
      let (entry, due) := (s.closeTimerTable id).visit
      ({ s with
          closeTimerTable := Function.update s.closeTimerTable id entry
          ctCurrSessionID := if id + 1 = b.maxSessions then 0 else id + 1
          ctPrevSessionID := id }, [], if due then [id] else [])

/-! ## `probe_timer` -/

structure ProbeTimerEntry where
  time : BitVec 32
  active : Bool
  deriving DecidableEq

structure ProbeTimer where
  probeTimerTable : SessionID → ProbeTimerEntry := fun _ => ⟨0, false⟩
  ptCurrSessionID : BitVec 16 := 0
  ptUpdSessionID : BitVec 16 := 0
  ptPrevSessionID : BitVec 16 := 0
  ptWaitForWrite : Bool := false

structure ProbeTimerIn where
  txEng2timerSetProbeTimer : List SessionID := []
  rxEng2timerClearProbeTimer : List SessionID := []

/-- A visit, and whether it ends the timer; `full` says whether the event FIFO is full. -/
def ProbeTimerEntry.visit (entry : ProbeTimerEntry) (fastResume full : Bool) : ProbeTimerEntry × Bool :=
  if entry.active && !full then
    if entry.time == 0 || fastResume then (⟨0, false⟩, true) else ({ entry with time := entry.time - 1 }, false)
  else (entry, false)

def resumeEvent (id : SessionID) : Event b := { type := if b.tcpNodelay then RT else TX, sessionID := id }

def probeTimer (time50ms : BitVec 32) (full : Bool) (s : ProbeTimer) (i : ProbeTimerIn) :
    ProbeTimer × ProbeTimerIn × List (Event b) :=
  if s.ptWaitForWrite then
    let s' : ProbeTimer :=
      if s.ptUpdSessionID ≠ s.ptPrevSessionID then
        { s with
          probeTimerTable := Function.update s.probeTimerTable s.ptUpdSessionID ⟨time50ms, true⟩
          ptWaitForWrite := false }
      else s
    ({ s' with ptPrevSessionID := s.ptPrevSessionID - 1 }, i, [])
  else
    match i.txEng2timerSetProbeTimer with
    | id :: rest =>
      ({ s with ptUpdSessionID := id, ptWaitForWrite := true }, { i with txEng2timerSetProbeTimer := rest }, [])
    | [] =>
      let curr := if s.ptCurrSessionID + 1 = b.maxSessions then 0 else s.ptCurrSessionID + 1
      let (checkID, fastResume, ptCurrSessionID, clears) := match i.rxEng2timerClearProbeTimer with
        | id :: rest => (id, true, s.ptCurrSessionID, rest)
        | [] => (s.ptCurrSessionID, false, curr, [])
      let (entry, due) := (s.probeTimerTable checkID).visit fastResume full
      ({ s with
          probeTimerTable := Function.update s.probeTimerTable checkID entry
          ptCurrSessionID, ptPrevSessionID := checkID },
        { i with rxEng2timerClearProbeTimer := clears }, if due then [resumeEvent b checkID] else [])

/-! ## What a call can do -/

/-- A call of `retransmit_timer` writes the waiting acknowledgement, reads the next one, takes a segment, or visits a
session. -/
inductive RtCalled (times : RtTimes) (full : Bool) (s : RetransmitTimer) (i : RetransmitTimerIn) :
    RetransmitTimer × RetransmitTimerIn × RetransmitTimerOut b → Prop
  | write (hw : s.rtWaitForWrite = true) (hne : s.rtUpdate.sessionID ≠ s.rtPrevPosition) :
      RtCalled times full s i
        ({ s with
            retransmitTimerTable := Function.update s.retransmitTimerTable s.rtUpdate.sessionID
              ((s.retransmitTimerTable s.rtUpdate.sessionID).acknowledge times s.rtUpdate.stop)
            rtWaitForWrite := false }, i, {})
  | read (update : RxRetransmitTimerUpdate) (rest : List RxRetransmitTimerUpdate) (hw : s.rtWaitForWrite = false)
      (h : i.rxEng2timerClearRetransmitTimer = update :: rest) : RtCalled times full s i
        ({ s with rtUpdate := update, rtWaitForWrite := true }, { i with rxEng2timerClearRetransmitTimer := rest }, {})
  | set (set : TxRetransmitTimerSet) (rest : List TxRetransmitTimerSet) (position : BitVec 16)
      (h : i.txEng2timerSetRetransmitTimer = set :: rest) : RtCalled times full s i
        ({ s with
            retransmitTimerTable := Function.update s.retransmitTimerTable set.sessionID
              ((s.retransmitTimerTable set.sessionID).set times set.type)
            rtPosition := position, rtPrevPosition := set.sessionID }, { i with txEng2timerSetRetransmitTimer := rest }, {})
  | visit (position : BitVec 16) (h : i.txEng2timerSetRetransmitTimer = []) : RtCalled times full s i
        ({ s with
            retransmitTimerTable := Function.update s.retransmitTimerTable s.rtPosition
              ((s.retransmitTimerTable s.rtPosition).visit (b := b) s.rtPosition full).1
            rtPosition := position, rtPrevPosition := s.rtPosition }, i,
          ((s.retransmitTimerTable s.rtPosition).visit s.rtPosition full).2)

variable {b}

theorem rtCalled (times : RtTimes) (full : Bool) (s : RetransmitTimer) (i : RetransmitTimerIn) :
    RtCalled b times full s i (retransmitTimer b times full s i) := by
  unfold retransmitTimer
  split
  · next hw =>
      rw [Bool.and_eq_true, bne_iff_ne] at hw
      exact .write hw.1 hw.2
  · split
    · next update rest hclear hwait => exact .read update rest hwait hclear
    · next set rest hset _ => exact .set set rest _ hset
    · next hset _ => exact .visit _ hset

/-- What a visit does to the entry: nothing, a unit less, an event, or the end of the session. -/
inductive Visited (entry : RetransmitTimerEntry) (id : SessionID) :
    RetransmitTimerEntry × RetransmitTimerOut b → Prop
  | same : Visited entry id (entry, {})
  | tick (h : entry.active = true) : Visited entry id ({ entry with time := entry.time - 1 }, {})
  | fire (h : entry.active = true) (ht : entry.time = 0) (hr : entry.retries.toNat < 4) : Visited entry id
      ({ entry with time := 0, active := false, retries := entry.retries + 1 },
        { rtTimer2eventEngSetEvent := [{ type := entry.type, sessionID := id, rtCount := entry.retries + 1 }] })
  | giveUp (out : RetransmitTimerOut b) (h : entry.active = true) (ht : entry.time = 0)
      (hr : ¬ entry.retries.toNat < 4) (hevent : out.rtTimer2eventEngSetEvent = [])
      (hrelease : out.rtTimer2stateTableReleaseState = [id]) :
      Visited entry id ({ entry with time := 0, active := false, retries := 0 }, out)

theorem visited (entry : RetransmitTimerEntry) (id : SessionID) (full : Bool) :
    Visited (b := b) entry id (entry.visit id full) := by
  unfold RetransmitTimerEntry.visit
  split
  · exact .same
  · next ha =>
      have ha : entry.active = true := by simpa using ha
      split
      · exact .tick ha
      · next ht =>
          have ht : entry.time = 0 := by simpa using ht
          split
          · exact .same
          · split
            · next hr => exact .fire ha ht hr
            · next hr => exact .giveUp _ ha ht hr rfl rfl

/-- A call of `close_timer` starts the timer of the session it has read, waits with that, reads the next one, or
visits a session. -/
inductive CtCalled (time60s : BitVec 32) (s : CloseTimer) (q : List SessionID) :
    CloseTimer × List SessionID × List SessionID → Prop
  | write (prev : BitVec 16) (hw : s.ctWaitForWrite = true) : CtCalled time60s s q
        ({ s with
            closeTimerTable := Function.update s.closeTimerTable s.ctSetSessionID ⟨time60s, true⟩
            ctWaitForWrite := false, ctPrevSessionID := prev }, q, [])
  | wait (prev : BitVec 16) (hw : s.ctWaitForWrite = true) :
      CtCalled time60s s q ({ s with ctPrevSessionID := prev }, q, [])
  | read (id : SessionID) (rest : List SessionID) (hw : s.ctWaitForWrite = false) (h : q = id :: rest) :
      CtCalled time60s s q ({ s with ctSetSessionID := id, ctWaitForWrite := true }, rest, [])
  | visit (curr : BitVec 16) (hw : s.ctWaitForWrite = false) (h : q = []) : CtCalled time60s s q
        ({ s with
            closeTimerTable := Function.update s.closeTimerTable s.ctCurrSessionID
              (s.closeTimerTable s.ctCurrSessionID).visit.1
            ctCurrSessionID := curr, ctPrevSessionID := s.ctCurrSessionID }, [],
          if (s.closeTimerTable s.ctCurrSessionID).visit.2 then [s.ctCurrSessionID] else [])

theorem ctCalled (time60s : BitVec 32) (s : CloseTimer) (q : List SessionID) :
    CtCalled time60s s q (closeTimer b time60s s q) := by
  unfold closeTimer
  by_cases hw : s.ctWaitForWrite = true
  · rw [if_pos hw]
    by_cases hne : s.ctSetSessionID ≠ s.ctPrevSessionID
    · have hcalled : CtCalled time60s s q _ := .write (s.ctPrevSessionID - 1) hw
      simpa [hne] using hcalled
    · have hcalled : CtCalled time60s s q _ := .wait (s.ctPrevSessionID - 1) hw
      simpa [hne] using hcalled
  · rw [if_neg hw]
    have hw : s.ctWaitForWrite = false := by simpa using hw
    cases q with
    | cons id rest => exact .read id rest hw rfl
    | nil => exact .visit _ hw rfl

/-- A call of `probe_timer` starts the timer of the session it has read, waits with that, reads the next one, visits the
session of a clear request, or visits the next session. -/
inductive PtCalled (b : Build) (time50ms : BitVec 32) (full : Bool) (s : ProbeTimer) (i : ProbeTimerIn) :
    ProbeTimer × ProbeTimerIn × List (Event b) → Prop
  | write (prev : BitVec 16) (hw : s.ptWaitForWrite = true) : PtCalled b time50ms full s i
        ({ s with
            probeTimerTable := Function.update s.probeTimerTable s.ptUpdSessionID ⟨time50ms, true⟩
            ptWaitForWrite := false, ptPrevSessionID := prev }, i, [])
  | wait (prev : BitVec 16) (hw : s.ptWaitForWrite = true) :
      PtCalled b time50ms full s i ({ s with ptPrevSessionID := prev }, i, [])
  | read (id : SessionID) (rest : List SessionID) (hw : s.ptWaitForWrite = false)
      (h : i.txEng2timerSetProbeTimer = id :: rest) : PtCalled b time50ms full s i
        ({ s with ptUpdSessionID := id, ptWaitForWrite := true }, { i with txEng2timerSetProbeTimer := rest }, [])
  | visit (id : SessionID) (fastResume : Bool) (curr : BitVec 16) (clears : List SessionID)
      (hw : s.ptWaitForWrite = false) (hsets : i.txEng2timerSetProbeTimer = [])
      (h : i.rxEng2timerClearProbeTimer = (if fastResume then [id] else []) ++ clears) : PtCalled b time50ms full s i
        ({ s with
            probeTimerTable := Function.update s.probeTimerTable id
              ((s.probeTimerTable id).visit fastResume full).1
            ptCurrSessionID := curr, ptPrevSessionID := id },
          { i with rxEng2timerClearProbeTimer := clears },
          if ((s.probeTimerTable id).visit fastResume full).2 then [resumeEvent b id] else [])

theorem ptCalled (time50ms : BitVec 32) (full : Bool) (s : ProbeTimer) (i : ProbeTimerIn) :
    PtCalled b time50ms full s i (probeTimer b time50ms full s i) := by
  unfold probeTimer
  by_cases hw : s.ptWaitForWrite = true
  · rw [if_pos hw]
    by_cases hne : s.ptUpdSessionID ≠ s.ptPrevSessionID
    · have hcalled : PtCalled b time50ms full s i _ := .write (s.ptPrevSessionID - 1) hw
      simpa [hne] using hcalled
    · have hcalled : PtCalled b time50ms full s i _ := .wait (s.ptPrevSessionID - 1) hw
      simpa [hne] using hcalled
  · rw [if_neg hw]
    have hw : s.ptWaitForWrite = false := by simpa using hw
    split
    · next id rest hsets => exact .read id rest hw hsets
    · next hsets =>
        cases hclears : i.rxEng2timerClearProbeTimer with
        | cons id rest => exact .visit id true _ rest hw hsets hclears
        | nil => exact .visit s.ptCurrSessionID false _ [] hw hsets hclears

theorem CloseTimerEntry.visit_active {entry : CloseTimerEntry}
    (h : entry.visit.1.active = true ∨ entry.visit.2 = true) : entry.active = true := by
  unfold visit at h
  cases ha : entry.active with
  | true => rfl
  | false => simp [ha] at h

end FpgaNetworkStack.Toe
