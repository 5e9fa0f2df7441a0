import FpgaNetworkStack.Roce.Retransmitter

/-!
# The timer of the requester (`transport_timer.hpp`)

A request starts the timer of its queue pair, a response restarts or stops it, and otherwise one entry after
the other is counted down.  A request for an entry that the scan is about to reach pushes the scan past it.
-/

namespace FpgaNetworkStack.Roce

/-- Number of queue pairs; the default of the build. -/
def MAX_QPS : Nat := 500

def RETRANS_RETRY_CNT : Nat := 12
def RETRANS_S1 : Nat := 3
def RETRANS_S2 : Nat := 3
def RETRANS_S3 : Nat := 3

/-- Scans of the whole table in a number of milliseconds, at 6.4 ns for an entry. -/
def scansOf (ms : Nat) : BitVec 32 := BitVec.ofNat 32 (ms * 10000000 / 64 / MAX_QPS + 1)

def TIME_1ms : BitVec 32 := scansOf 1
def TIME_5ms : BitVec 32 := scansOf 5
def TIME_12ms : BitVec 32 := scansOf 12
def TIME_64ms : BitVec 32 := scansOf 64

structure TransportTimerEntry where
  time : BitVec 32 := 0
  retries : BitVec 4 := 0
  active : Bool := false
  deriving DecidableEq, Inhabited

namespace TransportTimerEntry

/-- A response restarts or stops the timer, and the retries count anew. -/
def clear (e : TransportTimerEntry) (stop : Bool) : TransportTimerEntry :=
  if stop then ⟨0, 0, false⟩ else { e with time := TIME_1ms, retries := 0 }

def set (e : TransportTimerEntry) : TransportTimerEntry :=
  if e.active then e
  else
    { e with
      active := true
      time :=
        if e.retries.toNat < RETRANS_S1 then TIME_1ms
        else if e.retries.toNat < RETRANS_S2 then TIME_5ms
        else if e.retries.toNat < RETRANS_S3 then TIME_12ms
        else TIME_64ms }

/-- The scan passes; the flag tells that the timer has run out and a retransmission is asked for. -/
def scan (e : TransportTimerEntry) (full : Bool) : TransportTimerEntry × Bool :=
  if !e.active then (e, false)
  else if 0 < e.time then ({ e with time := e.time - 1 }, false)
  else if full then (e, false)
  else if e.retries.toNat < RETRANS_RETRY_CNT then (⟨0, e.retries + 1, false⟩, true)
  else (⟨0, e.retries, false⟩, false)

end TransportTimerEntry

structure TransportTimer where
  transportTimerTable : Nat → TransportTimerEntry := fun _ => {}
  ttCurrPosition : BitVec 16 := 0

structure TransportTimerIn where
  rxClearTimerReq : List RxTimerUpdate := []
  txSetTimerReq : List (BitVec 24) := []

namespace TransportTimer

variable (s : TransportTimer) (i : TransportTimerIn)

/-- The scan is at the entry or shortly before it. -/
def near (setQP : BitVec 24) : Bool :=
  decide ((setQP.toNat : Int) - 3 < s.ttCurrPosition.toNat) && decide (s.ttCurrPosition.toNat ≤ setQP.toNat)

/-- The position behind the scanned entry. -/
def next : BitVec 16 :=
  if MAX_QPS ≤ (s.ttCurrPosition + 1).toNat then 0 else s.ttCurrPosition + 1

/-- The entry that the next call reads and writes. -/
def accessed : Nat :=
  match i.rxClearTimerReq, i.txSetTimerReq with
  | upd :: _, _ => upd.qpn.toNat
  | [], setQP :: _ => setQP.toNat
  | [], [] => s.ttCurrPosition.toNat

/-- One call of `transport_timer`; `full` is the state of `timer2retrans_req`. -/
def call (full : Bool) : TransportTimer × TransportTimerIn × List Retransmission :=
  let table := s.transportTimerTable
  match i.rxClearTimerReq, i.txSetTimerReq with
  | upd :: rest, _ =>
    ({ s with
        transportTimerTable := Function.update table upd.qpn.toNat ((table upd.qpn.toNat).clear upd.stop) },
      { i with rxClearTimerReq := rest }, [])
  | [], setQP :: rest =>
    ({ transportTimerTable := Function.update table setQP.toNat (table setQP.toNat).set
       ttCurrPosition := if s.near setQP then s.ttCurrPosition + 5 else s.ttCurrPosition },
      { i with txSetTimerReq := rest }, [])
  | [], [] =>
    let checkQP := s.ttCurrPosition
    let (entry, expired) := (table checkQP.toNat).scan full
    ({ transportTimerTable := Function.update table checkQP.toNat entry, ttCurrPosition := s.next }, i,
      if expired then [⟨checkQP, 0⟩] else [])

/-- The next call pushes the scan past the end of the table. -/
def overruns : Bool :=
  match i.rxClearTimerReq, i.txSetTimerReq with
  | [], setQP :: _ => s.near setQP && decide (MAX_QPS ≤ (s.ttCurrPosition + 5).toNat)
  | _, _ => false

variable {s i}

theorem next_lt : s.next.toNat < MAX_QPS := by
  unfold next
  split
  · decide
  · next h => exact Nat.lt_of_not_le h

theorem call_position (full : Bool) (h : s.ttCurrPosition.toNat < MAX_QPS) (hok : s.overruns i = false) :
    (s.call i full).1.ttCurrPosition.toNat < MAX_QPS := by
  unfold call
  unfold overruns at hok
  split
  · exact h
  · next setQP rest hclear hset =>
      simp only [hclear, hset, Bool.and_eq_false_iff, decide_eq_false_iff_not, Nat.not_le] at hok
      show (if s.near setQP then _ else _ : BitVec 16).toNat < MAX_QPS
      split
      · next hnear => exact hok.resolve_left (by simp [hnear])
      · exact h
  · exact next_lt

theorem call_retransmission (full : Bool) :
    ∀ r ∈ (s.call i full).2.2, r.qpn = s.ttCurrPosition := by
  unfold call
  split
  · simp
  · simp
  · intro r hr
    show r.qpn = s.ttCurrPosition
    by_cases hexp : ((s.transportTimerTable s.ttCurrPosition.toNat).scan full).2 = true
    · simp only [hexp, if_true, List.mem_singleton] at hr
      rw [hr]
    · simp [hexp] at hr

end TransportTimer

end FpgaNetworkStack.Roce
