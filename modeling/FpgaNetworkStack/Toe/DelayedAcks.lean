import FpgaNetworkStack.Toe.EventEngine
import FpgaNetworkStack.Toe.TxNet

/-!
# Delayed ACKs (`ack_delay.cpp` and `metaLoader` of `tx_engine.cpp`)

An ACK that is held back ends in one of two ways: its time is up and `ack_delay` emits it, or another event of the
session passes and cancels it.  The second way rests on the event: `metaLoader` has to make a segment of it that
carries the same acknowledgement.
-/

namespace FpgaNetworkStack.Toe

open Lib EventType

variable {b : Build}

/-- `TIME_64us` in visits of a session: 64 us of 6.4 ns cycles, or 1 in simulation. -/
def TIME_64us (synthesis : Bool) (b : Build) : Nat :=
  if synthesis then 10000 / b.maxSessions.toNat + 1 else 1

/-- The 12 bits of an entry of `ack_table` hold the time. -/
theorem time64us_ne_zero (synthesis : Bool) (b : Build) : BitVec.ofNat 12 (TIME_64us synthesis b) ≠ 0 := by
  intro h
  have hmod := congrArg BitVec.toNat h
  rw [BitVec.toNat_ofNat, TIME_64us] at hmod
  have hmod : (if synthesis then 10000 / b.maxSessions.toNat + 1 else 1) % 4096 = 0 := hmod
  cases synthesis with
  | false => simp at hmod
  | true =>
    rw [if_pos rfl] at hmod
    rcases Nat.lt_or_ge b.maxSessions.toNat 3 with hlt | hge
    · have hm : b.maxSessions.toNat = 0 ∨ b.maxSessions.toNat = 1 ∨ b.maxSessions.toNat = 2 := by omega
      rcases hm with hm | hm | hm <;> rw [hm] at hmod <;> simp at hmod
    · have hle : 10000 / b.maxSessions.toNat ≤ 10000 / 3 := Nat.div_le_div_left hge (by decide)
      generalize 10000 / b.maxSessions.toNat = time at hmod hle
      omega

/-- The segments a call of `metaLoader` makes for a session. -/
def MetaLoaderOut.segments (o : MetaLoaderOut) : List (SessionID × TxEngineMeta) :=
  o.txEng2sLookupRevReq.zip o.txEngTcpMetaFifoOut

/-- The event becomes a segment of its session with the ACK flag and one of the numbers `recvds`; `r` is the
tx_sar entry it finds. -/
def ExtendedEvent.acknowledges (e : ExtendedEvent b) (r : TxTxSarReply b) (recvds : List (BitVec 32)) : Bool :=
  match e.type with
  | ACK | ACK_NODELAY | FIN | SYN_ACK => true
  | TX => e.length != 0
  | RT => if r.usedLength = 0 then r.finSent else b.mss != 0
  | SYN => false
  | RST => e.toEvent.hasSessionID b && recvds.contains (e.toEvent.getAckNumb b)

variable (b) in
/-- `ack_delay`, the transmit engine and the two tables it asks.  `tag` and `tags` mark the events that cancelled
a delayed ACK, `acked` says that the current event has acknowledged, and `recvds` are the values that `recvd` of
the session had since the event was taken.  `absorbed`, `due`, `cancelled` and `answered` are the sessions whose
ACK was held back, was emitted, was cancelled, and was sent with the event that cancelled it. -/
structure AckNet where
  ad : AckDelay := .init
  input : List (ExtendedEvent b) := []
  ml : MetaLoader b := .init b
  fifo : MetaLoaderIn b := {}
  rxReq : List SessionID := []
  txReq : List TxTxSarQuery := []
  recvd : SessionID → BitVec 32 := fun _ => 0
  tags : List Bool := []
  tag : Bool := false
  acked : Bool := false
  recvds : List (BitVec 32) := []
  absorbed : List SessionID := []
  due : List SessionID := []
  cancelled : List SessionID := []
  answered : List SessionID := []
  -- calls of `ack_delay` without an event, with room in the FIFO and without
  idle : Nat := 0
  blocked : Nat := 0

namespace AckNet

/-- The depth of `eventEng2txEng_event`. -/
def depth : Nat := 64

variable (b) in
inductive Label where
  | event (e : ExtendedEvent b)
  | ackDelay
  | metaLoader
  | rxSar (winShift : BitVec 4) (windowSize : BitVec 16)
  | txSar (r : TxTxSarReply b)
  | receive (id : SessionID) (recvd : BitVec 32)
  deriving DecidableEq

def callAckDelay (time64us : BitVec 12) (t : AckNet b) : AckNet b :=
  let full := decide (depth ≤ t.fifo.eventEng2txEngEvent.length)
  let (ad, input, out, _) := ackDelay time64us full t.ad t.input
  let t' := { t with ad, input, fifo := { t.fifo with eventEng2txEngEvent := t.fifo.eventEng2txEngEvent ++ out } }
  match t.input with
  | ev :: _ =>
    let cancels := t.ad.ackTable ev.sessionID != 0
    { t' with
      tags := t.tags ++ out.map fun _ => cancels
      absorbed := t.absorbed ++ if out.isEmpty then [ev.sessionID] else []
      cancelled := t.cancelled ++ if cancels then [ev.sessionID] else [] }
  | [] =>
    { t' with
      tags := t.tags ++ out.map fun _ => false
      due := t.due ++ out.map fun e => e.sessionID
      idle := if full then t.idle else t.idle + 1
      blocked := if full then t.blocked + 1 else t.blocked }

/-- The segment acknowledges what the session had received. -/
def good (id : SessionID) (recvds : List (BitVec 32)) (segment : SessionID × TxEngineMeta) : Bool :=
  segment.1 == id && segment.2.ack && recvds.contains segment.2.ackNumb

def callMetaLoader (t : AckNet b) : AckNet b :=
  let (ml, fifo, out) := metaLoader b t.ml t.fifo
  let t' := { t with ml, fifo, rxReq := t.rxReq ++ out.txEng2rxSarReq, txReq := t.txReq ++ out.txEng2txSarUpdReq }
  match t.ml.mlFsmState with
  | .IDLE =>
    { t' with
      tag := t.tags.head? == some true, tags := t.tags.tail, acked := false
      recvds := [t.recvd ml.mlCurEvent.sessionID] }
  | .WORK =>
    let acked := t.acked || out.segments.any (good t.ml.mlCurEvent.sessionID t.recvds)
    { t' with
      acked
      answered := t.answered ++ if t.tag && !t.acked && acked then [t.ml.mlCurEvent.sessionID] else [] }

def step (time64us : BitVec 12) (t : AckNet b) : Label b → Option (AckNet b)
  | .event e => some { t with input := t.input ++ [e] }
  | .ackDelay => some (t.callAckDelay time64us)
  | .metaLoader => some t.callMetaLoader
  | .rxSar winShift windowSize =>
    match t.rxReq with
    | id :: rest => some { t with
        rxReq := rest
        fifo := { t.fifo with rxSar2txEngRsp := t.fifo.rxSar2txEngRsp ++ [⟨t.recvd id, winShift, windowSize⟩] } }
    | [] => none
  | .txSar r =>
    match t.txReq with
    | q :: rest => some { t with
        txReq := rest
        fifo := { t.fifo with
          txSar2txEngUpdRsp := t.fifo.txSar2txEngUpdRsp ++ if q.write then [] else [r] } }
    | [] => none
  | .receive id recvd => some { t with
      recvd := Function.update t.recvd id recvd
      recvds := if id = t.ml.mlCurEvent.sessionID then t.recvds ++ [recvd] else t.recvds }

/-- The sessions of the events that cancelled an ACK and have not acknowledged yet, oldest first. -/
def inFlight (t : AckNet b) : List SessionID :=
  (if t.ml.mlFsmState = .WORK ∧ t.tag = true ∧ t.acked = false then [t.ml.mlCurEvent.sessionID] else []) ++
    ((t.fifo.eventEng2txEngEvent.zip t.tags).filter (·.2)).map (·.1.sessionID)

/-- Every cancelled ACK is sent with the event that cancelled it. -/
def Kept (t : AckNet b) : Prop := t.cancelled = t.answered ++ t.inFlight

instance (t : AckNet b) : Decidable t.Kept := inferInstanceAs (Decidable (_ = _))

/-- A call of `metaLoader` works on an event that cancelled an ACK only if the event acknowledges. -/
def acknowledging (t : AckNet b) : Label b → Bool
  | .metaLoader =>
    t.ml.mlFsmState == .IDLE || !t.tag || t.acked ||
      if t.ml.asks then
        t.fifo.txSar2txEngUpdRsp.head?.all fun r => t.ml.mlCurEvent.acknowledges r t.recvds
      else t.ml.mlCurEvent.acknowledges t.ml.txSarReg t.recvds
  | _ => true

end AckNet

/-! ## What a handler sends -/

namespace MetaLoader

variable {s : MetaLoader b}

/-- A handler of an event that acknowledges sends the acknowledgement, or it goes on with the FIN. -/
theorem handle_acknowledges {rxSar : RxSarReply} {r : TxTxSarReply b}
    {recvds : List (BitVec 32)} (he : s.mlCurEvent.acknowledges r recvds = true)
    (hrx : s.asksRx = true ∨ s.loaded = true → rxSar.recvd ∈ recvds) :
    (s.handle rxSar r).2.segments.any (AckNet.good s.mlCurEvent.sessionID recvds) = true ∨
      (s.handle rxSar r).1.mlFsmState = .WORK ∧ (s.handle rxSar r).1.mlCurEvent.type = FIN := by
  have hmem (hx : s.asksRx = true ∨ s.loaded = true) (m : TxEngineMeta) (hack : m.ack = true)
      (hnumb : m.ackNumb = rxSar.recvd) : AckNet.good s.mlCurEvent.sessionID recvds (s.mlCurEvent.sessionID, m) = true := by
    have hr := hrx hx
    simp [AckNet.good, hack, hnumb, hr]
  unfold handle MetaLoaderOut.segments
  cases ht : s.mlCurEvent.type with
  | TX =>
    left
    have hlen : ¬ s.mlCurEvent.length = 0#16 := by simpa [ExtendedEvent.acknowledges, ht] using he
    have hg := hmem (by simp [asksRx, loaded, ht])
      (mlHeader s rxSar r.notAckd s.mlCurEvent.length) rfl rfl
    simpa [mlTx, hlen, mlSegment] using hg
  | ACK | ACK_NODELAY =>
    left
    have hg := hmem (by simp [asksRx, loaded, ht]) (mlHeader s rxSar r.notAckd 0) rfl rfl
    simpa [mlAck, mlSegment] using hg
  | SYN_ACK =>
    left
    have hr := hrx (by simp [asksRx, loaded, ht])
    simp [mlSynAck, mlOpen, mlSegment, AckNet.good, hr]
  | FIN =>
    left
    have hr : rxSar.recvd ∈ recvds := hrx (by cases hl : s.loaded <;> simp [asksRx, ht, hl])
    simp [mlFin, mlSegment, mlHeader, AckNet.good, hr]
  | SYN => simp [ExtendedEvent.acknowledges, ht] at he
  | RST =>
    left
    have hid : s.mlCurEvent.toEvent.hasSessionID b = true ∧ s.mlCurEvent.toEvent.getAckNumb b ∈ recvds := by
      simpa [ExtendedEvent.acknowledges, ht] using he
    simp [hid.1, mlRstSession, mlSegment, rstMeta, AckNet.good, hid.2]
  | RT =>
    have hne : ∀ length : BitVec 16, length ≠ 0 →
        AckNet.good s.mlCurEvent.sessionID recvds (s.mlCurEvent.sessionID, mlHeader s rxSar r.ackd length) = true :=
      fun length _ => hmem (by cases hl : s.loaded <;> simp [asksRx, ht, hl]) _ rfl rfl
    by_cases hused : r.usedLength = 0
    · -- nothing is outstanding but the FIN
      right
      have hfin : r.finSent = true := by simpa [ExtendedEvent.acknowledges, ht, hused] using he
      simp [mlRt, hused, hfin]
    · left
      have hmss : b.mss ≠ 0 := by
        rw [ExtendedEvent.acknowledges, ht] at he
        simp only [if_neg hused] at he
        exact bne_iff_ne.mp he
      have hlen : (if decide (b.mss.toNat < r.usedLength.toNat) = true then b.mss
          else r.usedLength.setWidth 16) ≠ 0#16 := by
        split
        · exact hmss
        · next hfull =>
            intro h0
            have hlt := b.mss.isLt
            have hle : r.usedLength.toNat ≤ b.mss.toNat := by simpa using hfull
            apply hused
            have hnat := congrArg BitVec.toNat h0
            rw [BitVec.toNat_setWidth, Nat.mod_eq_of_lt (by omega)] at hnat
            exact BitVec.eq_of_toNat_eq hnat
      simp only [mlRt]
      generalize (if decide (b.mss.toNat < r.usedLength.toNat) = true then b.mss
        else r.usedLength.setWidth 16) = length at hlen ⊢
      have hg := hne length hlen
      have hlen : ¬ length = 0#16 := hlen
      simpa [mlSegment, mlHeader, hlen] using hg

theorem handle_rxSar (h : s.mlCurEvent.type = RT) (rxSar : RxSarReply) (r : TxTxSarReply b) :
    (s.handle rxSar r).1.rxSar = rxSar := by
  simp only [handle, h, mlRt]

theorem mlRequests_asksRx (e : ExtendedEvent b) (ml : MetaLoader b) (he : ml.mlCurEvent = e)
    (hl : ml.mlSarLoaded = false) :
    (mlRequests e).txEng2rxSarReq = if ml.asksRx then [e.sessionID] else [] := by
  subst he
  unfold mlRequests asksRx loaded
  split <;> simp_all

theorem asksRx_of_loaded (h : s.loaded = true) : s.asksRx = false := by
  unfold asksRx
  split
  · rfl
  · rfl
  · rw [h]
    rfl

end MetaLoader

namespace AckNet

variable {time64us : BitVec 12} {t u : AckNet b} {l : Label b}

/-! ## One call of `ack_delay` -/

/-- The session after `p` in the round of `ack_delay`. -/
def nextPointer (b : Build) (p : BitVec 16) : BitVec 16 := if p + 1 = b.maxSessions then 0 else p + 1

/-- What a call of `ack_delay` can do: it holds an ACK back, forwards an event, or visits a session; a visit finds
no room, nothing to do, an ACK that is due, or one that is not due yet. -/
inductive Delayed (time64us : BitVec 12) (t : AckNet b) : AckNet b → Prop
  | hold (ev : ExtendedEvent b) (rest : List (ExtendedEvent b)) (hin : t.input = ev :: rest)
      (h0 : t.ad.ackTable ev.sessionID = 0) : Delayed time64us t
        { t with
          ad := ⟨Function.update t.ad.ackTable ev.sessionID time64us, t.ad.adPointer⟩, input := rest
          absorbed := t.absorbed ++ [ev.sessionID] }
  | forward (ev : ExtendedEvent b) (rest : List (ExtendedEvent b)) (hin : t.input = ev :: rest) :
      Delayed time64us t
        { t with
          ad := ⟨Function.update t.ad.ackTable ev.sessionID 0, t.ad.adPointer⟩, input := rest
          fifo := { t.fifo with eventEng2txEngEvent := t.fifo.eventEng2txEngEvent ++ [ev] }
          tags := t.tags ++ [t.ad.ackTable ev.sessionID != 0]
          cancelled := t.cancelled ++ if t.ad.ackTable ev.sessionID != 0 then [ev.sessionID] else [] }
  | full (hin : t.input = []) : Delayed time64us t
        { t with ad := ⟨t.ad.ackTable, nextPointer b t.ad.adPointer⟩, blocked := t.blocked + 1 }
  | none (hin : t.input = []) (h0 : t.ad.ackTable t.ad.adPointer = 0) : Delayed time64us t
        { t with ad := ⟨t.ad.ackTable, nextPointer b t.ad.adPointer⟩, idle := t.idle + 1 }
  | due (hin : t.input = []) (h1 : t.ad.ackTable t.ad.adPointer = 1) : Delayed time64us t
        { t with
          ad := ⟨Function.update t.ad.ackTable t.ad.adPointer 0, nextPointer b t.ad.adPointer⟩
          fifo := { t.fifo with
            eventEng2txEngEvent := t.fifo.eventEng2txEngEvent ++
              [Event.extended { type := .ACK, sessionID := t.ad.adPointer }] }
          tags := t.tags ++ [false], due := t.due ++ [t.ad.adPointer], idle := t.idle + 1 }
  | wait (hin : t.input = []) (h0 : t.ad.ackTable t.ad.adPointer ≠ 0) (h1 : t.ad.ackTable t.ad.adPointer ≠ 1) :
      Delayed time64us t
        { t with
          ad := ⟨Function.update t.ad.ackTable t.ad.adPointer (t.ad.ackTable t.ad.adPointer - 1),
            nextPointer b t.ad.adPointer⟩
          idle := t.idle + 1 }

theorem delayed (time64us : BitVec 12) (t : AckNet b) : Delayed time64us t (t.callAckDelay time64us) := by
  cases hin : t.input with
  | cons ev rest =>
    by_cases hhold : ev.type = .ACK ∧ t.ad.ackTable ev.sessionID = 0
    · have hcall : t.callAckDelay time64us = { t with
          ad := ⟨Function.update t.ad.ackTable ev.sessionID time64us, t.ad.adPointer⟩, input := rest
          absorbed := t.absorbed ++ [ev.sessionID] } := by
        simp [callAckDelay, ackDelay, hin, hhold]
      rw [hcall]
      exact .hold ev rest hin hhold.2
    · have hcall : t.callAckDelay time64us = { t with
          ad := ⟨Function.update t.ad.ackTable ev.sessionID 0, t.ad.adPointer⟩, input := rest
          fifo := { t.fifo with eventEng2txEngEvent := t.fifo.eventEng2txEngEvent ++ [ev] }
          tags := t.tags ++ [t.ad.ackTable ev.sessionID != 0]
          cancelled := t.cancelled ++ if t.ad.ackTable ev.sessionID != 0 then [ev.sessionID] else [] } := by
        simp only [callAckDelay, ackDelay, hin, if_neg hhold]
        simp
      rw [hcall]
      exact .forward ev rest hin
  | nil =>
    by_cases hfull : depth ≤ t.fifo.eventEng2txEngEvent.length
    · have hcall : t.callAckDelay time64us = { t with
          ad := ⟨t.ad.ackTable, nextPointer b t.ad.adPointer⟩, blocked := t.blocked + 1 } := by
        simp [callAckDelay, ackDelay, adTick, nextPointer, hin, hfull]
      rw [hcall]
      exact .full hin
    · by_cases h0 : t.ad.ackTable t.ad.adPointer = 0#12
      · have hcall : t.callAckDelay time64us = { t with
            ad := ⟨t.ad.ackTable, nextPointer b t.ad.adPointer⟩, idle := t.idle + 1 } := by
          simp [callAckDelay, ackDelay, adTick, nextPointer, hin, hfull, h0]
        rw [hcall]
        exact .none hin h0
      · by_cases h1 : t.ad.ackTable t.ad.adPointer = 1#12
        · have hcall : t.callAckDelay time64us = { t with
              ad := ⟨Function.update t.ad.ackTable t.ad.adPointer 0, nextPointer b t.ad.adPointer⟩
              fifo := { t.fifo with
                eventEng2txEngEvent := t.fifo.eventEng2txEngEvent ++
                  [Event.extended { type := .ACK, sessionID := t.ad.adPointer }] }
              tags := t.tags ++ [false], due := t.due ++ [t.ad.adPointer], idle := t.idle + 1 } := by
            simp [callAckDelay, ackDelay, adTick, nextPointer, hin, hfull, h1, Event.extended]
          rw [hcall]
          exact .due hin h1
        · have hcall : t.callAckDelay time64us = { t with
              ad := ⟨Function.update t.ad.ackTable t.ad.adPointer (t.ad.ackTable t.ad.adPointer - 1),
                nextPointer b t.ad.adPointer⟩
              idle := t.idle + 1 } := by
            simp [callAckDelay, ackDelay, adTick, nextPointer, hin, hfull, h0, h1]
          rw [hcall]
          exact .wait hin h0 h1

/-! ## Every ACK that is held back is emitted or cancelled -/

/-- How often the ACK of a session was emitted or cancelled. -/
def ended (t : AckNet b) (id : SessionID) : Nat := t.due.count id + t.cancelled.count id

/-- The held back ACKs are those that ended and the one that waits. -/
def Accounted (t : AckNet b) : Prop :=
  ∀ id, t.absorbed.count id = t.ended id + if t.ad.ackTable id = 0 then 0 else 1

theorem metaLoader_frame (t : AckNet b) : t.callMetaLoader.ad = t.ad ∧ t.callMetaLoader.absorbed = t.absorbed ∧
    t.callMetaLoader.due = t.due ∧ t.callMetaLoader.cancelled = t.cancelled ∧ t.callMetaLoader.idle = t.idle ∧
    t.callMetaLoader.blocked = t.blocked := by
  unfold callMetaLoader
  dsimp only
  split <;> exact ⟨rfl, rfl, rfl, rfl, rfl, rfl⟩

/-- The other steps do not touch the delayed ACKs. -/
theorem step_frame (hs : t.step time64us l = some u) :
    l = .ackDelay ∧ u = t.callAckDelay time64us ∨
      u.ad = t.ad ∧ u.absorbed = t.absorbed ∧ u.due = t.due ∧ u.cancelled = t.cancelled ∧ u.idle = t.idle ∧
        u.blocked = t.blocked := by
  cases l with
  | event | receive =>
    cases Option.some.inj hs
    exact .inr ⟨rfl, rfl, rfl, rfl, rfl, rfl⟩
  | ackDelay =>
    cases Option.some.inj hs
    exact .inl ⟨rfl, rfl⟩
  | metaLoader =>
    cases Option.some.inj hs
    exact .inr t.metaLoader_frame
  | rxSar | txSar =>
    simp only [step] at hs
    split at hs
    · cases Option.some.inj hs
      exact .inr ⟨rfl, rfl, rfl, rfl, rfl, rfl⟩
    · cases hs

theorem accounted_step (ht : time64us ≠ 0) (h : t.Accounted) (hs : t.step time64us l = some u) : u.Accounted := by
  rcases step_frame hs with ⟨-, hu⟩ | ⟨had, habs, hdue, hcan, -, -⟩
  · have hd := delayed time64us t
    rw [← hu] at hd
    cases hd with
    | hold ev rest hin h0 =>
      intro id
      have hid := h id
      by_cases heq : id = ev.sessionID
      · subst heq
        simp only [ended, List.count_append, Function.update_self, if_neg ht, h0, if_true] at hid ⊢
        simp only [List.count_singleton_self]
        omega
      · have hne : ¬ ev.sessionID = id := fun hc => heq hc.symm
        simpa [ended, Function.update_of_ne heq, hne] using hid
    | forward ev rest hin =>
      intro id
      have hid := h id
      by_cases heq : id = ev.sessionID
      · subst heq
        by_cases h0 : t.ad.ackTable ev.sessionID = 0#12
        · simpa [ended, h0] using hid
        · simp [ended, h0] at hid ⊢
          omega
      · have hne : ¬ ev.sessionID = id := fun hc => heq hc.symm
        by_cases h0 : t.ad.ackTable ev.sessionID = 0#12
        · simpa [ended, Function.update_of_ne heq, hne, h0] using hid
        · simpa [ended, Function.update_of_ne heq, hne, h0] using hid
    | full | none => exact h
    | due hin h1 =>
      intro id
      have hid := h id
      by_cases heq : id = t.ad.adPointer
      · subst heq
        simp [ended, h1] at hid ⊢
        omega
      · have hne : ¬ t.ad.adPointer = id := fun hc => heq hc.symm
        simpa [ended, Function.update_of_ne heq, hne] using hid
    | wait hin h0 h1 =>
      intro id
      have hid := h id
      by_cases heq : id = t.ad.adPointer
      · subst heq
        have hleft : ¬ t.ad.ackTable t.ad.adPointer - 1#12 = 0#12 := by
          intro hc
          exact h1 (by rw [← BitVec.sub_add_cancel (t.ad.ackTable t.ad.adPointer) 1#12, hc]; rfl)
        have h0 : ¬ t.ad.ackTable t.ad.adPointer = 0#12 := h0
        simpa [ended, h0, hleft] using hid
      · simpa [ended, Function.update_of_ne heq] using hid
  · intro id
    rw [ended, habs, hdue, hcan, had]
    exact h id

/-! ## The time of a held back ACK runs out -/

/-- The visits from session `p` to session `id`. -/
def distance (b : Build) (p id : SessionID) : Nat :=
  if p.toNat ≤ id.toNat then id.toNat - p.toNat else id.toNat + b.maxSessions.toNat - p.toNat

/-- The visits until the ACK of the session is emitted. -/
def rank (t : AckNet b) (id : SessionID) : Nat :=
  ((t.ad.ackTable id).toNat - 1) * b.maxSessions.toNat + distance b t.ad.adPointer id + 1

theorem nextPointer_toNat {p : BitVec 16} (hp : p.toNat < b.maxSessions.toNat) :
    (nextPointer b p).toNat = if p.toNat + 1 = b.maxSessions.toNat then 0 else p.toNat + 1 := by
  have hlt := b.maxSessions.isLt
  have hadd : (p + 1).toNat = p.toNat + 1 := by
    rw [BitVec.toNat_add]
    exact Nat.mod_eq_of_lt (by simp; omega)
  have heq : p + 1 = b.maxSessions ↔ p.toNat + 1 = b.maxSessions.toNat := by
    rw [← hadd]
    exact ⟨congrArg _, BitVec.eq_of_toNat_eq⟩
  rw [nextPointer]
  by_cases h : p + 1 = b.maxSessions
  · rw [if_pos h, if_pos (heq.mp h)]
    rfl
  · rw [if_neg h, if_neg (fun hc => h (heq.mpr hc)), hadd]

theorem nextPointer_lt {p : BitVec 16} (hp : p.toNat < b.maxSessions.toNat) :
    (nextPointer b p).toNat < b.maxSessions.toNat := by
  rw [nextPointer_toNat hp]
  split <;> omega

theorem distance_next {p id : BitVec 16} (hp : p.toNat < b.maxSessions.toNat) (hid : id.toNat < b.maxSessions.toNat)
    (hne : p ≠ id) : distance b p id = distance b (nextPointer b p) id + 1 := by
  have hnat : p.toNat ≠ id.toNat := fun h => hne (BitVec.eq_of_toNat_eq h)
  rw [distance, distance, nextPointer_toNat hp]
  split <;> split <;> split <;> omega

theorem distance_round {id : BitVec 16} (hid : id.toNat < b.maxSessions.toNat) :
    distance b (nextPointer b id) id + 1 = b.maxSessions.toNat := by
  rw [distance, nextPointer_toNat hid]
  split <;> split <;> omega

theorem pointer_step (h : t.ad.adPointer.toNat < b.maxSessions.toNat) (hs : t.step time64us l = some u) :
    u.ad.adPointer.toNat < b.maxSessions.toNat := by
  rcases step_frame hs with ⟨-, hu⟩ | ⟨had, -⟩
  · have hd := delayed time64us t
    rw [← hu] at hd
    cases hd with
    | hold | forward => exact h
    | full | none | due | wait => exact nextPointer_lt h
  · rw [had]
    exact h

variable {id : SessionID}

/-- A step ends the ACK, finds no room, or each visit brings it one closer to its end. -/
theorem rank_step (hid : id.toNat < b.maxSessions.toNat)
    (hp : t.ad.adPointer.toNat < b.maxSessions.toNat) (ha : t.ad.ackTable id ≠ 0)
    (hs : t.step time64us l = some u) :
    t.ended id < u.ended id ∧ t.blocked ≤ u.blocked ∨ t.ended id ≤ u.ended id ∧ t.blocked < u.blocked ∨
      t.ended id = u.ended id ∧ t.blocked = u.blocked ∧ u.ad.ackTable id ≠ 0 ∧
        u.idle + rank u id = t.idle + rank t id := by
  rcases step_frame hs with ⟨-, hu⟩ | ⟨had, -, hdue, hcan, hidle, hblocked⟩
  · have hd := delayed time64us t
    rw [← hu] at hd
    cases hd with
    | hold ev rest hin h0 =>
      have hne : id ≠ ev.sessionID := fun hc => ha (by rw [hc, h0])
      right; right
      refine ⟨rfl, rfl, ?_, ?_⟩
      · simpa [Function.update_of_ne hne] using ha
      · simp [rank, Function.update_of_ne hne]
    | forward ev rest hin =>
      by_cases heq : id = ev.sessionID
      · subst heq
        left
        have ha : ¬ t.ad.ackTable ev.sessionID = 0#12 := ha
        simp [ended, ha]
      · have hne : ¬ ev.sessionID = id := fun hc => heq hc.symm
        right; right
        refine ⟨?_, rfl, ?_, ?_⟩
        · by_cases h0 : t.ad.ackTable ev.sessionID = 0#12 <;> simp [ended, h0, hne]
        · simpa [Function.update_of_ne heq] using ha
        · simp [rank, Function.update_of_ne heq]
    | full hin =>
      right; left
      exact ⟨Nat.le_refl _, Nat.lt_succ_self _⟩
    | none hin h0 =>
      have hne : t.ad.adPointer ≠ id := fun hc => ha (by rw [← hc, h0])
      right; right
      refine ⟨rfl, rfl, ha, ?_⟩
      have hdist := distance_next hp hid hne
      simp only [rank]
      omega
    | due hin h1 =>
      by_cases heq : id = t.ad.adPointer
      · subst heq
        left
        simp [ended]
      · have hne : ¬ t.ad.adPointer = id := fun hc => heq hc.symm
        right; right
        refine ⟨?_, rfl, ?_, ?_⟩
        · simp [ended, hne]
        · simpa [Function.update_of_ne heq] using ha
        · have hdist := distance_next hp hid hne
          simp only [rank, Function.update_of_ne heq]
          omega
    | wait hin h0 h1 =>
      by_cases heq : id = t.ad.adPointer
      · subst heq
        -- the visit itself: one off the time, and a whole round until the next one
        have hround := distance_round hp
        have hone : t.ad.ackTable t.ad.adPointer ≠ 1#12 := h1
        have hpos : 2 ≤ (t.ad.ackTable t.ad.adPointer).toNat := by
          have hz : (t.ad.ackTable t.ad.adPointer).toNat ≠ 0 := fun hc => h0 (BitVec.eq_of_toNat_eq hc)
          have ho : (t.ad.ackTable t.ad.adPointer).toNat ≠ 1 := fun hc => h1 (BitVec.eq_of_toNat_eq hc)
          omega
        have hsub : (t.ad.ackTable t.ad.adPointer - 1).toNat = (t.ad.ackTable t.ad.adPointer).toNat - 1 := by
          rw [BitVec.toNat_sub_of_le]
          · rfl
          · exact BitVec.le_def.mpr (by simp; omega)
        right; right
        refine ⟨rfl, rfl, ?_, ?_⟩
        · intro hc
          have hnat := congrArg BitVec.toNat hc
          simp only [Function.update_self, hsub] at hnat
          have hzero : (t.ad.ackTable t.ad.adPointer).toNat - 1 = 0 := hnat
          omega
        · have hself : distance b t.ad.adPointer t.ad.adPointer = 0 := by simp [distance]
          obtain ⟨n, hn⟩ : ∃ n, (t.ad.ackTable t.ad.adPointer).toNat = n + 2 :=
            ⟨_, (Nat.sub_add_cancel hpos).symm⟩
          simp only [rank, Function.update_self, hsub, hself, hn]
          have h2 : n + 2 - 1 - 1 = n := by omega
          have h3 : n + 2 - 1 = n + 1 := by omega
          rw [h2, h3, Nat.succ_mul]
          omega
      · have hne : t.ad.adPointer ≠ id := fun hc => heq hc.symm
        right; right
        refine ⟨rfl, rfl, ?_, ?_⟩
        · simpa [Function.update_of_ne heq] using ha
        · have hdist := distance_next hp hid hne
          simp only [rank, Function.update_of_ne heq]
          omega
  · right; right
    refine ⟨?_, hblocked.symm, ?_, ?_⟩
    · rw [ended, ended, hdue, hcan]
    · rw [had]
      exact ha
    · rw [rank, rank, had, hidle]

theorem rank_le (t : AckNet b) (hid : id.toNat < b.maxSessions.toNat)
    (hp : t.ad.adPointer.toNat < b.maxSessions.toNat) (ha : t.ad.ackTable id ≠ 0) :
    rank t id ≤ (t.ad.ackTable id).toNat * b.maxSessions.toNat := by
  have hz : (t.ad.ackTable id).toNat ≠ 0 := fun hc => ha (BitVec.eq_of_toNat_eq hc)
  obtain ⟨n, hn⟩ : ∃ n, (t.ad.ackTable id).toNat = n + 1 := Nat.exists_eq_succ_of_ne_zero hz
  have hdist : distance b t.ad.adPointer id + 1 ≤ b.maxSessions.toNat := by
    rw [distance]
    split <;> omega
  rw [rank, hn, Nat.succ_mul, Nat.add_sub_cancel]
  omega

theorem ended_le (id : SessionID) (hs : t.step time64us l = some u) :
    t.ended id ≤ u.ended id ∧ t.blocked ≤ u.blocked := by
  rcases step_frame hs with ⟨-, hu⟩ | ⟨-, -, hdue, hcan, -, hblocked⟩
  · have hd := delayed time64us t
    rw [← hu] at hd
    cases hd with
    | hold | none | wait => exact ⟨Nat.le_refl _, Nat.le_refl _⟩
    | forward | due =>
      refine ⟨?_, Nat.le_refl _⟩
      simp only [ended, List.count_append]
      omega
    | full hin => exact ⟨Nat.le_refl _, Nat.le_succ _⟩
  · rw [ended, ended, hdue, hcan, hblocked]
    exact ⟨Nat.le_refl _, Nat.le_refl _⟩

/-- Enough visits that find room end a held back ACK. -/
theorem ends_in_time (hid : id.toNat < b.maxSessions.toNat)
    (hp : t.ad.adPointer.toNat < b.maxSessions.toNat) (ha : t.ad.ackTable id ≠ 0)
    (hr : Reach (step time64us) anyStep t u) (hroom : u.blocked = t.blocked)
    (hidle : t.idle + (t.ad.ackTable id).toNat * b.maxSessions.toNat ≤ u.idle) : t.ended id < u.ended id := by
  have hinv : u.ad.adPointer.toNat < b.maxSessions.toNat ∧ t.ended id ≤ u.ended id ∧ t.blocked ≤ u.blocked ∧
      (t.ended id = u.ended id → t.blocked = u.blocked →
        u.ad.ackTable id ≠ 0 ∧ u.idle + rank u id = t.idle + rank t id) := by
    refine hr.invariant (P := fun u => u.ad.adPointer.toNat < b.maxSessions.toNat ∧ t.ended id ≤ u.ended id ∧
      t.blocked ≤ u.blocked ∧ (t.ended id = u.ended id → t.blocked = u.blocked →
        u.ad.ackTable id ≠ 0 ∧ u.idle + rank u id = t.idle + rank t id))
      ⟨hp, Nat.le_refl _, Nat.le_refl _, fun _ _ => ⟨ha, rfl⟩⟩ ?_
    rintro v l w ⟨hpv, hev, hbv, hv⟩ - hs
    have hpw := pointer_step hpv hs
    by_cases hopen : t.ended id = v.ended id ∧ t.blocked = v.blocked
    · obtain ⟨hav, hrank⟩ := hv hopen.1 hopen.2
      rcases rank_step hid hpv hav hs with ⟨he, hb⟩ | ⟨he, hb⟩ | ⟨he, hb, haw, hw⟩
      · exact ⟨hpw, by omega, by omega, fun h => absurd h (by omega)⟩
      · exact ⟨hpw, by omega, by omega, fun _ h => absurd h (by omega)⟩
      · exact ⟨hpw, by omega, by omega, fun _ _ => ⟨haw, by omega⟩⟩
    · obtain ⟨hevw, hbvw⟩ := ended_le id hs
      exact ⟨hpw, by omega, by omega, fun he hb => absurd ⟨by omega, by omega⟩ hopen⟩
  obtain ⟨-, he, -, hu⟩ := hinv
  rcases Nat.lt_or_ge (t.ended id) (u.ended id) with hlt | hge
  · exact hlt
  · obtain ⟨-, hrank⟩ := hu (by omega) hroom.symm
    have hle := rank_le t hid hp ha
    have hpos : 0 < rank u id := Nat.succ_pos _
    omega

/-! ## Every cancelled ACK is sent -/

/-- The transmit engine waits for the rx_sar reply of its event. -/
def waitsRx (t : AckNet b) : Bool := t.ml.mlFsmState == .WORK && t.ml.asksRx

structure Inv (t : AckNet b) : Prop where
  tags : t.fifo.eventEng2txEngEvent.length = t.tags.length
  client : TableClient (fun _ : SessionID => false) t.waitsRx t.rxReq t.fifo.rxSar2txEngRsp
  asked : ∀ q ∈ t.rxReq, q = t.ml.mlCurEvent.sessionID
  current : t.ml.mlFsmState = .WORK → t.recvd t.ml.mlCurEvent.sessionID ∈ t.recvds
  reply : ∀ r ∈ t.fifo.rxSar2txEngRsp, r.recvd ∈ t.recvds
  register : t.ml.mlFsmState = .WORK → t.ml.loaded = true → t.ml.rxSar.recvd ∈ t.recvds
  -- a cancelling event that goes on without a segment has nothing to do but its FIN
  going : t.ml.mlFsmState = .WORK → t.ml.loaded = true → t.tag = true → t.acked = false →
    t.ml.mlCurEvent.type = FIN
  kept : t.Kept

theorem Inv.init : Inv ({} : AckNet b) := by
  constructor
  · rfl
  · exact TableClient.quiet (by simp)
  · intro q hq
    cases hq
  · intro h
    cases h
  · intro r hr
    cases hr
  · intro h
    cases h
  · intro h
    cases h
  · rfl

theorem inFlight_append (t : AckNet b) (ht : t.fifo.eventEng2txEngEvent.length = t.tags.length)
    (ev : ExtendedEvent b) (cancels : Bool) (ad : AckDelay) (input : List (ExtendedEvent b)) :
    ({ t with
        ad, input, fifo := { t.fifo with eventEng2txEngEvent := t.fifo.eventEng2txEngEvent ++ [ev] }
        tags := t.tags ++ [cancels] } : AckNet b).inFlight =
      t.inFlight ++ if cancels then [ev.sessionID] else [] := by
  simp only [inFlight, List.zip_append ht, List.filter_append, List.map_append, List.append_assoc]
  cases cancels <;> rfl

theorem Inv.callAckDelay (h : Inv t) : Inv (t.callAckDelay time64us) := by
  have hd := delayed time64us t
  generalize t.callAckDelay time64us = u at hd
  have hkept : t.cancelled = t.answered ++ t.inFlight := h.kept
  cases hd with
  | hold | full | none | wait => exact { h with kept := h.kept }
  | forward ev rest hin =>
    refine { h with tags := ?_, kept := ?_ }
    · simp [h.tags]
    · have happ := inFlight_append t h.tags ev (t.ad.ackTable ev.sessionID != 0)
        ⟨Function.update t.ad.ackTable ev.sessionID 0, t.ad.adPointer⟩ rest
      show t.cancelled ++ _ = t.answered ++ _
      rw [hkept, List.append_assoc]
      exact congrArg (t.answered ++ ·) happ.symm
  | due hin h1 =>
    refine { h with tags := ?_, kept := ?_ }
    · simp [h.tags]
    · have happ := inFlight_append t h.tags (Event.extended { type := .ACK, sessionID := t.ad.adPointer }) false
        ⟨Function.update t.ad.ackTable t.ad.adPointer 0, nextPointer b t.ad.adPointer⟩ t.input
      show t.cancelled = t.answered ++ _
      rw [hkept]
      exact congrArg (t.answered ++ ·) (happ.trans (List.append_nil _)).symm

/-- An event is taken with its tag. -/
theorem Inv.take (h : Inv t) (hI : t.ml.mlFsmState = .IDLE) : Inv t.callMetaLoader := by
  have hkept : t.cancelled = t.answered ++ t.inFlight := h.kept
  have hclient := h.client
  have hwaits : t.waitsRx = false := by simp [waitsRx, hI]
  rw [hwaits] at hclient
  cases hev : t.fifo.eventEng2txEngEvent with
  | nil =>
    have htags : t.tags = [] := by
      have := h.tags
      rw [hev] at this
      exact List.eq_nil_of_length_eq_zero this.symm
    have hcall : t.callMetaLoader = { t with
        ml := { t.ml with mlSegmentCount := 0 }, tag := false, tags := [], acked := false
        recvds := [t.recvd t.ml.mlCurEvent.sessionID] } := by
      simp [AckNet.callMetaLoader, metaLoader, hI, hev, htags]
    rw [hcall]
    constructor
    · rw [hev]
      rfl
    · show TableClient _ (({ t.ml with mlSegmentCount := 0 } : MetaLoader b).mlFsmState == .WORK && _) t.rxReq _
      rw [hI]
      exact hclient
    · exact h.asked
    · intro _
      exact List.mem_singleton_self _
    · intro r hr
      rw [hclient.rsps_eq_nil] at hr
      cases hr
    · intro hW
      rw [hI] at hW
      cases hW
    · intro hW
      rw [hI] at hW
      cases hW
    · show t.cancelled = t.answered ++ _
      rw [hkept]
      simp [inFlight, hI, hev]
  | cons e rest =>
    obtain ⟨tag, tags, htags⟩ : ∃ tag tags, t.tags = tag :: tags := by
      cases htags : t.tags with
      | nil =>
        have := h.tags
        rw [hev, htags] at this
        cases this
      | cons tag tags => exact ⟨tag, tags, rfl⟩
    have hcall : t.callMetaLoader = { t with
        ml := { t.ml with
          mlFsmState := .WORK, mlCurEvent := e, mlSarLoaded := false
          mlRandomValue := t.ml.mlRandomValue + 1, mlSegmentCount := 0 }
        fifo := { t.fifo with eventEng2txEngEvent := rest }
        rxReq := t.rxReq ++ (mlRequests e).txEng2rxSarReq, txReq := t.txReq ++ (mlRequests e).txEng2txSarUpdReq
        tag, tags, acked := false, recvds := [t.recvd e.sessionID] } := by
      simp [AckNet.callMetaLoader, metaLoader, hI, hev, htags]
    have hreqs : t.rxReq = [] := by
      apply List.eq_nil_iff_forall_not_mem.mpr
      intro q hq
      cases hclient.writes q hq
    have hask := MetaLoader.mlRequests_asksRx e { t.ml with
      mlFsmState := .WORK, mlCurEvent := e, mlSarLoaded := false
      mlRandomValue := t.ml.mlRandomValue + 1, mlSegmentCount := 0 } rfl rfl
    rw [hcall]
    constructor
    · have := h.tags
      rw [hev, htags] at this
      exact Nat.succ.inj this
    · show TableClient _ (true && MetaLoader.asksRx _) (t.rxReq ++ _) t.fifo.rxSar2txEngRsp
      rw [hask, Bool.true_and]
      split
      · next ha =>
          rw [ha]
          exact hclient.ask rfl
      · next ha =>
          rw [Bool.not_eq_true] at ha
          rw [ha, List.append_nil]
          exact hclient
    · intro q hq
      rw [hreqs, List.nil_append, hask] at hq
      split at hq
      · exact List.mem_singleton.mp hq
      · cases hq
    · intro _
      exact List.mem_singleton_self _
    · intro r hr
      have hnil : t.fifo.rxSar2txEngRsp = [] := hclient.rsps_eq_nil
      have hr : r ∈ t.fifo.rxSar2txEngRsp := hr
      rw [hnil] at hr
      cases hr
    · intro _ hl
      simp [MetaLoader.loaded] at hl
    · intro _ hl
      simp [MetaLoader.loaded] at hl
    · show t.cancelled = t.answered ++ _
      rw [hkept]
      cases tag <;> simp [inFlight, hI, hev, htags]

theorem acknowledging_handle {r : TxTxSarReply b} {fifo : MetaLoaderIn b}
    (hok : t.acknowledging .metaLoader = true) (hW : t.ml.mlFsmState = .WORK) (ht : t.ml.Taken t.fifo fifo r)
    (htag : t.tag = true) (hacked : t.acked = false) : t.ml.mlCurEvent.acknowledges r t.recvds = true := by
  simp only [acknowledging, hW, htag, hacked] at hok
  have hf := ht.fifo
  cases ha : t.ml.asks with
  | true =>
    rw [ha, if_pos rfl] at hf
    simpa [ha, hf] using hok
  | false =>
    rw [ha] at hok
    have hok : t.ml.mlCurEvent.acknowledges t.ml.txSarReg t.recvds = true := by simpa using hok
    cases hl : t.ml.loaded with
    | true =>
      rw [ht.register hl]
      exact hok
    | false =>
      -- a first SYN or a reset without a session
      cases he : t.ml.mlCurEvent.type <;> simp [MetaLoader.asks, he, hl] at ha <;>
        simp [ExtendedEvent.acknowledges, he, ha] at hok

theorem Inv.work (h : Inv t) (hok : t.acknowledging .metaLoader = true) (hW : t.ml.mlFsmState = .WORK) :
    Inv t.callMetaLoader := by
  have hkept : t.cancelled = t.answered ++ t.inFlight := h.kept
  have hclient := h.client
  rcases MetaLoader.metaLoader_work t.fifo hW with hml | ⟨rxSar, r, fifo, ht, hrx, hml⟩
  · have hcall : t.callMetaLoader = t := by
      have hno : (t.tag && !t.acked && t.acked) = false := by cases t.acked <;> simp
      simp [AckNet.callMetaLoader, hml, hW, MetaLoaderOut.segments, hno]
    rw [hcall]
    exact h
  · have hfacts : t.rxReq = [] ∧ fifo.rxSar2txEngRsp = [] ∧
        (t.ml.asksRx = true ∨ t.ml.loaded = true → rxSar.recvd ∈ t.recvds) := by
      have hf := hrx.fifo
      cases ha : t.ml.asksRx with
      | true =>
        rw [ha, if_pos rfl] at hf
        rw [hf] at hclient
        exact ⟨hclient.take.2.1, hclient.take.2.2, fun _ => h.reply rxSar (by rw [hf]; exact List.mem_cons_self)⟩
      | false =>
        have hwaits : t.waitsRx = false := by simp [waitsRx, ha]
        rw [hwaits] at hclient
        rw [ha, if_neg (by simp)] at hf
        refine ⟨?_, hf ▸ hclient.rsps_eq_nil, ?_⟩
        · apply List.eq_nil_iff_forall_not_mem.mpr
          intro q hq
          cases hclient.writes q hq
        · rintro (hc | hl)
          · cases hc
          · rw [hrx.register hl]
            exact h.register hW hl
    obtain ⟨hreqs, hrsps, hrecvd⟩ := hfacts
    have hnext := t.ml.handle_next rxSar r
    have hgoes : t.tag = true → t.acked = false →
        (t.ml.handle rxSar r).2.segments.any (good t.ml.mlCurEvent.sessionID t.recvds) = true ∨
          (t.ml.handle rxSar r).1.mlFsmState = .WORK ∧ (t.ml.handle rxSar r).1.mlCurEvent.type = FIN :=
      fun htag hacked => MetaLoader.handle_acknowledges (acknowledging_handle hok hW ht htag hacked) hrecvd
    have hid : (t.ml.handle rxSar r).1.mlFsmState = .WORK →
        (t.ml.handle rxSar r).1.mlCurEvent.sessionID = t.ml.mlCurEvent.sessionID := by
      intro hW'
      rcases hnext with hI | ⟨-, -, -, hcur | ⟨-, hcur⟩, -⟩
      · rw [hI] at hW'
        cases hW'
      · rw [hcur]
      · rw [hcur]
    generalize hm : t.ml.handle rxSar r = m at *
    have hcall : t.callMetaLoader = { t with
        ml := m.1, fifo, rxReq := t.rxReq ++ m.2.txEng2rxSarReq, txReq := t.txReq ++ m.2.txEng2txSarUpdReq
        acked := t.acked || m.2.segments.any (good t.ml.mlCurEvent.sessionID t.recvds)
        answered := t.answered ++
          if t.tag && !t.acked && (t.acked || m.2.segments.any (good t.ml.mlCurEvent.sessionID t.recvds)) then
            [t.ml.mlCurEvent.sessionID] else [] } := by
      simp only [AckNet.callMetaLoader, hml, hW]
    have hnone : m.2.txEng2rxSarReq = [] := by
      rw [← hm]
      exact (t.ml.handle_reads rxSar r).1
    have hquiet : m.1.mlFsmState = .WORK → m.1.asksRx = false := by
      intro hW'
      rcases hnext with hI | ⟨-, -, hl, -⟩
      · rw [hI] at hW'
        cases hW'
      · exact MetaLoader.asksRx_of_loaded hl
    rw [hcall, hreqs, hnone]
    constructor
    · show fifo.eventEng2txEngEvent.length = _
      rw [ht.event]
      exact h.tags
    · show TableClient _ (m.1.mlFsmState == .WORK && m.1.asksRx) [] fifo.rxSar2txEngRsp
      have hw : (m.1.mlFsmState == .WORK && m.1.asksRx) = false := by
        cases hs : m.1.mlFsmState with
        | IDLE => rfl
        | WORK =>
          rw [hquiet hs]
          rfl
      rw [hw, hrsps]
      exact TableClient.quiet (by simp)
    · intro q hq
      cases hq
    · intro hW'
      show t.recvd m.1.mlCurEvent.sessionID ∈ t.recvds
      rw [hid hW']
      exact h.current hW
    · intro x hx
      have hx : x ∈ fifo.rxSar2txEngRsp := hx
      rw [hrsps] at hx
      cases hx
    · intro hW' hl
      rcases hnext with hI | ⟨hrt, -⟩
      · have hW' : m.1.mlFsmState = .WORK := hW'
        rw [hI] at hW'
        cases hW'
      · show m.1.rxSar.recvd ∈ t.recvds
        rw [← hm, MetaLoader.handle_rxSar hrt]
        apply hrecvd
        cases hload : t.ml.loaded
        · simp [MetaLoader.asksRx, hrt, hload]
        · exact .inr rfl
    · intro hW' hl htag hacked
      have hacked : (t.acked || m.2.segments.any (good t.ml.mlCurEvent.sessionID t.recvds)) = false := hacked
      rw [Bool.or_eq_false_iff] at hacked
      rcases hgoes htag hacked.1 with hany | ⟨-, hfin⟩
      · rw [hacked.2] at hany
        cases hany
      · exact hfin
    · -- the ACK is sent by this call, or the event stays current
      show t.cancelled = (t.answered ++ _) ++ _
      rw [hkept]
      simp only [inFlight, hW, ht.event, true_and]
      cases htag : t.tag with
      | false => simp
      | true =>
        cases hacked : t.acked with
        | true => simp
        | false =>
          cases hany : m.2.segments.any (good t.ml.mlCurEvent.sessionID t.recvds) with
          | true => simp
          | false =>
            rcases hgoes htag hacked with hc | ⟨hW', -⟩
            · rw [hany] at hc
              cases hc
            · simp [hW', hid hW']

theorem inv_step (h : Inv t) (hok : t.acknowledging l = true) (hs : t.step time64us l = some u) : Inv u := by
  cases l with
  | event e =>
    cases Option.some.inj hs
    exact { h with kept := h.kept }
  | ackDelay =>
    cases Option.some.inj hs
    exact h.callAckDelay
  | metaLoader =>
    cases Option.some.inj hs
    cases hml : t.ml.mlFsmState with
    | IDLE => exact h.take hml
    | WORK => exact h.work hok hml
  | rxSar winShift windowSize =>
    simp only [step] at hs
    split at hs
    · next id rest hq =>
        cases Option.some.inj hs
        have hclient := h.client
        rw [hq] at hclient
        obtain ⟨hwaits, rfl, hrsps⟩ := hclient.serve_read rfl
        have hid := h.asked id (by rw [hq]; exact List.mem_cons_self)
        have hW : t.ml.mlFsmState = .WORK := by
          simp only [waitsRx, Bool.and_eq_true, beq_iff_eq] at hwaits
          exact hwaits.1
        refine { h with client := ?_, asked := ?_, reply := ?_, kept := h.kept }
        · show TableClient _ t.waitsRx [] (t.fifo.rxSar2txEngRsp ++ _)
          rw [hwaits, hrsps]
          exact TableClient.answered _
        · intro q hq
          cases hq
        · intro r hr
          rw [hrsps, List.nil_append, List.mem_singleton] at hr
          rw [hr]
          show t.recvd id ∈ t.recvds
          rw [hid]
          exact h.current hW
    · cases hs
  | txSar r =>
    simp only [step] at hs
    split at hs
    · cases Option.some.inj hs
      exact { h with kept := h.kept }
    · cases hs
  | receive id recvd =>
    cases Option.some.inj hs
    -- what was right about the session stays in the list
    have hmem (x : BitVec 32) (hx : x ∈ t.recvds) :
        x ∈ if id = t.ml.mlCurEvent.sessionID then t.recvds ++ [recvd] else t.recvds := by
      split
      · exact List.mem_append_left _ hx
      · exact hx
    refine { h with current := ?_, reply := ?_, register := ?_, kept := h.kept }
    · intro hW
      show Function.update t.recvd id recvd t.ml.mlCurEvent.sessionID ∈ _
      by_cases heq : t.ml.mlCurEvent.sessionID = id
      · rw [← heq, Function.update_self, if_pos rfl]
        exact List.mem_append_right _ (List.mem_singleton_self _)
      · rw [Function.update_of_ne heq]
        exact hmem _ (h.current hW)
    · intro r hr
      exact hmem _ (h.reply r hr)
    · intro hW hl
      exact hmem _ (h.register hW hl)

/-- When `metaLoader` works on an event that cancelled a delayed ACK only if the event acknowledges, no delayed ACK
is lost: each one waits, was emitted or was cancelled, its time runs out, and a cancelled one is sent with the event
that cancelled it. -/
theorem delayed_acks_kept (synthesis : Bool)
    (h : Reach (step (BitVec.ofNat 12 (TIME_64us synthesis b))) (fun t l => t.acknowledging l = true) {} t) :
    t.Accounted ∧ t.Kept ∧
      ∀ (id : SessionID) (u : AckNet b), id.toNat < b.maxSessions.toNat → t.ad.ackTable id ≠ 0 →
        Reach (step (BitVec.ofNat 12 (TIME_64us synthesis b))) anyStep t u → u.blocked = t.blocked →
        t.idle + (t.ad.ackTable id).toNat * b.maxSessions.toNat ≤ u.idle → t.ended id < u.ended id := by
  refine ⟨?_, ?_, ?_⟩
  · refine h.invariant (P := Accounted) (fun id => rfl) fun _ _ _ hu _ hs => ?_
    exact accounted_step (time64us_ne_zero synthesis b) hu hs
  · exact (h.invariant (P := Inv) Inv.init fun _ _ _ hu hok hs => inv_step hu hok hs).kept
  · intro id u hid ha hr hroom hidle
    refine ends_in_time hid ?_ ha hr hroom hidle
    refine h.invariant (P := fun t => t.ad.adPointer.toNat < b.maxSessions.toNat) ?_ fun _ _ _ hu _ hs =>
      pointer_step hu hs
    exact Nat.lt_of_le_of_lt (Nat.zero_le _) hid

/-- The ACK of session 0 is held back and data of the session is sent. -/
def dataCancels : List (Label Build.sample) :=
  [.event (Event.extended { type := .ACK, sessionID := 0 }), .ackDelay,
    .event (Event.extended { type := .TX, sessionID := 0, length := 100 }), .ackDelay, .metaLoader, .rxSar 0 0xFFFF,
    .txSar default, .metaLoader]

theorem delayed_acks_kept_data : ∃ t : AckNet Build.sample,
    t.cancelled = [0] ∧ t.answered = [0] ∧ t.Accounted ∧ t.Kept := by
  have hrun : (runIf (step (BitVec.ofNat 12 (TIME_64us true Build.sample)))
      (fun t l => t.acknowledging l = true) {} dataCancels).map (fun t => (t.cancelled, t.answered)) =
        some ([0], [0]) := by decide +kernel
  obtain ⟨t, ht, hview⟩ := Option.map_eq_some_iff.mp hrun
  have hkept := delayed_acks_kept true (reach_of_runIf ht)
  exact ⟨t, (Prod.mk.inj hview).1, (Prod.mk.inj hview).2, hkept.1, hkept.2.1⟩

/-- The ACK of session 0 is held back and a reset without a session, whose event names session 0, passes. -/
def resetCancels : List (Label Build.sample) :=
  [.event (Event.extended { type := .ACK, sessionID := 0 }), .ackDelay,
    .event (Event.extended { type := .RST, sessionID := 0 }), .ackDelay, .metaLoader, .metaLoader]

/-- Nothing waits and nothing is on its way, but the ACK was neither emitted nor sent. -/
theorem reset_drops_ack : ∃ t : AckNet Build.sample,
    Reach (step (BitVec.ofNat 12 (TIME_64us true Build.sample))) anyStep {} t ∧ t.absorbed = [0] ∧
      t.ad.ackTable 0 = 0 ∧ t.due = [] ∧ t.answered = [] ∧ t.inFlight = [] ∧ ¬ t.Kept := by
  have hrun : (run (step (BitVec.ofNat 12 (TIME_64us true Build.sample))) {} resetCancels).map
      (fun t => (t.ad.ackTable 0, [t.absorbed, t.due, t.answered, t.inFlight, t.cancelled])) =
        some (0, [[0], [], [], [], [0]]) := by decide +kernel
  obtain ⟨t, ht, hview⟩ := Option.map_eq_some_iff.mp hrun
  simp only [Prod.mk.injEq, List.cons.injEq, and_true] at hview
  obtain ⟨htable, habs, hdue, hans, hfly, hcan⟩ := hview
  refine ⟨t, reach_of_run ht, habs, htable, hdue, hans, hfly, ?_⟩
  rw [Kept, hcan, hans, hfly]
  simp

end AckNet

end FpgaNetworkStack.Toe
