import FpgaNetworkStack.Toe.Reassembly
import FpgaNetworkStack.Toe.TxAppIf

/-!
# One session under any segments

`RxRun` lets the peer send ACK segments of its window only.  Here it sends ACK and FIN segments with
any sequence numbers, and the state of the session is carried along: the verdict on a FIN and on
everything after it depends on it.
-/

namespace FpgaNetworkStack.Toe

open Lib SessionState

variable {b : Build}

/-- An accepted FIN: its position in the stream, and how many write commands had been issued and how
many bytes announced when it had been handled. -/
structure FinMark where
  position : Nat
  commands : Nat
  notified : Nat
  deriving DecidableEq

structure SegmentRun (b : Build) (α : Type) where
  rx : RxRun b α
  tcpState : SessionState
  fin : Option FinMark

/-- `load`, `finish` and `appRead` are those of `RxRun`; `state`: another process writes the state, on
a close request of the application, a reset or a timer. -/
inductive SegmentLabel (b : Build) where
  | load (m : RxFsmMetaData) (position : Nat)
  | finish (e : RxTcpFsmEnv b) (txSar : RxTxSarReply b)
  | appRead (len : BitVec 16)
  | state (s : SessionState)

namespace SegmentRun

variable {α : Type} (sid : SessionID) (isn : BitVec 32) (stream : Nat → α)

/-- The session right after its SYN or SYN-ACK. -/
def init (rxTable : SessionID → RxSarEntry b) (winShift : BitVec 4) (tcpState : SessionState) :
    SegmentRun b α :=
  ⟨.init sid isn rxTable winShift, tcpState, none⟩

def entry (t : SegmentRun b α) : RxSarEntry b := t.rx.entry sid

/-- Segments with a FIN or only an acknowledgement; see `transition_other` for the rest. -/
def dataBits (m : RxEngineMetaData) : Bool := controlBits m == .ack || controlBits m == .fin

/-- Of the positions with one sequence number a segment is at the one nearest to `recvd`. -/
def near (t : SegmentRun b α) (p : Nat) : Bool :=
  decide (isn.toNat + 1 ≤ p) && decide (t.rx.recvdPos sid isn ≤ p + 2 ^ 31) &&
    decide (p < t.rx.recvdPos sid isn + 2 ^ 31)

/-- The receive path after the state machine has taken `m` and the table has answered. -/
def loaded (rx : RxRun b α) (m : RxFsmMetaData) (p : Nat) : RxRun b α :=
  let (fsm, _, out) := rxTcpFSM b ⟨default, 0, 0⟩ rx.fsm ⟨[m], [], [], []⟩
  let (_, _, rsp) := rxSarTable b rx.rxTable { rxEng2rxSarUpdReq := out.rxEng2rxSarUpdReq }
  { rx with
    fsm, reply := rsp.rxSar2rxEngUpdRsp, position := p
    payloads := rx.payloads ++ RxRun.payload stream m p }

/-- The state after the writes to the state table. -/
def written (s : SessionState) : List StateQuery → SessionState
  | [] => s
  | q :: _ => q.state

/-- The loaded segment is a FIN that will be accepted. -/
def takesFin (t : SegmentRun b α) : Bool :=
  controlBits t.rx.fsm.fsmMeta.metaData == .fin &&
    t.rx.reply.any fun r => finAccepted b t.rx.fsm.fsmMeta r t.tcpState

def step (t : SegmentRun b α) : SegmentLabel b → Option (SegmentRun b α)
  | .load m p =>
    if t.rx.fsm.fsmState = .LOAD ∧ m.sessionID = sid ∧ dataBits m.metaData = true ∧
        m.metaData.seqNumb = BitVec.ofNat 32 p ∧ t.near sid isn p = true then
      some { t with rx := loaded stream t.rx m p }
    else none
  | .finish e txSar =>
    let out := (rxTcpFSM b e t.rx.fsm ⟨[], [t.tcpState], t.rx.reply, [txSar]⟩).2.2
    (t.rx.step sid isn stream (.finish e t.tcpState txSar)).map fun rx =>
      { rx
        tcpState := written t.tcpState out.rxEng2stateTableUpdReq
        fin :=
          if t.takesFin then
            some ⟨t.rx.recvdPos sid isn + t.rx.fsm.fsmMeta.metaData.length.toNat, rx.cmds.length,
              rx.notified⟩
          else t.fin }
  | .appRead len => (t.rx.step sid isn stream (.appRead len)).map fun rx => { t with rx }
  | .state s =>
    if s = CLOSED ∨ s = FIN_WAIT_1 ∧ closable t.tcpState = true then some { t with tcpState := s }
    else none

/-- The loaded segment lies in the receive window. -/
def inWindow (t : SegmentRun b α) : Bool :=
  decide (t.rx.recvdPos sid isn ≤ t.rx.position) &&
    decide (t.rx.position + t.rx.fsm.fsmMeta.metaData.length.toNat < t.rx.appdPos isn + b.bufferSize)

/-- No payload of an ACK segment is finished that is taken for a block beyond `recvd` and is not one
of the window, or that starts at the gap and passes its end in the 33-bit comparison. -/
def regular (t : SegmentRun b α) : SegmentLabel b → Bool
  | .finish _ _ =>
    let m := t.rx.fsm.fsmMeta
    controlBits m.metaData == .fin || decide (m.metaData.length = 0) || !ackState t.tcpState ||
      t.rx.reply.all fun r =>
        (!outOfOrder b m r || t.inWindow sid isn) &&
          (!afterRecvd b m r || decide (segmentEndWide m ≤ r.offset.toNat))
  | _ => true

/-! ## What a step does -/

/-- The loaded segment and the entry it was answered; only the application's pointer may have moved
since. -/
structure Held (t : SegmentRun b α) (r : RxSarEntry b) : Prop where
  reply : t.rx.reply = [r]
  entry : r = { t.entry sid with appd := r.appd }
  session : t.rx.fsm.fsmMeta.sessionID = sid
  bits : dataBits t.rx.fsm.fsmMeta.metaData = true
  seqNumb : t.rx.fsm.fsmMeta.metaData.seqNumb = BitVec.ofNat 32 t.rx.position

variable {sid isn stream} {m : RxFsmMetaData} {t u : SegmentRun b α}

theorem load_eq {p : Nat}
    (hs : t.step sid isn stream (.load m p) = some u) :
    t.rx.fsm.fsmState = .LOAD ∧ m.sessionID = sid ∧ dataBits m.metaData = true ∧
      m.metaData.seqNumb = BitVec.ofNat 32 p ∧ t.near sid isn p = true ∧
      u = { t with rx := { t.rx with
              fsm := ⟨.TRANSITION, m, t.rx.fsm.fsmTxSarRequest || m.metaData.ack⟩
              reply := [t.entry sid], position := p
              payloads := t.rx.payloads ++ RxRun.payload stream m p } } := by
  unfold step at hs
  dsimp only at hs
  split at hs
  · next hg =>
      obtain ⟨hL, hid, hbits, hseq, hnear⟩ := hg
      refine ⟨hL, hid, hbits, hseq, hnear, ?_⟩
      rw [← Option.some.inj hs]
      simp only [loaded, rxTcpFSM, hL, loadRequests, hid, rxSarTable, RxSarRecvd.read,
        Bool.false_eq_true, if_false]
      rfl
  · cases hs

theorem takeTxSar_dataBits {m : RxEngineMetaData} (h : dataBits m = true) (e : RxTcpFsmEnv b)
    (txSar : RxTxSarReply b) : takeTxSar b e m [txSar] = (txSar, []) := by
  unfold takeTxSar
  cases hc : controlBits m with
  | syn => simp [dataBits, hc] at h
  | ack | synAck | fin | other => rfl

theorem finish_transition {e : RxTcpFsmEnv b} {txSar : RxTxSarReply b}
    (hs : t.step sid isn stream (.finish e txSar) = some u) : t.rx.fsm.fsmState = .TRANSITION := by
  obtain ⟨rx, hrx, -⟩ := Option.map_eq_some_iff.mp hs
  simp only [RxRun.step] at hrx
  split at hrx
  · assumption
  · cases hrx

variable {r : RxSarEntry b}

theorem finish_eq {t : SegmentRun b α} (hT : t.rx.fsm.fsmState = .TRANSITION)
    (h : t.Held sid r) (e : RxTcpFsmEnv b) (txSar : RxTxSarReply b) :
    let m := t.rx.fsm.fsmMeta
    let o := transition b e m t.tcpState r txSar
    let rx := t.rx.apply (RxRun.effect o)
    t.step sid isn stream (.finish e txSar) =
      some { rx, tcpState := written t.tcpState o.rxEng2stateTableUpdReq
             fin :=
               if controlBits m.metaData == .fin && finAccepted b m r t.tcpState then
                 some ⟨t.rx.recvdPos sid isn + m.metaData.length.toNat, rx.cmds.length, rx.notified⟩
               else t.fin } := by
  have htake := takeTxSar_dataBits h.bits e txSar
  unfold step
  dsimp only
  rw [RxRun.step, if_pos hT]
  simp only [rxTcpFSM, hT, h.reply, List.isEmpty_cons, Bool.and_false, htake, Option.map_some,
    RxRun.apply, RxRun.effect, takesFin, List.any_cons, List.any_nil, Bool.or_false]

theorem appRead_eq {len : BitVec 16}
    (hs : t.step sid isn stream (.appRead len) = some u) :
    ∃ rx, t.rx.step sid isn stream (.appRead len) = some rx ∧ u = { t with rx } := by
  obtain ⟨rx, hrx, rfl⟩ := Option.map_eq_some_iff.mp hs
  exact ⟨rx, hrx, rfl⟩

variable {s : SessionState}

theorem state_eq
    (hs : t.step sid isn stream (.state s) = some u) :
    (s = CLOSED ∨ s = FIN_WAIT_1 ∧ closable t.tcpState = true) ∧ u = { t with tcpState := s } := by
  unfold step at hs
  dsimp only at hs
  split at hs
  · exact ⟨‹_›, (Option.some.inj hs).symm⟩
  · cases hs

/-! ## Transitions -/

theorem transition_noInit (h : dataBits m.metaData = true) (e : RxTcpFsmEnv b)
    (tcpState : SessionState) (r : RxSarEntry b) (txSar : RxTxSarReply b) :
    ∀ q ∈ (transition b e m tcpState r txSar).rxEng2rxSarUpdReq, q.init = false := by
  intro q hq
  unfold transition at hq
  cases hc : controlBits m.metaData with
  | ack =>
    simp only [hc, transitionAck, ackPayload, ackPayloadBypass, ackPayloadDdr, keepPayload] at hq
    split_ifs at hq <;> simp only [List.mem_singleton, List.not_mem_nil] at hq <;> subst hq <;> rfl
  | fin =>
    simp only [hc, transitionFin] at hq
    split_ifs at hq
    · simp only [List.mem_singleton] at hq
      subst hq
      rfl
    all_goals cases hq
  | syn | synAck | other => simp [dataBits, hc] at h

/-- The states after an accepted FIN. -/
def closing (s : SessionState) : Bool :=
  s == LAST_ACK || s == CLOSING || s == TIME_WAIT || s == CLOSED

theorem ackNextState_closing (h : closing s = true) (m : RxFsmMetaData)
    (txSar : RxTxSarReply b) : closing (ackNextState b m txSar s).1 = true := by
  unfold ackNextState
  split
  · cases s with
    | LAST_ACK | CLOSING | TIME_WAIT | CLOSED => rfl
    | SYN_SENT | SYN_RECEIVED | ESTABLISHED | FIN_WAIT_1 | FIN_WAIT_2 => cases h
  · exact h

theorem finAccepted_closing (h : closing s = true) (m : RxFsmMetaData)
    (r : RxSarEntry b) : finAccepted b m r s = false := by
  unfold finAccepted
  cases s with
  | LAST_ACK | CLOSING | TIME_WAIT | CLOSED => rfl
  | SYN_SENT | SYN_RECEIVED | ESTABLISHED | FIN_WAIT_1 | FIN_WAIT_2 => cases h

theorem closable_closing (h : closing s = true) : closable s = false := by
  cases s with
  | LAST_ACK | CLOSING | TIME_WAIT | CLOSED => rfl
  | SYN_SENT | SYN_RECEIVED | ESTABLISHED | FIN_WAIT_1 | FIN_WAIT_2 => cases h

theorem transition_written (h : dataBits m.metaData = true) (e : RxTcpFsmEnv b)
    (tcpState : SessionState) (r : RxSarEntry b) (txSar : RxTxSarReply b) :
    written tcpState (transition b e m tcpState r txSar).rxEng2stateTableUpdReq =
      if controlBits m.metaData == .fin then
        if finAccepted b m r tcpState then (finNext b m txSar tcpState).1 else tcpState
      else if ackState tcpState then (ackNextState b m (ackTxSar b m txSar) tcpState).1 else tcpState := by
  unfold transition
  cases hc : controlBits m.metaData with
  | ack =>
    simp only [transitionAck]
    cases ackState tcpState <;> rfl
  | fin =>
    simp only [transitionFin]
    cases finAccepted b m r tcpState <;> rfl
  | syn | synAck | other => simp [dataBits, hc] at h

variable {tcpState : SessionState}

theorem closing_transition (h : dataBits m.metaData = true) (e : RxTcpFsmEnv b)
    (hs : closing tcpState = true) (r : RxSarEntry b) (txSar : RxTxSarReply b) :
    closing (written tcpState (transition b e m tcpState r txSar).rxEng2stateTableUpdReq) = true := by
  rw [transition_written h, finAccepted_closing hs]
  split
  · exact hs
  · split
    · exact ackNextState_closing hs m _
    · exact hs

theorem closing_fin (hc : controlBits m.metaData = .fin) (e : RxTcpFsmEnv b)
    (h : finAccepted b m r tcpState = true)
    (txSar : RxTxSarReply b) :
    closing (written tcpState (transition b e m tcpState r txSar).rxEng2stateTableUpdReq) = true := by
  rw [transition_written (by simp [dataBits, hc]), hc, h]
  simp only [beq_self_eq_true, if_true, finNext]
  split_ifs <;> rfl

theorem effect_fin_rejected (hc : controlBits m.metaData = .fin) (e : RxTcpFsmEnv b)
    (h : finAccepted b m r tcpState = false)
    (txSar : RxTxSarReply b) :
    RxRun.effect (transition b e m tcpState r txSar) =
      ⟨[], [], if m.metaData.length = 0 then [] else [true], []⟩ := by
  simp only [transition, hc, transitionFin, h, Bool.false_eq_true, if_false, RxRun.effect]

/-! ## Invariants -/

section Steps

variable {t u : SegmentRun b α} {mem : BitVec b.windowBits → α} {w : RxWindow (2 ^ b.windowBits)}

theorem held_step {l : SegmentLabel b} (h : t.rx.fsm.fsmState = .TRANSITION → ∃ r, t.Held sid r)
    (hs : t.step sid isn stream l = some u) :
    u.rx.fsm.fsmState = .TRANSITION → ∃ r, u.Held sid r := by
  intro hT
  cases l with
  | load m p =>
    obtain ⟨-, hid, hbits, hseq, -, rfl⟩ := load_eq hs
    exact ⟨t.entry sid, rfl, rfl, hid, hbits, hseq⟩
  | finish e txSar =>
    have hT' := finish_transition hs
    obtain ⟨r, hr⟩ := h hT'
    rw [finish_eq hT' hr] at hs
    cases hs
    cases hT
  | appRead len =>
    obtain ⟨rx, hrx, rfl⟩ := appRead_eq hs
    obtain ⟨-, rfl, hentry⟩ := RxRun.appRead_eq hrx
    obtain ⟨r, hr⟩ := h hT
    refine ⟨r, hr.reply, ?_, hr.session, hr.bits, hr.seqNumb⟩
    rw [entry, hentry]
    exact hr.entry
  | state s =>
    obtain ⟨-, rfl⟩ := state_eq hs
    obtain ⟨r, hr⟩ := h hT
    exact ⟨r, hr.reply, hr.entry, hr.session, hr.bits, hr.seqNumb⟩

theorem closing_step {l : SegmentLabel b} (h : t.rx.fsm.fsmState = .TRANSITION → ∃ r, t.Held sid r)
    (hc : t.fin ≠ none → closing t.tcpState = true) (hs : t.step sid isn stream l = some u) :
    u.fin ≠ none → closing u.tcpState = true := by
  intro hfin
  cases l with
  | load m p =>
    obtain ⟨-, -, -, -, -, rfl⟩ := load_eq hs
    exact hc hfin
  | finish e txSar =>
    have hT := finish_transition hs
    obtain ⟨r, hr⟩ := h hT
    rw [finish_eq hT hr] at hs
    cases hs
    dsimp only at hfin ⊢
    split at hfin
    · next ha =>
        rw [Bool.and_eq_true, beq_iff_eq] at ha
        exact closing_fin ha.1 e ha.2 txSar
    · exact closing_transition hr.bits e (hc hfin) r txSar
  | appRead len =>
    obtain ⟨rx, -, rfl⟩ := appRead_eq hs
    exact hc hfin
  | state s =>
    obtain ⟨hw, rfl⟩ := state_eq hs
    rcases hw with rfl | ⟨rfl, hclose⟩
    · rfl
    · rw [closable_closing (hc hfin)] at hclose
      cases hclose

/-- The held segment beside the abstract window: what the table answered was right when the
application had read up to `appd`. -/
structure Placed (sid : SessionID) (t : SegmentRun b α) (w : RxWindow (2 ^ b.windowBits))
    (r : RxSarEntry b) (appd : Nat) : Prop where
  held : t.Held sid r
  answered : r.appd = BitVec.ofNat _ appd
  appd_le : appd ≤ w.appd
  fits : w.head < appd + 2 ^ b.windowBits
  located : Located w t.rx.position

theorem Placed.represents {appd : Nat} (h : Placed sid t w r appd)
    (hw : RxRun.Base sid isn stream mem t.rx w) : Represents r.recvd r.head r.offset r.gap w := by
  rw [h.held.entry]
  exact hw.represents

theorem near_located (hw : RxRun.Base sid isn stream mem t.rx w) {p : Nat}
    (h : t.near sid isn p = true) : Located w p := by
  simp only [near, hw.recvdPos_eq, Bool.and_eq_true, decide_eq_true_eq] at h
  intro q hlo hhi hq
  have h1 := w.appd_le
  have h2 := w.bounded
  have h3 := two_pow_windowBits_lt b
  exact ofNat_inj hq (by omega) (by omega)

theorem base_load {p : Nat} (hw : RxRun.Base sid isn stream mem t.rx w)
    (hs : t.step sid isn stream (.load m p) = some u) :
    RxRun.Base sid isn stream mem u.rx w ∧ Placed sid u w (t.entry sid) w.appd := by
  obtain ⟨hL, hid, hbits, hseq, hnear, rfl⟩ := load_eq hs
  have hjudged := hw.judged.load (u := { t.rx with
      fsm := ⟨.TRANSITION, m, t.rx.fsm.fsmTxSarRequest || m.metaData.ack⟩
      reply := [t.entry sid], position := p
      payloads := t.rx.payloads ++ RxRun.payload stream m p }) hL rfl rfl rfl rfl
  obtain ⟨hjudged, hring⟩ := hjudged
  refine ⟨⟨hw.represents, hw.appd, hw.read, hw.notified, ?_, hjudged⟩, ⟨rfl, rfl, hid, hbits, hseq⟩,
    hw.appd, Nat.le_refl _, w.bounded, near_located hw hnear⟩
  rw [hring]
  exact hw.stored

theorem base_appRead {len : BitVec 16} (hw : RxRun.Base sid isn stream mem t.rx w)
    (hs : t.step sid isn stream (.appRead len) = some u) :
    ∃ hle : w.appd + len.toNat ≤ w.recvd,
      RxRun.Base sid isn stream mem u.rx (w.take len.toNat hle) ∧
      ∀ r appd, Placed sid t w r appd → Placed sid u (w.take len.toNat hle) r appd := by
  obtain ⟨rx, hrx, rfl⟩ := appRead_eq hs
  obtain ⟨hle, hw'⟩ := hw.appRead hrx
  obtain ⟨-, rfl, hentry⟩ := RxRun.appRead_eq hrx
  refine ⟨hle, hw', fun r appd h => ⟨⟨h.held.reply, ?_, h.held.session, h.held.bits, h.held.seqNumb⟩,
    h.answered, ?_, h.fits, h.located⟩⟩
  · rw [entry, hentry]
    exact h.held.entry
  · exact Nat.le_trans h.appd_le (Nat.le_add_right ..)

/-- A finished segment, unless it is a FIN that is accepted, keeps the abstract window or delivers
its payload into it. -/
theorem base_finish {e : RxTcpFsmEnv b} {txSar : RxTxSarReply b} {appd : Nat}
    (hb : b.rxDdrBypass = false) (hw : RxRun.Base sid isn stream mem t.rx w)
    (hp : Placed sid t w r appd) (hreg : t.regular sid isn (.finish e txSar) = true)
    (hs : t.step sid isn stream (.finish e txSar) = some u) :
    (controlBits t.rx.fsm.fsmMeta.metaData = .fin ∧
      finAccepted b t.rx.fsm.fsmMeta r t.tcpState = true) ∨
    u.fin = t.fin ∧ ∃ w', RxRun.Base sid isn stream mem u.rx w' ∧ w'.appd = w.appd := by
  have hT := finish_transition hs
  rw [finish_eq hT hp.held] at hs
  cases hs
  dsimp only
  cases hc : controlBits t.rx.fsm.fsmMeta.metaData with
  | syn | synAck | other =>
    have := hp.held.bits
    simp [dataBits, hc] at this
  | fin =>
    cases ha : finAccepted b t.rx.fsm.fsmMeta r t.tcpState with
    | true => exact .inl ⟨rfl, rfl⟩
    | false =>
      right
      refine ⟨rfl, w, ?_, rfl⟩
      rw [effect_fin_rejected hc e ha]
      exact (RxRun.inv_unchanged hw hT rfl).base
  | ack =>
    right
    refine ⟨rfl, ?_⟩
    have ho : RxRun.effect (transition b e t.rx.fsm.fsmMeta t.tcpState r txSar) =
        RxRun.effect (transitionAck b e t.rx.fsm.fsmMeta r txSar t.tcpState) := by
      simp only [transition, hc]
    have hreg' : t.rx.fsm.fsmMeta.metaData.length = 0 ∨ ackState t.tcpState = false ∨
        ((outOfOrder b t.rx.fsm.fsmMeta r = true →
            InWindow w (w.appd + 2 ^ b.windowBits) t.rx.position t.rx.fsm.fsmMeta.metaData.length.toNat) ∧
          (afterRecvd b t.rx.fsm.fsmMeta r = true →
            segmentEndWide t.rx.fsm.fsmMeta ≤ r.offset.toNat)) := by
      simp only [regular, hc, hp.held.reply, inWindow, hw.recvdPos_eq, ← hw.read, Build.bufferSize,
        List.all_cons, List.all_nil, Bool.and_true, Bool.or_eq_true, Bool.and_eq_true,
        Bool.not_eq_true', decide_eq_true_eq, or_assoc] at hreg
      rcases hreg with hf | hl | hst | ⟨hwin, hover⟩
      · cases hf
      · exact .inl hl
      · exact .inr (.inl hst)
      · refine .inr (.inr ⟨fun h => ?_, fun h => ?_⟩)
        · exact hwin.resolve_left fun hn => Bool.false_ne_true (hn.symm.trans h)
        · exact hover.resolve_left fun hn => Bool.false_ne_true (hn.symm.trans h)
    rw [ho]
    have hread (o : RxRun.Effect b) : (t.rx.apply o).appdPos isn = t.rx.appdPos isn := rfl
    rcases RxRun.ackEffect_cases hb (hp.represents hw) hp.answered hp.appd_le hp.fits hp.held.seqNumb
        hp.located e t.tcpState txSar hreg' with ⟨hl, ho⟩ | ⟨hl, ho⟩ | ⟨hl, w', p', ho, hacc⟩
    · rw [ho]
      exact ⟨w, (RxRun.inv_unchanged hw hT (by rw [if_pos hl])).base, rfl⟩
    · rw [ho]
      exact ⟨w, (RxRun.inv_unchanged hw hT (by rw [if_neg hl])).base, rfl⟩
    · rw [ho]
      have hw' := (RxRun.inv_accepted hw hT hp.held.session hp.held.seqNumb hl hacc).base
      refine ⟨w', hw', ?_⟩
      rw [hw'.read, hread, hw.read]

end Steps

end SegmentRun

end FpgaNetworkStack.Toe
