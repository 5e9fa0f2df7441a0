import FpgaNetworkStack.Toe.SegmentRun

/-!
# Acceptance of a FIN

The FIN branch of `rxTcpFSM` takes the payload of an in-order FIN without looking at the room in the
buffer and at the gap, and in two of the states after it data is still taken.  Where none of this
happens the FIN is the end of the stream: everything before it is in the buffer or has been read, and
nothing is written or announced after it.
-/

namespace FpgaNetworkStack.Toe

open Lib SessionState

variable {b : Build}

namespace SegmentRun

variable {α : Type} (sid : SessionID) (isn : BitVec 32) (stream : Nat → α)

/-- The payload of the loaded segment fits behind `recvd` without reaching what the application has
not read yet. -/
def finFits (t : SegmentRun b α) : Bool :=
  let e := t.entry sid
  let length := t.rx.fsm.fsmMeta.metaData.length
  decide (length = 0) || decide (e.appd = e.recvd.setWidth _) ||
    decide (length.toNat ≤ (e.appd - e.recvd.setWidth _).toNat)

/-- A FIN is accepted only without a gap and with room for its payload; after it no payload is
accepted.  Before it the steps are regular. -/
def orderly (t : SegmentRun b α) : SegmentLabel b → Bool
  | .finish e txSar =>
    let m := t.rx.fsm.fsmMeta
    match t.fin with
    | none =>
      t.regular sid isn (.finish e txSar) &&
        (!t.takesFin || !(t.entry sid).gap && t.finFits sid)
    | some _ =>
      controlBits m.metaData == .fin || decide (m.metaData.length = 0) || !ackState t.tcpState ||
        t.rx.reply.all fun r => !inOrder b m r && !outOfOrder b m r
  | _ => true

/-- The stream ends at the FIN `f`. -/
structure Ended (mem : BitVec b.windowBits → α) (t : SegmentRun b α) (f : FinMark) : Prop where
  gap : (t.entry sid).gap = false
  recvd : (t.entry sid).recvd = BitVec.ofNat 32 (f.position + 1)
  head : (t.entry sid).head = BitVec.ofNat 32 (f.position + 1)
  read : t.rx.read ≤ t.rx.notified
  announced : isn.toNat + 1 + t.rx.notified ≤ f.position
  stored : Holds (t.rx.ring mem) stream (t.rx.appdPos isn) f.position
  commands : t.rx.cmds.length = f.commands
  notified : t.rx.notified = f.notified

structure Inv (mem : BitVec b.windowBits → α) (t : SegmentRun b α) : Prop where
  held : t.rx.fsm.fsmState = .TRANSITION → ∃ r, t.Held sid r
  closing : t.fin ≠ none → closing t.tcpState = true
  before : t.fin = none → ∃ w, RxRun.Base sid isn stream mem t.rx w ∧
    (t.rx.fsm.fsmState = .TRANSITION → ∃ r appd, Placed sid t w r appd)
  after : ∀ f, t.fin = some f → t.Ended sid isn stream mem f ∧ t.rx.Judged stream

variable {sid isn stream}

/-! ## The accepted FIN -/

variable {r : RxSarEntry b}

theorem effect_fin_accepted {m : RxFsmMetaData} (hc : controlBits m.metaData = .fin)
    (hb : b.rxDdrBypass = false) (e : RxTcpFsmEnv b) {tcpState : SessionState}
    (h : finAccepted b m r tcpState = true) (txSar : RxTxSarReply b) :
    ∃ notified, (notified.map (·.length.toNat)).sum = m.metaData.length.toNat ∧
      RxRun.effect (transition b e m tcpState r txSar) =
        ⟨[.update m.sessionID (segmentEnd m + 1) (segmentEnd m + 1) r.offset r.gap], notified,
          if m.metaData.length = 0 then [] else [false],
          if m.metaData.length = 0 then [] else [writeCmd b m]⟩ := by
  refine ⟨(finPayload b m tcpState).rxEng2rxAppNotification, ?_, ?_⟩
  · unfold finPayload
    by_cases hl : m.metaData.length = 0
    · rw [if_neg (not_not.mpr hl), hl]
      split <;> rfl
    · rw [if_pos hl]
      rfl
  · simp only [transition, hc, transitionFin, h, if_true, RxRun.effect, finPayload]
    by_cases hl : m.metaData.length = 0
    · rw [if_neg (not_not.mpr hl), if_pos hl, if_pos hl]
      split <;> rfl
    · rw [if_pos hl, if_neg hl, if_neg hl, hb]
      rfl

variable {t u : SegmentRun b α} {mem : BitVec b.windowBits → α} {w : RxWindow (2 ^ b.windowBits)}

theorem finFits_room (hw : RxRun.Base sid isn stream mem t.rx w) (h : t.finFits sid = true) :
    t.rx.fsm.fsmMeta.metaData.length = 0 ∨ w.appd = w.recvd ∨
      w.recvd + t.rx.fsm.fsmMeta.metaData.length.toNat ≤ w.appd + 2 ^ b.windowBits := by
  have h1 := w.appd_le
  have h2 := w.bounded
  have h3 := w.recvd_le_head
  have hrecvd : (t.entry sid).recvd.setWidth b.windowBits = BitVec.ofNat _ w.recvd := by
    rw [entry, hw.represents.recvd, setWidth_ofNat b.windowBits_le]
  have happd : (t.entry sid).appd = BitVec.ofNat _ w.appd := hw.appd
  simp only [finFits, hrecvd, happd, Bool.or_eq_true, decide_eq_true_eq, or_assoc] at h
  rcases h with hl | he | hl
  · exact .inl hl
  · exact .inr (.inl (ofNat_inj he (by omega) (by omega)))
  · right
    rcases Nat.eq_or_lt_of_le h1 with heq | hlt
    · exact .inl heq
    · right
      rw [← ofNat_add_two_pow w.appd, ofNat_sub_toNat (by omega) (by omega)] at hl
      omega

/-- Where the payload fits, accepting the FIN ends the stream. -/
theorem ended_fin {appd : Nat} {e : RxTcpFsmEnv b} {txSar : RxTxSarReply b}
    (hb : b.rxDdrBypass = false) (hw : RxRun.Base sid isn stream mem t.rx w)
    (hp : Placed sid t w r appd) (hT : t.rx.fsm.fsmState = .TRANSITION)
    (hc : controlBits t.rx.fsm.fsmMeta.metaData = .fin)
    (ha : finAccepted b t.rx.fsm.fsmMeta r t.tcpState = true)
    (hgap : (t.entry sid).gap = false) (hfits : t.finFits sid = true) :
    let rx := t.rx.apply (RxRun.effect (transition b e t.rx.fsm.fsmMeta t.tcpState r txSar))
    let f : FinMark := ⟨t.rx.recvdPos sid isn + t.rx.fsm.fsmMeta.metaData.length.toNat, rx.cmds.length,
      rx.notified⟩
    ∀ s fin, Ended sid isn stream mem ⟨rx, s, fin⟩ f ∧ rx.Judged stream := by
  obtain ⟨notified, hsum, heff⟩ := effect_fin_accepted hc hb e ha txSar
  intro rx f s fin
  have hrx : rx = t.rx.apply ⟨_, notified, _, _⟩ := congrArg t.rx.apply heff
  have hrep := hp.represents hw
  -- the FIN is at `recvd`
  have hseq : t.rx.fsm.fsmMeta.metaData.seqNumb = r.recvd := by
    simp only [finAccepted, Bool.and_eq_true, beq_iff_eq] at ha
    exact ha.2.symm
  have hpos : t.rx.position = w.recvd :=
    hp.located _ (Nat.le_refl _) w.recvd_le_head (hp.held.seqNumb.symm.trans (hseq.trans hrep.recvd))
  have hf : f.position = w.recvd + t.rx.fsm.fsmMeta.metaData.length.toNat :=
    congrArg (· + _) hw.recvdPos_eq
  have hend : segmentEnd t.rx.fsm.fsmMeta + 1 = BitVec.ofNat 32 (f.position + 1) := by
    rw [segmentEnd_eq (hseq.trans hrep.recvd), hf, BitVec.ofNat_add _ 1]
    rfl
  have hentry : rx.entry sid = (t.entry sid).recvdUpdate b
      (.update sid (BitVec.ofNat 32 (f.position + 1)) (BitVec.ofNat 32 (f.position + 1)) r.offset r.gap) := by
    rw [hrx, hend, hp.held.session]
    simp only [RxRun.entry, RxRun.apply]
    rw [rxSarTable_recvdWrite _ rfl]
    exact Function.update_self ..
  have hring : rx.Judged stream ∧ Holds (rx.ring mem) stream w.appd f.position := by
    rw [hrx, hf]
    by_cases hl : t.rx.fsm.fsmMeta.metaData.length = 0
    · simp only [if_pos hl]
      obtain ⟨hj, hring⟩ := hw.judged.drop hT _ notified (if_pos hl).symm
      refine ⟨hj, ?_⟩
      rw [hring, hl]
      exact hw.stored.1
    · simp only [if_neg hl]
      obtain ⟨hj, hring⟩ := hw.judged.keep hT hl hp.held.seqNumb _ notified
      refine ⟨hj, ?_⟩
      rw [hring, hpos]
      have hlen : t.rx.fsm.fsmMeta.metaData.length.toNat ≤ 2 ^ b.windowBits := by
        have := t.rx.fsm.fsmMeta.metaData.length.isLt
        exact Nat.le_trans (Nat.le_of_lt this) (Nat.pow_le_pow_right (by decide) b.le_windowBits)
      have hnew := Holds.write_self (t.rx.ring mem) stream w.recvd hlen
      rcases finFits_room hw hfits with h0 | he | hroom
      · exact absurd h0 hl
      · rw [he]
        exact hnew
      · have hold := hw.stored.1.write w.appd (Nat.le_refl _)
          (by have := w.bounded; have := w.recvd_le_head; omega) w.appd_le hroom
        exact hold.append hnew
  have hnotified : rx.notified = t.rx.notified + t.rx.fsm.fsmMeta.metaData.length.toNat := by
    rw [hrx, ← hsum]
    rfl
  have hread : rx.read = t.rx.read := by rw [hrx]; rfl
  have hnot := hw.notified
  refine ⟨⟨?_, ?_, ?_, ?_, ?_, ?_, rfl, rfl⟩, hring.1⟩
  · change (rx.entry sid).gap = false
    rw [hentry]
    change r.gap = false
    rw [hp.held.entry]
    exact hgap
  · change (rx.entry sid).recvd = _
    rw [hentry]
    rfl
  · change (rx.entry sid).head = _
    rw [hentry]
    rfl
  · change rx.read ≤ rx.notified
    omega
  · change isn.toNat + 1 + rx.notified ≤ f.position
    omega
  · have happd : rx.appdPos isn = w.appd := by
      rw [hw.read, RxRun.appdPos, hread, RxRun.appdPos]
    change Holds (rx.ring mem) stream (rx.appdPos isn) f.position
    rw [happd]
    exact hring.2

/-! ## After the FIN -/

theorem effect_ack_dropped {m : RxFsmMetaData} (hc : controlBits m.metaData = .ack)
    (hb : b.rxDdrBypass = false) (e : RxTcpFsmEnv b) {tcpState : SessionState}
    (hgap : r.gap = false) (txSar : RxTxSarReply b)
    (h : m.metaData.length = 0 ∨ ackState tcpState = false ∨
      inOrder b m r = false ∧ outOfOrder b m r = false) :
    RxRun.effect (transition b e m tcpState r txSar) =
      ⟨[], [], if m.metaData.length = 0 then [] else [true], []⟩ := by
  simp only [transition, hc, transitionAck]
  by_cases hl : m.metaData.length = 0
  · cases ackState tcpState <;> simp [RxRun.effect, ackPayload, hl]
  · rcases h with h0 | hs | ⟨ho, hn⟩
    · exact absurd h0 hl
    · simp only [hs, Bool.false_eq_true, if_false, RxRun.effect]
    · cases hs : ackState tcpState with
      | false => simp only [Bool.false_eq_true, if_false, RxRun.effect]
      | true =>
        simp only [if_true, RxRun.effect, ackPayload, ackPayloadDdr, hb, ho, hn, afterHead,
          afterRecvd, hgap, if_neg hl, Bool.false_and, Bool.false_eq_true, if_false]

variable {l : SegmentLabel b}

/-- Where nothing is accepted after the FIN, the stream stays at its end. -/
theorem ended_step {f : FinMark} (hb : b.rxDdrBypass = false)
    (hheld : t.rx.fsm.fsmState = .TRANSITION → ∃ r, t.Held sid r)
    (hclosing : closing t.tcpState = true) (hfin : t.fin = some f)
    (h : t.Ended sid isn stream mem f) (hj : t.rx.Judged stream)
    (hok : t.orderly sid isn l = true) (hs : t.step sid isn stream l = some u) :
    u.fin = some f ∧ u.Ended sid isn stream mem f ∧ u.rx.Judged stream := by
  cases l with
  | load m p =>
    obtain ⟨hL, -, -, -, -, rfl⟩ := load_eq hs
    have hjudged := hj.load (u := { t.rx with
        fsm := ⟨.TRANSITION, m, t.rx.fsm.fsmTxSarRequest || m.metaData.ack⟩
        reply := [t.entry sid], position := p
        payloads := t.rx.payloads ++ RxRun.payload stream m p }) hL rfl rfl rfl rfl
    obtain ⟨hjudged, hring⟩ := hjudged
    refine ⟨hfin, { h with stored := ?_ }, hjudged⟩
    rw [hring]
    exact h.stored
  | finish e txSar =>
    have hT := finish_transition hs
    obtain ⟨r, hr⟩ := hheld hT
    have hgap : r.gap = false := by
      rw [hr.entry]
      exact h.gap
    rw [finish_eq hT hr, finAccepted_closing hclosing] at hs
    cases hs
    have heff : RxRun.effect (transition b e t.rx.fsm.fsmMeta t.tcpState r txSar) =
        ⟨[], [], if t.rx.fsm.fsmMeta.metaData.length = 0 then [] else [true], []⟩ := by
      cases hc : controlBits t.rx.fsm.fsmMeta.metaData with
      | fin => exact effect_fin_rejected hc e (finAccepted_closing hclosing ..) txSar
      | ack =>
        apply effect_ack_dropped hc hb e hgap
        simpa [orderly, hfin, hc, hr.reply, or_assoc] using hok
      | syn | synAck | other =>
        have := hr.bits
        simp [dataBits, hc] at this
    obtain ⟨hjudged, hring⟩ := hj.drop hT [] [] rfl
    rw [heff]
    simp only [Bool.and_false, Bool.false_eq_true, if_false]
    refine ⟨hfin, { h with stored := ?_, commands := ?_ }, hjudged⟩
    · rw [hring]
      exact h.stored
    · rw [← h.commands]
      simp [RxRun.apply]
  | appRead len =>
    obtain ⟨rx, hrx, rfl⟩ := appRead_eq hs
    obtain ⟨hle, rfl, hentry⟩ := RxRun.appRead_eq hrx
    refine ⟨hfin, ⟨?_, ?_, ?_, hle, h.announced, ?_, h.commands, h.notified⟩, hj⟩
    · rw [entry, hentry]
      exact h.gap
    · rw [entry, hentry]
      exact h.recvd
    · rw [entry, hentry]
      exact h.head
    · refine h.stored.mono ?_ (Nat.le_refl _)
      simp only [RxRun.appdPos]
      omega
  | state s =>
    obtain ⟨-, rfl⟩ := state_eq hs
    exact ⟨hfin, { h with }, hj⟩

/-! ## Every run -/

theorem inv_init (rxTable : SessionID → RxSarEntry b) (winShift : BitVec 4) (tcpState : SessionState) :
    Inv sid isn stream mem (init sid isn rxTable winShift tcpState) := by
  refine ⟨?_, ?_, fun _ => ⟨_, (RxRun.inv_init mem rxTable winShift).base, ?_⟩, ?_⟩
  · intro hT
    cases hT
  · intro hfin
    exact absurd rfl hfin
  · intro hT
    cases hT
  · intro f hf
    cases hf

/-- Before the FIN, a step keeps the window or is the one that accepts it. -/
theorem before_step (hb : b.rxDdrBypass = false)
    (hw : RxRun.Base sid isn stream mem t.rx w)
    (hload : t.rx.fsm.fsmState = .TRANSITION → ∃ r appd, Placed sid t w r appd) (hfin : t.fin = none)
    (hok : t.orderly sid isn l = true) (hs : t.step sid isn stream l = some u) :
    (u.fin = none ∧ ∃ w', RxRun.Base sid isn stream mem u.rx w' ∧
      (u.rx.fsm.fsmState = .TRANSITION → ∃ r appd, Placed sid u w' r appd)) ∨
    ∃ f, u.fin = some f ∧ u.Ended sid isn stream mem f ∧ u.rx.Judged stream := by
  cases l with
  | load m p =>
    obtain ⟨hw', hp⟩ := base_load hw hs
    obtain ⟨-, -, -, -, -, rfl⟩ := load_eq hs
    exact .inl ⟨hfin, w, hw', fun _ => ⟨_, _, hp⟩⟩
  | appRead len =>
    obtain ⟨hle, hw', hp⟩ := base_appRead hw hs
    obtain ⟨rx, hrx, rfl⟩ := appRead_eq hs
    obtain ⟨-, rfl, -⟩ := RxRun.appRead_eq hrx
    refine .inl ⟨hfin, _, hw', fun hT => ?_⟩
    obtain ⟨r, appd, h⟩ := hload hT
    exact ⟨r, appd, hp r appd h⟩
  | state s =>
    obtain ⟨-, rfl⟩ := state_eq hs
    refine .inl ⟨hfin, w, hw, fun hT => ?_⟩
    obtain ⟨r, appd, h⟩ := hload hT
    exact ⟨r, appd, ⟨h.held.reply, h.held.entry, h.held.session, h.held.bits, h.held.seqNumb⟩,
      h.answered, h.appd_le, h.fits, h.located⟩
  | finish e txSar =>
    have hT := finish_transition hs
    obtain ⟨r, appd, hp⟩ := hload hT
    simp only [orderly, hfin, Bool.and_eq_true, Bool.or_eq_true, Bool.not_eq_true'] at hok
    obtain ⟨hreg, hroom⟩ := hok
    rcases base_finish hb hw hp hreg hs with ⟨hc, ha⟩ | ⟨hfin', w', hw', -⟩
    · right
      have htakes : t.takesFin = true := by
        simp [takesFin, hc, hp.held.reply, ha]
      obtain ⟨hgap, hfits⟩ := hroom.resolve_left fun hn => Bool.false_ne_true (hn.symm.trans htakes)
      rw [finish_eq hT hp.held, hc, ha] at hs
      cases hs
      exact ⟨_, rfl, ended_fin hb hw hp hT hc ha hgap hfits _ _⟩
    · left
      refine ⟨hfin'.trans hfin, w', hw', fun hT' => ?_⟩
      rw [finish_eq hT hp.held] at hs
      cases hs
      cases hT'

theorem inv_step (hb : b.rxDdrBypass = false) (h : Inv sid isn stream mem t)
    (hok : t.orderly sid isn l = true) (hs : t.step sid isn stream l = some u) :
    Inv sid isn stream mem u := by
  refine ⟨held_step h.held hs, closing_step h.held h.closing hs, ?_, ?_⟩
  · intro hu
    cases hfin : t.fin with
    | some f =>
      have hc := h.closing (by rw [hfin]; exact Option.some_ne_none f)
      obtain ⟨he, hj⟩ := h.after f hfin
      obtain ⟨hf, -⟩ := ended_step hb h.held hc hfin he hj hok hs
      rw [hf] at hu
      cases hu
    | none =>
      obtain ⟨w, hw, hload⟩ := h.before hfin
      rcases before_step hb hw hload hfin hok hs with ⟨-, hw'⟩ | ⟨f, hf, -⟩
      · exact hw'
      · rw [hf] at hu
        cases hu
  · intro f hu
    cases hfin : t.fin with
    | some f' =>
      have hc := h.closing (by rw [hfin]; exact Option.some_ne_none f')
      obtain ⟨he, hj⟩ := h.after f' hfin
      obtain ⟨hf, he'⟩ := ended_step hb h.held hc hfin he hj hok hs
      rw [hf] at hu
      cases hu
      exact he'
    | none =>
      obtain ⟨w, hw, hload⟩ := h.before hfin
      rcases before_step hb hw hload hfin hok hs with ⟨hn, -⟩ | ⟨f', hf, he⟩
      · rw [hn] at hu
        cases hu
      · rw [hf] at hu
        cases hu
        exact he

/-- A FIN accepted without a gap and with room for its payload is the end of the stream, and stays it
while no payload is accepted after it. -/
theorem fin_acceptance (hb : b.rxDdrBypass = false) (sid : SessionID) (isn : BitVec 32)
    (stream : Nat → α) (mem : BitVec b.windowBits → α) (rxTable : SessionID → RxSarEntry b)
    (winShift : BitVec 4) (tcpState : SessionState) (t : SegmentRun b α)
    (h : Reach (step sid isn stream) (fun t l => t.orderly sid isn l = true)
      (init sid isn rxTable winShift tcpState) t) :
    ∀ f, t.fin = some f → t.Ended sid isn stream mem f := by
  have hinv : Inv sid isn stream mem t :=
    h.invariant (P := Inv sid isn stream mem) (inv_init rxTable winShift tcpState)
      fun _ _ _ hu hok hs => inv_step hb hu hok hs
  exact fun f hf => (hinv.after f hf).1

/-! ### Four runs -/

/-- An ACK segment of `length` bytes at position `p`, finished. -/
def handle (b : Build) (p : Nat) (length : BitVec 16) : List (SegmentLabel b) :=
  [.load (RxRun.ackSegment (BitVec.ofNat 32 p) length) p, .finish ⟨default, 0, 0⟩ default]

def handleFin (b : Build) (p : Nat) (length : BitVec 16) : List (SegmentLabel b) :=
  [.load { RxRun.ackSegment (BitVec.ofNat 32 p) length with
            metaData := { (RxRun.ackSegment (BitVec.ofNat 32 p) length).metaData with fin := true } } p,
    .finish ⟨default, 0, 0⟩ default]

def unscaled : Build := { Build.sample with windowScale := false }

/-- 60000 bytes that the application does not read, and a FIN with 10000 more. -/
def overrunRun : List (SegmentLabel unscaled) := handle unscaled 1 60000 ++ handleFin unscaled 60001 10000

/-- A FIN in front of a premature block. -/
def gapRun : List (SegmentLabel .sample) := handle .sample 2 10 ++ handleFin .sample 1 0

/-- Ten bytes behind the FIN of an established session. -/
def lateRun : List (SegmentLabel .sample) := handleFin .sample 1 0 ++ handle .sample 2 10

theorem overrun_payloads :
    (run (step 0 0 fun n => n) (init 0 0 (fun _ => default) 0 ESTABLISHED) overrunRun).map
      (fun t => t.rx.payloads) = some [slice (fun n => n) 1 60000, slice (fun n => n) 60001 10000] := rfl

theorem ring_second {t : RxRun b α} {c c' : MmCmd} {packet : List α} {p len n : Nat}
    (hcmds : t.cmds = [c, c']) (hpayloads : t.payloads = [packet, slice stream p len])
    (hverdicts : t.verdicts = [false, false]) (haddr : c'.saddr.setWidth b.windowBits = BitVec.ofNat _ p)
    (hlen : c'.bbt.toNat = len) (hlo : p ≤ n) (hhi : n < p + len) (hfit : len ≤ 2 ^ b.windowBits) :
    t.ring mem (BitVec.ofNat _ n) = stream n := by
  rw [RxRun.ring, hpayloads, hcmds, hverdicts]
  simp only [ringBuffer, forwarded, List.zip_cons_cons, List.zip_nil_left, List.filter_cons,
    List.filter_nil, Bool.not_false, if_true, List.map_cons, List.map_nil, List.foldl_cons,
    List.foldl_nil, haddr, hlen]
  rw [List.take_of_length_le (Nat.le_of_eq (slice_length ..))]
  exact ringWrite_inside _ stream hlo hhi hfit

theorem overrun_ring {t : SegmentRun unscaled Nat}
    (h : run (step 0 0 fun n => n) (init 0 0 (fun _ => default) 0 ESTABLISHED) overrunRun = some t) :
    t.rx.ring (fun _ => 0) (BitVec.ofNat _ 1) = 65537 := by
  have hx : (run (step 0 0 fun n => n) (init 0 0 (fun _ => default) 0 ESTABLISHED) overrunRun).map
      (fun t => (t.rx.cmds, t.rx.verdicts)) =
      some ([⟨60000, 1⟩, ⟨10000, 60001⟩], [false, false]) := by
    decide +kernel
  have hp := overrun_payloads
  rw [h] at hx hp
  obtain ⟨hcmds, hverdicts⟩ := Prod.mk.inj (Option.some.inj hx)
  have hcell : BitVec.ofNat unscaled.windowBits 1 = BitVec.ofNat _ 65537 := by decide
  rw [hcell]
  have hlast : t.rx.ring (fun _ => 0) (BitVec.ofNat _ 65537) = (fun n => n) 65537 :=
    ring_second hcmds (Option.some.inj hp) hverdicts (by decide) (by decide) (by decide) (by decide)
      (by decide)
  exact hlast

-- Unread bytes are overwritten, the gap stays open, and data behind the FIN is announced.
theorem fin_not_the_end :
    (∃ t f, run (step 0 0 fun n => n) (init 0 0 (fun _ => default) 0 ESTABLISHED) overrunRun = some t ∧
      t.fin = some f ∧ t.rx.read = 0 ∧ t.rx.ring (fun _ => 0) (BitVec.ofNat _ 1) = 65537 ∧
      ¬ t.Ended 0 0 (fun n => n) (fun _ => 0) f) ∧
    (∃ t f, run (step 0 0 fun n => n) (init 0 0 (fun _ => default) 0 ESTABLISHED) gapRun = some t ∧
      t.fin = some f ∧ (t.entry 0).gap = true ∧ ¬ t.Ended 0 0 (fun n => n) (fun _ => 0) f) ∧
    (∃ t f, run (step 0 0 fun n => n) (init 0 0 (fun _ => default) 0 ESTABLISHED) lateRun = some t ∧
      t.fin = some f ∧ f.position = 1 ∧ t.rx.notified = 10 ∧
      ¬ t.Ended 0 0 (fun n => n) (fun _ => 0) f) := by
  have hover : (run (step 0 0 fun n => n) (init 0 0 (fun _ => default) 0 ESTABLISHED) overrunRun).map
      (fun t => (t.fin, t.rx.read)) = some (some ⟨70001, 2, 70000⟩, 0) := by
    decide +kernel
  have hgap : (run (step 0 0 fun n => n) (init 0 0 (fun _ => default) 0 ESTABLISHED) gapRun).map
      (fun t => (t.fin, (t.entry 0).gap)) = some (some ⟨1, 1, 0⟩, true) := by
    decide +kernel
  have hlate : (run (step 0 0 fun n => n) (init 0 0 (fun _ => default) 0 ESTABLISHED) lateRun).map
      (fun t => (t.fin, t.rx.notified)) = some (some ⟨1, 0, 0⟩, 10) := by
    decide +kernel
  refine ⟨?_, ?_, ?_⟩
  · obtain ⟨t, ht, hx⟩ := Option.map_eq_some_iff.mp hover
    obtain ⟨hfin, hread⟩ := Prod.mk.inj hx
    have hring := overrun_ring ht
    refine ⟨t, _, ht, hfin, hread, hring, fun he => ?_⟩
    have hcell := he.stored 1 (by rw [RxRun.appdPos, hread]; decide) (by decide)
    rw [hring] at hcell
    revert hcell
    decide
  · obtain ⟨t, ht, hx⟩ := Option.map_eq_some_iff.mp hgap
    obtain ⟨hfin, hopen⟩ := Prod.mk.inj hx
    refine ⟨t, _, ht, hfin, hopen, fun he => ?_⟩
    exact Bool.false_ne_true (he.gap.symm.trans hopen)
  · obtain ⟨t, ht, hx⟩ := Option.map_eq_some_iff.mp hlate
    obtain ⟨hfin, hnot⟩ := Prod.mk.inj hx
    refine ⟨t, _, ht, hfin, rfl, hnot, fun he => ?_⟩
    have hsame := he.notified
    rw [hnot] at hsame
    cases hsame

/-- Data, a FIN with data, a read of the application, and a late segment in `TIME_WAIT`. -/
def endRun : List (SegmentLabel .sample) :=
  handle .sample 1 10 ++ [.state FIN_WAIT_1] ++ handleFin .sample 11 5 ++ [.appRead 12] ++
    handle .sample 17 3

theorem fin_acceptance_data :
    ∃ t, runIf (step 0 0 fun n => n) (fun t l => t.orderly 0 0 l = true)
        (init 0 0 (fun _ => default) 0 ESTABLISHED) endRun = some t ∧
      t.rx.read = 12 ∧ t.Ended 0 0 (fun n => n) (fun _ => 0) ⟨16, 2, 15⟩ := by
  have h : (runIf (step 0 0 fun n => n) (fun t l => t.orderly 0 0 l = true)
      (init 0 0 (fun _ => default) 0 ESTABLISHED) endRun).map (fun t => (t.rx.read, t.fin)) =
      some (12, some ⟨16, 2, 15⟩) := by
    decide +kernel
  obtain ⟨t, ht, hx⟩ := Option.map_eq_some_iff.mp h
  obtain ⟨hread, hfin⟩ := Prod.mk.inj hx
  exact ⟨t, ht, hread, fin_acceptance rfl 0 0 _ _ _ 0 ESTABLISHED t (reach_of_runIf ht) _ hfin⟩

end SegmentRun

end FpgaNetworkStack.Toe
