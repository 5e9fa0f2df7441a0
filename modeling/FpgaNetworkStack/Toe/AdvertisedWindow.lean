import FpgaNetworkStack.Toe.SegmentRun

/-!
# The advertised window of one session

`rx_sar_table` computes the window it offers the peer from `recvd`, `rxTcpFSM` decides what it takes
from `head`, with a strict comparison.  The offer is right except where the unshifted window does not
fit its 16 bits; what was offered is taken except where it fills the buffer to the last byte, reaches
past the beginning of a premature block, or finds the external FIFO of the bypass build filled.
-/

namespace FpgaNetworkStack.Toe

open Lib SessionState

variable {b : Build}

/-! ## The window of an entry -/

/-- What the peer reads from the reply to the transmit engine. -/
def RxSarReply.window (r : RxSarReply) : Nat := r.windowSize.toNat <<< r.winShift.toNat

/-- Free buffer space, `(appd - recvd - 1) mod BUFFER_SIZE`. -/
def RxSarEntry.free (entry : RxSarEntry b) : Nat :=
  ((entry.appd - entry.recvd.setWidth _) - 1).toNat

/-- The window stays within the free space, and is the largest one that does so: less than
`2 ^ winShift` short of it, or the largest of its 16 bits. -/
structure RxSarEntry.Offers (entry : RxSarEntry b) : Prop where
  le : (entry.reply b).window ≤ entry.free
  largest : entry.free < (entry.reply b).window + 2 ^ entry.winShift.toNat ∨
    (entry.reply b).windowSize.toNat = 2 ^ 16 - 1

/-- The free space in units of the shift, cut to 16 bits, is the same or all ones. -/
def RxSarEntry.fits (entry : RxSarEntry b) : Bool :=
  decide (entry.free / 2 ^ entry.winShift.toNat < 2 ^ 16) ||
    decide (entry.free / 2 ^ entry.winShift.toNat % 2 ^ 16 = 2 ^ 16 - 1)

/-- The shift is only written, and only applied, by the `WINDOW_SCALE` build. -/
theorem RxSarEntry.reply_windowSize {entry : RxSarEntry b}
    (h : b.windowScale = false → entry.winShift = 0) :
    (entry.reply b).windowSize.toNat = entry.free / 2 ^ entry.winShift.toNat % 2 ^ 16 := by
  unfold RxSarEntry.reply RxSarEntry.free
  cases hw : b.windowScale with
  | true =>
    simp only [if_true, BitVec.toNat_setWidth, BitVec.toNat_ushiftRight, Nat.shiftRight_eq_div_pow]
  | false =>
    rw [h hw]
    simp only [Bool.false_eq_true, if_false, BitVec.toNat_setWidth]
    change _ = _ / 2 ^ 0 % _
    rw [Nat.pow_zero, Nat.div_one]

theorem RxSarEntry.reply_window {entry : RxSarEntry b}
    (h : b.windowScale = false → entry.winShift = 0) :
    (entry.reply b).window =
      entry.free / 2 ^ entry.winShift.toNat % 2 ^ 16 * 2 ^ entry.winShift.toNat := by
  have hs : (entry.reply b).winShift = entry.winShift := rfl
  rw [RxSarReply.window, hs, RxSarEntry.reply_windowSize h, Nat.shiftLeft_eq]

-- Cutting the window can only make it smaller.
theorem RxSarEntry.reply_window_le {entry : RxSarEntry b}
    (h : b.windowScale = false → entry.winShift = 0) : (entry.reply b).window ≤ entry.free := by
  rw [RxSarEntry.reply_window h]
  calc entry.free / 2 ^ entry.winShift.toNat % 2 ^ 16 * 2 ^ entry.winShift.toNat
      ≤ entry.free / 2 ^ entry.winShift.toNat * 2 ^ entry.winShift.toNat :=
        Nat.mul_le_mul_right _ (Nat.mod_le _ _)
    _ ≤ entry.free := Nat.div_mul_le_self _ _

/-- The window is right exactly where the cut does no harm. -/
theorem RxSarEntry.offers_iff {entry : RxSarEntry b}
    (h : b.windowScale = false → entry.winShift = 0) : entry.Offers ↔ entry.fits = true := by
  have hpos : 0 < 2 ^ entry.winShift.toNat := Nat.two_pow_pos _
  have hdiv := Nat.div_add_mod entry.free (2 ^ entry.winShift.toNat)
  have hmod := Nat.mod_lt entry.free hpos
  rw [RxSarEntry.fits, Bool.or_eq_true, decide_eq_true_eq, decide_eq_true_eq]
  constructor
  · rintro ⟨-, hl | hl⟩
    · left
      rw [RxSarEntry.reply_window h] at hl
      -- a smaller multiple of the unit would leave a whole unit unused
      by_contra hge
      have hlt : entry.free / 2 ^ entry.winShift.toNat % 2 ^ 16 + 1 ≤
          entry.free / 2 ^ entry.winShift.toNat := by
        have := Nat.mod_lt (entry.free / 2 ^ entry.winShift.toNat) (Nat.two_pow_pos 16)
        omega
      have hmul := Nat.mul_le_mul_right (2 ^ entry.winShift.toNat) hlt
      rw [Nat.add_mul, Nat.one_mul] at hmul
      have hfree := Nat.div_mul_le_self entry.free (2 ^ entry.winShift.toNat)
      omega
    · right
      rw [← RxSarEntry.reply_windowSize h]
      exact hl
  · intro hf
    refine ⟨RxSarEntry.reply_window_le h, ?_⟩
    rcases hf with hf | hf
    · left
      rw [RxSarEntry.reply_window h, Nat.mod_eq_of_lt hf, Nat.mul_comm]
      omega
    · right
      rw [RxSarEntry.reply_windowSize h]
      exact hf

/-! ## The table keeps the shift -/

/-- `rx_win_shift` of an accepted SYN or SYN-ACK with the window scale option `winScale`. -/
def rxWinShift (b : Build) (winScale : BitVec 4) : BitVec 4 :=
  if b.windowScale then (if winScale = 0 then 0 else BitVec.ofNat 4 Build.windowScaleBits) else 1

/-- One call changes the shift of an entry at most by an initialisation in the scaled build. -/
theorem rxSarTable_winShift {rxTable : SessionID → RxSarEntry b} {i : RxSarTableIn b}
    (h : b.windowScale = false ∨ ∀ q ∈ i.rxEng2rxSarUpdReq, q.init = false) (id : SessionID) :
    ((rxSarTable b rxTable i).1 id).winShift = (rxTable id).winShift := by
  unfold rxSarTable
  split
  · rfl
  · next q rest _ _ =>
      split
      · by_cases hid : id = q.sessionID
        · subst hid
          dsimp only
          rw [Function.update_self]
        · dsimp only
          rw [Function.update_of_ne hid]
      · rfl
  · next q rest _ _ hq =>
      split
      · by_cases hid : id = q.sessionID
        · subst hid
          dsimp only
          rw [Function.update_self, RxSarEntry.recvdUpdate]
          have hno : (q.init && b.windowScale) = false := by
            rcases h with h | h
            · rw [h, Bool.and_false]
            · rw [h q (by rw [hq]; exact List.mem_cons_self), Bool.false_and]
          rw [hno]
          rfl
        · dsimp only
          rw [Function.update_of_ne hid]
      · rfl
  · rfl

/-- The table after any calls since power-up. -/
def tableAfter (b : Build) (calls : List (RxSarTableIn b)) : SessionID → RxSarEntry b :=
  calls.foldl (fun rxTable i => (rxSarTable b rxTable i).1) fun _ => default

-- Without `WINDOW_SCALE` the shift stays what static initialisation made it.
theorem tableAfter_winShift (hb : b.windowScale = false) (calls : List (RxSarTableIn b)) (id : SessionID) :
    (tableAfter b calls id).winShift = 0 := by
  have h : ∀ rxTable : SessionID → RxSarEntry b, (rxTable id).winShift = 0 →
      (calls.foldl (fun rxTable i => (rxSarTable b rxTable i).1) rxTable id).winShift = 0 := by
    induction calls with
    | nil => exact fun _ h0 => h0
    | cons i calls ih =>
      intro rxTable h0
      apply ih
      rw [rxSarTable_winShift (.inl hb), h0]
  exact h _ rfl

/-! ## Runs with advertisements -/

/-- The session together with the right edge of the window last advertised, and the one that was last
advertised when the loaded segment arrived. -/
structure WindowRun (b : Build) (α : Type) where
  session : SegmentRun b α
  edge : Nat
  edgeLoaded : Nat

/-- `advertise`: the transmit engine reads the entry. -/
inductive WindowLabel (b : Build) where
  | session (l : SegmentLabel b)
  | advertise

namespace WindowRun

variable {α : Type} (sid : SessionID) (isn : BitVec 32) (stream : Nat → α)

/-- The session right after its SYN or SYN-ACK, in a table that earlier sessions have used; nothing has
been advertised yet. -/
def init (calls : List (RxSarTableIn b)) (winScale : BitVec 4) (tcpState : SessionState) : WindowRun b α :=
  ⟨.init sid isn (tableAfter b calls) (rxWinShift b winScale) tcpState, 0, 0⟩

def rx (t : WindowRun b α) : RxRun b α := t.session.rx

def entry (t : WindowRun b α) : RxSarEntry b := t.session.entry sid

def step (t : WindowRun b α) : WindowLabel b → Option (WindowRun b α)
  | .session l =>
    (t.session.step sid isn stream l).map fun session =>
      { t with
        session
        edgeLoaded := match l with
          | .load _ _ => t.edge
          | _ => t.edgeLoaded }
  | .advertise =>
    match rxSarTable b t.rx.rxTable { txEng2rxSarReq := [sid] } with
    | (rxTable, _, out) =>
      match out.rxSar2txEngRsp with
      | [] => none
      | r :: _ =>
        some { t with
          session := { t.session with rx := { t.rx with rxTable } }
          edge := t.rx.recvdPos sid isn + r.window }

/-- No payload is finished in the two situations that reassembly gets wrong, see
`SegmentRun.regular`; the bypass build does not reassemble. -/
def regular (t : WindowRun b α) : WindowLabel b → Bool
  | .session l => b.rxDdrBypass || t.session.regular sid isn l
  | .advertise => true

/-- The session is established, and the loaded segment is in order and fits with its payload into the
window last advertised. -/
def Offered (t : WindowRun b α) : Prop :=
  t.session.tcpState = ESTABLISHED ∧ t.rx.fsm.fsmState = .TRANSITION ∧
    t.rx.fsm.fsmMeta.metaData.length ≠ 0 ∧
    t.rx.fsm.fsmMeta.metaData.seqNumb = (t.entry sid).recvd ∧
    t.rx.position + t.rx.fsm.fsmMeta.metaData.length.toNat ≤ t.edgeLoaded

instance (t : WindowRun b α) : Decidable (t.Offered sid) :=
  inferInstanceAs (Decidable (_ ∧ _))

/-- The loaded segment is accepted when it is finished. -/
def Accepts (t : WindowRun b α) (e : RxTcpFsmEnv b) (txSar : RxTxSarReply b) : Prop :=
  (t.step sid isn stream (.session (.finish e txSar))).map (·.rx.verdicts) =
    some (t.rx.verdicts ++ [false])

instance (t : WindowRun b α) (e : RxTcpFsmEnv b) (txSar : RxTxSarReply b) :
    Decidable (t.Accepts sid isn stream e txSar) :=
  inferInstanceAs (Decidable (_ = _))

/-- What `rxTcpFSM` asks of an in-order segment `m` beyond the window, unless it is a FIN: that it does
not fill the buffer up, in front of a premature block that it does not reach past its beginning (the
end of the segment taken without wrapping), and in the bypass build that the external FIFO has room. -/
def room (e : RxTcpFsmEnv b) (m : RxFsmMetaData) (r : RxSarEntry b) : Bool :=
  if controlBits m.metaData == .fin then true
  else if b.rxDdrBypass then
    decide ((375 : Int) < e.rxbufferMaxDataCount.toNat - e.rxbufferDataCount.toNat)
  else if r.gap then decide (segmentEndWide m ≤ r.offset.toNat)
  else decide (m.metaData.length.toNat ≠ (freeSpace b r).toNat)

variable {sid isn stream}

/-- In order, what is kept is decided by `room`. -/
theorem ackPayload_inOrder {e : RxTcpFsmEnv b} {m : RxFsmMetaData} {r : RxSarEntry b}
    (hc : controlBits m.metaData = .ack) (hlen : m.metaData.length ≠ 0) (hseq : m.metaData.seqNumb = r.recvd)
    (hfit : b.rxDdrBypass = false → r.gap = false →
      m.metaData.length.toNat ≤ (freeSpace b r).toNat)
    (hhead : b.rxDdrBypass = false → r.gap = true → r.head ≠ r.recvd) :
    (ackPayload b e m r).dropDataFifoOut = [false] ↔ room e m r = true := by
  have hack : (controlBits m.metaData == ControlBits.fin) = false := by rw [hc]; rfl
  unfold ackPayload room
  rw [if_neg hlen, hack]
  simp only [Bool.false_eq_true, if_false]
  cases hb : b.rxDdrBypass with
  | true =>
    simp only [if_true, ackPayloadBypass, inOrderBypass, hseq, beq_self_eq_true, Bool.true_and]
    by_cases hroom : (375 : Int) < e.rxbufferMaxDataCount.toNat - e.rxbufferDataCount.toNat
    · simp [hroom, keepPayload]
    · simp [hroom]
  | false =>
    simp only [Bool.false_eq_true, if_false]
    cases hg : r.gap with
    | false =>
      have hle := hfit hb hg
      have hnot : ¬ r.recvd < r.recvd := BitVec.lt_irrefl _
      simp only [Bool.false_eq_true, if_false, ackPayloadDdr, inOrder, outOfOrder, afterHead,
        afterRecvd, hg, hseq, beq_self_eq_true, Bool.not_false, Bool.true_and, Bool.false_and,
        decide_eq_true_eq, hnot, decide_false]
      by_cases hlt : m.metaData.length.toNat < (freeSpace b r).toNat
      · rw [if_pos hlt]
        exact ⟨fun _ => Nat.ne_of_lt hlt, fun _ => rfl⟩
      · rw [if_neg hlt]
        constructor
        · intro h
          cases h
        · intro h
          omega
    | true =>
      have hne : (r.recvd == r.head) = false := beq_false_of_ne fun h => hhead hb hg h.symm
      simp only [if_true, ackPayloadDdr, inOrder, outOfOrder, afterHead, afterRecvd, hg, hseq,
        hne, beq_self_eq_true, Bool.not_true, Bool.true_and, Bool.false_and, Bool.false_eq_true,
        if_false, decide_eq_true_eq]
      by_cases heq : segmentEndWide m = r.offset.toNat
      · rw [if_pos heq]
        exact ⟨fun _ => by omega, fun _ => rfl⟩
      · rw [if_neg heq]
        by_cases hlt : segmentEndWide m < r.offset.toNat
        · rw [if_pos hlt]
          exact ⟨fun _ => by omega, fun _ => rfl⟩
        · rw [if_neg hlt]
          constructor
          · intro h
            cases h
          · intro h
            omega

theorem finPayload_inOrder {e : RxTcpFsmEnv b} {m : RxFsmMetaData} {r : RxSarEntry b}
    (hc : controlBits m.metaData = .fin) (hlen : m.metaData.length ≠ 0)
    (hseq : m.metaData.seqNumb = r.recvd) (txSar : RxTxSarReply b) :
    (transition b e m ESTABLISHED r txSar).dropDataFifoOut = [false] := by
  have ha : finAccepted b m r ESTABLISHED = true := by simp [finAccepted, hseq]
  simp only [transition, hc, transitionFin, ha, if_true, finPayload]
  rw [if_pos hlen]

/-! ### The invariant -/

/-- The entry keeps its shift, the loaded segment has been answered, and until a FIN is accepted no
edge that was advertised lies beyond the buffer. -/
structure Inv (sid : SessionID) (isn : BitVec 32) (stream : Nat → α) (winScale : BitVec 4)
    (mem : BitVec b.windowBits → α) (t : WindowRun b α) : Prop where
  winShift : (t.entry sid).winShift = if b.windowScale then rxWinShift b winScale else 0
  held : t.rx.fsm.fsmState = .TRANSITION → ∃ r, t.session.Held sid r
  closing : t.session.fin ≠ none → SegmentRun.closing t.session.tcpState = true
  window : b.rxDdrBypass = false → t.session.fin = none →
    ∃ w, RxRun.Base sid isn stream mem t.rx w ∧ t.edge < t.rx.appdPos isn + 2 ^ b.windowBits ∧
      (t.rx.fsm.fsmState = .TRANSITION → ∃ r appd, SegmentRun.Placed sid t.session w r appd ∧
        t.edgeLoaded < appd + 2 ^ b.windowBits)

section Steps

variable {winScale : BitVec 4} {mem : BitVec b.windowBits → α} {t u : WindowRun b α}

theorem inv_init (calls : List (RxSarTableIn b)) (tcpState : SessionState) :
    Inv sid isn stream winScale mem (init sid isn calls winScale tcpState) := by
  refine ⟨?_, ?_, ?_, fun _ _ => ⟨_, (RxRun.inv_init mem _ _).base, ?_, ?_⟩⟩
  · have hentry : (init (α := α) sid isn calls winScale tcpState).entry sid =
        (tableAfter b calls sid).recvdUpdate b
          (.initialise sid (isn + 1) (isn + 1) 0 false (rxWinShift b winScale)) := by
      rw [entry, SegmentRun.entry, RxRun.entry, init, SegmentRun.init, RxRun.init,
        rxSarTable_recvdWrite _ rfl]
      exact Function.update_self ..
    rw [hentry]
    cases hb : b.windowScale with
    | true => simp [RxSarEntry.recvdUpdate, RxSarRecvd.initialise, hb]
    | false => simp [RxSarEntry.recvdUpdate, hb, tableAfter_winShift hb]
  · intro hT
    cases hT
  · intro hfin
    exact absurd rfl hfin
  · change 0 < _ + _
    have := Nat.two_pow_pos b.windowBits
    omega
  · intro hT
    cases hT

theorem Inv.unscaled (h : Inv sid isn stream winScale mem t) (hb : b.windowScale = false) :
    (t.entry sid).winShift = 0 := by
  rw [h.winShift, hb]
  rfl

theorem advertise_eq (t : WindowRun b α) :
    t.step sid isn stream .advertise =
      some { t with edge := t.rx.recvdPos sid isn + ((t.entry sid).reply b).window } := rfl

theorem inv_advertise (h : Inv sid isn stream winScale mem t)
    (hs : t.step sid isn stream .advertise = some u) : Inv sid isn stream winScale mem u := by
  rw [advertise_eq] at hs
  cases hs
  refine { h with window := fun hb hfin => ?_ }
  obtain ⟨w, hw, -, hload⟩ := h.window hb hfin
  refine ⟨w, hw, ?_, hload⟩
  have hle : ((t.entry sid).reply b).window ≤ (t.entry sid).free := RxSarEntry.reply_window_le h.unscaled
  have h1 := w.appd_le
  have h2 := w.recvd_le_head
  have h3 := w.bounded
  -- the free space is the room behind `recvd` instead of `head`
  have hfree : (t.entry sid).free = w.appd + 2 ^ b.windowBits - 1 - w.recvd :=
    freeSpace_toNat (r := { t.entry sid with head := (t.entry sid).recvd }) hw.appd
      hw.represents.recvd h1 (by omega)
  have hread := hw.read
  have hrecvd := hw.recvdPos_eq
  change t.rx.recvdPos sid isn + _ < t.rx.appdPos isn + _
  omega

theorem session_winShift {s s' : SegmentRun b α} {l : SegmentLabel b}
    (held : s.rx.fsm.fsmState = .TRANSITION → ∃ r, s.Held sid r)
    (hs : s.step sid isn stream l = some s') : (s'.entry sid).winShift = (s.entry sid).winShift := by
  cases l with
  | load m p =>
    obtain ⟨-, -, -, -, -, rfl⟩ := SegmentRun.load_eq hs
    rfl
  | finish e txSar =>
    have hT := SegmentRun.finish_transition hs
    obtain ⟨r, hr⟩ := held hT
    rw [SegmentRun.finish_eq hT hr] at hs
    cases hs
    exact rxSarTable_winShift (.inr (SegmentRun.transition_noInit hr.bits e _ r txSar)) sid
  | appRead len =>
    obtain ⟨rx, hrx, rfl⟩ := SegmentRun.appRead_eq hs
    obtain ⟨-, -, hentry⟩ := RxRun.appRead_eq hrx
    rw [SegmentRun.entry, hentry]
    rfl
  | state s =>
    obtain ⟨-, rfl⟩ := SegmentRun.state_eq hs
    rfl

theorem inv_session {l : SegmentLabel b} (h : Inv sid isn stream winScale mem t)
    (hreg : t.regular sid isn (.session l) = true)
    (hs : t.step sid isn stream (.session l) = some u) : Inv sid isn stream winScale mem u := by
  obtain ⟨s, hs', rfl⟩ := Option.map_eq_some_iff.mp hs
  refine ⟨(session_winShift h.held hs').trans h.winShift, SegmentRun.held_step h.held hs',
    SegmentRun.closing_step h.held h.closing hs', fun hb hfin => ?_⟩
  have hreg' : t.session.regular sid isn l = true := by
    rw [regular, hb, Bool.false_or] at hreg
    exact hreg
  cases l with
  | load m p =>
    obtain ⟨-, -, -, -, -, hu⟩ := SegmentRun.load_eq hs'
    have hfin' : t.session.fin = none := by rw [hu] at hfin; exact hfin
    obtain ⟨w, hw, hedge, -⟩ := h.window hb hfin'
    obtain ⟨hw', hp⟩ := SegmentRun.base_load hw hs'
    refine ⟨w, hw', ?_, fun _ => ⟨_, _, hp, ?_⟩⟩
    · change t.edge < s.rx.appdPos isn + _
      rw [← hw'.read, hw.read]
      exact hedge
    · rw [hw.read]
      exact hedge
  | finish e txSar =>
    have hT := SegmentRun.finish_transition hs'
    obtain ⟨r, hr⟩ := h.held hT
    have hL : s.rx.fsm.fsmState = .LOAD := by
      rw [SegmentRun.finish_eq hT hr] at hs'
      cases hs'
      rfl
    have hno : t.session.takesFin = false ∧ t.session.fin = none := by
      rw [SegmentRun.finish_eq hT hr] at hs'
      cases hs'
      dsimp only at hfin
      split at hfin
      · cases hfin
      · next hn =>
          refine ⟨?_, hfin⟩
          rw [SegmentRun.takesFin, hr.reply, List.any_cons, List.any_nil, Bool.or_false]
          exact Bool.eq_false_iff.mpr hn
    obtain ⟨w, hw, hedge, hload⟩ := h.window hb hno.2
    obtain ⟨r', appd, hp, -⟩ := hload hT
    rcases SegmentRun.base_finish hb hw hp hreg' hs' with ⟨hc, ha⟩ | ⟨-, w', hw', happd⟩
    · have htakes : t.session.takesFin = true := by
        simp [SegmentRun.takesFin, hc, hp.held.reply, ha]
      rw [hno.1] at htakes
      cases htakes
    · refine ⟨w', hw', ?_, fun hT' => ?_⟩
      · change t.edge < s.rx.appdPos isn + _
        rw [← hw'.read, happd, hw.read]
        exact hedge
      · exact absurd (hL.symm.trans hT') (by decide)
  | appRead len =>
    obtain ⟨rx, hrx, hu⟩ := SegmentRun.appRead_eq hs'
    have hfin' : t.session.fin = none := by rw [hu] at hfin; exact hfin
    obtain ⟨w, hw, hedge, hload⟩ := h.window hb hfin'
    obtain ⟨hle, hw', hp⟩ := SegmentRun.base_appRead hw hs'
    refine ⟨_, hw', ?_, fun hT => ?_⟩
    · change t.edge < s.rx.appdPos isn + _
      rw [← hw'.read]
      change _ < w.appd + _ + _
      rw [hw.read]
      omega
    · obtain ⟨-, hrx', -⟩ := RxRun.appRead_eq hrx
      obtain ⟨r, appd, hpl, hlt⟩ := hload (by
        change s.rx.fsm.fsmState = _ at hT
        rw [hu, hrx'] at hT
        exact hT)
      exact ⟨r, appd, hp r appd hpl, hlt⟩
  | state s =>
    obtain ⟨-, rfl⟩ := SegmentRun.state_eq hs'
    obtain ⟨w, hw, hedge, hload⟩ := h.window hb hfin
    refine ⟨w, hw, hedge, fun hT => ?_⟩
    obtain ⟨r, appd, hp, hlt⟩ := hload hT
    exact ⟨r, appd, ⟨⟨hp.held.reply, hp.held.entry, hp.held.session, hp.held.bits, hp.held.seqNumb⟩,
      hp.answered, hp.appd_le, hp.fits, hp.located⟩, hlt⟩

/-- An in-order segment within the window last advertised is accepted exactly if there is `room`. -/
theorem Inv.accepts_iff (h : Inv sid isn stream winScale mem t) (ho : t.Offered sid)
    (e : RxTcpFsmEnv b) (txSar : RxTxSarReply b) :
    t.Accepts sid isn stream e txSar ↔ ∀ r ∈ t.rx.reply, room e t.rx.fsm.fsmMeta r = true := by
  obtain ⟨hst, hT, hlen, hseq, hfit⟩ := ho
  obtain ⟨r, hr⟩ := h.held hT
  have hreply : t.rx.reply = [r] := hr.reply
  have hfin : t.session.fin = none := by
    by_contra hn
    have hc := h.closing hn
    rw [hst] at hc
    cases hc
  have hrecvd : t.rx.fsm.fsmMeta.metaData.seqNumb = r.recvd := by
    rw [hseq, hr.entry]
    rfl
  have haccepts : t.Accepts sid isn stream e txSar ↔
      (transition b e t.rx.fsm.fsmMeta ESTABLISHED r txSar).dropDataFifoOut = [false] := by
    unfold Accepts
    change Option.map _ (Option.map _ (t.session.step sid isn stream (.finish e txSar))) = _ ↔ _
    rw [SegmentRun.finish_eq hT hr, hst]
    simp only [Option.map_some, rx, RxRun.apply, RxRun.effect, Option.some.injEq,
      List.append_cancel_left_eq]
  rw [haccepts, hreply]
  simp only [List.mem_singleton, forall_eq]
  cases hc : controlBits t.rx.fsm.fsmMeta.metaData with
  | syn | synAck | other =>
    have hbits : SegmentRun.dataBits t.rx.fsm.fsmMeta.metaData = true := hr.bits
    simp [SegmentRun.dataBits, hc] at hbits
  | fin =>
    have hroom : room e t.rx.fsm.fsmMeta r = true := by
      simp [room, hc]
    exact ⟨fun _ => hroom, fun _ => finPayload_inOrder hc hlen hrecvd txSar⟩
  | ack =>
    have hdrop : (transition b e t.rx.fsm.fsmMeta ESTABLISHED r txSar).dropDataFifoOut =
        (ackPayload b e t.rx.fsm.fsmMeta r).dropDataFifoOut := by
      simp only [transition, hc, transitionAck]
      rfl
    rw [hdrop]
    apply ackPayload_inOrder hc hlen hrecvd
    · intro hb hg
      obtain ⟨w, hw, -, hload⟩ := h.window hb hfin
      obtain ⟨r', appd, hp, hedge⟩ := hload hT
      cases (List.cons.inj (hp.held.reply.symm.trans hreply)).1
      have hrep := hp.represents hw
      have hpos : t.rx.position = w.recvd := hp.located _ (Nat.le_refl _) w.recvd_le_head
        (hp.held.seqNumb.symm.trans (hrecvd.trans hrep.recvd))
      have hhead := w.closed (hrep.gap ▸ hg)
      rw [freeSpace_toNat hp.answered hrep.head
        (by have := w.appd_le; have := hp.appd_le; omega) hp.fits]
      omega
    · intro hb hg heq
      obtain ⟨w, hw, -, hload⟩ := h.window hb hfin
      obtain ⟨r', appd, hp, -⟩ := hload hT
      cases (List.cons.inj (hp.held.reply.symm.trans hreply)).1
      have hrep := hp.represents hw
      obtain ⟨h1, h2⟩ := w.opened (hrep.gap ▸ hg)
      have h3 := w.bounded
      have h4 := w.appd_le
      have h5 := two_pow_windowBits_lt b
      rw [hrep.head, hrep.recvd] at heq
      have := ofNat_inj heq (by omega) (by omega)
      omega

end Steps

/-- The advertised window is honoured, as far as the conditions `fits` and `room` go: in every run
without an irregular step, the window of the entry is the largest one within the free space exactly
if the free space fits its 16 bits, and an in-order segment within the window last advertised is
accepted exactly if it finds room. -/
theorem window_honoured (b : Build) (sid : SessionID) (isn : BitVec 32) (stream : Nat → α)
    (calls : List (RxSarTableIn b)) (winScale : BitVec 4) (tcpState : SessionState) (t : WindowRun b α)
    (h : Reach (step sid isn stream) (fun t l => t.regular sid isn l = true)
      (init sid isn calls winScale tcpState) t) :
    (rxSarTable b t.rx.rxTable { txEng2rxSarReq := [sid] }).2.2.rxSar2txEngRsp = [(t.entry sid).reply b] ∧
    ((t.entry sid).Offers ↔ (t.entry sid).fits = true) ∧
    (t.Offered sid → ∀ e txSar,
      t.Accepts sid isn stream e txSar ↔ ∀ r ∈ t.rx.reply, room e t.rx.fsm.fsmMeta r = true) := by
  have hinv : Inv sid isn stream winScale (fun _ => stream 0) t := by
    refine h.invariant (P := Inv sid isn stream winScale _) (inv_init calls tcpState) ?_
    intro u l v hu hreg hs
    cases l with
    | advertise => exact inv_advertise hu hs
    | session l => exact inv_session hu hreg hs
  exact ⟨rfl, RxSarEntry.offers_iff hinv.unscaled, hinv.accepts_iff⟩

/-! ### Three runs -/

/-- A segment of `length` bytes at position `p`, finished. -/
def handle (b : Build) (p : Nat) (length : BitVec 16) : List (WindowLabel b) :=
  [.session (.load (RxRun.ackSegment (BitVec.ofNat 32 p) length) p),
    .session (.finish ⟨default, 0, 0⟩ default)]

/-- `n` segments of 4096 bytes from position `1` on. -/
def bulk (b : Build) (n : Nat) : List (WindowLabel b) :=
  (List.range n).flatMap fun i => handle b (1 + 4096 * i) 4096

def unscaledBuild : Build := { Build.sample with windowScale := false }

/-- The peer sends 61440 of the 65535 bytes it was offered, and a segment of `last` bytes is loaded. -/
def fillRun (last : BitVec 16) : List (WindowLabel unscaledBuild) :=
  .advertise :: bulk unscaledBuild 15 ++ [.session (.load (RxRun.ackSegment 61441 last) 61441)]

/-- A peer without the window scale option has sent half the buffer less one byte. -/
def halfRun : List (WindowLabel .sample) :=
  bulk .sample 31 ++ handle .sample 126977 4095

/-- A byte is missing in front of a block, and the peer sends it again together with the block. -/
def overlapRun : List (WindowLabel .sample) :=
  .advertise :: handle .sample 2 10 ++ [.session (.load (RxRun.ackSegment 1 11) 1)]

-- The last segment of the offered window is dropped; with 131072 bytes free the window is closed; a
-- segment that overlaps the premature block is not accepted.
theorem window_not_honoured :
    (∃ t, run (step 0 0 fun n => n) (init 0 0 [] 0 ESTABLISHED) (fillRun 4095) = some t ∧ t.Offered 0 ∧
      ¬ t.Accepts 0 0 (fun n => n) ⟨default, 0, 0⟩ default) ∧
    (∃ t, run (step 0 0 fun n => n) (init 0 0 [] 0 ESTABLISHED) halfRun = some t ∧ (t.entry 0).free = 131072 ∧
      ((t.entry 0).reply .sample).window = 0 ∧ ¬ (t.entry 0).Offers) ∧
    (∃ t, run (step 0 0 fun n => n) (init 0 0 [] 2 ESTABLISHED) overlapRun = some t ∧ t.Offered 0 ∧
      ¬ t.Accepts 0 0 (fun n => n) ⟨default, 0, 0⟩ default) := by
  have hfill : (run (step 0 0 fun n => n) (init 0 0 [] 0 ESTABLISHED) (fillRun 4095)).map (fun t =>
      (decide (t.Offered 0), decide (t.Accepts 0 0 (fun n => n) ⟨default, 0, 0⟩ default))) =
      some (true, false) := by
    decide +kernel
  have hhalf : (run (step 0 0 fun n => n) (init 0 0 [] 0 ESTABLISHED) halfRun).map (fun t =>
      ((t.entry 0).free, ((t.entry 0).reply .sample).window,
        ((t.entry 0).reply .sample).windowSize.toNat, (t.entry 0).winShift)) =
      some (131072, 0, 0, 0) := by
    decide +kernel
  have hover : (run (step 0 0 fun n => n) (init 0 0 [] 2 ESTABLISHED) overlapRun).map (fun t =>
      (decide (t.Offered 0), decide (t.Accepts 0 0 (fun n => n) ⟨default, 0, 0⟩ default))) =
      some (true, false) := by
    decide +kernel
  refine ⟨?_, ?_, ?_⟩
  · obtain ⟨t, ht, hx⟩ := Option.map_eq_some_iff.mp hfill
    obtain ⟨h1, h2⟩ := Prod.mk.inj hx
    exact ⟨t, ht, of_decide_eq_true h1, of_decide_eq_false h2⟩
  · obtain ⟨t, ht, hx⟩ := Option.map_eq_some_iff.mp hhalf
    obtain ⟨h1, hx⟩ := Prod.mk.inj hx
    obtain ⟨h2, hx⟩ := Prod.mk.inj hx
    obtain ⟨h3, h4⟩ := Prod.mk.inj hx
    refine ⟨t, ht, h1, h2, ?_⟩
    rintro ⟨-, hl | hl⟩
    · rw [h1, h2, h4] at hl
      revert hl
      decide
    · rw [h3] at hl
      revert hl
      decide
  · obtain ⟨t, ht, hx⟩ := Option.map_eq_some_iff.mp hover
    obtain ⟨h1, h2⟩ := Prod.mk.inj hx
    exact ⟨t, ht, of_decide_eq_true h1, of_decide_eq_false h2⟩

/-- One byte less than the window is accepted. -/
theorem window_honoured_bulk :
    ∃ t, runIf (step 0 0 fun n => n) (fun t l => t.regular 0 0 l = true) (init 0 0 [] 0 ESTABLISHED) (fillRun 4094) =
        some t ∧
      t.Offered 0 ∧ (t.entry 0).Offers ∧ t.Accepts 0 0 (fun n => n) ⟨default, 0, 0⟩ default := by
  have h : (runIf (step 0 0 fun n => n) (fun t l => t.regular 0 0 l = true) (init 0 0 [] 0 ESTABLISHED)
      (fillRun 4094)).map (fun t => (decide (t.Offered 0), (t.entry 0).fits,
        t.rx.reply.all fun r => room ⟨default, 0, 0⟩ t.rx.fsm.fsmMeta r)) = some (true, true, true) := by
    decide +kernel
  obtain ⟨t, ht, hx⟩ := Option.map_eq_some_iff.mp h
  obtain ⟨h1, hx⟩ := Prod.mk.inj hx
  obtain ⟨h2, h3⟩ := Prod.mk.inj hx
  obtain ⟨-, hoffers, haccepts⟩ := window_honoured unscaledBuild 0 0 (fun n => n) [] 0 ESTABLISHED
    t (reach_of_runIf ht)
  exact ⟨t, ht, of_decide_eq_true h1, hoffers.mpr h2,
    (haccepts (of_decide_eq_true h1) _ _).mpr (List.all_eq_true.mp h3)⟩

end WindowRun

end FpgaNetworkStack.Toe
