import FpgaNetworkStack.Toe.TxAppStart
import FpgaNetworkStack.Toe.TxPath

/-!
# The invariant of the transmit path

Positions of the byte stream of one session, counted from its initialisation: the bytes of the accepted
writes follow one another from `n₀` on, `metaLoader` has handled a prefix of them, and the lengths of the
rest stand in the events on the path.  So `mempt` and `not_ackd` differ by what is on the path, although
two processes maintain them in registers of different widths.
-/

namespace FpgaNetworkStack.Toe

open Lib EventType SessionState

variable {b : Build} {sid : SessionID}

/-! ## Events of the sources -/

/-- The events of `rxTcpFSM`: never TX; a FIN or a SYN-ACK that opens only for a segment that is taken. -/
theorem transition_events (e : RxTcpFsmEnv b) (m : RxFsmMetaData) (tcpState : SessionState)
    (rxSar : RxSarEntry b) (txSar : RxTxSarReply b) :
    ∀ ev ∈ (transition b e m tcpState rxSar txSar).rxEng2eventEngSetEvent,
      ev.sessionID = m.sessionID ∧ ev.type ≠ TX ∧
      (ev.type = FIN → ev.rtCount = 0 ∧ controlBits m.metaData = .fin ∧
        finAccepted b m rxSar tcpState = true) ∧
      (ev.extended.opens = true → controlBits m.metaData = .syn ∧
        (tcpState == CLOSED || tcpState == SYN_SENT) = true) := by
  intro ev hev
  unfold transition at hev
  cases hc : controlBits m.metaData with
  | ack =>
    simp only [hc, transitionAck] at hev
    split at hev
    · simp only [ackEvent] at hev
      split_ifs at hev <;> simp at hev <;> subst hev <;> simp [ExtendedEvent.opens, Event.extended]
    · simp at hev
      subst hev
      simp [ExtendedEvent.opens, Event.extended, Event.rst]
  | syn =>
    simp only [hc, transitionSyn] at hev
    split at hev
    · next hst =>
        simp at hev
        subst hev
        exact ⟨rfl, by simp, by simp, fun _ => ⟨rfl, hst⟩⟩
    · split_ifs at hev <;> simp at hev <;> subst hev <;>
        simp [ExtendedEvent.opens, Event.extended, Event.rst]
  | synAck =>
    simp only [hc, transitionSynAck] at hev
    split_ifs at hev <;> simp at hev <;> subst hev <;>
      simp [ExtendedEvent.opens, Event.extended, Event.rst]
  | fin =>
    simp only [hc, transitionFin] at hev
    split at hev
    · next hacc =>
        simp only [finNext, List.mem_singleton] at hev
        split_ifs at hev <;> subst hev <;> simp [ExtendedEvent.opens, Event.extended, hacc]
    · simp at hev
      subst hev
      simp [ExtendedEvent.opens, Event.extended]
  | other =>
    simp only [hc, transitionOther] at hev
    split_ifs at hev <;> simp at hev

theorem txAppIf_raises (ip : BitVec 32) (s : TxAppIf) (i : TxAppIfIn) :
    ∀ e ∈ (txAppIf b ip s i).2.2.txApp2eventEngSetEvent, (e.type = SYN ∨ e.type = FIN) ∧ e.rtCount = 0 := by
  intro e he
  unfold txAppIf taiFsm at he
  dsimp only at he
  split at he
  · split at he
    · split at he
      · simp at he
        simp [he]
      · cases he
    · cases he
    · cases he
    · cases he
    · cases he
  · split at he
    · cases he
    · dsimp only at he
      split at he
      · simp at he
        simp [he]
      · cases he

theorem closedPortReset_type (m : RxEngineMetaData) (tuple : FourTuple) :
    ∀ e ∈ closedPortReset b m tuple, e.type = RST := by
  intro e he
  unfold closedPortReset at he
  split at he
  · cases he
  · simp [Event.rst] at he
    simp [he]

variable {e : ExtendedEvent b}

theorem raised_opens (h : FinNet.raised sid e = true) :
    ¬(e.sessionID = sid ∧ e.opens = true) := by
  rintro ⟨hid, ho⟩
  simp [FinNet.raised, hid, ho] at h

theorem raised_fin (h : FinNet.raised sid e = true) (hf : e.isFin sid = true) :
    e.rtCount = 0 := by
  simp only [Event.isFin, Bool.and_eq_true, beq_iff_eq] at hf
  simp only [FinNet.raised, hf.1, Bool.and_eq_true] at h
  simpa using h.2

/-! ## The invariant -/

/-- A reply about `sid` that `metaLoader` works on: the bytes from `ackd` up to `not_ackd`, which is at
`P`. -/
def Held (n₀ P : Nat) (r : TxTxSarReply b) : Prop :=
  ∃ x, n₀ ≤ x + 1 ∧ x ≤ P ∧ P ≤ x + b.bufferSize ∧ r.ackd = BitVec.ofNat 32 x ∧
    r.usedLength = BitVec.ofNat _ (P - x)

variable {r : TxTxSarReply b}

theorem Held.next {n₀ P : Nat} (h : Held n₀ P r)
    (hfull : b.mss.toNat < r.usedLength.toNat) :
    Held n₀ P { r with
      ackd := r.ackd + b.mss.setWidth 32, usedLength := r.usedLength - b.mss.setWidth _ } := by
  obtain ⟨x, hn, hx, hP, ha, hu⟩ := h
  have hle : r.usedLength.toNat ≤ P - x := by
    rw [hu, BitVec.toNat_ofNat]
    exact Nat.mod_le _ _
  refine ⟨x + b.mss.toNat, by omega, by omega, by omega, ?_, ?_⟩
  · rw [ha, BitVec.ofNat_add, BitVec.ofNat_toNat]
  · have hsplit : P - x = (P - (x + b.mss.toNat)) + b.mss.toNat := by omega
    rw [hu, hsplit, BitVec.ofNat_add, BitVec.ofNat_toNat]
    exact BitVec.add_sub_cancel _ _

namespace PathNet

def finSent (t : PathNet b) (sid : SessionID) : Bool := (t.send.tx.sendPoint sid).finSent

/-- The FIN of `sid` was sent, or a FIN event of `sid` is on its way. -/
def closing (t : PathNet b) (sid : SessionID) : Bool :=
  t.finSent sid || (t.current ++ t.route ++ t.waiting).any (·.isFin sid)

/-- The steps that keep FIN and data of `sid` in order: no write is accepted once the session is closing,
a merger does not let a FIN overtake data, acknowledgements stay inside the window, and a FIN event that
counts as a first one comes once. -/
def orderly (sid : SessionID) (t : PathNet b) : PathLabel b → Bool
  | .app .tasi =>
    !t.app.callTasi.2.txAppStream2eventEngSetEvent.any (·.sessionID == sid) || !t.closing sid
  | .txEventMerger =>
    match t.merge.txApp2eventEngMergeEvent with
    | e :: _ => !e.isFin sid || !t.merge.txAppStream2eventMergeEvent.any (·.isData sid)
    | [] => true
  | .eventEngine full =>
    match t.engineIn.rxEng2eventEngSetEvent, full with
    | e :: _, false => !e.isFin sid || !(t.engineIn.txApp2eventEngSetEvent ++
        t.merge.txAppStream2eventMergeEvent).any (·.isData sid)
    | _, _ => true
  | .rx (.call _) => t.send.ackChecked sid
  | .metaLoader => !t.current.any (fun e => e.isFin sid && e.rtCount == 0) || !t.finSent sid
  | _ => true

/-- The stream of `sid` starts at `n₀`, and `sent` are the lengths of its TX segments so far. -/
structure Path (sid : SessionID) (n₀ : Nat) (t : PathNet b) (A N : Nat) (sent : List Nat) : Prop where
  engines : SendNet.Engines sid t.send
  window : SendNet.Window sid t.send A N (n₀ + sent.sum + (t.finSent sid).toNat)
  low : n₀ ≤ A + 1
  segments : segments t.emitted sid = blocks 32 n₀ sent
  writes : t.writes sid = blocks _ n₀ (sent ++ lengths sid (t.current ++ t.route))
  room : n₀ + (sent ++ lengths sid (t.current ++ t.route)).sum < A + b.bufferSize
  app : t.finSent sid = false →
    AppNet.Live sid t.app A (n₀ + (sent ++ lengths sid (t.current ++ t.route)).sum)
  order : FinBehind sid (t.current ++ t.route)
  done : t.finSent sid = true → lengths sid (t.current ++ t.route) = []
  tame : ∀ e ∈ t.route ++ t.waiting, FinNet.raised sid e = true
  quiet : ∀ e ∈ t.waiting, e.isData sid = false
  repeated : ∀ e ∈ t.current, e.isFin sid = true → e.rtCount ≠ 0 → t.finSent sid = true
  held : ∀ r ∈ t.send.tx.fifo.txSar2txEngUpdRsp, t.send.tx.ml.mlCurEvent.sessionID = sid →
    Held n₀ (n₀ + sent.sum + (t.finSent sid).toNat) r
  register : t.send.tx.ml.mlFsmState = .WORK → t.send.tx.ml.loaded = true →
    t.send.tx.ml.mlCurEvent.sessionID = sid →
    Held n₀ (n₀ + sent.sum + (t.finSent sid).toNat) t.send.tx.ml.txSarReg

/-- Timers raise no FIN and open no session. -/
def Timers (t : PathNet b) : Prop := ∀ e ∈ t.engineIn.timer2eventEngSetEvent, timed e = true

variable {n₀ A N : Nat} {sent : List Nat} {t : PathNet b} {t u : PathNet b}

/-- Steps that only move events, and no data event of `sid` in or out. -/
theorem Path.reroute (h : Path sid n₀ t A N sent) (evs : List (ExtendedEvent b))
    (hsend : u.send = { t.send with tx := { t.send.tx with fifo := { t.send.tx.fifo with
      eventEng2txEngEvent := evs } } }) (happ : u.app = t.app) (hacc : u.accepted = t.accepted)
    (hemit : u.emitted = t.emitted) (hlen : lengths sid u.route = lengths sid t.route)
    (hord : FinBehind sid (t.current ++ u.route))
    (htame : ∀ e ∈ u.route ++ u.waiting, FinNet.raised sid e = true)
    (hquiet : ∀ e ∈ u.waiting, e.isData sid = false) : Path sid n₀ u A N sent := by
  have hcur : u.current = t.current := by simp [current, hsend]
  have hfin : u.finSent sid = t.finSent sid := by
    rw [finSent, hsend]
    rfl
  have hevs : ∀ e ∈ evs, ¬(e.sessionID = sid ∧ e.opens = true) := by
    intro e he
    apply raised_opens
    apply htame
    simp [route, hsend, he]
  have hlens : lengths sid (u.current ++ u.route) = lengths sid (t.current ++ t.route) := by
    rw [hcur, lengths_append, hlen, ← lengths_append]
  have he := h.engines
  cases u
  cases hsend
  cases happ
  cases hacc
  cases hemit
  refine { h with
    engines := { he with tx := { he.tx with }, events := hevs }, window := { h.window with }, writes := ?_, room := ?_
    app := ?_, order := hord, done := ?_, tame := htame, quiet := hquiet } <;> rw [hlens]
  · exact h.writes
  · exact h.room
  · exact h.app
  · exact h.done

/-- An event other than data joins the route; a FIN of `sid` only where no data follows. -/
theorem Path.join (h : Path sid n₀ t A N sent) (hsend : u.send = { t.send with
      tx := { t.send.tx with fifo := { t.send.tx.fifo with
        eventEng2txEngEvent := u.send.tx.fifo.eventEng2txEngEvent } } })
    (happ : u.app = t.app) (hacc : u.accepted = t.accepted) (hemit : u.emitted = t.emitted)
    (l₁ l₂ : List (ExtendedEvent b)) {e : ExtendedEvent b} (ht : t.route = l₁ ++ l₂)
    (hu : u.route = l₁ ++ e :: l₂) (hdata : e.isData sid = false)
    (hfin : e.isFin sid = true → lengths sid l₂ = [])
    (htame : ∀ e ∈ u.route ++ u.waiting, FinNet.raised sid e = true)
    (hquiet : ∀ e ∈ u.waiting, e.isData sid = false) : Path sid n₀ u A N sent := by
  refine h.reroute _ hsend happ hacc hemit ?_ ?_ htame hquiet
  · rw [ht, hu, lengths_append, lengths_append, lengths_cons_other hdata]
  · have hord := h.order
    rw [ht, ← List.append_assoc] at hord
    rw [hu, ← List.append_assoc]
    exact hord.insert hdata hfin

theorem Path.wait (h : Path sid n₀ t A N sent) (hsend : u.send = t.send)
    (happ : u.app = t.app) (hacc : u.accepted = t.accepted) (hemit : u.emitted = t.emitted)
    (hroute : u.route = t.route) (es : List (ExtendedEvent b))
    (hmem : ∀ e ∈ u.waiting, e ∈ t.waiting ∨ e ∈ es)
    (hes : ∀ e ∈ es, FinNet.raised sid e = true ∧ e.isData sid = false) : Path sid n₀ u A N sent := by
  refine h.reroute t.send.tx.fifo.eventEng2txEngEvent hsend happ hacc hemit (by rw [hroute])
    (by rw [hroute]; exact h.order) ?_ ?_
  · intro e he
    rw [hroute] at he
    rcases List.mem_append.mp he with he | he
    · exact h.tame e (List.mem_append_left _ he)
    · rcases hmem e he with he | he
      · exact h.tame e (List.mem_append_right _ he)
      · exact (hes e he).1
  · intro e he
    rcases hmem e he with he | he
    · exact h.quiet e he
    · exact (hes e he).2

theorem raised_of_type (hS : e.type ≠ SYN) (hSA : e.type ≠ SYN_ACK)
    (hF : e.type ≠ FIN) : FinNet.raised sid e = true := by
  simp [FinNet.raised, ExtendedEvent.opens, hS, hSA, hF]

theorem isData_of_type {e : Event b} (h : e.type ≠ TX) : e.isData sid = false := by
  simp [Event.isData, h]

variable {es : List (Event b)}

theorem any_isData (h : es.any (·.isData sid) = false) :
    lengths sid (es.map Event.extended) = [] := by
  rw [lengths_eq_nil]
  intro e he
  obtain ⟨ev, hev, rfl⟩ := List.mem_map.mp he
  rw [List.any_eq_false] at h
  simpa using h ev hev

variable {time64us : BitVec 12}

theorem Path.txEventMerger (h : Path sid n₀ t A N sent)
    (hok : orderly sid t .txEventMerger = true) (hs : t.step sid time64us .txEventMerger = some u) :
    Path sid n₀ u A N sent := by
  simp only [step, Toe.txEventMerger, Option.some.injEq] at hs
  have htame := h.tame
  have hquiet := h.quiet
  cases hc : t.merge.txApp2eventEngMergeEvent with
  | cons ev rest =>
    -- an event of `tx_app_if` goes in front of all TX events that have not been merged yet
    simp only [hc] at hs
    subst hs
    simp only [orderly, hc, Bool.or_eq_true, Bool.not_eq_true'] at hok
    have hmem : ev.extended ∈ t.waiting := by simp [waiting, hc]
    refine h.join rfl rfl rfl rfl (e := ev.extended)
      (t.send.tx.fifo.eventEng2txEngEvent ++ t.delayIn ++
        t.engineIn.txApp2eventEngSetEvent.map Event.extended)
      (t.merge.txAppStream2eventMergeEvent.map Event.extended) (by simp [route])
      (by simp [route]) (hquiet _ hmem) ?_ ?_ ?_
    · intro hf
      rcases hok with hok | hok
      · rw [extended_toEvent, hok] at hf
        cases hf
      · exact any_isData hok
    · intro e he
      apply htame
      simp only [route, waiting, hc] at he ⊢
      grind
    · intro e he
      apply hquiet
      simp only [waiting, hc] at he ⊢
      grind
  | nil =>
    cases hst : t.merge.txAppStream2eventMergeEvent with
    | nil =>
      simp only [hc, hst, List.append_nil] at hs
      subst hs
      exact h.wait rfl rfl rfl rfl rfl [] (fun e he => .inl he) (by simp)
    | cons ev rest =>
      simp only [hc, hst] at hs
      subst hs
      refine h.wait rfl rfl rfl rfl ?_ [] (fun e he => .inl ?_) (by simp)
      · simp [route, hst]
      · simpa [waiting, hc] using he

theorem Path.eventEngine {full : Bool}
    (h : Path sid n₀ t A N sent) (htimers : t.Timers) (hok : orderly sid t (.eventEngine full) = true)
    (hs : t.step sid time64us (.eventEngine full) = some u) : Path sid n₀ u A N sent := by
  simp only [step, Toe.eventEngine, Option.some.injEq] at hs
  have hfw := forwards full t.engine t.engineIn
  have htame := h.tame
  have hquiet := h.quiet
  generalize eeForward full t.engine t.engineIn = v at hfw hs
  obtain ⟨i, out⟩ := v
  subst hs
  cases hfw with
  | rxEng ev rest hfull hrx =>
    simp only [orderly, hrx, hfull, Bool.or_eq_true, Bool.not_eq_true'] at hok
    have hmem : ev ∈ t.waiting := by simp [waiting, hrx]
    refine h.join rfl rfl rfl rfl (e := ev) (t.send.tx.fifo.eventEng2txEngEvent ++ t.delayIn)
      ((t.engineIn.txApp2eventEngSetEvent ++ t.merge.txAppStream2eventMergeEvent).map
        Event.extended) rfl (by simp [route]) (hquiet _ hmem) ?_ ?_ ?_
    · intro hf
      rcases hok with hok | hok
      · rw [hok] at hf
        cases hf
      · exact any_isData hok
    · intro e he
      apply htame
      simp only [route, waiting, hrx] at he ⊢
      grind
    · intro e he
      apply hquiet
      simp only [waiting, hrx] at he ⊢
      grind
  | timer ev rest ht =>
    have hmem : ev.extended ∈ t.waiting := by simp [waiting, ht]
    refine h.join rfl rfl rfl rfl (e := ev.extended)
      (t.send.tx.fifo.eventEng2txEngEvent ++ t.delayIn)
      ((t.engineIn.txApp2eventEngSetEvent ++ t.merge.txAppStream2eventMergeEvent).map
        Event.extended) rfl (by simp [route]) (hquiet _ hmem) ?_ ?_ ?_
    · -- a timer raises no FIN
      intro hf
      have := htimers ev (by simp [ht])
      simp only [Event.isFin, extended_toEvent, Bool.and_eq_true, beq_iff_eq] at hf
      simp [timed, hf.1] at this
    · intro e he
      apply htame
      simp only [route, waiting, ht] at he ⊢
      grind
    · intro e he
      apply hquiet
      simp only [waiting, ht] at he ⊢
      grind
  | txApp ev rest ha =>
    refine h.wait rfl rfl rfl rfl ?_ [] (fun e he => .inl he) (by simp)
    simp [route, ha]
  | none =>
    refine h.wait rfl rfl rfl rfl ?_ [] (fun e he => .inl he) (by simp)
    simp [route]

theorem Path.ackDelay {full : Bool}
    (h : Path sid n₀ t A N sent) (hs : t.step sid time64us (.ackDelay full) = some u) :
    Path sid n₀ u A N sent := by
  simp only [step, Option.some.injEq] at hs
  have hd := delays time64us full t.delay t.delayIn
  generalize Toe.ackDelay time64us full t.delay t.delayIn = v at hd hs
  obtain ⟨delay, delayIn, out, reads⟩ := v
  dsimp only at hd hs
  generalize hin : t.delayIn = input at hd
  subst hs
  have htame := h.tame
  have hack {e : ExtendedEvent b} (he : e.type = ACK) :
      FinNet.raised sid e = true ∧ e.isData sid = false ∧ e.isFin sid = false :=
    ⟨raised_of_type (by simp [he]) (by simp [he]) (by simp [he]), isData_of_type (by simp [he]),
      by simp [Event.isFin, he]⟩
  have hord := h.order
  cases hd with
  | hold ev =>
    next hev =>
    refine h.reroute _ rfl rfl rfl rfl ?_ ?_ ?_ h.quiet
    · simp [route, hin, lengths_cons_other (hack hev).2.1]
    · simp only [route, hin, List.append_nil, List.append_assoc, List.cons_append] at hord ⊢
      rw [← List.append_assoc] at hord ⊢
      exact hord.remove
    · intro e he
      apply htame
      simp only [route, waiting, hin] at he ⊢
      grind
  | forward ev =>
    refine h.reroute _ rfl rfl rfl rfl ?_ ?_ ?_ h.quiet
    · simp [route, hin]
    · simpa [route, hin] using hord
    · intro e he
      apply htame
      simp only [route, waiting, hin] at he ⊢
      grind
  | tick _ hout =>
    refine h.reroute _ rfl rfl rfl rfl ?_ ?_ ?_ h.quiet
    · have hnil : lengths sid out = [] := lengths_eq_nil.mpr fun e he => (hack (hout e he)).2.1
      simp [route, hin, hnil]
    · simp only [route, hin, List.append_nil, List.append_assoc] at hord ⊢
      rw [← List.append_assoc] at hord ⊢
      exact hord.insert_all fun e he => (hack (hout e he)).2
    · intro e he
      by_cases hmem : e ∈ out
      · exact (hack (hout e hmem)).1
      · apply htame
        simp only [route, waiting, hin] at he ⊢
        grind

theorem Path.appIf {s : TxAppIf} {i : TxAppIfIn}
    (h : Path sid n₀ t A N sent) (hs : t.step sid time64us (.appIf s i) = some u) :
    Path sid n₀ u A N sent := by
  have hraises := txAppIf_raises (b := b) 0 s i
  simp only [step] at hs
  generalize (txAppIf b 0 s i).2.2.txApp2eventEngSetEvent = events at hs hraises
  split at hs
  · cases hs
  · next hopen =>
      cases hs
      refine h.wait rfl rfl rfl rfl rfl (events.map Event.extended) ?_ ?_
      · intro e he
        simp only [waiting] at he ⊢
        grind
      · intro e he
        obtain ⟨ev, hev, rfl⟩ := List.mem_map.mp he
        obtain ⟨htype, hrt⟩ := hraises ev hev
        have hno := List.any_eq_false.mp (Bool.not_eq_true _ ▸ hopen) ev hev
        rcases htype with htype | htype
        · refine ⟨?_, isData_of_type (by simp [htype])⟩
          simp only [htype, Bool.and_eq_true, beq_iff_eq, and_true] at hno
          simp [FinNet.raised, Event.extended, hno, htype]
        · refine ⟨?_, isData_of_type (by simp [htype])⟩
          simp [FinNet.raised, Event.extended, ExtendedEvent.opens, htype, hrt]

theorem Path.reset {m : RxEngineMetaData} {tuple : FourTuple}
    (h : Path sid n₀ t A N sent) (hs : t.step sid time64us (.reset m tuple) = some u) :
    Path sid n₀ u A N sent := by
  cases hs
  refine h.wait rfl rfl rfl rfl rfl (closedPortReset b m tuple) ?_ ?_
  · intro e he
    simp only [waiting] at he ⊢
    grind
  · intro e he
    have htype := closedPortReset_type m tuple e he
    exact ⟨raised_of_type (by simp [htype]) (by simp [htype]) (by simp [htype]),
      isData_of_type (by simp [htype])⟩

theorem Path.rxEventMerger (h : Path sid n₀ t A N sent)
    (hs : t.step sid time64us .rxEventMerger = some u) : Path sid n₀ u A N sent := by
  simp only [step, Toe.rxEventMerger, Option.some.injEq] at hs
  subst hs
  -- the event stays among the waiting ones
  refine h.wait rfl rfl rfl rfl ?_ [] (fun e he => .inl ?_) (by simp)
  · split <;> simp [route]
  · simp only [waiting] at he ⊢
    split at he <;> grind

theorem Path.timer {e : Event b} (h : Path sid n₀ t A N sent)
    (hs : t.step sid time64us (.timer e) = some u) : Path sid n₀ u A N sent := by
  simp only [step] at hs
  split at hs
  · next ht =>
      cases hs
      refine h.wait rfl rfl rfl rfl rfl [e.extended] ?_ ?_
      · intro e' he'
        simp only [waiting] at he' ⊢
        grind
      · intro e' he'
        rw [List.mem_singleton] at he'
        subst he'
        simp only [timed, Bool.or_eq_true, Bool.and_eq_true, beq_iff_eq, bne_iff_ne] at ht
        rcases ht with ht | ⟨ht | ht, hrt⟩
        · exact ⟨raised_of_type (by simp [ht, Event.extended]) (by simp [ht, Event.extended])
            (by simp [ht, Event.extended]), isData_of_type (by simp [ht])⟩
        -- a repeated SYN or SYN-ACK does not open
        · refine ⟨?_, isData_of_type (by simp [ht])⟩
          simp only [FinNet.raised, ExtendedEvent.opens, Event.extended, ht]
          simpa using .inr hrt
        · refine ⟨?_, isData_of_type (by simp [ht])⟩
          simp only [FinNet.raised, ExtendedEvent.opens, Event.extended, ht]
          simpa using .inr hrt
  · cases hs

/-- The receive side moves; its events wait for the mergers. -/
theorem Path.receive {rx : FsmNet b}
    (h : Path sid n₀ t A N sent) (hu : u = { t with
      send := { t.send with rx }, rxMerge := { t.rxMerge with in2 := t.rxMerge.in2 ++ es } })
    (he : SendNet.Engines sid { t.send with rx })
    (hw : SendNet.Window sid { t.send with rx } A N (n₀ + sent.sum + (t.finSent sid).toNat))
    (hes : ∀ e ∈ es, FinNet.raised sid e.extended = true ∧ e.isData sid = false) :
    Path sid n₀ u A N sent := by
  have hwait : ∀ e ∈ u.waiting, e ∈ t.waiting ∨ e ∈ es.map Event.extended := by
    intro e he
    rw [hu] at he
    simp only [waiting] at he ⊢
    grind
  have hes' : ∀ e ∈ es.map Event.extended, FinNet.raised sid e = true ∧ e.isData sid = false := by
    intro e he
    obtain ⟨ev, hev, rfl⟩ := List.mem_map.mp he
    exact hes ev hev
  subst hu
  refine { h with engines := he, window := hw, tame := fun e hm => ?_, quiet := fun e hm => ?_ }
  · rcases List.mem_append.mp hm with hm | hm
    · exact h.tame e (List.mem_append_left _ hm)
    · rcases hwait e hm with hm | hm
      · exact h.tame e (List.mem_append_right _ hm)
      · exact (hes' e hm).1
  · rcases hwait e hm with hm | hm
    · exact h.quiet e hm
    · exact (hes' e hm).2

theorem rxEvents_raised {t : PathNet b} {e : RxTcpFsmEnv b} (hok : t.send.ackChecked sid = true) :
    ∀ ev ∈ t.rxEvents (.call e), FinNet.raised sid ev.extended = true ∧ ev.isData sid = false := by
  intro ev hev
  simp only [rxEvents, rxTcpFSM] at hev
  split at hev
  · split at hev <;> cases hev
  · next hT =>
      split at hev
      · next tcpState states rxSar entries hst hrx _ =>
          obtain ⟨hid, hTX, hfin, hopen⟩ := transition_events _ _ _ _ _ ev hev
          refine ⟨?_, isData_of_type hTX⟩
          simp only [FinNet.raised, Bool.and_eq_true, Bool.not_eq_true', Bool.and_eq_false_imp, beq_iff_eq,
            bne_eq_false_iff_eq]
          refine ⟨?_, fun hf => (hfin hf).1⟩
          intro hsid
          -- only a SYN that is taken opens the session, and the check excludes it
          rw [← Bool.not_eq_true]
          intro ho
          obtain ⟨hsyn, hstate⟩ := hopen ho
          have hid' : t.send.rx.fsm.fsmMeta.sessionID = sid := hid ▸ hsid
          simp [SendNet.ackChecked, hT, hst, hrx, hid', hsyn] at hok
          simp [hok] at hstate
      · cases hev

theorem Path.rx {l : FsmLabel b} (h : Path sid n₀ t A N sent)
    (hok : orderly sid t (.rx l) = true) (hs : t.step sid time64us (.rx l) = some u) :
    Path sid n₀ u A N sent := by
  have he := h.engines
  have hw := h.window
  cases l with
  | txSarTable r => cases hs
  | call e =>
    simp only [step, Option.map_eq_some_iff] at hs
    obtain ⟨rx, hrx, rfl⟩ := hs
    exact h.receive rfl (he.rxCall hrx) (hw.rxCall he hok hrx) (rxEvents_raised hok)
  | arrive m =>
    simp only [step, Option.map_eq_some_iff] at hs
    obtain ⟨rx, hrx, rfl⟩ := hs
    have hinv := Toe.inv_step he.rx hrx
    cases hrx
    exact h.receive rfl (he.rxSame hinv rfl rfl rfl) (hw.rxSame rfl rfl rfl) (by simp [rxEvents])
  | stateTable | rxSarTable =>
    simp only [step, Option.map_eq_some_iff] at hs
    obtain ⟨rx, hrx, rfl⟩ := hs
    have hinv := Toe.inv_step he.rx hrx
    simp only [FsmNet.step] at hrx
    split at hrx <;> cases hrx
    exact h.receive rfl (he.rxSame hinv rfl rfl rfl) (hw.rxSame rfl rfl rfl) (by simp [rxEvents])

theorem Path.rxSarRsp {r : RxSarReply}
    (h : Path sid n₀ t A N sent) (hs : t.step sid time64us (.rxSarRsp r) = some u) :
    Path sid n₀ u A N sent := by
  have he := h.engines
  cases hs
  exact { h with engines := { he with tx := { he.tx with } }, window := { h.window with } }

theorem Path.appPush {p : TxAppTxSarPush b}
    (h : Path sid n₀ t A N sent) (hs : t.step sid time64us (.appPush p) = some u) :
    Path sid n₀ u A N sent := by
  have he := h.engines
  cases hs
  exact { h with engines := { he with tx := { he.tx with } }, window := { h.window with } }

theorem Path.withApp {t : PathNet b} {app : AppNet b} (h : Path sid n₀ t A N sent)
    (happ : ∀ P, AppNet.Live sid t.app A P → AppNet.Live sid app A P) :
    Path sid n₀ { t with app } A N sent :=
  { h with app := fun hf => happ _ (h.app hf) }

theorem tasi_events (t : AppNet b) :
    ∀ e ∈ t.callTasi.2.txAppStream2eventEngSetEvent, e.type = TX := by
  have hcalled := t.called
  generalize t.callTasi = u at hcalled
  intro e he
  cases hcalled with
  | idle => cases he
  | request => cases he
  | answer r rs state states hs hr hstate out ha =>
    cases ha with
    | refused => cases he
    | accepted =>
      rw [List.mem_singleton] at he
      rw [he]

theorem isData_other {e : Event b} (h : e.sessionID ≠ sid) : e.isData sid = false := by
  simp [Event.isData, h]

/-- The event of an accepted write continues the stream at `P`. -/
theorem accepts_blocks {P P' : Nat} (h : AppNet.Accepts sid P P' es) :
    P' = P + (lengths sid (es.map Event.extended)).sum ∧
      (es.filter (·.isData sid)).map (fun e => (e.address, e.length.toNat)) =
        blocks _ P (lengths sid (es.map Event.extended)) := by
  cases h with
  | none _ hother hP =>
    have hdata : ∀ e ∈ es, e.isData sid = false := fun e he => isData_other (hother e he)
    have hnil : lengths sid (es.map Event.extended) = [] := by
      rw [lengths_eq_nil]
      intro e he
      obtain ⟨ev, hev, rfl⟩ := List.mem_map.mp he
      exact hdata ev hev
    rw [hnil, hP, List.filter_eq_nil_iff.mpr fun e he => by simp [hdata e he]]
    exact ⟨rfl, rfl⟩
  | write e hid htype hrt haddr hP =>
    by_cases h0 : e.length = 0
    · have hdata : e.isData sid = false := by simp [Event.isData, h0]
      simp [lengths, hdata, hP, h0]
    · have hdata : e.isData sid = true := by simpa [Event.isData, hid, htype] using h0
      simp [lengths, hdata, hP, haddr, Event.extended, blocks]

/-- A write of `sid` is accepted at the end of the stream, as long as the session is not closing. -/
theorem Path.tasi (hb : b.tcpNodelay = true)
    (h : Path sid n₀ t A N sent) (hok : orderly sid t (.app .tasi) = true)
    (hs : t.step sid time64us (.app .tasi) = some u) : Path sid n₀ u A N sent := by
  simp only [step, Option.some.injEq] at hs
  have hacc : t.finSent sid = false → ∃ P', AppNet.Live sid t.app.callTasi.1 A P' ∧ AppNet.Accepts sid
      (n₀ + (sent ++ lengths sid (t.current ++ t.route)).sum) P'
      t.app.callTasi.2.txAppStream2eventEngSetEvent := fun hf => (h.app hf).callTasi (.inl hb)
  simp only [orderly, Bool.or_eq_true, Bool.not_eq_true', closing, Bool.or_eq_false_iff] at hok
  have htypes := tasi_events t.app
  generalize t.app.callTasi = v at hs hacc hok htypes
  obtain ⟨app, out⟩ := v
  dsimp only at hs hacc hok htypes
  generalize out.txAppStream2eventEngSetEvent = es at hs hacc hok htypes
  -- what the new events add to the stream
  have hnew : lengths sid (es.map Event.extended) ≠ [] →
      t.finSent sid = false ∧ (t.current ++ t.route ++ t.waiting).any (·.isFin sid) = false := by
    intro hne
    rcases hok with hok | hok
    · refine absurd (lengths_eq_nil.mpr fun e he => ?_) hne
      obtain ⟨ev, hev, rfl⟩ := List.mem_map.mp he
      exact isData_other (by simpa using List.any_eq_false.mp hok ev hev)
    · exact hok
  have hwrites : (es.filter (·.isData sid)).map (fun e => (e.address, e.length.toNat)) =
      blocks _ (n₀ + (sent ++ lengths sid (t.current ++ t.route)).sum)
        (lengths sid (es.map Event.extended)) := by
    cases hf : t.finSent sid with
    | false =>
      obtain ⟨P', -, ha⟩ := hacc hf
      exact (accepts_blocks ha).2
    | true =>
      have hnil : lengths sid (es.map Event.extended) = [] := by
        by_contra hne
        rw [(hnew hne).1] at hf
        cases hf
      rw [hnil, List.filter_eq_nil_iff.mpr]
      · rfl
      · intro e he
        have := lengths_eq_nil.mp hnil _ (List.mem_map_of_mem he)
        rw [extended_toEvent] at this
        simp [this]
  have hroute : u.route = t.route ++ es.map Event.extended := by
    rw [← hs]
    simp [route]
  have hcur : u.current = t.current := by
    rw [← hs]
    rfl
  have hfin : u.finSent sid = t.finSent sid := by
    rw [← hs]
    rfl
  have hlens : sent ++ lengths sid (u.current ++ u.route) =
      (sent ++ lengths sid (t.current ++ t.route)) ++ lengths sid (es.map Event.extended) := by
    rw [hroute, hcur]
    simp
  have hsum := h.room
  have happ : t.finSent sid = false → AppNet.Live sid app A
      (n₀ + ((sent ++ lengths sid (t.current ++ t.route)) ++ lengths sid (es.map Event.extended)).sum) := by
    intro hf
    obtain ⟨P', hlive, ha⟩ := hacc hf
    rw [List.sum_append, ← Nat.add_assoc, ← (accepts_blocks ha).1]
    exact hlive
  subst hs
  refine { h with writes := ?_, room := ?_, app := ?_, order := ?_, done := fun hf => ?_, tame := fun e he => ?_ }
  · rw [hlens, blocks_append, ← hwrites, ← h.writes]
    simp [PathNet.writes]
  · rw [hlens]
    by_cases hnil : lengths sid (es.map Event.extended) = []
    · rw [hnil, List.append_nil]
      exact h.room
    · exact (happ (hnew hnil).1).bounds.2
  · rw [hlens]
    exact happ
  · rw [hcur, hroute, ← List.append_assoc]
    by_cases hnil : lengths sid (es.map Event.extended) = []
    · refine List.pairwise_append.mpr ⟨h.order, FinBehind.of_lengths hnil, ?_⟩
      exact fun _ _ e' he' _ => lengths_eq_nil.mp hnil e' he'
    · -- data is added only when no FIN is around
      have hno := List.any_eq_false.mp (hnew hnil).2
      refine List.pairwise_append.mpr ⟨h.order, ?_, ?_⟩
      · refine List.pairwise_of_forall_mem_list fun e he _ _ hf => ?_
        obtain ⟨ev, hev, rfl⟩ := List.mem_map.mp he
        simp [Event.isFin, htypes ev hev] at hf
      · exact fun e he _ _ hf => absurd hf (hno e (List.mem_append_left _ he))
  · rw [hfin] at hf
    have hnil : lengths sid (es.map Event.extended) = [] := by
      by_contra hne
      rw [(hnew hne).1] at hf
      cases hf
    rw [hcur, hroute, ← List.append_assoc, lengths_append, hnil, h.done hf]
    rfl
  · rw [hroute] at he
    by_cases hmem : e ∈ es.map Event.extended
    · obtain ⟨ev, hev, rfl⟩ := List.mem_map.mp hmem
      have := htypes ev hev
      exact raised_of_type (by simp [this]) (by simp [this]) (by simp [this])
    · have hold : e ∈ t.route ++ es.map Event.extended ++ t.waiting := he
      apply h.tame
      grind

theorem sent_le_total (h : Path sid n₀ t A N sent) :
    n₀ + sent.sum ≤ n₀ + (sent ++ lengths sid (t.current ++ t.route)).sum := by
  rw [List.sum_append]
  omega

/-- The table serves a request: `ackd` may move, and the application learns of it. -/
theorem Path.txSarTable (h : Path sid n₀ t A N sent)
    (hs : t.step sid time64us .txSarTable = some u) : ∃ A' N', Path sid n₀ u A' N' sent := by
  simp only [step, Option.some.injEq] at hs
  obtain ⟨A', N', hw', hA, hA', hN, hpush⟩ := h.window.table h.engines
  have he' := h.engines.table
  have hfin : u.finSent sid = t.finSent sid := by
    rw [← hs, finSent, finSent]
    exact congrArg SendPoint.finSent (t.send.tx.callTable_sendPoint _ sid)
  have hroom := h.room
  have hlow := h.low
  subst hs
  refine ⟨A', N', { h with
    engines := he', window := hfin ▸ hw', low := by omega, room := ?_, app := fun hf => ?_, done := hfin ▸ h.done
    repeated := hfin ▸ h.repeated, held := ?_, register := hfin ▸ h.register }⟩
  · exact Nat.lt_of_lt_of_le hroom (Nat.add_le_add_right hA _)
  · have hle := h.window.tx.le
    have htotal := sent_le_total h
    rw [hfin] at hf
    simp only [hf, Bool.toNat_false] at hle
    exact (h.app hf).push hpush hA (by omega)
  · -- a new reply shows the window as it is, with no write of `sid` behind it
    rw [hfin]
    have hserved := t.send.tx.served t.send.rx.txSarReq
    intro r hr hid
    change r ∈ (t.send.tx.callTable t.send.rx.txSarReq).1.fifo.txSar2txEngUpdRsp at hr
    generalize t.send.tx.callTable t.send.rx.txSarReq = v at hserved hr
    cases hserved with
    | txWrite | app | rxWrite | rxRead | none => exact h.held r hr hid
    | txRead q rest hq hwr =>
      rcases List.mem_append.mp hr with hold | hnew
      · exact h.held r hold hid
      · rw [List.mem_singleton] at hnew
        have hc := h.engines.tx.client
        have hmv := h.window.tx
        rw [hq] at hc hmv
        obtain ⟨-, rfl, -⟩ := hc.serve_read hwr
        have hNP : N = _ := (Moves.cons_none (by simp [TxTxSarQuery.moves, hwr])).mp hmv
        have hsid : q.sessionID = sid :=
          (h.engines.tx.asked q (hq ▸ List.mem_cons_self) hwr).trans hid
        have hentry : t.send.tx.table q.sessionID = t.send.entry sid := by
          rw [hsid]
          rfl
        have hfin01 : (t.finSent sid).toNat ≤ 1 := Bool.toNat_le _
        have htotal := sent_le_total h
        have hle := h.window.le
        have hlt := h.window.lt
        refine ⟨A, hlow, by omega, by omega, ?_, ?_⟩
        · rw [hnew, hentry]
          exact h.window.ackd
        · rw [hnew, hentry]
          show ((t.send.entry sid).notAckd - (t.send.entry sid).ackd).setWidth _ = _
          have hsub : BitVec.ofNat 32 N - BitVec.ofNat 32 A = BitVec.ofNat 32 (N - A) := by
            obtain ⟨k, rfl⟩ := Nat.exists_eq_add_of_le hle
            rw [Nat.add_sub_cancel_left, BitVec.ofNat_add, BitVec.add_comm]
            exact BitVec.add_sub_cancel _ _
          rw [h.window.ackd, h.window.notAckd, hsub, setWidth_ofNat b.windowBits_le, hNP]

/-! ### `metaLoader` -/

theorem current_work (h : t.send.tx.ml.mlFsmState = .WORK) :
    t.current = [t.send.tx.ml.mlCurEvent] := if_pos h

theorem current_idle (h : t.send.tx.ml.mlFsmState = .IDLE) : t.current = [] :=
  if_neg (by simp [h])

/-- The event worked on leaves less than a turn of sequence numbers in flight: its bytes are counted in
`mempt` already. -/
theorem Path.flightBounded (h : Path sid n₀ t A N sent) : t.send.flightBounded sid = true := by
  by_cases hW : t.send.tx.ml.mlFsmState = .WORK
  · by_cases hid : t.send.tx.ml.mlCurEvent.sessionID = sid
    · have hle := Nat.le_trans h.window.le h.window.tx.le
      have hlt := h.window.lt
      have hroom := h.room
      have hdone := h.done
      rw [current_work hW] at hroom hdone
      have hsize : b.bufferSize ≤ 262144 := by
        rcases b.bufferSize_eq with hs | hs <;> omega
      have hfin : (t.finSent sid).toNat ≤ 1 := Bool.toNat_le _
      have hadv : n₀ + sent.sum + (t.finSent sid).toNat + t.send.tx.ml.mlCurEvent.advance <
          A + 2 ^ 32 := by
        cases hd : t.send.tx.ml.mlCurEvent.isData sid with
        | true =>
          have hlen := lengths_cons_data hd t.route
          rw [List.cons_append, List.nil_append, hlen] at hroom hdone
          have htype : t.send.tx.ml.mlCurEvent.type = TX := by
            simp only [Event.isData, Bool.and_eq_true, beq_iff_eq] at hd
            exact hd.1.1
          cases hf : t.finSent sid with
          | true => cases hdone hf
          | false =>
            simp only [List.sum_append, List.sum_cons] at hroom
            simp only [ExtendedEvent.advance, htype, Bool.toNat_false]
            omega
        | false =>
          have : t.send.tx.ml.mlCurEvent.advance ≤ 1 := by
            unfold ExtendedEvent.advance
            split
            · next htype =>
                -- an empty write
                simp only [Event.isData, htype, hid, beq_self_eq_true, Bool.and_self, Bool.true_and,
                  bne_eq_false_iff_eq] at hd
                simp [hd]
            · exact Nat.le_refl 1
            · exact Nat.zero_le 1
          rw [List.sum_append] at hroom
          omega
      simp only [SendNet.flightBounded, hW, hid, h.window.sendPoint, h.window.ackd,
        ofNat_sub_toNat hle hlt, bne_self_eq_false, Bool.false_or, decide_eq_true_eq]
      omega
    · simp [SendNet.flightBounded, hid]
  · simp [SendNet.flightBounded, hW]

/-- The position of `not_ackd` is read off the send point. -/
theorem Path.windowAt (h : Path sid n₀ t A N sent) {tx : TxNet b} {P P' : Nat}
    (hw : SendNet.Window sid { t.send with tx } A N P') (hpoint : (tx.sendPoint sid).notAckd = BitVec.ofNat 32 P)
    (hle : N ≤ P) (hlt : P < A + 2 ^ 32) : SendNet.Window sid { t.send with tx } A N P := by
  have hP : P' = P := by
    have hle' := hw.tx.le
    have hlt' := hw.lt
    have hA := h.window.le
    exact ofNat_inj (hw.sendPoint.symm.trans hpoint) (by omega) (by omega)
  rw [← hP]
  exact hw

/-- The send point of `sid` after `metaLoader` has worked on its event. -/
theorem work_sendPoint (h : Path sid n₀ t A N sent) (rxSar : RxSarReply)
    (hW : t.send.tx.ml.mlFsmState = .WORK)
    (hr : t.send.tx.ml.asks = true ∨ t.send.tx.ml.loaded = true →
      r.sendPoint = t.send.tx.sendPoint t.send.tx.ml.mlCurEvent.sessionID) :
    let e := t.send.tx.ml.mlCurEvent
    (((t.send.tx.ml.handle rxSar r).2.txEng2txSarUpdReq.filter
        (fun q => q.write && q.sessionID == sid)).foldl SendPoint.update (t.send.tx.sendPoint sid)) =
      if e.sessionID = sid ∧ (e.type = TX ∨ e.type = FIN ∧ e.rtCount = 0) then
        ⟨(t.send.tx.sendPoint sid).notAckd + BitVec.ofNat 32 e.advance, t.finSent sid || e.type == FIN⟩
      else t.send.tx.sendPoint sid := by
  intro e
  by_cases hid : e.sessionID = sid
  · have hopen : e.opens = false := by
      have := h.engines.event hW
      simpa [show t.send.tx.ml.mlCurEvent.sessionID = sid from hid] using this
    rw [show t.send.tx.ml.mlCurEvent.sessionID = sid from hid] at hr
    rw [MetaLoader.handle_sendPoint hopen hid rxSar r hr]
    simp only [hid, true_and]
    rfl
  · have hother := t.send.tx.ml.handle_writes rxSar r
    rw [(FinNet.foldl_other (fun q hq => (hother q hq).2) hid).1, if_neg fun hc => hid hc.1]
    rfl

theorem work_held (h : Path sid n₀ t A N sent) {fifo : MetaLoaderIn b}
    (hW : t.send.tx.ml.mlFsmState = .WORK) (ht : t.send.tx.ml.Taken t.send.tx.fifo fifo r)
    (hid : t.send.tx.ml.mlCurEvent.sessionID = sid) (hrt : t.send.tx.ml.mlCurEvent.type = RT) :
    Held n₀ (n₀ + sent.sum + (t.finSent sid).toNat) r := by
  cases hl : t.send.tx.ml.loaded with
  | true =>
    rw [ht.register hl]
    exact h.register hW hl hid
  | false =>
    have hask : t.send.tx.ml.asks = true := by simp [MetaLoader.asks, hrt, hl]
    refine h.held r ?_ hid
    rw [ht.fifo, hask, if_pos rfl]
    exact List.mem_cons_self

/-- What holds of `metaLoader` after it has worked on an event: no reply is left, and it goes on only
with a retransmission, with the rest of its segments or with the FIN. -/
theorem work_next (rxSar : RxSarReply)
    (hr : t.send.tx.ml.asks = true ∨ t.send.tx.ml.loaded = true →
      r.sendPoint = t.send.tx.sendPoint t.send.tx.ml.mlCurEvent.sessionID)
    {tx : TxNet b} (htx : tx.Inv) (hml : tx.ml = (t.send.tx.ml.handle rxSar r).1) :
    tx.fifo.txSar2txEngUpdRsp = [] ∧
      (tx.ml.mlFsmState = .IDLE ∨
        t.send.tx.ml.mlCurEvent.type = RT ∧ tx.ml.mlFsmState = .WORK ∧
          (tx.ml.mlCurEvent = t.send.tx.ml.mlCurEvent ∨
            (t.send.tx.sendPoint t.send.tx.ml.mlCurEvent.sessionID).finSent = true ∧
              tx.ml.mlCurEvent = { t.send.tx.ml.mlCurEvent with type := FIN })) := by
  have hnext := t.send.tx.ml.handle_next rxSar r
  rw [← hml] at hnext
  rcases hnext with hI | ⟨hrt, hW, hl, hcur, -⟩
  · exact ⟨(htx.quiet (by simp [MetaLoader.waiting, hI])).1, .inl hI⟩
  · refine ⟨(htx.quiet (by simp [MetaLoader.waiting, MetaLoader.asks_of_loaded hl])).1,
      .inr ⟨hrt, hW, ?_⟩⟩
    rcases hcur with hcur | ⟨hfin, hcur⟩
    · exact .inl hcur
    · refine .inr ⟨?_, hcur⟩
      have hheld : t.send.tx.ml.asks = true ∨ t.send.tx.ml.loaded = true := by
        cases hl : t.send.tx.ml.loaded <;> simp [MetaLoader.asks, hrt, hl]
      rw [← hr hheld]
      exact hfin

/-- A call of `metaLoader`, seen from the path. -/
structure MlCall (t u : PathNet b) (tx : TxNet b) (log : List (ExtendedEvent b × TxEngineMeta)) : Prop where
  send : u.send = { t.send with tx }
  app : u.app = t.app
  accepted : u.accepted = t.accepted
  emitted : u.emitted = t.emitted ++ log
  queues : u.merge = t.merge ∧ u.rxMerge = t.rxMerge ∧ u.delayIn = t.delayIn ∧
    u.engineIn.txApp2eventEngSetEvent = t.engineIn.txApp2eventEngSetEvent ∧
    u.engineIn.rxEng2eventEngSetEvent = t.engineIn.rxEng2eventEngSetEvent ∧
    u.engineIn.timer2eventEngSetEvent = t.engineIn.timer2eventEngSetEvent

variable {u : PathNet b} {tx : TxNet b} {log : List (ExtendedEvent b × TxEngineMeta)}

theorem MlCall.waiting (h : MlCall t u tx log) : u.waiting = t.waiting := by
  obtain ⟨hm, hr, -, -, hrx, htm⟩ := h.queues
  simp [PathNet.waiting, hm, hr, hrx, htm]

/-- The route behind the FIFO of `metaLoader`. -/
def behind (t : PathNet b) : List (ExtendedEvent b) :=
  t.delayIn ++
    (t.engineIn.txApp2eventEngSetEvent ++ t.merge.txAppStream2eventMergeEvent).map Event.extended

theorem route_eq (t : PathNet b) : t.route = t.send.tx.fifo.eventEng2txEngEvent ++ t.behind := by
  simp [route, behind]

theorem MlCall.behind (h : MlCall t u tx log) : u.behind = t.behind := by
  obtain ⟨hm, -, hd, ha, -, -⟩ := h.queues
  simp [PathNet.behind, hm, hd, ha]

/-- The stream after a call that emits the lengths `new` and leaves the rest of the stream on the path. -/
theorem Path.mlCall (h : Path sid n₀ t A N sent) (new : List Nat) (hu : MlCall t u tx log)
    (he : SendNet.Engines sid { t.send with tx }) {P' : Nat}
    (hw : SendNet.Window sid { t.send with tx } A N P')
    (hpoint : (tx.sendPoint sid).notAckd =
      BitVec.ofNat 32 (n₀ + (sent ++ new).sum + (u.finSent sid).toNat))
    (hmono : t.finSent sid = true → u.finSent sid = true)
    (hseg : PathNet.segments log sid = blocks 32 (n₀ + sent.sum) new)
    (hlens : new ++ lengths sid (u.current ++ u.route) = lengths sid (t.current ++ t.route))
    (horder : FinBehind sid (u.current ++ u.route))
    (hdone : u.finSent sid = true → lengths sid (u.current ++ u.route) = [])
    (hroute : ∀ e ∈ u.route, e ∈ t.route)
    (hrep : ∀ e ∈ u.current, e.isFin sid = true → e.rtCount ≠ 0 → u.finSent sid = true)
    (hheld : tx.fifo.txSar2txEngUpdRsp = t.send.tx.fifo.txSar2txEngUpdRsp ∧ tx.ml = t.send.tx.ml ∧
        new = [] ∧ u.finSent sid = t.finSent sid ∨ tx.fifo.txSar2txEngUpdRsp = [])
    (hreg : tx.ml.mlFsmState = .WORK → tx.ml.loaded = true → tx.ml.mlCurEvent.sessionID = sid →
      Held n₀ (n₀ + (sent ++ new).sum + (u.finSent sid).toNat) tx.ml.txSarReg) :
    Path sid n₀ u A N (sent ++ new) := by
  have htotal : sent ++ new ++ lengths sid (u.current ++ u.route) =
      sent ++ lengths sid (t.current ++ t.route) := by
    rw [List.append_assoc, hlens]
  have hroom := h.room
  have hlt := h.window.lt
  have hNle := h.window.tx.le
  have hfin01 : (u.finSent sid).toNat ≤ 1 := Bool.toNat_le _
  have hfinle : (t.finSent sid).toNat ≤ (u.finSent sid).toNat := by
    cases hf : t.finSent sid with
    | false => exact Nat.zero_le _
    | true => rw [hmono hf]
  have hsize : b.bufferSize ≤ 262144 := by
    rcases b.bufferSize_eq with hs | hs <;> omega
  have hsum : n₀ + (sent ++ new).sum ≤ n₀ + (sent ++ lengths sid (t.current ++ t.route)).sum := by
    simp only [← htotal, List.sum_append]
    omega
  refine ⟨by rw [hu.send]; exact he, ?_, h.low, ?_, ?_, by rw [htotal]; exact hroom, ?_, horder, hdone,
    ?_, by rw [hu.waiting]; exact h.quiet, hrep, ?_, by rw [hu.send]; exact hreg⟩
  · rw [hu.send]
    refine h.windowAt hw hpoint ?_ (by omega)
    rw [List.sum_append]
    omega
  · rw [hu.emitted, blocks_append, ← h.segments, ← hseg]
    simp [PathNet.segments]
  · rw [htotal, ← h.writes, PathNet.writes, PathNet.writes, hu.accepted]
  · intro hf
    rw [htotal, hu.app]
    refine h.app ?_
    cases hf' : t.finSent sid with
    | false => rfl
    | true =>
      rw [hmono hf'] at hf
      cases hf
  · intro e hm
    rw [hu.waiting] at hm
    rcases List.mem_append.mp hm with hm | hm
    · exact h.tame e (List.mem_append_left _ (hroute e hm))
    · exact h.tame e (List.mem_append_right _ hm)
  · rw [hu.send]
    intro r hm hid
    rcases hheld with ⟨hrsp, hml, rfl, hsame⟩ | hnil
    · rw [List.append_nil, hsame]
      refine h.held r ?_ ?_
      · rw [← hrsp]
        exact hm
      · rw [← hml]
        exact hid
    · rw [show _ = [] from hnil] at hm
      cases hm

theorem Path.mlIdle {ml : MetaLoader b} (h : Path sid n₀ t A N sent)
    (hu : MlCall t u { t.send.tx with ml } []) (he : SendNet.Engines sid u.send) {P' : Nat}
    (hw : SendNet.Window sid u.send A N P')
    (hml : ml = t.send.tx.ml ∨ t.send.tx.ml.mlFsmState = .IDLE ∧ ml.mlFsmState = .IDLE) :
    Path sid n₀ u A N sent := by
  rw [hu.send] at he hw
  have hcur : u.current = t.current := by
    rw [current, current, hu.send]
    rcases hml with rfl | ⟨hI, hI'⟩
    · rfl
    · simp [hI, hI']
  have hroute : u.route = t.route := by
    rw [route_eq, route_eq, hu.behind, hu.send]
  have hfin : u.finSent sid = t.finSent sid := by
    rw [finSent, hu.send]
    rfl
  have := h.mlCall [] hu he hw ?_ ?_ rfl ?_ ?_ ?_ ?_ ?_ ?_ ?_
  · rwa [List.append_nil] at this
  · rw [List.append_nil, hfin]
    exact h.window.sendPoint
  · rw [hfin]
    exact fun h => h
  · rw [hcur, hroute, List.nil_append]
  · rw [hcur, hroute]
    exact h.order
  · rw [hcur, hroute, hfin]
    exact h.done
  · rw [hroute]
    exact fun e he => he
  · rw [hcur, hfin]
    exact h.repeated
  · rcases hml with rfl | ⟨hI, hI'⟩
    · exact .inl ⟨rfl, rfl, rfl, hfin⟩
    · exact .inr (h.engines.tx.quiet (by simp [MetaLoader.waiting, hI])).1
  · rcases hml with rfl | ⟨hI, hI'⟩
    · rw [List.append_nil, hfin]
      exact h.register
    · intro hW
      rw [show ml.mlFsmState = _ from hI'] at hW
      cases hW

theorem Path.mlTake {rest : List (ExtendedEvent b)}
    {ml : MetaLoader b} (h : Path sid n₀ t A N sent) (hu : MlCall t u tx [])
    (he : SendNet.Engines sid u.send) {P' : Nat} (hw : SendNet.Window sid u.send A N P')
    (hpoint : tx.sendPoint sid = t.send.tx.sendPoint sid) (hI : t.send.tx.ml.mlFsmState = .IDLE)
    (hev : t.send.tx.fifo.eventEng2txEngEvent = e :: rest) (hml : tx.ml = ml)
    (hfifo : tx.fifo = { t.send.tx.fifo with eventEng2txEngEvent := rest })
    (hW : ml.mlFsmState = .WORK) (hcurE : ml.mlCurEvent = e) (hl : ml.mlSarLoaded = false) :
    Path sid n₀ u A N sent := by
  rw [hu.send] at he hw
  have hcur : u.current = [e] := by
    rw [current_work (by rw [hu.send, hml]; exact hW), hu.send, ← hcurE, ← hml]
  have hroute : u.route = rest ++ t.behind := by
    rw [route_eq, hu.behind, hu.send, hfifo]
  have hsame : u.current ++ u.route = t.current ++ t.route := by
    rw [hcur, hroute, current_idle hI, route_eq t, hev]
    rfl
  have hfin : u.finSent sid = t.finSent sid := by
    rw [finSent, hu.send]
    exact congrArg SendPoint.finSent hpoint
  have hmem : e ∈ t.route := by
    rw [route_eq t, hev]
    simp
  have := h.mlCall [] hu he hw ?_ ?_ rfl ?_ ?_ ?_ ?_ ?_ ?_ ?_
  · rwa [List.append_nil] at this
  · rw [List.append_nil, hfin, hpoint]
    exact h.window.sendPoint
  · rw [hfin]
    exact fun h => h
  · rw [hsame, List.nil_append]
  · rw [hsame]
    exact h.order
  · rw [hsame, hfin]
    exact h.done
  · intro e' he'
    rw [hroute] at he'
    rw [route_eq t, hev]
    exact List.mem_cons_of_mem _ he'
  · intro e' he' hf hrt
    -- FIN events on the way have retry count 0
    rw [hcur, List.mem_singleton] at he'
    subst he'
    exact absurd (raised_fin (h.tame _ (List.mem_append_left _ hmem)) hf) hrt
  · right
    rw [hfifo]
    exact (h.engines.tx.quiet (by simp [MetaLoader.waiting, hI])).1
  · intro _ hload
    simp [hml, MetaLoader.loaded, hl] at hload

section

variable {rxSar : RxSarReply} {r : TxTxSarReply b} {P' : Nat} (h : Path sid n₀ t A N sent)
  (hW : t.send.tx.ml.mlFsmState = .WORK)
  (hr : t.send.tx.ml.asks = true ∨ t.send.tx.ml.loaded = true →
    r.sendPoint = t.send.tx.sendPoint t.send.tx.ml.mlCurEvent.sessionID)
  (hu : MlCall t u tx ((t.send.tx.ml.handle rxSar r).2.txEngTcpMetaFifoOut.map
    fun m => (t.send.tx.ml.mlCurEvent, m)))
  (he : SendNet.Engines sid u.send) (hw : SendNet.Window sid u.send A N P')
  (hpoint : tx.sendPoint sid = ((t.send.tx.ml.handle rxSar r).2.txEng2txSarUpdReq.filter
    (fun q => q.write && q.sessionID == sid)).foldl SendPoint.update (t.send.tx.sendPoint sid))
  (hml : tx.ml = (t.send.tx.ml.handle rxSar r).1)
  (hfifo : tx.fifo.eventEng2txEngEvent = t.send.tx.fifo.eventEng2txEngEvent)

include h hW hr hu he hw hpoint hml hfifo

theorem Path.mlData (hd : t.send.tx.ml.mlCurEvent.isData sid = true) :
    Path sid n₀ u A N (sent ++ [t.send.tx.ml.mlCurEvent.length.toNat]) := by
  rw [hu.send] at he hw
  have hd' := hd
  simp only [Event.isData, Bool.and_eq_true, beq_iff_eq, bne_iff_ne] at hd'
  obtain ⟨⟨htype, hid⟩, hlen⟩ := hd'
  have hIdle : tx.ml.mlFsmState = .IDLE := by
    rw [hml]
    simp [MetaLoader.handle, htype, mlTx]
  have hcur : u.current = [] := current_idle (by rw [hu.send]; exact hIdle)
  have hroute : u.route = t.route := by
    rw [route_eq, route_eq, hu.behind, hu.send, hfifo]
  have hlens := lengths_cons_data hd t.route
  -- the FIN was not sent, or no data would be left
  have hfin : t.finSent sid = false := by
    cases hf : t.finSent sid with
    | false => rfl
    | true =>
      have hnil := h.done hf
      rw [current_work hW, List.cons_append, List.nil_append, hlens] at hnil
      cases hnil
  have hpoint' := hpoint
  rw [work_sendPoint h rxSar hW hr, if_pos ⟨hid, .inl htype⟩] at hpoint'
  have hfin' : u.finSent sid = false := by
    rw [finSent, hu.send, show tx.sendPoint sid = _ from hpoint']
    simp [hfin, htype]
  have hN : (t.send.tx.sendPoint sid).notAckd = BitVec.ofNat 32 (n₀ + sent.sum) := by
    rw [h.window.sendPoint, hfin]
    rfl
  have hrN : r.notAckd = BitVec.ofNat 32 (n₀ + sent.sum) := by
    have hheld : t.send.tx.ml.asks = true := by simp [MetaLoader.asks, MetaLoader.loaded, htype]
    rw [← hN, ← hid, ← hr (.inl hheld)]
    rfl
  have horder := h.order
  rw [current_work hW] at horder
  refine h.mlCall _ hu he hw ?_ ?_ ?_ ?_ ?_ ?_ ?_ ?_ ?_ ?_
  · rw [hpoint', hN, hfin', ← BitVec.ofNat_add, ExtendedEvent.advance, htype, List.sum_append,
      List.sum_singleton, Bool.toNat_false, Nat.add_zero, Nat.add_assoc]
  · rw [hfin]
    simp
  · rw [MetaLoader.handle_tx htype, if_neg hlen]
    simp [PathNet.segments, hd, mlHeader, hrN, blocks]
  · rw [hcur, hroute, current_work hW]
    exact hlens.symm
  · rw [hcur, hroute, List.nil_append]
    exact (List.pairwise_cons.mp horder).2
  · rw [hfin']
    simp
  · rw [hroute]
    exact fun e he => he
  · rw [hcur]
    simp
  · exact .inr (work_next rxSar hr he.tx hml).1
  · intro hW'
    rw [hIdle] at hW'
    cases hW'

/-- Any other event: no data of `sid` is sent; a FIN of `sid` is a first one or a repeated one. -/
theorem Path.mlOther {fifo : MetaLoaderIn b} (hok : orderly sid t .metaLoader = true)
    (hd : t.send.tx.ml.mlCurEvent.isData sid = false) (htaken : t.send.tx.ml.Taken t.send.tx.fifo fifo r) :
    Path sid n₀ u A N sent := by
  rw [hu.send] at he hw
  obtain ⟨hrsp, hnext⟩ := work_next rxSar hr he.tx hml
  have hroute : u.route = t.route := by
    rw [route_eq, route_eq, hu.behind, hu.send, hfifo]
  have hcurT := current_work hW
  have horder := h.order
  have hdone := h.done
  rw [hcurT] at horder hdone
  have hlensT : lengths sid ([t.send.tx.ml.mlCurEvent] ++ t.route) = lengths sid t.route :=
    lengths_cons_other hd t.route
  rw [hlensT] at hdone
  -- what it goes on with is no data of `sid`
  have hcurU : ∀ e ∈ u.current, e.isData sid = false := by
    intro e hm
    rcases hnext with hI | ⟨hrt, hW', hcur⟩
    · rw [current_idle (by rw [hu.send]; exact hI)] at hm
      cases hm
    · rw [current_work (by rw [hu.send]; exact hW'), List.mem_singleton, hu.send] at hm
      rw [hm]
      rcases hcur with hcur | ⟨-, hcur⟩
      · rw [show tx.ml.mlCurEvent = _ from hcur]
        exact hd
      · rw [show tx.ml.mlCurEvent = _ from hcur]
        exact isData_of_type (by simp)
  have hlensU : lengths sid (u.current ++ u.route) = lengths sid t.route := by
    rw [hroute, lengths_append, lengths_eq_nil.mpr hcurU, List.nil_append]
  have hpoint' := hpoint
  rw [work_sendPoint h rxSar hW hr] at hpoint'
  have hN := h.window.sendPoint
  -- a first FIN of `sid` moves the send point, nothing else does
  have hfin : (u.finSent sid = t.finSent sid ∧
        (tx.sendPoint sid).notAckd = (t.send.tx.sendPoint sid).notAckd) ∨
      t.send.tx.ml.mlCurEvent.isFin sid = true ∧ t.finSent sid = false ∧ u.finSent sid = true ∧
        (tx.sendPoint sid).notAckd = (t.send.tx.sendPoint sid).notAckd + 1 := by
    have hf : u.finSent sid = (tx.sendPoint sid).finSent := by rw [finSent, hu.send]
    rw [hf, hpoint']
    split
    · next hmoves =>
        obtain ⟨hid, htype | ⟨htype, hrt⟩⟩ := hmoves
        · left
          have h0 : t.send.tx.ml.mlCurEvent.length = 0#16 := by
            simpa [Event.isData, htype, hid] using hd
          simp [htype, ExtendedEvent.advance, h0]
        · right
          have hisFin : t.send.tx.ml.mlCurEvent.isFin sid = true := by simp [Event.isFin, htype, hid]
          refine ⟨hisFin, ?_, by simp [htype], by simp [ExtendedEvent.advance, htype]⟩
          simp only [orderly, hcurT, List.any_cons, hisFin, hrt, beq_self_eq_true, Bool.and_self,
            Bool.true_or, Bool.not_true, Bool.false_or, Bool.not_eq_true'] at hok
          exact hok
    · exact .inl ⟨rfl, rfl⟩
  have := h.mlCall [] hu he hw ?_ ?_ ?_ ?_ ?_ ?_ ?_ ?_ (.inr hrsp) ?_
  · rwa [List.append_nil] at this
  · rw [List.append_nil]
    rcases hfin with ⟨hf, hp⟩ | ⟨-, hf, hf', hp⟩
    · rw [hp, hf, hN]
    · rw [hp, hf', hN, hf]
      exact (BitVec.ofNat_add _ 1).symm
  · intro hf
    rcases hfin with ⟨hf', -⟩ | ⟨-, -, hf', -⟩
    · rw [hf', hf]
    · exact hf'
  · simp [PathNet.segments, hd]
  · rw [List.nil_append, hlensU, hcurT, hlensT]
  · -- order
    rcases hnext with hI | ⟨hrt, hW', hcur⟩
    · rw [current_idle (by rw [hu.send]; exact hI), hroute, List.nil_append]
      exact (List.pairwise_cons.mp horder).2
    · rcases hcur with hcur | ⟨hfs, hcur⟩
      · rw [current_work (by rw [hu.send]; exact hW'), hu.send, show tx.ml.mlCurEvent = _ from hcur, hroute]
        exact horder
      · by_cases hid : t.send.tx.ml.mlCurEvent.sessionID = sid
        · rw [hid] at hfs
          exact FinBehind.of_lengths (hlensU.trans (hdone hfs))
        · rw [current_work (by rw [hu.send]; exact hW'), hu.send, show tx.ml.mlCurEvent = _ from hcur,
            hroute]
          refine List.pairwise_cons.mpr ⟨?_, (List.pairwise_cons.mp horder).2⟩
          intro _ _ hf
          simp [Event.isFin, hid] at hf
  · intro hf
    rw [hlensU]
    rcases hfin with ⟨hf', -⟩ | ⟨hisFin, -⟩
    · rw [hf'] at hf
      exact hdone hf
    · exact horder.head hisFin
  · rw [hroute]
    exact fun e he => he
  · intro e hm hf hrt
    rcases hnext with hI | ⟨hrtE, hW', hcur⟩
    · rw [current_idle (by rw [hu.send]; exact hI)] at hm
      cases hm
    · rw [current_work (by rw [hu.send]; exact hW'), List.mem_singleton, hu.send] at hm
      rw [hm] at hf
      simp only [Event.isFin, Bool.and_eq_true, beq_iff_eq] at hf
      rcases hcur with hcur | ⟨hfs, hcur⟩
      · rw [show tx.ml.mlCurEvent = _ from hcur, hrtE] at hf
        cases hf.1
      · -- the retransmission goes on with the FIN because the FIN was sent
        have hid : t.send.tx.ml.mlCurEvent.sessionID = sid := by
          have := hf.2
          rw [show tx.ml.mlCurEvent = _ from hcur] at this
          exact this
        rw [hid] at hfs
        rcases hfin with ⟨hf', -⟩ | ⟨-, -, hf', -⟩
        · rw [hf']
          exact hfs
        · exact hf'
  · intro hW' hl hid
    rcases hnext with hI | ⟨hrt, -, hcur⟩
    · rw [hI] at hW'
      cases hW'
    · have hid' : t.send.tx.ml.mlCurEvent.sessionID = sid := by
        rcases hcur with hcur | ⟨-, hcur⟩
        · rw [hcur] at hid
          exact hid
        · rw [hcur] at hid
          exact hid
      have hheld := work_held h hW htaken hid' hrt
      have hsame : u.finSent sid = t.finSent sid := by
        rcases hfin with ⟨hf', -⟩ | ⟨hisFin, -⟩
        · exact hf'
        · simp [Event.isFin, hrt] at hisFin
      rw [List.append_nil, hsame, hml]
      rcases MetaLoader.handle_rtRegister hrt rxSar r with hreg | ⟨hfull, hreg⟩
      · rw [hreg]
        exact hheld
      · rw [hreg]
        exact hheld.next hfull

end

theorem Path.metaLoader (h : Path sid n₀ t A N sent)
    (hok : orderly sid t .metaLoader = true) (hs : t.step sid time64us .metaLoader = some u) :
    ∃ sent', Path sid n₀ u A N sent' := by
  simp only [step, Option.some.injEq] at hs
  have he := h.engines.metaLoader
  obtain ⟨P', hw⟩ := h.window.metaLoader h.engines h.flightBounded
  have hpoint := t.send.tx.callMl_sendPoint sid
  have hcalled := h.engines.tx.called
  have hu : MlCall t u t.send.tx.callMl.1
      (t.send.tx.callMl.2.txEngTcpMetaFifoOut.map fun m => (t.send.tx.ml.mlCurEvent, m)) := by
    rw [← hs]
    exact ⟨rfl, rfl, rfl, rfl, rfl, rfl, rfl, rfl, rfl, rfl⟩
  rw [← hu.send] at he hw
  generalize t.send.tx.callMl = v at hu hpoint hcalled
  cases hcalled with
  | idle ml hml => exact ⟨sent, h.mlIdle hu he hw hml⟩
  | take e rest ml hI hev hW hcur hl =>
    have hnone : (mlRequests e).txEngTcpMetaFifoOut = [] := by
      unfold mlRequests
      split <;> rfl
    have hfilter : (mlRequests e).txEng2txSarUpdReq.filter
        (fun q => q.write && q.sessionID == sid) = [] := by
      rw [TxNet.mlRequests_asks e ml hcur hl]
      split <;> rfl
    rw [show ((mlRequests e).txEngTcpMetaFifoOut.map fun m => (t.send.tx.ml.mlCurEvent, m)) = [] by
      rw [hnone]; rfl] at hu
    dsimp only at hpoint
    rw [hfilter] at hpoint
    exact ⟨sent, h.mlTake hu he hw hpoint hI hev rfl rfl hW hcur hl⟩
  | work rxSar r fifo hW htaken hr =>
    cases hd : t.send.tx.ml.mlCurEvent.isData sid with
    | true => exact ⟨_, h.mlData hW hr hu he hw hpoint rfl htaken.event hd⟩
    | false => exact ⟨sent, h.mlOther hW hr hu he hw hpoint rfl htaken.event hok hd htaken⟩

/-! ## Runs -/

def Inv (sid : SessionID) (n₀ : Nat) (t : PathNet b) : Prop :=
  t.Timers ∧ ∃ A N sent, Path sid n₀ t A N sent

theorem Timers.step {l : PathLabel b} (h : t.Timers) (hs : t.step sid time64us l = some u) : u.Timers := by
  cases l with
  | app l =>
    cases l with
    | ackPush p => cases hs
    | tasi | request | table =>
      cases hs
      exact h
    | stateRsp state =>
      simp only [PathNet.step, Option.map_eq_some_iff] at hs
      obtain ⟨app, -, rfl⟩ := hs
      exact h
  | appIf s i =>
    simp only [PathNet.step] at hs
    split at hs <;> cases hs
    exact h
  | txEventMerger | reset | rxEventMerger | ackDelay | rxSarRsp | appPush | metaLoader | txSarTable =>
    cases hs
    exact h
  | timer e =>
    simp only [PathNet.step] at hs
    split at hs
    · next ht =>
        cases hs
        intro e' he'
        rcases List.mem_append.mp he' with he' | he'
        · exact h e' he'
        · rw [List.mem_singleton] at he'
          rw [he']
          exact ht
    · cases hs
  | eventEngine full =>
    simp only [PathNet.step, Toe.eventEngine, Option.some.injEq] at hs
    have hfw := forwards full t.engine t.engineIn
    generalize eeForward full t.engine t.engineIn = v at hfw hs
    obtain ⟨i, out⟩ := v
    subst hs
    unfold Timers at h ⊢
    cases hfw with
    | rxEng | txApp | none => exact h
    | timer ev rest ht =>
      rw [ht] at h
      exact fun e he => h e (List.mem_cons_of_mem _ he)
  | rx l =>
    cases l with
    | txSarTable r => cases hs
    | _ =>
      simp only [PathNet.step, Option.map_eq_some_iff] at hs
      obtain ⟨rx, -, rfl⟩ := hs
      exact h

/-- The moment after the tx_sar table has served the initialising write of `sid` with `not_ackd = n`.  The
push for `tx_app_table` is queued; no read of the old entry is answered, no data or FIN event of `sid` is
on its way, and `metaLoader` holds no reply about `sid`.  The logs start here. -/
structure Opened (sid : SessionID) (n : BitVec 32) (t : PathNet b) : Prop where
  send : SendNet.Opened sid n t.send
  push : ∃ pre minWindow, t.app.ackPush = pre ++ [⟨sid, n.setWidth _, minWindow, true⟩] ∧
    ∀ q ∈ pre, q.sessionID ≠ sid
  engines : AppNet.Engines sid { t.app with ackPush := [] }
  upd : ∀ q ∈ t.app.updReq, q.write = true → q.sessionID ≠ sid
  read : t.app.fifo.txSar2txAppUpdRsp ≠ [] → t.app.tasi.tasiWriteMeta.sessionID ≠ sid
  timers : t.Timers
  events : ∀ e ∈ t.current ++ t.route ++ t.waiting,
    FinNet.raised sid e = true ∧ e.isData sid = false ∧ e.isFin sid = false
  held : t.send.tx.fifo.txSar2txEngUpdRsp ≠ [] ∨ t.send.tx.ml.loaded = true →
    t.send.tx.ml.mlCurEvent.sessionID ≠ sid
  logs : t.accepted = [] ∧ t.emitted = []

theorem ofNat_start (n : BitVec 32) : BitVec.ofNat 32 ((n - 1).toNat + 1) = n := by
  rw [BitVec.ofNat_add, BitVec.ofNat_toNat, BitVec.setWidth_eq]
  exact BitVec.sub_add_cancel n 1

theorem Opened.finSent {n : BitVec 32} (h : Opened sid n t) : t.finSent sid = false := by
  obtain ⟨entry, hentry⟩ := h.send.entry
  have hnone : t.send.tx.txReq.filter (fun q => q.write && q.sessionID == sid) = [] := by
    rw [List.filter_eq_nil_iff]
    intro q hq
    have := h.send.tx q hq
    simpa using this
  rw [PathNet.finSent, TxNet.sendPoint, hnone]
  show (t.send.entry sid).finSent = false
  rw [hentry]
  rfl

theorem Opened.inv {n : BitVec 32} (h : Opened sid n t) : Inv sid ((n - 1).toNat + 1) t := by
  have hlen : lengths sid (t.current ++ t.route) = [] :=
    lengths_eq_nil.mpr fun e he => (h.events e (List.mem_append_left _ he)).2.1
  have hfin := h.finSent
  have hone : 1 < b.bufferSize := by
    rcases b.bufferSize_eq with hs | hs <;> omega
  have hlive : AppNet.Live sid t.app (n - 1).toNat ((n - 1).toNat + 1) := by
    obtain ⟨pre, minWindow, hpush, hpre⟩ := h.push
    refine .inr ⟨⟨pre, _, [], hpush, hpre, rfl, rfl, ?_, Moves.nil, h.engines⟩, by omega, by omega, h.upd,
      h.read⟩
    have hn := congrArg (BitVec.setWidth b.windowBits) (ofNat_start n)
    rw [setWidth_ofNat b.windowBits_le] at hn
    exact hn.symm
  refine ⟨h.timers, (n - 1).toNat, (n - 1).toNat + 1, [], h.send.engines, ?_, Nat.le_refl _, ?_, ?_, ?_, ?_,
    FinBehind.of_lengths hlen, fun _ => hlen, ?_, ?_, ?_, ?_, ?_⟩
  · rw [hfin]
    exact h.send.window
  · simp [h.logs, PathNet.segments]
  · rw [hlen]
    simp [h.logs, PathNet.writes]
  · rw [hlen]
    simp only [List.append_nil, List.sum_nil]
    omega
  · intro _
    rw [hlen]
    exact hlive
  · intro e he
    refine (h.events e ?_).1
    rw [List.append_assoc]
    exact List.mem_append_right _ he
  · exact fun e he => (h.events e (List.mem_append_right _ he)).2.1
  · intro e he hf
    rw [(h.events e (List.mem_append_left _ (List.mem_append_left _ he))).2.2] at hf
    cases hf
  · exact fun r hr hid => absurd hid (h.held (.inl (List.ne_nil_of_mem hr)))
  · exact fun _ hl hid => absurd hid (h.held (.inr hl))

theorem inv_step {l : PathLabel b} (hb : b.tcpNodelay = true)
    (h : Inv sid n₀ t) (hok : orderly sid t l = true) (hs : t.step sid time64us l = some u) :
    Inv sid n₀ u := by
  refine ⟨h.1.step hs, ?_⟩
  obtain ⟨htimers, A, N, sent, h⟩ := h
  cases l with
  | app l =>
    cases l with
    | ackPush p => cases hs
    | tasi => exact ⟨A, N, sent, h.tasi hb hok hs⟩
    | request m =>
      cases hs
      exact ⟨A, N, sent, h.withApp fun P hl => hl.env rfl rfl rfl rfl rfl rfl⟩
    | stateRsp state =>
      simp only [step, AppNet.step, Option.map_eq_some_iff] at hs
      obtain ⟨app, happ, rfl⟩ := hs
      refine ⟨A, N, sent, h.withApp fun P hl => ?_⟩
      split at happ <;> cases happ
      exact hl.env rfl rfl rfl rfl rfl rfl
    | table =>
      simp only [step, AppNet.step, Option.map_some, Option.some.injEq] at hs
      subst hs
      exact ⟨A, N, sent, h.withApp fun P hl => hl.callTable⟩
  | appIf s i => exact ⟨A, N, sent, h.appIf hs⟩
  | txEventMerger => exact ⟨A, N, sent, h.txEventMerger hok hs⟩
  | reset m tuple => exact ⟨A, N, sent, h.reset hs⟩
  | rxEventMerger => exact ⟨A, N, sent, h.rxEventMerger hs⟩
  | timer e => exact ⟨A, N, sent, h.timer hs⟩
  | eventEngine full => exact ⟨A, N, sent, h.eventEngine htimers hok hs⟩
  | ackDelay full => exact ⟨A, N, sent, h.ackDelay hs⟩
  | rx l => exact ⟨A, N, sent, h.rx hok hs⟩
  | rxSarRsp r => exact ⟨A, N, sent, h.rxSarRsp hs⟩
  | appPush p => exact ⟨A, N, sent, h.appPush hs⟩
  | metaLoader =>
    obtain ⟨sent', h'⟩ := h.metaLoader hok hs
    exact ⟨A, N, sent', h'⟩
  | txSarTable =>
    obtain ⟨A', N', h'⟩ := h.txSarTable hs
    exact ⟨A', N', sent, h'⟩

end PathNet

end FpgaNetworkStack.Toe
