import FpgaNetworkStack.Lib.Settled
import FpgaNetworkStack.Toe.TxBuffer

/-!
# The statuses of the write commands

For an accepted write `tasi_metaLoader` makes a command and an event.  `tasi_pkg_pusher` cuts the command in one or
two, the memory answers each of these, and `txAppStatusHandler` takes the answers for the event.  Both decide whether
the write is cut, and the answers carry nothing that says whose they are.
-/

namespace FpgaNetworkStack.Toe

open Lib

variable {b : Build} {W : Nat}

/-! ## The network -/

variable (b W) in
/-- The processes with their FIFOs, and the histories: commands and events of the accepted writes, commands issued to
the memory, for each status the handler took the number of the write it was credited to, pointers pushed and events
passed on to the event engine. -/
structure StatusNet where
  pusher : TasiPkgPusher b W
  pushIn : TasiPkgPusherIn W
  merge : TxEventMergerIn b
  handler : TxAppStatusHandler b
  handlerIn : TxAppStatusHandlerIn b
  unanswered : List MmCmd
  cmds : List MmCmd
  events : List (Event b)
  written : List MmCmd
  credits : List Nat
  pushes : List (TxAppTxSarPush b)
  forwarded : List (Event b)

variable (b W) in
/-- `answer`: `tasi_metaLoader` answers a request; `appEvent`: an event of `tx_app_if`, which opens and closes
connections; `status`: the memory answers the oldest command.  The rest are calls. -/
inductive StatusLabel where
  | answer (m : AppTxMeta) (state : SessionState) (writeSar : TxAppTxSarReply b)
  | appEvent (ev : Event b)
  | data (word : AxiWord W)
  | pusher (emptyWord : AxiWord W)
  | merger
  | status (okay : Bool)
  | handler

def StatusLabel.okay : StatusLabel b W → Bool
  | .status okay => okay
  | _ => true

namespace StatusNet

def init : StatusNet b W := ⟨.init b W, {}, {}, .init b, {}, [], [], [], [], [], [], []⟩

def step (t : StatusNet b W) : StatusLabel b W → Option (StatusNet b W)
  | .answer m state writeSar =>
    let out := tasiAnswer m state writeSar
    some { t with
      pushIn := { t.pushIn with tasiMeta2pkgPushCmd := t.pushIn.tasiMeta2pkgPushCmd ++ out.tasiMeta2pkgPushCmd }
      merge := { t.merge with
        txAppStream2eventMergeEvent := t.merge.txAppStream2eventMergeEvent ++ out.txAppStream2eventEngSetEvent }
      cmds := t.cmds ++ out.tasiMeta2pkgPushCmd
      events := t.events ++ out.txAppStream2eventEngSetEvent }
  | .appEvent ev =>
    if ev.type = .TX then none
    else some { t with
      merge := { t.merge with txApp2eventEngMergeEvent := t.merge.txApp2eventEngMergeEvent ++ [ev] } }
  | .data word => some { t with pushIn := { t.pushIn with appTxDataIn := t.pushIn.appTxDataIn ++ [word] } }
  | .pusher emptyWord =>
    let (pusher, pushIn, out) := tasiPkgPusher emptyWord t.pusher t.pushIn
    some { t with
      pusher, pushIn, unanswered := t.unanswered ++ out.txBufferWriteCmd
      written := t.written ++ out.txBufferWriteCmd }
  | .merger =>
    -- with TCP_NODELAY `out` is the stream to the event engine, else the FIFO of the handler
    let (merge, out, cache) := txEventMerger b t.merge
    some { t with
      merge
      handlerIn := { t.handlerIn with
        tasiEventCacheFifo := t.handlerIn.tasiEventCacheFifo ++ if b.tcpNodelay then cache else out }
      forwarded := t.forwarded ++ if b.tcpNodelay then out else [] }
  | .status okay =>
    match t.unanswered with
    | [] => none
    | _ :: unanswered => some { t with
        unanswered
        handlerIn := { t.handlerIn with
          txBufferWriteStatus := t.handlerIn.txBufferWriteStatus ++ [okay] } }
  | .handler =>
    let (handler, handlerIn, out) := txAppStatusHandler b t.handler t.handlerIn
    let taken := t.handlerIn.txBufferWriteStatus.length - handlerIn.txBufferWriteStatus.length
    some { t with
      handler, handlerIn
      credits := t.credits ++ List.replicate taken t.pushes.length
      pushes := t.pushes ++ out.txApp2txSarAppPush
      forwarded := t.forwarded ++ out.txAppStream2eventEngSetEvent }

/-- The commands that the pusher issues for a write. -/
def accesses (cmd : MmCmd) : Nat := (cmd.parts b).length

/-- The statuses that the handler takes for a write. -/
def statuses (ev : Event b) : Nat := if ev.crosses then 2 else 1

def isTx (ev : Event b) : Bool := ev.type == .TX

def pointer (ev : Event b) : TxAppTxSarPush b := ⟨ev.sessionID, ev.address + ev.length.setWidth _⟩

/-- The commands and the statuses agree: the commands issued are the parts of those of the writes, one after the other,
each status is credited to the write whose command it answers, a write is finished after as many statuses as it has
commands, and pointers and events come out in the order of the writes. -/
structure Agreed (t : StatusNet b W) : Prop where
  commands : t.written <+: t.cmds.flatMap (MmCmd.parts b)
  credits : t.credits <+: owners (t.cmds.map (accesses (b := b)))
  finished : ∀ i c, i < t.pushes.length → t.cmds[i]? = some c → t.credits.count i = accesses (b := b) c
  pushes : t.pushes <+: t.events.map pointer
  forwarded : t.forwarded.filter isTx <+: t.events
  /-- Without `TCP_NODELAY` an event is passed on when its write is finished. -/
  released : b.tcpNodelay = false → t.forwarded.filter isTx = t.events.take t.pushes.length

/-! ## One decision made twice -/

theorem tasiAnswer_paired (m : AppTxMeta) (state : SessionState) (r : TxAppTxSarReply b) :
    (tasiAnswer m state r).tasiMeta2pkgPushCmd.map (accesses (b := b)) =
        (tasiAnswer m state r).txAppStream2eventEngSetEvent.map statuses ∧
      ∀ ev ∈ (tasiAnswer m state r).txAppStream2eventEngSetEvent, isTx ev = true := by
  have ha := AppNet.answer m state r
  generalize tasiAnswer m state r = out at ha
  cases ha with
  | refused h rsp he => exact ⟨rfl, fun ev hev => (List.not_mem_nil hev).elim⟩
  | accepted hstate hs rsp he =>
    refine ⟨?_, fun ev hev => by rw [List.mem_singleton.mp hev]; rfl⟩
    have hlength := m.length.isLt
    have hcut : MmCmd.crosses (b := b) (.new (pkgAddr b m.sessionID r.mempt) m.length) =
        decide (b.bufferSize < r.mempt.toNat + m.length.toNat) := by
      rw [MmCmd.crosses, MmCmd.new, pkgAddr_low, BitVec.toNat_setWidth_of_le (by decide)]
    rw [List.map_singleton, List.map_singleton, accesses, statuses, MmCmd.parts, hcut]
    show [List.length (if decide _ = true then _ else _)] = [if decide _ = true then 2 else 1]
    split <;> rfl

/-! ## The invariant -/

/-- The event that the handler works on. -/
def current (s : TxAppStatusHandler b) : List (Event b) :=
  match s.tashState with
  | .READ_EV => []
  | _ => [s.ev]

/-- The first of two statuses is taken. -/
def half (s : TxAppStatusHandler b) : Nat :=
  match s.tashState with
  | .READ_STATUS_2 => 1
  | _ => 0

/-- The writes `done` are finished. -/
structure Served (t : StatusNet b W) (done : List (Event b)) : Prop where
  events : t.events = done ++ (current t.handler ++ t.handlerIn.tasiEventCacheFifo.filter isTx ++
    t.merge.txAppStream2eventMergeEvent)
  pushes : t.pushes = done.map pointer
  credits : t.credits = owners (done.map statuses) ++ List.replicate (half t.handler) done.length
  forwarded : t.forwarded.filter isTx ++ (if b.tcpNodelay then t.merge.txAppStream2eventMergeEvent else []) =
    if b.tcpNodelay then t.events else done

structure Inv (t : StatusNet b W) : Prop where
  ordered : t.written ++ BufferNet.remaining t.pusher ++ t.pushIn.tasiMeta2pkgPushCmd.flatMap (MmCmd.parts b) =
    t.cmds.flatMap (MmCmd.parts b)
  paired : t.cmds.map (accesses (b := b)) = t.events.map statuses
  okay : ∀ okay ∈ t.handlerIn.txBufferWriteStatus, okay = true
  half : t.handler.tashState = .READ_STATUS_2 → t.handler.ev.crosses = true
  app : ∀ ev ∈ t.merge.txApp2eventEngMergeEvent, isTx ev = false
  write : ∀ ev ∈ t.events, isTx ev = true
  served : ∃ done, Served t done

theorem inv_init : Inv (init : StatusNet b W) :=
  ⟨rfl, rfl, by simp [init], by simp [init, TxAppStatusHandler.init], by simp [init], by simp [init],
    [], rfl, rfl, rfl, by simp [init]⟩

variable {t u : StatusNet b W}

theorem inv_answer {m : AppTxMeta} {state : SessionState} {r : TxAppTxSarReply b} (h : Inv t)
    (hs : t.step (.answer m state r) = some u) : Inv u := by
  obtain ⟨hpair, htx⟩ := tasiAnswer_paired m state r
  generalize ho : tasiAnswer m state r = out at hpair htx
  simp only [step, ho] at hs
  cases hs
  obtain ⟨hordered, hpaired, hokay, hhalf, happ, hwrite, done, hd⟩ := h
  refine ⟨?_, ?_, hokay, hhalf, happ, ?_, done, ?_, hd.pushes, hd.credits, ?_⟩
  · rw [List.flatMap_append, List.flatMap_append, ← List.append_assoc, hordered]
  · rw [List.map_append, List.map_append, hpaired, hpair]
  · exact List.forall_mem_append.mpr ⟨hwrite, htx⟩
  · rw [hd.events]
    simp only [List.append_assoc]
  · have hforwarded := hd.forwarded
    dsimp only
    split
    · next hb =>
        rw [if_pos hb, if_pos hb] at hforwarded
        rw [← List.append_assoc, hforwarded]
    · next hb =>
        rw [if_neg hb, if_neg hb] at hforwarded
        exact hforwarded

theorem inv_pusher {emptyWord : AxiWord W} (h : Inv t) (hs : t.step (.pusher emptyWord) = some u) : Inv u := by
  have hrem := BufferNet.pusher_remaining emptyWord t.pusher t.pushIn
  simp only [step] at hs
  generalize tasiPkgPusher emptyWord t.pusher t.pushIn = v at hrem hs
  cases hs
  refine { h with
    ordered := ?_, served := h.served.imp fun done hd => ⟨hd.events, hd.pushes, hd.credits, hd.forwarded⟩ }
  have hordered := h.ordered
  simp only [List.append_assoc] at hrem hordered ⊢
  rw [hrem, hordered]

theorem inv_merger (h : Inv t) (hs : t.step .merger = some u) : Inv u := by
  obtain ⟨hordered, hpaired, hokay, hhalf, happ, hwrite, done, hd⟩ := h
  simp only [step, txEventMerger] at hs
  cases ha : t.merge.txApp2eventEngMergeEvent with
  | cons ev rest =>
    -- an event that is no write
    rw [ha] at hs happ
    cases hs
    have hev : isTx ev = false := happ ev List.mem_cons_self
    refine ⟨hordered, hpaired, hokay, hhalf, fun e he => happ e (List.mem_cons_of_mem ev he), hwrite, done, ?_,
      hd.pushes, hd.credits, ?_⟩
    · have hskip : (if b.tcpNodelay = true then [] else [ev]).filter isTx = [] := by
        split <;> simp [hev]
      show t.events = done ++ (current t.handler ++ List.filter isTx (_ ++ _) ++ _)
      rw [List.filter_append, hskip, List.append_nil]
      exact hd.events
    · have hskip : (if b.tcpNodelay = true then [ev] else []).filter isTx = [] := by
        split <;> simp [hev]
      show List.filter isTx (_ ++ _) ++ _ = _
      rw [List.filter_append, hskip, List.append_nil]
      exact hd.forwarded
  | nil =>
    rw [ha] at hs
    cases hw : t.merge.txAppStream2eventMergeEvent with
    | nil =>
      rw [hw] at hs
      cases hs
      have hnil : (if b.tcpNodelay = true then [] else []) = ([] : List (Event b)) := ite_self _
      refine ⟨hordered, hpaired, hokay, hhalf, happ, hwrite, done, ?_, hd.pushes, hd.credits, ?_⟩
      · show t.events = done ++ (current t.handler ++ List.filter isTx (_ ++ _) ++ _)
        rw [hnil, List.append_nil]
        exact hd.events
      · show List.filter isTx (_ ++ _) ++ _ = _
        rw [hnil, List.append_nil]
        exact hd.forwarded
    | cons ev rest =>
      rw [hw] at hs
      cases hs
      have hevents := hd.events
      have hforwarded := hd.forwarded
      rw [hw] at hevents hforwarded
      have hev : isTx ev = true := hwrite ev (by rw [hevents]; simp)
      have htype : (ev.type == .TX) = true := hev
      refine ⟨hordered, hpaired, hokay, hhalf, by simpa [ha] using happ, hwrite, done, ?_, hd.pushes, hd.credits, ?_⟩
      · have hkeep : (if b.tcpNodelay = true then (if (b.tcpNodelay && ev.type == .TX) = true then [ev] else [])
            else [ev]).filter isTx = [ev] := by
          cases b.tcpNodelay <;> simp [hev, htype]
        show t.events = done ++ (current t.handler ++ List.filter isTx (_ ++ _) ++ rest)
        rw [List.filter_append, hkeep, hevents]
        simp only [List.append_assoc, List.singleton_append]
      · show List.filter isTx (_ ++ _) ++ _ = _
        cases hb : b.tcpNodelay with
        | true =>
          simp only [hb, if_true] at hforwarded ⊢
          rw [List.filter_append, List.filter_singleton, hev, ← hforwarded]
          simp only [List.append_assoc, cond_true, List.singleton_append]
        | false =>
          simp only [hb, Bool.false_eq_true, if_false] at hforwarded ⊢
          simpa only [List.append_nil] using hforwarded

theorem inv_status (h : Inv t) (hs : t.step (.status true) = some u) : Inv u := by
  simp only [step] at hs
  split at hs
  · cases hs
  · cases hs
    refine { h with
      okay := ?_, served := h.served.imp fun done hd => ⟨hd.events, hd.pushes, hd.credits, hd.forwarded⟩ }
    exact List.forall_mem_append.mpr ⟨h.okay, fun okay ho => List.mem_singleton.mp ho⟩

/-- What a call of the handler can do when every status is okay. -/
inductive Handled (s : TxAppStatusHandler b) (i : TxAppStatusHandlerIn b) :
    TxAppStatusHandler b × TxAppStatusHandlerIn b × TxAppStatusHandlerOut b → Prop
  | idle : Handled s i (s, i, {})
  | take (ev : Event b) (rest : List (Event b)) (hs : s.tashState = .READ_EV)
      (hi : i.tasiEventCacheFifo = ev :: rest) (hev : isTx ev = true) :
      Handled s i (⟨.READ_STATUS_1, ev⟩, { i with tasiEventCacheFifo := rest }, {})
  | pass (ev : Event b) (rest : List (Event b)) (hs : s.tashState = .READ_EV)
      (hi : i.tasiEventCacheFifo = ev :: rest) (hev : isTx ev = false) :
      Handled s i ({ s with ev }, { i with tasiEventCacheFifo := rest },
        { txAppStream2eventEngSetEvent := if b.tcpNodelay then [] else [ev] })
  | half (rest : List Bool) (hs : s.tashState = .READ_STATUS_1) (hi : i.txBufferWriteStatus = true :: rest)
      (hx : s.ev.crosses = true) :
      Handled s i ({ s with tashState := .READ_STATUS_2 }, { i with txBufferWriteStatus := rest }, {})
  | release (rest : List Bool) (hs : current s = [s.ev]) (hi : i.txBufferWriteStatus = true :: rest)
      (hx : StatusNet.half s + 1 = statuses s.ev) :
      Handled s i ({ s with tashState := .READ_EV }, { i with txBufferWriteStatus := rest }, s.ev.release)

theorem handled (s : TxAppStatusHandler b) (i : TxAppStatusHandlerIn b)
    (hokay : ∀ okay ∈ i.txBufferWriteStatus, okay = true)
    (hhalf : s.tashState = .READ_STATUS_2 → s.ev.crosses = true) : Handled s i (txAppStatusHandler b s i) := by
  unfold txAppStatusHandler
  cases hs : s.tashState with
  | READ_EV =>
    cases hi : i.tasiEventCacheFifo with
    | nil => exact .idle
    | cons ev rest =>
      cases hev : isTx ev with
      | true =>
        dsimp only
        rw [if_pos (show (ev.type == EventType.TX) = true from hev)]
        exact .take ev rest hs hi hev
      | false =>
        dsimp only
        rw [show (ev.type == EventType.TX) = false from hev, if_neg Bool.false_ne_true]
        exact hs ▸ .pass ev rest hs hi hev
  | READ_STATUS_1 =>
    cases hi : i.txBufferWriteStatus with
    | nil => exact .idle
    | cons okay rest =>
      cases hokay okay (by rw [hi]; exact List.mem_cons_self)
      dsimp only
      rw [if_pos rfl]
      cases hx : s.ev.crosses with
      | true => exact .half rest hs hi hx
      | false => exact .release rest (by simp [current, hs]) hi (by simp [StatusNet.half, statuses, hs, hx])
  | READ_STATUS_2 =>
    cases hi : i.txBufferWriteStatus with
    | nil => exact .idle
    | cons okay rest =>
      cases hokay okay (by rw [hi]; exact List.mem_cons_self)
      dsimp only
      rw [if_pos rfl]
      exact .release rest (by simp [current, hs]) hi (by simp [StatusNet.half, statuses, hs, hhalf hs])

theorem inv_handler (h : Inv t) (hs : t.step .handler = some u) : Inv u := by
  have hcall := handled t.handler t.handlerIn h.okay h.half
  simp only [step] at hs
  generalize txAppStatusHandler b t.handler t.handlerIn = v at hcall hs
  cases hs
  obtain ⟨hordered, hpaired, hokay, hhalf, happ, hwrite, done, hd⟩ := h
  have hevents := hd.events
  have hcredits := hd.credits
  have hpushes := hd.pushes
  have hforwarded := hd.forwarded
  cases hcall with
  | idle =>
    refine ⟨hordered, hpaired, hokay, hhalf, happ, hwrite, done, hevents, ?_, ?_, ?_⟩
    · simpa using hpushes
    · simpa using hcredits
    · simpa using hforwarded
  | take ev rest hst hi hev =>
    refine ⟨hordered, hpaired, hokay, by simp, happ, hwrite, done, ?_, ?_, ?_, ?_⟩
    · rw [hevents, hi, List.filter_cons_of_pos hev]
      simp [current, hst]
    · simpa using hpushes
    · simpa [StatusNet.half, hst] using hcredits
    · simpa using hforwarded
  | pass ev rest hst hi hev =>
    refine ⟨hordered, hpaired, hokay, by simp [hst], happ, hwrite, done, ?_, ?_, ?_, ?_⟩
    · rw [hevents, hi, List.filter_cons_of_neg (by simp [hev])]
      simp [current, hst]
    · simpa using hpushes
    · simpa [StatusNet.half, hst] using hcredits
    · have hskip : (if b.tcpNodelay = true then [] else [ev]).filter isTx = [] := by
        split <;> simp [hev]
      show List.filter isTx (_ ++ _) ++ _ = _
      rw [List.filter_append, hskip, List.append_nil]
      exact hforwarded
  | half rest hst hi hx =>
    refine ⟨hordered, hpaired, fun okay ho => hokay okay (by rw [hi]; exact List.mem_cons_of_mem _ ho),
      fun _ => hx, happ, hwrite, done, ?_, ?_, ?_, ?_⟩
    · rw [hevents]
      simp [current, hst]
    · simpa using hpushes
    · have hlength : t.pushes.length = done.length := by rw [hpushes, List.length_map]
      show t.credits ++ List.replicate (t.handlerIn.txBufferWriteStatus.length - rest.length) _ = _
      rw [hcredits, hi, hlength]
      simp [StatusNet.half, hst]
    · simpa using hforwarded
  | release rest hcur hi hx =>
    -- the write is finished
    have hlength : t.pushes.length = done.length := by rw [hpushes, List.length_map]
    refine ⟨hordered, hpaired, fun okay ho => hokay okay (by rw [hi]; exact List.mem_cons_of_mem _ ho), by simp,
      happ, hwrite, done ++ [t.handler.ev], ?_, ?_, ?_, ?_⟩
    · rw [hevents, hcur]
      simp [current]
    · rw [hpushes, List.map_append]
      rfl
    · show t.credits ++ List.replicate (t.handlerIn.txBufferWriteStatus.length - rest.length) _ = _
      have hone : (true :: rest).length - rest.length = 1 := by simp
      rw [hcredits, hi, hone, hlength, List.map_append, List.map_singleton, owners_snoc, ← hx, List.length_map,
        List.append_assoc, List.replicate_add]
      exact (List.append_nil _).symm
    · have htx : isTx t.handler.ev = true := hwrite _ (by rw [hevents, hcur]; simp)
      show List.filter isTx (_ ++ (if b.tcpNodelay then [] else [t.handler.ev])) ++ _ = _
      cases hb : b.tcpNodelay with
      | true =>
        simp only [hb, if_true, List.append_nil] at hforwarded ⊢
        exact hforwarded
      | false =>
        simp only [hb, Bool.false_eq_true, if_false, List.append_nil] at hforwarded ⊢
        rw [List.filter_append, hforwarded, List.filter_singleton, htx]
        rfl

theorem inv_step {l : StatusLabel b W} (h : Inv t) (hok : l.okay = true) (hs : t.step l = some u) :
    Inv u := by
  cases l with
  | answer m state r => exact inv_answer h hs
  | appEvent ev =>
    simp only [step] at hs
    split at hs
    · cases hs
    · next hev =>
        cases hs
        refine { h with
          app := ?_, served := h.served.imp fun done hd => ⟨hd.events, hd.pushes, hd.credits, hd.forwarded⟩ }
        refine List.forall_mem_append.mpr ⟨h.app, fun e he => ?_⟩
        rw [List.mem_singleton.mp he]
        exact beq_false_of_ne hev
  | data word =>
    cases hs
    exact { h with served := h.served.imp fun done hd => ⟨hd.events, hd.pushes, hd.credits, hd.forwarded⟩ }
  | pusher emptyWord => exact inv_pusher h hs
  | merger => exact inv_merger h hs
  | status okay =>
    cases hok
    exact inv_status h hs
  | handler => exact inv_handler h hs

/-! ## Main result -/

theorem Inv.agreed (h : Inv t) : Agreed t := by
  obtain ⟨hordered, hpaired, -, hhalf, -, -, done, hd⟩ := h
  have hlength : t.pushes.length = done.length := by rw [hd.pushes, List.length_map]
  have hevents : t.events = done ++ (current t.handler ++ (t.handlerIn.tasiEventCacheFifo.filter isTx ++
      t.merge.txAppStream2eventMergeEvent)) := by
    rw [hd.events, List.append_assoc]
  have hcredits : t.credits <+: owners (t.cmds.map (accesses (b := b))) := by
    rw [hpaired, hd.credits, hevents, List.map_append]
    cases hs : t.handler.tashState with
    | READ_EV | READ_STATUS_1 =>
      rw [show StatusNet.half t.handler = 0 by simp [StatusNet.half, hs], List.replicate_zero, List.append_nil]
      exact owners_start (List.prefix_append _ _)
    | READ_STATUS_2 =>
      -- one of the two statuses of the write at hand
      have htwo : statuses t.handler.ev = 2 := by rw [statuses, if_pos (hhalf hs)]
      rw [show StatusNet.half t.handler = 1 by simp [StatusNet.half, hs],
        show current t.handler = [t.handler.ev] by simp [current, hs], List.singleton_append, List.map_cons, htwo]
      have hmore (rest : List Nat) : done.map statuses ++ [2] <+: done.map statuses ++ 2 :: rest :=
        (List.prefix_append_right_inj _).mpr (List.prefix_append [2] rest)
      refine List.IsPrefix.trans ?_ (owners_start (hmore _))
      rw [owners_snoc, List.length_map]
      exact (List.prefix_append_right_inj _).mpr (List.prefix_append [done.length] _)
  refine ⟨?_, hcredits, ?_, ?_, ?_, ?_⟩
  · rw [← hordered, List.append_assoc]
    exact List.prefix_append _ _
  · intro i c hi hc
    have hsize : (done.map statuses)[i]? = some (accesses (b := b) c) := by
      have hget : (t.cmds.map (accesses (b := b)))[i]? = some (accesses (b := b) c) := by
        rw [List.getElem?_map, hc]
        rfl
      rw [hpaired, hevents, List.map_append, List.getElem?_append_left (by rw [List.length_map]; omega)] at hget
      exact hget
    have hother : (List.replicate (StatusNet.half t.handler) done.length).count i = 0 := by
      rw [List.count_eq_zero]
      intro hm
      have := List.eq_of_mem_replicate hm
      omega
    rw [hd.credits, List.count_append, count_owners hsize, hother, Nat.add_zero]
  · rw [hd.pushes, hevents, List.map_append]
    exact List.prefix_append _ _
  · have hforwarded := hd.forwarded
    split at hforwarded
    · rw [← hforwarded]
      exact List.prefix_append _ _
    · rw [List.append_nil] at hforwarded
      rw [hforwarded, hevents]
      exact List.prefix_append _ _
  · intro hb
    have hforwarded := hd.forwarded
    simp only [hb, Bool.false_eq_true, if_false, List.append_nil] at hforwarded
    rw [hforwarded, hevents, hlength, List.take_left]

/-- In every run in which every status is okay, commands and statuses agree. -/
theorem statuses_agree (h : Reach step (fun _ l => l.okay = true) init t) : Agreed t :=
  (h.invariant inv_init fun _ _ _ hu hok hs => inv_step hu hok hs).agreed

/-- A write of 10 bytes at `mempt`, up to the command or commands and the event. -/
def write (mempt : BitVec Build.sample.windowBits) : List (StatusLabel .sample 64) :=
  [.answer ⟨0, 10⟩ .ESTABLISHED ⟨0, mempt, mempt, 0xFFFF⟩, .pusher default, .pusher default,
    .data ⟨0x09080706050403020100, 0x3FF, true⟩, .pusher default, .pusher default, .merger, .handler]

theorem statuses_agree_write :
    ∃ t : StatusNet .sample 64, Reach step (fun _ l => l.okay = true) init t ∧ t.credits = [0, 0, 1] ∧
      t.pushes.length = 2 ∧ Agreed t := by
  have h : (runIf step (fun _ l => l.okay = true) (init : StatusNet .sample 64)
      (write 262140 ++ [.status true, .status true, .handler, .handler] ++ write 6 ++ [.status true, .handler])).map
      (fun t => (t.credits, t.pushes.length)) = some ([0, 0, 1], 2) := by
    decide +kernel
  obtain ⟨t, ht, hp⟩ := Option.map_eq_some_iff.mp h
  simp only [Prod.mk.injEq] at hp
  have hr := reach_of_runIf ht
  exact ⟨t, hr, hp.1, hp.2, statuses_agree hr⟩

-- The memory reports an error for the first of two writes: the status of the second one releases the first.
theorem status_credited_to_earlier_write :
    ∃ t : StatusNet .sample 64, Reach step anyStep init t ∧ t.credits = [0, 0] ∧ t.pushes.length = 1 ∧
      ¬Agreed t := by
  have h : (run step (init : StatusNet .sample 64)
      (write 0 ++ write 10 ++ [.status false, .status true, .handler, .handler])).map
      (fun t => (t.credits, t.pushes.length, owners (t.cmds.map (accesses (b := .sample))))) =
        some ([0, 0], 1, [0, 1]) := by
    decide +kernel
  obtain ⟨t, ht, hp⟩ := Option.map_eq_some_iff.mp h
  simp only [Prod.mk.injEq] at hp
  obtain ⟨hcredits, hpushes, howners⟩ := hp
  refine ⟨t, reach_of_run ht, hcredits, hpushes, ?_⟩
  intro ha
  have hprefix := ha.credits
  rw [hcredits, howners] at hprefix
  exact absurd hprefix (by decide)

end StatusNet

end FpgaNetworkStack.Toe
