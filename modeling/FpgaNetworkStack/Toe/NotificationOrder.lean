import FpgaNetworkStack.Lib.Reach
import FpgaNetworkStack.Lib.Settled
import FpgaNetworkStack.Toe.RxEngine
import FpgaNetworkStack.Toe.RxMemWrite

/-!
# Notifications that wait for the memory

`rxTcpFSM` writes a notification and, where there is payload, a write command; `rxEngMemWrite` issues
the command in one or two parts, the memory acknowledges them in order, and the delayer matches the
acknowledgements with its notifications.  A closed notification without payload is not matched: it
overtakes whatever waits.
-/

namespace FpgaNetworkStack.Toe

open Lib SessionState

variable {b : Build} {W : Nat}

/-! ## The network -/

/-- The processes with their FIFOs, and the histories of what `rxTcpFSM` wrote, what the memory
acknowledged and what reached the application. -/
structure DelayNet (b : Build) (W : Nat) where
  mem : RxEngMemWrite b W
  memIn : RxEngMemWriteIn W
  issued : List MmCmd
  delayer : RxAppNotificationDelayer
  fifo : RxAppNotificationDelayerIn
  written : List AppNotification
  commands : List MmCmd
  arrived : List Bool
  emitted : List AppNotification

/-- `segment`: the state machine finishes a segment; `word`: a word of payload arrives; `status`: the
memory acknowledges the oldest write.  The rest are calls. -/
inductive DelayLabel (b : Build) (W : Nat) where
  | segment (e : RxTcpFsmEnv b) (m : RxFsmMetaData) (tcpState : SessionState) (rxSar : RxSarEntry b)
      (txSar : RxTxSarReply b)
  | word (w : AxiWord W)
  | memWrite
  | status (okay : Bool)
  | delayer

/-- A notification that can reach the application. -/
def AppNotification.emittable (n : AppNotification) : Bool := n.length != 0 || n.closed

namespace DelayNet

def init : DelayNet b W := ⟨.init b W, {}, [], .init, ⟨[], [], []⟩, [], [], [], []⟩

def callDelayer (t : DelayNet b W) : DelayNet b W :=
  let (delayer, fifo, out) := rxAppNotificationDelayer t.delayer t.fifo
  { t with delayer, fifo, emitted := t.emitted ++ out }

def step (t : DelayNet b W) : DelayLabel b W → Option (DelayNet b W)
  | .segment e m tcpState rxSar txSar =>
    let out := transition b e m tcpState rxSar txSar
    some { t with
      fifo := { t.fifo with
        internalNotificationFifoIn := t.fifo.internalNotificationFifoIn ++ out.rxEng2rxAppNotification }
      memIn := { t.memIn with cmdIn := t.memIn.cmdIn ++ out.rxBufferWriteCmd }
      written := t.written ++ out.rxEng2rxAppNotification
      commands := t.commands ++ out.rxBufferWriteCmd }
  | .word w => some { t with memIn := { t.memIn with dataIn := t.memIn.dataIn ++ [w] } }
  | .memWrite =>
    let (mem, memIn, out) := rxEngMemWrite b W t.mem t.memIn
    some { t with
      mem, memIn, issued := t.issued ++ out.cmdOut
      fifo := { t.fifo with doubleAccess := t.fifo.doubleAccess ++ out.doubleAccess } }
  | .status okay =>
    match t.issued with
    | [] => none
    | _ :: issued =>
      some { t with
        issued, fifo := { t.fifo with rxWriteStatusIn := t.fifo.rxWriteStatusIn ++ [okay] }
        arrived := t.arrived ++ [okay] }
  | .delayer => some t.callDelayer

/-- How many statuses the memory sends for a command. -/
def accesses (cmd : MmCmd) : Nat := if crosses b cmd then 2 else 1

/-- A notification with payload is passed on if all statuses of its command are okay. -/
def passes (n : AppNotification) (statuses : List Bool) : Bool := n.length != 0 && statuses.all id

/-- What has to reach the application of the notifications with a command, the statuses that arrived so
far being dealt to the commands in order. -/
def expected (t : DelayNet b W) : List AppNotification :=
  settled passes ((t.written.filter (!·.bypasses)).zip (t.commands.map (accesses (b := b)))) t.arrived

/-- The delayer does not forward a closed notification without payload while one of the same session
that can still reach the application is buffered. -/
def orderly (t : DelayNet b W) : DelayLabel b W → Bool
  | .delayer =>
    let s := t.delayer
    match t.fifo.internalNotificationFifoIn with
    | [] => true
    | n :: _ =>
      !n.bypasses || s.rxAppNotificationDoubleAccessFlag || decide (31 ≤ s.randFifoCount.toNat) ||
        (!t.fifo.rxWriteStatusIn.isEmpty && !s.randNotificationBuffer.isEmpty &&
          !t.fifo.doubleAccess.isEmpty) ||
        s.randNotificationBuffer.all fun p => p.sessionID != n.sessionID || !p.emittable
  | _ => true

/-! ## Notifications and commands -/

/-- A finished segment writes as many commands as notifications that wait for one. -/
theorem transition_paired (hb : b.rxDdrBypass = false) (e : RxTcpFsmEnv b) (m : RxFsmMetaData)
    (tcpState : SessionState) (rxSar : RxSarEntry b) (txSar : RxTxSarReply b) :
    let o := transition b e m tcpState rxSar txSar
    (o.rxEng2rxAppNotification.filter (!·.bypasses)).length = o.rxBufferWriteCmd.length := by
  have hopen (n : BitVec 16) : (notification m n false).bypasses = false := rfl
  unfold transition
  cases controlBits m.metaData with
  | ack =>
    simp only [transitionAck]
    split
    · simp only [ackPayload, hb, Bool.false_eq_true, if_false]
      split
      · rfl
      · unfold ackPayloadDdr
        split_ifs <;> simp [keepPayload, hopen]
    · rfl
  | syn =>
    simp only [transitionSyn]
    split_ifs <;> rfl
  | synAck =>
    simp only [transitionSynAck]
    split_ifs <;> rfl
  | fin =>
    simp only [transitionFin]
    split
    · unfold finPayload
      by_cases hl : m.metaData.length = 0
      · rw [if_neg (not_not.mpr hl)]
        split <;> rfl
      · rw [if_pos hl, hb]
        have hwaits : (notification m m.metaData.length true).bypasses = false := by
          change (m.metaData.length == 0) = false
          exact beq_false_of_ne hl
        simp [hwaits]
    · rfl
  | other =>
    simp only [transitionOther]
    split_ifs <;> rfl

/-! ## The invariant -/

section Half

variable (s : RxAppNotificationDelayer)

/-- The half acknowledged notification, its flag and its first status. -/
def half : List AppNotification := if s.rxAppNotificationDoubleAccessFlag then [s.rxAppNotification] else []

def halfFlag : List Bool := if s.rxAppNotificationDoubleAccessFlag then [true] else []

def halfStatus : List Bool := if s.rxAppNotificationDoubleAccessFlag then [s.rxAppNotificationStatus1] else []

end Half

/-- Statuses announced by a flag. -/
def size (double : Bool) : Nat := if double then 2 else 1

/-- `judged` notifications have used up the statuses `used` as their `flags` say, the commands of
`flagged` have been issued at least in part, and everything else is where it can be seen. -/
structure Matched (t : DelayNet b W) (judged : List AppNotification) (flags : List Bool) (used : List Bool)
    (flagged : List MmCmd) : Prop where
  written : t.written.filter (!·.bypasses) = judged ++ (half t.delayer ++
    t.delayer.randNotificationBuffer ++ t.fifo.internalNotificationFifoIn.filter (!·.bypasses))
  commands : t.commands = flagged ++ (t.mem.held ++ t.memIn.cmdIn)
  announced : flagged.map (crosses b) = flags ++ (halfFlag t.delayer ++ t.fifo.doubleAccess)
  aligned : flags.length = judged.length
  arrived : t.arrived = used ++ (halfStatus t.delayer ++ t.fifo.rxWriteStatusIn)
  dealt : used.length = (flags.map size).sum
  issued : (flagged.map (accesses (b := b))).sum = t.arrived.length + t.issued.length + t.mem.owed
  emitted : t.emitted.filter (!·.bypasses) = settled passes (judged.zip (flags.map size)) used

structure Inv (t : DelayNet b W) : Prop where
  paired : (t.written.filter (!·.bypasses)).length = t.commands.length
  matched : ∃ judged flags used flagged, Matched t judged flags used flagged
  forwarded : t.emitted.filter (·.bypasses) ++ t.fifo.internalNotificationFifoIn.filter (·.bypasses) =
    t.written.filter (·.bypasses)
  buffered : ∀ n ∈ t.delayer.randNotificationBuffer, n.bypasses = false
  count : t.delayer.randFifoCount.toNat =
    (half t.delayer).length + t.delayer.randNotificationBuffer.length

theorem inv_init : Inv (init : DelayNet b W) :=
  ⟨rfl, ⟨[], [], [], [], rfl, rfl, rfl, rfl, rfl, rfl, rfl, rfl⟩, rfl,
    fun _ hn => absurd hn List.not_mem_nil, rfl⟩

variable {t u : DelayNet b W}

theorem inv_segment {e : RxTcpFsmEnv b} {m : RxFsmMetaData} {tcpState : SessionState}
    {rxSar : RxSarEntry b} {txSar : RxTxSarReply b} (hb : b.rxDdrBypass = false) (h : Inv t)
    (hs : t.step (.segment e m tcpState rxSar txSar) = some u) : Inv u := by
  have hpair := transition_paired hb e m tcpState rxSar txSar
  generalize ho : transition b e m tcpState rxSar txSar = o at hpair
  simp only [step, ho] at hs
  cases hs
  obtain ⟨hpaired, ⟨judged, flags, used, flagged, hm⟩, hforwarded, hbuffered, hcount⟩ := h
  refine ⟨?_, ⟨judged, flags, used, flagged, ?_, ?_, hm.announced, hm.aligned, hm.arrived, hm.dealt, hm.issued,
    hm.emitted⟩, ?_, hbuffered, hcount⟩
  · rw [List.filter_append, List.length_append, List.length_append, hpaired, hpair]
  · rw [List.filter_append, hm.written, List.filter_append]
    simp only [List.append_assoc]
  · rw [hm.commands]
    simp only [List.append_assoc]
  · rw [List.filter_append, List.filter_append, ← hforwarded, List.append_assoc]

theorem inv_status {okay : Bool} (h : Inv t) (hs : t.step (.status okay) = some u) : Inv u := by
  simp only [step] at hs
  cases hi : t.issued with
  | nil =>
    rw [hi] at hs
    cases hs
  | cons c issued =>
    rw [hi] at hs
    cases hs
    obtain ⟨hpaired, ⟨judged, flags, used, flagged, hm⟩, hforwarded, hbuffered, hcount⟩ := h
    refine ⟨hpaired, ⟨judged, flags, used, flagged, hm.written, hm.commands, hm.announced, hm.aligned, ?_,
      hm.dealt, ?_, hm.emitted⟩, hforwarded, hbuffered, hcount⟩
    · rw [hm.arrived]
      simp only [List.append_assoc]
    · have hissued := hm.issued
      rw [hi] at hissued
      simp only [List.length_append, List.length_cons, List.length_nil] at hissued ⊢
      omega

theorem inv_memWrite (h : Inv t) (hs : t.step .memWrite = some u) : Inv u := by
  have hc := memWrote t.mem t.memIn
  simp only [step] at hs
  generalize rxEngMemWrite b W t.mem t.memIn = r at hc hs
  obtain ⟨mem, memIn, out⟩ := r
  cases hs
  obtain ⟨hpaired, ⟨judged, flags, used, flagged, hm⟩, hforwarded, hbuffered, hcount⟩ := h
  cases hc with
  | data hcmd hheld howed hout hflag =>
    refine ⟨hpaired, ⟨judged, flags, used, flagged, { hm with commands := ?_, announced := ?_, issued := ?_ }⟩,
      hforwarded, hbuffered, hcount⟩
    · rw [hheld, hcmd]
      exact hm.commands
    · rw [hflag, List.append_nil]
      exact hm.announced
    · rw [hout, howed, List.append_nil]
      exact hm.issued
  | read c hcmd hheld hheld' howed howed' hout hflag =>
    refine ⟨hpaired, ⟨judged, flags, used, flagged, { hm with commands := ?_, announced := ?_, issued := ?_ }⟩,
      hforwarded, hbuffered, hcount⟩
    · rw [hheld', hm.commands, hheld, hcmd]
      rfl
    · rw [hflag, List.append_nil]
      exact hm.announced
    · rw [hout, howed', List.append_nil, ← howed]
      exact hm.issued
  | issue c c' hcmd hheld hheld' howed howed' hout hflag =>
    -- the command joins the issued ones, and its flag is sent
    refine ⟨hpaired, ⟨judged, flags, used, flagged ++ [c], hm.written, ?_, ?_, hm.aligned, hm.arrived,
      hm.dealt, ?_, hm.emitted⟩, hforwarded, hbuffered, hcount⟩
    · rw [hheld', hm.commands, hheld, hcmd]
      simp only [List.append_assoc, List.nil_append]
    · rw [List.map_append, hm.announced, hflag]
      simp only [List.append_assoc, List.map_cons, List.map_nil]
    · have hissued := hm.issued
      rw [howed] at hissued
      simp only [List.map_append, List.sum_append, List.map_cons, List.map_nil, List.sum_cons, List.sum_nil,
        hissued, hout, howed', List.length_append, List.length_cons, List.length_nil, accesses]
      split <;> omega
  | second c' hcmd hheld hheld' howed howed' hout hflag =>
    refine ⟨hpaired, ⟨judged, flags, used, flagged, { hm with commands := ?_, announced := ?_, issued := ?_ }⟩,
      hforwarded, hbuffered, hcount⟩
    · rw [hheld', hm.commands, hheld, hcmd]
    · rw [hflag, List.append_nil]
      exact hm.announced
    · have hissued := hm.issued
      rw [howed] at hissued
      simp only [hout, howed', List.length_append, List.length_cons, List.length_nil]
      omega

/-! ## The delayer -/

theorem callDelayer_eq {r : RxAppNotificationDelayer × RxAppNotificationDelayerIn × List AppNotification}
    (hr : rxAppNotificationDelayer t.delayer t.fifo = r) :
    t.callDelayer = { t with delayer := r.1, fifo := r.2.1, emitted := t.emitted ++ r.2.2 } := by
  subst hr
  rfl

theorem second_out (n : AppNotification) (status1 status2 : Bool) :
    (if status1 && status2 && n.length != 0 then [n] else []) = if passes n [status1, status2] then [n] else [] := by
  simp [passes, and_comm, and_assoc]

theorem first_out (n : AppNotification) (status1 : Bool) :
    (if (!false) && status1 && n.length != 0 then [n] else []) = if passes n [status1] then [n] else [] := by
  simp [passes, and_comm]

theorem filter_passes (n : AppNotification) (statuses : List Bool) :
    (if passes n statuses then [n] else []).filter (!·.bypasses) = if passes n statuses then [n] else [] := by
  split
  · next h =>
      have hn : (!n.bypasses) = true := by
        rw [passes, Bool.and_eq_true, bne_iff_ne] at h
        rw [AppNotification.bypasses, beq_false_of_ne h.1, Bool.and_false]
        rfl
      rw [List.filter_cons, if_pos hn, List.filter_nil]
  · rfl

theorem filter_passes_nil (n : AppNotification) (statuses : List Bool) :
    (if passes n statuses then [n] else []).filter (·.bypasses) = [] := by
  have h := filter_passes n statuses
  refine List.filter_eq_nil_iff.mpr fun a ha hb => ?_
  rw [← h] at ha
  have := (List.mem_filter.mp ha).2
  rw [hb] at this
  cases this

theorem Matched.judge {judged : List AppNotification} {flags used : List Bool} (n : AppNotification)
    (statuses : List Bool) (double : Bool) (hsize : statuses.length = size double)
    (haligned : flags.length = judged.length) (hdealt : used.length = (flags.map size).sum) :
    settled passes ((judged ++ [n]).zip ((flags ++ [double]).map size)) (used ++ statuses) =
      settled passes (judged.zip (flags.map size)) used ++ if passes n statuses then [n] else [] := by
  have hzip : (judged ++ [n]).zip ((flags ++ [double]).map size) =
      judged.zip (flags.map size) ++ [(n, statuses.length)] := by
    rw [List.map_append, List.zip_append (by rw [List.length_map, haligned]), hsize]
    rfl
  have hsum : used.length = ((judged.zip (flags.map size)).map (·.2)).sum := by
    rw [hdealt, ← List.unzip_snd, List.unzip_zip_right (by rw [List.length_map, haligned])]
  rw [hzip, settled_snoc n hsum]

theorem half_of_flag {s : RxAppNotificationDelayer} (h : s.rxAppNotificationDoubleAccessFlag = true) :
    half s = [s.rxAppNotification] ∧ halfFlag s = [true] ∧ halfStatus s = [s.rxAppNotificationStatus1] := by
  simp [half, halfFlag, halfStatus, h]

theorem half_of_not {s : RxAppNotificationDelayer} (h : s.rxAppNotificationDoubleAccessFlag = false) :
    half s = [] ∧ halfFlag s = [] ∧ halfStatus s = [] := by
  simp [half, halfFlag, halfStatus, h]

theorem inv_delayer (h : Inv t) : Inv t.callDelayer := by
  have hc := delayed t.delayer t.fifo
  generalize hr : rxAppNotificationDelayer t.delayer t.fifo = r at hc
  rw [callDelayer_eq hr]
  obtain ⟨hpaired, ⟨judged, flags, used, flagged, hm⟩, hforwarded, hbuffered, hcount⟩ := h
  cases hc with
  | idle _ =>
    refine ⟨hpaired, ⟨judged, flags, used, flagged, { hm with emitted := ?_ }⟩, ?_, hbuffered, hcount⟩
    · rw [List.append_nil]
      exact hm.emitted
    · rw [List.append_nil]
      exact hforwarded
  | second status2 statuses hflag hstatus =>
    obtain ⟨hhalf, hhflag, hhstatus⟩ := half_of_flag hflag
    rw [second_out]
    refine ⟨hpaired, ⟨judged ++ [t.delayer.rxAppNotification], flags ++ [true],
      used ++ [t.delayer.rxAppNotificationStatus1, status2], flagged,
      ⟨?_, hm.commands, ?_, ?_, ?_, ?_, hm.issued, ?_⟩⟩, ?_, hbuffered, ?_⟩
    · rw [hm.written, hhalf]
      simp [half]
    · rw [hm.announced, hhflag]
      simp [halfFlag]
    · rw [List.length_append, List.length_append, hm.aligned]
      rfl
    · rw [hm.arrived, hhstatus, hstatus]
      simp [halfStatus]
    · rw [List.length_append, List.map_append, List.sum_append, hm.dealt]
      rfl
    · rw [List.filter_append, filter_passes, hm.emitted,
        Matched.judge _ [t.delayer.rxAppNotificationStatus1, status2] true rfl hm.aligned hm.dealt]
    · rw [List.filter_append, filter_passes_nil, List.append_nil]
      exact hforwarded
    · rw [hhalf] at hcount
      simp only [List.length_cons, List.length_nil] at hcount
      simp only [half, Bool.false_eq_true, if_false, List.length_nil, Nat.zero_add]
      have hlt := t.delayer.randFifoCount.isLt
      rw [BitVec.toNat_sub]
      change (2 ^ 5 - 1 + t.delayer.randFifoCount.toNat) % 2 ^ 5 = _
      omega
  | first status1 statuses n buffer double dflags hflag hstatus hbuffer hflags =>
    obtain ⟨hhalf, hhflag, hhstatus⟩ := half_of_not hflag
    cases double with
    | true =>
      have hout : (if (!true) && status1 && n.length != 0 then [n] else []) = [] := rfl
      rw [hout]
      refine ⟨hpaired, ⟨judged, flags, used, flagged,
        ⟨?_, hm.commands, ?_, hm.aligned, ?_, hm.dealt, hm.issued, ?_⟩⟩, ?_, ?_, ?_⟩
      · rw [hm.written, hhalf, hbuffer]
        rfl
      · rw [hm.announced, hhflag, hflags]
        rfl
      · rw [hm.arrived, hhstatus, hstatus]
        rfl
      · rw [List.append_nil]
        exact hm.emitted
      · rw [List.append_nil]
        exact hforwarded
      · exact fun a ha => hbuffered a (by rw [hbuffer]; exact List.mem_cons_of_mem _ ha)
      · rw [hhalf, hbuffer] at hcount
        simp only [List.length_cons, List.length_nil] at hcount
        simp only [half, if_true, List.length_cons, List.length_nil]
        omega
    | false =>
      rw [first_out]
      refine ⟨hpaired, ⟨judged ++ [n], flags ++ [false], used ++ [status1], flagged,
        ⟨?_, hm.commands, ?_, ?_, ?_, ?_, hm.issued, ?_⟩⟩, ?_, ?_, ?_⟩
      · rw [hm.written, hhalf, hbuffer]
        simp [half]
      · rw [hm.announced, hhflag, hflags]
        simp [halfFlag]
      · rw [List.length_append, List.length_append, hm.aligned]
        rfl
      · rw [hm.arrived, hhstatus, hstatus]
        simp [halfStatus]
      · rw [List.length_append, List.map_append, List.sum_append, hm.dealt]
        rfl
      · rw [List.filter_append, filter_passes, hm.emitted,
          Matched.judge n [status1] false rfl hm.aligned hm.dealt]
      · rw [List.filter_append, filter_passes_nil, List.append_nil]
        exact hforwarded
      · exact fun a ha => hbuffered a (by rw [hbuffer]; exact List.mem_cons_of_mem _ ha)
      · rw [hhalf, hbuffer] at hcount
        simp only [List.length_cons, List.length_nil] at hcount
        simp only [half, Bool.false_eq_true, if_false, List.length_nil, Nat.zero_add]
        have hlt := t.delayer.randFifoCount.isLt
        rw [BitVec.toNat_sub]
        change (2 ^ 5 - 1 + t.delayer.randFifoCount.toNat) % 2 ^ 5 = _
        omega
  | forward n notifications hflag hnotification hn _ hlt =>
    have hskip : t.fifo.internalNotificationFifoIn.filter (!·.bypasses) =
        notifications.filter (!·.bypasses) := by
      rw [hnotification, List.filter_cons, if_neg (by rw [hn]; decide)]
    refine ⟨hpaired, ⟨judged, flags, used, flagged,
      ⟨?_, hm.commands, ?_, hm.aligned, ?_, hm.dealt, hm.issued, ?_⟩⟩, ?_, hbuffered, ?_⟩
    · rw [hm.written, hskip]
      simp [half, hflag]
    · rw [hm.announced]
      simp [halfFlag, hflag]
    · rw [hm.arrived]
      simp [halfStatus, hflag]
    · rw [List.filter_append, List.filter_cons, if_neg (by rw [hn]; decide), List.filter_nil,
        List.append_nil]
      exact hm.emitted
    · rw [← hforwarded, hnotification, List.filter_append, List.filter_cons, List.filter_cons,
        if_pos hn, if_pos hn]
      simp
    · simpa [half, hflag] using hcount
  | buffer n notifications hflag hnotification hn hlt =>
    have htake : t.fifo.internalNotificationFifoIn.filter (!·.bypasses) =
        n :: notifications.filter (!·.bypasses) := by
      rw [hnotification, List.filter_cons, if_pos (by rw [hn]; rfl)]
    refine ⟨hpaired, ⟨judged, flags, used, flagged,
      ⟨?_, hm.commands, ?_, hm.aligned, ?_, hm.dealt, hm.issued, ?_⟩⟩, ?_, ?_, ?_⟩
    · rw [hm.written, htake]
      simp [half, hflag]
    · rw [hm.announced]
      simp [halfFlag, hflag]
    · rw [hm.arrived]
      simp [halfStatus, hflag]
    · rw [List.append_nil]
      exact hm.emitted
    · rw [← hforwarded, hnotification, List.append_nil, List.filter_cons, if_neg (by rw [hn]; decide)]
    · intro a ha
      rcases List.mem_append.mp ha with ha | ha
      · exact hbuffered a ha
      · rw [List.mem_singleton.mp ha]
        exact hn
    · rw [(half_of_not hflag).1] at hcount
      simp only [half, hflag, Bool.false_eq_true, if_false, List.length_append, List.length_cons,
        List.length_nil] at hcount ⊢
      rw [BitVec.toNat_add]
      change (t.delayer.randFifoCount.toNat + 1) % 2 ^ 5 = _
      omega

theorem inv_step {l : DelayLabel b W} (hb : b.rxDdrBypass = false) (h : Inv t)
    (hs : t.step l = some u) : Inv u := by
  cases l with
  | segment e m tcpState rxSar txSar => exact inv_segment hb h hs
  | word w =>
    cases hs
    obtain ⟨hpaired, ⟨judged, flags, used, flagged, hm⟩, hforwarded, hbuffered, hcount⟩ := h
    exact ⟨hpaired, ⟨judged, flags, used, flagged, { hm with }⟩, hforwarded, hbuffered, hcount⟩
  | memWrite => exact inv_memWrite h hs
  | status okay => exact inv_status h hs
  | delayer =>
    cases hs
    exact inv_delayer h

/-! ## Exactly the expected notifications -/

theorem Matched.expected {judged : List AppNotification} {flags used : List Bool} {flagged : List MmCmd}
    (hm : Matched t judged flags used flagged) :
    t.expected = t.emitted.filter (!·.bypasses) ++
      settled passes
        ((half t.delayer ++ t.delayer.randNotificationBuffer ++
            t.fifo.internalNotificationFifoIn.filter (!·.bypasses)).zip
          ((halfFlag t.delayer ++ t.fifo.doubleAccess).map size ++
            (t.mem.held ++ t.memIn.cmdIn).map (accesses (b := b))))
        (halfStatus t.delayer ++ t.fifo.rxWriteStatusIn) := by
  have hsizes : flagged.map (accesses (b := b)) =
      flags.map size ++ (halfFlag t.delayer ++ t.fifo.doubleAccess).map size := by
    rw [← List.map_append, ← hm.announced, List.map_map]
    rfl
  have hlen : judged.length = (flags.map size).length := by rw [List.length_map, hm.aligned]
  have hsum : used.length = ((judged.zip (flags.map size)).map (·.2)).sum := by
    rw [hm.dealt, ← List.unzip_snd, List.unzip_zip_right (by rw [List.length_map, hm.aligned])]
  rw [DelayNet.expected, hm.written, hm.commands, List.map_append, hsizes, List.append_assoc _ _ (List.map _ _),
    List.zip_append hlen, hm.arrived, settled_append hsum, hm.emitted]

/-- An idle delayer has passed on all that is expected. -/
theorem emitted_of_idle (h : Inv t)
    (hidle : t.delayer.rxAppNotificationDoubleAccessFlag = true ∧ t.fifo.rxWriteStatusIn = [] ∨
      t.delayer.rxAppNotificationDoubleAccessFlag = false ∧
        (t.fifo.rxWriteStatusIn = [] ∨ t.delayer.randNotificationBuffer = [] ∨ t.fifo.doubleAccess = []) ∧
        (t.fifo.internalNotificationFifoIn = [] ∨ ¬ t.delayer.randFifoCount.toNat < 31)) :
    t.emitted.filter (!·.bypasses) = t.expected := by
  obtain ⟨-, ⟨judged, flags, used, flagged, hm⟩, -, -, hcount⟩ := h
  rw [hm.expected]
  have hpos : ∀ c : MmCmd, 0 < accesses (b := b) c := by
    intro c
    unfold accesses
    split <;> decide
  have hpos' : ∀ double, 0 < size double := by decide
  rcases hidle with ⟨hflag, hstatus⟩ | ⟨hflag, hwait, hfifo⟩
  · obtain ⟨hhalf, hhflag, hhstatus⟩ := half_of_flag hflag
    rw [hhalf, hhflag, hhstatus, hstatus]
    -- the second status is missing
    exact (List.append_nil _).symm.trans (congrArg _ (settled_waiting Nat.one_lt_two).symm)
  · obtain ⟨hhalf, hhflag, hhstatus⟩ := half_of_not hflag
    rw [hhalf, hhflag, hhstatus]
    simp only [List.nil_append]
    have hnone : t.fifo.rxWriteStatusIn = [] ∨ t.delayer.randNotificationBuffer = [] := by
      rcases hwait with hs | hb | hf
      · exact .inl hs
      · exact .inr hb
      · -- every status belongs to a command whose flag has been sent
        left
        have hissued := hm.issued
        have hsizes : (flagged.map (accesses (b := b))).sum = (flags.map size).sum := by
          have hmap : flagged.map (accesses (b := b)) = (flagged.map (crosses b)).map size := by
            rw [List.map_map]
            rfl
          rw [hmap, hm.announced, hhflag, hf, List.append_nil, List.append_nil]
        have harrived := congrArg List.length hm.arrived
        rw [hhstatus, List.length_append, List.length_append, List.length_nil] at harrived
        have hdealt := hm.dealt
        exact List.length_eq_zero_iff.mp (by omega)
    rcases hnone with hs | hbuf
    · rw [hs, settled_nil, List.append_nil]
      rintro ⟨n, k⟩ hx
      rcases List.mem_append.mp (List.of_mem_zip hx).2 with hk | hk
      · obtain ⟨double, -, rfl⟩ := List.mem_map.mp hk
        exact hpos' double
      · obtain ⟨c, -, rfl⟩ := List.mem_map.mp hk
        exact hpos c
    · have hempty : t.fifo.internalNotificationFifoIn = [] := by
        rw [hhalf, hbuf] at hcount
        refine hfifo.resolve_right fun hn => hn ?_
        rw [hcount]
        decide
      rw [hbuf, hempty]
      exact (List.append_nil _).symm

/-- What the delayer still has to read. -/
def backlog (t : DelayNet b W) : Nat :=
  2 * t.fifo.internalNotificationFifoIn.length + t.delayer.randNotificationBuffer.length +
    t.fifo.rxWriteStatusIn.length

theorem callDelayer_backlog (h : Inv t) :
    t.callDelayer = t ∧ t.emitted.filter (!·.bypasses) = t.expected ∨
      t.callDelayer.backlog < t.backlog := by
  have hc := delayed t.delayer t.fifo
  generalize hr : rxAppNotificationDelayer t.delayer t.fifo = r at hc
  rw [callDelayer_eq hr]
  cases hc with
  | idle hidle =>
    left
    refine ⟨?_, emitted_of_idle h hidle⟩
    dsimp only
    rw [List.append_nil]
  | second status2 statuses hflag hstatus =>
    right
    simp only [backlog, hstatus, List.length_cons]
    omega
  | first status1 statuses n buffer double dflags hflag hstatus hbuffer hflags =>
    right
    simp only [backlog, hstatus, hbuffer, List.length_cons]
    omega
  | forward n notifications hflag hnotification hn _ hlt =>
    right
    simp only [backlog, hnotification, List.length_cons]
    omega
  | buffer n notifications hflag hnotification hn hlt =>
    right
    simp only [backlog, hnotification, List.length_append, List.length_cons, List.length_nil]
    omega

theorem emitted_eventually {k : Nat} (h : Inv t) (hk : t.backlog ≤ k) :
    (callDelayer^[k] t).emitted.filter (!·.bypasses) = t.expected := by
  induction k generalizing t with
  | zero =>
    rcases callDelayer_backlog h with ⟨-, he⟩ | hlt
    · exact he
    · omega
  | succ k ih =>
    rcases callDelayer_backlog h with ⟨hfix, he⟩ | hlt
    · rw [Function.iterate_fixed hfix]
      exact he
    · rw [Function.iterate_succ_apply]
      exact ih (inv_delayer h) (by omega)

/-! ## In order -/

/-- The notifications of a session that can reach the application. -/
def ofSession (sid : SessionID) (n : AppNotification) : Bool := n.sessionID == sid && n.emittable

/-- Of every session the notifications that were emitted come from the ones that are no longer
waiting, in their order. -/
def InOrder (t : DelayNet b W) : Prop :=
  ∀ sid, ∃ passed, t.written.filter (ofSession sid) = passed ++ (half t.delayer ++
      t.delayer.randNotificationBuffer ++ t.fifo.internalNotificationFifoIn).filter (ofSession sid) ∧
    (t.emitted.filter (·.sessionID == sid)).Sublist passed

theorem passes_sublist (sid : SessionID) (n : AppNotification) (statuses : List Bool) :
    ((if passes n statuses then [n] else []).filter (·.sessionID == sid)).Sublist
      ([n].filter (ofSession sid)) := by
  split
  · next h =>
      have hn : n.emittable = true := by
        rw [passes, Bool.and_eq_true] at h
        rw [AppNotification.emittable, h.1, Bool.true_or]
      rw [List.filter_cons, List.filter_cons, ofSession, hn, Bool.and_true]
      split
      · exact List.Sublist.refl _
      · exact List.Sublist.refl _
  · exact List.nil_sublist _

theorem InOrder.judge {sid : SessionID} {passed pending : List AppNotification} {n : AppNotification}
    {written emitted : List AppNotification} (statuses : List Bool)
    (hw : written = passed ++ (n :: pending).filter (ofSession sid))
    (he : (emitted.filter (·.sessionID == sid)).Sublist passed) :
    ∃ passed', written = passed' ++ pending.filter (ofSession sid) ∧
      ((emitted ++ if passes n statuses then [n] else []).filter (·.sessionID == sid)).Sublist passed' := by
  refine ⟨passed ++ [n].filter (ofSession sid), ?_, ?_⟩
  · rw [hw, List.append_assoc, ← List.filter_append]
    rfl
  · rw [List.filter_append]
    exact he.append (passes_sublist sid n statuses)

theorem inOrder_delayer (h : InOrder t) (hok : t.orderly (.delayer) = true) :
    InOrder t.callDelayer := by
  have hc := delayed t.delayer t.fifo
  generalize hr : rxAppNotificationDelayer t.delayer t.fifo = r at hc
  rw [callDelayer_eq hr]
  intro sid
  obtain ⟨passed, hw, he⟩ := h sid
  cases hc with
  | idle _ =>
    refine ⟨passed, hw, ?_⟩
    rw [List.append_nil]
    exact he
  | second status2 statuses hflag hstatus =>
    rw [(half_of_flag hflag).1] at hw
    rw [second_out]
    exact InOrder.judge _ hw he
  | first status1 statuses n buffer double dflags hflag hstatus hbuffer hflags =>
    rw [(half_of_not hflag).1, hbuffer] at hw
    cases double with
    | true =>
      refine ⟨passed, hw, ?_⟩
      have hout : (if (!true) && status1 && n.length != 0 then [n] else []) = [] := rfl
      rw [hout, List.append_nil]
      exact he
    | false =>
      rw [first_out]
      exact InOrder.judge _ hw he
  | forward n notifications hflag hnotification hn hwait hlt =>
    rw [(half_of_not hflag).1, hnotification, List.nil_append, List.filter_append] at hw
    have hhalf : half { t.delayer with rxAppNotification := n } = [] := by simp [half, hflag]
    refine ⟨passed ++ [n].filter (ofSession sid), ?_, ?_⟩
    · by_cases hs : n.sessionID = sid
      · -- nothing of the session that can be emitted is overtaken
        have hclear : t.delayer.randNotificationBuffer.filter (ofSession sid) = [] := by
          rw [List.filter_eq_nil_iff]
          intro p hp hmine
          rw [ofSession, Bool.and_eq_true, beq_iff_eq] at hmine
          have hall : (!t.fifo.rxWriteStatusIn.isEmpty && !t.delayer.randNotificationBuffer.isEmpty &&
              !t.fifo.doubleAccess.isEmpty) = false := by
            rcases hwait with h0 | h0 | h0 <;> simp [h0]
          have hcount : decide (31 ≤ t.delayer.randFifoCount.toNat) = false := by
            rw [decide_eq_false_iff_not]
            omega
          simp only [orderly, hnotification, hn, hflag, hall, hcount, Bool.not_true, Bool.false_or] at hok
          have hp' := List.all_eq_true.mp hok p hp
          rw [hmine.2, hs, hmine.1] at hp'
          simp at hp'
        rw [hw, hclear, hhalf, List.nil_append, List.nil_append, List.filter_append, hclear,
          List.append_assoc, List.nil_append, ← List.filter_append]
        rfl
      · have hskip : [n].filter (ofSession sid) = [] := by
          simp [ofSession, hs]
        rw [hw, hskip, hhalf, List.append_nil, List.nil_append, List.filter_append]
        have hcons : (n :: notifications).filter (ofSession sid) = notifications.filter (ofSession sid) := by
          rw [← List.singleton_append, List.filter_append, hskip, List.nil_append]
        rw [hcons]
    · rw [List.filter_append]
      refine he.append ?_
      have hn' : n.emittable = true := by
        rw [AppNotification.bypasses, Bool.and_eq_true] at hn
        rw [AppNotification.emittable, hn.1, Bool.or_true]
      rw [List.filter_cons, List.filter_cons, ofSession, hn', Bool.and_true]
      split
      · exact List.Sublist.refl _
      · exact List.Sublist.refl _
  | buffer n notifications hflag hnotification hn hlt =>
    refine ⟨passed, ?_, ?_⟩
    · rw [hw, hnotification]
      simp [half, hflag]
    · rw [List.append_nil]
      exact he

theorem inOrder_step {l : DelayLabel b W} (hin : Inv t) (h : InOrder t) (hok : t.orderly l = true)
    (hs : t.step l = some u) : InOrder u := by
  cases l with
  | segment e m tcpState rxSar txSar =>
    cases hs
    intro sid
    obtain ⟨passed, hw, he⟩ := h sid
    refine ⟨passed, ?_, he⟩
    rw [List.filter_append, hw]
    simp only [List.filter_append, List.append_assoc]
  | word | memWrite =>
    cases hs
    exact h
  | status okay =>
    simp only [step] at hs
    split at hs
    · cases hs
    · cases hs
      exact h
  | delayer =>
    cases hs
    exact inOrder_delayer h hok

/-! ## Every run -/

/-- What the application sees, and the counter. -/
structure Ordered (t : DelayNet b W) : Prop where
  count : t.delayer.randFifoCount.toNat =
    t.delayer.randNotificationBuffer.length + (if t.delayer.rxAppNotificationDoubleAccessFlag then 1 else 0)
  depth : t.delayer.randNotificationBuffer.length < 32
  emitted : t.emitted.filter (!·.bypasses) <+: t.expected
  eventually : ∃ n, ∀ k ≥ n, (callDelayer^[k] t).emitted.filter (!·.bypasses) = t.expected
  closed : t.emitted.filter (·.bypasses) <+: t.written.filter (·.bypasses)
  order : ∀ sid, (t.emitted.filter (·.sessionID == sid)).Sublist (t.written.filter (·.sessionID == sid))

/-- Notifications are emitted once, on their statuses and in order, and are counted, as long as no closed
notification overtakes one of its session. -/
theorem notifications_ordered (hb : b.rxDdrBypass = false) (t : DelayNet b W)
    (h : Reach step (fun t l => t.orderly l = true) init t) : Ordered t := by
  have hinv : Inv t ∧ InOrder t := by
    refine h.invariant (P := fun t => Inv t ∧ InOrder t) ⟨inv_init, fun _ => ⟨[], rfl, .slnil⟩⟩ ?_
    intro u l v hu hok hs
    exact ⟨inv_step hb hu.1 hs, inOrder_step hu.1 hu.2 hok hs⟩
  obtain ⟨hin, horder⟩ := hinv
  refine ⟨?_, ?_, ?_, ⟨t.backlog, fun k hk => emitted_eventually hin hk⟩, ?_, fun sid => ?_⟩
  · rw [hin.count, half]
    split
    · exact Nat.add_comm ..
    · exact Nat.add_comm ..
  · have hcount := hin.count
    have hlt := t.delayer.randFifoCount.isLt
    omega
  · obtain ⟨judged, flags, used, flagged, hm⟩ := hin.matched
    exact ⟨_, hm.expected.symm⟩
  · exact ⟨_, hin.forwarded⟩
  · obtain ⟨passed, hw, he⟩ := horder sid
    have hsub : (t.written.filter (ofSession sid)).Sublist (t.written.filter (·.sessionID == sid)) := by
      rw [show t.written.filter (ofSession sid) =
        (t.written.filter (·.sessionID == sid)).filter (·.emittable) by
          rw [List.filter_filter]
          congr 1
          funext n
          exact Bool.and_comm ..]
      exact List.filter_sublist
    refine he.trans (List.Sublist.trans ?_ hsub)
    rw [hw]
    exact List.sublist_append_left ..

/-! ### Two runs -/

def dataSegment (fin : Bool) (seqNumb : BitVec 32) (length : BitVec 16) : RxFsmMetaData :=
  { (default : RxFsmMetaData) with
    metaData := { (default : RxEngineMetaData) with ack := true, fin, seqNumb, length } }

def caughtUp (recvd : BitVec 32) : RxSarEntry .sample :=
  { (default : RxSarEntry .sample) with recvd, head := recvd, appd := recvd.setWidth _ }

/-- Ten bytes and the FIN behind them; the delayer is called before the memory has answered. -/
def overtakeRun : List (DelayLabel .sample 8) :=
  [.segment ⟨default, 0, 0⟩ (dataSegment false 0 10) .ESTABLISHED (caughtUp 0) default, .memWrite, .memWrite,
    .segment ⟨default, 0, 0⟩ (dataSegment true 10 0) .ESTABLISHED (caughtUp 10) default, .delayer, .delayer,
    .status true, .delayer]

-- The closed notification reaches the application before the data in front of it.
theorem closed_overtakes_data :
    ∃ t, run step init overtakeRun = some t ∧
      t.written = [⟨0, 10, 0, 0, false⟩, ⟨0, 0, 0, 0, true⟩] ∧
      t.emitted = [⟨0, 0, 0, 0, true⟩, ⟨0, 10, 0, 0, false⟩] ∧ ¬ Ordered t := by
  have h : (run step init overtakeRun).map (fun t => (t.written, t.emitted)) =
      some ([⟨0, 10, 0, 0, false⟩, ⟨0, 0, 0, 0, true⟩],
        [⟨0, 0, 0, 0, true⟩, ⟨0, 10, 0, 0, false⟩]) := by
    decide +kernel
  obtain ⟨t, ht, hx⟩ := Option.map_eq_some_iff.mp h
  obtain ⟨hwritten, hemitted⟩ := Prod.mk.inj hx
  refine ⟨t, ht, hwritten, hemitted, fun ho => ?_⟩
  have horder := ho.order 0
  rw [hwritten, hemitted] at horder
  revert horder
  decide

/-- A payload whose write is split at the end of the buffer, and a FIN that is forwarded after it. -/
def splitRun : List (DelayLabel .sample 8) :=
  [.segment ⟨default, 0, 0⟩ (dataSegment false 262140 10) .ESTABLISHED (caughtUp 262140) default,
    .memWrite, .memWrite, .delayer, .status true, .delayer,
    .word ⟨0, 255, false⟩, .memWrite, .status true, .delayer,
    .segment ⟨default, 0, 0⟩ (dataSegment true 262150 0) .ESTABLISHED (caughtUp 262150) default, .delayer]

theorem notifications_ordered_split :
    ∃ t, runIf step (fun t l => t.orderly l = true) init splitRun = some t ∧
      t.emitted = [⟨0, 10, 0, 0, false⟩, ⟨0, 0, 0, 0, true⟩] ∧ t.arrived = [true, true] ∧ Ordered t := by
  have h : (runIf step (fun t l => t.orderly l = true) init splitRun).map (fun t => (t.emitted, t.arrived)) =
      some ([⟨0, 10, 0, 0, false⟩, ⟨0, 0, 0, 0, true⟩], [true, true]) := by
    decide +kernel
  obtain ⟨t, ht, hx⟩ := Option.map_eq_some_iff.mp h
  obtain ⟨hemitted, harrived⟩ := Prod.mk.inj hx
  exact ⟨t, ht, hemitted, harrived, notifications_ordered rfl t (reach_of_runIf ht)⟩

end DelayNet

end FpgaNetworkStack.Toe
