import FpgaNetworkStack.Toe.TxPathInv

/-!
# Sequence numbers and buffer addresses

`mempt` says where a write is stored and `not_ackd` under which number it is sent; both count the same
bytes, so the low bits of a sequence number are the buffer offset of its byte.  A retransmission relies on
it: it reads the buffer at the low bits of its own sequence number.
-/

namespace FpgaNetworkStack.Toe

open Lib EventType SessionState

variable {b : Build} {sid : SessionID}

namespace PathNet

/-- The segment of `sid` that `rxTcpFSM` is about to finish is neither a FIN nor a bare SYN that is
taken. -/
def untaken (t : PathNet b) (sid : SessionID) : Bool :=
  match t.send.rx.fsm.fsmState, t.send.rx.fifo.stateTable2rxEngUpdRsp,
      t.send.rx.fifo.rxSar2rxEngUpdRsp with
  | .TRANSITION, tcpState :: _, rxSar :: _ =>
    let m := t.send.rx.fsm.fsmMeta
    m.sessionID != sid ||
      match controlBits m.metaData with
      | .fin => !finAccepted b m rxSar tcpState
      | .syn => !(tcpState == CLOSED || tcpState == SYN_SENT)
      | _ => true
  | _, _, _ => true

/-- The steps of a session up to its first FIN event: none has been raised, and the step is not the end of
the connection from the other side. -/
def beforeFin (sid : SessionID) (t : PathNet b) : PathLabel b → Bool
  | .rx (.call _) => !t.closing sid && t.untaken sid
  | _ => !t.closing sid

variable {t : PathNet b}

theorem untaken_ackChecked (h : t.untaken sid = true) : t.send.ackChecked sid = true := by
  unfold untaken at h
  unfold SendNet.ackChecked
  split
  · next hT hst hrx =>
      simp only [hT, hst, hrx, Bool.or_eq_true] at h ⊢
      refine h.imp_right fun h => ?_
      cases hc : controlBits t.send.rx.fsm.fsmMeta.metaData with
      | fin =>
        simp only [hc] at h
        simp [h]
      | syn => simpa [hc] using h
      | ack | synAck | other => rfl
  · rfl

theorem beforeFin_closing {l : PathLabel b} (h : beforeFin sid t l = true) : t.closing sid = false := by
  unfold beforeFin at h
  split at h
  · simp only [Bool.and_eq_true, Bool.not_eq_true'] at h
    exact h.1
  · simpa using h

/-- Before the first FIN event nothing can overtake anything. -/
theorem beforeFin_orderly {l : PathLabel b} (h : beforeFin sid t l = true) : orderly sid t l = true := by
  have hc := beforeFin_closing h
  simp only [closing, Bool.or_eq_false_iff] at hc
  have hno := List.any_eq_false.mp hc.2
  have hmem {e : ExtendedEvent b} (he : e ∈ t.current ++ t.route ++ t.waiting) : e.isFin sid = false := by
    simpa using hno e he
  unfold orderly
  split
  · rw [beforeFin_closing h]
    simp
  · split
    · next e _ he =>
        have := hmem (e := e.extended) (by simp [waiting, he])
        rw [extended_toEvent] at this
        simp [this]
    · rfl
  · split
    · next e _ he =>
        have := hmem (e := e) (by simp [waiting, he])
        simp [this]
    · rfl
  · simp only [beforeFin, Bool.and_eq_true] at h
    exact untaken_ackChecked h.2
  · simp [hc.1]
  · rfl

/-- Byte `j` of segment `m`, as long as it is not acknowledged: the cell of the buffer with the low bits of
its sequence number holds the byte of the write that was last sent under that number.  The number before
the first byte is the SYN. -/
def Rereads (t : PathNet b) (sid : SessionID) (n : BitVec 32) (m : TxEngineMeta) : Prop :=
  ∀ j < m.length.toNat,
    (m.seqNumb + BitVec.ofNat 32 j - (t.send.entry sid).ackd).toNat <
      ((t.send.entry sid).notAckd - (t.send.entry sid).ackd).toNat →
    m.seqNumb + BitVec.ofNat 32 j = n - 1 ∨
      ∃ k i, cover (segments t.emitted sid) (m.seqNumb + BitVec.ofNat 32 j) = some (k, i) ∧
        cover (t.writes sid) ((m.seqNumb + BitVec.ofNat 32 j).setWidth _) = some (k, i)

variable {sent : List Nat} {n₀ A N : Nat}

/-- The `k`-th TX data segment carries the `k`-th write that is not empty. -/
theorem Path.segment_write (h : Path sid n₀ t A N sent)
    {k : Nat} {seg : BitVec 32 × Nat} (hk : (PathNet.segments t.emitted sid)[k]? = some seg) :
    ∃ w, (t.writes sid)[k]? = some w ∧ w.2 = seg.2 ∧
      seg.1 = BitVec.ofNat 32 (n₀ + (((t.writes sid).take k).map Prod.snd).sum) ∧
      seg.1.setWidth b.windowBits = w.1 := by
  rw [h.segments, blocks_getElem?] at hk
  obtain ⟨l, hl, rfl⟩ := Option.map_eq_some_iff.mp hk
  have hlt : k < sent.length := by
    by_contra hge
    rw [List.getElem?_eq_none (by omega)] at hl
    cases hl
  have htake : (sent ++ lengths sid (t.current ++ t.route)).take k = sent.take k :=
    List.take_append_of_le_length (Nat.le_of_lt hlt)
  refine ⟨(BitVec.ofNat _ (n₀ + (sent.take k).sum), l), ?_, rfl, ?_, setWidth_ofNat b.windowBits_le _⟩
  · rw [h.writes, blocks_getElem?, List.getElem?_append_left hlt, hl, htake]
    rfl
  · rw [h.writes, List.map_take, blocks_map_snd, htake]

theorem Path.sent_le (h : Path sid n₀ t A N sent) {w : Nat}
    (hw : 16 ≤ w) : ∀ l ∈ sent, l ≤ 2 ^ w := by
  intro l hl
  have hsent : sent = (PathNet.segments t.emitted sid).map Prod.snd := by rw [h.segments, blocks_map_snd]
  rw [hsent, PathNet.segments, List.map_map, List.mem_map] at hl
  obtain ⟨s, -, rfl⟩ := hl
  have hlt : s.2.length.toNat < 2 ^ 16 := s.2.length.isLt
  have hpow : 2 ^ 16 ≤ 2 ^ w := Nat.pow_le_pow_right (by decide) hw
  exact Nat.le_of_lt (Nat.lt_of_lt_of_le hlt hpow)

/-- The byte at position `y` of the stream, sent and not acknowledged: the same write covers its sequence
number and its cell of the buffer. -/
theorem Path.byte_at (h : Path sid n₀ t A N sent) {y : Nat}
    (hn : n₀ ≤ y) (hA : A ≤ y) (hy : y < n₀ + sent.sum) :
    ∃ k i, cover (PathNet.segments t.emitted sid) (BitVec.ofNat 32 y) = some (k, i) ∧
      cover (t.writes sid) (BitVec.ofNat _ y) = some (k, i) := by
  obtain ⟨k, i, hcover⟩ := cover_blocks hn hy
  have hroom := h.room
  have hsize : b.bufferSize ≤ 2 ^ 32 := by
    rcases b.bufferSize_eq with hs | hs <;> omega
  refine ⟨k, i, ?_, ?_⟩
  · have hseg := hcover 32 [] (h.sent_le (by omega))
    rw [List.append_nil] at hseg
    rw [h.segments]
    rw [List.sum_append] at hroom
    exact hseg (by omega)
  · rw [h.writes]
    unfold Build.bufferSize at hroom
    exact hcover _ _ (h.sent_le b.le_windowBits) (by omega)

theorem Path.rt_segment (h : Path sid n₀ t A N sent)
    (hW : t.send.tx.ml.mlFsmState = .WORK) (hrt : t.send.tx.ml.mlCurEvent.type = RT)
    (hid : t.send.tx.ml.mlCurEvent.sessionID = sid) {m : TxEngineMeta}
    (hm : m ∈ t.send.tx.callMl.2.txEngTcpMetaFifoOut) :
    t.send.tx.callMl.2.txBufferReadCmd = [.new (pkgAddr b sid (m.seqNumb.setWidth _)) m.length] ∧
      ∃ x, n₀ ≤ x + 1 ∧ m.seqNumb = BitVec.ofNat 32 x ∧
        x + m.length.toNat ≤ n₀ + sent.sum + (t.finSent sid).toNat ∧
        n₀ + sent.sum + (t.finSent sid).toNat ≤ x + b.bufferSize := by
  have hcalled := h.engines.tx.called
  generalize t.send.tx.callMl = v at hm hcalled
  cases hcalled with
  | idle => cases hm
  | take e rest ml hI =>
    rw [hI] at hW
    cases hW
  | work rxSar r fifo _ htaken hr =>
    obtain ⟨hseq, -, hlen, hcmd⟩ := MetaLoader.handle_rtSegment hrt rxSar r hm
    obtain ⟨x, hn, hx, hP, ha, hu⟩ := work_held h hW htaken hid hrt
    have hused : r.usedLength.toNat ≤ n₀ + sent.sum + (t.finSent sid).toNat - x := by
      rw [hu, BitVec.toNat_ofNat]
      exact Nat.mod_le _ _
    rw [hid] at hcmd
    exact ⟨hcmd, x, hn, hseq.trans ha, by omega, hP⟩

theorem Path.rereads {n : BitVec 32} {A N : Nat}
    (h : Path sid ((n - 1).toNat + 1) t A N sent) (hfin : t.finSent sid = false) {m : TxEngineMeta} {x : Nat}
    (hn : (n - 1).toNat + 1 ≤ x + 1) (hseq : m.seqNumb = BitVec.ofNat 32 x)
    (hlen : x + m.length.toNat ≤ (n - 1).toNat + 1 + sent.sum)
    (hP : (n - 1).toNat + 1 + sent.sum ≤ x + b.bufferSize) : Rereads t sid n m := by
  intro j hj hunack
  have hle := h.window.le
  have hNP := h.window.tx.le
  have hlt := h.window.lt
  have hsize : b.bufferSize ≤ 262144 := by
    rcases b.bufferSize_eq with hs | hs <;> omega
  simp only [hfin, Bool.toNat_false, Nat.add_zero] at hNP hlt
  have hy : m.seqNumb + BitVec.ofNat 32 j = BitVec.ofNat 32 (x + j) := by
    rw [hseq, BitVec.ofNat_add]
  rw [hy] at hunack ⊢
  rw [h.window.ackd, h.window.notAckd, ofNat_sub_toNat hle (by omega)] at hunack
  -- an acknowledged number would be almost a turn away from `ackd`
  have hA : A ≤ x + j := by
    by_contra hbefore
    exact absurd hunack (by
      have := not_covered (w := 32) (x := x + j) (p := A) (l := N - A) (by omega) (by omega)
      exact this)
  by_cases hfirst : (n - 1).toNat + 1 ≤ x + j
  · right
    rw [setWidth_ofNat b.windowBits_le]
    exact h.byte_at hfirst hA (by omega)
  · left
    have hx : x + j = (n - 1).toNat := by omega
    rw [hx, BitVec.ofNat_toNat, BitVec.setWidth_eq]

/-! ## Main result -/

/-- In every run of a session from its initialisation up to its first FIN event, the `k`-th TX data segment
has the sequence number that follows the bytes of the writes before, and its low bits are the buffer offset
of its write.  A retransmission reads the buffer at the low bits of its sequence number and finds there, for
every byte that is not acknowledged in the meantime, the byte last sent under its number. -/
theorem seq_address_agree {n : BitVec 32} {time64us : BitVec 12} {t₀ t : PathNet b}
    (hb : b.tcpNodelay = true) (h₀ : Opened sid n t₀)
    (h : Reach (step sid time64us) (fun t l => beforeFin sid t l = true) t₀ t) :
    (∀ k seg, (segments t.emitted sid)[k]? = some seg → ∃ w, (t.writes sid)[k]? = some w ∧ w.2 = seg.2 ∧
        seg.1 = n + BitVec.ofNat 32 (((t.writes sid).take k).map Prod.snd).sum ∧
        seg.1.setWidth b.windowBits = w.1) ∧
      (beforeFin sid t .metaLoader = true → t.send.tx.ml.mlFsmState = .WORK →
        t.send.tx.ml.mlCurEvent.type = RT → t.send.tx.ml.mlCurEvent.sessionID = sid →
        ∀ m ∈ t.send.tx.callMl.2.txEngTcpMetaFifoOut,
          t.send.tx.callMl.2.txBufferReadCmd = [.new (pkgAddr b sid (m.seqNumb.setWidth _)) m.length] ∧
            Rereads t sid n m) := by
  have hinv : Inv sid ((n - 1).toNat + 1) t :=
    h.invariant h₀.inv fun u l v hu hok hs => inv_step hb hu (beforeFin_orderly hok) hs
  obtain ⟨-, A, N, sent, hp⟩ := hinv
  constructor
  · intro k seg hk
    obtain ⟨w, hw, hlen, hseq, hlow⟩ := hp.segment_write hk
    refine ⟨w, hw, hlen, ?_, hlow⟩
    rw [hseq, BitVec.ofNat_add, ofNat_start]
  · intro hok hW hrt hid m hm
    have hc := beforeFin_closing hok
    simp only [closing, Bool.or_eq_false_iff] at hc
    obtain ⟨hcmd, x, hn, hseq, hlen, hP⟩ := hp.rt_segment hW hrt hid hm
    simp only [hc.1, Bool.toNat_false, Nat.add_zero] at hlen hP
    exact ⟨hcmd, hp.rereads hc.1 hn hseq hlen hP⟩

variable (b) in
/-- Idle processes right after session `sid` was initialised with `not_ackd = n`. -/
def opened (sid : SessionID) (n : BitVec 32) : PathNet b :=
  { app :=
      { tasi := .init, fifo := {}, stateReq := [], updReq := []
        ackPush := [⟨sid, n.setWidth _, initialCongWindow b, true⟩], table := fun _ => default
        atRead := default }
    merge := {}, rxMerge := {}, engine := {}, engineIn := {}, delay := .init, delayIn := []
    send := SendNet.opened b sid n, accepted := [], emitted := [] }

theorem opened_opened (sid : SessionID) (n : BitVec 32) : Opened sid n (opened b sid n) := by
  have hidle : (opened b sid n).send.tx.ml.mlFsmState = .IDLE := rfl
  refine ⟨SendNet.opened_opened sid n, ⟨[], initialCongWindow b, rfl, by simp⟩,
    ⟨TableClient.quiet (by simp [opened]), by simp [opened], by simp [opened], by simp⟩, by simp [opened],
    by simp [opened], by simp [Timers, opened], ?_, ?_, rfl, rfl⟩
  · rw [current_idle hidle]
    simp [route, waiting, opened, SendNet.opened]
  · simp [opened, SendNet.opened, MetaLoader.loaded, MetaLoader.init]

/-- A segment of session 0 with ACK and the largest window. -/
def ackSegment (ackNumb : BitVec 32) (syn : Bool) : RxFsmMetaData :=
  { (default : RxFsmMetaData) with
    metaData := { (default : RxEngineMetaData) with
      seqNumb := if syn then 41 else 42, ackNumb, winSize := 0xFFFF, ack := true, syn } }

/-- A segment is received, the tables serve its requests, and the application learns of the new `ackd`. -/
def receive (m : RxFsmMetaData) (tcpState : SessionState) : List (PathLabel b) :=
  let e : RxTcpFsmEnv b := ⟨default, 0, 0⟩
  [.rx (.arrive m), .rx (.call e), .rx (.stateTable tcpState),
    .rx (.rxSarTable { (default : RxSarEntry b) with recvd := 42 }), .txSarTable, .rx (.call e),
    .rx (.stateTable CLOSED), .txSarTable, .app .table]

/-- The SYN-ACK that establishes session 0; the initialising push is served first. -/
def handshake : List (PathLabel b) :=
  .app .table :: receive (ackSegment 1000 true) SYN_SENT ++ [.rx (.rxSarTable default)]

def write (length : BitVec 16) : List (PathLabel b) :=
  [.app (.request ⟨0, length⟩), .app .tasi, .app .table, .app (.stateRsp ESTABLISHED), .app .tasi,
    .app .table]

/-- The next event gets to `metaLoader` and its reply is there. -/
def fetch : List (PathLabel b) :=
  [.eventEngine false, .eventEngine false, .ackDelay false, .metaLoader, .txSarTable, .rxSarRsp default]

def transmit : List (PathLabel b) := .txEventMerger :: fetch ++ [.metaLoader, .txSarTable]

/-- The retransmission timer of session 0 runs out. -/
def retransmit : List (PathLabel b) := .timer { type := RT, sessionID := 0, rtCount := 1 } :: fetch

theorem seq_address_agree_writes :
    ∃ t, Reach (step 0 0) (fun t l => beforeFin 0 t l = true) (opened .sample 0 1000) t ∧
      segments t.emitted 0 = [(1000, 10), (1010, 20)] ∧ t.writes 0 = [(1000, 10), (1010, 20)] ∧
      ∃ m ∈ t.send.tx.callMl.2.txEngTcpMetaFifoOut, m.seqNumb = 1000 ∧ m.length = 30 ∧
        Rereads t 0 1000 m := by
  have h : (runIf (step 0 0) (fun t l => beforeFin 0 t l = true) (opened .sample 0 1000)
      (handshake ++ write 10 ++ transmit ++ write 20 ++ transmit ++ retransmit)).map
      (fun t => decide (segments t.emitted 0 = [(1000, 10), (1010, 20)]) &&
        decide (t.writes 0 = [(1000, 10), (1010, 20)]) && beforeFin 0 t .metaLoader &&
        decide (t.send.tx.ml.mlFsmState = .WORK ∧ t.send.tx.ml.mlCurEvent.type = RT ∧
          t.send.tx.ml.mlCurEvent.sessionID = 0) &&
        decide (t.send.tx.callMl.2.txEngTcpMetaFifoOut.map (fun m => (m.seqNumb, m.length)) =
          [(1000, 30)])) = some true := by
    decide +kernel
  obtain ⟨t, ht, hp⟩ := Option.map_eq_some_iff.mp h
  simp only [Bool.and_eq_true, decide_eq_true_eq] at hp
  obtain ⟨⟨⟨⟨hseg, hwr⟩, hok⟩, hW, hrt, hid⟩, hm⟩ := hp
  have hr := reach_of_runIf ht
  obtain ⟨m, hmem, hm'⟩ : ∃ m ∈ t.send.tx.callMl.2.txEngTcpMetaFifoOut, (m.seqNumb, m.length) = (1000, 30) := by
    apply List.mem_map.mp
    rw [hm]
    exact List.mem_singleton.mpr rfl
  simp only [Prod.mk.injEq] at hm'
  exact ⟨t, hr, hseg, hwr, m, hmem, hm'.1, hm'.2,
    ((seq_address_agree rfl (opened_opened 0 1000) hr).2 hok hW hrt hid m hmem).2⟩

/-- A build with a buffer of 64 KB. -/
def narrow : Build := { Build.sample with windowScale := false }

-- `metaLoader` has its reply for a retransmission; before it goes on, all bytes are acknowledged and a
-- later write takes the cell of the first one.
theorem rt_rereads_other_write :
    ∃ (t : PathNet narrow) (m : TxEngineMeta), Opened 0 1000 (opened narrow 0 1000) ∧
      Reach (step 0 0) (fun t l => beforeFin 0 t l = true) (opened narrow 0 1000) t ∧
      beforeFin 0 t .metaLoader = true ∧ t.send.tx.ml.mlCurEvent.type = RT ∧
      m ∈ t.send.tx.callMl.2.txEngTcpMetaFifoOut ∧ m.seqNumb = 1000 ∧ m.length = 4096 ∧
      t.send.tx.callMl.2.txBufferReadCmd = [.new (pkgAddr narrow 0 (m.seqNumb.setWidth _)) m.length] ∧
      cover (segments t.emitted 0) m.seqNumb = some (0, 0) ∧
      cover (t.writes 0) (m.seqNumb.setWidth _) = some (1, 35536) := by
  have h : (runIf (step 0 0) (fun t l => beforeFin 0 t l = true) (opened narrow 0 1000)
      (handshake ++ (List.replicate 7 (receive (ackSegment 1000 false) ESTABLISHED)).flatten ++
        write 30000 ++ transmit ++ retransmit ++ receive (ackSegment 31000 false) ESTABLISHED ++
        write 36000)).map
      (fun t => beforeFin 0 t .metaLoader && decide (t.send.tx.ml.mlCurEvent.type = RT) &&
        decide (t.send.tx.callMl.2.txEngTcpMetaFifoOut.map (fun m => (m.seqNumb, m.length)) =
          [(1000, 4096)]) &&
        decide (t.send.tx.callMl.2.txBufferReadCmd = [⟨4096, 1000⟩]) &&
        decide (cover (segments t.emitted 0) 1000 = some (0, 0)) &&
        decide (cover (t.writes 0) 1000 = some (1, 35536))) = some true := by
    decide +kernel
  obtain ⟨t, ht, hp⟩ := Option.map_eq_some_iff.mp h
  simp only [Bool.and_eq_true, decide_eq_true_eq] at hp
  obtain ⟨⟨⟨⟨⟨hok, hrt⟩, hm⟩, hcmd⟩, hseg⟩, hwr⟩ := hp
  obtain ⟨m, hmem, hm'⟩ : ∃ m ∈ t.send.tx.callMl.2.txEngTcpMetaFifoOut,
      (m.seqNumb, m.length) = (1000, 4096) := by
    apply List.mem_map.mp
    rw [hm]
    exact List.mem_singleton.mpr rfl
  simp only [Prod.mk.injEq] at hm'
  refine ⟨t, m, opened_opened 0 1000, reach_of_runIf ht, hok, hrt, hmem, hm'.1, hm'.2, ?_, ?_, ?_⟩
  · rw [hcmd, hm'.1, hm'.2]
    decide +kernel
  · rw [hm'.1]
    exact hseg
  · rw [hm'.1]
    exact hwr

end PathNet

end FpgaNetworkStack.Toe
