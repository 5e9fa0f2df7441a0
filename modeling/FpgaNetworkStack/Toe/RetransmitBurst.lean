import FpgaNetworkStack.Toe.TxNet

/-!
# The burst of a retransmission

For event RT `metaLoader` sends full segments from `ackd` on, four at most, and with the last part of the range it ends
or turns the event into a FIN.  The range that it counts down, `usedLength`, has one byte more than there is data once
the FIN was sent.
-/

namespace FpgaNetworkStack.Toe

open EventType

variable {b : Build}

/-! ## Calls until the machine is idle -/

/-- Calls that find the given contents of the FIFOs, as long as the machine works on its event. -/
def burst (s : MetaLoader b) : List (MetaLoaderIn b) → MetaLoader b × List MetaLoaderOut
  | [] => (s, [])
  | i :: is =>
    if s.mlFsmState = .IDLE then (s, [])
    else ((burst (metaLoader b s i).1 is).1, (metaLoader b s i).2.2 :: (burst (metaLoader b s i).1 is).2)

variable {s s' : MetaLoader b}

theorem burst_idle (h : s.mlFsmState = .IDLE) (is : List (MetaLoaderIn b)) : burst s is = (s, []) := by
  cases is with
  | nil => rfl
  | cons i is => exact if_pos h

theorem burst_work {i i' : MetaLoaderIn b} {out : MetaLoaderOut} (h : s.mlFsmState = .WORK)
    (hcall : metaLoader b s i = (s', i', out)) (is : List (MetaLoaderIn b)) :
    burst s (i :: is) = ((burst s' is).1, out :: (burst s' is).2) := by
  rw [burst, if_neg (by rw [h]; decide), hcall]

/-! ## What is sent -/

/-- Sequence number, length and FIN flag of the segments, in order. -/
def sentSegments (outs : List MetaLoaderOut) : List (BitVec 32 × BitVec 16 × Bool) :=
  outs.flatMap fun out => out.txEngTcpMetaFifoOut.map fun m => (m.seqNumb, m.length, m.fin)

def readCmds (outs : List MetaLoaderOut) : List MmCmd := outs.flatMap (·.txBufferReadCmd)

theorem sentSegments_cons (out : MetaLoaderOut) (outs : List MetaLoaderOut) :
    sentSegments (out :: outs) =
      out.txEngTcpMetaFifoOut.map (fun m => (m.seqNumb, m.length, m.fin)) ++ sentSegments outs := rfl

theorem readCmds_cons (out : MetaLoaderOut) (outs : List MetaLoaderOut) :
    readCmds (out :: outs) = out.txBufferReadCmd ++ readCmds outs := rfl

/-- Parts of the given lengths one after the other, from sequence number `seqNumb` on. -/
def consecutive (seqNumb : BitVec 32) : List (BitVec 16) → List (BitVec 32 × BitVec 16)
  | [] => []
  | n :: ns => (seqNumb, n) :: consecutive (seqNumb + n.setWidth 32) ns

theorem consecutive_lengths (seqNumb : BitVec 32) (ns : List (BitVec 16)) :
    (consecutive seqNumb ns).map Prod.snd = ns := by
  induction ns generalizing seqNumb with
  | nil => rfl
  | cons n ns ih => rw [consecutive, List.map_cons, ih]

def dataSegments (seqNumb : BitVec 32) (ns : List (BitVec 16)) : List (BitVec 32 × BitVec 16 × Bool) :=
  (consecutive seqNumb ns).map fun x => (x.1, x.2, false)

variable (b) in
/-- The reads of these parts, at the low bits of their sequence numbers in the buffer of session `sid`. -/
def dataReads (sid : SessionID) (seqNumb : BitVec 32) (ns : List (BitVec 16)) : List MmCmd :=
  (consecutive seqNumb ns).map fun x => .new (pkgAddr b sid (x.1.setWidth _)) x.2

def covered (ns : List (BitVec 16)) : Nat := (ns.map BitVec.toNat).sum

/-- Everything that is not acknowledged, the FIN included. -/
def inFlight (entry : TxSarEntry b) : Nat := (entry.notAckd - entry.ackd).toNat

/-- The data bytes in `[ackd, not_ackd - (1 if finSent else 0))`. -/
def unacked (entry : TxSarEntry b) : Nat := inFlight entry - if entry.finSent then 1 else 0

/-- The segments sent are parts of `1..MSS` data bytes from `ackd` on, read from where the buffer has them, that do not
reach beyond the data, and the FIN if they cover all of it and the FIN was sent before. -/
def Inside (sid : SessionID) (entry : TxSarEntry b) (outs : List MetaLoaderOut) : Prop :=
  ∃ ns : List (BitVec 16), (∀ n ∈ ns, 0 < n.toNat ∧ n.toNat ≤ b.mss.toNat) ∧ covered ns ≤ unacked entry ∧
    readCmds outs = dataReads b sid entry.ackd ns ∧
    sentSegments outs = dataSegments entry.ackd ns ++
      if covered ns = unacked entry ∧ entry.finSent = true then [(entry.notAckd - 1, 0, true)] else []

theorem dataSegments_append_inj {seqNumb : BitVec 32} {ns ns' : List (BitVec 16)}
    {fin fin' : List (BitVec 32 × BitVec 16 × Bool)} (hfin : ∀ x ∈ fin, x.2.2 = true) (hfin' : ∀ x ∈ fin', x.2.2 = true)
    (h : dataSegments seqNumb ns ++ fin = dataSegments seqNumb ns' ++ fin') : ns = ns' ∧ fin = fin' := by
  have hdata (ns : List (BitVec 16)) : ∀ x ∈ dataSegments seqNumb ns, x.2.2 = false := by
    intro x hx
    obtain ⟨y, -, rfl⟩ := List.mem_map.mp hx
    rfl
  have hsplit (ns : List (BitVec 16)) (fin : List (BitVec 32 × BitVec 16 × Bool)) (hfin : ∀ x ∈ fin, x.2.2 = true) :
      (dataSegments seqNumb ns ++ fin).filter (·.2.2) = fin := by
    rw [List.filter_append, List.filter_eq_nil_iff.mpr (fun x hx => by simp [hdata ns x hx]),
      List.filter_eq_self.mpr hfin, List.nil_append]
  have heq : fin = fin' := by
    rw [← hsplit ns fin hfin, h, hsplit ns' fin' hfin']
  refine ⟨?_, heq⟩
  rw [heq] at h
  have hsegs := List.append_cancel_right h
  rw [← consecutive_lengths seqNumb ns, ← consecutive_lengths seqNumb ns']
  have hpairs := congrArg (List.map fun x => x.2.1) hsegs
  simpa [dataSegments, List.map_map, Function.comp_def] using hpairs

/-! ## The parts of a burst -/

-- A segment without payload is not sent.
def nonzero (n : BitVec 16) : List (BitVec 16) := if n = 0 then [] else [n]

variable (b) in
/-- The lengths of the at most `k` data segments that go out for `usedLength` bytes. -/
def rtLengths : Nat → BitVec b.windowBits → List (BitVec 16)
  | 0, _ => []
  | k + 1, usedLength =>
    if b.mss.toNat < usedLength.toNat then nonzero b.mss ++ rtLengths k (usedLength - b.mss.setWidth _)
    else nonzero (usedLength.setWidth 16)

theorem mss_toNat : (b.mss.setWidth b.windowBits).toNat = b.mss.toNat :=
  BitVec.toNat_setWidth_of_le b.le_windowBits

variable {usedLength : BitVec b.windowBits}

theorem sub_mss_toNat (h : b.mss.toNat < usedLength.toNat) :
    (usedLength - b.mss.setWidth _).toNat = usedLength.toNat - b.mss.toNat := by
  rw [BitVec.toNat_sub_of_le (BitVec.le_def.mpr (by rw [mss_toNat]; omega)), mss_toNat]

theorem covered_nonzero (n : BitVec 16) : covered (nonzero n) = n.toNat := by
  unfold nonzero
  split
  · next h =>
      rw [h]
      rfl
  · simp [covered]

theorem setWidth_used (h : ¬b.mss.toNat < usedLength.toNat) :
    (usedLength.setWidth 16).toNat = usedLength.toNat := by
  have hmss := b.mss.isLt
  rw [BitVec.toNat_setWidth]
  exact Nat.mod_eq_of_lt (by omega)

theorem covered_rtLengths (k : Nat) (usedLength : BitVec b.windowBits) :
    covered (rtLengths b k usedLength) = min usedLength.toNat (k * b.mss.toNat) := by
  induction k generalizing usedLength with
  | zero =>
    rw [Nat.zero_mul, Nat.min_zero]
    rfl
  | succ k ih =>
    rw [rtLengths, Nat.succ_mul]
    split
    · next h =>
        rw [covered, List.map_append, List.sum_append]
        change covered (nonzero b.mss) + covered (rtLengths b k _) = _
        rw [covered_nonzero, ih, sub_mss_toNat h]
        omega
    · next h =>
        rw [covered_nonzero, setWidth_used h]
        omega

theorem mem_nonzero {m n : BitVec 16} (h : m ∈ nonzero n) : m = n ∧ 0 < m.toNat := by
  unfold nonzero at h
  split at h
  · cases h
  · next hn =>
      rw [List.mem_singleton] at h
      refine ⟨h, Nat.pos_of_ne_zero fun h0 => hn ?_⟩
      rw [← h]
      exact BitVec.eq_of_toNat_eq h0

theorem mem_rtLengths {k : Nat} {n : BitVec 16} (h : n ∈ rtLengths b k usedLength) :
    0 < n.toNat ∧ n.toNat ≤ b.mss.toNat := by
  induction k generalizing usedLength with
  | zero => cases h
  | succ k ih =>
    rw [rtLengths] at h
    split at h
    · rcases List.mem_append.mp h with h | h
      · obtain ⟨rfl, hpos⟩ := mem_nonzero h
        exact ⟨hpos, Nat.le_refl _⟩
      · exact ih h
    · next hlast =>
        obtain ⟨rfl, hpos⟩ := mem_nonzero h
        rw [setWidth_used hlast] at hpos ⊢
        exact ⟨hpos, Nat.le_of_not_lt hlast⟩

theorem consecutive_nonzero (seqNumb : BitVec 32) (n : BitVec 16) (ns : List (BitVec 16)) :
    consecutive seqNumb (nonzero n ++ ns) =
      consecutive seqNumb (nonzero n) ++ consecutive (seqNumb + n.setWidth 32) ns := by
  unfold nonzero
  split
  · next h =>
      have hzero : (0 : BitVec 16).setWidth 32 = 0#32 := rfl
      rw [h, hzero, BitVec.add_zero]
      rfl
  · rfl

theorem dataSegments_nonzero (seqNumb : BitVec 32) (n : BitVec 16) (ns : List (BitVec 16)) :
    dataSegments seqNumb (nonzero n ++ ns) =
      dataSegments seqNumb (nonzero n) ++ dataSegments (seqNumb + n.setWidth 32) ns := by
  simp only [dataSegments, consecutive_nonzero, List.map_append]

theorem dataReads_nonzero (sid : SessionID) (seqNumb : BitVec 32) (n : BitVec 16) (ns : List (BitVec 16)) :
    dataReads b sid seqNumb (nonzero n ++ ns) =
      dataReads b sid seqNumb (nonzero n) ++ dataReads b sid (seqNumb + n.setWidth 32) ns := by
  simp only [dataReads, consecutive_nonzero, List.map_append]

/-! ## The calls -/

def finNumb (e : ExtendedEvent b) (r : TxTxSarReply b) : BitVec 32 :=
  if e.rtCount ≠ 0 then r.notAckd - 1 else r.notAckd

/-- The length of the next segment. -/
def rtLength (r : TxTxSarReply b) : BitVec 16 :=
  if b.mss.toNat < r.usedLength.toNat then b.mss else r.usedLength.setWidth 16

theorem mlRt_segments (s : MetaLoader b) (first : Bool) (rxSar : RxSarReply) (r : TxTxSarReply b) :
    (mlRt s first rxSar r).2.txEngTcpMetaFifoOut.map (fun m => (m.seqNumb, m.length, m.fin)) =
        dataSegments r.ackd (nonzero (rtLength r)) ∧
      (mlRt s first rxSar r).2.txBufferReadCmd = dataReads b s.mlCurEvent.sessionID r.ackd (nonzero (rtLength r)) := by
  simp only [mlRt, mlHeader, decide_eq_true_eq]
  change List.map _ (if rtLength r = 0 then _ else _ : MetaLoaderOut).txEngTcpMetaFifoOut = _ ∧
    (if rtLength r = 0 then _ else _ : MetaLoaderOut).txBufferReadCmd = _
  unfold nonzero
  split
  · exact ⟨rfl, rfl⟩
  · exact ⟨rfl, rfl⟩

variable {r : TxTxSarReply b}

theorem mlRt_full (h : b.mss.toNat < r.usedLength.toNat) (first : Bool)
    (rxSar : RxSarReply) :
    let s' := (mlRt s first rxSar r).1
    s'.mlFsmState = (if s.mlSegmentCount = 3 then .IDLE else .WORK) ∧ s'.mlCurEvent = s.mlCurEvent ∧
      s'.mlSegmentCount = s.mlSegmentCount + 1 ∧ s'.mlSarLoaded = true ∧
      s'.txSarReg = { r with
        ackd := r.ackd + b.mss.setWidth 32, usedLength := r.usedLength - b.mss.setWidth _ } := by
  simp [mlRt, h]

theorem mlRt_last (h : ¬b.mss.toNat < r.usedLength.toNat) (first : Bool)
    (rxSar : RxSarReply) :
    let s' := (mlRt s first rxSar r).1
    s'.mlSarLoaded = true ∧ s'.txSarReg = r ∧
      if r.finSent = true then s'.mlFsmState = .WORK ∧ s'.mlCurEvent = { s.mlCurEvent with type := FIN }
      else s'.mlFsmState = .IDLE := by
  cases hf : r.finSent <;> simp [mlRt, h, hf]

theorem burst_fin {e : ExtendedEvent b} (hW : s.mlFsmState = .WORK)
    (he : s.mlCurEvent = { e with type := FIN }) (hl : s.mlSarLoaded = true) {is : List (MetaLoaderIn b)}
    (his : 1 ≤ is.length) :
    (burst s is).1.mlFsmState = .IDLE ∧ readCmds (burst s is).2 = [] ∧
      sentSegments (burst s is).2 = [(finNumb e s.txSarReg, 0, true)] := by
  cases is with
  | nil => cases his
  | cons i is =>
    have hcall : metaLoader b s i = ((mlFin s s.rxSar s.txSarReg).1, i, (mlFin s s.rxSar s.txSarReg).2) := by
      simp [metaLoader, hW, he, hl]
    rw [burst_work hW hcall, burst_idle rfl]
    refine ⟨rfl, rfl, ?_⟩
    simp [sentSegments, mlFin, mlSegment, mlHeader, finNumb, he]

/-- This call works on reply `r` of an RT event. -/
def Works (s : MetaLoader b) (i : MetaLoaderIn b) (r : TxTxSarReply b) : Prop :=
  s.mlFsmState = .WORK ∧ s.mlCurEvent.type = RT ∧
    ∃ first rxSar i', metaLoader b s i = ((mlRt s first rxSar r).1, i', (mlRt s first rxSar r).2)

-- After the first segment the reply is in the register.
theorem works_register (hW : s.mlFsmState = .WORK) (he : s.mlCurEvent.type = RT)
    (hl : s.mlSarLoaded = true) (i : MetaLoaderIn b) : Works s i s.txSarReg :=
  ⟨hW, he, false, s.rxSar, i, by simp [metaLoader, hW, he, hl]⟩

/-- What a burst sends from reply `r` on, with at most `k` data segments. -/
structure Sent (e : ExtendedEvent b) (r : TxTxSarReply b) (k : Nat) (v : MetaLoader b × List MetaLoaderOut) : Prop where
  idle : v.1.mlFsmState = .IDLE
  reads : readCmds v.2 = dataReads b e.sessionID r.ackd (rtLengths b k r.usedLength)
  segments : sentSegments v.2 = dataSegments r.ackd (rtLengths b k r.usedLength) ++
    if r.usedLength.toNat ≤ k * b.mss.toNat ∧ r.finSent = true then [(finNumb e r, 0, true)] else []

variable {i : MetaLoaderIn b}

theorem Works.last {k : Nat} {is : List (MetaLoaderIn b)}
    (h : Works s i r) (hlast : ¬b.mss.toNat < r.usedLength.toNat) (his : 1 ≤ is.length) :
    Sent s.mlCurEvent r (k + 1) (burst s (i :: is)) := by
  obtain ⟨hW, -, first, rxSar, i', hcall⟩ := h
  obtain ⟨hsegs, hreads⟩ := mlRt_segments s first rxSar r
  obtain ⟨hl, hreg, hnext⟩ := mlRt_last (s := s) hlast first rxSar
  have hlength : rtLength r = r.usedLength.setWidth 16 := if_neg hlast
  have hlengths : rtLengths b (k + 1) r.usedLength = nonzero (rtLength r) := by rw [rtLengths, if_neg hlast, hlength]
  have hle : r.usedLength.toNat ≤ (k + 1) * b.mss.toNat := by
    rw [Nat.succ_mul]
    omega
  rw [burst_work hW hcall]
  by_cases hf : r.finSent = true
  · -- the FIN is next
    rw [if_pos hf] at hnext
    obtain ⟨hidle, hnone, hfin⟩ := burst_fin hnext.1 hnext.2 hl his
    rw [hreg] at hfin
    refine ⟨hidle, ?_, ?_⟩
    · rw [readCmds_cons, hnone, hreads, hlengths, List.append_nil]
    · rw [sentSegments_cons, hfin, hsegs, hlengths, if_pos ⟨hle, hf⟩]
  · rw [if_neg hf] at hnext
    rw [burst_idle hnext]
    refine ⟨hnext, ?_, ?_⟩
    · rw [readCmds_cons, hreads, hlengths]
      exact List.append_nil _
    · rw [sentSegments_cons, hsegs, hlengths, if_neg fun h => hf h.2]
      rfl

/-- The burst of the segments that are left. -/
theorem Works.sent {k : Nat} {is : List (MetaLoaderIn b)}
    (h : Works s i r) (hk : s.mlSegmentCount.toNat + k = 3) (his : k + 1 ≤ is.length) :
    Sent s.mlCurEvent r (k + 1) (burst s (i :: is)) := by
  induction k generalizing s i r is with
  | zero =>
    by_cases hfull : b.mss.toNat < r.usedLength.toNat
    · -- the fourth segment is the last one
      obtain ⟨hW, -, first, rxSar, i', hcall⟩ := h
      obtain ⟨hsegs, hreads⟩ := mlRt_segments s first rxSar r
      obtain ⟨hstate, -, -, -, -⟩ := mlRt_full (s := s) hfull first rxSar
      have hcount : s.mlSegmentCount = 3 := BitVec.eq_of_toNat_eq (by simpa using hk)
      rw [if_pos hcount] at hstate
      have hlength : rtLength r = b.mss := if_pos hfull
      have hlengths : rtLengths b 1 r.usedLength = nonzero (rtLength r) := by
        rw [rtLengths, if_pos hfull, hlength]
        exact List.append_nil _
      rw [burst_work hW hcall, burst_idle hstate]
      refine ⟨hstate, ?_, ?_⟩
      · rw [readCmds_cons, hreads, hlengths]
        exact List.append_nil _
      · rw [sentSegments_cons, hsegs, hlengths, if_neg (by omega)]
        rfl
    · exact h.last hfull his
  | succ k ih =>
    by_cases hfull : b.mss.toNat < r.usedLength.toNat
    · obtain ⟨hW, he, first, rxSar, i', hcall⟩ := h
      obtain ⟨hsegs, hreads⟩ := mlRt_segments s first rxSar r
      obtain ⟨hstate, hevent, hcount, hl, hreg⟩ := mlRt_full (s := s) hfull first rxSar
      have hlt := s.mlSegmentCount.isLt
      have hnot : s.mlSegmentCount ≠ 3 := by
        intro h3
        rw [h3] at hk
        exact absurd hk (by simp)
      rw [if_neg hnot] at hstate
      have hlength : rtLength r = b.mss := if_pos hfull
      cases is with
      | nil => cases his
      | cons j js =>
        have hnext := ih (works_register hstate (hevent ▸ he) hl j) (by
          rw [hcount, BitVec.toNat_add, Nat.mod_eq_of_lt (by simp; omega)]
          simp
          omega) (Nat.le_of_succ_le_succ his)
        rw [hreg, hevent] at hnext
        have hmore : rtLengths b (k + 1 + 1) r.usedLength =
            nonzero b.mss ++ rtLengths b (k + 1) (r.usedLength - b.mss.setWidth _) := if_pos hfull
        rw [burst_work hW hcall]
        refine ⟨hnext.idle, ?_, ?_⟩
        · rw [readCmds_cons, hnext.reads, hreads, hmore, dataReads_nonzero, hlength]
        · have hiff : (r.usedLength - b.mss.setWidth b.windowBits).toNat ≤ (k + 1) * b.mss.toNat ∧ r.finSent = true ↔
              r.usedLength.toNat ≤ (k + 1 + 1) * b.mss.toNat ∧ r.finSent = true := by
            rw [sub_mss_toNat hfull, Nat.succ_mul (k + 1)]
            constructor
            · rintro ⟨hle, hf⟩
              exact ⟨by omega, hf⟩
            · rintro ⟨hle, hf⟩
              exact ⟨by omega, hf⟩
          rw [sentSegments_cons, hnext.segments, hsegs, hmore, dataSegments_nonzero, hlength, List.append_assoc]
          simp only [hiff]
          rfl
    · exact h.last hfull (Nat.le_trans (by omega) his)

/-! ## Main result -/

/-- The burst does not touch the byte that the FIN takes: it ends before the range does, or no data is left. -/
def spares (b : Build) (e : ExtendedEvent b) (entry : TxSarEntry b) : Prop :=
  entry.finSent = false ∨
    4 * b.mss.toNat < inFlight entry % b.bufferSize ∧ inFlight entry ≠ 4 * b.mss.toNat + 1 ∨
    inFlight entry = 0 ∧ e.rtCount ≠ 0

theorem txReply_usedLength (entry : TxSarEntry b) : entry.txReply.usedLength.toNat = inFlight entry % b.bufferSize :=
  BitVec.toNat_setWidth _ _

theorem finNumb_eq_iff (e : ExtendedEvent b) (r : TxTxSarReply b) : finNumb e r = r.notAckd - 1 ↔ e.rtCount ≠ 0 := by
  unfold finNumb
  by_cases h : e.rtCount ≠ 0
  · rw [if_pos h]
    exact iff_of_true rfl h
  · rw [if_neg h]
    refine ⟨fun heq => ?_, fun h' => absurd h' h⟩
    have hnat := congrArg BitVec.toNat heq
    have hlt := r.notAckd.isLt
    rw [BitVec.toNat_sub, show (1 : BitVec 32).toNat = 1 from rfl] at hnat
    omega

theorem mod_bufferSize_ne {n : Nat} (h : n ≠ 0) : n % b.bufferSize ≠ n - 1 := by
  rcases b.bufferSize_eq with hs | hs
  · rw [hs]
    omega
  · rw [hs]
    omega

theorem Sent.inside {e : ExtendedEvent b} {entry : TxSarEntry b} {v : MetaLoader b × List MetaLoaderOut}
    (h : Sent e entry.txReply 4 v) : Inside e.sessionID entry v.2 ↔ spares b e entry := by
  have hused := txReply_usedLength entry
  have hcovered := covered_rtLengths 4 entry.txReply.usedLength
  rw [hused] at hcovered
  have hle : inFlight entry % b.bufferSize ≤ inFlight entry := Nat.mod_le _ _
  have hsegs := h.segments
  rw [hused] at hsegs
  change sentSegments v.2 = _ ++ if inFlight entry % b.bufferSize ≤ 4 * b.mss.toNat ∧ entry.finSent = true then _ else _
    at hsegs
  cases hf : entry.finSent with
  | false =>
    refine iff_of_true ⟨rtLengths b 4 entry.txReply.usedLength, fun n hn => mem_rtLengths hn, ?_, h.reads, ?_⟩ (.inl hf)
    · have hunacked : unacked entry = inFlight entry := by
        rw [unacked, hf]
        rfl
      rw [hcovered, hunacked]
      omega
    · rw [hsegs, hf, if_neg (by simp), if_neg (by simp)]
      rfl
  | true =>
    have hunacked : unacked entry = inFlight entry - 1 := by rw [unacked, hf, if_pos rfl]
    rw [hf] at hsegs
    constructor
    · rintro ⟨ns, -, -, -, hsent⟩
      rw [hsegs, hf] at hsent
      obtain ⟨hns, hfin⟩ := dataSegments_append_inj (by split <;> simp) (by split <;> simp) hsent
      rw [← hns, hcovered, hunacked] at hfin
      by_cases hend : inFlight entry % b.bufferSize ≤ 4 * b.mss.toNat
      · -- the FIN was sent, so nothing may have been in flight but it
        rw [if_pos ⟨hend, rfl⟩] at hfin
        split at hfin
        · next hall =>
            rw [Nat.min_eq_left hend] at hall
            have hzero : inFlight entry = 0 := by
              by_contra hpos
              exact mod_bufferSize_ne hpos hall.1
            have hnumb : finNumb e entry.txReply = entry.notAckd - 1 := congrArg Prod.fst (List.singleton_inj.mp hfin)
            exact .inr (.inr ⟨hzero, (finNumb_eq_iff e entry.txReply).mp hnumb⟩)
        · cases hfin
      · rw [if_neg fun h => hend h.1] at hfin
        split at hfin
        · cases hfin
        · next hmore =>
            refine .inr (.inl ⟨Nat.lt_of_not_le hend, ?_⟩)
            intro hlast
            exact hmore ⟨by omega, rfl⟩
    · intro hspares
      refine ⟨rtLengths b 4 entry.txReply.usedLength, fun n hn => mem_rtLengths hn, ?_, h.reads, ?_⟩
      · rw [hcovered, hunacked]
        rcases hspares with hno | ⟨hmany, -⟩ | ⟨hzero, -⟩
        · rw [hf] at hno
          cases hno
        · omega
        · omega
      · rw [hsegs, hcovered, hunacked, hf]
        rcases hspares with hno | ⟨hmany, hne⟩ | ⟨hzero, hcount⟩
        · rw [hf] at hno
          cases hno
        · rw [if_neg fun h => absurd h.1 (Nat.not_le_of_lt hmany), if_neg (by omega)]
          rfl
        · rw [hzero, Nat.zero_mod, if_pos ⟨Nat.zero_le _, rfl⟩, if_pos ⟨by omega, rfl⟩,
            (finNumb_eq_iff e entry.txReply).mpr hcount]
          rfl

theorem waits (hW : s.mlFsmState = .WORK) (he : s.mlCurEvent.type = RT)
    (hl : s.mlSarLoaded = false) (hi : i.rxSar2txEngRsp = [] ∨ i.txSar2txEngUpdRsp = []) :
    metaLoader b s i = (s, i, {}) := by
  simp only [metaLoader, hW, he, hl, Bool.false_eq_true, if_false, mlBoth]
  rcases hi with hi | hi
  · rw [hi]
  · rw [hi]
    split
    · next h => cases h
    · rfl

/-- For every event RT and every entry of the session: once the replies are there, the machine is idle again after at
most five calls, and what it has sent stays inside the data exactly if the burst spares the byte of the FIN. -/
theorem retransmission_inside_iff {s : MetaLoader b} {i₀ : MetaLoaderIn b} {e : ExtendedEvent b}
    {rest : List (ExtendedEvent b)} (hs : s.mlFsmState = .IDLE) (hev : i₀.eventEng2txEngEvent = e :: rest)
    (he : e.type = RT) {entry : TxSarEntry b} {before after : List (MetaLoaderIn b)} {i : MetaLoaderIn b}
    (hbefore : ∀ j ∈ before, j.rxSar2txEngRsp = [] ∨ j.txSar2txEngUpdRsp = []) {rxSar : RxSarReply}
    {rxs : List RxSarReply} (hrx : i.rxSar2txEngRsp = rxSar :: rxs) {txs : List (TxTxSarReply b)}
    (htx : i.txSar2txEngUpdRsp = entry.txReply :: txs) (hafter : 4 ≤ after.length) :
    (burst (metaLoader b s i₀).1 (before ++ i :: after)).1.mlFsmState = .IDLE ∧
      (Inside e.sessionID entry (burst (metaLoader b s i₀).1 (before ++ i :: after)).2 ↔ spares b e entry) := by
  -- the event is taken
  generalize hs' : (metaLoader b s i₀).1 = s'
  have htaken : s'.mlFsmState = .WORK ∧ s'.mlCurEvent = e ∧ s'.mlSarLoaded = false ∧ s'.mlSegmentCount = 0 := by
    rw [← hs', metaLoader, hs, hev]
    exact ⟨rfl, rfl, rfl, rfl⟩
  obtain ⟨hW, hcur, hl, hcount⟩ := htaken
  have htype : s'.mlCurEvent.type = RT := hcur ▸ he
  clear hs'
  induction before with
  | nil =>
    have hworks : Works s' i entry.txReply := by
      refine ⟨hW, htype, true, rxSar, { i with rxSar2txEngRsp := rxs, txSar2txEngUpdRsp := txs }, ?_⟩
      simp only [metaLoader, hW, htype, hl, Bool.false_eq_true, if_false, mlBoth, hrx, htx]
    have hsent := hworks.sent (k := 3) (by rw [hcount]; rfl) hafter
    rw [hcur] at hsent
    exact ⟨hsent.idle, hsent.inside⟩
  | cons j before ih =>
    obtain ⟨hidle, hinside⟩ := ih fun j hj => hbefore j (List.mem_cons_of_mem _ hj)
    rw [List.cons_append, burst_work hW (waits hW htype hl (hbefore j List.mem_cons_self))]
    exact ⟨hidle, hinside⟩

/-- The FIFOs when the second time-out of session 0 is taken, and when the replies are there. -/
def timeoutIn : MetaLoaderIn .sample :=
  { eventEng2txEngEvent := [{ type := RT, sessionID := 0, rtCount := 2, tuple := default }] }

def repliesIn (entry : TxSarEntry .sample) : MetaLoaderIn .sample :=
  { rxSar2txEngRsp := [default], txSar2txEngUpdRsp := [entry.txReply] }

def timeoutBurst (entry : TxSarEntry .sample) : MetaLoader .sample × List MetaLoaderOut :=
  burst (metaLoader .sample (.init .sample) timeoutIn).1 ([] ++ repliesIn entry :: List.replicate 4 {})

/-- An entry with `not_ackd` that many bytes after `ackd = 1000`. -/
def outstanding (bytes : BitVec 32) (finSent : Bool) : TxSarEntry .sample :=
  { (default : TxSarEntry .sample) with ackd := 1000, notAckd := 1000 + bytes, finSent }

theorem retransmission_inside_data :
    sentSegments (timeoutBurst (outstanding 5000 false)).2 = [(1000, 4096, false), (5096, 904, false)] ∧
      Inside 0 (outstanding 5000 false) (timeoutBurst (outstanding 5000 false)).2 := by
  refine ⟨by decide +kernel, ?_⟩
  have h := @retransmission_inside_iff .sample (.init .sample) timeoutIn _ [] rfl rfl rfl (outstanding 5000 false) []
    (List.replicate 4 {}) (repliesIn (outstanding 5000 false)) (fun _ hj => (List.not_mem_nil hj).elim) default [] rfl
    [] rfl (by decide)
  exact h.2.mpr (.inl rfl)

-- Ten bytes and the FIN are outstanding: the data segment has eleven bytes.
theorem retransmission_sends_fin_byte :
    sentSegments (timeoutBurst (outstanding 11 true)).2 = [(1000, 11, false), (1010, 0, true)] ∧
      unacked (outstanding 11 true) = 10 ∧
      ¬Inside 0 (outstanding 11 true) (timeoutBurst (outstanding 11 true)).2 := by
  have hsent : sentSegments (timeoutBurst (outstanding 11 true)).2 = [(1000, 11, false), (1010, 0, true)] := by
    decide +kernel
  have hunacked : unacked (outstanding 11 true) = 10 := by decide +kernel
  refine ⟨hsent, hunacked, ?_⟩
  rintro ⟨ns, -, hle, -, hsegs⟩
  rw [hsent] at hsegs
  cases ns with
  | nil =>
    split at hsegs
    · cases hsegs
    · cases hsegs
  | cons n ns =>
    -- the first part has all eleven bytes
    have hn : n = 11 := (congrArg (fun x => x.2.1) (List.cons.inj hsegs).1).symm
    rw [hn, hunacked, covered, List.map_cons, List.sum_cons] at hle
    exact absurd (Nat.le_trans (Nat.le_add_right _ _) hle) (by decide)

end FpgaNetworkStack.Toe
