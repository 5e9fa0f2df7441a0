import FpgaNetworkStack.Roce.PacketBuild

/-!
# One packet on its way through the transmit path

What each process makes of one packet, from where it waits for a packet to where it waits for the next one.
-/

namespace FpgaNetworkStack.Roce

open Lib IbOpCode
open Axi (Lane Word forward forward_overlay octets length_octets overlay overlay_lanes)
open Toe (NetAxis)

variable {N : Nat}

/-! ## `generate_exh` -/

theorem extractLsb'_past {w k : Nat} (x : BitVec w) (h : w ≤ k) : x.extractLsb' k 8 = 0 := by
  apply BitVec.eq_of_getLsbD_eq
  intro i hi
  rw [BitVec.getLsbD_extractLsb', BitVec.getLsbD_of_ge x _ (by omega)]
  simp

/-- Which extended header a packet has. -/
inductive ExhKind where
  | reth | aeth | raw
  deriving DecidableEq

/-- The opcodes `generate_exh` has a case for. -/
def exhKind : IbOpCode → Option ExhKind
  | RC_RDMA_WRITE_ONLY | RC_RDMA_WRITE_FIRST | RC_RDMA_READ_REQUEST => some .reth
  | RC_RDMA_READ_RESP_ONLY | RC_RDMA_READ_RESP_FIRST | RC_RDMA_READ_RESP_LAST | RC_ACK => some .aeth
  | RC_RDMA_WRITE_MIDDLE | RC_RDMA_WRITE_LAST | RC_SEND_ONLY | RC_SEND_FIRST | RC_SEND_MIDDLE | RC_SEND_LAST
  | RC_RDMA_READ_RESP_MIDDLE => some .raw
  | _ => none

def takesPayload (opCode : IbOpCode) : Bool := opCode != RC_RDMA_READ_REQUEST && opCode != RC_ACK

def declaredPayload (ev : Event) : BitVec 32 :=
  if ev.opCode = RC_RDMA_WRITE_FIRST then BitVec.ofNat 32 PMTU else if takesPayload ev.opCode then ev.length else 0

def exhSize : ExhKind → Nat
  | .reth => 16
  | .aeth => 4
  | .raw => 0

def exhBytes (ev : Event) (msnMeta : TxMsnRsp) : ExhKind → List (BitVec 8)
  | .reth => octets 16 (rethHeader ev.addr msnMeta.rKey ev.length)
  | .aeth => octets 4 (aethHeader (if ev.opCode = RC_ACK ∧ ev.isNak = true then 0x60 else 0) msnMeta.msn)
  | .raw => []

def packetInfo (ev : Event) (kind : ExhKind) : TxPacketInfo :=
  ⟨kind == .aeth || ev.opCode == RC_RDMA_READ_RESP_MIDDLE, kind != .raw, takesPayload ev.opCode && ev.length != 0⟩

/-- The words of the extended header: in words wider than a RETH, the word behind it is kept, too. -/
def headerBytes (N : Nat) (ev : Event) (msnMeta : TxMsnRsp) (kind : ExhKind) : List (BitVec 8) :=
  exhBytes ev msnMeta kind ++ List.replicate (if kind = .reth then N - 16 else 0) 0

/-- The widths the stack is built with. -/
def Supported (N : Nat) : Prop := N = 8 ∨ N = 16 ∨ N = 32 ∨ N = 64

def exhWords (N : Nat) : ExhKind → Nat
  | .reth => if N = 8 then 2 else 1
  | .aeth => 1
  | .raw => 0

structure ExhWritten (N : Nat) (ev : Event) (msnMeta : TxMsnRsp) (kind : ExhKind) (gos : List (GenerateExhOut (8 * N))) :
    Prop where
  lengths : gos.flatMap (·.lengthFifo) =
    [(BitVec.ofNat 32 (12 + exhSize kind + 4) + declaredPayload ev).setWidth 16]
  infos : gos.flatMap (·.packetInfoFifo) = [packetInfo ev kind]
  words : if kind = .raw then gos.flatMap (·.output) = []
    else Axi.Packet ((gos.flatMap (·.output)).map (exhWord ev.opCode)) (headerBytes N ev msnMeta kind)
  count : (gos.flatMap (·.output)).length = exhWords N kind

section

variable {W : Nat} {s : GenerateExh} {ev : Event} {msnMeta : TxMsnRsp}

theorem process_reth (h : exhKind ev.opCode = some .reth) (hs : s.metaReg = ev) :
    s.process W = s.reth W (declaredPayload ev) (takesPayload ev.opCode && ev.length != 0) := by
  unfold GenerateExh.process declaredPayload
  rw [hs]
  cases hop : ev.opCode <;> rw [hop] at h <;> first | rfl | cases h

theorem process_aeth (h : exhKind ev.opCode = some .aeth) (hs : s.metaReg = ev) :
    s.process W = s.aeth W (if ev.opCode = RC_ACK ∧ ev.isNak = true then 0x60 else 0) (declaredPayload ev)
      (takesPayload ev.opCode && ev.length != 0) := by
  unfold GenerateExh.process declaredPayload
  rw [hs]
  cases hop : ev.opCode <;> rw [hop] at h <;> first | rfl | (simp [takesPayload]; done) | cases h

theorem process_raw (h : exhKind ev.opCode = some .raw) (hs : s.metaReg = ev) :
    s.process W = s.raw W (ev.opCode == RC_RDMA_READ_RESP_MIDDLE) := by
  unfold GenerateExh.process
  rw [hs]
  cases hop : ev.opCode <;> rw [hop] at h <;> first | rfl | cases h

/-- The state in which the extended header is written. -/
def processing (ev : Event) (msnMeta : TxMsnRsp) : GenerateExh :=
  { geState := .PROCESS, metaReg := ev, idx := 0, metaWritten := false, msnMeta }

theorem generateExh_take (hs : s.geState = .META) (ev : Event) (msnMeta : TxMsnRsp) (evs : List Event) (msns : List TxMsnRsp) :
    ∃ os, Runs (generateExh W) s ⟨ev :: evs, msnMeta :: msns⟩ os (processing ev msnMeta) ⟨evs, msns⟩ ∧
      os.flatMap (·.lengthFifo) = [] ∧ os.flatMap (·.packetInfoFifo) = [] ∧ os.flatMap (·.output) = [] := by
  have htake : generateExh W s ⟨ev :: evs, msnMeta :: msns⟩ =
      ({ s with geState := .GET_MSN, metaReg := ev, idx := 0, metaWritten := false }, ⟨evs, msnMeta :: msns⟩,
        { txExh2msnTableReq := [ev.qpn.setWidth 16]
          txSetTimerReq := if setsTimer ev.opCode then [ev.qpn] else [] }) := by
    simp only [generateExh, hs]
  have hmsn : generateExh W { s with geState := .GET_MSN, metaReg := ev, idx := 0, metaWritten := false }
      ⟨evs, msnMeta :: msns⟩ = (processing ev msnMeta, ⟨evs, msns⟩, {}) := rfl
  exact ⟨_, .call htake (.one hmsn), rfl, rfl, rfl⟩

theorem generateExh_process {i : GenerateExhIn} (hs : s.geState = .PROCESS) :
    generateExh W s i = ((s.process W).1, i, (s.process W).2) := by
  simp only [generateExh, hs]

end

theorem octet_headerWord {size : Nat} (header : BitVec size) (idx : Nat) {k : Nat} (hk : k < N) :
    (headerWord (8 * N) header idx).extractLsb' (8 * k) 8 = header.extractLsb' (8 * (idx * N + k)) 8 := by
  apply BitVec.eq_of_getLsbD_eq
  intro i hi
  have hmul : idx * (8 * N) = 8 * (idx * N) := Nat.mul_left_comm _ _ _
  have hlt : 8 * k + i < 8 * N := by omega
  have hsum : idx * (8 * N) + (8 * k + i) = 8 * (idx * N + k) + i := by rw [hmul]; omega
  simp [headerWord, hi, hlt, hsum]

variable {opCode : IbOpCode}

-- every byte of a RETH word is enabled
theorem exhWord_reth (h : checkIfAethHeader opCode = false) {size : Nat} (header : BitVec size)
    (idx : Nat) (last : Bool) :
    (exhWord opCode ⟨headerWord (8 * N) header idx, last⟩ : Word N).lanes =
      ((List.range N).map fun k => header.extractLsb' (8 * (idx * N + k)) 8).map Lane.kept := by
  show (List.range N).map _ = _
  rw [List.map_map]
  apply List.map_congr_left
  intro k hk
  simp [h, Lane.kept, octet_headerWord header idx (List.mem_range.mp hk)]

theorem exhWord_aeth (h : checkIfAethHeader opCode = true) (hN : 4 ≤ N) (header : BitVec AETH_SIZE)
    (last : Bool) : (exhWord opCode ⟨headerWord (8 * N) header 0, last⟩ : Word N).Holds (octets 4 header) := by
  have hrange : List.range N = List.range 4 ++ (List.range (N - 4)).map (4 + ·) := by
    rw [← List.range_add, Nat.add_sub_cancel' hN]
  refine ⟨(List.range (N - 4)).map fun k => ⟨(headerWord (8 * N) header 0).extractLsb' (8 * (4 + k)) 8, false⟩, ?_, ?_⟩
  · show (List.range N).map _ = _
    rw [hrange, List.map_append, List.map_map, octets, List.map_map]
    congr 1
    · apply List.map_congr_left
      intro k hk
      have hlt : k < 4 := List.mem_range.mp hk
      simp [h, hlt, Lane.kept, octet_headerWord header 0 (Nat.lt_of_lt_of_le hlt hN)]
    · apply List.map_congr_left
      intro k _
      simp [h]
  · intro l hl
    obtain ⟨k, -, rfl⟩ := List.mem_map.mp hl
    rfl

theorem reth_last {size : Nat} (hN : 16 ≤ N) {idx : Nat} (h : idx = 0) (hsize : size = RETH_SIZE) :
    (remainingLength (8 * N) size idx == 0) = true := by
  subst h hsize
  unfold remainingLength
  split
  · next hle =>
      have heq : 8 * N = RETH_SIZE := by unfold RETH_SIZE at hle ⊢; omega
      simp [heq]
  · rfl

theorem headerBytes_reth (hN : 16 ≤ N) (header : BitVec RETH_SIZE) :
    ((List.range N).map fun k => header.extractLsb' (8 * (0 * N + k)) 8) =
      octets 16 header ++ List.replicate (N - 16) 0 := by
  have hrange : List.range N = List.range 16 ++ (List.range (N - 16)).map (16 + ·) := by
    rw [← List.range_add, Nat.add_sub_cancel' hN]
  rw [hrange, List.map_append, List.map_map, octets]
  congr 1
  · simp
  · apply List.ext_getElem
    · simp
    · intro k hk hk'
      have hpast : header.extractLsb' (8 * (16 + k)) 8 = 0 := extractLsb'_past header (by unfold RETH_SIZE; omega)
      simpa using hpast

theorem exhKind_reth (h : exhKind opCode = some .reth) : checkIfAethHeader opCode = false := by
  cases opCode <;> first | rfl | cases h

theorem exhKind_aeth (h : exhKind opCode = some .aeth) : checkIfAethHeader opCode = true := by
  cases opCode <;> first | rfl | cases h

section

variable {ev : Event} {msnMeta : TxMsnRsp} {i : GenerateExhIn}

-- no header: the length and the packet info only
theorem generateExh_raw (h : exhKind ev.opCode = some .raw) :
    ∃ gos t, Runs (generateExh (8 * N)) (processing ev msnMeta) i gos t i ∧ t.geState = .META ∧
      ExhWritten N ev msnMeta .raw gos := by
  have hcall := generateExh_process (W := 8 * N) (s := processing ev msnMeta) (i := i) rfl
  rw [process_raw h rfl] at hcall
  refine ⟨_, _, .one hcall, rfl, ?_, ?_, rfl, rfl⟩
  · have hpayload : declaredPayload ev = ev.length := by
      unfold declaredPayload takesPayload
      cases hop : ev.opCode <;> rw [hop] at h <;> first | rfl | cases h
    rw [hpayload]
    rfl
  · have htakes : takesPayload ev.opCode = true := by
      cases hop : ev.opCode <;> rw [hop] at h <;> first | rfl | cases h
    simp [GenerateExh.raw, processing, packetInfo, htakes]

-- one word
theorem generateExh_aeth (hN : 4 ≤ N) (h : exhKind ev.opCode = some .aeth) :
    ∃ gos t, Runs (generateExh (8 * N)) (processing ev msnMeta) i gos t i ∧ t.geState = .META ∧
      ExhWritten N ev msnMeta .aeth gos := by
  have hcall := generateExh_process (W := 8 * N) (s := processing ev msnMeta) (i := i) rfl
  rw [process_aeth h rfl] at hcall
  refine ⟨_, _, .one hcall, rfl, rfl, rfl, ?_, rfl⟩
  rw [if_neg (by decide)]
  have hbytes : headerBytes N ev msnMeta .aeth =
      octets 4 (aethHeader (if ev.opCode = RC_ACK ∧ ev.isNak = true then 0x60 else 0) msnMeta.msn) :=
    List.append_nil _
  rw [hbytes]
  exact .last rfl (exhWord_aeth (exhKind_aeth h) hN _ true)

theorem packetInfo_reth (h : exhKind ev.opCode = some .reth) :
    packetInfo ev .reth = ⟨false, true, takesPayload ev.opCode && ev.length != 0⟩ := by
  unfold packetInfo
  cases hop : ev.opCode <;> rw [hop] at h <;> first | rfl | cases h

-- one word, or two of 64 bits
theorem generateExh_reth (hN : Supported N) (h : exhKind ev.opCode = some .reth) :
    ∃ gos t, Runs (generateExh (8 * N)) (processing ev msnMeta) i gos t i ∧ t.geState = .META ∧
      ExhWritten N ev msnMeta .reth gos := by
  have hcall := generateExh_process (W := 8 * N) (s := processing ev msnMeta) (i := i) rfl
  rw [process_reth h rfl] at hcall
  have haeth := exhKind_reth h
  by_cases hwide : 16 ≤ N
  · have hlast : (remainingLength (8 * N) RETH_SIZE (processing ev msnMeta).idx == 0) = true := reth_last hwide rfl rfl
    unfold GenerateExh.reth at hcall
    rw [hlast] at hcall
    refine ⟨_, _, .one hcall, rfl, rfl, ?_, ?_, (if_neg (by omega)).symm⟩
    · rw [packetInfo_reth h]
      rfl
    · rw [if_neg (by decide)]
      have hbytes := (exhWord_reth (N := N) haeth
        (rethHeader (processing ev msnMeta).metaReg.addr (processing ev msnMeta).msnMeta.rKey
          (processing ev msnMeta).metaReg.length) 0 true)
      rw [headerBytes_reth hwide] at hbytes
      exact .last rfl (Axi.Word.holds_full hbytes)
  · have h8 : N = 8 := by rcases hN with rfl | rfl | rfl | rfl <;> omega
    subst h8
    -- the second word is the last one
    have hlast : (remainingLength (8 * 8) RETH_SIZE (processing ev msnMeta).idx == 0) = false := by
      simp [processing, remainingLength, RETH_SIZE]
    have hlast' : (remainingLength (8 * 8) RETH_SIZE 1 == 0) = true := by simp [remainingLength, RETH_SIZE]
    unfold GenerateExh.reth at hcall
    rw [hlast] at hcall
    have hcall' := generateExh_process (W := 8 * 8) (s := { processing ev msnMeta with idx := 1, metaWritten := true })
      (i := i) rfl
    rw [process_reth h rfl] at hcall'
    unfold GenerateExh.reth at hcall'
    rw [hlast'] at hcall'
    refine ⟨_, _, .call hcall (.one hcall'), rfl, rfl, ?_, ?_, rfl⟩
    · rw [packetInfo_reth h]
      rfl
    · rw [if_neg (by decide)]
      have hword := exhWord_reth (N := 8) haeth (rethHeader ev.addr msnMeta.rKey ev.length) 0 false
      have hword' := exhWord_reth (N := 8) haeth (rethHeader ev.addr msnMeta.rKey ev.length) 1 true
      have hbytes : headerBytes 8 ev msnMeta .reth =
          ((List.range 8).map fun k => (rethHeader ev.addr msnMeta.rKey ev.length).extractLsb' (8 * (0 * 8 + k)) 8) ++
            (List.range 8).map fun k => (rethHeader ev.addr msnMeta.rKey ev.length).extractLsb' (8 * (1 * 8 + k)) 8 :=
        rfl
      rw [hbytes]
      exact .cons rfl hword (.last rfl (Axi.Word.holds_full hword'))

end

theorem generateExh_packet (hN : Supported N) {s : GenerateExh} {ev : Event} {kind : ExhKind}
    (hs : s.geState = .META) (hkind : exhKind ev.opCode = some kind) (msnMeta : TxMsnRsp) (evs : List Event)
    (msns : List TxMsnRsp) :
    ∃ gos t, Runs (generateExh (8 * N)) s ⟨ev :: evs, msnMeta :: msns⟩ gos t ⟨evs, msns⟩ ∧ t.geState = .META ∧
      ExhWritten N ev msnMeta kind gos := by
  obtain ⟨os, htake, hlen, hinfo, hout⟩ := generateExh_take (W := 8 * N) hs ev msnMeta evs msns
  obtain ⟨gos, t, hrun, ht, hwritten⟩ : ∃ gos t, Runs (generateExh (8 * N)) (processing ev msnMeta) ⟨evs, msns⟩ gos t
      ⟨evs, msns⟩ ∧ t.geState = .META ∧ ExhWritten N ev msnMeta kind gos := by
    cases kind with
    | raw => exact generateExh_raw hkind
    | aeth => exact generateExh_aeth (by rcases hN with rfl | rfl | rfl | rfl <;> decide) hkind
    | reth => exact generateExh_reth hN hkind
  refine ⟨os ++ gos, t, htake.trans hrun, ht, ?_, ?_, ?_, ?_⟩
  · rw [List.flatMap_append, hlen, List.nil_append]
    exact hwritten.lengths
  · rw [List.flatMap_append, hinfo, List.nil_append]
    exact hwritten.infos
  · rw [List.flatMap_append, hout, List.nil_append]
    exact hwritten.words
  · rw [List.flatMap_append, hout, List.nil_append]
    exact hwritten.count

/-! ## `append_payload` -/

section

variable {s : AppendPayload N} {info : TxPacketInfo} (infos : List TxPacketInfo) (hs as rs xs : List (Word N))
  {ws pw : List (Word N)} {hb q bs : List (BitVec 8)}

theorem appendPayload_info (hs' : s.state = .INFO) (info : TxPacketInfo) (i : AppendPayloadIn N) :
    appendPayload s { i with packetInfoFifo := info :: infos } =
      ({ s with info, firstPayload := true, state := if info.hasHeader then .HEADER else .RAW_PAYLOAD },
        { i with packetInfoFifo := infos }, []) := by
  simp only [appendPayload, hs']

theorem appendPayload_header (hs' : s.state = .INFO) (hheader : info.hasHeader = true)
    (hpayload : info.hasPayload = false) (h : Axi.Packet ws hb) :
    ∃ os t, Runs appendPayload s ⟨info :: infos, ws ++ hs, as, rs, xs⟩ os t ⟨infos, hs, as, rs, xs⟩ ∧
      t.state = .INFO ∧ os.flatten = ws := by
  have htake := appendPayload_info infos hs' info ⟨[], ws ++ hs, as, rs, xs⟩
  rw [if_pos hheader] at htake
  obtain ⟨os, t, hrun, ht, hos⟩ := forward (f := appendPayload) (fun ws => ⟨infos, ws, as, rs, xs⟩)
    (fun s => s.state = .HEADER ∧ s.info.hasPayload = false) (fun s => s.state = .INFO)
    (by
      rintro s w rest ⟨hst, hp⟩ hw
      refine ⟨{ s with prevWord := w }, ?_, hst, hp⟩
      simp [appendPayload, hst, AppendPayload.header, hw])
    (by
      rintro s w rest ⟨hst, hp⟩ hw
      refine ⟨{ s with prevWord := w, state := .INFO }, ?_, rfl⟩
      simp [appendPayload, hst, AppendPayload.header, hw, hp])
    h hs (s := { s with info, firstPayload := true, state := .HEADER }) ⟨rfl, hpayload⟩
  exact ⟨_, t, .call htake hrun, ht, hos⟩

theorem appendPayload_raw (hs' : s.state = .INFO) (hheader : info.hasHeader = false) (h : Axi.Packet pw bs) :
    ∃ os t, Runs appendPayload s ⟨info :: infos, hs, as, rs, pw ++ xs⟩ os t ⟨infos, hs, as, rs, xs⟩ ∧
      t.state = .INFO ∧ os.flatten = pw := by
  have htake := appendPayload_info infos hs' info ⟨[], hs, as, rs, pw ++ xs⟩
  rw [hheader, if_neg Bool.false_ne_true] at htake
  obtain ⟨os, t, hrun, ht, hos⟩ := forward (f := appendPayload) (fun ws => ⟨infos, hs, as, rs, ws⟩)
    (fun s => s.state = .RAW_PAYLOAD) (fun s => s.state = .INFO)
    (by
      intro s w rest hst hw
      refine ⟨{ s with state := .RAW_PAYLOAD }, ?_, rfl⟩
      simp [appendPayload, hst, hw])
    (by
      intro s w rest hst hw
      refine ⟨{ s with state := .INFO }, ?_, rfl⟩
      simp [appendPayload, hst, hw])
    h xs (s := { s with info, firstPayload := true, state := .RAW_PAYLOAD }) rfl
  exact ⟨_, t, .call htake hrun, ht, hos⟩

/-- The header is put into the room in front of the payload, and the rest of the payload is passed on. -/
theorem appendPayload_merge (st : AppendState) {n : Nat} (input : List (Word N) → AppendPayloadIn N)
    (hcall : ∀ (s : AppendPayload N) w rest, s.state = st →
      appendPayload s (input (w :: rest)) = ((s.payload n true w).1, input rest, (s.payload n true w).2))
    (hst : s.state = st) (hf : s.firstPayload = true)
    (hhb : (s.prevWord.lanes.take n).map (·.data) = hb) (hlen : hb.length = q.length) (hN : q.length ≤ N)
    (h : Axi.Packet pw (q ++ bs)) (rest : List (Word N)) :
    ∃ os t, Runs appendPayload s (input (pw ++ rest)) os t (input rest) ∧ t.state = .INFO ∧
      Axi.Packet os.flatten (hb ++ bs) := by
  exact forward_overlay (f := appendPayload) input
    (fun s => s.state = st ∧ s.firstPayload = false) (fun s => s.state = .INFO) (s := s)
    (by
      rintro s w rest ⟨hst, hf⟩ hw
      refine ⟨{ s with firstPayload := false }, (hcall s w rest hst).trans ?_, hst, rfl⟩
      simp [AppendPayload.payload, hf, hw])
    (by
      rintro s w rest ⟨hst, hf⟩ hw
      refine ⟨{ s with firstPayload := false, state := .INFO }, (hcall s w rest hst).trans ?_, rfl⟩
      simp [AppendPayload.payload, hf, hw])
    (by
      intro w rest
      refine ⟨{ s with firstPayload := false, state := if w.last then .INFO else s.state },
        (hcall s w rest hst).trans ?_, ?_, ?_⟩
      · simp [AppendPayload.payload, hf, hhb]
      · intro hw
        simp [hw, hst]
      · intro hw
        simp [hw])
    hlen hN h rest

theorem appendPayload_aeth {w : Word N} (hs' : s.state = .INFO) (hinfo : info = ⟨true, true, true⟩)
    (hlast : w.last = true) (hw : w.Holds hb) (hlen : hb.length = 4) (h : Axi.Packet pw (q ++ bs)) (hq : q.length = 4)
    (hN : 4 ≤ N) :
    ∃ os t, Runs appendPayload s ⟨info :: infos, w :: hs, pw ++ as, rs, xs⟩ os t ⟨infos, hs, as, rs, xs⟩ ∧
      t.state = .INFO ∧ Axi.Packet os.flatten (hb ++ bs) := by
  subst hinfo
  have htake := appendPayload_info infos hs' ⟨true, true, true⟩ ⟨[], w :: hs, pw ++ as, rs, xs⟩
  rw [if_pos rfl] at htake
  have hheader : appendPayload { s with info := ⟨true, true, true⟩, firstPayload := true, state := .HEADER }
      ⟨infos, w :: hs, pw ++ as, rs, xs⟩ =
      ({ s with
          info := ⟨true, true, true⟩, firstPayload := true, state := .AETH_PAYLOAD
          prevWord := { w with last := false } }, ⟨infos, hs, pw ++ as, rs, xs⟩, []) := by
    simp [appendPayload, AppendPayload.header, hlast]
  have hbytes : (w.lanes.take 4).map (·.data) = hb := by
    obtain ⟨rest, hlanes, -⟩ := hw
    rw [hlanes, List.take_left' (by rw [List.length_map, hlen]), Axi.map_data_kept]
  obtain ⟨os, t, hrun, ht, hpacket⟩ := appendPayload_merge .AETH_PAYLOAD (n := 4) (fun ws => ⟨infos, hs, ws, rs, xs⟩)
    (s := { s with
      info := ⟨true, true, true⟩, firstPayload := true, state := .AETH_PAYLOAD
      prevWord := { w with last := false } })
    (fun s w rest hst => by simp only [appendPayload, hst]) rfl rfl hbytes (hlen.trans hq.symm)
    (by rw [hq]; exact hN) h as
  exact ⟨_, t, .call htake (.call hheader hrun), ht, hpacket⟩

theorem appendPayload_reth_wide {w : Word N} {tail : List (BitVec 8)} (hs' : s.state = .INFO)
    (hinfo : info = ⟨false, true, true⟩) (hlast : w.last = true) (hw : w.Holds (hb ++ tail)) (hlen : hb.length = 16)
    (h : Axi.Packet pw (q ++ bs)) (hq : q.length = 16) (hN : 16 < N) :
    ∃ os t, Runs appendPayload s ⟨info :: infos, w :: hs, as, pw ++ rs, xs⟩ os t ⟨infos, hs, as, rs, xs⟩ ∧
      t.state = .INFO ∧ Axi.Packet os.flatten (hb ++ bs) := by
  subst hinfo
  have hwide : ¬8 * N ≤ RETH_SIZE := by unfold RETH_SIZE; omega
  have hmerge : decide (RETH_SIZE < 8 * N) = true := decide_eq_true (by unfold RETH_SIZE; omega)
  have htake := appendPayload_info infos hs' ⟨false, true, true⟩ ⟨[], w :: hs, as, pw ++ rs, xs⟩
  rw [if_pos rfl] at htake
  have hheader : appendPayload { s with info := ⟨false, true, true⟩, firstPayload := true, state := .HEADER }
      ⟨infos, w :: hs, as, pw ++ rs, xs⟩ =
      ({ s with
          info := ⟨false, true, true⟩, firstPayload := true, state := .RETH_PAYLOAD
          prevWord := { w with last := false } }, ⟨infos, hs, as, pw ++ rs, xs⟩, []) := by
    simp [appendPayload, AppendPayload.header, hlast, hwide]
  have hbytes : (w.lanes.take 16).map (·.data) = hb := by
    obtain ⟨rest, hlanes, -⟩ := hw
    rw [hlanes, List.map_append, List.append_assoc, List.take_left' (by rw [List.length_map, hlen]),
      Axi.map_data_kept]
  obtain ⟨os, t, hrun, ht, hpacket⟩ := appendPayload_merge .RETH_PAYLOAD (n := 16) (fun ws => ⟨infos, hs, as, ws, xs⟩)
    (s := { s with
      info := ⟨false, true, true⟩, firstPayload := true, state := .RETH_PAYLOAD
      prevWord := { w with last := false } })
    (fun s w rest hst => by simp only [appendPayload, hst, hmerge]) rfl rfl hbytes (hlen.trans hq.symm)
    (by rw [hq]; exact Nat.le_of_lt hN) h rs
  exact ⟨_, t, .call htake (.call hheader hrun), ht, hpacket⟩

/-- The words without the end of the packet. -/
def unlast (ws : List (Word N)) : List (Word N) := ws.map fun w => { w with last := false }

theorem packet_continue (h : Axi.Packet ws hb) (hfull : hb.length = ws.length * N) (h' : Axi.Packet pw bs) :
    Axi.Packet (unlast ws ++ pw) (hb ++ bs) := by
  induction h with
  | @last w b _ hw =>
    rw [List.length_singleton, Nat.one_mul] at hfull
    exact .cons rfl (hw.full hfull) h'
  | @cons w ws b b' _ hw _ ih =>
    have hb : b.length = N := Axi.Word.length_full hw
    rw [List.length_append, List.length_cons, Nat.succ_mul, hb] at hfull
    rw [List.append_assoc]
    exact .cons rfl hw (ih (by omega))

-- The words of a RETH are sent in front of the payload.
theorem appendPayload_words (hN : 8 * N ≤ RETH_SIZE) (h : Axi.Packet ws hb) :
    ∀ {s : AppendPayload N}, s.state = .HEADER → s.info = ⟨false, true, true⟩ →
      ∃ os t, Runs appendPayload s ⟨infos, ws ++ hs, as, rs, xs⟩ os t ⟨infos, hs, as, rs, xs⟩ ∧
        t.state = .RETH_PAYLOAD ∧ os.flatten = unlast ws := by
  induction h with
  | @last w b hlast _ =>
    intro s hst hinfo
    have hcall : appendPayload s ⟨infos, w :: hs, as, rs, xs⟩ =
        ({ s with prevWord := { w with last := false }, state := .RETH_PAYLOAD }, ⟨infos, hs, as, rs, xs⟩,
          [{ w with last := false }]) := by
      simp [appendPayload, hst, AppendPayload.header, hlast, hinfo, hN]
    exact ⟨_, _, .one hcall, rfl, rfl⟩
  | @cons w ws b b' hlast _ _ ih =>
    intro s hst hinfo
    have hcall : appendPayload s ⟨infos, w :: (ws ++ hs), as, rs, xs⟩ =
        ({ s with prevWord := w }, ⟨infos, ws ++ hs, as, rs, xs⟩, [w]) := by
      simp [appendPayload, hst, AppendPayload.header, hlast]
    obtain ⟨os, t, hrun, ht, hos⟩ := ih (s := { s with prevWord := w }) hst hinfo
    have hsame : w = { w with last := false } := by rw [← hlast]
    refine ⟨_, t, .call hcall hrun, ht, ?_⟩
    rw [List.flatten_cons, hos]
    exact congrArg (· :: unlast ws) hsame

theorem appendPayload_reth_narrow (hs' : s.state = .INFO) (hinfo : info = ⟨false, true, true⟩)
    (hw : Axi.Packet ws hb) (hfull : hb.length = ws.length * N) (h : Axi.Packet pw bs) (hN : N ≤ 16) :
    ∃ os t, Runs appendPayload s ⟨info :: infos, ws ++ hs, as, pw ++ rs, xs⟩ os t ⟨infos, hs, as, rs, xs⟩ ∧
      t.state = .INFO ∧ Axi.Packet os.flatten (hb ++ bs) := by
  subst hinfo
  have hnarrow : 8 * N ≤ RETH_SIZE := by unfold RETH_SIZE; omega
  have hmerge : ¬RETH_SIZE < 8 * N := Nat.not_lt.mpr hnarrow
  have htake := appendPayload_info infos hs' ⟨false, true, true⟩
    ⟨[], ws ++ hs, as, pw ++ rs, xs⟩
  rw [if_pos rfl] at htake
  obtain ⟨os, t, hrun, ht, hos⟩ := appendPayload_words infos hs as (pw ++ rs) xs
    hnarrow hw (s := { s with info := ⟨false, true, true⟩, firstPayload := true, state := .HEADER }) rfl rfl
  obtain ⟨os', t', hrun', ht', hos'⟩ := forward (f := appendPayload) (fun ws => ⟨infos, hs, as, ws, xs⟩)
    (fun s => s.state = .RETH_PAYLOAD) (fun s => s.state = .INFO)
    (by
      intro s w rest hst hw
      refine ⟨{ s with state := .RETH_PAYLOAD }, ?_, rfl⟩
      simp [appendPayload, hst, AppendPayload.payload, hw, hmerge])
    (by
      intro s w rest hst hw
      refine ⟨{ s with state := .INFO }, ?_, rfl⟩
      simp [appendPayload, hst, AppendPayload.payload, hw, hmerge])
    h rs ht
  refine ⟨_, t', .call htake (hrun.trans hrun'), ht', ?_⟩
  rw [List.flatten_cons, List.flatten_append, hos, hos']
  exact packet_continue hw hfull h

end

/-! ## `prepend_ibh_header` -/

section

variable {s : PrependIbhHeader} (header : BitVec BTH_SIZE) (headers : List (BitVec BTH_SIZE)) (rest : List (Word N))
  {ws : List (Word N)} {bs : List (BitVec 8)}

-- What is put into the packet when the first word of the header was written before.
theorem prepend_body (hst : s.state = .PARTIAL_HEADER) {q : List (BitVec 8)} (hlen : (s.consume N).length = q.length)
    (hN : q.length ≤ N) (h : Axi.Packet ws (q ++ bs)) :
    ∃ os t, Runs prependIbhHeader s ⟨headers, ws ++ rest⟩ os t ⟨headers, rest⟩ ∧ t.state = .GET_HEADER ∧
      Axi.Packet os.flatten (s.consume N ++ bs) := by
  exact forward_overlay (f := prependIbhHeader) (fun ws => ⟨headers, ws⟩) (fun s => s.state = .BODY)
    (fun s => s.state = .GET_HEADER) (s := s)
    (by
      intro s w rest hst hw
      refine ⟨{ s with state := .BODY, validTx := s.validTx + 1 }, ?_, rfl⟩
      simp [prependIbhHeader, hst, hw])
    (by
      intro s w rest hst hw
      refine ⟨{ s with state := .GET_HEADER, validTx := s.validTx + 1 }, ?_, rfl⟩
      simp [prependIbhHeader, hst, hw])
    (by
      intro w rest
      refine ⟨{ s with
        idx := s.idx + 1, state := if w.last then .GET_HEADER else .BODY, validTx := s.validTx + 1 }, ?_, ?_, ?_⟩
      · simp [prependIbhHeader, hst]
      · intro hw
        simp [hw]
      · intro hw
        simp [hw])
    hlen hN h rest

-- a word of 64 bits with the first bytes of the header
theorem prepend_first (hst : s.state = .HEADER) (hidx : s.idx = 0) (i : PrependIbhHeaderIn 8) :
    ∃ w, prependIbhHeader s i =
        ({ s with idx := 1, state := .PARTIAL_HEADER, validTx := s.validTx + 1 }, i, [w]) ∧
      w.last = false ∧ w.lanes = ((octets 12 s.header).take 8).map Lane.kept := by
  let full : Word 8 := ⟨List.replicate 8 ⟨0, true⟩, false, List.length_replicate⟩
  refine ⟨overlay ((octets 12 s.header).take 8) full, ?_, rfl, ?_⟩
  · simp [prependIbhHeader, hst, hidx, remainingLength, BTH_SIZE, PrependIbhHeader.consume, full]
  · have hlen : ((octets 12 s.header).take 8).length = (List.replicate 8 (0 : BitVec 8)).length := by
      rw [List.length_take, length_octets, List.length_replicate]
      rfl
    have hfull : full.lanes = (List.replicate 8 0).map Lane.kept ++ [] := rfl
    have hfill := overlay_lanes hfull hlen
    rw [List.append_nil] at hfill
    exact hfill

/-- The base header takes the room in front of the packet; in words of 64 bits its first bytes are a word. -/
theorem prepend_packet (hN : Supported N) (hst : s.state = .GET_HEADER) (h : Axi.Packet ws (List.replicate (12 % N) 0 ++ bs)) :
    ∃ os t, Runs prependIbhHeader s ⟨header :: headers, ws ++ rest⟩ os t ⟨headers, rest⟩ ∧ t.state = .GET_HEADER ∧
      Axi.Packet os.flatten (octets 12 header ++ bs) := by
  have htake : prependIbhHeader s ⟨header :: headers, ws ++ rest⟩ =
      ({ s with header, idx := 0, state := if 8 * N ≤ BTH_SIZE then .HEADER else .PARTIAL_HEADER },
        ⟨headers, ws ++ rest⟩, []) := by
    simp only [prependIbhHeader, hst]
  have hlength := length_octets 12 header
  by_cases h8 : N = 8
  · subst h8
    rw [if_pos (by decide)] at htake
    let s' : PrependIbhHeader := { s with header, idx := 1, state := .PARTIAL_HEADER, validTx := s.validTx + 1 }
    obtain ⟨first, hheader, hmore, hfirst⟩ := prepend_first (s := { s with header, idx := 0, state := .HEADER }) rfl rfl
      ⟨headers, ws ++ rest⟩
    have hconsume : s'.consume 8 = (octets 12 header).drop 8 := by
      show ((octets 12 header).drop 8).take 8 = (octets 12 header).drop 8
      exact List.take_of_length_le (by rw [List.length_drop, hlength]; decide)
    obtain ⟨os, t, hrun, ht, hpacket⟩ := prepend_body headers rest (s := s') rfl
      (by rw [hconsume, List.length_drop, hlength, List.length_replicate]) (by rw [List.length_replicate]; decide) h
    rw [hconsume] at hpacket
    refine ⟨_, t, .call htake (.call hheader hrun), ht, ?_⟩
    have hall := Axi.Packet.cons hmore hfirst hpacket
    rw [← List.append_assoc, List.take_append_drop] at hall
    exact hall
  · have hwide : 16 ≤ N := by rcases hN with rfl | rfl | rfl | rfl <;> omega
    have hmod : 12 % N = 12 := Nat.mod_eq_of_lt (by omega)
    rw [if_neg (by unfold BTH_SIZE; omega)] at htake
    have hconsume : ({ s with header, idx := 0, state := .PARTIAL_HEADER } : PrependIbhHeader).consume N =
        octets 12 header := by
      rw [PrependIbhHeader.consume, Nat.zero_mul, List.drop_zero, List.take_of_length_le (by rw [hlength]; omega)]
    obtain ⟨os, t, hrun, ht, hpacket⟩ := prepend_body headers rest
      (s := { s with header, idx := 0, state := .PARTIAL_HEADER }) rfl
      (by rw [hconsume, hlength, List.length_replicate, hmod]) (by rw [List.length_replicate, hmod]; omega) h
    rw [hconsume] at hpacket
    exact ⟨_, t, .call htake hrun, ht, hpacket⟩

end

end FpgaNetworkStack.Roce
