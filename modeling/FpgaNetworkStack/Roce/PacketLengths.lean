import FpgaNetworkStack.Roce.PacketStages

/-!
# Declared and emitted lengths

`generate_exh` declares the length of a packet from the event alone, and the packet is put together by
`append_payload` and `prepend_ibh_header`.  All bytes of a word with a RETH are enabled, a packet without
payload has no word of its own unless it has a header, and the length of the first packet of a write is fixed.
-/

namespace FpgaNetworkStack.Roce

open Lib IbOpCode
open Axi (Lane Word LShift lshiftWordByOctet lshift_packet lshift_idle octets length_octets)

variable {N : Nat}

/-! ## The transmit path -/

structure TxPath (N : Nat) where
  gen : GenerateExh := {}
  aethShift : LShift N := {}
  rethShift : LShift N := {}
  append : AppendPayload N := {}
  bthShift : LShift N := {}
  prepend : PrependIbhHeader := {}

/-- Every process waits for a packet. -/
structure TxPath.Idle (p : TxPath N) : Prop where
  gen : p.gen.geState = .META
  aethShift : p.aethShift.Idle
  rethShift : p.rethShift.Idle
  append : p.append.state = .INFO
  bthShift : p.bthShift.Idle
  prepend : p.prepend.state = .GET_HEADER

theorem TxPath.idle_init : ({} : TxPath N).Idle := ⟨rfl, LShift.idle_init, LShift.idle_init, rfl, LShift.idle_init, rfl⟩

structure Sent (N : Nat) where
  lengthFifo : List (BitVec 16)
  packetInfoFifo : List TxPacketInfo
  packet : List (Word N)

/-- The words from memory go to one of three queues, with the header of the packet. -/
def payloadFor (ev : Event) (kind : ExhKind) (mem : List (Word N)) : List (Word N) :=
  if exhKind ev.opCode = some kind then mem else []

/-- One event with its payload and its base header: each process is called until it has nothing to do. -/
inductive Transmits (p : TxPath N) (ev : Event) (msnMeta : TxMsnRsp) (bth : BitVec BTH_SIZE) (mem : List (Word N)) :
    Sent N → TxPath N → Prop
  | intro {q : TxPath N} {gos gi aos ros pos pi bos os oi}
      (gen : Rests (generateExh (8 * N)) {} p.gen ⟨[ev], [msnMeta]⟩ gos q.gen gi)
      (aeth : Rests (lshiftWordByOctet (4 % N)) [] p.aethShift (payloadFor ev .aeth mem) aos q.aethShift [])
      (reth : Rests (lshiftWordByOctet (16 % N)) [] p.rethShift (payloadFor ev .reth mem) ros q.rethShift [])
      (append : Rests appendPayload [] p.append
        ⟨gos.flatMap (·.packetInfoFifo), (gos.flatMap (·.output)).map (exhWord ev.opCode), aos.flatten, ros.flatten,
          payloadFor ev .raw mem⟩ pos q.append pi)
      (shift : Rests (lshiftWordByOctet (12 % N)) [] p.bthShift pos.flatten bos q.bthShift [])
      (prepend : Rests prependIbhHeader [] p.prepend ⟨[bth], bos.flatten⟩ os q.prepend oi) :
      Transmits p ev msnMeta bth mem
        ⟨gos.flatMap (·.lengthFifo), gos.flatMap (·.packetInfoFifo), os.flatten⟩ q

/-- The bytes of payload that the event asks the memory for. -/
def payloadLength (ev : Event) : Nat := if takesPayload ev.opCode then ev.length.toNat else 0

/-- The memory delivers `n` bytes: no word at all, or a packet. -/
def Delivered (mem : List (Word N)) (n : Nat) : Prop :=
  n = 0 ∧ mem = [] ∨ 0 < n ∧ ∃ bs : List (BitVec 8), bs.length = n ∧ Axi.Packet mem bs

/-- One length and one packet info are written, and the length is that of the packet and the four bytes of its
checksum. -/
structure Agree (sent : Sent N) (q : TxPath N) : Prop where
  length : ∃ len, sent.lengthFifo = [len] ∧ (sent.packet.flatMap Word.bytes).length + 4 = len.toNat
  info : sent.packetInfoFifo.length = 1
  returns : q.gen.geState = .META

/-- Packets whose length is right: a packet without a header has payload, a RETH without payload fills its word,
and the first packet of a write has the length that is declared for it. -/
def agrees (N : Nat) (ev : Event) : Bool :=
  match exhKind ev.opCode with
  | some .reth => (takesPayload ev.opCode && ev.length != 0 || decide (N ≤ 16)) &&
      (ev.opCode != RC_RDMA_WRITE_FIRST || ev.length == BitVec.ofNat 32 PMTU)
  | some .raw => ev.length != 0
  | _ => true

def emitted (N : Nat) (ev : Event) (kind : ExhKind) : Nat :=
  if payloadLength ev = 0 then
    match kind with
    | .raw => if N = 8 then 8 else 0
    | .aeth => 12 + 4
    | .reth => 12 + max 16 N
  else 12 + exhSize kind + payloadLength ev

/-! ## One packet -/

section

variable {s : LShift N} {offset : Nat} {ws : List (Word N)} {bs : List (BitVec 8)}

theorem lshift_rests_nil (hs : s.Idle) : Rests (lshiftWordByOctet offset) [] s [] [] s [] :=
  ⟨.refl s [], lshift_idle hs⟩

theorem lshift_rests (offset : Nat) (hoff : offset ≤ N) (hoff' : offset ≤ 32) (hs : s.Idle) (h : Axi.Packet ws bs) :
    ∃ os t, Rests (lshiftWordByOctet offset) [] s ws os t [] ∧ t.Idle ∧
      Axi.Packet os.flatten (List.replicate offset 0 ++ bs) := by
  obtain ⟨os, t, hrun, ht, hpacket⟩ := lshift_packet hoff hoff' h hs []
  rw [List.append_nil] at hrun
  exact ⟨os, t, ⟨hrun, lshift_idle ht⟩, ht, hpacket⟩

theorem mod_le (hN : Supported N) (n : Nat) : n % N ≤ N :=
  Nat.le_of_lt (Nat.mod_lt n (by rcases hN with rfl | rfl | rfl | rfl <;> decide))

theorem generateExh_idle {s : GenerateExh} (hs : s.geState = .META) {W : Nat} :
    generateExh W s ⟨[], []⟩ = (s, ⟨[], []⟩, {}) := by
  simp only [generateExh, hs]

theorem appendPayload_idle {s : AppendPayload N} (hs : s.state = .INFO) :
    appendPayload s ⟨[], [], [], [], []⟩ = (s, ⟨[], [], [], [], []⟩, []) := by
  simp only [appendPayload, hs]

end

section

variable {p : TxPath N} {ev : Event} {msnMeta : TxMsnRsp} (bth : BitVec BTH_SIZE) {mem : List (Word N)} {kind : ExhKind}
  {gos : List (GenerateExhOut (8 * N))} {g : GenerateExh} {aos ros pos : List (List (Word N))} {a r : LShift N}
  {t : AppendPayload N} {pi : AppendPayloadIn N} {bs : List (BitVec 8)}

section

variable (hN : Supported N) (hp : p.Idle)
    (gen : Rests (generateExh (8 * N)) {} p.gen ⟨[ev], [msnMeta]⟩ gos g ⟨[], []⟩)
    (aeth : Rests (lshiftWordByOctet (4 % N)) [] p.aethShift (payloadFor ev .aeth mem) aos a [])
    (reth : Rests (lshiftWordByOctet (16 % N)) [] p.rethShift (payloadFor ev .reth mem) ros r [])
    (append : Rests appendPayload [] p.append
      ⟨gos.flatMap (·.packetInfoFifo), (gos.flatMap (·.output)).map (exhWord ev.opCode), aos.flatten, ros.flatten,
        payloadFor ev .raw mem⟩ pos t pi)

include hN hp gen aeth reth append

/-- The base header is put in front of what `append_payload` has written. -/
theorem transmits_packet (hpacket : Axi.Packet pos.flatten bs) :
    ∃ sent q, Transmits p ev msnMeta bth mem sent q ∧ q.gen = g ∧ sent.lengthFifo = gos.flatMap (·.lengthFifo) ∧
      sent.packetInfoFifo = gos.flatMap (·.packetInfoFifo) ∧
      sent.packet.flatMap Word.bytes = octets 12 bth ++ bs := by
  obtain ⟨bos, b, hshift, -, hroom⟩ := lshift_rests (12 % N) (mod_le hN 12)
    ((Nat.mod_le 12 N).trans (by decide)) hp.bthShift hpacket
  obtain ⟨os, h, hrun, hh, hall⟩ := prepend_packet bth [] [] hN hp.prepend hroom
  rw [List.append_nil] at hrun
  have hrest : prependIbhHeader h (⟨[], []⟩ : PrependIbhHeaderIn N) = (h, ⟨[], []⟩, []) := by
    simp only [prependIbhHeader, hh]
  exact ⟨_, ⟨g, a, r, t, b, h⟩, .intro gen aeth reth append hshift ⟨hrun, hrest⟩, rfl, rfl, rfl, hall.bytes_eq⟩

/-- Nothing follows when `append_payload` writes nothing; of a base header of 64 bits the first word is sent. -/
theorem transmits_nothing (hnil : pos.flatten = []) :
    ∃ sent q, Transmits p ev msnMeta bth mem sent q ∧ q.gen = g ∧ sent.lengthFifo = gos.flatMap (·.lengthFifo) ∧
      sent.packetInfoFifo = gos.flatMap (·.packetInfoFifo) ∧
      (sent.packet.flatMap Word.bytes).length = if N = 8 then 8 else 0 := by
  have hshift : Rests (lshiftWordByOctet (12 % N)) [] p.bthShift pos.flatten [] p.bthShift [] := by
    rw [hnil]
    exact lshift_rests_nil hp.bthShift
  have htake : prependIbhHeader p.prepend (⟨[bth], []⟩ : PrependIbhHeaderIn N) =
      ({ p.prepend with header := bth, idx := 0, state := if 8 * N ≤ BTH_SIZE then .HEADER else .PARTIAL_HEADER },
        ⟨[], []⟩, []) := by
    simp only [prependIbhHeader, hp.prepend]
  by_cases h8 : N = 8
  · subst h8
    rw [if_pos (by decide)] at htake
    obtain ⟨first, hheader, hmore, hfirst⟩ := prepend_first
      (s := { p.prepend with header := bth, idx := 0, state := .HEADER }) rfl rfl ⟨[], []⟩
    refine ⟨_, ⟨g, a, r, t, p.bthShift, _⟩, .intro gen aeth reth append hshift
      ⟨.call htake (.one hheader), rfl⟩, rfl, rfl, rfl, ?_⟩
    show (first.bytes ++ []).length = _
    rw [List.append_nil, (Axi.Word.holds_full hfirst).bytes_eq, List.length_take, length_octets]
    rfl
  · rw [if_neg (by unfold BTH_SIZE; rcases hN with rfl | rfl | rfl | rfl <;> omega)] at htake
    refine ⟨_, ⟨g, a, r, t, p.bthShift, _⟩, .intro gen aeth reth append hshift ⟨.one htake, ?_⟩, rfl, rfl, rfl, ?_⟩
    · rfl
    · rw [if_neg h8]
      rfl

end

theorem payloadFor_of_kind (mem : List (Word N)) (h : exhKind ev.opCode = some kind) (k : ExhKind) :
    payloadFor ev k mem = if kind = k then mem else [] := by
  unfold payloadFor
  rw [h]
  simp only [Option.some.injEq]

theorem shift_unused {k : ExhKind} {s : LShift N} {offset : Nat} (mem : List (Word N))
    (h : exhKind ev.opCode = some kind) (hk : kind ≠ k) (hs : s.Idle) :
    Rests (lshiftWordByOctet offset) [] s (payloadFor ev k mem) [] s [] := by
  rw [payloadFor_of_kind mem h, if_neg hk]
  exact lshift_rests_nil hs

theorem packetInfo_payload : (packetInfo ev kind).hasPayload = decide (payloadLength ev ≠ 0) := by
  unfold packetInfo payloadLength
  cases takesPayload ev.opCode
  · rfl
  · show (ev.length != 0) = decide (ev.length.toNat ≠ 0)
    rw [Bool.eq_iff_iff, bne_iff_ne, decide_eq_true_eq, ne_eq, ne_eq, ← BitVec.toNat_inj]
    rfl

theorem length_exhBytes : (exhBytes ev msnMeta kind).length = exhSize kind := by
  cases kind with
  | reth => exact length_octets 16 _
  | aeth => exact length_octets 4 _
  | raw => rfl

theorem headerWords (hwritten : ExhWritten N ev msnMeta kind gos) (hkind : kind ≠ .raw) :
    Axi.Packet ((gos.flatMap (·.output)).map (exhWord ev.opCode)) (headerBytes N ev msnMeta kind) := by
  have hwords := hwritten.words
  rw [if_neg hkind] at hwords
  exact hwords

theorem one_headerWord (hwritten : ExhWritten N ev msnMeta kind gos) (hkind : kind ≠ .raw) (hone : exhWords N kind = 1) :
    ∃ w, (gos.flatMap (·.output)).map (exhWord ev.opCode) = [w] ∧ w.last = true ∧
      w.Holds (headerBytes N ev msnMeta kind) := by
  have hpacket := headerWords hwritten hkind
  obtain ⟨x, hx⟩ := List.length_eq_one_iff.mp (hwritten.count.trans hone)
  rw [hx] at hpacket ⊢
  exact ⟨_, rfl, hpacket.one⟩

/-- Without payload the packet is the header, or nothing. -/
theorem transmits_empty (hN : Supported N) (hp : p.Idle) (hkind : exhKind ev.opCode = some kind)
    (gen : Rests (generateExh (8 * N)) {} p.gen ⟨[ev], [msnMeta]⟩ gos g ⟨[], []⟩)
    (hwritten : ExhWritten N ev msnMeta kind gos) (hempty : payloadLength ev = 0) :
    ∃ sent q, Transmits p ev msnMeta bth [] sent q ∧ q.gen = g ∧ sent.lengthFifo = gos.flatMap (·.lengthFifo) ∧
      sent.packetInfoFifo = gos.flatMap (·.packetInfoFifo) ∧
      (sent.packet.flatMap Word.bytes).length = emitted N ev kind := by
  have hnone : ∀ k, payloadFor ev k ([] : List (Word N)) = [] := by
    intro k
    unfold payloadFor
    rw [ite_self]
  have hpayload : (packetInfo ev kind).hasPayload = false := by
    rw [packetInfo_payload, hempty]
    rfl
  have haeth : Rests (lshiftWordByOctet (4 % N)) [] p.aethShift (payloadFor ev .aeth []) [] p.aethShift [] := by
    rw [hnone]
    exact lshift_rests_nil hp.aethShift
  have hreth : Rests (lshiftWordByOctet (16 % N)) [] p.rethShift (payloadFor ev .reth []) [] p.rethShift [] := by
    rw [hnone]
    exact lshift_rests_nil hp.rethShift
  unfold emitted
  rw [if_pos hempty]
  by_cases hraw : kind = .raw
  · -- `append_payload` waits for a word
    subst hraw
    have hwords : gos.flatMap (·.output) = [] := hwritten.words
    have happend : Rests appendPayload [] p.append
        ⟨gos.flatMap (·.packetInfoFifo), (gos.flatMap (·.output)).map (exhWord ev.opCode), [], [], payloadFor ev .raw []⟩
        [[]] { p.append with info := packetInfo ev .raw, firstPayload := true, state := .RAW_PAYLOAD }
        ⟨[], [], [], [], []⟩ := by
      rw [hwritten.infos, hwords, hnone]
      exact ⟨.one (appendPayload_info [] hp.append (packetInfo ev .raw) ⟨[], [], [], [], []⟩), rfl⟩
    exact transmits_nothing bth hN hp gen haeth hreth happend rfl
  · have hheader := headerWords hwritten hraw
    have hhas : (packetInfo ev kind).hasHeader = true := bne_iff_ne.mpr hraw
    obtain ⟨os, t, hrun, ht, hos⟩ := appendPayload_header [] [] [] [] []
      hp.append hhas hpayload hheader
    have happend : Rests appendPayload [] p.append
        ⟨gos.flatMap (·.packetInfoFifo), (gos.flatMap (·.output)).map (exhWord ev.opCode), [], [], payloadFor ev .raw []⟩
        os t ⟨[], [], [], [], []⟩ := by
      rw [hwritten.infos, hnone]
      rw [List.append_nil] at hrun
      exact ⟨hrun, appendPayload_idle ht⟩
    rw [← hos] at hheader
    obtain ⟨sent, q, hsent, hq, hlen, hinfo, hbytes⟩ := transmits_packet bth hN hp gen haeth hreth happend hheader
    refine ⟨sent, q, hsent, hq, hlen, hinfo, ?_⟩
    rw [hbytes, List.length_append, length_octets, headerBytes, List.length_append, List.length_replicate,
      length_exhBytes]
    cases kind with
    | raw => exact absurd rfl hraw
    | aeth => rfl
    | reth =>
      rw [if_pos rfl]
      show 12 + (16 + (N - 16)) = 12 + max 16 N
      omega

/-- With payload the packet is the header and the payload. -/
theorem transmits_loaded (hN : Supported N) (hp : p.Idle) (hkind : exhKind ev.opCode = some kind)
    (gen : Rests (generateExh (8 * N)) {} p.gen ⟨[ev], [msnMeta]⟩ gos g ⟨[], []⟩)
    (hwritten : ExhWritten N ev msnMeta kind gos) (hloaded : payloadLength ev ≠ 0) (hmem : Axi.Packet mem bs) :
    ∃ sent q, Transmits p ev msnMeta bth mem sent q ∧ q.gen = g ∧ sent.lengthFifo = gos.flatMap (·.lengthFifo) ∧
      sent.packetInfoFifo = gos.flatMap (·.packetInfoFifo) ∧
      sent.packet.flatMap Word.bytes = octets 12 bth ++ (exhBytes ev msnMeta kind ++ bs) := by
  have hpayload : (packetInfo ev kind).hasPayload = true := by
    rw [packetInfo_payload]
    exact decide_eq_true hloaded
  have hfor := payloadFor_of_kind mem hkind
  cases kind with
  | raw =>
    have hwords : gos.flatMap (·.output) = [] := hwritten.words
    have hraw : (packetInfo ev .raw).hasHeader = false := rfl
    obtain ⟨os, t, hrun, ht, hos⟩ := appendPayload_raw [] [] [] [] [] hp.append hraw hmem
    have happend : Rests appendPayload [] p.append
        ⟨gos.flatMap (·.packetInfoFifo), (gos.flatMap (·.output)).map (exhWord ev.opCode), [], [],
          payloadFor ev .raw mem⟩ os t ⟨[], [], [], [], []⟩ := by
      rw [hwritten.infos, hwords, hfor, if_pos rfl]
      rw [List.append_nil] at hrun
      exact ⟨hrun, appendPayload_idle ht⟩
    rw [← hos] at hmem
    exact transmits_packet bth hN hp gen (shift_unused mem hkind (by decide) hp.aethShift)
      (shift_unused mem hkind (by decide) hp.rethShift) happend hmem
  | aeth =>
    have hfour : 4 ≤ N := by rcases hN with rfl | rfl | rfl | rfl <;> decide
    have hmod : 4 % N = 4 := by rcases hN with rfl | rfl | rfl | rfl <;> rfl
    obtain ⟨aos, a, hshift, -, hroom⟩ := lshift_rests (4 % N) (mod_le hN 4)
      ((Nat.mod_le 4 N).trans (by decide)) hp.aethShift hmem
    have haeth : Rests (lshiftWordByOctet (4 % N)) [] p.aethShift (payloadFor ev .aeth mem) aos a [] := by
      rw [hfor, if_pos rfl]
      exact hshift
    have hinfo : packetInfo ev .aeth = ⟨true, true, true⟩ := congrArg (TxPacketInfo.mk true true) hpayload
    obtain ⟨w, hwords, hlast, hw⟩ := one_headerWord hwritten (by decide) rfl
    have hbytes : headerBytes N ev msnMeta .aeth = exhBytes ev msnMeta .aeth := List.append_nil _
    rw [hbytes] at hw
    obtain ⟨os, t, hrun, ht, hpacket⟩ := appendPayload_aeth [] [] [] [] []
      hp.append hinfo hlast hw length_exhBytes hroom (by rw [List.length_replicate, hmod]) hfour
    have happend : Rests appendPayload [] p.append
        ⟨gos.flatMap (·.packetInfoFifo), (gos.flatMap (·.output)).map (exhWord ev.opCode), aos.flatten, [],
          payloadFor ev .raw mem⟩ os t ⟨[], [], [], [], []⟩ := by
      rw [hwritten.infos, hwords, hfor, if_neg (by decide)]
      rw [List.append_nil] at hrun
      exact ⟨hrun, appendPayload_idle ht⟩
    exact transmits_packet bth hN hp gen haeth (shift_unused mem hkind (by decide) hp.rethShift) happend hpacket
  | reth =>
    obtain ⟨ros, r, hshift, -, hroom⟩ := lshift_rests (16 % N) (mod_le hN 16)
      ((Nat.mod_le 16 N).trans (by decide)) hp.rethShift hmem
    have hreth : Rests (lshiftWordByOctet (16 % N)) [] p.rethShift (payloadFor ev .reth mem) ros r [] := by
      rw [hfor, if_pos rfl]
      exact hshift
    have hinfo : packetInfo ev .reth = ⟨false, true, true⟩ := by
      rw [packetInfo_reth hkind]
      exact congrArg (TxPacketInfo.mk false true) hpayload
    have hheader := headerWords hwritten (by decide)
    obtain ⟨os, t, hrun, ht, hpacket⟩ : ∃ os t, Runs appendPayload p.append
        ⟨[packetInfo ev .reth], (gos.flatMap (·.output)).map (exhWord ev.opCode), [], ros.flatten, []⟩ os t
          ⟨[], [], [], [], []⟩ ∧ t.state = .INFO ∧ Axi.Packet os.flatten (exhBytes ev msnMeta .reth ++ bs) := by
      by_cases hwide : 16 < N
      · have hmod : 16 % N = 16 := Nat.mod_eq_of_lt hwide
        obtain ⟨w, hwords, hlast, hw⟩ := one_headerWord hwritten (by decide) (if_neg (by omega))
        rw [hwords]
        have hmerged := appendPayload_reth_wide [] [] [] [] [] hp.append hinfo
          hlast hw length_exhBytes hroom (by rw [List.length_replicate, hmod]) hwide
        rw [List.append_nil] at hmerged
        exact hmerged
      · have hzero : 16 % N = 0 := by rcases hN with rfl | rfl | rfl | rfl <;> first | rfl | omega
        have hbytes : headerBytes N ev msnMeta .reth = exhBytes ev msnMeta .reth := by
          rw [headerBytes, if_pos rfl, Nat.sub_eq_zero_of_le (Nat.not_lt.mp hwide), List.replicate_zero, List.append_nil]
        have hfull : (exhBytes ev msnMeta .reth).length =
            ((gos.flatMap (·.output)).map (exhWord (N := N) ev.opCode)).length * N := by
          rw [length_exhBytes, List.length_map, hwritten.count]
          rcases hN with rfl | rfl | rfl | rfl <;> first | rfl | omega
        rw [hbytes] at hheader
        rw [hzero, List.replicate_zero, List.nil_append] at hroom
        have hafter := appendPayload_reth_narrow [] [] [] [] [] hp.append hinfo
          hheader hfull hroom (Nat.not_lt.mp hwide)
        rw [List.append_nil, List.append_nil] at hafter
        exact hafter
    have happend : Rests appendPayload [] p.append
        ⟨gos.flatMap (·.packetInfoFifo), (gos.flatMap (·.output)).map (exhWord ev.opCode), [], ros.flatten,
          payloadFor ev .raw mem⟩ os t ⟨[], [], [], [], []⟩ := by
      rw [hwritten.infos, hfor, if_neg (by decide)]
      exact ⟨hrun, appendPayload_idle ht⟩
    exact transmits_packet bth hN hp gen (shift_unused mem hkind (by decide) hp.aethShift) hreth happend hpacket

end

/-! ## Declared and emitted -/

section

variable {p q q' : TxPath N} {ev : Event} {msnMeta : TxMsnRsp} {bth : BitVec BTH_SIZE} {mem : List (Word N)}
  {kind : ExhKind} {sent sent' : Sent N}

theorem transmits_exists (msnMeta : TxMsnRsp) (bth : BitVec BTH_SIZE) (hN : Supported N) (hp : p.Idle) (hkind : exhKind ev.opCode = some kind)
    (hmem : Delivered mem (payloadLength ev)) :
    ∃ sent q, Transmits p ev msnMeta bth mem sent q ∧ q.gen.geState = .META ∧
      sent.lengthFifo = [(BitVec.ofNat 32 (12 + exhSize kind + 4) + declaredPayload ev).setWidth 16] ∧
      sent.packetInfoFifo = [packetInfo ev kind] ∧ (sent.packet.flatMap Word.bytes).length = emitted N ev kind := by
  obtain ⟨gos, g, hrun, hg, hwritten⟩ := generateExh_packet hN hp.gen hkind msnMeta [] []
  have gen : Rests (generateExh (8 * N)) {} p.gen ⟨[ev], [msnMeta]⟩ gos g ⟨[], []⟩ := ⟨hrun, generateExh_idle hg⟩
  rw [← hwritten.lengths, ← hwritten.infos]
  rcases hmem with ⟨hempty, rfl⟩ | ⟨hpos, bs, hlen, hmem⟩
  · obtain ⟨sent, q, h, hq, hl, hi, hbytes⟩ := transmits_empty bth hN hp hkind gen hwritten hempty
    exact ⟨sent, q, h, hq ▸ hg, hl, hi, hbytes⟩
  · have hloaded : payloadLength ev ≠ 0 := Nat.pos_iff_ne_zero.mp hpos
    obtain ⟨sent, q, h, hq, hl, hi, hbytes⟩ := transmits_loaded bth hN hp hkind gen hwritten hloaded hmem
    refine ⟨sent, q, h, hq ▸ hg, hl, hi, ?_⟩
    unfold emitted
    rw [if_neg hloaded, hbytes, List.length_append, List.length_append, length_octets, length_exhBytes, hlen,
      Nat.add_assoc]

/-- And in one way. -/
theorem Transmits.unique (h : Transmits p ev msnMeta bth mem sent q) (h' : Transmits p ev msnMeta bth mem sent' q') :
    sent = sent' ∧ q = q' := by
  cases h with
  | @intro _ gos gi aos ros pos pi bos os oi gen aeth reth append shift prepend =>
  cases h' with
  | @intro _ gos' gi' aos' ros' pos' pi' bos' os' oi' gen' aeth' reth' append' shift' prepend' =>
  obtain ⟨hlength, hgen, -⟩ := gen.unique (g := (·.lengthFifo)) rfl gen'
  obtain ⟨hinfo, -⟩ := gen.unique (g := (·.packetInfoFifo)) rfl gen'
  obtain ⟨hout, -⟩ := gen.unique (g := (·.output)) rfl gen'
  obtain ⟨haos, ha, -⟩ := aeth.unique (g := id) rfl aeth'
  obtain ⟨hros, hr, -⟩ := reth.unique (g := id) rfl reth'
  rw [List.flatMap_id, List.flatMap_id] at haos hros
  rw [← hinfo, ← hout, ← haos, ← hros] at append'
  obtain ⟨hpos, happend, -⟩ := append.unique (g := id) rfl append'
  rw [List.flatMap_id, List.flatMap_id] at hpos
  rw [← hpos] at shift'
  obtain ⟨hbos, hb, -⟩ := shift.unique (g := id) rfl shift'
  rw [List.flatMap_id, List.flatMap_id] at hbos
  rw [← hbos] at prepend'
  obtain ⟨hos, hh, -⟩ := prepend.unique (g := id) rfl prepend'
  rw [List.flatMap_id, List.flatMap_id] at hos
  refine ⟨by rw [hlength, hinfo, hos], ?_⟩
  cases q
  cases q'
  simp_all only

theorem toNat_declaredPayload :
    (declaredPayload ev).toNat = if ev.opCode = RC_RDMA_WRITE_FIRST then PMTU else payloadLength ev := by
  unfold declaredPayload payloadLength
  split
  · rfl
  · cases takesPayload ev.opCode <;> rfl

theorem toNat_length (hsmall : takesPayload ev.opCode = true → ev.length.toNat ≤ PMTU) :
    ((BitVec.ofNat 32 (12 + exhSize kind + 4) + declaredPayload ev).setWidth 16).toNat =
      12 + exhSize kind + 4 + (declaredPayload ev).toNat := by
  have hpayload : (declaredPayload ev).toNat ≤ PMTU := by
    rw [toNat_declaredPayload]
    unfold payloadLength
    split
    · exact Nat.le_refl _
    · split
      · next htakes => exact hsmall htakes
      · exact Nat.zero_le _
  have hsize : exhSize kind ≤ 16 := by cases kind <;> decide
  unfold PMTU at hpayload
  rw [BitVec.toNat_setWidth, BitVec.toNat_add, BitVec.toNat_ofNat]
  omega

theorem takesPayload_raw (h : exhKind ev.opCode = some .raw) :
    takesPayload ev.opCode = true ∧ ev.opCode ≠ RC_RDMA_WRITE_FIRST := by
  cases hop : ev.opCode <;> rw [hop] at h <;> first | (constructor <;> decide) | cases h

theorem ne_writeFirst_aeth (h : exhKind ev.opCode = some .aeth) : ev.opCode ≠ RC_RDMA_WRITE_FIRST := by
  intro hop
  rw [hop] at h
  cases h

/-- Both lengths are the same for the packets of `agrees`. -/
theorem emitted_eq_iff (hN : Supported N) (hkind : exhKind ev.opCode = some kind) :
    emitted N ev kind + 4 = 12 + exhSize kind + 4 + (declaredPayload ev).toNat ↔ agrees N ev = true := by
  have hempty : payloadLength ev ≠ 0 ↔ takesPayload ev.opCode = true ∧ ev.length ≠ 0 := by
    unfold payloadLength
    cases takesPayload ev.opCode
    · simp
    · simp [← BitVec.toNat_inj]
  rw [toNat_declaredPayload]
  unfold emitted agrees
  rw [hkind]
  cases kind with
  | raw =>
    obtain ⟨htakes, hop⟩ := takesPayload_raw hkind
    rw [if_neg hop, bne_iff_ne, ← (and_iff_right htakes : _ ↔ ev.length ≠ 0), ← hempty]
    by_cases hpayload : payloadLength ev = 0
    · rw [if_pos hpayload, hpayload]
      show (if N = 8 then 8 else 0) + 4 = 12 + 0 + 4 + 0 ↔ _
      split <;> omega
    · rw [if_neg hpayload]
      exact iff_of_true (by show 12 + 0 + payloadLength ev + 4 = 12 + 0 + 4 + payloadLength ev; omega) hpayload
  | aeth =>
    rw [if_neg (ne_writeFirst_aeth hkind)]
    refine iff_of_true ?_ rfl
    show (if payloadLength ev = 0 then 12 + 4 else 12 + 4 + payloadLength ev) + 4 = 12 + 4 + 4 + payloadLength ev
    split <;> omega
  | reth =>
    rw [Bool.and_eq_true, Bool.or_eq_true, Bool.or_eq_true, Bool.and_eq_true, bne_iff_ne, bne_iff_ne, ← hempty,
      decide_eq_true_eq, beq_iff_eq]
    show (if payloadLength ev = 0 then 12 + max 16 N else 12 + 16 + payloadLength ev) + 4 = 12 + 16 + 4 + _ ↔ _
    by_cases hop : ev.opCode = RC_RDMA_WRITE_FIRST
    · have hlen : ev.length = BitVec.ofNat 32 PMTU ↔ payloadLength ev = PMTU := by
        unfold payloadLength
        rw [hop, ← BitVec.toNat_inj]
        rfl
      rw [if_pos hop, hlen]
      unfold PMTU
      split <;> rcases hN with rfl | rfl | rfl | rfl <;> simp [hop] <;> omega
    · rw [if_neg hop]
      split <;> simp [hop] <;> omega

/-- What goes out for an event is determined, and its length is the declared one for the packets of `agrees`. -/
theorem packet_lengths_agree (hN : Supported N) (hp : p.Idle) (hkind : exhKind ev.opCode = some kind)
    (hsmall : takesPayload ev.opCode = true → ev.length.toNat ≤ PMTU) (hmem : Delivered mem (payloadLength ev)) :
    (∃ sent q, Transmits p ev msnMeta bth mem sent q) ∧
      ∀ sent q, Transmits p ev msnMeta bth mem sent q → (Agree sent q ↔ agrees N ev = true) := by
  obtain ⟨sent, q, h, hq, hlen, hinfo, hbytes⟩ := transmits_exists msnMeta bth hN hp hkind hmem
  refine ⟨⟨sent, q, h⟩, fun sent' q' h' => ?_⟩
  obtain ⟨rfl, rfl⟩ := h.unique h'
  rw [← emitted_eq_iff hN hkind, ← toNat_length hsmall, ← hbytes]
  constructor
  · rintro ⟨⟨len, hl, hagree⟩, -, -⟩
    rw [hlen, List.singleton_inj] at hl
    rw [hl]
    exact hagree
  · intro hagree
    exact ⟨⟨_, hlen, hagree⟩, by rw [hinfo]; rfl, hq⟩

end

/-- A packet of four bytes, and words of 512 bits. -/
theorem packet_lengths_agree_four :
    (∃ sent q, Transmits ({} : TxPath 64) { opCode := RC_RDMA_WRITE_ONLY, qpn := 3, length := 4 } ⟨0, 0⟩ 0
      [⟨[.kept 1, .kept 2, .kept 3, .kept 4] ++ List.replicate 60 ({} : Lane), true, rfl⟩] sent q) ∧
    ∀ sent q, Transmits ({} : TxPath 64) { opCode := RC_RDMA_WRITE_ONLY, qpn := 3, length := 4 } ⟨0, 0⟩ 0
      [⟨[.kept 1, .kept 2, .kept 3, .kept 4] ++ List.replicate 60 ({} : Lane), true, rfl⟩] sent q → (Agree sent q ↔
        agrees 64 { opCode := RC_RDMA_WRITE_ONLY, qpn := 3, length := 4 } = true) :=
  packet_lengths_agree (.inr (.inr (.inr rfl))) TxPath.idle_init (show exhKind RC_RDMA_WRITE_ONLY = some .reth from rfl)
    (by intro; decide)
    (.inr ⟨by decide, [1, 2, 3, 4], rfl, .last rfl ⟨_, rfl, Axi.unkept_replicate 60⟩⟩)

/-- A read request in words of 512 bits: 76 bytes go out, 28 bytes and a checksum are declared. -/
theorem read_request_filled : ∃ sent q,
    Transmits ({} : TxPath 64) { opCode := RC_RDMA_READ_REQUEST, qpn := 3, length := 64 } ⟨0, 0⟩ 0 [] sent q ∧
      sent.lengthFifo = [32] ∧ (sent.packet.flatMap Word.bytes).length = 76 ∧ ¬Agree sent q := by
  have hkind : exhKind ({ opCode := RC_RDMA_READ_REQUEST, qpn := 3, length := 64 } : Event).opCode = some .reth := rfl
  obtain ⟨sent, q, h, -, hlen, -, hbytes⟩ := transmits_exists (N := 64) ⟨0, 0⟩ 0 (.inr (.inr (.inr rfl))) TxPath.idle_init
    hkind (.inl ⟨rfl, rfl⟩)
  refine ⟨sent, q, h, hlen, hbytes, ?_⟩
  rintro ⟨⟨len, hl, hagree⟩, -, -⟩
  rw [hlen, List.singleton_inj] at hl
  rw [hbytes, ← hl] at hagree
  exact absurd hagree (by decide)

end FpgaNetworkStack.Roce
