import FpgaNetworkStack.Axi.Headers
import FpgaNetworkStack.Roce.TxHeaders

/-!
# Building a packet (`ib_transport_protocol.cpp`)

`append_payload` puts the payload behind the extended header and `prepend_ibh_header` the base header in front
of both.  The payload comes with room for the part of a header that does not fill a word.
-/

namespace FpgaNetworkStack.Roce

open IbOpCode
open Axi (Lane Word LShift lshiftWordByOctet octets overlay)
open Toe (NetAxis)

variable {N : Nat}

/-- The byte enables of a word of `generate_exh`: four bytes of an AETH, all bytes of a RETH. -/
def exhWord (opCode : IbOpCode) (x : NetAxis (BitVec (8 * N))) : Word N where
  lanes := (List.range N).map fun k => ⟨x.data.extractLsb' (8 * k) 8, !checkIfAethHeader opCode || decide (k < 4)⟩
  last := x.last
  length_eq := by rw [List.length_map, List.length_range]

/-! ## `append_payload` -/

inductive AppendState where
  | INFO | HEADER | AETH_PAYLOAD | RETH_PAYLOAD | RAW_PAYLOAD
  deriving DecidableEq, Repr

structure AppendPayload (N : Nat) where
  state : AppendState := .INFO
  prevWord : Word N := .zero
  firstPayload : Bool := true
  info : TxPacketInfo := ⟨false, false, false⟩

structure AppendPayloadIn (N : Nat) where
  packetInfoFifo : List TxPacketInfo := []
  headerFifo : List (Word N) := []
  aethPayloadFifo : List (Word N) := []
  rethPayloadFifo : List (Word N) := []
  rawPayloadFifo : List (Word N) := []

namespace AppendPayload

variable (s : AppendPayload N)

def header (prevWord : Word N) : AppendPayload N × List (Word N) :=
  if !prevWord.last then ({ s with prevWord }, [prevWord])
  else if !s.info.hasPayload then ({ s with prevWord, state := .INFO }, [prevWord])
  else
    let prevWord := { prevWord with last := false }
    if s.info.isAETH then ({ s with prevWord, state := .AETH_PAYLOAD }, [])
    else ({ s with prevWord, state := .RETH_PAYLOAD }, if 8 * N ≤ RETH_SIZE then [prevWord] else [])

/-- The first `n` bytes of the header go in front of the first word of the payload. -/
def payload (n : Nat) (merge : Bool) (currWord : Word N) : AppendPayload N × List (Word N) :=
  let sendWord :=
    if s.firstPayload && merge then overlay ((s.prevWord.lanes.take n).map (·.data)) currWord else currWord
  ({ s with
      firstPayload := s.firstPayload && !merge
      state := if currWord.last then .INFO else s.state },
    [sendWord])

end AppendPayload

def appendPayload (s : AppendPayload N) (i : AppendPayloadIn N) :
    AppendPayload N × AppendPayloadIn N × List (Word N) :=
  match s.state with
  | .INFO =>
    match i.packetInfoFifo with
    | [] => (s, i, [])
    | info :: rest =>
      ({ s with info, firstPayload := true, state := if info.hasHeader then .HEADER else .RAW_PAYLOAD },
        { i with packetInfoFifo := rest }, [])
  | .HEADER =>
    match i.headerFifo with
    | [] => (s, i, [])
    | prevWord :: rest => ((s.header prevWord).1, { i with headerFifo := rest }, (s.header prevWord).2)
  | .AETH_PAYLOAD =>
    match i.aethPayloadFifo with
    | [] => (s, i, [])
    | currWord :: rest =>
      ((s.payload 4 true currWord).1, { i with aethPayloadFifo := rest }, (s.payload 4 true currWord).2)
  | .RETH_PAYLOAD =>
    match i.rethPayloadFifo with
    | [] => (s, i, [])
    | currWord :: rest =>
      let merge := decide (RETH_SIZE < 8 * N)
      ((s.payload 16 merge currWord).1, { i with rethPayloadFifo := rest }, (s.payload 16 merge currWord).2)
  | .RAW_PAYLOAD =>
    match i.rawPayloadFifo with
    | [] => (s, i, [])
    | currWord :: rest =>
      ({ s with state := if currWord.last then .INFO else .RAW_PAYLOAD }, { i with rawPayloadFifo := rest },
        [currWord])

/-! ## `prepend_ibh_header` -/

inductive PihState where
  | GET_HEADER | HEADER | PARTIAL_HEADER | BODY
  deriving DecidableEq, Repr

structure PrependIbhHeader where
  state : PihState := .GET_HEADER
  header : BitVec BTH_SIZE := 0
  /-- Words of the header that were written. -/
  idx : Nat := 0
  validTx : BitVec 32 := 0

structure PrependIbhHeaderIn (N : Nat) where
  ibhHeaderFifo : List (BitVec BTH_SIZE) := []
  ibhPayloadFifo : List (Word N) := []

def PrependIbhHeader.consume (N : Nat) (s : PrependIbhHeader) : List (BitVec 8) :=
  ((octets 12 s.header).drop (s.idx * N)).take N

/-- One call of `prepend_ibh_header`; `regIbvCountTx` is `validTx`. -/
def prependIbhHeader (s : PrependIbhHeader) (i : PrependIbhHeaderIn N) :
    PrependIbhHeader × PrependIbhHeaderIn N × List (Word N) :=
  match s.state with
  | .GET_HEADER =>
    match i.ibhHeaderFifo with
    | [] => (s, i, [])
    | header :: rest =>
      ({ s with header, idx := 0, state := if 8 * N ≤ BTH_SIZE then .HEADER else .PARTIAL_HEADER },
        { i with ibhHeaderFifo := rest }, [])
  | .HEADER =>
    let full : Word N := ⟨List.replicate N ⟨0, true⟩, false, List.length_replicate⟩
    ({ s with
        idx := s.idx + 1
        state := if remainingLength (8 * N) BTH_SIZE s.idx < N then .PARTIAL_HEADER else .HEADER
        validTx := s.validTx + 1 },
      i, [overlay (s.consume N) full])
  | .PARTIAL_HEADER =>
    match i.ibhPayloadFifo with
    | [] => (s, i, [])
    | currWord :: rest =>
      ({ s with
          idx := s.idx + 1
          state := if currWord.last then .GET_HEADER else .BODY
          validTx := s.validTx + 1 },
        { i with ibhPayloadFifo := rest }, [overlay (s.consume N) currWord])
  | .BODY =>
    match i.ibhPayloadFifo with
    | [] => (s, i, [])
    | currWord :: rest =>
      ({ s with state := if currWord.last then .GET_HEADER else .BODY, validTx := s.validTx + 1 },
        { i with ibhPayloadFifo := rest }, [currWord])

end FpgaNetworkStack.Roce
