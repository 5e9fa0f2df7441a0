import FpgaNetworkStack.Lib.Streams
import FpgaNetworkStack.Toe.Internals

/-!
# The options of a SYN (`rx_engine.cpp`)

`parse_optional_header_fields` looks for the window scale among the options of a segment, one option in a call, and
`merge_header_meta` puts it into the metadata of the segment.  The options are in a register of 320 bits of which
only the first words belong to the segment.
-/

namespace FpgaNetworkStack.Toe

/-- `rxEngineMetaData` with the data offset, which is read by the first processes of the receive path only. -/
structure RxHeaderMetaData extends RxEngineMetaData where
  dataOffset : BitVec 4
  deriving DecidableEq

/-! ## `parse_optional_header_fields` -/

inductive ParseState where
  | IDLE | PARSE
  deriving DecidableEq

structure ParseOptionalHeaderFields where
  state : ParseState := .IDLE
  dataOffset : BitVec 4 := 0
  fields : BitVec 320 := 0

structure ParseOptionalHeaderFieldsIn where
  dataOffsetIn : List (BitVec 4) := []
  optionalHeaderFieldsIn : List (BitVec 320) := []

def parseOptionalHeaderFields (s : ParseOptionalHeaderFields) (i : ParseOptionalHeaderFieldsIn) :
    ParseOptionalHeaderFields × ParseOptionalHeaderFieldsIn × List (BitVec 4) :=
  match s.state with
  | .IDLE =>
    match i.dataOffsetIn, i.optionalHeaderFieldsIn with
    | dataOffset :: offsets, fields :: rest => (⟨.PARSE, dataOffset, fields⟩, ⟨offsets, rest⟩, [])
    | _, _ => (s, i, [])
  | .PARSE =>
    let optionKind : BitVec 8 := s.fields.extractLsb' 0 8
    let optionLength : BitVec 8 := s.fields.extractLsb' 8 8
    let (state, optionLength, windowScaleOut) : ParseState × BitVec 8 × List (BitVec 4) :=
      if optionKind = 0 then (.IDLE, optionLength, [0])
      else if optionKind = 1 then (.PARSE, 1, [])
      else if optionKind = 3 then (.IDLE, optionLength, [s.fields.extractLsb' 16 4])
      else if s.dataOffset.toNat = optionLength.toNat then (.IDLE, optionLength, [0])
      else (.PARSE, optionLength, [])
    (⟨state, s.dataOffset - optionLength.setWidth 4, s.fields >>> (optionLength.toNat * 8)⟩, i, windowScaleOut)

/-! ## `merge_header_meta` -/

structure MergeHeaderMeta where
  state : BitVec 1 := 0
  headerMeta : Option RxHeaderMetaData := none

structure MergeHeaderMetaIn where
  rxEngWinScaleFifo : List (BitVec 4) := []
  rxEngHeaderMetaFifo : List RxHeaderMetaData := []

/-- The scale of the segment comes from its options. -/
def RxHeaderMetaData.hasScale (m : RxHeaderMetaData) : Bool := m.syn && decide (5 < m.dataOffset.toNat)

def RxHeaderMetaData.setWinScale (m : RxHeaderMetaData) (winScale : BitVec 4) : RxHeaderMetaData := { m with winScale }

def mergeHeaderMeta (s : MergeHeaderMeta) (i : MergeHeaderMetaIn) :
    MergeHeaderMeta × MergeHeaderMetaIn × List RxHeaderMetaData :=
  if s.state = 0 then
    match i.rxEngHeaderMetaFifo with
    | [] => (s, i, [])
    | m :: rest =>
      let i' := { i with rxEngHeaderMetaFifo := rest }
      if m.hasScale then (⟨1, some m⟩, i', [])
      else (⟨0, some (m.setWinScale 0)⟩, i', [m.setWinScale 0])
  else
    match i.rxEngWinScaleFifo, s.headerMeta with
    | winScale :: rest, some m =>
      (⟨0, some (m.setWinScale winScale)⟩, { i with rxEngWinScaleFifo := rest }, [m.setWinScale winScale])
    | _, _ => (s, i, [])

end FpgaNetworkStack.Toe
