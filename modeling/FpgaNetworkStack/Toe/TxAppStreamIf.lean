import FpgaNetworkStack.Toe.RxEngine
import FpgaNetworkStack.Toe.RxMemWrite

/-!
# The transmit data interface (`tx_app_stream_if.cpp`)

`tasi_metaLoader` decides on a write request of the application, `tasi_pkg_pusher` cuts the data of an
accepted write at the end of the ring buffer.
-/

namespace FpgaNetworkStack.Toe

variable (b : Build)

/-! ## `tasi_metaLoader` -/

def noError : BitVec 2 := 0
def errorNoConnection : BitVec 2 := 1
def errorNoSpace : BitVec 2 := 2

inductive TaiState where
  | READ_REQUEST | READ_META
  deriving DecidableEq, Repr

structure TasiMetaLoader where
  taiState : TaiState
  tasiWriteMeta : AppTxMeta
  deriving DecidableEq

def TasiMetaLoader.init : TasiMetaLoader := ⟨.READ_REQUEST, default⟩

structure TasiMetaLoaderIn where
  appTxDataReqMetaData : List AppTxMeta := []
  stateTable2txAppRsp : List SessionState := []
  txSar2txAppUpdRsp : List (TxAppTxSarReply b) := []

structure TasiMetaLoaderOut where
  appTxDataRsp : List AppTxRsp := []
  txApp2stateTableReq : List SessionID := []
  txApp2txSarUpdReq : List (TxAppTxSarQuery b) := []
  tasiMeta2pkgPushCmd : List MmCmd := []
  txAppStream2eventEngSetEvent : List (Event b) := []

variable {b}

def TxAppTxSarQuery.read (id : SessionID) : TxAppTxSarQuery b := ⟨id, 0, false⟩

def TxAppTxSarQuery.update (id : SessionID) (mempt : BitVec b.windowBits) : TxAppTxSarQuery b :=
  ⟨id, mempt, true⟩

namespace TxAppTxSarReply

variable (writeSar : TxAppTxSarReply b)

def maxWriteLength : BitVec b.windowBits := (writeSar.ackd - writeSar.mempt) - 1

def usedLength : BitVec b.windowBits := writeSar.mempt - writeSar.ackd

def usableWindow : BitVec b.windowBits :=
  if writeSar.usedLength.toNat < writeSar.minWindow.toNat then
    writeSar.minWindow - writeSar.usedLength
  else 0

/-- There is no room for `length` bytes; with `TCP_NODELAY` the window of the peer counts too. -/
def noSpace (length : BitVec 16) : Bool :=
  decide (writeSar.maxWriteLength.toNat < length.toNat) ||
    b.tcpNodelay && decide (writeSar.usableWindow.toNat < length.toNat)

end TxAppTxSarReply

/-- The answer to request `m`, and what an accepted write causes. -/
def tasiAnswer (m : AppTxMeta) (state : SessionState) (writeSar : TxAppTxSarReply b) :
    TasiMetaLoaderOut b :=
  let rsp (space : BitVec b.windowBits) (error : BitVec 2) : AppTxRsp :=
    ⟨m.sessionID, m.length, space.setWidth 30, error⟩
  if state ≠ .ESTABLISHED then
    { appTxDataRsp := [rsp writeSar.maxWriteLength errorNoConnection] }
  else if writeSar.noSpace m.length then
    { appTxDataRsp :=
        [rsp (if b.tcpNodelay then writeSar.usableWindow else writeSar.maxWriteLength) errorNoSpace] }
  else
    { tasiMeta2pkgPushCmd := [.new (pkgAddr b m.sessionID writeSar.mempt) m.length]
      appTxDataRsp := [rsp writeSar.maxWriteLength noError]
      txAppStream2eventEngSetEvent :=
        [{ type := .TX, sessionID := m.sessionID, address := writeSar.mempt, length := m.length }]
      txApp2txSarUpdReq := [.update m.sessionID (writeSar.mempt + m.length.setWidth _)] }

variable (b)

def tasiMetaLoader (s : TasiMetaLoader) (i : TasiMetaLoaderIn b) :
    TasiMetaLoader × TasiMetaLoaderIn b × TasiMetaLoaderOut b :=
  match s.taiState with
  | .READ_REQUEST =>
    match i.appTxDataReqMetaData with
    | [] => (s, i, {})
    | m :: rest =>
      (⟨.READ_META, m⟩, { i with appTxDataReqMetaData := rest },
        { txApp2stateTableReq := [m.sessionID], txApp2txSarUpdReq := [.read m.sessionID] })
  | .READ_META =>
    match i.txSar2txAppUpdRsp, i.stateTable2txAppRsp with
    | writeSar :: sars, state :: states =>
      ({ s with taiState := .READ_REQUEST },
        { i with txSar2txAppUpdRsp := sars, stateTable2txAppRsp := states },
        tasiAnswer s.tasiWriteMeta state writeSar)
    | _, _ => (s, i, {})

/-! ## `tasi_pkg_pusher` -/

variable (W : Nat)

inductive TasiPkgPushState where
  | IDLE | IMPROVE_TIMING | CUT_FIRST | ALIGN_SECOND | FWD_ALIGNED | RESIDUE
  deriving DecidableEq, Repr

structure TasiPkgPusher where
  tasiPkgPushState : TasiPkgPushState
  cmd : MmCmd
  remainingLength : BitVec b.windowBits
  lengthFirstPkg : BitVec b.windowBits
  offset : Nat
  prevWord : AxiWord W
  deriving DecidableEq

/-- Static initialisation; what is uninitialised there is zero here. -/
def TasiPkgPusher.init : TasiPkgPusher b W := ⟨.IDLE, ⟨0, 0⟩, 0, 0, 0, ⟨0, 0, false⟩⟩

structure TasiPkgPusherIn where
  tasiMeta2pkgPushCmd : List MmCmd := []
  appTxDataIn : List (AxiWord W) := []

structure TasiPkgPusherOut where
  txBufferWriteCmd : List MmCmd := []
  txBufferWriteData : List (AxiWord W) := []

variable {b W}

/-- The bytes of `prevWord` from `offset` on, filled up with those of `currWord`; the caller sets `last`. -/
def alignWords (offset : Nat) (prevWord currWord : AxiWord W) : AxiWord W :=
  { data := (currWord.data <<< (8 * (W - offset))) ||| (prevWord.data >>> (8 * offset))
    keep := (currWord.keep <<< (W - offset)) ||| (prevWord.keep >>> offset)
    last := false }

/-- The command reaches beyond the end of the buffer. -/
def MmCmd.crosses (cmd : MmCmd) : Bool :=
  decide (b.bufferSize < (cmd.saddr.setWidth b.windowBits).toNat + cmd.bbt.toNat)

/-- `BUFFER_SIZE - saddr`, of which the low bits are kept. -/
def MmCmd.lengthFirst (cmd : MmCmd) : BitVec b.windowBits :=
  BitVec.ofNat _ b.bufferSize - cmd.saddr.setWidth _

/-- The command for the part of the data that goes to the beginning of the buffer. -/
def MmCmd.second (cmd : MmCmd) (lengthFirstPkg : BitVec b.windowBits) : MmCmd :=
  ⟨cmd.bbt - lengthFirstPkg.setWidth _,
    cmd.saddr - (cmd.saddr.setWidth b.windowBits).setWidth 32⟩

/-- One call of `tasi_pkg_pusher`; state RESIDUE reads `emptyWord`, which is not initialised. -/
def tasiPkgPusher (emptyWord : AxiWord W) (s : TasiPkgPusher b W) (i : TasiPkgPusherIn W) :
    TasiPkgPusher b W × TasiPkgPusherIn W × TasiPkgPusherOut W :=
  match s.tasiPkgPushState with
  | .IDLE =>
    match i.tasiMeta2pkgPushCmd with
    | [] => (s, i, {})
    | cmd :: rest =>
      ({ s with tasiPkgPushState := .IMPROVE_TIMING, cmd }, { i with tasiMeta2pkgPushCmd := rest }, {})
  | .IMPROVE_TIMING =>
    if s.cmd.crosses (b := b) then
      let lengthFirstPkg : BitVec b.windowBits := s.cmd.lengthFirst
      ({ s with
          tasiPkgPushState := .CUT_FIRST, lengthFirstPkg, remainingLength := lengthFirstPkg
          offset := lengthFirstPkg.toNat % W }, i,
        { txBufferWriteCmd := [.new s.cmd.saddr (lengthFirstPkg.setWidth 16)] })
    else ({ s with tasiPkgPushState := .FWD_ALIGNED }, i, { txBufferWriteCmd := [s.cmd] })
  | .CUT_FIRST =>
    match i.appTxDataIn with
    | [] => (s, i, {})
    | word :: rest =>
      let i := { i with appTxDataIn := rest }
      let s := { s with prevWord := word }
      let second : MmCmd := s.cmd.second s.lengthFirstPkg
      if W < s.remainingLength.toNat then
        ({ s with remainingLength := s.remainingLength - BitVec.ofNat _ W }, i,
          { txBufferWriteData := [word] })
      else if s.remainingLength.toNat = W then
        ({ s with tasiPkgPushState := .FWD_ALIGNED, cmd := second }, i,
          { txBufferWriteCmd := [second], txBufferWriteData := [{ word with last := true }] })
      else
        ({ s with
            tasiPkgPushState := if word.last then .RESIDUE else .ALIGN_SECOND, cmd := second }, i,
          { txBufferWriteCmd := [second]
            txBufferWriteData :=
              [{ word with keep := lenToKeep W s.remainingLength.toNat, last := true }] })
  | .FWD_ALIGNED =>
    match i.appTxDataIn with
    | [] => (s, i, {})
    | word :: rest =>
      ({ s with tasiPkgPushState := if word.last then .IDLE else .FWD_ALIGNED },
        { i with appTxDataIn := rest }, { txBufferWriteData := [word] })
  | .ALIGN_SECOND =>
    match i.appTxDataIn with
    | [] => (s, i, {})
    | word :: rest =>
      let last := !word.keep.getLsbD s.offset
      ({ s with
          prevWord := word
          tasiPkgPushState :=
            if word.last then (if last then .IDLE else .RESIDUE) else .ALIGN_SECOND },
        { i with appTxDataIn := rest },
        { txBufferWriteData := [{ alignWords s.offset s.prevWord word with last }] })
  | .RESIDUE =>
    ({ s with tasiPkgPushState := .IDLE }, i,
      { txBufferWriteData := [{ alignWords s.offset s.prevWord emptyWord with last := true }] })

end FpgaNetworkStack.Toe
