import FpgaNetworkStack.Toe.Internals

/-!
# Writing the receive buffer (`rx_engine.cpp`)

`rxEngMemWrite` splits a write command that passes the end of the session's buffer, together with its
packet; `rxAppNotificationDelayer` holds a notification back until the memory has acknowledged the
one or two writes of its payload.
-/

namespace FpgaNetworkStack.Toe

variable (b : Build) (W : Nat)

/-! ## `rxEngMemWrite` -/

/-- `net_axis<WIDTH>` of `W = WIDTH / 8` bytes. -/
structure AxiWord where
  data : BitVec (8 * W)
  keep : BitVec W
  last : Bool
  deriving DecidableEq, Inhabited

/-- `lenToKeep` of a 6-bit length, cut to the width of the word. -/
def lenToKeep (length : Nat) : BitVec W :=
  if length % 64 = 0 then BitVec.allOnes W else BitVec.ofNat W (2 ^ (length % 64) - 1)

inductive RxMemWrState where
  | IDLE | IDLE_REG | CUT_FIRST | ALIGN_SECOND | FWD_ALIGNED | RESIDUE
  deriving DecidableEq, Repr

structure RxEngMemWrite where
  rxMemWrState : RxMemWrState
  cmd : MmCmd
  remainingLength : BitVec b.windowBits
  lengthFirstPkg : BitVec b.windowBits
  offset : Nat
  prevWord : AxiWord W
  deriving DecidableEq

/-- Static initialisation; what is uninitialised there is zero here. -/
def RxEngMemWrite.init : RxEngMemWrite b W := ⟨.IDLE, ⟨0, 0⟩, 0, 0, 0, ⟨0, 0, false⟩⟩

structure RxEngMemWriteIn where
  cmdIn : List MmCmd := []
  dataIn : List (AxiWord W) := []

structure RxEngMemWriteOut where
  cmdOut : List MmCmd := []
  dataOut : List (AxiWord W) := []
  doubleAccess : List Bool := []

/-- The write passes the end of the buffer. -/
def crosses (cmd : MmCmd) : Bool :=
  decide (b.bufferSize < (cmd.saddr.setWidth b.windowBits).toNat + cmd.bbt.toNat)

/-- The second half of a command that is split after `first` bytes. -/
def secondCmd (cmd : MmCmd) (first : BitVec b.windowBits) : MmCmd :=
  { saddr := (cmd.saddr >>> b.windowBits) <<< b.windowBits
    bbt := cmd.bbt - first.setWidth 23 }

variable {W} in
/-- The bytes of `prev` from `offset` on, filled up with those of `curr`. -/
def AxiWord.align (prev curr : AxiWord W) (offset : Nat) : AxiWord W :=
  { data := (curr.data <<< (8 * (W - offset))) ||| (prev.data >>> (8 * offset))
    keep := (curr.keep <<< (W - offset)) ||| (prev.keep >>> offset)
    last := !curr.keep.getLsbD offset }

variable {W} in
/-- The bytes of `prev` from `offset` on. -/
def AxiWord.residue (prev : AxiWord W) (offset : Nat) : AxiWord W :=
  { data := prev.data >>> (8 * offset), keep := prev.keep >>> offset, last := true }

def rxEngMemWrite (s : RxEngMemWrite b W) (i : RxEngMemWriteIn W) :
    RxEngMemWrite b W × RxEngMemWriteIn W × RxEngMemWriteOut W :=
  match s.rxMemWrState with
  | .IDLE =>
    match i.cmdIn with
    | [] => (s, i, {})
    | cmd :: rest => ({ s with cmd, rxMemWrState := .IDLE_REG }, { i with cmdIn := rest }, {})
  | .IDLE_REG =>
    if crosses b s.cmd then
      let first : BitVec b.windowBits := -(s.cmd.saddr.setWidth _)
      ({ s with
          lengthFirstPkg := first, remainingLength := first, offset := first.toNat % W
          rxMemWrState := .CUT_FIRST },
        i, { doubleAccess := [true], cmdOut := [.new s.cmd.saddr (first.setWidth 16)] })
    else
      ({ s with rxMemWrState := .FWD_ALIGNED }, i, { doubleAccess := [false], cmdOut := [s.cmd] })
  | .CUT_FIRST =>
    match i.dataIn with
    | [] => (s, i, {})
    | word :: rest =>
      let i := { i with dataIn := rest }
      let second := secondCmd b s.cmd s.lengthFirstPkg
      if W < s.remainingLength.toNat then
        ({ s with prevWord := word, remainingLength := s.remainingLength - BitVec.ofNat _ W }, i,
          { dataOut := [word] })
      else if s.remainingLength.toNat = W then
        ({ s with prevWord := word, cmd := second, rxMemWrState := .FWD_ALIGNED }, i,
          { dataOut := [{ word with last := true }], cmdOut := [second] })
      else
        ({ s with
            prevWord := word, cmd := second
            rxMemWrState := if word.last then .RESIDUE else .ALIGN_SECOND },
          i,
          { dataOut := [{ word with keep := lenToKeep W s.remainingLength.toNat, last := true }]
            cmdOut := [second] })
  | .FWD_ALIGNED =>
    match i.dataIn with
    | [] => (s, i, {})
    | word :: rest =>
      ({ s with rxMemWrState := if word.last then .IDLE else .FWD_ALIGNED },
        { i with dataIn := rest }, { dataOut := [word] })
  | .ALIGN_SECOND =>
    match i.dataIn with
    | [] => (s, i, {})
    | word :: rest =>
      let send := s.prevWord.align word s.offset
      ({ s with
          prevWord := word
          rxMemWrState :=
            if word.last then (if send.last then .IDLE else .RESIDUE) else .ALIGN_SECOND },
        { i with dataIn := rest }, { dataOut := [send] })
  | .RESIDUE =>
    ({ s with rxMemWrState := .IDLE }, i, { dataOut := [s.prevWord.residue s.offset] })

/-! ## `rxAppNotificationDelayer` -/

/-- The second status is read and used in one call and is no state. -/
structure RxAppNotificationDelayer where
  randNotificationBuffer : List AppNotification
  rxAppNotificationDoubleAccessFlag : Bool
  randFifoCount : BitVec 5
  rxAppNotificationStatus1 : Bool
  rxAppNotification : AppNotification
  deriving DecidableEq

def RxAppNotificationDelayer.init : RxAppNotificationDelayer := ⟨[], false, 0, false, ⟨0, 0, 0, 0, false⟩⟩

/-- A status is read only for its bit `okay`. -/
structure RxAppNotificationDelayerIn where
  rxWriteStatusIn : List Bool
  internalNotificationFifoIn : List AppNotification
  doubleAccess : List Bool

/-- The session is closed and there is no payload to wait for. -/
def AppNotification.bypasses (n : AppNotification) : Bool := n.closed && n.length == 0

def rxAppNotificationDelayer (s : RxAppNotificationDelayer) (i : RxAppNotificationDelayerIn) :
    RxAppNotificationDelayer × RxAppNotificationDelayerIn × List AppNotification :=
  if s.rxAppNotificationDoubleAccessFlag then
    match i.rxWriteStatusIn with
    | [] => (s, i, [])
    | status2 :: statuses =>
      ({ s with randFifoCount := s.randFifoCount - 1, rxAppNotificationDoubleAccessFlag := false },
        { i with rxWriteStatusIn := statuses },
        if s.rxAppNotificationStatus1 && status2 && s.rxAppNotification.length != 0 then
          [s.rxAppNotification]
        else [])
  else
    match i.rxWriteStatusIn, s.randNotificationBuffer, i.doubleAccess with
    | status1 :: statuses, n :: buffer, double :: flags =>
      ({ randNotificationBuffer := buffer, rxAppNotificationDoubleAccessFlag := double
         randFifoCount := if double then s.randFifoCount else s.randFifoCount - 1
         rxAppNotificationStatus1 := status1, rxAppNotification := n },
        { i with rxWriteStatusIn := statuses, doubleAccess := flags },
        if !double && status1 && n.length != 0 then [n] else [])
    | _, _, _ =>
      match i.internalNotificationFifoIn with
      | [] => (s, i, [])
      | n :: notifications =>
        if s.randFifoCount.toNat < 31 then
          if n.bypasses then
            ({ s with rxAppNotification := n },
              { i with internalNotificationFifoIn := notifications }, [n])
          else
            ({ s with
                rxAppNotification := n
                randNotificationBuffer := s.randNotificationBuffer ++ [n]
                randFifoCount := s.randFifoCount + 1 },
              { i with internalNotificationFifoIn := notifications }, [])
        else (s, i, [])

variable {b W}

/-! ## What a call does -/

/-- The command that has been read and not yet issued. -/
def RxEngMemWrite.held (s : RxEngMemWrite b W) : List MmCmd :=
  match s.rxMemWrState with
  | .IDLE_REG => [s.cmd]
  | _ => []

/-- A split command is half issued. -/
def RxEngMemWrite.owed (s : RxEngMemWrite b W) : Nat :=
  match s.rxMemWrState with
  | .CUT_FIRST => 1
  | _ => 0

/-- A call reads a command, issues it or its first half, issues the second half, or handles data. -/
inductive MemWrote (s : RxEngMemWrite b W) (i : RxEngMemWriteIn W) :
    RxEngMemWrite b W × RxEngMemWriteIn W × RxEngMemWriteOut W → Prop
  | data {s' i' out} (hcmd : i'.cmdIn = i.cmdIn) (hheld : s'.held = s.held) (howed : s'.owed = s.owed)
      (hout : out.cmdOut = []) (hflag : out.doubleAccess = []) : MemWrote s i (s', i', out)
  | read {s' i' out} (c : MmCmd) (hcmd : i.cmdIn = c :: i'.cmdIn) (hheld : s.held = []) (hheld' : s'.held = [c])
      (howed : s.owed = 0) (howed' : s'.owed = 0) (hout : out.cmdOut = []) (hflag : out.doubleAccess = []) :
      MemWrote s i (s', i', out)
  | issue {s' i' out} (c c' : MmCmd) (hcmd : i'.cmdIn = i.cmdIn) (hheld : s.held = [c]) (hheld' : s'.held = [])
      (howed : s.owed = 0) (howed' : s'.owed = if crosses b c then 1 else 0) (hout : out.cmdOut = [c'])
      (hflag : out.doubleAccess = [crosses b c]) : MemWrote s i (s', i', out)
  | second {s' i' out} (c' : MmCmd) (hcmd : i'.cmdIn = i.cmdIn) (hheld : s.held = []) (hheld' : s'.held = [])
      (howed : s.owed = 1) (howed' : s'.owed = 0) (hout : out.cmdOut = [c']) (hflag : out.doubleAccess = []) :
      MemWrote s i (s', i', out)

theorem memWrote (s : RxEngMemWrite b W) (i : RxEngMemWriteIn W) : MemWrote s i (rxEngMemWrite b W s i) := by
  unfold rxEngMemWrite
  cases hs : s.rxMemWrState with
  | IDLE =>
    cases hc : i.cmdIn with
    | nil => exact .data rfl rfl rfl rfl rfl
    | cons c rest =>
      exact .read c hc (by simp [RxEngMemWrite.held, hs]) rfl (by simp [RxEngMemWrite.owed, hs]) rfl rfl rfl
  | IDLE_REG =>
    have hheld : s.held = [s.cmd] := by simp [RxEngMemWrite.held, hs]
    have howed : s.owed = 0 := by simp [RxEngMemWrite.owed, hs]
    dsimp only
    split
    · next hx => exact .issue s.cmd _ rfl hheld rfl howed (by rw [hx]; rfl) rfl (by rw [hx])
    · next hx =>
        have hx : crosses b s.cmd = false := by simpa using hx
        exact .issue s.cmd _ rfl hheld rfl howed (by rw [hx]; rfl) rfl (by rw [hx])
  | CUT_FIRST =>
    have hheld : s.held = [] := by simp [RxEngMemWrite.held, hs]
    have howed : s.owed = 1 := by simp [RxEngMemWrite.owed, hs]
    cases hd : i.dataIn with
    | nil => exact .data rfl rfl rfl rfl rfl
    | cons word rest =>
      dsimp only
      split
      · refine .data rfl ?_ ?_ rfl rfl
        · rw [hheld]
          simp [RxEngMemWrite.held]
        · rw [howed]
          simp [RxEngMemWrite.owed]
      · split
        · exact .second _ rfl hheld rfl howed rfl rfl rfl
        · refine .second _ rfl hheld ?_ howed ?_ rfl rfl
          · cases word.last <;> rfl
          · cases word.last <;> rfl
  | FWD_ALIGNED =>
    cases hd : i.dataIn with
    | nil => exact .data rfl rfl rfl rfl rfl
    | cons word rest =>
      refine .data rfl ?_ ?_ rfl rfl
      · simp only [RxEngMemWrite.held, hs]
        cases word.last <;> rfl
      · simp only [RxEngMemWrite.owed, hs]
        cases word.last <;> rfl
  | ALIGN_SECOND =>
    cases hd : i.dataIn with
    | nil => exact .data rfl rfl rfl rfl rfl
    | cons word rest =>
      dsimp only
      refine .data rfl ?_ ?_ rfl rfl
      · simp only [RxEngMemWrite.held, hs]
        cases word.last <;> cases (s.prevWord.align word s.offset).last <;> rfl
      · simp only [RxEngMemWrite.owed, hs]
        cases word.last <;> cases (s.prevWord.align word s.offset).last <;> rfl
  | RESIDUE =>
    refine .data rfl ?_ ?_ rfl rfl
    · simp only [RxEngMemWrite.held, hs]
    · simp only [RxEngMemWrite.owed, hs]

/-- A call does nothing, judges a half acknowledged or a buffered notification, or takes a new one. -/
inductive Delayed (s : RxAppNotificationDelayer) (i : RxAppNotificationDelayerIn) :
    RxAppNotificationDelayer × RxAppNotificationDelayerIn × List AppNotification → Prop
  | idle (h : s.rxAppNotificationDoubleAccessFlag = true ∧ i.rxWriteStatusIn = [] ∨
      s.rxAppNotificationDoubleAccessFlag = false ∧
        (i.rxWriteStatusIn = [] ∨ s.randNotificationBuffer = [] ∨ i.doubleAccess = []) ∧
        (i.internalNotificationFifoIn = [] ∨ ¬ s.randFifoCount.toNat < 31)) : Delayed s i (s, i, [])
  | second (status2 : Bool) (statuses : List Bool) (hflag : s.rxAppNotificationDoubleAccessFlag = true)
      (hstatus : i.rxWriteStatusIn = status2 :: statuses) :
      Delayed s i
        ({ s with randFifoCount := s.randFifoCount - 1, rxAppNotificationDoubleAccessFlag := false },
          { i with rxWriteStatusIn := statuses },
          if s.rxAppNotificationStatus1 && status2 && s.rxAppNotification.length != 0 then
            [s.rxAppNotification]
          else [])
  | first (status1 : Bool) (statuses : List Bool) (n : AppNotification) (buffer : List AppNotification)
      (double : Bool) (flags : List Bool) (hflag : s.rxAppNotificationDoubleAccessFlag = false)
      (hstatus : i.rxWriteStatusIn = status1 :: statuses) (hbuffer : s.randNotificationBuffer = n :: buffer)
      (hflags : i.doubleAccess = double :: flags) :
      Delayed s i
        ({ randNotificationBuffer := buffer, rxAppNotificationDoubleAccessFlag := double
           randFifoCount := if double then s.randFifoCount else s.randFifoCount - 1
           rxAppNotificationStatus1 := status1, rxAppNotification := n },
          { i with rxWriteStatusIn := statuses, doubleAccess := flags },
          if !double && status1 && n.length != 0 then [n] else [])
  | forward (n : AppNotification) (notifications : List AppNotification)
      (hflag : s.rxAppNotificationDoubleAccessFlag = false)
      (hnotification : i.internalNotificationFifoIn = n :: notifications) (hn : n.bypasses = true)
      (hwait : i.rxWriteStatusIn = [] ∨ s.randNotificationBuffer = [] ∨ i.doubleAccess = [])
      (hcount : s.randFifoCount.toNat < 31) :
      Delayed s i
        ({ s with rxAppNotification := n }, { i with internalNotificationFifoIn := notifications }, [n])
  | buffer (n : AppNotification) (notifications : List AppNotification)
      (hflag : s.rxAppNotificationDoubleAccessFlag = false)
      (hnotification : i.internalNotificationFifoIn = n :: notifications) (hn : n.bypasses = false)
      (hcount : s.randFifoCount.toNat < 31) :
      Delayed s i
        ({ s with
            rxAppNotification := n, randNotificationBuffer := s.randNotificationBuffer ++ [n]
            randFifoCount := s.randFifoCount + 1 },
          { i with internalNotificationFifoIn := notifications }, [])

theorem delayed (s : RxAppNotificationDelayer) (i : RxAppNotificationDelayerIn) :
    Delayed s i (rxAppNotificationDelayer s i) := by
  unfold rxAppNotificationDelayer
  split
  · next hflag =>
      split
      · next hstatus => exact .idle (.inl ⟨hflag, hstatus⟩)
      · next status2 statuses hstatus => exact .second status2 statuses hflag hstatus
  · next hflag =>
      have hflag : s.rxAppNotificationDoubleAccessFlag = false := by simpa using hflag
      split
      · next status1 statuses n buffer double flags hstatus hbuffer hflags =>
          exact .first status1 statuses n buffer double flags hflag hstatus hbuffer hflags
      · next hnone =>
          have hwait : i.rxWriteStatusIn = [] ∨ s.randNotificationBuffer = [] ∨ i.doubleAccess = [] := by
            by_contra hall
            simp only [not_or] at hall
            obtain ⟨a, as, ha⟩ := List.exists_cons_of_ne_nil hall.1
            obtain ⟨n, ns, hn⟩ := List.exists_cons_of_ne_nil hall.2.1
            obtain ⟨d, ds, hd⟩ := List.exists_cons_of_ne_nil hall.2.2
            exact hnone a as n ns d ds ha hn hd
          split
          · next hfifo => exact .idle (.inr ⟨hflag, hwait, .inl hfifo⟩)
          · next n notifications hfifo =>
              split
              · next hcount =>
                  split
                  · next hn => exact .forward n notifications hflag hfifo hn hwait hcount
                  · next hn => exact .buffer n notifications hflag hfifo (by simpa using hn) hcount
              · next hcount => exact .idle (.inr ⟨hflag, hwait, .inr hcount⟩)

end FpgaNetworkStack.Toe
