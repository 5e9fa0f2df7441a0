import FpgaNetworkStack.Lib.Reach
import FpgaNetworkStack.Lib.Rounds
import FpgaNetworkStack.Toe.PortTable

/-!
# The answers to port checks

A check goes to one of two tables, and each table answers when it gets to it.  A third FIFO keeps the table each check
was sent to, so that the answers leave in the order of the checks.  A table looks ports up in the order in which it
is asked, so the answers of one table are told apart by their order alone.
-/

namespace FpgaNetworkStack.Toe

open Lib

/-! ## The network -/

/-- A port looked up in a table: the listening table (`dst` is `LT`) or the other one, the index, and the table at that
moment. -/
structure PortLookup where
  dst : Bool
  index : BitVec 15
  table : BitVec 15 → Bool

def PortLookup.isOpen (l : PortLookup) : Bool := l.table l.index

def PortLookup.target (l : PortLookup) : Bool × BitVec 15 := (l.dst, l.index)

/-- The table that is responsible for the port of a check, which comes in network byte order, and its index there. -/
def target (check : BitVec 16) : Bool × BitVec 15 :=
  (decide ((reverse16 check).toNat < 32768), (reverse16 check).setWidth 15)

/-- `checks` are the checks made so far and `lookups` what the tables were asked; nothing reads them. -/
structure CheckNet where
  checkReq : List (BitVec 16) := []
  listenReq : List (BitVec 16) := []
  releasePort : List (BitVec 16) := []
  listening : BitVec 15 → Bool := fun _ => false
  free : FreePortTable := {}
  listeningReq : List (BitVec 15) := []
  usedReq : List (BitVec 15) := []
  listeningRsp : List Bool := []
  usedRsp : List Bool := []
  dst : List Bool := []
  out : CmFsmState := .READ_DST
  checkRsp : List Bool := []
  checks : List (BitVec 16) := []
  lookups : List PortLookup := []

inductive PortProcess where
  | listeningPortTable | freePortTable | checkInMultiplexer | checkOutMultiplexer
  deriving DecidableEq

/-- A call of a process; for `free_port_table` with the state of the FIFO of the ports handed out. -/
inductive PortCall where
  | listeningPortTable
  | freePortTable (full : Bool)
  | checkInMultiplexer
  | checkOutMultiplexer
  deriving DecidableEq

def PortCall.process : PortCall → PortProcess
  | listeningPortTable => .listeningPortTable
  | freePortTable _ => .freePortTable
  | checkInMultiplexer => .checkInMultiplexer
  | checkOutMultiplexer => .checkOutMultiplexer

inductive CheckLabel where
  | check (p : BitVec 16)
  | listen (p : BitVec 16)
  | release (p : BitVec 16)
  | call (c : PortCall)
  deriving DecidableEq

namespace CheckNet

/-- The lookup of the next call of a table: another request goes first. -/
def nextLookup (dst : Bool) (table : BitVec 15 → Bool) (others : List (BitVec 16)) (reqs : List (BitVec 15)) :
    List PortLookup :=
  match others, reqs with
  | [], index :: _ => [⟨dst, index, table⟩]
  | _, _ => []

def call (t : CheckNet) : PortCall → CheckNet
  | .listeningPortTable =>
    let (listening, i, out) := Toe.listeningPortTable t.listening ⟨t.listenReq, t.listeningReq⟩
    { t with
      listening
      listenReq := i.rxApp2portTableListenReq
      listeningReq := i.ptPortCheckListeningReqFifo
      listeningRsp := t.listeningRsp ++ out.ptPortCheckListeningRspFifo
      lookups := t.lookups ++ nextLookup true t.listening t.listenReq t.listeningReq }
  | .freePortTable full =>
    let (free, i, out) := Toe.freePortTable full t.free ⟨t.releasePort, t.usedReq⟩
    { t with
      free
      releasePort := i.sLookup2portTableReleasePort
      usedReq := i.ptPortCheckUsedReqFifo
      usedRsp := t.usedRsp ++ out.ptPortCheckUsedRspFifo
      lookups := t.lookups ++ nextLookup false t.free.freePortTable t.releasePort t.usedReq }
  | .checkInMultiplexer =>
    let (checkReq, out) := Toe.checkInMultiplexer t.checkReq
    { t with
      checkReq
      listeningReq := t.listeningReq ++ out.ptPortCheckListeningReqFifo
      usedReq := t.usedReq ++ out.ptPortCheckUsedReqFifo
      dst := t.dst ++ out.ptDstFifoOut }
  | .checkOutMultiplexer =>
    let (out, i, rsp) := Toe.checkOutMultiplexer t.out ⟨t.dst, t.listeningRsp, t.usedRsp⟩
    { t with
      out
      dst := i.ptDstFifoIn
      listeningRsp := i.ptPortCheckListeningRspFifo
      usedRsp := i.ptPortCheckUsedRspFifo
      checkRsp := t.checkRsp ++ rsp }

/-- A request from outside, or one call of a process. -/
def step (t : CheckNet) : CheckLabel → Option CheckNet
  | .check p => some { t with checkReq := t.checkReq ++ [p], checks := t.checks ++ [p] }
  | .listen p => some { t with listenReq := t.listenReq ++ [p] }
  | .release p => some { t with releasePort := t.releasePort ++ [p] }
  | .call c => some (t.call c)

/-! ## Where the checks are -/

/-- The requests to one table, and the answers it has given. -/
def reqs (t : CheckNet) (dst : Bool) : List (BitVec 15) := if dst then t.listeningReq else t.usedReq

def rsps (t : CheckNet) (dst : Bool) : List Bool := if dst then t.listeningRsp else t.usedRsp

/-- The table `check_out_multiplexer` waits for. -/
def turn : CmFsmState → List Bool
  | .READ_DST => []
  | .READ_LISTENING => [true]
  | .READ_USED => [false]

/-- The checks are those answered by the lookups `answered`, those that are `pending` at the tables, and those not yet
read.  The lookups `served` of each table are not taken yet. -/
structure Sorted (t : CheckNet) (answered : List PortLookup) (pending : List (Bool × BitVec 15))
    (served : Bool → List PortLookup) : Prop where
  answers : t.checkRsp = answered.map PortLookup.isOpen
  order : t.checks.map target = answered.map PortLookup.target ++ (pending ++ t.checkReq.map target)
  turns : pending.map Prod.fst = turn t.out ++ t.dst
  lookups : ∀ dst, (t.lookups.filter fun l => l.dst == dst) = (answered.filter fun l => l.dst == dst) ++ served dst
  rsps : ∀ dst, t.rsps dst = (served dst).map PortLookup.isOpen
  reqs : ∀ dst, (pending.filter fun x => x.1 == dst) =
    (served dst).map PortLookup.target ++ (t.reqs dst).map fun index => (dst, index)

def Inv (t : CheckNet) : Prop := ∃ answered pending served, t.Sorted answered pending served

theorem inv_init : Inv {} := by
  refine ⟨[], [], fun _ => [], rfl, rfl, rfl, fun _ => rfl, ?_, ?_⟩
  · intro dst
    cases dst <;> rfl
  · intro dst
    cases dst <;> rfl

variable {t u : CheckNet} {answered : List PortLookup} {pending : List (Bool × BitVec 15)}
  {served : Bool → List PortLookup}

theorem filter_cons {β : Type} (tag : β → Bool) (x : β) (xs : List β) (dst : Bool) :
    ((x :: xs).filter fun y => tag y == dst) = (if tag x = dst then [x] else []) ++ xs.filter fun y => tag y == dst := by
  by_cases h : tag x = dst
  · rw [if_pos h, List.filter_cons, if_pos (beq_iff_eq.mpr h), List.singleton_append]
  · rw [if_neg h, List.filter_cons, if_neg (fun hbeq => h (beq_iff_eq.mp hbeq)), List.nil_append]

theorem filter_snoc {β : Type} (tag : β → Bool) (xs : List β) (x : β) (dst : Bool) :
    ((xs ++ [x]).filter fun y => tag y == dst) = (xs.filter fun y => tag y == dst) ++ if tag x = dst then [x] else [] := by
  rw [List.filter_append, filter_cons, List.filter_nil, List.append_nil]

theorem Sorted.serve (h : t.Sorted answered pending served) (l : PortLookup)
    (hreqs : t.reqs l.dst = l.index :: u.reqs l.dst) (hrsps : u.rsps l.dst = t.rsps l.dst ++ [l.isOpen])
    (hreqs' : ∀ dst, dst ≠ l.dst → u.reqs dst = t.reqs dst) (hrsps' : ∀ dst, dst ≠ l.dst → u.rsps dst = t.rsps dst)
    (hlookups : u.lookups = t.lookups ++ [l]) (hcheckRsp : u.checkRsp = t.checkRsp) (hchecks : u.checks = t.checks)
    (hcheckReq : u.checkReq = t.checkReq) (hturns : turn u.out ++ u.dst = turn t.out ++ t.dst) : u.Inv := by
  refine ⟨answered, pending, Function.update served l.dst (served l.dst ++ [l]), ?_, ?_, ?_, ?_, ?_, ?_⟩
  · rw [hcheckRsp, h.answers]
  · rw [hchecks, hcheckReq, h.order]
  · rw [hturns, h.turns]
  · intro dst
    rw [hlookups, filter_snoc, h.lookups]
    by_cases hdst : dst = l.dst
    · subst hdst
      rw [Function.update_self, if_pos rfl, List.append_assoc]
    · rw [Function.update_of_ne hdst, if_neg (fun heq => hdst heq.symm), List.append_nil]
  · intro dst
    by_cases hdst : dst = l.dst
    · subst hdst
      rw [Function.update_self, hrsps, h.rsps, List.map_append]
      rfl
    · rw [Function.update_of_ne hdst, hrsps' dst hdst, h.rsps]
  · intro dst
    by_cases hdst : dst = l.dst
    · subst hdst
      rw [Function.update_self, h.reqs, hreqs, List.map_append, List.append_assoc]
      rfl
    · rw [Function.update_of_ne hdst, hreqs' dst hdst, h.reqs]

/-! ## What a call does -/

/-- `listening_port_table` opens a port or has nothing to do, or it looks a port up. -/
theorem callListening_cases (t : CheckNet) :
    ((t.listenReq ≠ [] ∨ t.listeningReq = []) ∧
      ∃ table, t.call .listeningPortTable = { t with listening := table, listenReq := t.listenReq.tail }) ∨
    t.listenReq = [] ∧ ∃ index rest, t.listeningReq = index :: rest ∧
      t.call .listeningPortTable = { t with
        listeningReq := rest
        listeningRsp := t.listeningRsp ++ [t.listening index]
        lookups := t.lookups ++ [⟨true, index, t.listening⟩] } := by
  cases hlisten : t.listenReq with
  | cons currPort others =>
    apply Or.inl
    refine ⟨.inl (List.cons_ne_nil _ _), ?_⟩
    simp only [call, Toe.listeningPortTable, hlisten, nextLookup, List.append_nil, List.tail_cons]
    split
    · exact ⟨_, by rw [List.append_nil]⟩
    · split <;> exact ⟨_, by rw [List.append_nil]⟩
  | nil =>
    cases hreq : t.listeningReq with
    | nil =>
      apply Or.inl
      refine ⟨.inr rfl, t.listening, ?_⟩
      simp only [call, Toe.listeningPortTable, hlisten, hreq, nextLookup, List.append_nil, List.tail_nil]
    | cons index rest =>
      apply Or.inr
      refine ⟨rfl, index, rest, rfl, ?_⟩
      simp only [call, Toe.listeningPortTable, hlisten, hreq, nextLookup]

/-- `free_port_table` takes a port back, hands one out or moves on, or it looks a port up. -/
theorem callFree_cases (t : CheckNet) (full : Bool) :
    ((t.releasePort ≠ [] ∨ t.usedReq = []) ∧
      ∃ table, t.call (.freePortTable full) = { t with free := table, releasePort := t.releasePort.tail }) ∨
    t.releasePort = [] ∧ ∃ index rest, t.usedReq = index :: rest ∧
      t.call (.freePortTable full) = { t with
        free := { t.free with ptCursor := t.free.ptCursor + 1 }
        usedReq := rest
        usedRsp := t.usedRsp ++ [t.free.freePortTable index]
        lookups := t.lookups ++ [⟨false, index, t.free.freePortTable⟩] } := by
  cases hrelease : t.releasePort with
  | cons currPort others =>
    apply Or.inl
    refine ⟨.inl (List.cons_ne_nil _ _), ?_⟩
    simp only [call, Toe.freePortTable, freePortBranch, hrelease, nextLookup, List.append_nil, List.tail_cons]
    exact ⟨_, rfl⟩
  | nil =>
    cases hreq : t.usedReq with
    | nil =>
      apply Or.inl
      refine ⟨.inr rfl, ?_⟩
      simp only [call, Toe.freePortTable, freePortBranch, hrelease, hreq, nextLookup, List.append_nil, List.tail_nil]
      split
      · exact ⟨_, by rw [List.append_nil]⟩
      · exact ⟨_, by rw [List.append_nil]⟩
    | cons index rest =>
      apply Or.inr
      refine ⟨rfl, index, rest, rfl, ?_⟩
      simp only [call, Toe.freePortTable, freePortBranch, hrelease, hreq, nextLookup]

theorem callCheckIn_cases (t : CheckNet) :
    t.checkReq = [] ∧ t.call .checkInMultiplexer = t ∨
    ∃ p rest, t.checkReq = p :: rest ∧
      t.call .checkInMultiplexer = { t with
        checkReq := rest
        listeningReq := t.listeningReq ++ if (target p).1 then [(target p).2] else []
        usedReq := t.usedReq ++ if (target p).1 then [] else [(target p).2]
        dst := t.dst ++ [(target p).1] } := by
  cases hcheck : t.checkReq with
  | nil =>
    apply Or.inl
    refine ⟨rfl, ?_⟩
    simp only [call, Toe.checkInMultiplexer, hcheck, List.append_nil]
    rw [← hcheck]
  | cons p rest =>
    apply Or.inr
    refine ⟨p, rest, rfl, ?_⟩
    by_cases hp : (reverse16 p).toNat < 32768
    · simp only [call, Toe.checkInMultiplexer, hcheck, target, hp, if_true, decide_true, List.append_nil]
    · simp only [call, Toe.checkInMultiplexer, hcheck, target, hp, if_false, decide_false, List.append_nil,
        Bool.false_eq_true]

/-- `check_out_multiplexer` takes the next turn or the answer of the table whose turn it is. -/
theorem callCheckOut_cases (t : CheckNet) :
    t.call .checkOutMultiplexer = t ∧
      (t.out = .READ_DST ∧ t.dst = [] ∨ ∃ dst, turn t.out = [dst] ∧ t.rsps dst = []) ∨
    (∃ dst rest, t.out = .READ_DST ∧ t.dst = dst :: rest ∧
      t.call .checkOutMultiplexer = { t with
        out := if dst then .READ_LISTENING else .READ_USED
        dst := rest }) ∨
    ∃ dst rsp rest, turn t.out = [dst] ∧ t.rsps dst = rsp :: rest ∧
      t.call .checkOutMultiplexer = { t with
        out := .READ_DST
        listeningRsp := if dst then rest else t.listeningRsp
        usedRsp := if dst then t.usedRsp else rest
        checkRsp := t.checkRsp ++ [rsp] } := by
  cases hout : t.out with
  | READ_DST =>
    cases hdst : t.dst with
    | nil =>
      apply Or.inl
      refine ⟨?_, .inl ⟨rfl, rfl⟩⟩
      simp only [call, Toe.checkOutMultiplexer, hout, hdst, List.append_nil]
      rw [← hout, ← hdst]
    | cons dst rest =>
      apply Or.inr
      apply Or.inl
      refine ⟨dst, rest, rfl, rfl, ?_⟩
      simp only [call, Toe.checkOutMultiplexer, hout, hdst, List.append_nil]
  | READ_LISTENING =>
    cases hrsp : t.listeningRsp with
    | nil =>
      apply Or.inl
      refine ⟨?_, .inr ⟨true, rfl, hrsp⟩⟩
      simp only [call, Toe.checkOutMultiplexer, hout, hrsp, List.append_nil]
      rw [← hout, ← hrsp]
    | cons rsp rest =>
      apply Or.inr
      apply Or.inr
      refine ⟨true, rsp, rest, rfl, hrsp, ?_⟩
      simp only [call, Toe.checkOutMultiplexer, hout, hrsp, if_true]
  | READ_USED =>
    cases hrsp : t.usedRsp with
    | nil =>
      apply Or.inl
      refine ⟨?_, .inr ⟨false, rfl, hrsp⟩⟩
      simp only [call, Toe.checkOutMultiplexer, hout, hrsp, List.append_nil]
      rw [← hout, ← hrsp]
    | cons rsp rest =>
      apply Or.inr
      apply Or.inr
      refine ⟨false, rsp, rest, rfl, hrsp, ?_⟩
      simp only [call, Toe.checkOutMultiplexer, hout, hrsp, Bool.false_eq_true, if_false]

/-! ## Every step keeps the checks sorted -/

theorem Inv.callListening (h : t.Inv) : (t.call .listeningPortTable).Inv := by
  obtain ⟨answered, pending, served, hsorted⟩ := h
  rcases t.callListening_cases with ⟨-, table, hcall⟩ | ⟨-, index, rest, hreq, hcall⟩
  · rw [hcall]
    exact ⟨answered, pending, served, hsorted.answers, hsorted.order, hsorted.turns, hsorted.lookups, hsorted.rsps,
      hsorted.reqs⟩
  · rw [hcall]
    refine hsorted.serve ⟨true, index, t.listening⟩ ?_ rfl ?_ ?_ rfl rfl rfl rfl rfl
    · exact hreq
    · intro dst hdst
      rw [eq_false_of_ne_true hdst]
      rfl
    · intro dst hdst
      rw [eq_false_of_ne_true hdst]
      rfl

theorem Inv.callFree (full : Bool) (h : t.Inv) : (t.call (.freePortTable full)).Inv := by
  obtain ⟨answered, pending, served, hsorted⟩ := h
  rcases t.callFree_cases full with ⟨-, table, hcall⟩ | ⟨-, index, rest, hreq, hcall⟩
  · rw [hcall]
    exact ⟨answered, pending, served, hsorted.answers, hsorted.order, hsorted.turns, hsorted.lookups, hsorted.rsps,
      hsorted.reqs⟩
  · rw [hcall]
    refine hsorted.serve ⟨false, index, t.free.freePortTable⟩ ?_ rfl ?_ ?_ rfl rfl rfl rfl rfl
    · exact hreq
    · intro dst hdst
      rw [eq_true_of_ne_false hdst]
      rfl
    · intro dst hdst
      rw [eq_true_of_ne_false hdst]
      rfl

theorem Inv.callCheckIn (h : t.Inv) : (t.call .checkInMultiplexer).Inv := by
  rcases t.callCheckIn_cases with ⟨-, hcall⟩ | ⟨p, rest, hcheck, hcall⟩
  · rw [hcall]
    exact h
  · obtain ⟨answered, pending, served, hsorted⟩ := h
    rw [hcall]
    refine ⟨answered, pending ++ [target p], served, hsorted.answers, ?_, ?_, hsorted.lookups, hsorted.rsps, ?_⟩
    · have horder := hsorted.order
      rw [hcheck] at horder
      show t.checks.map target = _
      rw [horder]
      simp only [List.append_assoc, List.map_cons, List.singleton_append]
    · rw [List.map_append, hsorted.turns, List.append_assoc]
      rfl
    · intro dst
      rw [filter_snoc, hsorted.reqs, List.append_assoc]
      -- the target is at the end of the requests to its table
      have hback : [target p] = [((target p).1, (target p).2)] := rfl
      rw [hback]
      unfold CheckNet.reqs
      cases dst <;> cases (target p).1 <;> simp

theorem Inv.callCheckOut (h : t.Inv) : (t.call .checkOutMultiplexer).Inv := by
  rcases t.callCheckOut_cases with ⟨hcall, -⟩ | ⟨dst, rest, hout, hdst, hcall⟩ | ⟨dst, rsp, rest, hturn, hrsp, hcall⟩
  · rw [hcall]
    exact h
  · obtain ⟨answered, pending, served, hsorted⟩ := h
    rw [hcall]
    refine ⟨answered, pending, served, hsorted.answers, hsorted.order, ?_, hsorted.lookups, hsorted.rsps, hsorted.reqs⟩
    have hturns := hsorted.turns
    rw [hout, hdst] at hturns
    rw [hturns]
    cases dst <;> rfl
  · obtain ⟨answered, pending, served, hsorted⟩ := h
    -- the first check at the tables is one of this table, and so is its lookup the first one not taken
    obtain ⟨l, later, hserved, hopen, hlater⟩ := List.map_eq_cons_iff.mp ((hsorted.rsps dst).symm.trans hrsp)
    have hturns := hsorted.turns
    rw [hturn, List.singleton_append] at hturns
    obtain ⟨x, pending', rfl, hx, hpending'⟩ := List.map_eq_cons_iff.mp hturns
    have hreqs := hsorted.reqs dst
    rw [hserved, filter_cons, if_pos hx, List.map_cons, List.cons_append, List.cons_append, List.nil_append] at hreqs
    obtain ⟨rfl, hbehind⟩ := List.cons.inj hreqs
    have hl : l.dst = dst := hx
    rw [hcall]
    refine ⟨answered ++ [l], pending', Function.update served dst later, ?_, ?_, ?_, ?_, ?_, ?_⟩
    · rw [List.map_append, ← hsorted.answers, List.map_singleton, hopen]
    · rw [List.map_append, List.append_assoc]
      exact hsorted.order
    · rw [hpending']
      rfl
    · intro dst'
      rw [filter_snoc, List.append_assoc]
      show _ = _ ++ ((if l.dst = dst' then [l] else []) ++ _)
      have hlookups := hsorted.lookups dst'
      by_cases hdst : dst' = dst
      · subst hdst
        rw [Function.update_self, if_pos hl, List.singleton_append, ← hserved]
        exact hlookups
      · have hne : ¬ l.dst = dst' := fun heq => hdst (heq.symm.trans hl)
        rw [Function.update_of_ne hdst, if_neg hne, List.nil_append]
        exact hlookups
    · intro dst'
      have hrsps := hsorted.rsps dst'
      by_cases hdst : dst' = dst
      · subst hdst
        rw [Function.update_self, hlater]
        cases dst' <;> rfl
      · rw [Function.update_of_ne hdst, ← hrsps]
        cases dst <;> cases dst' <;> first | rfl | exact absurd rfl hdst
    · intro dst'
      by_cases hdst : dst' = dst
      · subst hdst
        rw [Function.update_self]
        exact hbehind
      · have hother := hsorted.reqs dst'
        rw [filter_cons, if_neg (fun heq => hdst (heq.symm.trans hx)), List.nil_append] at hother
        rw [Function.update_of_ne hdst]
        exact hother

theorem Inv.call (c : PortCall) (h : t.Inv) : (t.call c).Inv := by
  cases c with
  | listeningPortTable => exact h.callListening
  | freePortTable full => exact h.callFree full
  | checkInMultiplexer => exact h.callCheckIn
  | checkOutMultiplexer => exact h.callCheckOut

theorem inv_step {l : CheckLabel} (h : t.Inv) (hs : t.step l = some u) : u.Inv := by
  cases l with
  | check p =>
    cases hs
    obtain ⟨answered, pending, served, hsorted⟩ := h
    refine ⟨answered, pending, served, hsorted.answers, ?_, hsorted.turns, hsorted.lookups, hsorted.rsps, hsorted.reqs⟩
    rw [List.map_append, List.map_append, hsorted.order]
    simp only [List.append_assoc]
  | listen | release =>
    cases hs
    obtain ⟨answered, pending, served, hsorted⟩ := h
    exact ⟨answered, pending, served, hsorted.answers, hsorted.order, hsorted.turns, hsorted.lookups, hsorted.rsps,
      hsorted.reqs⟩
  | call c =>
    cases hs
    exact h.call c

theorem Reach.inv (h : Reach step anyStep {} t) : t.Inv := h.invariant inv_init fun _ _ _ hv _ hs => inv_step hv hs

/-! ## The answers come -/

/-- Calls that are needed until nothing is left at the tables. -/
def work (t : CheckNet) : Nat :=
  4 * t.checkReq.length + t.listenReq.length + t.releasePort.length + t.listeningReq.length + t.usedReq.length +
    2 * t.dst.length + (turn t.out).length

/-- The next call of the process does something that is still to be done. -/
def busy (p : PortProcess) (t : CheckNet) : Prop :=
  match p with
  | .listeningPortTable => t.listenReq ≠ [] ∨ t.listeningReq ≠ []
  | .freePortTable => t.releasePort ≠ [] ∨ t.usedReq ≠ []
  | .checkInMultiplexer => t.checkReq ≠ []
  | .checkOutMultiplexer => t.out = .READ_DST ∧ t.dst ≠ [] ∨ ∃ dst, turn t.out = [dst] ∧ t.rsps dst ≠ []


theorem work_call (t : CheckNet) (c : PortCall) :
    (t.call c).work ≤ t.work ∧ (busy c.process t → (t.call c).work < t.work) := by
  cases c with
  | listeningPortTable =>
    rcases t.callListening_cases with ⟨hidle, table, hcall⟩ | ⟨hnone, index, rest, hreq, hcall⟩
    · rw [hcall]
      have hlength := t.listenReq.length_tail
      refine ⟨by simp only [work]; omega, fun hbusy => ?_⟩
      have hpos : 0 < t.listenReq.length := by
        rcases hbusy with hne | hne
        · exact List.length_pos_iff.mpr hne
        · exact List.length_pos_iff.mpr (hidle.resolve_right hne)
      simp only [work]
      omega
    · rw [hcall]
      simp only [work, hreq, List.length_cons]
      omega
  | freePortTable full =>
    rcases t.callFree_cases full with ⟨hidle, table, hcall⟩ | ⟨hnone, index, rest, hreq, hcall⟩
    · rw [hcall]
      have hlength := t.releasePort.length_tail
      refine ⟨by simp only [work]; omega, fun hbusy => ?_⟩
      have hpos : 0 < t.releasePort.length := by
        rcases hbusy with hne | hne
        · exact List.length_pos_iff.mpr hne
        · exact List.length_pos_iff.mpr (hidle.resolve_right hne)
      simp only [work]
      omega
    · rw [hcall]
      simp only [work, hreq, List.length_cons]
      omega
  | checkInMultiplexer =>
    rcases t.callCheckIn_cases with ⟨hnone, hcall⟩ | ⟨p, rest, hcheck, hcall⟩
    · rw [hcall]
      exact ⟨Nat.le_refl _, fun hbusy => absurd hnone hbusy⟩
    · rw [hcall]
      cases (target p).1 <;> simp [work, hcheck] <;> omega
  | checkOutMultiplexer =>
    rcases t.callCheckOut_cases with ⟨hcall, hidle⟩ | ⟨dst, rest, hout, hdst, hcall⟩ |
      ⟨dst, rsp, rest, hturn, -, hcall⟩
    · rw [hcall]
      refine ⟨Nat.le_refl _, fun hbusy => ?_⟩
      rcases hidle with ⟨hout, hdst⟩ | ⟨dst, hturn, hrsps⟩
      · rcases hbusy with ⟨-, hne⟩ | ⟨dst, hturn, -⟩
        · exact absurd hdst hne
        · rw [hout] at hturn
          cases hturn
      · rcases hbusy with ⟨hout, -⟩ | ⟨dst', hturn', hne⟩
        · rw [hout] at hturn
          cases hturn
        · rw [hturn] at hturn'
          cases hturn'
          exact absurd hrsps hne
    · rw [hcall]
      have hturn : (turn (if dst then CmFsmState.READ_LISTENING else .READ_USED)).length = 1 := by
        cases dst <;> rfl
      simp only [work, hout, hdst, hturn, List.length_cons]
      simp only [turn, List.length_nil]
      omega
    · rw [hcall]
      simp only [work, hturn, List.length_cons, List.length_nil]
      simp only [turn, List.length_nil]
      omega

/-- A process with something to do keeps it until it is called. -/
theorem busy_call {p : PortProcess} (c : PortCall) (hp : busy p t) (hne : p ≠ c.process) : busy p (t.call c) := by
  cases c with
  | listeningPortTable =>
    rcases t.callListening_cases with ⟨-, table, hcall⟩ | ⟨-, index, rest, hreq, hcall⟩
    · rw [hcall]
      cases p <;> first | exact hp | exact absurd rfl hne
    · rw [hcall]
      cases p with
      | listeningPortTable => exact absurd rfl hne
      | freePortTable => exact hp
      | checkInMultiplexer => exact hp
      | checkOutMultiplexer =>
        apply hp.imp_right
        rintro ⟨dst, hturn, hrsps⟩
        refine ⟨dst, hturn, ?_⟩
        cases dst with
        | true => exact List.append_ne_nil_of_left_ne_nil hrsps _
        | false => exact hrsps
  | freePortTable full =>
    rcases t.callFree_cases full with ⟨-, table, hcall⟩ | ⟨-, index, rest, hreq, hcall⟩
    · rw [hcall]
      cases p <;> first | exact hp | exact absurd rfl hne
    · rw [hcall]
      cases p with
      | listeningPortTable => exact hp
      | freePortTable => exact absurd rfl hne
      | checkInMultiplexer => exact hp
      | checkOutMultiplexer =>
        apply hp.imp_right
        rintro ⟨dst, hturn, hrsps⟩
        refine ⟨dst, hturn, ?_⟩
        cases dst with
        | true => exact hrsps
        | false => exact List.append_ne_nil_of_left_ne_nil hrsps _
  | checkInMultiplexer =>
    rcases t.callCheckIn_cases with ⟨-, hcall⟩ | ⟨x, rest, hcheck, hcall⟩
    · rw [hcall]
      exact hp
    · rw [hcall]
      cases p with
      | listeningPortTable | freePortTable => exact hp.imp_right fun h => List.append_ne_nil_of_left_ne_nil h _
      | checkInMultiplexer => exact absurd rfl hne
      | checkOutMultiplexer =>
        exact hp.imp_left fun h => ⟨h.1, List.append_ne_nil_of_left_ne_nil h.2 _⟩
  | checkOutMultiplexer =>
    rcases t.callCheckOut_cases with ⟨hcall, -⟩ | ⟨dst, rest, -, -, hcall⟩ | ⟨dst, rsp, rest, -, -, hcall⟩
    · rw [hcall]
      exact hp
    · rw [hcall]
      cases p <;> first | exact hp | exact absurd rfl hne
    · rw [hcall]
      cases p <;> first | exact hp | exact absurd rfl hne

theorem Sorted.turn_waits {dst : Bool} (h : t.Sorted answered pending served) (hturn : turn t.out = [dst]) :
    t.rsps dst ≠ [] ∨ t.reqs dst ≠ [] := by
  by_contra hnone
  rw [not_or, not_not, not_not] at hnone
  obtain ⟨hrsps, hreqs⟩ := hnone
  have hserved : served dst = [] := List.map_eq_nil_iff.mp ((h.rsps dst).symm.trans hrsps)
  have hempty := h.reqs dst
  rw [hserved, hreqs] at hempty
  have hturns := h.turns
  rw [hturn] at hturns
  obtain ⟨x, pending', rfl, hx, -⟩ := List.map_eq_cons_iff.mp hturns
  rw [filter_cons, if_pos hx] at hempty
  cases hempty

/-- While there is work, a process is busy. -/
theorem Inv.some_busy (h : t.Inv) (hwork : 0 < t.work) : ∃ p, busy p t := by
  obtain ⟨answered, pending, served, hsorted⟩ := h
  by_cases hcheck : t.checkReq = []
  · by_cases hlisten : t.listenReq = [] ∧ t.listeningReq = []
    · by_cases hfree : t.releasePort = [] ∧ t.usedReq = []
      · -- the tables are done, so it is the turn of one that has answered, or there is a next turn
        have hnone : ∀ dst, t.reqs dst = [] := by
          intro dst
          cases dst with
          | true => exact hlisten.2
          | false => exact hfree.2
        refine ⟨.checkOutMultiplexer, ?_⟩
        cases hout : t.out with
        | READ_DST =>
          refine .inl ⟨hout, fun hdst => ?_⟩
          simp [work, hcheck, hlisten, hfree, hout, hdst, turn] at hwork
        | READ_LISTENING =>
          have hturn : turn t.out = [true] := by rw [hout]; rfl
          exact .inr ⟨true, hturn, (hsorted.turn_waits hturn).resolve_right (not_not.mpr (hnone true))⟩
        | READ_USED =>
          have hturn : turn t.out = [false] := by rw [hout]; rfl
          exact .inr ⟨false, hturn, (hsorted.turn_waits hturn).resolve_right (not_not.mpr (hnone false))⟩
      · exact ⟨.freePortTable, not_and_or.mp hfree⟩
    · exact ⟨.listeningPortTable, not_and_or.mp hlisten⟩
  · exact ⟨.checkInMultiplexer, hcheck⟩

theorem works : Works call PortCall.process Inv busy work where
  keeps c h := h.call c
  le t c := (work_call t c).1
  less c _ hbusy := (work_call _ c).2 hbusy
  stays c _ _ hbusy hne := busy_call c hbusy hne
  some_busy h hwork := h.some_busy hwork

/-! ## One answer for each check -/

/-- The answers given so far are those of the lookups `answered`: the lookup that answers a check is one of the table
responsible for its port, at its own index, and no lookup answers two checks. -/
structure Answered (t : CheckNet) (answered : List PortLookup) : Prop where
  answers : t.checkRsp = answered.map PortLookup.isOpen
  order : answered.map PortLookup.target <+: t.checks.map target
  lookups : ∀ dst, (answered.filter fun l => l.dst == dst) <+: t.lookups.filter fun l => l.dst == dst

theorem Sorted.toAnswered (h : t.Sorted answered pending served) : t.Answered answered := by
  refine ⟨h.answers, ?_, ?_⟩
  · rw [h.order]
    exact List.prefix_append _ _
  · intro dst
    rw [h.lookups]
    exact List.prefix_append _ _

theorem Sorted.all_answered (h : t.Sorted answered pending served) (hwork : t.work = 0) :
    answered.length = t.checks.length := by
  have hcheck : t.checkReq = [] := List.length_eq_zero_iff.mp (by unfold work at hwork; omega)
  have hturns := congrArg List.length h.turns
  rw [List.length_map, List.length_append] at hturns
  have hpending : pending = [] := List.length_eq_zero_iff.mp (by unfold work at hwork; omega)
  have horder := congrArg List.length h.order
  rw [hcheck, hpending, List.map_nil, List.append_nil, List.append_nil, List.length_map, List.length_map] at horder
  exact horder.symm

theorem checks_call (t : CheckNet) (c : PortCall) : (t.call c).checks = t.checks := by
  cases c <;> rfl

theorem checks_calls (t : CheckNet) (cs : List PortCall) : (cs.foldl call t).checks = t.checks := by
  induction cs generalizing t with
  | nil => rfl
  | cons c cs ih => rw [List.foldl_cons, ih, checks_call]

/-- In every run the checks are answered in their order, each by a lookup of its own in the table responsible for the
port, and after enough rounds of calls without further requests all of them are. -/
theorem checks_answered (h : Reach step anyStep {} t) :
    (∃ answered, t.Answered answered) ∧
      ∃ n, ∀ rounds : List (List PortCall), (∀ cs ∈ rounds, Round PortCall.process cs) → n ≤ rounds.length →
        ∃ answered, (rounds.flatten.foldl call t).Answered answered ∧ answered.length = t.checks.length := by
  have hinv := Reach.inv h
  constructor
  · obtain ⟨answered, pending, served, hsorted⟩ := hinv
    exact ⟨answered, hsorted.toAnswered⟩
  · refine ⟨t.work, fun rounds hrounds hle => ?_⟩
    have hlater : (rounds.flatten.foldl call t).Inv := works.keeps_calls hinv
    obtain ⟨answered, pending, served, hsorted⟩ := hlater
    have hall := hsorted.all_answered (works.rounds hrounds hinv hle)
    rw [checks_calls] at hall
    exact ⟨answered, hsorted.toAnswered, hall⟩

/-- Port 80 is opened and port 32768 handed out; the answers of the two tables come in the other order. -/
def checkRun : List CheckLabel :=
  [.listen 80, .call .listeningPortTable, .call (.freePortTable false), .check 0x5000, .check 0x0080, .check 0x5100,
    .call .checkInMultiplexer, .call .checkInMultiplexer, .call .checkInMultiplexer, .call (.freePortTable true),
    .call .checkOutMultiplexer, .call .listeningPortTable, .call .checkOutMultiplexer, .call .checkOutMultiplexer,
    .call .checkOutMultiplexer, .call .listeningPortTable, .call .checkOutMultiplexer, .call .checkOutMultiplexer]

theorem checks_answered_three : ∃ t : CheckNet, t.checkRsp = [true, true, false] ∧ ∃ answered, t.Answered answered := by
  have hrun : (run step {} checkRun).map checkRsp = some [true, true, false] := by decide +kernel
  obtain ⟨t, ht, hrsp⟩ := Option.map_eq_some_iff.mp hrun
  exact ⟨t, hrsp, (checks_answered (reach_of_run ht)).1⟩

end CheckNet

end FpgaNetworkStack.Toe
