import FpgaNetworkStack.Roce.AckOrder
import FpgaNetworkStack.Roce.RetransProgress

/-!
# Retransmission from a number on

A NAK is to be answered by all requests from the one with its number on, a timeout by all of them.
`process_retransmissions` compares the number with the first one of each request, and when the list ends without it the
state machine waits for a cell that was never asked for.
-/

namespace FpgaNetworkStack.Roce

open Lib

/-! ## What is to be retransmitted -/

namespace RetransEntry

def contains (e : RetransEntry) (p : BitVec 24) : Bool := decide ((p - e.psn).toNat < e.packets)

def event (e : RetransEntry) : RetransEvent :=
  ⟨e.opCode, e.qpn.setWidth 24, e.localAddr, e.remoteAddr, e.length, e.psn, e.lst, e.offs⟩

theorem contains_self (e : RetransEntry) : e.contains e.psn = true := by
  rw [contains, BitVec.sub_self, decide_eq_true_iff]
  exact Nat.lt_of_lt_of_le Nat.one_pos (Nat.le_max_left 1 _)

end RetransEntry

variable {p : BitVec 24} {e : RetransEntry} {l l' : List RetransEntry}

/-- The requests from the one with number `p` on. -/
def fromPsn (p : BitVec 24) (l : List RetransEntry) : List RetransEntry := l.dropWhile fun e => !e.contains p

/-- The first request with number `p` is one that starts with it. -/
def Starts (p : BitVec 24) (l : List RetransEntry) : Prop :=
  ∃ pre e post, l = pre ++ e :: post ∧ e.psn = p ∧ ∀ x ∈ pre, x.contains p = false

/-- What the state machine finds: the requests from the first one on that starts with `p`. -/
def found (p : BitVec 24) : List RetransEntry → Option (List RetransEntry)
  | [] => none
  | e :: l => if e.psn = p then some (e :: l) else found p l

theorem length_found (h : found p l = some l') : l'.length ≤ l.length := by
  induction l with
  | nil => cases h
  | cons e l ih =>
    rw [found] at h
    split at h
    · cases h
      exact Nat.le_refl _
    · exact Nat.le_succ_of_le (ih h)

theorem starts_cons (hne : e.psn ≠ p) : Starts p (e :: l) ↔ e.contains p = false ∧ Starts p l := by
  constructor
  · rintro ⟨pre, x, post, hl, hx, hpre⟩
    cases pre with
    | nil =>
      obtain ⟨rfl, -⟩ := List.cons.inj hl
      exact absurd hx hne
    | cons y pre =>
      obtain ⟨rfl, rfl⟩ := List.cons.inj hl
      exact ⟨hpre e List.mem_cons_self, pre, x, post, rfl, hx, fun z hz => hpre z (List.mem_cons_of_mem _ hz)⟩
  · rintro ⟨he, pre, x, post, rfl, hx, hpre⟩
    exact ⟨e :: pre, x, post, rfl, hx, List.forall_mem_cons.mpr ⟨he, hpre⟩⟩

/-- It finds the right ones exactly when the number is the first one of a request. -/
theorem found_iff : found p l = some (fromPsn p l) ↔ Starts p l := by
  induction l with
  | nil =>
    refine ⟨fun h => (by cases h), ?_⟩
    rintro ⟨pre, e, post, hl, -⟩
    cases pre <;> cases hl
  | cons e l ih =>
    rw [found, fromPsn, List.dropWhile_cons]
    by_cases hp : e.psn = p
    · have hself : e.contains p = true := hp ▸ e.contains_self
      rw [if_pos hp, hself]
      exact ⟨fun _ => ⟨[], e, l, rfl, hp, fun x hx => (List.not_mem_nil hx).elim⟩, fun _ => rfl⟩
    · rw [if_neg hp, starts_cons hp]
      cases hc : e.contains p with
      | false => exact ih.trans ⟨fun h => ⟨rfl, h⟩, fun h => h.2⟩
      | true =>
        -- the number lies behind the first one of this request
        refine ⟨fun h => ?_, fun h => (by cases h.1)⟩
        have hlen := length_found h
        exact absurd hlen (Nat.not_succ_le_self l.length)

namespace RetransNet

def emits (t : RetransNet) : RetransLabel → List RetransEvent
  | .process => t.callProcess.2.retrans2event
  | _ => []

/-- Whichever processes are called, after finitely many calls that do anything the state machine is back in `MAIN`, and then
`P` holds of the state and of the events that were written. -/
inductive Returns (P : RetransNet → List RetransEvent → Prop) : RetransNet → List RetransEvent → Prop
  | back {t : RetransNet} {es : List RetransEvent} (hs : t.proc.rtState = .MAIN) (h : P t es) : Returns P t es
  | more {t : RetransNet} {es : List RetransEvent} (hs : t.proc.rtState ≠ .MAIN) (hgo : ∃ u, Moves u t)
      (hall : ∀ (b : RetransLabel) (u : RetransNet), b.isCall = true → t.step b = some u → u ≠ t →
        Returns P u (es ++ t.emits b)) : Returns P t es

/-! ## A walk along a list -/

/-- The tables, which do not change, and what is in the FIFOs. -/
structure Frame (ptr : Qpn → RetransPointerEntry) (table : MetaIdx → RetransMetaEntry) (r : Retransmission) (u : RetransNet)
    (pointerReq : List PointerReq) (pointerRsp : List RetransPointerEntry) (metaReq : List RetransMetaReq)
    (metaRsp : List RetransMetaEntry) : Prop where
  ptrTable : u.ptr.ptrTable = ptr
  wait : u.ptr.wait = false
  metaTable : u.metaTable = table
  retrans : u.proc.retrans = r
  updates : u.ptrIn.pointerUpdFifo = []
  released : u.releaseFifo = []
  pointerReq : u.ptrIn.pointerReqFifo = pointerReq
  pointerRsp : u.inp.pointerRspFifo = pointerRsp
  metaReq : u.metaReq = metaReq
  metaRsp : u.inp.metaRspFifo = metaRsp

variable {ptr : Qpn → RetransPointerEntry} {table : MetaIdx → RetransMetaEntry} {r : Retransmission}
  {goal : Option (List RetransEvent)} {t u v : RetransNet} {es : List RetransEvent}

def requestsIn (table : MetaIdx → RetransMetaEntry) (q : Qpn) (l : List MetaIdx) : List RetransEntry :=
  l.map fun i => (table i).entry q

/-- The request was taken up; `goal` is what the state machine will write, if it comes back. -/
def Asked (ptr : Qpn → RetransPointerEntry) (table : MetaIdx → RetransMetaEntry) (r : Retransmission)
    (goal : Option (List RetransEvent)) (s : RetransState) (es : List RetransEvent) : Prop :=
  ∃ l, Represents (ptr r.qpn) table l ∧ (∀ i ∈ l, (table i).valid = true) ∧ es = [] ∧
    (s = .RETRANS_0 ∧ goal = (if l = [] then some [] else (found r.psn (requestsIn table r.qpn l)).map (·.map RetransEntry.event)) ∨
      s = .TIMER_RETRANS_0 ∧ goal = some ((requestsIn table r.qpn l).map RetransEntry.event))

def Walking (table : MetaIdx → RetransMetaEntry) (r : Retransmission) (goal : Option (List RetransEvent)) (s : RetransState)
    (es : List RetransEvent) (c : MetaIdx) : Prop :=
  ∃ tail l, Chain (fun i => (table i).next) (fun i => (table i).isTail) c tail l ∧ (∀ i ∈ l, (table i).valid = true) ∧
    (s = .RETRANS_1 ∧ es = [] ∧ goal = (found r.psn (requestsIn table r.qpn l)).map (·.map RetransEntry.event) ∨
      s = .RETRANS_2 ∧ goal = some (es ++ (requestsIn table r.qpn l).map RetransEntry.event))

inductive Phase (ptr : Qpn → RetransPointerEntry) (table : MetaIdx → RetransMetaEntry) (r : Retransmission)
    (goal : Option (List RetransEvent)) (u : RetransNet) (es : List RetransEvent) : Prop
  | asks (hf : Frame ptr table r u [⟨r.qpn, false⟩] [] [] []) (h : Asked ptr table r goal u.proc.rtState es) :
      Phase ptr table r goal u es
  | told (hf : Frame ptr table r u [] [ptr r.qpn] [] []) (h : Asked ptr table r goal u.proc.rtState es) :
      Phase ptr table r goal u es
  | fetches (c : MetaIdx) (hf : Frame ptr table r u [] [] [.read c] []) (h : Walking table r goal u.proc.rtState es c) :
      Phase ptr table r goal u es
  | fetched (c : MetaIdx) (hf : Frame ptr table r u [] [] [] [table c]) (h : Walking table r goal u.proc.rtState es c) :
      Phase ptr table r goal u es
  | hangs (hf : Frame ptr table r u [] [] [] []) (hs : u.proc.rtState = .RETRANS_1) (h : goal = none) :
      Phase ptr table r goal u es
  | back (hf : Frame ptr table r u [] [] [] []) (hs : u.proc.rtState = .MAIN) (h : goal = some es) :
      Phase ptr table r goal u es

variable {s : RetransState}

theorem Asked.state (h : Asked ptr table r goal s es) : s = .RETRANS_0 ∨ s = .TIMER_RETRANS_0 := by
  obtain ⟨l, -, -, -, ⟨hs, -⟩ | ⟨hs, -⟩⟩ := h
  · exact .inl hs
  · exact .inr hs

theorem Walking.state {c : MetaIdx} (h : Walking table r goal s es c) :
    s = .RETRANS_1 ∨ s = .RETRANS_2 := by
  obtain ⟨tail, l, -, -, ⟨hs, -⟩ | ⟨hs, -⟩⟩ := h
  · exact .inl hs
  · exact .inr hs

theorem frame_call {preq : List PointerReq} {prsp : List RetransPointerEntry} {mreq : List RetransMetaReq}
    {mrsp : List RetransMetaEntry} {inp : ProcessRetransIn} {s : ProcessRetrans} {o : ProcessRetransOut}
    (hf : Frame ptr table r u preq prsp mreq mrsp) (hcall : processRetransmissions u.proc u.inp = (s, inp, o))
    (hretrans : s.retrans = r) (hout : o.pointerReqFifo = [] ∧ o.pointerUpdFifo = [] ∧ o.releaseFifo = []) :
    Frame ptr table r u.callProcess.1 preq inp.pointerRspFifo (mreq ++ o.metaReqFifo) inp.metaRspFifo ∧
      u.callProcess.1.proc = s ∧ u.callProcess.2 = o := by
  obtain ⟨hptr, hwait, htable, -, hupd, hrel, hpreq, -, hmreq, -⟩ := hf
  obtain ⟨hreqs, hupds, hrels⟩ := hout
  simp only [callProcess, hcall]
  refine ⟨⟨hptr, hwait, htable, hretrans, ?_, ?_, ?_, rfl, ?_, rfl⟩, trivial, trivial⟩
  · rw [hupd, hupds, List.append_nil]
  · rw [hrel, hrels, List.append_nil]
  · rw [hpreq, hreqs, List.append_nil]
  · rw [hmreq]

theorem moved {u v : RetransNet} (hu : u.proc.rtState = s) (hv : v.proc.rtState ≠ s) : v ≠ u := by
  rintro rfl
  exact hv hu

theorem phase_told (hf : Frame ptr table r u [] [ptr r.qpn] [] []) (h : Asked ptr table r goal u.proc.rtState es) :
    Phase ptr table r goal u.callProcess.1 (es ++ u.callProcess.2.retrans2event) ∧ u.callProcess.1 ≠ u := by
  obtain ⟨l, hrep, hvalid, rfl, hcases⟩ := h
  rw [Represents] at hrep
  have htold {s : ProcessRetrans} {o : ProcessRetransOut}
      (hcall : processRetransmissions u.proc u.inp = (s, { u.inp with pointerRspFifo := [] }, o)) (hretrans : s.retrans = r)
      (hout : o.pointerReqFifo = [] ∧ o.pointerUpdFifo = [] ∧ o.releaseFifo = []) :
      Frame ptr table r u.callProcess.1 [] [] o.metaReqFifo [] ∧ u.callProcess.1.proc = s ∧ u.callProcess.2 = o := by
    have hcalled := frame_call hf hcall hretrans hout
    simp only [hf.metaRsp, List.nil_append] at hcalled
    exact hcalled
  rcases hcases with ⟨hs, hgoal⟩ | ⟨hs, hgoal⟩
  · have hcall : processRetransmissions u.proc u.inp = ((retrans0 u.proc (ptr r.qpn)).1,
        { u.inp with pointerRspFifo := [] }, (retrans0 u.proc (ptr r.qpn)).2) := by
      simp only [processRetransmissions, hs, withPointer, hf.pointerRsp]
    cases hv : (ptr r.qpn).valid with
    | true =>
      rw [hv, if_pos rfl] at hrep
      rw [if_neg hrep.ne_nil] at hgoal
      rw [retrans0, if_pos hv] at hcall
      obtain ⟨hframe, hproc, hout⟩ := htold hcall hf.retrans ⟨rfl, rfl, rfl⟩
      rw [hout]
      refine ⟨.fetches _ hframe ⟨_, l, hrep, hvalid, .inl ⟨?_, rfl, hgoal⟩⟩, moved hs ?_⟩
      · rw [hproc]
      · rw [hproc]
        simp
    | false =>
      rw [hv, if_neg Bool.false_ne_true] at hrep
      rw [if_pos hrep] at hgoal
      rw [retrans0, hv, if_neg Bool.false_ne_true] at hcall
      obtain ⟨hframe, hproc, hout⟩ := htold hcall hf.retrans ⟨rfl, rfl, rfl⟩
      rw [hout]
      refine ⟨.back hframe ?_ hgoal, moved hs ?_⟩
      · rw [hproc]
      · rw [hproc]
        simp
  · have hcall : processRetransmissions u.proc u.inp = ((timerRetrans0 u.proc (ptr r.qpn)).1,
        { u.inp with pointerRspFifo := [] }, (timerRetrans0 u.proc (ptr r.qpn)).2) := by
      simp only [processRetransmissions, hs, withPointer, hf.pointerRsp]
    cases hv : (ptr r.qpn).valid with
    | true =>
      rw [hv, if_pos rfl] at hrep
      rw [timerRetrans0, if_pos hv] at hcall
      obtain ⟨hframe, hproc, hout⟩ := htold hcall hf.retrans ⟨rfl, rfl, rfl⟩
      rw [hout]
      refine ⟨.fetches _ hframe ⟨_, l, hrep, hvalid, .inr ⟨?_, hgoal⟩⟩, moved hs ?_⟩
      · rw [hproc]
      · rw [hproc]
        simp
    | false =>
      rw [hv, if_neg Bool.false_ne_true] at hrep
      rw [hrep] at hgoal
      rw [timerRetrans0, hv, if_neg Bool.false_ne_true] at hcall
      obtain ⟨hframe, hproc, hout⟩ := htold hcall hf.retrans ⟨rfl, rfl, rfl⟩
      rw [hout]
      refine ⟨.back hframe ?_ hgoal, moved hs ?_⟩
      · rw [hproc]
      · rw [hproc]
        simp

theorem phase_fetched {c : MetaIdx} (hf : Frame ptr table r u [] [] [] [table c])
    (h : Walking table r goal u.proc.rtState es c) :
    Phase ptr table r goal u.callProcess.1 (es ++ u.callProcess.2.retrans2event) ∧ u.callProcess.1 ≠ u := by
  obtain ⟨tail, l, hchain, hvalid, hcases⟩ := h
  obtain ⟨c', rest, rfl⟩ := List.exists_cons_of_ne_nil hchain.ne_nil
  obtain ⟨rfl, hlast⟩ := hchain.last_head
  have hcell := hvalid c List.mem_cons_self
  have hmore : ∀ i ∈ rest, (table i).valid = true := fun i hi => hvalid i (List.mem_cons_of_mem _ hi)
  have hfetched {s : ProcessRetrans} {o : ProcessRetransOut}
      (hcall : processRetransmissions u.proc u.inp = (s, { u.inp with metaRspFifo := [] }, o)) (hretrans : s.retrans = r)
      (hout : o.pointerReqFifo = [] ∧ o.pointerUpdFifo = [] ∧ o.releaseFifo = []) :
      Frame ptr table r u.callProcess.1 [] [] o.metaReqFifo [] ∧ u.callProcess.1.proc = s ∧
        u.callProcess.2 = o ∧ u.callProcess.1 ≠ u := by
    obtain ⟨hframe, hproc, hsame⟩ := frame_call hf hcall hretrans hout
    simp only [hf.pointerRsp, List.nil_append] at hframe
    refine ⟨hframe, hproc, hsame, fun heq => ?_⟩
    have hnil := hframe.metaRsp
    rw [heq, hf.metaRsp] at hnil
    cases hnil
  rcases hcases with ⟨hs, rfl, hgoal⟩ | ⟨hs, hgoal⟩
  · have hcall : processRetransmissions u.proc u.inp = ((retrans1 u.proc (table c)).1,
        { u.inp with metaRspFifo := [] }, (retrans1 u.proc (table c)).2) := by
      simp only [processRetransmissions, hs, withMeta, hf.metaRsp]
    simp only [retrans1, if_pos hcell, hf.retrans, hlast] at hcall
    rw [requestsIn, List.map_cons, found] at hgoal
    by_cases hp : ((table c).entry r.qpn).psn = r.psn
    · have hfound : ((table c).psn == r.psn) = true := beq_iff_eq.mpr hp
      rw [if_pos hp] at hgoal
      rw [hfound] at hcall
      obtain ⟨hframe, hproc, hout, hne⟩ := hfetched hcall rfl ⟨rfl, rfl, rfl⟩
      rw [hout]
      cases rest with
      | nil => exact ⟨.back hframe (by rw [hproc]; rfl) hgoal, hne⟩
      | cons d rest => exact ⟨.fetches _ hframe ⟨_, _, hchain.pop, hmore, .inr ⟨by rw [hproc]; rfl, hgoal⟩⟩, hne⟩
    · have hfound : ((table c).psn == r.psn) = false := beq_eq_false_iff_ne.mpr hp
      rw [if_neg hp] at hgoal
      rw [hfound] at hcall
      obtain ⟨hframe, hproc, hout, hne⟩ := hfetched hcall rfl ⟨rfl, rfl, rfl⟩
      rw [hout]
      cases rest with
      | nil => exact ⟨.hangs hframe (by rw [hproc]; rfl) hgoal, hne⟩
      | cons d rest => exact ⟨.fetches _ hframe ⟨_, _, hchain.pop, hmore, .inl ⟨by rw [hproc]; rfl, rfl, hgoal⟩⟩, hne⟩
  · have hcall : processRetransmissions u.proc u.inp = ((retrans2 u.proc (table c)).1,
        { u.inp with metaRspFifo := [] }, (retrans2 u.proc (table c)).2) := by
      simp only [processRetransmissions, hs, withMeta, hf.metaRsp]
    simp only [retrans2, if_pos hcell, hf.retrans, hlast] at hcall
    rw [requestsIn, List.map_cons, List.map_cons, List.append_cons] at hgoal
    obtain ⟨hframe, hproc, hout, hne⟩ := hfetched hcall rfl ⟨rfl, rfl, rfl⟩
    rw [hout]
    cases rest with
    | nil =>
      rw [List.map_nil, List.map_nil, List.append_nil] at hgoal
      exact ⟨.back hframe (by rw [hproc]; rfl) hgoal, hne⟩
    | cons d rest => exact ⟨.fetches _ hframe ⟨_, _, hchain.pop, hmore, .inr ⟨by rw [hproc]; rfl, hgoal⟩⟩, hne⟩

theorem quiet_call (hcall : processRetransmissions u.proc u.inp = (u.proc, u.inp, {})) :
    u.callProcess = (u, {}) := by
  have hbegun : begun u.proc u.proc = [] := by
    unfold begun
    cases u.proc.rtState <;> rfl
  simp only [callProcess, hcall, hbegun, List.append_nil]

theorem phase_process (h : Phase ptr table r goal u es) (hs : u.proc.rtState ≠ .MAIN) :
    Phase ptr table r goal u.callProcess.1 (es ++ u.callProcess.2.retrans2event) := by
  have hquiet (hcall : processRetransmissions u.proc u.inp = (u.proc, u.inp, {})) :
      Phase ptr table r goal u.callProcess.1 (es ++ u.callProcess.2.retrans2event) := by
    rw [quiet_call hcall, List.append_nil]
    exact h
  cases h with
  | asks hf h =>
    apply hquiet
    rcases h.state with hstate | hstate <;> simp only [processRetransmissions, hstate, withPointer, hf.pointerRsp]
  | told hf h => exact (phase_told hf h).1
  | fetches c hf h =>
    apply hquiet
    rcases h.state with hstate | hstate <;> simp only [processRetransmissions, hstate, withMeta, hf.metaRsp]
  | fetched c hf h => exact (phase_fetched hf h).1
  | hangs hf hstate hgoal =>
    apply hquiet
    simp only [processRetransmissions, hstate, withMeta, hf.metaRsp]
  | back hf hstate hgoal => exact absurd hstate hs

theorem frame_answer (hf : Frame ptr table r u [⟨r.qpn, false⟩] [] [] []) (hstep : u.step .pointerTable = some v) :
    Frame ptr table r v [] [ptr r.qpn] [] [] ∧ v.proc = u.proc := by
  obtain ⟨hptr, hwait, htable, hr, hupd, hrel, hpreq, hprsp, hmreq, hmrsp⟩ := hf
  simp only [step, Option.some.injEq, retransPointerTable, hupd, hpreq, hwait, Bool.false_and, Bool.false_eq_true,
    if_false] at hstep
  subst hstep
  exact ⟨⟨hptr, rfl, htable, hr, rfl, hrel, rfl, by rw [hprsp, hptr]; rfl, hmreq, hmrsp⟩, rfl⟩

theorem pointerTable_quiet (hwait : u.ptr.wait = false) (hupd : u.ptrIn.pointerUpdFifo = [])
    (hreq : u.ptrIn.pointerReqFifo = []) : u.step .pointerTable = some u := by
  simp only [step, retransPointerTable, hupd, hreq, hwait, List.append_nil]

theorem frame_read {c : MetaIdx} (hf : Frame ptr table r u [] [] [.read c] []) (hstep : u.step .metaTable = some v) :
    Frame ptr table r v [] [] [] [table c] ∧ v.proc = u.proc := by
  obtain ⟨hptr, hwait, htable, hr, hupd, hrel, hpreq, hprsp, hmreq, hmrsp⟩ := hf
  simp only [step, Option.some.injEq, retransMetaTable, hmreq] at hstep
  subst hstep
  exact ⟨⟨hptr, hwait, htable, hr, hupd, hrel, hpreq, hprsp, rfl, by rw [hmrsp, htable]; rfl⟩, rfl⟩

theorem metaTable_quiet (hreq : u.metaReq = []) : u.step .metaTable = some u := by
  simp only [step, retransMetaTable, hreq, List.append_nil]
  rw [← hreq]

theorem frame_freelist {preq : List PointerReq} {prsp : List RetransPointerEntry} {mreq : List RetransMetaReq}
    {mrsp : List RetransMetaEntry} (hf : Frame ptr table r u preq prsp mreq mrsp) (hstep : u.step .freelist = some v) :
    Frame ptr table r v preq prsp mreq mrsp ∧ v.proc = u.proc := by
  obtain ⟨hptr, hwait, htable, hr, hupd, hrel, hpreq, hprsp, hmreq, hmrsp⟩ := hf
  simp only [step, Option.some.injEq, freelistHandler, hrel] at hstep
  split at hstep
  · subst hstep
    exact ⟨⟨hptr, hwait, htable, hr, hupd, rfl, hpreq, hprsp, hmreq, hmrsp⟩, rfl⟩
  · subst hstep
    exact ⟨⟨hptr, hwait, htable, hr, hupd, rfl, hpreq, hprsp, hmreq, hmrsp⟩, rfl⟩

theorem phase_step {b : RetransLabel} (h : Phase ptr table r goal u es) (hs : u.proc.rtState ≠ .MAIN) (hb : b.isCall = true)
    (hstep : u.step b = some v) : Phase ptr table r goal v (es ++ u.emits b) := by
  cases b with
  | process =>
    cases hstep
    exact phase_process h hs
  | pointerTable =>
    show Phase ptr table r goal v (es ++ [])
    rw [List.append_nil]
    have hquiet (hwait : u.ptr.wait = false) (hupd : u.ptrIn.pointerUpdFifo = []) (hreq : u.ptrIn.pointerReqFifo = []) :
        Phase ptr table r goal v es := by
      rw [pointerTable_quiet hwait hupd hreq, Option.some.injEq] at hstep
      exact hstep ▸ h
    cases h with
    | asks hf h =>
      obtain ⟨hframe, hproc⟩ := frame_answer hf hstep
      exact .told hframe (hproc ▸ h)
    | told hf h => exact hquiet hf.wait hf.updates hf.pointerReq
    | fetches c hf h => exact hquiet hf.wait hf.updates hf.pointerReq
    | fetched c hf h => exact hquiet hf.wait hf.updates hf.pointerReq
    | hangs hf hstate hgoal => exact hquiet hf.wait hf.updates hf.pointerReq
    | back hf hstate hgoal => exact absurd hstate hs
  | metaTable =>
    show Phase ptr table r goal v (es ++ [])
    rw [List.append_nil]
    have hquiet (hreq : u.metaReq = []) : Phase ptr table r goal v es := by
      rw [metaTable_quiet hreq, Option.some.injEq] at hstep
      exact hstep ▸ h
    cases h with
    | asks hf h => exact hquiet hf.metaReq
    | told hf h => exact hquiet hf.metaReq
    | fetches c hf h =>
      obtain ⟨hframe, hproc⟩ := frame_read hf hstep
      exact .fetched c hframe (hproc ▸ h)
    | fetched c hf h => exact hquiet hf.metaReq
    | hangs hf hstate hgoal => exact hquiet hf.metaReq
    | back hf hstate hgoal => exact absurd hstate hs
  | freelist =>
    show Phase ptr table r goal v (es ++ [])
    rw [List.append_nil]
    cases h with
    | asks hf h =>
      obtain ⟨hframe, hproc⟩ := frame_freelist hf hstep
      exact .asks hframe (hproc ▸ h)
    | told hf h =>
      obtain ⟨hframe, hproc⟩ := frame_freelist hf hstep
      exact .told hframe (hproc ▸ h)
    | fetches c hf h =>
      obtain ⟨hframe, hproc⟩ := frame_freelist hf hstep
      exact .fetches c hframe (hproc ▸ h)
    | fetched c hf h =>
      obtain ⟨hframe, hproc⟩ := frame_freelist hf hstep
      exact .fetched c hframe (hproc ▸ h)
    | hangs hf hstate hgoal =>
      obtain ⟨hframe, hproc⟩ := frame_freelist hf hstep
      exact .hangs hframe (hproc ▸ hstate) hgoal
    | back hf hstate hgoal => exact absurd hstate hs
  | update | nak | timer | insert => cases hb

theorem phase_moves {g : List RetransEvent} (h : Phase ptr table r (some g) u es) (hs : u.proc.rtState ≠ .MAIN) :
    ∃ v, Moves v u := by
  cases h with
  | asks hf h =>
    obtain ⟨v, hv⟩ : ∃ v, u.step .pointerTable = some v := ⟨_, rfl⟩
    refine ⟨v, fun heq => ?_, .pointerTable, rfl, hv⟩
    have hreq := (frame_answer hf hv).1.pointerReq
    rw [heq, hf.pointerReq] at hreq
    cases hreq
  | told hf h => exact ⟨_, (phase_told hf h).2, .process, rfl, rfl⟩
  | fetches c hf h =>
    obtain ⟨v, hv⟩ : ∃ v, u.step .metaTable = some v := ⟨_, rfl⟩
    refine ⟨v, fun heq => ?_, .metaTable, rfl, hv⟩
    have hreq := (frame_read hf hv).1.metaReq
    rw [heq, hf.metaReq] at hreq
    cases hreq
  | fetched c hf h => exact ⟨_, (phase_fetched hf h).2, .process, rfl, rfl⟩
  | hangs hf hstate hgoal => cases hgoal
  | back hf hstate hgoal => exact absurd hstate hs

/-! ## The end of a walk -/

/-- Back in `MAIN` the walk is over. -/
theorem Phase.home (h : Phase ptr table r goal u es) (hs : u.proc.rtState = .MAIN) :
    Frame ptr table r u [] [] [] [] ∧ goal = some es := by
  cases h with
  | back hf _ hgoal => exact ⟨hf, hgoal⟩
  | asks hf h | told hf h | fetches c hf h | fetched c hf h => rcases h.state with h | h <;> rw [hs] at h <;> cases h
  | hangs hf h _ =>
    rw [hs] at h
    cases h

theorem Phase.returns {g : List RetransEvent} (hacc : Acc Moves u) (h : Phase ptr table r (some g) u es) :
    Returns (fun w gs => Frame ptr table r w [] [] [] [] ∧ w.proc.rtState = .MAIN ∧ gs = g) u es := by
  induction hacc generalizing es with
  | intro u _ ih =>
    by_cases hs : u.proc.rtState = .MAIN
    · obtain ⟨hf, hgoal⟩ := h.home hs
      exact .back hs ⟨hf, hs, (Option.some.inj hgoal).symm⟩
    · exact .more hs (phase_moves h hs) fun b v hb hv hne => ih v ⟨hne, b, hb, hv⟩ (phase_step h hs hb hv)

theorem Returns.reaches {P : RetransNet → List RetransEvent → Prop} (h : Returns P u es) (hphase : Phase ptr table r goal u es) :
    ∃ w g, P w g ∧ goal = some g := by
  induction h with
  | @back u es hs hP => exact ⟨u, es, hP, (hphase.home hs).2⟩
  | more hs hgo _ ih =>
    obtain ⟨v, hne, b, hb, hv⟩ := hgo
    exact ih b v hb hv hne (phase_step hphase hs hb hv)

theorem Returns.mono {P Q : RetransNet → List RetransEvent → Prop} (h : Returns P u es) (hPQ : ∀ w gs, P w gs → Q w gs) :
    Returns Q u es := by
  induction h with
  | back hs hP => exact .back hs (hPQ _ _ hP)
  | more hs hgo _ ih => exact .more hs hgo ih

/-! ## Main result -/

/-- All is as in `t` again, and the events `es` were written. -/
def Answered (t : RetransNet) (es : List RetransEvent) (u : RetransNet) (gs : List RetransEvent) : Prop :=
  u.quiescent = true ∧ (∀ q, u.entries q = t.entries q) ∧ gs = es

theorem Frame.answered (ht : t.ptr.ptrTable = ptr) (ht' : t.metaTable = table) (h : Frame ptr table r u [] [] [] [])
    (hs : u.proc.rtState = .MAIN) : Answered t es u es := by
  refine ⟨?_, fun q => ?_, rfl⟩
  · simp [quiescent, hs, h.pointerReq, h.updates, h.pointerRsp, h.metaReq, h.metaRsp, h.released]
  · rw [entries, entries, RetransNet.cells, RetransNet.cells, h.ptrTable, h.metaTable, ht, ht']

theorem quiescent_represents (h : Reach step anyStep {} t) (hq : t.quiescent = true) (q : Qpn) :
    Represents (t.ptr.ptrTable q) t.metaTable (t.cells q) ∧ ∀ i ∈ t.cells q, (t.metaTable i).valid = true := by
  obtain ⟨cells, ops, hinv⟩ := inv_of_reach h
  obtain ⟨-, hcells, -⟩ := hinv.quiescent hq
  have hlists := hinv.lists
  simp only [quiescent, Bool.and_eq_true, beq_iff_eq, List.isEmpty_iff] at hq
  obtain ⟨⟨⟨⟨⟨⟨hmain, -⟩, hupd⟩, -⟩, hreq⟩, -⟩, -⟩ := hq
  have htodo : todo t.proc = {} := by simp [todo, hmain]
  have hsp : t.settledPtr = t.ptr.ptrTable := by simp [settledPtr, hupd, htodo]
  have hsm : t.settledMeta = t.metaTable := by simp [settledMeta, hreq, htodo]
  rw [hsp, hsm, ← hcells] at hlists
  exact ⟨hlists.represents q, hlists.valid q⟩

theorem phase_asked (h : Reach step anyStep {} t) (hq : t.quiescent = true) (hupd : t.inp.rx2retransUpd = []) :
    (∀ r rest, t.inp.rx2retransReq = r :: rest →
      Phase t.ptr.ptrTable t.metaTable r (if t.entries r.qpn = [] then some [] else
        (found r.psn (t.entries r.qpn)).map (·.map RetransEntry.event)) t.callProcess.1 []) ∧
    (t.inp.rx2retransReq = [] → ∀ r rest, t.inp.timer2retransReq = r :: rest →
      Phase t.ptr.ptrTable t.metaTable r (some ((t.entries r.qpn).map RetransEntry.event)) t.callProcess.1 []) := by
  obtain ⟨cells, ops, hinv⟩ := inv_of_reach h
  have hwait := hinv.lock.wait
  have hrep := quiescent_represents h hq
  simp only [quiescent, Bool.and_eq_true, beq_iff_eq, List.isEmpty_iff] at hq
  obtain ⟨⟨⟨⟨⟨⟨hmain, hpreq⟩, hpupd⟩, hprsp⟩, hmreq⟩, hmrsp⟩, hrel⟩ := hq
  refine ⟨fun r rest hreq => ?_, fun hnone r rest hreq => ?_⟩
  · have hcall : processRetransmissions t.proc t.inp = ({ t.proc with retrans := r, rtState := .RETRANS_0 },
        { t.inp with rx2retransReq := rest }, { pointerReqFifo := [⟨r.qpn, false⟩] }) := by
      simp only [processRetransmissions, hmain, retransMain, hupd, hreq]
    refine .asks ?_ ⟨t.cells r.qpn, (hrep r.qpn).1, (hrep r.qpn).2, rfl, .inl ⟨?_, ?_⟩⟩
    · constructor <;> simp only [callProcess, hcall, List.append_nil, List.nil_append, hpreq] <;> assumption
    · simp only [callProcess, hcall]
    · simp only [entries, List.map_eq_nil_iff]
      rfl
  · have hcall : processRetransmissions t.proc t.inp = ({ t.proc with retrans := r, rtState := .TIMER_RETRANS_0 },
        { t.inp with timer2retransReq := rest }, { pointerReqFifo := [⟨r.qpn, false⟩] }) := by
      simp only [processRetransmissions, hmain, retransMain, hupd, hnone, hreq]
    refine .asks ?_ ⟨t.cells r.qpn, (hrep r.qpn).1, (hrep r.qpn).2, rfl, .inr ⟨?_, rfl⟩⟩
    · constructor <;> simp only [callProcess, hcall, List.append_nil, List.nil_append, hpreq] <;> assumption
    · simp only [callProcess, hcall]

theorem acc_of_reach (h : Reach step anyStep {} t) : Acc Moves t := by
  have hinv : ∃ cells ops l, Inv t cells ops ∧ Walks t l := by
    refine h.invariant (P := fun t => ∃ cells ops l, Inv t cells ops ∧ Walks t l)
      ⟨_, _, [], inv_init, Walks.nil RetransState.noConfusion RetransState.noConfusion⟩ fun u b v hu _ hs => ?_
    obtain ⟨cells, ops, l, hu, hw⟩ := hu
    obtain ⟨cells', ops', hv⟩ := inv_step hu hs
    obtain ⟨l', hw'⟩ := walks_step hu hw hs
    exact ⟨cells', ops', l', hv, hw'⟩
  obtain ⟨cells, ops, l, hinv, hw⟩ := hinv
  exact hw.acc hinv

theorem event_inj {a b : RetransEntry} (h : a.event = b.event) : a = b := by
  obtain ⟨qpn, psn, opCode, localAddr, remoteAddr, length, lst, offs⟩ := a
  obtain ⟨qpn', psn', opCode', localAddr', remoteAddr', length', lst', offs'⟩ := b
  simp only [RetransEntry.event, RetransEvent.mk.injEq] at h
  obtain ⟨hop, hqpn, hl, hr, hlen, hpsn, hlst, hoffs⟩ := h
  have hq : qpn = qpn' := by
    have hcut := congrArg (BitVec.setWidth 16) hqpn
    simpa using hcut
  rw [hop, hq, hl, hr, hlen, hpsn, hlst, hoffs]

/-- With a NAK for a number that starts none of its requests the state machine never comes back. -/
theorem nak_hangs (h : Reach step anyStep {} t) (hq : t.quiescent = true) (hupd : t.inp.rx2retransUpd = [])
    {rest : List Retransmission} (hreq : t.inp.rx2retransReq = r :: rest) (hne : t.entries r.qpn ≠ [])
    (hnone : found r.psn (t.entries r.qpn) = none) : ¬Returns (fun _ _ => True) t.callProcess.1 [] := by
  intro hreturns
  have hphase := (phase_asked h hq hupd).1 r rest hreq
  rw [if_neg hne, hnone] at hphase
  obtain ⟨-, g, -, hg⟩ := hreturns.reaches hphase
  cases hg

/-- A NAK is answered by the requests from its number on exactly when one of them starts with this number, or when there
are none; a timeout is answered by all of them. -/
theorem retransmits_iff (h : Reach step anyStep {} t) (hq : t.quiescent = true) (hupd : t.inp.rx2retransUpd = []) :
    (∀ r rest, t.inp.rx2retransReq = r :: rest →
      (Returns (t.Answered ((fromPsn r.psn (t.entries r.qpn)).map RetransEntry.event)) t.callProcess.1 [] ↔
        t.entries r.qpn = [] ∨ Starts r.psn (t.entries r.qpn))) ∧
    (t.inp.rx2retransReq = [] → ∀ r rest, t.inp.timer2retransReq = r :: rest →
      Returns (t.Answered ((t.entries r.qpn).map RetransEntry.event)) t.callProcess.1 []) := by
  have hnext : Acc Moves t.callProcess.1 := acc_of_reach (h.tail ⟨.process, trivial, rfl⟩)
  have hdone {r : Retransmission} {g : List RetransEvent}
      (hphase : Phase t.ptr.ptrTable t.metaTable r (some g) t.callProcess.1 []) :
      Returns (t.Answered g) t.callProcess.1 [] := by
    refine (hphase.returns hnext).mono fun w gs hw => ?_
    obtain ⟨hframe, hs, rfl⟩ := hw
    exact hframe.answered rfl rfl hs
  obtain ⟨hnak, htimer⟩ := phase_asked h hq hupd
  refine ⟨fun r rest hreq => ⟨fun hreturns => ?_, fun hstarts => ?_⟩, fun hnone r rest hreq => hdone (htimer hnone r rest hreq)⟩
  · obtain ⟨w, g, ⟨-, -, rfl⟩, hgoal⟩ := hreturns.reaches (hnak r rest hreq)
    by_cases hempty : t.entries r.qpn = []
    · exact .inl hempty
    · rw [if_neg hempty, Option.map_eq_some_iff] at hgoal
      obtain ⟨l, hl, hevents⟩ := hgoal
      have heq : l = fromPsn r.psn (t.entries r.qpn) := List.map_injective_iff.mpr (fun _ _ => event_inj) hevents
      exact .inr (found_iff.mp (heq ▸ hl))
  · have hphase := hnak r rest hreq
    by_cases hempty : t.entries r.qpn = []
    · rw [if_pos hempty] at hphase
      have hreturns := hdone hphase
      rw [hempty]
      exact hreturns
    · rw [if_neg hempty, found_iff.mpr (hstarts.resolve_left hempty)] at hphase
      exact hdone hphase

/-- The two read requests of `readTwice` are stored. -/
def storedTwice : List RetransLabel :=
  [.freelist, .freelist] ++ readTwice.map .insert ++
    [.process, .pointerTable, .process, .pointerTable, .metaTable] ++
    [.process, .pointerTable, .process, .process, .pointerTable, .metaTable, .metaTable]

/-- A NAK for the first number of the second request, and one for the second number of the first request. -/
theorem retransmits_iff_second : ∃ t r, Reach step anyStep {} t ∧ t.entries 1 = readTwice ∧
    t.inp.rx2retransReq = [r] ∧ r = ⟨1, 12⟩ ∧
    Returns (t.Answered ((fromPsn r.psn (t.entries r.qpn)).map RetransEntry.event)) t.callProcess.1 [] := by
  have hrun : (run step {} (storedTwice ++ [.nak ⟨1, 12⟩])).map (fun t =>
      ((t.quiescent, t.entries 1), (t.inp.rx2retransUpd.isEmpty, t.inp.rx2retransReq))) =
      some ((true, readTwice), (true, [⟨1, 12⟩])) := by decide +kernel
  obtain ⟨t, ht, hval⟩ := Option.map_eq_some_iff.mp hrun
  obtain ⟨hfst, hsnd⟩ := Prod.mk.inj hval
  obtain ⟨hq, hentries⟩ := Prod.mk.inj hfst
  obtain ⟨hupd, hreq⟩ := Prod.mk.inj hsnd
  have hreach := reach_of_run ht
  refine ⟨t, ⟨1, 12⟩, hreach, hentries, hreq, rfl, ?_⟩
  refine ((retransmits_iff hreach hq (List.isEmpty_iff.mp hupd)).1 _ _ hreq).mpr (.inr ?_)
  rw [show t.entries (1 : Qpn) = readTwice from hentries]
  exact ⟨[readTwice[0]], readTwice[1], [], rfl, rfl, List.forall_mem_singleton.mpr rfl⟩

theorem inside_hangs : ∃ t r, Reach step anyStep {} t ∧ t.quiescent = true ∧ t.inp.rx2retransUpd = [] ∧
    t.inp.rx2retransReq = [r] ∧ r = ⟨1, 11⟩ ∧ (fromPsn r.psn (t.entries r.qpn)) = readTwice ∧
    ¬Returns (fun _ _ => True) t.callProcess.1 [] := by
  have hrun : (run step {} (storedTwice ++ [.nak ⟨1, 11⟩])).map (fun t =>
      ((t.quiescent, t.entries 1), (t.inp.rx2retransUpd.isEmpty, t.inp.rx2retransReq))) =
      some ((true, readTwice), (true, [⟨1, 11⟩])) := by decide +kernel
  obtain ⟨t, ht, hval⟩ := Option.map_eq_some_iff.mp hrun
  obtain ⟨hfst, hsnd⟩ := Prod.mk.inj hval
  obtain ⟨hq, hentries⟩ := Prod.mk.inj hfst
  obtain ⟨hupd, hreq⟩ := Prod.mk.inj hsnd
  have hreach := reach_of_run ht
  have hlist : t.entries (1 : Qpn) = readTwice := hentries
  refine ⟨t, ⟨1, 11⟩, hreach, hq, List.isEmpty_iff.mp hupd, hreq, rfl, ?_, ?_⟩
  · rw [hlist]
    decide
  · refine nak_hangs hreach hq (List.isEmpty_iff.mp hupd) hreq ?_ ?_
    · rw [hlist]
      exact List.cons_ne_nil _ _
    · rw [hlist]
      decide

end RetransNet

end FpgaNetworkStack.Roce
