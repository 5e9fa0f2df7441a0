import FpgaNetworkStack.Roce.Duplicates

/-!
# One NAK for a gap

`retryCounter` of a queue pair is 7 as long as no NAK was sent: the first invalid request takes it down and an accepted
one restores it.  The numbers of the requester are in the same entry, but no update of theirs touches the counter.
-/

namespace FpgaNetworkStack.Roce

open Lib IbOpCode

/-- A request for `q` that is neither expected nor a duplicate. -/
def Handled.invalid (q : Qpn) (h : Handled) : Bool :=
  h.packet.isRequest q && !inOrder h.packet.ibh h.state && !duplicate h.packet.ibh h.state

/-- The NAKs that go out for `q`. -/
def Handled.naks (q : Qpn) (h : Handled) : List AckEvent :=
  h.out.ibhEventFifo.filter fun event => event.isNak && event.qpn.setWidth 16 == q

namespace ResponderNet

/-- `retryCounter` of `q` after a request of `rx_ibh_fsm`. -/
def counterAfter (q : Qpn) (counter : BitVec 3) (r : RxStateReq) : BitVec 3 :=
  if r.write && !r.isResponse && r.qpn == q then r.retryCounter else counter

/-- `retryCounter` of `q` once the requests on their way are served. -/
def counter (t : ResponderNet) (q : Qpn) : BitVec 3 :=
  t.req.rxIbh2stateTableUpdReq.foldl (counterAfter q) (t.table q).retryCounter

/-- The number behind all requests of `q` that were accepted. -/
def expected (q : Qpn) (e : BitVec 24) (hs : List Handled) : BitVec 24 :=
  e + BitVec.ofNat 24 ((hs.filter (·.accepted q)).map (·.packet.covers)).sum

/-- The counter behind a packet that was judged by `r`. -/
def counterBehind (q : Qpn) (p : Packet) (r : RxStateRsp) (counter : BitVec 3) : BitVec 3 :=
  if p.isRequest q then
    if inOrder p.ibh r then 7
    else if duplicate p.ibh r then counter
    else if counter = 7 then 6 else counter
  else counter

variable {q : Qpn} {e : BitVec 24} {t u t₀ : ResponderNet} {p : Packet} {r : RxStateRsp} {c : BitVec 3}

/-! ## One decision -/

theorem request_opCode (h : p.isRequest q = true) : p.qpn = q ∧ checkIfResponse p.ibh.opCode = false ∧ p.ibh.opCode ≠ RC_ACK := by
  simp only [Packet.isRequest, Bool.and_eq_true, Bool.not_eq_true', beq_iff_eq] at h
  refine ⟨h.1, h.2, fun hop => ?_⟩
  rw [hop] at h
  cases h.2

theorem decide_counter (h : p.isRequest q = true → r.retryCounter = c) :
    (p.decide r).stateTableUpdReq.foldl (counterAfter q) c = counterBehind q p r c := by
  cases hreq : p.isRequest q with
  | false =>
    have hskip := decide_other (r := r) hreq
    rw [counterBehind, hreq, if_neg Bool.false_ne_true]
    generalize (p.decide r).stateTableUpdReq = us at hskip
    induction us with
    | nil => rfl
    | cons u us ih =>
      rw [List.foldl_cons, counterAfter, hskip u List.mem_cons_self, if_neg Bool.false_ne_true]
      exact ih fun v hv => hskip v (List.mem_cons_of_mem _ hv)
  | true =>
    obtain ⟨hq, hresp, hack⟩ := request_opCode hreq
    rw [counterBehind, hreq, if_pos rfl, Packet.decide, process, hresp]
    cases hin : inOrder p.ibh r with
    | true =>
      have hmove : (!p.exh.isNak && (p.ibh.opCode != RC_ACK || ackInWindow p.ibh r)) = true := by
        simp [exh_isNak hresp, hack]
      simp only [if_true, processInOrder, hmove, List.foldl_cons, List.foldl_nil]
      simp [counterAfter, RxStateReq.accept, ← hq, Packet.qpn]
    | false =>
      simp only [Bool.false_eq_true, if_false]
      cases hdup : duplicate p.ibh r with
      | true => rw [if_pos rfl, if_pos rfl, processDuplicate_writes, List.foldl_nil]
      | false =>
        simp only [Bool.false_eq_true, if_false, processInvalid, ne_eq, hack, not_false_eq_true, if_true,
          List.foldl_cons, List.foldl_nil, h hreq]
        by_cases hc : c = 7
        · rw [hc]
          simp [counterAfter, RxStateReq.retry, ← hq, Packet.qpn]
        · have hkeep : ¬c = 7#3 := hc
          simp [counterAfter, RxStateReq.retry, ← hq, Packet.qpn, hkeep]

theorem processDuplicate_acks {m : IbhMeta} : ∀ event ∈ (processDuplicate m).ibhEventFifo, event.isNak = false := by
  intro event hevent
  unfold processDuplicate at hevent
  split at hevent
  · cases hevent
  · split at hevent
    · rw [List.mem_singleton.mp hevent]
    · cases hevent

/-- A NAK goes out for an invalid request that finds the counter at 7. -/
theorem decide_naks (hrsp : checkIfResponse p.ibh.opCode = true → r.retryCounter = 0) :
    (⟨p, r, p.decide r⟩ : Handled).naks q =
      if (⟨p, r, p.decide r⟩ : Handled).invalid q ∧ r.retryCounter = 7 then [⟨p.ibh.destQp, r.epsn, true, true⟩]
      else [] := by
  rw [Handled.naks, Handled.invalid]
  cases hin : inOrder p.ibh r with
  | true => simp [Packet.decide, process, hin, processInOrder]
  | false =>
    cases hdup : duplicate p.ibh r with
    | true =>
      have hout : p.decide r = processDuplicate p.ibh := by
        rw [Packet.decide, process, hin, if_neg Bool.false_ne_true, if_pos hdup]
      have hnone : ((processDuplicate p.ibh).ibhEventFifo.filter fun event =>
          event.isNak && event.qpn.setWidth 16 == q) = [] := by
        refine List.filter_eq_nil_iff.mpr fun event hevent => ?_
        rw [processDuplicate_acks event hevent]
        exact Bool.false_ne_true
      rw [hout, hnone]
      simp
    | false =>
      have hack : p.ibh.opCode ≠ RC_ACK := by
        intro hop
        simp [inOrder, hop] at hin
      cases hresp : checkIfResponse p.ibh.opCode with
      | true => simp [Packet.decide, process, hin, hdup, processInvalid, hack, hrsp hresp, Packet.isRequest, hresp]
      | false =>
        by_cases hr : r.retryCounter = 7
        · simp [Packet.decide, process, hin, hdup, processInvalid, hack, hr, Packet.isRequest, hresp, Packet.qpn,
            List.filter_singleton]
        · have hsent : ¬r.retryCounter = 7#3 := hr
          simp [Packet.decide, process, hin, hdup, processInvalid, hack, hsent]

/-! ## The history -/

/-- The packets that were handled, each judged by what the entry of `q` held, and the counter behind them. -/
inductive Judged (q : Qpn) (e : BitVec 24) : List Handled → BitVec 3 → Prop
  | start (c : BitVec 3) : Judged q e [] c
  | more {hs : List Handled} {c : BitVec 3} (h : Judged q e hs c) (p : Packet) (r : RxStateRsp)
      (hreq : p.isRequest q = true →
        r.epsn = expected q e hs ∧ r.oldestOutstandingPsn = e ∧ r.retryCounter = c)
      (hrsp : checkIfResponse p.ibh.opCode = true → r.retryCounter = 0) :
      Judged q e (hs ++ [⟨p, r, p.decide r⟩]) (counterBehind q p r c)

section

variable {hs pre mid post : List Handled} {a b : Handled}

theorem snoc_cases {α : Type*} {xs ys zs : List α} {x : α} (h : xs ++ [x] = ys ++ zs) :
    zs = [] ∨ ∃ zs', zs = zs' ++ [x] ∧ xs = ys ++ zs' := by
  rcases List.eq_nil_or_concat zs with rfl | ⟨zs', z, rfl⟩
  · exact .inl rfl
  · rw [List.concat_eq_append, ← List.append_assoc] at h
    obtain ⟨hxs, hx⟩ := List.append_inj' h rfl
    obtain rfl := List.singleton_inj.mp hx
    exact .inr ⟨zs', List.concat_eq_append, hxs⟩

theorem handled_accepted : (⟨p, r, p.decide r⟩ : Handled).accepted q = (p.isRequest q && inOrder p.ibh r) := by
  unfold Handled.accepted
  cases hin : inOrder p.ibh r with
  | false => simp
  | true => simp [decide_policy hin]

/-- Requests of `q` are judged by the number behind the accepted ones. -/
theorem Judged.states (h : Judged q e hs c) :
    ∀ {pre post}, hs = pre ++ a :: post → a.packet.isRequest q = true →
      a.state.epsn = expected q e pre ∧ a.state.oldestOutstandingPsn = e := by
  induction h with
  | start c =>
    intro pre post hsplit
    cases pre <;> cases hsplit
  | @more hs c _ p r hreq hrsp ih =>
    intro pre post hsplit ha
    rcases snoc_cases (hsplit.trans (List.append_cons pre a post)) with rfl | ⟨post', rfl, hs'⟩
    · obtain ⟨rfl, heq⟩ := List.append_inj' hsplit rfl
      obtain rfl := List.singleton_inj.mp heq
      exact ⟨(hreq ha).1, (hreq ha).2.1⟩
    · exact ih (hs'.trans (List.append_cons pre a post').symm) ha

/-- While nothing is accepted, a NAK is sent or the counter is still at 7. -/
theorem Judged.open (h : Judged q e hs c) :
    ∀ {pre mid}, hs = pre ++ mid → (∀ h ∈ mid, h.accepted q = false) →
      (mid.flatMap (·.naks q)).length + (if c = 7 then 1 else 0) ≤ 1 := by
  induction h with
  | start c =>
    intro pre mid hsplit _
    rw [(List.append_eq_nil_iff.mp hsplit.symm).2]
    show 0 + _ ≤ 1
    split <;> decide
  | @more hs c _ p r hreq hrsp ih =>
    intro pre mid hsplit hno
    rcases snoc_cases hsplit with rfl | ⟨mid, rfl, hs'⟩
    · show 0 + _ ≤ 1
      split <;> decide
    · have hlast := hno _ (List.mem_append_right mid List.mem_cons_self)
      rw [handled_accepted] at hlast
      have hone := ih hs' fun h hh => hno h (List.mem_append_left _ hh)
      rw [List.flatMap_append, List.length_append, List.flatMap_singleton, decide_naks hrsp, counterBehind, Handled.invalid]
      cases hq : p.isRequest q with
      | false => simpa using hone
      | true =>
        rw [hq, Bool.true_and] at hlast
        rw [hlast, (hreq hq).2.2]
        cases hdup : duplicate p.ibh r with
        | true => simpa using hone
        | false =>
          by_cases hc : c = 7
          · rw [hc] at hone ⊢
            exact hone
          · have hkeep : ¬c = 7#3 := hc
            simpa [hkeep] using hone

/-- Behind an accepted request the counter is at 7 until an invalid one comes. -/
theorem Judged.armed (h : Judged q e hs c) :
    ∀ {pre mid}, hs = pre ++ a :: mid → a.accepted q = true → (∀ h ∈ mid, h.invalid q = false) → c = 7 := by
  induction h with
  | start c =>
    intro pre mid hsplit
    cases pre <;> cases hsplit
  | @more hs c _ p r hreq hrsp ih =>
    intro pre mid hsplit ha hno
    rw [counterBehind]
    rcases snoc_cases (hsplit.trans (List.append_cons pre a mid)) with rfl | ⟨mid, rfl, hs'⟩
    · obtain ⟨-, heq⟩ := List.append_inj' hsplit rfl
      obtain rfl := List.singleton_inj.mp heq
      rw [handled_accepted, Bool.and_eq_true] at ha
      rw [if_pos ha.1, if_pos ha.2]
    · have hlast := hno _ (List.mem_append_right mid List.mem_cons_self)
      have hseven := ih (hs'.trans (List.append_cons pre a mid).symm) ha fun h hh => hno h (List.mem_append_left _ hh)
      rw [Handled.invalid] at hlast
      split
      · next hq =>
          split
          · rfl
          · next hin =>
              rw [hq, Bool.eq_false_iff.mpr hin] at hlast
              rw [if_pos (by simpa using hlast), hseven]
      · exact hseven

theorem Judged.once (h : Judged q e hs c) :
    ∀ {pre mid post}, hs = pre ++ mid ++ post → (∀ h ∈ mid, h.accepted q = false) → (mid.flatMap (·.naks q)).length ≤ 1 := by
  induction h with
  | start c =>
    intro pre mid post hsplit _
    have hnil := (List.append_eq_nil_iff.mp hsplit.symm).1
    rw [(List.append_eq_nil_iff.mp hnil).2]
    exact Nat.zero_le 1
  | @more hs c h p r hreq hrsp ih =>
    intro pre mid post hsplit hno
    rcases snoc_cases hsplit with rfl | ⟨post, rfl, hs'⟩
    · rw [List.append_nil] at hsplit
      have hopen := (Judged.more h p r hreq hrsp).open hsplit hno
      omega
    · exact ih hs' hno

theorem Judged.first (h : Judged q e hs c) :
    ∀ {pre mid post}, hs = pre ++ a :: mid ++ b :: post → a.accepted q = true → (∀ h ∈ mid, h.invalid q = false) →
      b.invalid q = true → b.naks q = [⟨b.packet.ibh.destQp, b.state.epsn, true, true⟩] := by
  induction h with
  | start c =>
    intro pre mid post hsplit
    cases pre <;> cases hsplit
  | @more hs c h p r hreq hrsp ih =>
    intro pre mid post hsplit ha hno hb
    rcases snoc_cases (hsplit.trans (List.append_cons (pre ++ a :: mid) b post)) with rfl | ⟨post, rfl, hs'⟩
    · obtain ⟨hbefore, heq⟩ := List.append_inj' hsplit rfl
      obtain rfl := List.singleton_inj.mp heq
      have hseven := h.armed hbefore ha hno
      have hq : p.isRequest q = true := by
        simp only [Handled.invalid, Bool.and_eq_true] at hb
        exact hb.1.1
      rw [decide_naks hrsp, if_pos ⟨hb, (hreq hq).2.2.trans hseven⟩]
    · exact ih (hs'.trans (List.append_cons (pre ++ a :: mid) b post).symm) ha hno hb

end

/-! ## The network -/

structure NakInv (q : Qpn) (e : BitVec 24) (t : ResponderNet) : Prop where
  window : Window q e t
  judged : Judged q e t.handled (t.counter q)
  answer : ∀ r ∈ t.rsp, t.current.isRequest q = true → r.retryCounter = t.counter q
  responses : ∀ r ∈ t.rsp, checkIfResponse t.current.ibh.opCode = true → r.retryCounter = 0

theorem rxUpdate_counter (table : Qpn → StateTableEntry) {r : RxStateReq} (hw : r.write = true) :
    (Function.update table r.qpn ((table r.qpn).rxUpdate r) q).retryCounter =
      counterAfter q (table q).retryCounter r := by
  unfold counterAfter StateTableEntry.rxUpdate
  by_cases hq : q = r.qpn
  · subst hq
    cases hrsp : r.isResponse <;> simp [hw]
  · rw [Function.update_of_ne hq]
    simp [Ne.symm hq]

theorem update_counter (table : Qpn → StateTableEntry) (k : Qpn) {s : StateTableEntry}
    (h : s.retryCounter = (table k).retryCounter) : (Function.update table k s q).retryCounter = (table q).retryCounter := by
  by_cases hq : q = k
  · subst hq
    rw [Function.update_self, h]
  · rw [Function.update_of_ne hq]

theorem NakInv.quiet (h : NakInv q e t) (hwindow : Window q e u) (hhandled : u.handled = t.handled)
    (hcounter : u.counter q = t.counter q) (hcurrent : u.current = t.current)
    (hrsp : ∀ r ∈ u.rsp, r ∈ t.rsp ∨ (t.current.isRequest q = true → r.retryCounter = t.counter q) ∧
      (checkIfResponse t.current.ibh.opCode = true → r.retryCounter = 0)) : NakInv q e u := by
  refine ⟨hwindow, ?_, fun r hr => ?_, fun r hr => ?_⟩
  · rw [hhandled, hcounter]
    exact h.judged
  · rw [hcurrent, hcounter]
    exact (hrsp r hr).elim (h.answer r) (·.1)
  · rw [hcurrent]
    exact (hrsp r hr).elim (h.responses r) (·.2)

theorem NakInv.stateTable (h : NakInv q e t) (hs : t.step q .stateTable = some u) : NakInv q e u := by
  have hwindow := h.window.stateTable hs
  have hclient := h.window.inv.client
  simp only [step, Option.some.injEq] at hs
  unfold Roce.stateTable at hs
  split at hs
  · next r rest hrx =>
      rw [hrx] at hclient
      split at hs
      · next hw =>
          rw [← hs] at hwindow ⊢
          refine h.quiet hwindow rfl ?_ rfl fun x hx => .inl (by simpa using hx)
          show rest.foldl (counterAfter q) (Function.update t.table r.qpn _ q).retryCounter = t.counter q
          rw [rxUpdate_counter _ hw, counter, hrx, List.foldl_cons]
      · next hw =>
          have hread := h.window.inv.reads r (by rw [hrx]; exact List.mem_cons_self) (by simpa using hw)
          obtain ⟨-, hrest, -⟩ := hclient.serve_read (by simpa using hw)
          have hcounter : t.counter q = (t.table q).retryCounter := by
            rw [counter, hrx, hrest, List.foldl_cons, List.foldl_nil, counterAfter, hread]
            rfl
          rw [← hs] at hwindow ⊢
          refine h.quiet hwindow rfl ?_ rfl fun x hx => ?_
          · show rest.foldl (counterAfter q) (t.table q).retryCounter = t.counter q
            rw [hcounter, hrest, List.foldl_nil]
          · rcases List.mem_append.mp hx with hx | hx
            · exact .inl hx
            · rw [List.mem_singleton.mp hx, hread]
              refine .inr ⟨fun hreq => ?_, fun hresp => ?_⟩
              · obtain ⟨hq, hresp, -⟩ := request_opCode hreq
                rw [hresp, hcounter, ← hq]
                rfl
              · rw [hresp]
                rfl
  · next r rest hrx htx =>
      split at hs
      · rw [← hs] at hwindow ⊢
        refine h.quiet hwindow rfl ?_ rfl fun x hx => .inl (by simpa using hx)
        exact congrArg (List.foldl (counterAfter q) · t.req.rxIbh2stateTableUpdReq)
          (update_counter t.table r.qpn (s := { t.table r.qpn with reqNextPsn := r.psn }) rfl)
      · rw [← hs] at hwindow ⊢
        exact h.quiet hwindow rfl rfl rfl fun x hx => .inl (by simpa using hx)
  · next r rest hrx htx hqpi =>
      have hne := h.window.inv.qpi r (by rw [hqpi]; exact List.mem_cons_self)
      split at hs
      · next hw =>
          rw [← hs] at hwindow ⊢
          refine h.quiet hwindow rfl ?_ rfl fun x hx => .inl (by simpa using hx)
          simp only [counter, Function.update_of_ne (hne hw).symm]
      · rw [← hs] at hwindow ⊢
        exact h.quiet hwindow rfl rfl rfl fun x hx => .inl (by simpa using hx)
  · rw [← hs] at hwindow ⊢
    exact h.quiet hwindow rfl rfl rfl fun x hx => .inl (by simpa using hx)

theorem NakInv.rxIbhFsm (h : NakInv q e t) (hs : t.step q .rxIbhFsm = some u) : NakInv q e u := by
  have hwindow := h.window.rxIbhFsm hs
  have hclient := h.window.inv.client
  simp only [step, Option.some.injEq] at hs
  cases hst : t.fsm.fsmState with
  | LOAD =>
    rw [hst] at hclient
    have hnil := hclient.rsps_eq_nil
    cases hp : t.packets with
    | nil =>
      simp [Roce.rxIbhFsm, handles, hst, hp] at hs
      rw [← hs] at hwindow ⊢
      exact h.quiet hwindow rfl rfl rfl fun x hx => .inl hx
    | cons p ps =>
      simp [Roce.rxIbhFsm, handles, hst, hp] at hs
      rw [← hs] at hwindow ⊢
      refine ⟨hwindow, ?_, ?_, ?_⟩
      · have hcounter : (t.req.rxIbh2stateTableUpdReq ++ [RxStateReq.read p.ibh.destQp (checkIfResponse p.ibh.opCode)]).foldl
            (counterAfter q) (t.table q).retryCounter = t.counter q := by
          rw [List.foldl_append]
          rfl
        rw [counter, hcounter]
        exact h.judged
      · rw [hnil]
        exact fun r hr => (List.not_mem_nil hr).elim
      · rw [hnil]
        exact fun r hr => (List.not_mem_nil hr).elim
  | PROCESS =>
    obtain ⟨hm, he, hr⟩ := h.window.inv.registers hst
    cases hrsp : t.rsp with
    | nil =>
      simp [Roce.rxIbhFsm, handles, hst, hrsp] at hs
      rw [← hs] at hwindow ⊢
      exact h.quiet hwindow rfl rfl rfl fun x hx => (List.not_mem_nil hx).elim
    | cons r rs =>
      simp [Roce.rxIbhFsm, handles, hst, hrsp, hm, he, hr] at hs
      rw [hrsp] at hclient
      obtain ⟨-, hreqs, hrs⟩ := hclient.take
      have hmem : r ∈ t.rsp := by rw [hrsp]; exact List.mem_cons_self
      have hcounter : t.counter q = (t.table q).retryCounter := by rw [counter, hreqs, List.foldl_nil]
      have hepsn : t.respEpsn q = expected q e t.handled := by
        rw [h.window.inv.epsn, BitVec.ofNat_add, BitVec.ofNat_toNat, BitVec.setWidth_eq, expected, accepted, List.map_map]
        rfl
      have hjudged := h.judged.more t.current r
        (fun hq => ⟨(h.window.inv.answer r hmem hq).trans hepsn, h.window.answer r hmem hq, h.answer r hmem hq⟩)
        (h.responses r hmem)
      rw [← hs] at hwindow ⊢
      refine ⟨hwindow, ?_, ?_, ?_⟩
      · have hafter := decide_counter (q := q) (h.answer r hmem)
        rw [hcounter] at hafter hjudged
        rw [counter, hreqs, List.nil_append]
        exact hafter.symm ▸ hjudged
      · rw [hrs]
        exact fun r hr => (List.not_mem_nil hr).elim
      · rw [hrs]
        exact fun r hr => (List.not_mem_nil hr).elim

theorem nakInv_step {l : ResponderLabel} (h : NakInv q e t) (hs : t.step q l = some u) : NakInv q e u := by
  have hwindow := window_step h.window hs
  cases l with
  | arrive | tx =>
    cases hs
    exact h.quiet hwindow rfl rfl rfl fun x hx => .inl hx
  | qpi r =>
    simp only [step] at hs
    split at hs
    · cases hs
    · cases hs
      exact h.quiet hwindow rfl rfl rfl fun x hx => .inl hx
  | rxIbhFsm => exact h.rxIbhFsm hs
  | stateTable => exact h.stateTable hs

/-! ## Main result -/

/-- In every run requests are judged by the numbers that follow from what was accepted; between two accepted ones at
most one NAK goes out; and the first request behind an accepted one that is neither expected nor a duplicate is
answered by a NAK with the expected number. -/
theorem nak_once (h₀ : Connected q e t₀) (hold : (t₀.table q).respOldOutstanding = e)
    (h : Reach (step q) anyStep t₀ t) :
    (∀ pre a post, t.handled = pre ++ a :: post → a.packet.isRequest q = true →
      a.state.epsn = expected q e pre ∧ a.state.oldestOutstandingPsn = e) ∧
    (∀ pre mid post, t.handled = pre ++ mid ++ post → (∀ h ∈ mid, h.accepted q = false) →
      (mid.flatMap (·.naks q)).length ≤ 1) ∧
    ∀ pre a mid b post, t.handled = pre ++ a :: mid ++ b :: post → a.accepted q = true →
      (∀ h ∈ mid, h.invalid q = false) → b.invalid q = true →
      b.naks q = [⟨b.packet.ibh.destQp, expected q e (pre ++ a :: mid), true, true⟩] := by
  have hinv : NakInv q e t := by
    have hwindow : Window q e t₀ := by
      refine ⟨h₀.inv, hold, ?_⟩
      rw [h₀.rsp]
      exact fun r hr => (List.not_mem_nil hr).elim
    refine h.invariant ⟨hwindow, ?_, ?_, ?_⟩ fun u l v hu _ hs => nakInv_step hu hs
    · rw [h₀.logs.2]
      exact .start _
    · rw [h₀.rsp]
      exact fun r hr => (List.not_mem_nil hr).elim
    · rw [h₀.rsp]
      exact fun r hr => (List.not_mem_nil hr).elim
  refine ⟨fun pre a post => hinv.judged.states, fun pre mid post => hinv.judged.once, ?_⟩
  intro pre a mid b post hsplit ha hno hb
  have hreq : b.packet.isRequest q = true := by
    simp only [Handled.invalid, Bool.and_eq_true] at hb
    exact hb.1.1
  rw [hinv.judged.first hsplit ha hno hb, (hinv.judged.states hsplit hreq).1]

-- An expected write, a send that came too early, an acknowledgement, a number given to a new request, and another send
-- that came too early.
theorem nak_once_gap : ∃ t a b c d, Reach (step 3) anyStep connected t ∧ t.handled = [a, b, c, d] ∧
    b.naks 3 = [⟨b.packet.ibh.destQp, expected 3 0xFFFFFF [a], true, true⟩] ∧
    ([b, c, d].flatMap (·.naks 3)).length ≤ 1 := by
  have hrun : (run (step 3) connected (receive RC_RDMA_WRITE_ONLY 0xFFFFFF 64 ++ receive RC_SEND_ONLY 5 0 ++
      receive RC_ACK 99 0 ++ [.tx ⟨3, 101, true⟩, .stateTable] ++ receive RC_SEND_ONLY 6 0)).map
      (fun t => t.handled.map fun h => (h.accepted 3, h.invalid 3)) =
        some [(true, false), (false, true), (false, false), (false, true)] := by
    decide +kernel
  obtain ⟨t, ht, hval⟩ := Option.map_eq_some_iff.mp hrun
  obtain ⟨a, rest, hsplit, ha, hval⟩ := List.map_eq_cons_iff.mp hval
  obtain ⟨b, rest, rfl, hb, hval⟩ := List.map_eq_cons_iff.mp hval
  obtain ⟨c, rest, rfl, hc, hval⟩ := List.map_eq_cons_iff.mp hval
  obtain ⟨d, rest, rfl, hd, hval⟩ := List.map_eq_cons_iff.mp hval
  obtain rfl := List.map_eq_nil_iff.mp hval
  obtain ⟨-, honce, hfirst⟩ := nak_once connected_connected connected_oldest (reach_of_run ht)
  refine ⟨t, a, b, c, d, reach_of_run ht, hsplit, ?_, ?_⟩
  · exact hfirst [] a [] b [c, d] hsplit (congrArg Prod.fst ha) (fun h hh => (List.not_mem_nil hh).elim) (congrArg Prod.snd hb)
  · refine honce [a] [b, c, d] [] hsplit fun h hh => ?_
    simp only [List.mem_cons, List.not_mem_nil, or_false] at hh
    rcases hh with rfl | rfl | rfl
    · exact congrArg Prod.fst hb
    · exact congrArg Prod.fst hc
    · exact congrArg Prod.fst hd

end ResponderNet

end FpgaNetworkStack.Roce
