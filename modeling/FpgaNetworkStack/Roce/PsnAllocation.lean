import FpgaNetworkStack.Roce.PsnNet
import FpgaNetworkStack.Roce.ReadRequests

/-!
# Numbers of new requests

`meta_merger` computes how many numbers a request takes, `generate_ibh` reads `req_next_psn` and writes it back
behind the request.  The requests of a queue pair lie one behind the other.
-/

namespace FpgaNetworkStack.Roce

open Lib IbOpCode

/-- The numbers a request takes, without the width of the register. -/
def Event.takes (ev : Event) : Nat :=
  if ev.opCode = RC_RDMA_READ_REQUEST then (ev.length.toNat + (PMTU - 1)) / PMTU else 1

theorem Event.numPkg_toNat (ev : Event) : ev.numPkg.toNat = ev.takes := by
  unfold numPkg takes
  split
  · exact numPackets_toNat ev.length
  · rfl

theorem Event.numPkg_setWidth (ev : Event) : ev.numPkg.setWidth 24 = BitVec.ofNat 24 ev.takes := by
  rw [← ev.numPkg_toNat]
  apply BitVec.eq_of_toNat_eq
  rw [BitVec.toNat_setWidth, BitVec.toNat_ofNat]

/-- A new request of a kind that is passed on and that takes a number. -/
def Event.isNew (ev : Event) : Bool := !ev.validPsn && forwarded ev.opCode && decide (0 < ev.takes)

/-- A header that needs a number belongs to a new request and asks for its numbers. -/
def Paired (m : IbhMeta) (ev : Event) : Prop :=
  m.opCode = ev.opCode ∧ m.destQp = ev.qpn ∧
    (m.validPSN = false → m.opCode ≠ RC_ACK → m.numPkg = ev.numPkg ∧ ev.isNew = true)

namespace PsnNet

/-- The new requests of `q` with their first numbers. -/
def requests (t : PsnNet) (q : Qpn) : List (Event × BitVec 24) := t.given.filter fun x => x.1.qpn.setWidth 16 == q

/-- How many numbers each of them takes. -/
def sizes (t : PsnNet) (q : Qpn) : List Nat := (t.requests q).map fun x => x.1.takes

/-- No read request of length zero is posted. -/
def postsBytes (_ : PsnNet) : PsnLabel → Bool
  | .post m => m.opCode != RC_RDMA_READ_REQUEST || m.length != 0
  | _ => true

structure AllocInv (q : Qpn) (e : Nat) (t : PsnNet) : Prop where
  tx : TxInv q t
  posted : ∀ m ∈ t.lrhIn.sqMeta, 0 < m.event.takes
  app : ∀ ev ∈ t.mergerIn.txAppMetaFifo, ev.validPsn = false → ev.isNew = true
  responses : ∀ ev ∈ t.mergerIn.rxReadEvenFifo, ev.validPsn = true
  paired : ∀ x ∈ t.metas, Paired x.1 x.2
  working : t.ibh.giState = .GET_PSN → Paired t.ibh.metaReg t.event ∧ t.ibh.metaReg.validPSN = false
  tiles : (t.requests q).map (fun x => (x.2, x.1.takes)) = blocks 24 e (t.sizes q)
  next : t.nextPsn q = BitVec.ofNat 24 (e + (t.sizes q).sum)
  news : ∀ x ∈ t.given, x.1.isNew = true

variable {q : Qpn} {e : Nat} {t u : PsnNet}

theorem takes_event {m : TxMeta} (h : m.opCode ≠ RC_RDMA_READ_REQUEST ∨ m.length ≠ 0) : 0 < m.event.takes := by
  have hop : m.event.opCode = m.opCode := rfl
  have hlen : m.event.length = m.length := rfl
  unfold Event.takes PMTU
  rw [hop, hlen]
  split
  · next hread =>
      have hne := h.resolve_left (not_not_intro hread)
      have : m.length.toNat ≠ 0 := fun h0 => hne (BitVec.eq_of_toNat_eq (by simpa using h0))
      omega
  · exact Nat.one_pos

theorem AllocInv.localReqHandler (h : AllocInv q e t) (hs : t.step q .localReqHandler = some u) :
    AllocInv q e u := by
  obtain ⟨⟨htx, hnext⟩, -⟩ := h.tx.quiet (by simp) hs
  simp only [step, Roce.localReqHandler, Option.some.injEq] at hs
  split at hs <;> subst hs
  · refine { h with
      tx := htx, next := hnext.trans h.next, app := List.forall_mem_append.mpr ⟨h.app, fun ev hev hv => ?_⟩ }
    -- a retransmission has its number already
    rw [List.mem_singleton.mp hev] at hv
    cases hv
  · next m rest hrev hsq =>
      have hposted := h.posted
      rw [hsq, List.forall_mem_cons] at hposted
      refine { h with
        tx := htx, next := hnext.trans h.next, posted := hposted.2
        app := List.forall_mem_append.mpr ⟨h.app, fun ev hev hv => ?_⟩ }
      cases hfwd : forwarded m.opCode with
      | true =>
        simp only [hfwd, if_true, List.mem_singleton] at hev
        rw [hev, Event.isNew, Bool.and_eq_true, Bool.and_eq_true, decide_eq_true_eq]
        exact ⟨⟨rfl, hfwd⟩, hposted.1⟩
      | false =>
        simp only [hfwd, Bool.false_eq_true, if_false] at hev
        exact (List.not_mem_nil hev).elim
  · exact { h with tx := htx, next := hnext.trans h.next, app := by simpa using h.app }

theorem AllocInv.metaMerger (h : AllocInv q e t) (hs : t.step q .metaMerger = some u) : AllocInv q e u := by
  obtain ⟨⟨htx, hnext⟩, -⟩ := h.tx.quiet (by simp) hs
  simp only [step, Roce.metaMerger, Option.some.injEq] at hs
  have hsnoc {m : IbhMeta} {ev : Event} (hp : Paired m ev) :
      ∀ x ∈ t.metas ++ [(m, ev)], Paired x.1 x.2 := by
    refine List.forall_mem_append.mpr ⟨h.paired, fun x hx => ?_⟩
    rw [List.mem_singleton.mp hx]
    exact hp
  split at hs <;> subst hs
  · exact { h with
      tx := htx, next := hnext.trans h.next, paired := hsnoc ⟨rfl, rfl, fun _ hc => absurd rfl hc⟩ }
  · next ev rest hack hread =>
      have hresponses := h.responses
      rw [hread, List.forall_mem_cons] at hresponses
      refine { h with
        tx := htx, next := hnext.trans h.next, responses := hresponses.2
        paired := hsnoc ⟨rfl, rfl, fun hv => ?_⟩ }
      rw [Event.ibhMeta, hresponses.1] at hv
      cases hv
  · next ev rest hack hread happ =>
      have hevents := h.app
      rw [happ, List.forall_mem_cons] at hevents
      refine { h with tx := htx, next := hnext.trans h.next, app := hevents.2, paired := hsnoc ?_ }
      unfold Event.appIbhMeta
      cases hv : ev.validPsn with
      | true =>
        refine ⟨rfl, rfl, fun hc => ?_⟩
        rw [if_pos rfl, Event.ibhMeta, hv] at hc
        cases hc
      | false => exact ⟨rfl, rfl, fun _ _ => ⟨rfl, hevents.1 hv⟩⟩
  · exact { h with tx := htx, next := hnext.trans h.next, paired := by simpa using h.paired }

theorem AllocInv.generateIbh (h : AllocInv q e t) (hs : t.step q .generateIbh = some u) : AllocInv q e u := by
  obtain ⟨htx, hgive⟩ := h.tx.generateIbh hs
  have hparts : u.lrhIn = t.lrhIn ∧ u.mergerIn = t.mergerIn ∧ (∀ x ∈ u.metas, x ∈ t.metas) ∧
      (u.ibh.giState = .GET_PSN → Paired u.ibh.metaReg u.event ∧ u.ibh.metaReg.validPSN = false) := by
    rcases generateIbh_cases hs with ⟨m, ev, ms, dst, dsts, hst, hm, hd, hu, hreg, hgi⟩ |
      ⟨r, rs, hst, hr, hu, hreg, hgi⟩ | rfl
    · have hpair := h.paired (m, ev) (by rw [hm]; exact List.mem_cons_self)
      refine ⟨by rw [hu], by rw [hu], ?_, ?_⟩
      · rw [hu, hm]
        exact fun x hx => List.mem_cons_of_mem _ hx
      · intro hget
        have hevent : u.event = ev := by rw [hu]
        rw [hreg, hevent]
        refine ⟨hpair, ?_⟩
        cases hv : m.validPSN with
        | false => rfl
        | true =>
          rw [hgi, hv] at hget
          cases hget
    · refine ⟨by rw [hu], by rw [hu], by rw [hu]; exact fun x hx => hx, ?_⟩
      intro hget
      rw [hgi] at hget
      cases hget
    · exact ⟨rfl, rfl, fun x hx => hx, h.working⟩
  obtain ⟨hlrh, hmerger, hmetas, hworking⟩ := hparts
  refine ⟨htx, by rw [hlrh]; exact h.posted, by rw [hmerger]; exact h.app, by rw [hmerger]; exact h.responses,
    fun x hx => h.paired x (hmetas x hx), hworking, ?_, ?_, ?_⟩
  all_goals
    rcases hgive with ⟨hgiven, hnext⟩ | ⟨hst, hop, r, rs, hr, hgiven, hans, hnext⟩
  · rw [requests, sizes, requests, hgiven]
    exact h.tiles
  · obtain ⟨⟨hopc, hqp, hnum⟩, hv⟩ := h.working hst
    have hwork : t.workQp = t.event.qpn.setWidth 16 := by rw [workQp, hqp]
    rw [requests, sizes, requests, hgiven, List.filter_append, List.filter_singleton]
    by_cases hq : t.workQp = q
    · have hmine : (t.event.qpn.setWidth 16 == q) = true := by rw [← hwork, hq, beq_self_eq_true]
      simp only [hmine, cond_true, List.map_append, List.map_cons, List.map_nil]
      rw [blocks_snoc, hans hq, h.next]
      exact congrArg (· ++ _) h.tiles
    · have hother : (t.event.qpn.setWidth 16 == q) = false := by
        rw [← hwork, beq_eq_false_iff_ne]
        exact hq
      simp only [hother, cond_false, List.append_nil]
      exact h.tiles
  · rw [hnext, sizes, requests, hgiven]
    exact h.next
  · obtain ⟨⟨hopc, hqp, hnum⟩, hv⟩ := h.working hst
    have hwork : t.workQp = t.event.qpn.setWidth 16 := by rw [workQp, hqp]
    rw [hnext, sizes, requests, hgiven, List.filter_append, List.filter_singleton]
    by_cases hq : t.workQp = q
    · have hmine : (t.event.qpn.setWidth 16 == q) = true := by rw [← hwork, hq, beq_self_eq_true]
      simp only [hmine, cond_true, List.map_append, List.map_cons, List.map_nil, List.sum_append, List.sum_singleton]
      rw [if_pos hq, hans hq, h.next, (hnum hv hop).1, Event.numPkg_setWidth, ← BitVec.ofNat_add, Nat.add_assoc]
      rfl
    · have hother : (t.event.qpn.setWidth 16 == q) = false := by
        rw [← hwork, beq_eq_false_iff_ne]
        exact hq
      simp only [hother, cond_false, List.append_nil]
      rw [if_neg hq]
      exact h.next
  · rw [hgiven]
    exact h.news
  · obtain ⟨⟨hopc, hqp, hnum⟩, hv⟩ := h.working hst
    rw [hgiven]
    intro x hx
    rcases List.mem_append.mp hx with hx | hx
    · exact h.news x hx
    · rw [List.mem_singleton.mp hx]
      exact (hnum hv hop).2

theorem alloc_step {l : PsnLabel} (h : AllocInv q e t) (hok : t.postsBytes l = true) (hs : t.step q l = some u) :
    AllocInv q e u := by
  cases l with
  | generateIbh => exact h.generateIbh hs
  | localReqHandler => exact h.localReqHandler hs
  | metaMerger => exact h.metaMerger hs
  | post m =>
    obtain ⟨⟨htx, hnext⟩, -⟩ := h.tx.quiet (by simp) hs
    cases hs
    refine { h with
      tx := htx, next := hnext.trans h.next
      posted := List.forall_mem_append.mpr ⟨h.posted, fun m' hm' => ?_⟩ }
    rw [List.mem_singleton.mp hm']
    refine takes_event ?_
    simpa [postsBytes] using hok
  | readEvent op qpn length psn =>
    obtain ⟨⟨htx, hnext⟩, -⟩ := h.tx.quiet (by simp) hs
    cases hs
    refine { h with
      tx := htx, next := hnext.trans h.next
      responses := List.forall_mem_append.mpr ⟨h.responses, fun ev hev => ?_⟩ }
    rw [List.mem_singleton.mp hev]
  | qpi r =>
    obtain ⟨⟨htx, hnext⟩, -⟩ := h.tx.quiet (by simp) hs
    simp only [step] at hs
    split at hs <;> cases hs
    exact { h with tx := htx, next := hnext.trans h.next }
  | ackEvent | retransmit | connection | arrive | stateTable | rxIbhFsm =>
    obtain ⟨⟨htx, hnext⟩, -⟩ := h.tx.quiet (by simp) hs
    cases hs
    exact { h with tx := htx, next := hnext.trans h.next }

theorem Connected.allocInv {e : BitVec 24} (h : Connected q e t) : AllocInv q e.toNat t := by
  have hreq : t.requests q = [] := by rw [requests, h.given]; rfl
  refine ⟨h.txInv, ?_, ?_, ?_, ?_, ?_, ?_, ?_, ?_⟩
  · rw [h.lrh]
    exact fun m hm => (List.not_mem_nil hm).elim
  · rw [h.merger]
    exact fun ev hev => (List.not_mem_nil hev).elim
  · rw [h.merger]
    exact fun ev hev => (List.not_mem_nil hev).elim
  · rw [h.metas]
    exact fun x hx => (List.not_mem_nil hx).elim
  · rw [h.ibh]
    exact fun hc => by cases hc
  · rw [sizes, hreq]
    rfl
  · rw [sizes, hreq, nextPsn, h.queues.2]
    simp [h.next]
  · rw [h.given]
    exact fun x hx => (List.not_mem_nil hx).elim

/-! ## Main result -/

/-- As long as no read request of length zero is posted, the new requests of a connected queue pair take the
numbers from `req_next_psn` on, one behind the other; each takes at least one, a read request as many as the
responder sends packets; ranges that lie less than `2^24` apart are disjoint; and nothing but a new request
changes `req_next_psn`. -/
theorem psn_ranges {e : BitVec 24} {t₀ : PsnNet} (h₀ : Connected q e t₀)
    (h : Reach (step q) (fun t l => t.postsBytes l = true) t₀ t) :
    (t.requests q).map (fun x => (x.2, x.1.takes)) = blocks 24 e.toNat (t.sizes q) ∧
    (∀ x ∈ t.given, x.1.validPsn = false ∧ forwarded x.1.opCode = true ∧ 0 < x.1.takes) ∧
    (∀ x ∈ t.given, x.1.opCode = RC_RDMA_READ_REQUEST → ∀ r : ReadRequest, r.dmaLength = x.1.length →
      (readCalls x.1.takes {} [r]).2.2.readEventFifo.length = x.1.takes ∧
      (readCalls x.1.takes {} [r]).1.hrrFsmState = .META) ∧
    (∀ i j x y, i < j → (t.requests q)[i]? = some x → (t.requests q)[j]? = some y →
      ((t.sizes q).take (j + 1)).sum ≤ ((t.sizes q).take i).sum + 2 ^ 24 →
      ∀ a b, a < x.1.takes → b < y.1.takes → x.2 + BitVec.ofNat 24 a ≠ y.2 + BitVec.ofNat 24 b) ∧
    t.nextPsn q = e + BitVec.ofNat 24 (t.sizes q).sum ∧
    ∀ l u, t.postsBytes l = true → t.step q l = some u → u.requests q = t.requests q →
      u.nextPsn q = t.nextPsn q := by
  have hinv : AllocInv q e.toNat t :=
    h.invariant h₀.allocInv fun u l v hu hok hs => alloc_step hu hok hs
  have hnew : ∀ x ∈ t.given, x.1.validPsn = false ∧ forwarded x.1.opCode = true ∧ 0 < x.1.takes := by
    intro x hx
    have := hinv.news x hx
    simp only [Event.isNew, Bool.and_eq_true, Bool.not_eq_true', decide_eq_true_eq] at this
    exact ⟨this.1.1, this.1.2, this.2⟩
  refine ⟨hinv.tiles, hnew, ?_, ?_, ?_, ?_⟩
  · intro x hx hop r hr
    have htakes : x.1.takes = r.packets := by rw [Event.takes, if_pos hop, ReadRequest.packets, hr]
    have hlen : 0 < r.dmaLength.toNat := by
      have hpos := (hnew x hx).2.2
      rw [htakes, ReadRequest.lt_packets] at hpos
      omega
    obtain ⟨hmeta, -, hout⟩ := ReadRequest.generate_all [] (s := {}) (r := r) rfl hlen
    rw [htakes]
    refine ⟨?_, hmeta⟩
    rw [hout]
    simp
  · intro i j x y hij hx hy hfit a b ha hb
    refine blocks_disjoint (n := e.toNat) hij ?_ ?_ hfit ha hb
    · rw [← hinv.tiles, List.getElem?_map, hx]
      rfl
    · rw [← hinv.tiles, List.getElem?_map, hy]
      rfl
  · rw [hinv.next, BitVec.ofNat_add, BitVec.ofNat_toNat, BitVec.setWidth_eq]
  · intro l u hok hs hreq
    rw [hinv.next, (alloc_step hinv hok hs).next, sizes, sizes, hreq]

-- A write takes the last number, a read request of three packets the first ones, and an acknowledgement none.
theorem psn_ranges_wrap : ∃ t, Reach (step 3) (fun t l => t.postsBytes l = true) connected t ∧
    (t.requests 3).map (fun x => (x.2, x.1.takes)) = [(0xFFFFFF, 1), (0, 3), (3, 1)] ∧ t.nextPsn 3 = 4 := by
  have hrun : (runIf (step 3) (fun t l => t.postsBytes l = true) connected
      (postRequest RC_RDMA_WRITE_ONLY 64 ++ postRequest RC_RDMA_READ_REQUEST 10000 ++
        [.ackEvent ⟨3, 7, true, false⟩, .metaMerger, .connection 3, .generateIbh] ++
        postRequest RC_SEND_ONLY 64)).map
      (fun t => (t.requests 3).map fun x => (x.2, x.1.takes)) = some [(0xFFFFFF, 1), (0, 3), (3, 1)] := by
    decide +kernel
  obtain ⟨t, ht, hval⟩ := Option.map_eq_some_iff.mp hrun
  have hreach := reach_of_runIf ht
  obtain ⟨-, -, -, -, hnext, -⟩ := psn_ranges connected_connected hreach
  have hsizes : t.sizes 3 = [1, 3, 1] := by
    have := congrArg (List.map Prod.snd) hval
    simpa [sizes, Function.comp_def] using this
  refine ⟨t, hreach, hval, ?_⟩
  rw [hnext, hsizes]
  decide

-- A read request of length zero takes no number, and the write behind it gets the same one.
theorem empty_read_takes_nothing : ∃ t, Reach (step 3) anyStep connected t ∧
    (t.requests 3).map (fun x => (x.1.opCode, x.2, x.1.takes)) =
      [(RC_RDMA_READ_REQUEST, 0xFFFFFF, 0), (RC_RDMA_WRITE_ONLY, 0xFFFFFF, 1)] := by
  have hrun : (run (step 3) connected
      (postRequest RC_RDMA_READ_REQUEST 0 ++ postRequest RC_RDMA_WRITE_ONLY 64)).map
      (fun t => (t.requests 3).map fun x => (x.1.opCode, x.2, x.1.takes)) =
      some [(RC_RDMA_READ_REQUEST, 0xFFFFFF, 0), (RC_RDMA_WRITE_ONLY, 0xFFFFFF, 1)] := by
    decide +kernel
  obtain ⟨t, ht, hval⟩ := Option.map_eq_some_iff.mp hrun
  exact ⟨t, reach_of_run ht, hval⟩

end PsnNet

end FpgaNetworkStack.Roce
