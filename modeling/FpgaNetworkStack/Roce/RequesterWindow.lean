import FpgaNetworkStack.Roce.PsnNet

/-!
# The window of the requester

`req_old_unack` follows the accepted responses and has to stay between its old value and `req_next_psn`.  The
test of `rx_ibh_fsm` compares with `req_next_psn - 1`, which is in front of the window when nothing is
outstanding.
-/

namespace FpgaNetworkStack.Roce

open Lib IbOpCode

def Packet.isResponse (q : Qpn) (p : Packet) : Bool := p.qpn == q && checkIfResponse p.ibh.opCode

/-- The packet moves the window: an expected response or an acknowledgement that passes the test. -/
def Packet.takenUp (p : Packet) (r : RxStateRsp) : Bool :=
  inOrder p.ibh r && !p.exh.isNak && (p.ibh.opCode != RC_ACK || ackInWindow p.ibh r)

/-- Some request is outstanding, as far as the answer of the state table tells. -/
def RxStateRsp.outstanding (r : RxStateRsp) : Bool := r.epsn != r.maxForward + 1

variable {r : RxStateRsp}

theorem ackInWindow_iff {m : IbhMeta} (h : r.outstanding = true) :
    ackInWindow m r = true ↔ (m.psn - r.epsn).toNat ≤ (r.maxForward - r.epsn).toNat := by
  have hx := m.psn.isLt
  have ha := r.epsn.isLt
  have hb := r.maxForward.isLt
  rw [RxStateRsp.outstanding, bne_iff_ne, ne_eq, ← BitVec.toNat_inj, BitVec.toNat_add] at h
  simp only [ackInWindow, Bool.or_eq_true, Bool.and_eq_true, decide_eq_true_eq, BitVec.lt_def, BitVec.le_def,
    BitVec.toNat_sub]
  simp only [BitVec.reduceToNat] at h
  omega

/-- What a response writes: the number behind it when it is taken up, else the old number or nothing. -/
theorem decide_response {p : Packet} (hrsp : checkIfResponse p.ibh.opCode = true) :
    ∀ u ∈ (p.decide r).stateTableUpdReq,
      u.epsn = r.epsn ∨ p.takenUp r = true ∧ u.epsn = p.ibh.psn + 1 := by
  intro u hu
  have hnum : p.exh.numPkg.setWidth 24 = 1 := by
    rw [exh_numPkg, Packet.covers, if_neg]
    · rfl
    · intro hop
      rw [hop] at hrsp
      cases hrsp
  unfold Packet.decide process at hu
  unfold Packet.takenUp
  split at hu
  · next hin =>
      rw [hin, Bool.true_and]
      simp only [processInOrder] at hu
      split at hu
      · next hup =>
          rw [List.mem_singleton.mp hu]
          exact .inr ⟨hup, by rw [← hnum]; rfl⟩
      · exact (List.not_mem_nil hu).elim
  · split at hu
    · rw [processDuplicate] at hu
      split at hu
      · exact (List.not_mem_nil hu).elim
      · split at hu <;> exact (List.not_mem_nil hu).elim
    · rw [processInvalid] at hu
      split at hu
      · rw [List.mem_singleton.mp hu]
        exact .inl rfl
      · exact (List.not_mem_nil hu).elim

theorem decide_one_write (p : Packet) (r : RxStateRsp) :
    (p.decide r).stateTableUpdReq = [] ∨ ∃ x, (p.decide r).stateTableUpdReq = [x] := by
  unfold Packet.decide process
  split
  · unfold processInOrder
    split
    · exact .inr ⟨_, rfl⟩
    · exact .inl rfl
  · split
    · refine .inl ?_
      unfold processDuplicate
      split
      · rfl
      · split <;> rfl
    · unfold processInvalid
      split
      · exact .inr ⟨_, rfl⟩
      · exact .inl rfl

namespace PsnNet

/-- The window can take the numbers of the request, and nothing moves it while no request is outstanding. -/
def keepsWindow (q : Qpn) (t : PsnNet) (l : PsnLabel) : Bool :=
  match l, t.ibh.giState, t.txRsp, t.rx.fsmState, t.rxRsp with
  | .generateIbh, .GET_PSN, r :: _, _, _ =>
    t.ibh.metaReg.opCode == RC_ACK || t.workQp != q ||
      decide ((r.reqNextPsn - (t.table q).reqOldUnack).toNat + t.ibh.metaReg.numPkg.toNat < 2 ^ 24)
  | .rxIbhFsm, _, _, .PROCESS, r :: _ =>
    !(t.packet.isResponse q && t.packet.takenUp r) || r.outstanding || t.packet.ibh.psn + 1 == r.epsn
  | _, _, _, _, _ => true

/-- `req_old_unack` of `q` after a request of `rx_ibh_fsm`. -/
def unackAfter (q : Qpn) (unack : BitVec 24) (r : RxStateReq) : BitVec 24 :=
  if r.write && r.isResponse && r.qpn == q then r.epsn else unack

/-- `req_old_unack` of `q` once the requests on their way are served. -/
def oldUnack (t : PsnNet) (q : Qpn) : BitVec 24 :=
  t.tableIn.rxIbh2stateTableUpdReq.foldl (unackAfter q) (t.table q).reqOldUnack

/-- The window without the end of the number space: `a` and `n` are its ends in the table, `a'` and `n'` those
with the requests on their way. -/
structure Window (q : Qpn) (t : PsnNet) (a a' n n' : Nat) : Prop where
  unack : (t.table q).reqOldUnack = BitVec.ofNat 24 a
  unack' : t.oldUnack q = BitVec.ofNat 24 a'
  next : (t.table q).reqNextPsn = BitVec.ofNat 24 n
  next' : t.nextPsn q = BitVec.ofNat 24 n'
  le : a ≤ a' ∧ a' ≤ n ∧ n ≤ n'
  fits : n' < a + 2 ^ 24
  -- the answer may be older than the last request, but not older than the last response
  answer : ∀ r ∈ t.rxRsp, t.packet.isResponse q = true →
    ∃ m, a' ≤ m ∧ m ≤ n ∧ r.epsn = BitVec.ofNat 24 a' ∧ r.maxForward = BitVec.ofNat 24 m - 1

structure WindowInv (q : Qpn) (t : PsnNet) : Prop where
  tx : TxInv q t
  client : TableClient RxStateReq.write (t.rx.fsmState == .PROCESS) t.tableIn.rxIbh2stateTableUpdReq t.rxRsp
  registers : t.rx.fsmState = .PROCESS → t.rx.metaReg = t.packet.ibh ∧ t.rx.emeta = t.packet.exh ∧
    t.rx.isResponse = checkIfResponse t.packet.ibh.opCode
  reads : ∀ r ∈ t.tableIn.rxIbh2stateTableUpdReq, r.write = false →
    r = .read t.packet.ibh.destQp (checkIfResponse t.packet.ibh.opCode)
  -- at most one write of each client is on its way
  txWrites : ∀ r ∈ t.tableIn.txIbh2stateTableUpdReq, r.write = true → r.qpn = q → r.psn = t.nextPsn q
  rxWrites : ∀ r ∈ t.tableIn.rxIbh2stateTableUpdReq, r.write = true → r.isResponse = true → r.qpn = q →
    r.epsn = t.oldUnack q

variable {q : Qpn} {t u : PsnNet} {a a' n n' : Nat}

/-- The ends of the window in the table after a step. -/
def Moves (q : Qpn) (u : PsnNet) (a a' n n' : Nat) : Prop :=
  WindowInv q u ∧ ∃ b b' k k', Window q u b b' k k' ∧ a ≤ b ∧ b ≤ a' ∧ n ≤ k ∧ k ≤ n'

theorem oldUnack_snoc {r : RxStateReq} (rs : List RxStateReq) (unack : BitVec 24) :
    (rs ++ [r]).foldl (unackAfter q) unack = unackAfter q (rs.foldl (unackAfter q) unack) r := by
  rw [List.foldl_append]
  rfl

theorem Moves.stay (h : WindowInv q u) (hw : Window q u a a' n n') : Moves q u a a' n n' :=
  ⟨h, a, a', n, n', hw, le_rfl, hw.le.1, le_rfl, hw.le.2.2⟩

theorem WindowInv.generateIbh (h : WindowInv q t) (hw : Window q t a a' n n')
    (hok : t.keepsWindow q .generateIbh = true) (hs : t.step q .generateIbh = some u) : Moves q u a a' n n' := by
  obtain ⟨htx, hgive⟩ := h.tx.generateIbh hs
  have hle := hw.le
  have hmove (k' : Nat) (hk : n' ≤ k') (hfits : k' < a + 2 ^ 24) (hnext : u.nextPsn q = BitVec.ofNat 24 k')
      (hwrites : ∀ r ∈ u.tableIn.txIbh2stateTableUpdReq, r.write = true → r.qpn = q → r.psn = u.nextPsn q) :
      Moves q u a a' n n' := by
    obtain ⟨ibh, metas, event, dstQps, txRsp, reqs, given, hu⟩ : ∃ ibh metas event dstQps txRsp reqs given,
        u = { t with
          ibh, metas, event, dstQps, txRsp, given, tableIn := { t.tableIn with txIbh2stateTableUpdReq := reqs } } := by
      rcases generateIbh_cases hs with ⟨m, ev, ms, dst, dsts, -, -, -, hu, -⟩ | ⟨r, rs, -, -, hu, -⟩ | hu <;>
        exact ⟨_, _, _, _, _, _, _, hu⟩
    subst hu
    exact ⟨{ h with tx := htx, txWrites := hwrites }, a, a', n, k',
      { hw with next' := hnext, le := ⟨hle.1, hle.2.1, hle.2.2.trans hk⟩, fits := hfits }, le_rfl, hle.1, le_rfl, hle.2.2⟩
  have hreqs : ∀ r ∈ u.tableIn.txIbh2stateTableUpdReq, r.write = true → u.given = t.given →
      r ∈ t.tableIn.txIbh2stateTableUpdReq := by
    intro r hr hwr hg
    rcases generateIbh_cases hs with ⟨m, ev, ms, dst, dsts, -, -, -, hu, -⟩ | ⟨r', rs, -, -, hu, -⟩ | hu
    · rw [hu] at hr
      rcases List.mem_append.mp hr with hr | hr
      · exact hr
      · split at hr
        · exact (List.not_mem_nil hr).elim
        · rw [List.mem_singleton.mp hr] at hwr
          cases hwr
    · by_cases hop : t.ibh.metaReg.opCode = RC_ACK
      · rw [hu] at hr
        simpa [hop] using hr
      · -- a write comes with a number
        rw [hu] at hg
        simp [hop] at hg
    · rw [hu] at hr
      exact hr
  rcases hgive with ⟨hgiven, hnext⟩ | ⟨hst, hop, r, rs, hr, hgiven, hans, hnext⟩
  · refine hmove n' le_rfl hw.fits (hnext.trans hw.next') fun x hx hwx hq => ?_
    rw [hnext]
    exact h.txWrites x (hreqs x hx hwx hgiven) hwx hq
  · have hclient := h.tx.client
    rw [hr] at hclient
    have hreq : u.tableIn.txIbh2stateTableUpdReq =
        [{ qpn := t.workQp, psn := r.reqNextPsn + t.ibh.metaReg.numPkg.setWidth 24, write := true }] := by
      rcases generateIbh_cases hs with ⟨m, ev, ms, dst, dsts, hmeta, -⟩ | ⟨r', rs', -, hr', hu, -⟩ | hu
      · rw [hst] at hmeta
        cases hmeta
      · rw [hr] at hr'
        obtain ⟨rfl, rfl⟩ := List.cons.inj hr'
        rw [hu]
        simp [hop, hclient.take.2.1]
      · rw [hu] at hgiven
        simp at hgiven
    have hwrites : ∀ x ∈ u.tableIn.txIbh2stateTableUpdReq, x.write = true → x.qpn = q → x.psn = u.nextPsn q := by
      rw [hreq]
      intro x hx _ hq
      rw [List.mem_singleton.mp hx] at hq ⊢
      rw [hnext, if_pos hq]
    by_cases hq : t.workQp = q
    · simp only [keepsWindow, hst, hr, Bool.or_eq_true, beq_iff_eq, bne_iff_ne, decide_eq_true_eq] at hok
      have hroom := hok.resolve_left fun hc => hc.elim hop fun hne => hne hq
      rw [hans hq, hw.next', hw.unack, ofNat_sub_toNat (by omega) (by have := hw.fits; omega)] at hroom
      refine hmove (n' + t.ibh.metaReg.numPkg.toNat) (Nat.le_add_right _ _) (by omega) ?_ hwrites
      rw [hnext, if_pos hq, hans hq, hw.next', BitVec.ofNat_add]
      congr 1
      apply BitVec.eq_of_toNat_eq
      rw [BitVec.toNat_setWidth, BitVec.toNat_ofNat]
    · refine hmove n' le_rfl hw.fits ?_ hwrites
      rw [hnext, if_neg hq]
      exact hw.next'

/-- A response that is taken up while something is outstanding stays in the window. -/
theorem takenUp_le {p : Packet} {m : Nat} (hup : p.takenUp r = true) (hout : r.outstanding = true)
    (hepsn : r.epsn = BitVec.ofNat 24 a) (hmax : r.maxForward = BitVec.ofNat 24 m - 1) (hle : a ≤ m)
    (hfits : m < a + 2 ^ 24) : ∃ b, a ≤ b ∧ b ≤ m ∧ p.ibh.psn + 1 = BitVec.ofNat 24 b := by
  have hlt : a < m := by
    refine Nat.lt_of_le_of_ne hle fun heq => ?_
    rw [RxStateRsp.outstanding, hepsn, hmax, heq, BitVec.sub_add_cancel, bne_self_eq_false] at hout
    cases hout
  have hmax' : r.maxForward = BitVec.ofNat 24 (m - 1) := by
    obtain ⟨d, rfl⟩ := Nat.exists_eq_succ_of_ne_zero (by omega : m ≠ 0)
    rw [hmax, Nat.succ_eq_add_one, BitVec.ofNat_add, Nat.add_sub_cancel]
    exact BitVec.add_sub_cancel _ _
  simp only [Packet.takenUp, Bool.and_eq_true, Bool.or_eq_true, bne_iff_ne, ne_eq] at hup
  obtain ⟨⟨hin, -⟩, hwin⟩ := hup
  by_cases hop : p.ibh.opCode = RC_ACK
  · have hack := hwin.resolve_left (not_not_intro hop)
    rw [ackInWindow_iff hout, hepsn, hmax', ofNat_sub_toNat (by omega) (by omega)] at hack
    refine ⟨a + (p.ibh.psn - BitVec.ofNat 24 a).toNat + 1, by omega, by omega, ?_⟩
    rw [BitVec.ofNat_add, ← eq_ofNat_add]
    rfl
  · -- a part of the answer to a read request has the oldest number
    simp only [inOrder, Bool.or_eq_true, beq_iff_eq, hop, or_false] at hin
    refine ⟨a + 1, by omega, hlt, ?_⟩
    rw [← hin, hepsn, BitVec.ofNat_add]
    rfl

theorem WindowInv.decides {rs : List RxStateRsp} (h : WindowInv q t) (hw : Window q t a a' n n')
    (hst : t.rx.fsmState = .PROCESS) (hr : t.rxRsp = r :: rs) (hok : t.keepsWindow q .rxIbhFsm = true)
    (htx : TxInv q u)
    (hu : u = { t with
      rx := u.rx, rxRsp := rs
      tableIn := { t.tableIn with rxIbh2stateTableUpdReq := t.tableIn.rxIbh2stateTableUpdReq ++
        (process t.rx.metaReg t.rx.emeta t.rx.isResponse r).stateTableUpdReq } })
    (hload : u.rx.fsmState = .LOAD) : Moves q u a a' n n' := by
  have hle := hw.le
  have hclient := h.client
  rw [hr] at hclient
  obtain ⟨-, hreqs, hrs⟩ := hclient.take
  obtain ⟨hm, he, hi⟩ := h.registers hst
  have hreq : u.tableIn.rxIbh2stateTableUpdReq = (t.packet.decide r).stateTableUpdReq := by
    rw [hu, hm, he, hi]
    simp [hreqs, Packet.decide]
  have htable : u.table = t.table := by rw [hu]
  have hunack : (t.table q).reqOldUnack = BitVec.ofNat 24 a' := by
    rw [← hw.unack', oldUnack, hreqs]
    rfl
  -- the projected end after the decision
  obtain ⟨b, hab, hbn, hold, hwrites⟩ : ∃ b, a' ≤ b ∧ b ≤ n ∧ u.oldUnack q = BitVec.ofNat 24 b ∧
      ∀ x ∈ u.tableIn.rxIbh2stateTableUpdReq, x.write = true → x.isResponse = true → x.qpn = q →
        x.epsn = u.oldUnack q := by
    rw [oldUnack, hreq, htable, hunack]
    rcases decide_one_write t.packet r with hnil | ⟨x, hone⟩
    · rw [hnil]
      exact ⟨a', le_rfl, hle.2.1, rfl, fun x hx => (List.not_mem_nil hx).elim⟩
    · have hx := decide_writes t.packet r x (by rw [hone]; exact List.mem_singleton.mpr rfl)
      rw [hone, List.foldl_cons, List.foldl_nil, unackAfter, hx.1, hx.2.1, hx.2.2, Bool.true_and]
      cases hresp : t.packet.isResponse q with
      | false =>
        have hno : (checkIfResponse t.packet.ibh.opCode && t.packet.qpn == q) = false := by
          rw [Packet.isResponse, Bool.and_comm] at hresp
          exact hresp
        rw [hno]
        refine ⟨a', le_rfl, hle.2.1, rfl, ?_⟩
        intro y hy _ hisr hqp
        rw [List.mem_singleton.mp hy] at hisr hqp
        rw [hx.2.1] at hisr
        rw [hx.2.2] at hqp
        rw [hisr, hqp, beq_self_eq_true] at hno
        cases hno
      | true =>
        have hyes : (checkIfResponse t.packet.ibh.opCode && t.packet.qpn == q) = true := by
          rw [Packet.isResponse, Bool.and_comm] at hresp
          exact hresp
        rw [hyes, if_pos rfl]
        obtain ⟨m, ham, hmn, hepsn, hmax⟩ := hw.answer r (by rw [hr]; exact List.mem_cons_self) hresp
        have hfits := hw.fits
        have hval : ∃ b, a' ≤ b ∧ b ≤ n ∧ x.epsn = BitVec.ofNat 24 b := by
          rw [Bool.and_eq_true] at hyes
          rcases decide_response hyes.1 x (by rw [hone]; exact List.mem_singleton.mpr rfl) with hx' | ⟨hup, hx'⟩
          · exact ⟨a', le_rfl, hle.2.1, by rw [hx', hepsn]⟩
          · simp only [keepsWindow, hst, hr, hresp, hup, Bool.and_self, Bool.not_true, Bool.false_or,
              Bool.or_eq_true, beq_iff_eq] at hok
            rcases hok with hout | heq
            · obtain ⟨b, hb, hb', hpsn⟩ := takenUp_le hup hout hepsn hmax ham (by omega)
              exact ⟨b, hb, by omega, by rw [hx', hpsn]⟩
            · exact ⟨a', le_rfl, hle.2.1, by rw [hx', heq, hepsn]⟩
        obtain ⟨b, hb, hb', hxb⟩ := hval
        refine ⟨b, hb, hb', hxb, ?_⟩
        intro y hy _ _ _
        rw [List.mem_singleton.mp hy]
  have hne : IbhFsmState.LOAD ≠ .PROCESS := by decide
  generalize u.rx = rx at hu hload
  subst hu
  refine ⟨{ h with
    tx := htx, client := ?_, registers := fun hc => absurd (hload.symm.trans hc) hne, reads := ?_
    rxWrites := hwrites },
    a, b, n, n', { hw with unack' := hold, le := ⟨by omega, hbn, hle.2.2⟩, answer := ?_ }, le_rfl, hle.1, le_rfl,
    hle.2.2⟩
  · rw [hload, hreq, hrs]
    exact TableClient.quiet fun x hx => (decide_writes _ r x hx).1
  · rw [hreq]
    intro x hx hwx
    rw [(decide_writes _ r x hx).1] at hwx
    cases hwx
  · rw [hrs]
    exact fun x hx => (List.not_mem_nil hx).elim

theorem WindowInv.rxIbhFsm (h : WindowInv q t) (hw : Window q t a a' n n')
    (hok : t.keepsWindow q .rxIbhFsm = true) (hs : t.step q .rxIbhFsm = some u) : Moves q u a a' n n' := by
  have htx := h.tx.next hs
  rcases rxIbhFsm_cases hs with ⟨p, ps, hst, hp, hu, hproc, hm, he, hi⟩ | ⟨r, rs, hst, hr, hu, hload⟩ | rfl
  · have hclient := h.client
    rw [hst] at hclient
    have hold : u.oldUnack q = t.oldUnack q := by
      rw [hu, oldUnack, oldUnack, oldUnack_snoc]
      rfl
    generalize u.rx = rx at hu hproc hm he hi
    subst hu
    refine .stay
      { h with tx := htx, client := ?_, registers := fun _ => ⟨hm, he, hi⟩, reads := ?_, rxWrites := ?_ }
      { hw with unack' := hold.trans hw.unack', answer := ?_ }
    · rw [hproc]
      exact hclient.ask rfl
    · intro x hx hwx
      rcases List.mem_append.mp hx with hx | hx
      · rw [hclient.writes x hx] at hwx
        cases hwx
      · exact List.mem_singleton.mp hx
    · rw [hold]
      intro x hx hwx hisr hq
      rcases List.mem_append.mp hx with hx | hx
      · exact h.rxWrites x hx hwx hisr hq
      · rw [List.mem_singleton.mp hx] at hwx
        cases hwx
    · rw [hclient.rsps_eq_nil]
      exact fun x hx => (List.not_mem_nil hx).elim
  · exact h.decides hw hst hr hok htx hu hload
  · exact .stay h hw

theorem WindowInv.servesRx {r : RxStateReq} {rest : List RxStateReq} (h : WindowInv q t)
    (hw : Window q t a a' n n') (htx : TxInv q u) (hr : t.tableIn.rxIbh2stateTableUpdReq = r :: rest)
    (hu : u = { t with
      table := if r.write then Function.update t.table r.qpn ((t.table r.qpn).rxUpdate r) else t.table
      tableIn := { t.tableIn with rxIbh2stateTableUpdReq := rest }
      rxRsp := t.rxRsp ++ if r.write then [] else [(t.table r.qpn).reply r.isResponse] }) :
    Moves q u a a' n n' := by
  have hle := hw.le
  have hfits := hw.fits
  have hclient := h.client
  rw [hr] at hclient
  have hnextT : (u.table q).reqNextPsn = (t.table q).reqNextPsn := by
    rw [hu]
    cases r.write with
    | true => exact update_reqNextPsn t.table r.qpn (rxUpdate_reqNextPsn _ r)
    | false => rfl
  have hnext : u.nextPsn q = t.nextPsn q := by rw [nextPsn, nextPsn, hnextT, hu]
  cases hwr : r.write with
  | true =>
    have hserved : (u.table q).reqOldUnack = unackAfter q (t.table q).reqOldUnack r := by
      rw [hu]
      simp only [hwr, if_true, unackAfter, Bool.true_and]
      by_cases hq : q = r.qpn
      · subst hq
        unfold StateTableEntry.rxUpdate
        cases hisr : r.isResponse <;> simp
      · have hne : (r.qpn == q) = false := by simpa using fun hc => hq hc.symm
        rw [Function.update_of_ne hq, hne, Bool.and_false]
        rfl
    have hold : u.oldUnack q = t.oldUnack q := by
      rw [oldUnack, oldUnack, hserved, hr, List.foldl_cons, hu]
    obtain ⟨b, hab, hba, hunack⟩ : ∃ b, a ≤ b ∧ b ≤ a' ∧ (u.table q).reqOldUnack = BitVec.ofNat 24 b := by
      rw [hserved, unackAfter, hwr, Bool.true_and]
      by_cases hmine : (r.isResponse && r.qpn == q) = true
      · rw [if_pos hmine]
        rw [Bool.and_eq_true, beq_iff_eq] at hmine
        refine ⟨a', hle.1, le_rfl, ?_⟩
        rw [h.rxWrites r (by rw [hr]; exact List.mem_cons_self) hwr hmine.1 hmine.2, hw.unack']
      · rw [if_neg hmine]
        exact ⟨a, le_rfl, hle.1, hw.unack⟩
    simp only [hwr, if_true, List.append_nil] at hu
    subst hu
    refine ⟨{ h with tx := htx, client := hclient.serve_write hwr, reads := ?_, txWrites := ?_, rxWrites := ?_ },
      b, a', n, n', { hw with
        unack := hunack, unack' := hold.trans hw.unack', next := hnextT.trans hw.next, next' := hnext.trans hw.next'
        le := ⟨hba, hle.2⟩, fits := by omega }, hab, hba, le_rfl, hle.2.2⟩
    · exact fun x hx => h.reads x (by rw [hr]; exact List.mem_cons_of_mem _ hx)
    · rw [hnext]
      exact h.txWrites
    · rw [hold]
      exact fun x hx => h.rxWrites x (by rw [hr]; exact List.mem_cons_of_mem _ hx)
  | false =>
    obtain ⟨hbusy, hrest, hnil⟩ := hclient.serve_read hwr
    have hread := h.reads r (by rw [hr]; exact List.mem_cons_self) hwr
    have hnow : t.oldUnack q = (t.table q).reqOldUnack := by
      rw [oldUnack, hr, hrest, List.foldl_cons, unackAfter, hwr]
      rfl
    have hold : u.oldUnack q = t.oldUnack q := by
      rw [hnow, hu, hrest]
      simp [oldUnack, hwr]
    simp only [hwr, Bool.false_eq_true, if_false, hrest, hnil, List.nil_append] at hu
    subst hu
    refine .stay { h with tx := htx, client := ?_, reads := ?_, rxWrites := ?_ }
      { hw with unack' := hold.trans hw.unack', answer := ?_ }
    · rw [hbusy]
      exact TableClient.answered _
    · exact fun x hx => (List.not_mem_nil hx).elim
    · exact fun x hx => (List.not_mem_nil hx).elim
    · intro x hx hresp
      rw [Packet.isResponse, Bool.and_eq_true, beq_iff_eq] at hresp
      have hqp : r.qpn = q := by
        rw [hread, ← hresp.1]
        rfl
      have hisr : r.isResponse = true := by
        rw [hread, hresp.2]
        rfl
      rw [List.mem_singleton.mp hx, hqp, hisr]
      refine ⟨n, hle.2.1, le_rfl, ?_, ?_⟩
      · rw [← hw.unack', hnow]
        rfl
      · rw [← hw.next]
        rfl

theorem WindowInv.servesTx {r : TxStateReq} {rest : List TxStateReq} (h : WindowInv q t)
    (hw : Window q t a a' n n') (hs : t.step q .stateTable = some u)
    (hr : t.tableIn.txIbh2stateTableUpdReq = r :: rest)
    (hu : u = { t with
      table := if r.write then Function.update t.table r.qpn { t.table r.qpn with reqNextPsn := r.psn } else t.table
      tableIn := { t.tableIn with txIbh2stateTableUpdReq := rest }
      txRsp := t.txRsp ++ if r.write then [] else [t.table r.qpn] }) : Moves q u a a' n n' := by
  obtain ⟨htx, hnext⟩ := h.tx.stateTable hs
  have hle := hw.le
  have hunack : (u.table q).reqOldUnack = (t.table q).reqOldUnack := by
    rw [hu]
    cases r.write with
    | true =>
      simp only [if_true]
      by_cases hq : q = r.qpn
      · subst hq
        rw [Function.update_self]
      · rw [Function.update_of_ne hq]
    | false => rfl
  have hold : u.oldUnack q = t.oldUnack q := by rw [oldUnack, oldUnack, hunack, hu]
  obtain ⟨k, hnk, hkn, hnow⟩ : ∃ k, n ≤ k ∧ k ≤ n' ∧ (u.table q).reqNextPsn = BitVec.ofNat 24 k := by
    rw [hu]
    cases hwr : r.write with
    | false => exact ⟨n, le_rfl, hle.2.2, hw.next⟩
    | true =>
      simp only [if_true]
      by_cases hq : q = r.qpn
      · have hval := h.txWrites r (by rw [hr]; exact List.mem_cons_self) hwr hq.symm
        refine ⟨n', hle.2.2, le_rfl, ?_⟩
        subst hq
        rw [Function.update_self]
        exact hval.trans hw.next'
      · rw [Function.update_of_ne hq]
        exact ⟨n, le_rfl, hle.2.2, hw.next⟩
  subst hu
  refine ⟨{ h with tx := htx, txWrites := ?_, rxWrites := ?_ }, a, a', k, n', { hw with
    unack := hunack.trans hw.unack, unack' := hold.trans hw.unack', next := hnow, next' := hnext.trans hw.next'
    le := ⟨hle.1, by omega, hkn⟩, answer := ?_ }, le_rfl, hle.1, hnk, hkn⟩
  · rw [hnext]
    exact fun x hx => h.txWrites x (by rw [hr]; exact List.mem_cons_of_mem _ hx)
  · rw [hold]
    exact h.rxWrites
  · intro x hx hresp
    obtain ⟨m, ham, hmn, hx'⟩ := hw.answer x hx hresp
    exact ⟨m, ham, by omega, hx'⟩

theorem WindowInv.stateTable (h : WindowInv q t) (hw : Window q t a a' n n')
    (hs : t.step q .stateTable = some u) : Moves q u a a' n n' := by
  have htx := h.tx.next hs
  rcases stateTable_cases hs with ⟨r, rest, hr, hu⟩ | ⟨r, rest, hr, hu⟩ | ⟨r, rest, hr, hu⟩ | rfl
  · exact h.servesRx hw htx hr hu
  · exact h.servesTx hw hs hr hu
  · have htable : u.table q = t.table q := by
      rw [hu]
      cases hwr : r.write with
      | true =>
        have hne := h.tx.qpi r (by rw [hr]; exact List.mem_cons_self) hwr
        simp only [if_true]
        rw [Function.update_of_ne hne.symm]
      | false => rfl
    have hnext : u.nextPsn q = t.nextPsn q := by rw [nextPsn, nextPsn, htable, hu]
    have hold : u.oldUnack q = t.oldUnack q := by rw [oldUnack, oldUnack, htable, hu]
    subst hu
    exact .stay { h with tx := htx, txWrites := hnext ▸ h.txWrites, rxWrites := hold ▸ h.rxWrites }
      { hw with
        unack := htable ▸ hw.unack, unack' := hold.trans hw.unack', next := htable ▸ hw.next
        next' := hnext.trans hw.next' }
  · exact .stay h hw

theorem window_step {l : PsnLabel} (h : WindowInv q t) (hw : Window q t a a' n n') (hok : t.keepsWindow q l = true)
    (hs : t.step q l = some u) : Moves q u a a' n n' := by
  have htx := h.tx.next hs
  cases l with
  | generateIbh => exact h.generateIbh hw hok hs
  | rxIbhFsm => exact h.rxIbhFsm hw hok hs
  | stateTable => exact h.stateTable hw hs
  | qpi r =>
    simp only [step] at hs
    split at hs
    · cases hs
    · cases hs
      exact .stay { h with tx := htx } { hw with }
  | post | retransmit | ackEvent | readEvent | connection | arrive | localReqHandler | metaMerger =>
    cases hs
    exact .stay { h with tx := htx } { hw with }

theorem Connected.window {e : BitVec 24} (h : Connected q e t) :
    WindowInv q t ∧ Window q t e.toNat e.toNat e.toNat e.toNat := by
  have he : e = BitVec.ofNat 24 e.toNat := by rw [BitVec.ofNat_toNat, BitVec.setWidth_eq]
  refine ⟨⟨h.txInv, ?_, ?_, ?_, ?_, ?_⟩, ?_, ?_, ?_, ?_, ⟨le_rfl, le_rfl, le_rfl⟩, by omega, ?_⟩
  · rw [h.rx, h.queues.1, h.answers.2]
    exact TableClient.quiet fun r hr => (List.not_mem_nil hr).elim
  · rw [h.rx]
    exact fun hc => by cases hc
  · rw [h.queues.1]
    exact fun r hr => (List.not_mem_nil hr).elim
  · rw [h.queues.2]
    exact fun r hr => (List.not_mem_nil hr).elim
  · rw [h.queues.1]
    exact fun r hr => (List.not_mem_nil hr).elim
  · rw [h.unack, ← he]
  · rw [oldUnack, h.queues.1, List.foldl_nil, h.unack, ← he]
  · rw [h.next, ← he]
  · rw [nextPsn, h.queues.2, List.foldl_nil, h.next, ← he]
  · rw [h.answers.2]
    exact fun r hr => (List.not_mem_nil hr).elim

/-! ## Main result -/

/-- In every run in which the window has room for every request, and no response is taken up while nothing is
outstanding, each step leaves `req_old_unack` between its old value and `req_next_psn`. -/
theorem old_unack_in_window {e : BitVec 24} {t₀ : PsnNet} (h₀ : Connected q e t₀)
    (h : Reach (step q) (fun t l => t.keepsWindow q l = true) t₀ t) {l : PsnLabel}
    (hok : t.keepsWindow q l = true) (hs : t.step q l = some u) :
    ((u.table q).reqOldUnack - (t.table q).reqOldUnack).toNat ≤
      ((u.table q).reqNextPsn - (t.table q).reqOldUnack).toNat := by
  obtain ⟨hinv, a, a', n, n', hw⟩ : WindowInv q t ∧ ∃ a a' n n', Window q t a a' n n' := by
    refine h.invariant (P := fun t => WindowInv q t ∧ ∃ a a' n n', Window q t a a' n n') ?_ ?_
    · exact ⟨h₀.window.1, _, _, _, _, h₀.window.2⟩
    · rintro u l v ⟨hu, a, a', n, n', hw⟩ hok hs
      obtain ⟨hv, b, b', k, k', hw', -⟩ := window_step hu hw hok hs
      exact ⟨hv, b, b', k, k', hw'⟩
  obtain ⟨-, b, b', k, k', hw', hab, hba, hnk, hkn⟩ := window_step hinv hw hok hs
  have hle := hw.le
  have hle' := hw'.le
  have hfits := hw.fits
  rw [hw'.unack, hw.unack, hw'.next, ofNat_sub_toNat hab (by omega), ofNat_sub_toNat (by omega) (by omega)]
  omega

/-- An acknowledgement arrives and is judged; the table has not served the decision yet. -/
def acknowledge (psn : BitVec 24) : List PsnLabel :=
  [.arrive { ibh := ⟨RC_ACK, 0, 3, psn, true, 1⟩ }, .rxIbhFsm, .stateTable, .rxIbhFsm]

def twoWrites : List PsnLabel := postRequest RC_RDMA_WRITE_ONLY 64 ++ postRequest RC_RDMA_WRITE_ONLY 64

/-- Both ends of the window of queue pair 3. -/
def ends (t : PsnNet) : BitVec 24 × BitVec 24 := ((t.table 3).reqOldUnack, (t.table 3).reqNextPsn)

theorem ends_of_run {x y : BitVec 24 × BitVec 24} {t : PsnNet}
    (h : (t.ends, (t.step 3 .stateTable).map ends) = (x, some y)) :
    ∃ u, t.step 3 .stateTable = some u ∧ t.ends = x ∧ u.ends = y := by
  obtain ⟨hx, hy⟩ := Prod.mk.inj h
  obtain ⟨u, hu, hy⟩ := Option.map_eq_some_iff.mp hy
  exact ⟨u, hu, hx, hy⟩

-- The first of two writes is acknowledged across the end of the number space.
theorem old_unack_in_window_wrap : ∃ t u : PsnNet, t.step 3 .stateTable = some u ∧ t.ends = (0xFFFFFF, 1) ∧
    u.ends = (0, 1) ∧ ((u.table 3).reqOldUnack - (t.table 3).reqOldUnack).toNat ≤
      ((u.table 3).reqNextPsn - (t.table 3).reqOldUnack).toNat := by
  have hrun : (runIf (step 3) (fun t l => t.keepsWindow 3 l = true) connected
      (twoWrites ++ acknowledge 0xFFFFFF)).map (fun t => (t.ends, (t.step 3 .stateTable).map ends)) =
      some ((0xFFFFFF, 1), some (0, 1)) := by
    decide +kernel
  obtain ⟨t, ht, hval⟩ := Option.map_eq_some_iff.mp hrun
  obtain ⟨u, hu, hx, hy⟩ := ends_of_run hval
  exact ⟨t, u, hu, hx, hy, old_unack_in_window connected_connected (reach_of_runIf ht) rfl hu⟩

-- Both writes are acknowledged; then the first acknowledgement arrives once more.
theorem late_ack_moves_back : ∃ t u : PsnNet, Reach (step 3) anyStep connected t ∧ t.step 3 .stateTable = some u ∧
    t.ends = (1, 1) ∧ u.ends = (0, 1) ∧ ¬((u.table 3).reqOldUnack - (t.table 3).reqOldUnack).toNat ≤
      ((u.table 3).reqNextPsn - (t.table 3).reqOldUnack).toNat := by
  have hrun : (run (step 3) connected (twoWrites ++ acknowledge 0xFFFFFF ++ [.stateTable] ++ acknowledge 0 ++
      [.stateTable] ++ acknowledge 0xFFFFFF)).map (fun t => (t.ends, (t.step 3 .stateTable).map ends)) =
      some ((1, 1), some (0, 1)) := by
    decide +kernel
  obtain ⟨t, ht, hval⟩ := Option.map_eq_some_iff.mp hrun
  obtain ⟨u, hu, hx, hy⟩ := ends_of_run hval
  refine ⟨t, u, reach_of_run ht, hu, hx, hy, ?_⟩
  obtain ⟨ht1, -⟩ := Prod.mk.inj hx
  obtain ⟨hu1, hu2⟩ := Prod.mk.inj hy
  rw [ht1, hu1, hu2]
  decide

end PsnNet

end FpgaNetworkStack.Roce
