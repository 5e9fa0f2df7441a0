import FpgaNetworkStack.Icmp.MessageQueues

/-!
# When the queues of `icmp_server_core` suffice

While some words have not been read something can happen, as long as every echo packet fits into `packageBuffer1`.  A
longer one fills it before its verdict is there, and nobody takes anything out.
-/

namespace FpgaNetworkStack.Icmp

open Lib
open Axi (Word Ends Framed)

/-! ## The invariant holds in every state -/

theorem InsertChecksum.Reads.walk {s : InsertChecksum} {i : InsertIn} {r : InsertChecksum × InsertIn × List (Word 8)}
    {k : Fin 2} {w : Word 8} {rest : List (Word 8)} (h : s.Reads i r k w rest) (j : Fin 2) {vs : List (Word 8)} {d l : Nat}
    (hwalk : Walk (s.count j) (i.inputStreams j ++ vs) d l) :
    ∃ l', Walk (r.1.count j) (r.2.1.inputStreams j ++ vs) d l' ∧
      (r.2.1.checksumStreams j).length + l = (i.checksumStreams j).length + l' := by
  obtain ⟨hstream, hstreams, hcount, hother, hchecksum⟩ := h
  by_cases hj : j = k
  · subst hj
    rw [hstream] at hwalk
    obtain ⟨-, -, l', hrest, hl⟩ := hwalk.cons_inv
    rw [hstreams, Function.update_self, hcount]
    refine ⟨l', hrest, ?_⟩
    by_cases htwo : s.count j = 2
    · rw [if_pos htwo] at hchecksum hl
      obtain ⟨checksum, checksums, hread, hleft⟩ := hchecksum
      rw [hleft, Function.update_self, hread, List.length_cons, hl]
      omega
    · rw [if_neg htwo] at hchecksum hl
      rw [hchecksum, hl, Nat.add_zero]
  · obtain ⟨hbefore, hafter⟩ := hother j hj
    rw [hbefore] at hwalk
    rw [hstreams, Function.update_of_ne hj, hafter]
    refine ⟨l, hwalk, ?_⟩
    by_cases htwo : s.count k = 2
    · rw [if_pos htwo] at hchecksum
      obtain ⟨checksum, checksums, -, hleft⟩ := hchecksum
      rw [hleft, Function.update_of_ne hj]
    · rw [if_neg htwo] at hchecksum
      rw [hchecksum]

structure IcmpNet.Safe (n : IcmpNet) : Prop where
  echo : n.Echo
  messages : n.Messages
  fits : n.Fits

section

variable {n t : IcmpNet} {unread : Bool}

theorem IcmpNet.Safe.early (h : n.Safe) (k : Fin 2) (w : Word 8) (rest : List (Word 8))
    (hk : n.dataStreams k = w :: rest) : (n.insert.count k ≤ 2 → w.last = false) ∧ n.insert.count k ≤ 1000 := by
  match k, hk with
  | 0, hk =>
    obtain ⟨r, qs, q, rest', ps, hparts⟩ := h.echo
    have hreplies := hparts.replies
    rw [hk] at hreplies
    obtain ⟨hearly, hsmall, -⟩ := hreplies.cons_inv
    exact ⟨hearly, hsmall⟩
  | 1, hk =>
    obtain ⟨ws, ps, e, owed, l, hparts⟩ := h.messages
    have hreplies := hparts.replies
    rw [hk] at hreplies
    obtain ⟨hearly, hsmall, -⟩ := hreplies.cons_inv
    exact ⟨hearly, hsmall⟩

theorem safe_insert (h : n.Safe) : (n.call unread .insert).Echo ∧ (n.call unread .insert).Messages := by
  rcases insert_call (s := n.insert) (i := ⟨n.dataStreams, n.checksumStreams⟩) h.early with ⟨hcall, -⟩ | ⟨k, w, rest, hreads⟩
  · have hsame : n.call unread .insert = n := by
      simp only [IcmpNet.call, hcall, List.append_nil]
    rw [hsame]
    exact ⟨h.echo, h.messages⟩
  · refine ⟨Echo.frame h.echo rfl rfl rfl rfl rfl rfl fun ws hwalk => ?_,
      Messages.frame h.messages rfl rfl rfl rfl rfl rfl fun {e l} hwalk => ?_⟩
    · obtain ⟨l, hafter, hlen⟩ := hreads.walk 0 hwalk
      have heq : l = ((insertChecksum n.insert ⟨n.dataStreams, n.checksumStreams⟩).2.1.checksumStreams 0).length :=
        Nat.add_left_cancel (hlen.symm.trans (Nat.add_comm _ _))
      rw [heq] at hafter
      exact hafter
    · rw [← List.append_nil (n.dataStreams 1)] at hwalk
      obtain ⟨l', hafter, hlen⟩ := hreads.walk 1 hwalk
      rw [List.append_nil] at hafter
      exact ⟨l', hafter, hlen⟩

theorem safe_step (h : n.Safe) {a : Act} (hstep : n.step unread a = some t) : t.Safe := by
  cases a with
  | data =>
    cases hlater : n.dataLater with
    | nil =>
      simp only [IcmpNet.step, hlater] at hstep
      cases hstep
    | cons w later =>
      simp only [IcmpNet.step, hlater, Option.some.injEq] at hstep
      subst hstep
      exact ⟨echo_data h.echo hlater, Messages.frame h.messages rfl rfl rfl rfl rfl rfl fun hw => ⟨_, hw, rfl⟩, h.fits⟩
  | input k =>
    cases hlater : n.inputLater k with
    | nil =>
      simp only [IcmpNet.step, hlater] at hstep
      cases hstep
    | cons w later =>
      simp only [IcmpNet.step, hlater, Option.some.injEq] at hstep
      subst hstep
      exact ⟨Echo.frame h.echo rfl rfl rfl rfl rfl rfl fun _ hw => hw, messages_input h.messages hlater, h.fits⟩
  | call p =>
    simp only [IcmpNet.step] at hstep
    split at hstep
    · rename_i hfits
      cases hstep
      have hone : (1 : Fin 2) ≠ 0 := by decide
      cases p with
      | check =>
        refine ⟨echo_check unread h.echo, Messages.frame h.messages rfl rfl rfl rfl rfl rfl fun hw => ⟨_, hw, ?_⟩, hfits⟩
        simp only [IcmpNet.call, put_other hone]
      | unreachable =>
        refine ⟨Echo.frame h.echo rfl rfl rfl rfl rfl rfl fun _ hw => ?_, messages_unreachable unread h.messages, hfits⟩
        simp only [IcmpNet.call, put_other hone.symm]
        exact hw
      | addIp =>
        refine ⟨Echo.frame h.echo rfl rfl rfl rfl rfl rfl fun _ hw => ?_, messages_addIp unread h.messages, hfits⟩
        simp only [IcmpNet.call, put_other hone.symm]
        exact hw
      | dropper =>
        refine ⟨echo_dropper unread h.echo, Messages.frame h.messages rfl rfl rfl rfl rfl rfl fun {e l} hw => ⟨l, ?_, rfl⟩, hfits⟩
        simp only [IcmpNet.call, put_other hone]
        exact hw
      | insert =>
        obtain ⟨hecho, hmessages⟩ := safe_insert h
        exact ⟨hecho, hmessages, hfits⟩
    · cases hstep

/-! ## Some process can go on -/

theorem put_fits {α : Type} {k : Fin 2} {queues : Fin 2 → List α} {items : List α} (h : ∀ j, (queues j).length ≤ 16)
    (hk : (queues k).length + items.length ≤ 16) (j : Fin 2) : (put k queues items j).length ≤ 16 := by
  by_cases hj : j = k
  · subst hj
    rw [put_self, List.length_append]
    exact hk
  · rw [put_other hj]
    exact h j

theorem stuck_call (hstuck : ∀ a t, n.step unread a = some t → t = n) {p : Proc} (hfits : (n.call unread p).Fits) :
    n.call unread p = n := by
  apply hstuck (.call p)
  rw [IcmpNet.step, if_pos hfits]

theorem stuck_later (hstuck : ∀ a t, n.step unread a = some t → t = n) :
    n.dataLater = [] ∧ n.inputLater = fun _ => [] := by
  constructor
  · cases hlater : n.dataLater with
    | nil => rfl
    | cons w rest =>
      have heq := congrArg IcmpNet.dataLater (hstuck .data _ (by simp only [IcmpNet.step, hlater]; rfl))
      rw [hlater] at heq
      exact absurd heq.symm (List.cons_ne_self w rest)
  · funext k
    cases hlater : n.inputLater k with
    | nil => rfl
    | cons w rest =>
      have heq := congrArg (fun n => n.inputLater k) (hstuck (.input k) _ (by simp only [IcmpNet.step, hlater]; rfl))
      simp only [Function.update_self, hlater] at heq
      exact absurd heq.symm (List.cons_ne_self w rest)

theorem stuck_dropper (h : n.Safe) (hstuck : ∀ a t, n.step unread a = some t → t = n) {r q rest : List (Word 8)}
    {qs ps : List (List (Word 8))} (hparts : EchoParts n r qs q rest ps) (hroom : (n.dataStreams 0).length < 16) :
    r = [] ∧ qs = [] := by
  have hcalls := dropper_calls unread (q := q) hparts.left hparts.judged hparts.verdicts
  rw [← hparts.buffer] at hcalls
  rcases hcalls with ⟨-, hr, hqs⟩ | ⟨-, -, -, -, hshort, -, hless, hone⟩
  · exact ⟨hr, hqs⟩
  · obtain ⟨hbuffer, hvalid, hheader, hdata, hboth⟩ := h.fits
    have hfits : (n.call unread .dropper).Fits := by
      refine ⟨Nat.le_trans (Nat.le_of_lt hless) hbuffer, Nat.le_trans hshort hvalid, hheader, hdata, fun k => ⟨?_, (hboth k).2⟩⟩
      exact put_fits (fun j => (hboth j).1) (by omega) k
    have heq := congrArg (fun n => n.packageBuffer1.length) (stuck_call hstuck hfits)
    exact absurd heq (Nat.ne_of_lt hless)

theorem stuck_check (h : n.Safe) (hstuck : ∀ a t, n.step unread a = some t → t = n) {q rest : List (Word 8)}
    {ps : List (List (Word 8))} (hparts : EchoParts n [] [] q rest ps) (hroom : (n.checksumStreams 0).length < 16) :
    n.dataIn = [] := by
  obtain ⟨-, -, hheader, hdata, hboth⟩ := h.fits
  have hbuffer : n.packageBuffer1 = q := hparts.buffer
  have hvalid : n.validFifo = [] := List.length_eq_zero_iff.mp hparts.verdicts
  -- what has been written of the packet fits, with or without its verdict
  have hfits {out : List (Word 8)} (hout : (checkIcmpChecksum n.check n.dataIn).2.2.dataOut = out)
      (hlen : q.length + out.length ≤ 64) (hverdict : (checkIcmpChecksum n.check n.dataIn).2.2.validFifoOut.length ≤ 1)
      (hone : (checkIcmpChecksum n.check n.dataIn).2.2.checksumFifoOut.length ≤ 1) : n.call unread .check = n := by
    apply stuck_call hstuck
    refine ⟨?_, ?_, hheader, hdata, fun k => ⟨(hboth k).1, put_fits (fun j => (hboth j).2) (by omega) k⟩⟩
    · show (n.packageBuffer1 ++ _).length ≤ 64
      rw [hout, hbuffer, List.length_append]
      exact hlen
    · show (n.validFifo ++ _).length ≤ 8
      rw [hvalid, List.nil_append]
      omega
  rcases check_calls hparts.check hparts.input hparts.later with ⟨-, hempty⟩ | ⟨hat, -, -, hq, hverdict, hchecksum, hne⟩ |
    ⟨valid, hq, -, -, -, hout, hverdict, hchecksum⟩
  · exact hempty
  · have hsame := hfits rfl (by rw [← List.length_append, hq]; exact hat.length_le) (by rw [hverdict]; exact Nat.zero_le 1)
      (by rw [hchecksum]; exact Nat.zero_le 1)
    exact absurd ⟨congrArg IcmpNet.check hsame, congrArg IcmpNet.dataIn hsame⟩ hne
  · have hsame := hfits hout hq.most (by rw [hverdict]; exact Nat.le_refl 1) (by rw [hchecksum]; split <;> decide)
    have heq : n.validFifo ++ (checkIcmpChecksum n.check n.dataIn).2.2.validFifoOut = n.validFifo :=
      congrArg IcmpNet.validFifo hsame
    rw [hverdict, List.append_right_eq_self] at heq
    cases heq

theorem stuck_addIp (h : n.Safe) (hstuck : ∀ a t, n.step unread a = some t → t = n) {ws : List (Word 8)}
    {ps : Fin 2 → List (Framed 8)} {e owed k : Nat} (hparts : MessageParts n ws ps e owed k) (hroom : n.dataStreams 1 = []) :
    n.addIp.Waiting ⟨n.data, n.header⟩ := by
  obtain ⟨hbuffer, hvalid, hheader, hdata, hboth⟩ := h.fits
  have hfull : decide (16 ≤ (n.dataStreams 1).length) = false := by
    rw [hroom]
    rfl
  rcases addIp_call hparts.addIp with ⟨-, hwait⟩ | ⟨t, data, header, w, owed', hr, -, -, -, -, hless, hless'⟩
  · exact hwait
  · have hfits : (n.call unread .addIp).Fits := by
      simp only [IcmpNet.call, hfull, hr]
      refine ⟨hbuffer, hvalid, Nat.le_trans hless' hheader, Nat.le_trans hless hdata, fun j => ⟨?_, (hboth j).2⟩⟩
      exact put_fits (fun j => (hboth j).1) (by rw [hroom]; exact Nat.le_add_left 1 15) j
    have heq := congrArg (fun n => n.dataStreams 1) (stuck_call hstuck hfits)
    simp only [IcmpNet.call, hfull, hr, put_self, List.append_right_eq_self] at heq
    cases heq

theorem stuck_unreachable (h : n.Safe) (hstuck : ∀ a t, n.step unread a = some t → t = n) {ws : List (Word 8)}
    {ps : Fin 2 → List (Framed 8)} {e owed k : Nat} (hparts : MessageParts n ws ps e owed k) (hdata : n.data.length ≤ 189)
    (hheader : n.header.length ≤ 1) (hvalue : (n.checksumStreams 1).length ≤ 1) :
    n.unreachable.udpState = .UDP_IDLE ∧ n.input = ⟨fun _ => []⟩ ∧ ws = [] := by
  obtain ⟨hbuffer, hvalid, -, -, hboth⟩ := h.fits
  have hfull : n.full = {} := by
    simp only [IcmpNet.full, UnreachableFull.mk.injEq, decide_eq_false_iff_not]
    omega
  have hcalls := unreachable_calls n.unreachable n.input
  rw [← hfull] at hcalls
  -- one item at most goes to each queue
  have hone : (udpPortUnreachable n.full n.unreachable n.input).2.2.data.length ≤ 1 ∧
      (udpPortUnreachable n.full n.unreachable n.input).2.2.header.length ≤ 1 ∧
      (udpPortUnreachable n.full n.unreachable n.input).2.2.value.length ≤ 1 := by
    generalize udpPortUnreachable n.full n.unreachable n.input = r at hcalls
    cases hcalls <;> exact ⟨Nat.le_of_ble_eq_true rfl, Nat.le_of_ble_eq_true rfl, Nat.le_of_ble_eq_true rfl⟩
  obtain ⟨hdata1, hheader1, hvalue1⟩ := hone
  have hsame : n.call unread .unreachable = n := by
    apply stuck_call hstuck
    refine ⟨hbuffer, hvalid, ?_, ?_, fun j => ⟨(hboth j).1, put_fits (fun j => (hboth j).2) (by omega) j⟩⟩
    · show (n.header ++ _).length ≤ 64
      rw [List.length_append]
      omega
    · show (n.data ++ _).length ≤ 192
      rw [List.length_append]
      omega
  have hquiet : (udpPortUnreachable n.full n.unreachable n.input).2.2 = {} := by
    apply UnreachableOut.ext
    · exact List.append_right_eq_self.mp (congrArg IcmpNet.data hsame)
    · exact List.append_right_eq_self.mp (congrArg IcmpNet.header hsame)
    · have heq := congrArg (fun n => n.checksumStreams 1) hsame
      simp only [IcmpNet.call, put_self] at heq
      exact List.append_right_eq_self.mp heq
  have hcomes := hparts.comes
  rw [(stuck_later hstuck).2] at hcomes
  have hnone : Comes n.unreachable n.input [] ws ps := hcomes
  have hend : udpPortUnreachable {} n.unreachable n.input = (n.unreachable, n.input, {}) := by
    rw [← hfull]
    exact Prod.ext (congrArg IcmpNet.unreachable hsame) (Prod.ext (congrArg IcmpNet.input hsame) hquiet)
  obtain ⟨hs, hi, hws, -⟩ := hnone.at_rest hparts.pending hend
  exact ⟨hs, hi, hws⟩

theorem stuck_insert (h : n.Safe) (hstuck : ∀ a t, n.step unread a = some t → t = n) :
    n.insert.Waiting ⟨n.dataStreams, n.checksumStreams⟩ := by
  obtain ⟨hbuffer, hvalid, hheader, hdata, hboth⟩ := h.fits
  rcases insert_call (s := n.insert) (i := ⟨n.dataStreams, n.checksumStreams⟩) h.early with ⟨-, hwait⟩ | ⟨k, w, rest, hreads⟩
  · exact hwait
  · obtain ⟨hstream, hstreams, -, -, hchecksum⟩ := hreads
    have hread : n.dataStreams k = w :: rest := hstream
    have hshort (j : Fin 2) : (Function.update n.dataStreams k rest j).length ≤ (n.dataStreams j).length := by
      by_cases hj : j = k
      · subst hj
        rw [Function.update_self, hread]
        exact Nat.le_succ _
      · rw [Function.update_of_ne hj]
    have hshort' (j : Fin 2) : ((insertChecksum n.insert ⟨n.dataStreams, n.checksumStreams⟩).2.1.checksumStreams j).length ≤
        (n.checksumStreams j).length := by
      split at hchecksum
      · obtain ⟨checksum, checksums, hfirst, hleft⟩ := hchecksum
        have hk : n.checksumStreams k = checksum :: checksums := hfirst
        rw [hleft]
        by_cases hj : j = k
        · subst hj
          rw [Function.update_self, hk]
          exact Nat.le_succ _
        · rw [Function.update_of_ne hj]
      · rw [hchecksum]
    have hfits : (n.call unread .insert).Fits := by
      refine ⟨hbuffer, hvalid, hheader, hdata, fun j => ⟨?_, Nat.le_trans (hshort' j) (hboth j).2⟩⟩
      simp only [IcmpNet.call, hstreams]
      exact Nat.le_trans (hshort j) (hboth j).1
    have heq := congrArg (fun n => n.dataStreams k) (stuck_call hstuck hfits)
    simp only [IcmpNet.call, hstreams, Function.update_self, hread] at heq
    exact absurd heq.symm (List.cons_ne_self w rest)

/-- While some words have not been read something can happen. -/
theorem safe_not_deadlock (h : n.Safe) : ¬n.Deadlock unread := by
  rintro ⟨hunread, hstuck⟩
  obtain ⟨r, qs, q, rest, ps, hecho⟩ := h.echo
  obtain ⟨ws, ps', e, owed, k, hmessages⟩ := h.messages
  have hreplies := hecho.replies
  have hwords := hmessages.replies
  have hvalues := hmessages.values
  have hone := n.unreachable.values_le
  -- nothing is left in front of `insertChecksum`, and `dropper` has nothing more for it
  have hdropped (hempty : n.dataStreams 0 = []) : r = [] ∧ qs = [] ∧
      n.insert.count 0 = 0 ∧ (n.checksumStreams 0).length = 0 := by
    obtain ⟨rfl, rfl⟩ := stuck_dropper h hstuck hecho (by rw [hempty]; decide)
    have hvalid : n.validFifo = [] := List.length_eq_zero_iff.mp hecho.verdicts
    have hpassed : n.drop.passed [] = [] := ite_self []
    rw [hempty, hpassed, hvalid] at hreplies
    obtain ⟨hzero, hnone⟩ := hreplies.nil_inv
    exact ⟨rfl, rfl, hzero.symm, hnone⟩
  have hrests (hempty : n.dataStreams 1 = []) :
      n.insert.count 1 = 0 ∧ n.input = ⟨fun _ => []⟩ := by
    rw [hempty] at hwords
    obtain ⟨he, hk⟩ := hwords.nil_inv
    obtain ⟨hheader, hdata, howed, hbegun⟩ := hmessages.addIp.starved (stuck_addIp h hstuck hmessages hempty)
      n.unreachable.headers_le hmessages.pending.nil_or_ends
    obtain ⟨hidle, hinput, hnil⟩ := stuck_unreachable h hstuck hmessages hdata hheader (by omega)
    refine ⟨?_, hinput⟩
    by_contra hne
    rcases hbegun (by rw [he]; exact hne) with hheaders | hws
    · exact hheaders (if_neg (by rw [hidle]; exact UState.noConfusion))
    · exact hws hnil
  rcases stuck_insert h hstuck with hall | ⟨j, hne, hmissing⟩
  · -- between two packets, with nothing to read
    obtain ⟨rfl, rfl, -, hchecksum⟩ := hdropped (hall 0).2
    have hdataIn := stuck_check h hstuck hecho (by omega)
    obtain ⟨-, hinput⟩ := hrests (hall 1).2
    obtain ⟨hdata, hlater⟩ := stuck_later hstuck
    rcases hunread with hleft | ⟨j, hleft⟩
    · rw [hdataIn, hdata] at hleft
      exact hleft rfl
    · rw [hinput, hlater] at hleft
      exact hleft rfl
  · match j, hne, hmissing with
    | 0, hne, hmissing =>
      rcases hmissing with hempty | ⟨htwo, hnone⟩
      · exact hne (hdropped hempty).2.2.1
      · -- the checksum was written before the first word of the packet
        cases hstream : n.dataStreams 0 with
        | nil => exact hne (hdropped hstream).2.2.1
        | cons w more =>
          rw [hstream] at hreplies
          obtain ⟨-, -, l, -, hl⟩ := hreplies.cons_inv
          rw [if_pos htwo, show n.checksumStreams 0 = [] from hnone] at hl
          exact absurd hl (Nat.zero_ne_add_one l)
    | 1, hne, hmissing =>
      rcases hmissing with hempty | ⟨htwo, hnone⟩
      · exact hne (hrests hempty).1
      · cases hstream : n.dataStreams 1 with
        | nil => exact hne (hrests hstream).1
        | cons w more =>
          -- its message is the only one, and there is room for all of it
          rw [hstream] at hwords
          obtain ⟨-, -, l, -, hl⟩ := hwords.cons_inv
          rw [if_pos htwo] at hl
          rw [show n.checksumStreams 1 = [] from hnone, List.length_nil] at hvalues
          have howed : owed = 0 := by omega
          have haddIp := hmessages.addIp
          rw [howed] at haddIp
          obtain ⟨hheaders, hdata⟩ := haddIp.single
          rw [List.length_append] at hdata
          obtain ⟨hidle, -, -⟩ := stuck_unreachable h hstuck hmessages (by omega) (by omega)
            (by rw [show n.checksumStreams 1 = [] from hnone]; decide)
          rw [show n.unreachable.values = 0 from if_pos hidle] at hvalues
          omega

/-- No state is a deadlock, when the echo packets fit into `packageBuffer1` and all packets have at least four words. -/
theorem fits_no_deadlock (unread : Bool) {ps : List (Framed 8)} {qs : Fin 2 → List (Framed 8)}
    (hps : ∀ p ∈ ps, 4 ≤ p.words.length ∧ p.words.length ≤ 64)
    (hqs : ∀ k, ∀ p ∈ qs k, 4 ≤ p.words.length ∧ p.bytes.length ≤ 1500) {n : IcmpNet}
    (h : Reach (IcmpNet.step unread) anyStep (serverStart ps qs) n) : ¬n.Deadlock unread := by
  have hstart : (serverStart ps qs).Safe := by
    refine ⟨echo_start (fun p hp => ⟨p.packet.ends, (hps p hp).1, (hps p hp).2⟩) qs, messages_start ps fun k p hp => ?_, ?_⟩
    · obtain ⟨hlow, hhigh⟩ := hqs k p hp
      have hlen := p.packet.length_bytes.2
      exact ⟨hlow, by omega⟩
    · exact ⟨Nat.zero_le _, Nat.zero_le _, Nat.zero_le _, Nat.zero_le _, fun k => ⟨Nat.zero_le _, Nat.zero_le _⟩⟩
  exact safe_not_deadlock (h.invariant hstart fun u a v hu _ hstep => safe_step hu hstep)

def fourWords : Framed 8 :=
  .full (List.replicate 8 0) rfl (.full (List.replicate 8 1) rfl (.full (List.replicate 8 2) rfl
    (.single (List.replicate 4 3) (by decide))))

/-- One such packet from each side, while the first words are on their way. -/
theorem fits_no_deadlock_fourWords :
    ∃ n, run (IcmpNet.step false) (serverStart [fourWords] fun _ => [fourWords])
      [.data, .input 1, .call .check, .call .unreachable, .call .unreachable, .call .addIp] = some n ∧
      ¬n.Deadlock false := by
  obtain ⟨n, hn⟩ : ∃ n, run (IcmpNet.step false) (serverStart [fourWords] fun _ => [fourWords])
    [.data, .input 1, .call .check, .call .unreachable, .call .unreachable, .call .addIp] = some n := ⟨_, rfl⟩
  refine ⟨n, hn, fits_no_deadlock false ?_ ?_ (reach_of_run hn)⟩
  · exact List.forall_mem_singleton.mpr ⟨by decide, by decide⟩
  · exact fun k => List.forall_mem_singleton.mpr ⟨by decide, by decide⟩

/-! ## Packets that do not fit -/

theorem reach_data (unread : Bool) (later : List (Word 8)) (dataIn : List (Word 8)) :
    Reach (IcmpNet.step unread) anyStep { dataLater := later, dataIn := dataIn } { dataIn := dataIn ++ later } := by
  induction later generalizing dataIn with
  | nil =>
    rw [List.append_nil]
    exact Reach.refl _
  | cons w later ih =>
    refine Relation.ReflTransGen.head ⟨.data, trivial, rfl⟩ ?_
    have hmore := ih (dataIn ++ [w])
    rw [List.append_assoc] at hmore
    exact hmore

theorem reach_filled (unread : Bool) {ws : List (Word 8)} (h : Ends ws) (hlen : 66 ≤ ws.length) (tail : List (Word 8)) {m : Nat} (hm : m ≤ 64) :
    ∃ rest s buffer, Reach (IcmpNet.step unread) anyStep { dataLater := ws ++ tail }
        { dataIn := rest ++ tail, check := s, packageBuffer1 := buffer } ∧
      Ends rest ∧ rest.length + m + 1 = ws.length ∧ buffer.length = m ∧ s.writeLastOne = false ∧ s.computeCs = false ∧
      s.wordCount.toNat = m + 1 ∧ s.prevWord.last = false := by
  induction m with
  | zero =>
    obtain ⟨w, rest, rfl⟩ : ∃ w rest, ws = w :: rest := by cases h <;> exact ⟨_, _, rfl⟩
    rw [List.length_cons] at hlen
    rcases Ends.cons_inv h with ⟨-, rfl⟩ | ⟨hlast, hrest⟩
    · exact absurd hlen (by decide)
    have hdata := reach_data unread (w :: rest ++ tail) []
    have hcall : IcmpNet.call unread { dataIn := w :: rest ++ tail } .check =
        { dataIn := rest ++ tail, check := { prevWord := w, wordCount := 1 } } := by
      have hput : put 0 (fun _ => []) [] = fun _ => ([] : List (BitVec 16)) := Function.update_eq_self ..
      have hread := check_read (s := {}) (w := w) rfl rfl (rest ++ tail)
      simp only [IcmpNet.call, List.cons_append, hread, hlast]
      simp [CheckIcmp.word, hput]
    refine ⟨rest, { prevWord := w, wordCount := 1 }, [], hdata.tail ⟨.call .check, trivial, ?_⟩, hrest, rfl,
      rfl, rfl, rfl, rfl, hlast⟩
    rw [List.nil_append, IcmpNet.step, hcall, if_pos]
    exact ⟨Nat.zero_le _, Nat.zero_le _, Nat.zero_le _, Nat.zero_le _, fun k => ⟨Nat.zero_le _, Nat.zero_le _⟩⟩
  | succ m ih =>
    obtain ⟨rest, s, buffer, hreach, hrest, hleft, hbuffer, hwrite, hcompute, hcount, hprev⟩ := ih (by omega)
    obtain ⟨w, rest, rfl⟩ : ∃ w rest', rest = w :: rest' := by cases hrest <;> exact ⟨_, _, rfl⟩
    rw [List.length_cons] at hleft
    rcases Ends.cons_inv hrest with ⟨-, rfl⟩ | ⟨hlast, hends⟩
    · rw [List.length_nil] at hleft
      omega
    have hne : s.wordCount ≠ 0 := by
      intro heq
      rw [heq] at hcount
      exact absurd hcount (Nat.zero_ne_add_one _)
    obtain ⟨x, hx, -, hprev'⟩ := CheckIcmp.word_behind hne hprev w
    have hnext : (s.wordCount + 1).toNat = m + 2 := by
      rw [BitVec.toNat_add, hcount]
      show (m + 1 + 1) % 65536 = m + 2
      omega
    have hcall : IcmpNet.call unread { dataIn := w :: rest ++ tail, check := s, packageBuffer1 := buffer } .check =
        { dataIn := rest ++ tail, check := { (s.word w).1 with
            wordCount := s.wordCount + 1, writeLastOne := false, computeCs := false },
          packageBuffer1 := buffer ++ [x] } := by
      have hput : put 0 (fun _ => []) [] = fun _ => ([] : List (BitVec 16)) := Function.update_eq_self ..
      simp only [IcmpNet.call, List.cons_append, check_read hwrite hcompute, hlast, hx]
      simp [hput]
    refine ⟨rest, { (s.word w).1 with wordCount := s.wordCount + 1, writeLastOne := false, computeCs := false },
      buffer ++ [x], hreach.tail ⟨.call .check, trivial, ?_⟩, hends, by omega, ?_, rfl, rfl, hnext,
      hprev'.trans hlast⟩
    · rw [IcmpNet.step, hcall, if_pos]
      refine ⟨?_, Nat.zero_le _, Nat.zero_le _, Nat.zero_le _, fun k => ⟨Nat.zero_le _, Nat.zero_le _⟩⟩
      rw [List.length_append, hbuffer]
      exact hm
    · rw [List.length_append, hbuffer]
      rfl

/-- A packet of more than 65 words stays in `packageBuffer1`, and whatever comes behind it is never read. -/
theorem long_deadlock (unread : Bool) {p : Framed 8} (hp : 66 ≤ p.words.length) (ps : List (Framed 8)) :
    ∃ n, Reach (IcmpNet.step unread) anyStep (serverStart (p :: ps) fun _ => []) n ∧ n.Deadlock unread := by
  obtain ⟨rest, s, buffer, hreach, hrest, hleft, hbuffer, hwrite, hcompute, hcount, hprev⟩ :=
    reach_filled unread p.packet.ends hp (ps.flatMap (·.words)) (m := 64) (Nat.le_refl 64)
  obtain ⟨w, rest, rfl⟩ : ∃ w rest', rest = w :: rest' := by cases hrest <;> exact ⟨_, _, rfl⟩
  refine ⟨_, hreach, .inl (List.cons_ne_nil _ _), fun a t hstep => ?_⟩
  have hput {α : Type} (k : Fin 2) : put k (fun _ => []) [] = fun _ => ([] : List α) := Function.update_eq_self ..
  cases a with
  | data => cases hstep
  | input k => cases hstep
  | call q =>
    rw [IcmpNet.step] at hstep
    split at hstep
    · rename_i hfits
      cases hstep
      cases q with
      | check =>
        -- the next word does not fit
        have hne : s.wordCount ≠ 0 := by
          intro heq
          rw [heq] at hcount
          exact absurd hcount (by decide)
        obtain ⟨x, hx, -⟩ := CheckIcmp.word_behind hne hprev w
        have hfull := hfits.1
        simp only [IcmpNet.call, List.cons_append, check_read hwrite hcompute, hx, List.length_append, hbuffer] at hfull
        exact absurd hfull (Nat.not_succ_le_self 64)
      | unreachable => simp [IcmpNet.call, udpPortUnreachable, hput]
      | addIp => simp [IcmpNet.call, udpAddIpHeader, hput]
      | dropper =>
        have hwait : dropper unread {} ⟨buffer, []⟩ = ({}, ⟨buffer, []⟩, []) := by
          cases buffer with
          | nil => rfl
          | cons x buffer => cases unread <;> rfl
        simp [IcmpNet.call, hwait, hput]
      | insert => simp [IcmpNet.call, insertChecksum]
    · cases hstep

/-- An echo request of 528 bytes, with a correct checksum. -/
def bulkRequest : List (BitVec 8) :=
  [0x45, 0, 0x02, 0x10, 0, 0, 0, 0, 0x40, 1, 0, 0, 10, 0, 0, 2, 10, 0, 0, 1] ++ [8, 0, 0xF7, 0xFF, 0, 0, 0, 0] ++
    List.replicate 500 0

theorem bulkRequest_deadlock :
    ∃ p : Framed 8, p.bytes = bulkRequest ∧ p.bytes.length ≤ 1500 ∧
      ∃ n, Reach (IcmpNet.step false) anyStep (serverStart [p] fun _ => []) n ∧ n.Deadlock false := by
  have hne : bulkRequest ≠ [] := List.cons_ne_nil _ _
  obtain ⟨ws, hpacket, -⟩ := Axi.exists_packet (N := 8) (by decide) hne
  have hlen : bulkRequest.length = 528 := by
    rw [bulkRequest, List.length_append, List.length_replicate]
    rfl
  refine ⟨⟨ws, bulkRequest, hpacket⟩, rfl, by rw [hlen]; decide, long_deadlock false ?_ []⟩
  have hwords := hpacket.length_bytes.1
  rw [hlen] at hwords
  show 66 ≤ ws.length
  omega

end

end FpgaNetworkStack.Icmp
