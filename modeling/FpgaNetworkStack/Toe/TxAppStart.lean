import FpgaNetworkStack.Toe.SendWindow
import FpgaNetworkStack.Toe.TxBuffer

/-!
# The application side of a session from its initialisation on

The tx_sar table initialises a session first and tells `tx_app_table` with a push.  Until that push is
served the old entry is still in the table, but pushes are served before requests, so nobody reads it.
-/

namespace FpgaNetworkStack.Toe

open Lib

variable {b : Build} {sid : SessionID}

namespace AppNet

/-- The initialising push of `sid` is still queued: `mempt` will be at `P`, and the pushes behind it will
have moved `ackd` to `B`. -/
structure Opening (sid : SessionID) (t : AppNet b) (B P : Nat) : Prop where
  push : ∃ pre p post, t.ackPush = pre ++ p :: post ∧ (∀ q ∈ pre, q.sessionID ≠ sid) ∧
    p.sessionID = sid ∧ p.init = true ∧ p.ackd = BitVec.ofNat _ P ∧
    Moves (ackdMove sid) (P - 1) B post ∧ Engines sid { t with ackPush := post }
  pos : 0 < P
  le : B ≤ P
  upd : ∀ q ∈ t.updReq, q.write = true → q.sessionID ≠ sid
  read : t.fifo.txSar2txAppUpdRsp ≠ [] → t.tasi.tasiWriteMeta.sessionID ≠ sid

/-- The session is initialised or about to be: once everything queued is served, `ackd` is at `B` and
`mempt` at `P`. -/
def Live (sid : SessionID) (t : AppNet b) (B P : Nat) : Prop :=
  (Engines sid t ∧ ∃ A M, Window sid t A B M P) ∨ Opening sid t B P

variable {t : AppNet b} {B P : Nat}

theorem Opening.move (h : Opening sid t B P) : P - 1 ≤ B := by
  obtain ⟨_, _, _, -, -, -, -, -, hm, -⟩ := h.push
  exact hm.le

theorem Live.bounds (h : Live sid t B P) : B ≤ P ∧ P < B + b.bufferSize := by
  rcases h with ⟨-, A, M, hw⟩ | ho
  · have := hw.push.le
    have := hw.lt
    exact ⟨hw.le, by omega⟩
  · have := ho.move
    have hone : 1 < b.bufferSize := by
      rcases b.bufferSize_eq with hs | hs <;> omega
    exact ⟨ho.le, by omega⟩

/-- Requests of the application and replies of the state table do not matter. -/
theorem Live.env {t u : AppNet b} (h : Live sid t B P) (htasi : u.tasi = t.tasi)
    (hrsp : u.fifo.txSar2txAppUpdRsp = t.fifo.txSar2txAppUpdRsp) (hupd : u.updReq = t.updReq)
    (hpush : u.ackPush = t.ackPush) (htable : u.table = t.table) (hread : u.atRead = t.atRead) :
    Live sid u B P := by
  obtain ⟨tasi, fifo, stateReq, updReq, ackPush, table, atRead⟩ := u
  dsimp only at htasi hrsp hupd hpush htable hread
  subst htasi hupd hpush htable hread
  rcases h with ⟨he, A, M, hw⟩ | ⟨⟨pre, p, post, hq, hpre, hid, hi, hp, hm, he⟩, hpos, hle, hu, hr⟩
  · refine .inl ⟨⟨?_, he.asked, ?_, he.once⟩, A, M, hw.ackd, hw.mempt, hw.push, hw.upd, hw.le, hw.lt, ?_⟩
    · rw [hrsp]
      exact he.client
    · rw [hrsp]
      exact he.reply
    · rw [hrsp]
      exact hw.read
  · refine .inr ⟨⟨pre, p, post, hq, hpre, hid, hi, hp, hm, ?_, he.asked, ?_, he.once⟩, hpos, hle, hu, ?_⟩
    · dsimp only
      rw [hrsp]
      exact he.client
    · dsimp only
      rw [hrsp]
      exact he.reply
    · rw [hrsp]
      exact hr

theorem Live.callTasi (hb : b.tcpNodelay = true ∨ b.windowScale = false)
    (h : Live sid t B P) :
    ∃ P', Live sid t.callTasi.1 B P' ∧ Accepts sid P P' t.callTasi.2.txAppStream2eventEngSetEvent := by
  rcases h with ⟨he, A, M, hw⟩ | ho
  · obtain ⟨P', hw', hacc⟩ := hw.callTasi hb he
    exact ⟨P', .inl ⟨he.callTasi, A, M, hw'⟩, hacc⟩
  · obtain ⟨pre, p, post, hq, hpre, hid, hi, hp, hm, he⟩ := ho.push
    -- the call does not look at the pushes
    have he' : Engines sid { t.callTasi.1 with ackPush := post } := he.callTasi
    have hcalled := t.called
    refine ⟨P, ?_⟩
    generalize t.callTasi = u at hcalled he'
    cases hcalled with
    | idle => exact ⟨.inr ho, .none _ (by simp) rfl⟩
    | request m rest hs hreq =>
      refine ⟨.inr ⟨⟨pre, p, post, hq, hpre, hid, hi, hp, hm, he'⟩, ho.pos, ho.le, ?_, ?_⟩,
        .none _ (by simp) rfl⟩
      · intro q hq' hwr
        rcases List.mem_append.mp hq' with hq' | hq'
        · exact ho.upd q hq' hwr
        · rw [List.mem_singleton] at hq'
          rw [hq'] at hwr
          cases hwr
      · intro hr
        have hc := he.client
        dsimp only at hc
        rw [hs] at hc
        exact absurd hc.rsps_eq_nil hr
    | answer r rs state states hs hr hstate out ha =>
      -- the reply at hand is about another session
      have hother : t.tasi.tasiWriteMeta.sessionID ≠ sid := ho.read (by simp [hr])
      have hc := he.client
      dsimp only at hc
      rw [hr] at hc
      obtain ⟨-, -, rfl⟩ := hc.take
      have hout : (∀ q ∈ out.txApp2txSarUpdReq, q.sessionID ≠ sid) ∧
          ∀ e ∈ out.txAppStream2eventEngSetEvent, e.sessionID ≠ sid := by
        cases ha with
        | refused => exact ⟨by simp, by simp⟩
        | accepted => exact ⟨by simpa [TxAppTxSarQuery.update] using hother, by simpa using hother⟩
      refine ⟨.inr ⟨⟨pre, p, post, hq, hpre, hid, hi, hp, hm, he'⟩, ho.pos, ho.le, ?_, by simp⟩,
        .none _ hout.2 rfl⟩
      intro q hq' hwr
      rcases List.mem_append.mp hq' with hq' | hq'
      · exact ho.upd q hq' hwr
      · exact hout.1 q hq'

theorem Live.callTable (h : Live sid t B P) : Live sid t.callTable B P := by
  rcases h with ⟨he, A, M, hw⟩ | ho
  · obtain ⟨A', M', -, hw'⟩ := hw.callTable he
    exact .inl ⟨he.callTable, A', M', hw'⟩
  · obtain ⟨pre, p, post, hq, hpre, hid, hi, hp, hm, he⟩ := ho.push
    have hs := t.served
    generalize t.callTable = u at hs
    cases hs with
    | push p' rest hp' =>
      rw [hq] at hp'
      cases pre with
      | cons q pre =>
        cases hp'
        exact .inr ⟨⟨pre, p, post, rfl, fun q' hq' => hpre q' (List.mem_cons_of_mem _ hq'), hid, hi, hp,
          hm, he.client, he.asked, he.reply, he.once⟩, ho.pos, ho.le, ho.upd, ho.read⟩
      | nil =>
        -- the entry gets its initial values
        cases hp'
        have hpos := ho.pos
        have hpush : (t.table p.sessionID).push p =
            { (t.table p.sessionID).push p with ackd := BitVec.ofNat _ (P - 1), mempt := BitVec.ofNat _ P } := by
          have hsub : BitVec.ofNat b.windowBits P - 1 = BitVec.ofNat _ (P - 1) := by
            obtain ⟨k, rfl⟩ := Nat.exists_eq_succ_of_ne_zero (Nat.ne_of_gt hpos)
            rw [Nat.succ_eq_add_one, BitVec.ofNat_add, Nat.add_sub_cancel]
            exact BitVec.add_sub_cancel _ _
          simp only [TxAppTableEntry.push, hi, hp, hsub, if_true]
        have hmove := ho.move
        have hone : 1 < b.bufferSize := by
          rcases b.bufferSize_eq with hs | hs <;> omega
        refine .inl ⟨⟨he.client, he.asked, he.reply, he.once⟩, P - 1, P, ?_, ?_, hm,
          Moves.skip fun q hq' => if_neg fun hw => ho.upd q hq' hw.1 hw.2, ho.le, by omega, ?_⟩
        · dsimp only
          rw [hid, Function.update_self, ← hid, hpush]
        · dsimp only
          rw [hid, Function.update_self, ← hid, hpush]
        · exact fun hr hid' => absurd hid' (ho.read hr)
    | write q rest hnil =>
      rw [hq] at hnil
      simp at hnil
    | read q rest hnil =>
      rw [hq] at hnil
      simp at hnil
    | none hnil =>
      rw [hq] at hnil
      simp at hnil

theorem Live.push {B B' P : Nat} {ps : List (TxSarAckPush b)} (h : Live sid t B P)
    (hps : SendNet.Pushed sid B B' ps) (hB : B ≤ B') (hP : B' ≤ P) :
    Live sid { t with ackPush := t.ackPush ++ ps } B' P := by
  have hmoves : Moves (ackdMove sid) B B' ps := by
    cases hps with
    | none _ hother hA =>
      rw [hA]
      exact Moves.skip fun q hq => if_neg (hother q hq)
    | ackd p hid hinit hp => exact Moves.single (if_pos hid) hp hB
  have honce : ∀ p ∈ ps, p.sessionID = sid → p.init = false := by
    intro p hp hid
    cases hps with
    | none _ hother hA => exact absurd hid (hother p hp)
    | ackd p' hid' hinit hp' =>
      rw [List.mem_singleton] at hp
      rw [hp]
      exact hinit
  have henq {q : List (TxSarAckPush b)} (hq : ∀ p ∈ q, p.sessionID = sid → p.init = false) :
      ∀ p ∈ q ++ ps, p.sessionID = sid → p.init = false := by
    intro p hp hid
    rcases List.mem_append.mp hp with hp | hp
    · exact hq p hp hid
    · exact honce p hp hid
  rcases h with ⟨he, A, M, hw⟩ | ho
  · exact .inl ⟨⟨he.client, he.asked, he.reply, henq he.once⟩, A, M, hw.ackd, hw.mempt,
      hw.push.append hmoves, hw.upd, hP, hw.lt, hw.read⟩
  · obtain ⟨pre, p, post, hq, hpre, hid, hi, hp, hm, he⟩ := ho.push
    refine .inr ⟨⟨pre, p, post ++ ps, ?_, hpre, hid, hi, hp, hm.append hmoves, he.client, he.asked,
      he.reply, henq he.once⟩, ho.pos, hP, ho.upd, ho.read⟩
    simp [hq]

end AppNet

end FpgaNetworkStack.Toe
