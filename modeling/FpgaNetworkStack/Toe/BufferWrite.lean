import FpgaNetworkStack.Toe.BufferWords
import FpgaNetworkStack.Toe.TxBuffer

/-!
# Writing into the ring buffers

`tasi_pkg_pusher` writes the data of the application into the transmit buffer, and `rxEngMemWrite` that of the segments
into the receive buffer.  Both cut a packet that passes the end of the buffer in two, and align the second part.
-/

namespace FpgaNetworkStack.Toe

open Lib
open Axi (Word Lane Packet)

variable {b : Build} {W : Nat} {bs bs' : List (BitVec 8)}

/-! ## The parts of a packet -/

/-- The last word of a part that is aligned, when the word before it is `p` and the input has no more. -/
def residueWord (offset : Nat) (emptyWord p : AxiWord W) : AxiWord W :=
  { alignWords offset p emptyWord with last := true }

/-- The words of the aligned part: all of them, or all but the one that is made of the tail of the last input word. -/
inductive Realigned (offset : Nat) : List (AxiWord W) → Option (AxiWord W) → List (BitVec 8) → Prop
  | whole {ws : List (AxiWord W)} {bs : List (BitVec 8)} (h : Carries ws bs) : Realigned offset ws none bs
  | residue {ws : List (AxiWord W)} {c bs : List (BitVec 8)} {p : AxiWord W} (hws : Fronts ws c)
      (hp : p.toWord.Holds bs) (hlt : offset < bs.length) : Realigned offset ws (some p) (c ++ bs.drop offset)

theorem Realigned.carries {offset : Nat} (hoff : offset ≤ W) {ws : List (AxiWord W)} {res : Option (AxiWord W)}
    (h : Realigned offset ws res bs) : Carries (ws ++ res.toList.map (residueWord offset ⟨0, 0, false⟩)) bs := by
  cases h with
  | whole h =>
    rw [Option.toList_none, List.map_nil, List.append_nil]
    exact h
  | @residue c bs p hws hp hlt =>
    refine hws.carries (.last rfl ?_)
    obtain ⟨rest, hlanes, hrest⟩ := hp
    have hempty : Axi.Unkept (AxiWord.toWord (⟨0, 0, false⟩ : AxiWord W)).lanes := by
      intro l hl
      obtain ⟨k, -, rfl⟩ := List.mem_map.mp hl
      exact BitVec.getLsbD_zero
    refine ⟨rest.drop (offset - bs.length) ++ (AxiWord.toWord ⟨0, 0, false⟩).lanes.take offset, ?_,
      (hrest.drop _).append (hempty.take _)⟩
    rw [residueWord, alignWords_lanes hoff, hlanes, List.drop_append, List.length_map, List.map_drop, List.append_assoc]

theorem Realigned.cons {offset : Nat} {w : AxiWord W} {ws : List (AxiWord W)} {res : Option (AxiWord W)}
    (hlast : w.last = false) (hw : w.Full bs) (h : Realigned offset ws res bs') :
    Realigned offset (w :: ws) res (bs ++ bs') := by
  cases h with
  | whole h => exact .whole (.cons hlast hw h)
  | residue hws hp hlt =>
    rw [← List.append_assoc]
    exact .residue (.cons hlast hw hws) hp hlt

/-! ## The pusher -/

namespace TasiPkgPusher

/-- `tasi_pkg_pusher` with the words it finds in the uninitialised `emptyWord`, one for each time it looks there. -/
def pushing (s : TasiPkgPusher b W × (Nat → AxiWord W)) (i : TasiPkgPusherIn W) :
    (TasiPkgPusher b W × (Nat → AxiWord W)) × TasiPkgPusherIn W × TasiPkgPusherOut W :=
  let (t, j, out) := tasiPkgPusher (s.2 0) s.1 i
  ((t, if s.1.tasiPkgPushState = .RESIDUE then fun n => s.2 (n + 1) else s.2), j, out)

/-- What is found there after a packet. -/
def later (e : Nat → AxiWord W) (res : Option (AxiWord W)) : Nat → AxiWord W :=
  if res.isSome then fun n => e (n + 1) else e

variable {e : Nat → AxiWord W} {s t : TasiPkgPusher b W} {i j : TasiPkgPusherIn W} {out : TasiPkgPusherOut W}

theorem pushing_eq (hs : s.tasiPkgPushState ≠ .RESIDUE) (h : tasiPkgPusher (e 0) s i = (t, j, out)) :
    pushing (s, e) i = ((t, e), j, out) := by
  simp only [pushing, h, if_neg hs]

theorem pushing_residue (hs : s.tasiPkgPushState = .RESIDUE) (i : TasiPkgPusherIn W) :
    pushing (s, e) i = (({ s with tasiPkgPushState := .IDLE }, fun n => e (n + 1)), i,
      { txBufferWriteData := [residueWord s.offset (e 0) s.prevWord] }) := by
  simp [pushing, tasiPkgPusher, hs, residueWord]

/-- The words `ws`, the rest of a packet, are taken in: the commands, the words and the residue that are written. -/
def Makes (start : TasiPkgPusher b W → Prop) (ws : List (AxiWord W)) (cmds : TasiPkgPusher b W → List MmCmd)
    (out : List (AxiWord W)) (offset : Nat) (res : Option (AxiWord W)) : Prop :=
  ∀ (ahead : List MmCmd) (rest : List (AxiWord W)) (e : Nat → AxiWord W) (s : TasiPkgPusher b W), start s →
    ∃ os t, Runs pushing (s, e) ⟨ahead, ws ++ rest⟩ os (t, later e res) ⟨ahead, rest⟩ ∧ t.tasiPkgPushState = .IDLE ∧
      os.flatMap (·.txBufferWriteCmd) = cmds s ∧
      os.flatMap (·.txBufferWriteData) = out ++ res.toList.map (residueWord offset (e 0))

variable {ws : List (AxiWord W)} {offset : Nat}

theorem forward (h : Carries ws bs) :
    Makes (b := b) (fun s => s.tasiPkgPushState = .FWD_ALIGNED) ws (fun _ => []) ws offset none := by
  induction h using Carries.induct with
  | last w bs hlast hw =>
    intro ahead rest e s hs
    have hcall : pushing (s, e) ⟨ahead, w :: rest⟩ = (({ s with tasiPkgPushState := .IDLE }, e), ⟨ahead, rest⟩,
        { txBufferWriteData := [w] }) := by
      apply pushing_eq
      · simp [hs]
      · simp [tasiPkgPusher, hs, hlast]
    exact ⟨_, _, .one hcall, rfl, rfl, rfl⟩
  | cons w ws bs bs' hlast hw _ ih =>
    intro ahead rest e s hs
    have hcall : pushing (s, e) ⟨ahead, w :: (ws ++ rest)⟩ = ((s, e), ⟨ahead, ws ++ rest⟩,
        { txBufferWriteData := [w] }) := by
      obtain ⟨state, cmd, remainingLength, lengthFirstPkg, offset, prevWord⟩ := s
      obtain rfl : state = .FWD_ALIGNED := hs
      apply pushing_eq
      · simp
      · simp [tasiPkgPusher, hlast]
    obtain ⟨os, t, hrun, ht, hcmds, hdata⟩ := ih ahead rest e s hs
    refine ⟨_, t, .call hcall hrun, ht, ?_, ?_⟩
    · rw [List.flatMap_cons, hcmds]
      rfl
    · rw [List.flatMap_cons, hdata]
      rfl

/-- The aligned part behind word `p`, of which the bytes from `offset` on are not sent yet. -/
structure Aligns (offset : Nat) (p : AxiWord W) (s : TasiPkgPusher b W) : Prop where
  state : s.tasiPkgPushState = .ALIGN_SECOND
  offset : s.offset = offset
  prevWord : s.prevWord = p

/-- The aligned part behind a full word: the induction follows the packet. -/
theorem align (hoff : offset < W) (h : Carries ws bs) :
    ∀ {p : AxiWord W} {q : List (BitVec 8)}, p.Full q →
      ∃ out res, Realigned offset out res (q.drop offset ++ bs) ∧ (res = none ↔ lastBytes ws ≤ offset) ∧
        Makes (b := b) (Aligns offset p) ws (fun _ => []) out offset res := by
  induction h using Carries.induct with
  | last w bs hlast hw =>
    intro p q hp
    have hkeep := keep_getLsbD hw hoff
    have hbytes : lastBytes [w] = bs.length := congrArg List.length hw.bytes_eq
    have hcall (ahead : List MmCmd) (rest : List (AxiWord W)) (e : Nat → AxiWord W) (s : TasiPkgPusher b W)
        (hs : Aligns offset p s) :
        pushing (s, e) ⟨ahead, w :: rest⟩ =
          (({ s with
              prevWord := w
              tasiPkgPushState := if bs.length ≤ offset then .IDLE else .RESIDUE }, e), ⟨ahead, rest⟩,
            { txBufferWriteData := [{ alignWords offset p w with last := decide (bs.length ≤ offset) }] }) := by
      apply pushing_eq
      · simp [hs.state]
      · by_cases hfit : bs.length ≤ offset
        · simp [tasiPkgPusher, hs.state, hs.offset, hs.prevWord, hlast, hkeep, hfit]
        · simp [tasiPkgPusher, hs.state, hs.offset, hs.prevWord, hlast, hkeep, hfit, Nat.lt_of_not_le hfit]
    obtain ⟨ls, hlanes, hls⟩ := hw
    by_cases hfit : bs.length ≤ offset
    · -- all bytes fit into the word
      refine ⟨[{ alignWords offset p w with last := true }], none, .whole (.last rfl ?_), ?_, ?_⟩
      · refine ⟨ls.take (offset - bs.length), ?_, hls.take _⟩
        rw [alignWords_lanes (Nat.le_of_lt hoff), hp, hlanes, List.take_append,
          List.take_of_length_le (by rw [List.length_map]; exact hfit), List.length_map, List.map_append, List.map_drop,
          List.append_assoc]
      · exact iff_of_true rfl (hbytes ▸ hfit)
      · intro ahead rest e s hs
        have hone := hcall ahead rest e s hs
        rw [if_pos hfit, decide_eq_true hfit] at hone
        exact ⟨_, _, .one hone, rfl, rfl, rfl⟩
    · -- the tail of the word goes into another one
      have hsplit : bs.take offset ++ bs.drop offset = bs := List.take_append_drop offset bs
      refine ⟨[{ alignWords offset p w with last := false }], some w, ?_, ?_, ?_⟩
      · have hfull : ({ alignWords offset p w with last := false } : AxiWord W).Full (q.drop offset ++ bs.take offset) :=
          alignWords_full (Nat.le_of_lt hoff) hp ⟨ls, by rw [hsplit, hlanes]⟩
            (by rw [List.length_take]; omega) false
        have hall := Realigned.residue (Fronts.cons rfl hfull .nil) ⟨ls, hlanes, hls⟩ (Nat.lt_of_not_le hfit)
        rw [List.append_nil, List.append_assoc, hsplit] at hall
        exact hall
      · exact iff_of_false (by simp) (hbytes ▸ hfit)
      · intro ahead rest e s hs
        have hone := hcall ahead rest e s hs
        rw [if_neg hfit, decide_eq_false hfit] at hone
        refine ⟨_, _, .call hone (.one (pushing_residue rfl _)), rfl, rfl, ?_⟩
        simp [hs.offset]
  | cons w ws bs bs' hlast hw hmore ih =>
    intro p q hp
    have hlen := hw.length_eq
    have hkeep := keep_getLsbD hw.holds hoff
    rw [decide_eq_true (show offset < bs.length by omega)] at hkeep
    obtain ⟨out, res, hout, hres, hmakes⟩ := ih hw
    have hfull : ({ alignWords offset p w with last := false } : AxiWord W).Full (q.drop offset ++ bs.take offset) :=
      alignWords_full (Nat.le_of_lt hoff) hp ⟨[], by rw [List.take_append_drop, List.append_nil]; exact hw⟩
        (by rw [List.length_take]; omega) false
    refine ⟨{ alignWords offset p w with last := false } :: out, res, ?_, ?_, ?_⟩
    · have hjoin : q.drop offset ++ (bs ++ bs') = q.drop offset ++ bs.take offset ++ (bs.drop offset ++ bs') := by
        rw [List.append_assoc, ← List.append_assoc (bs.take _), List.take_append_drop]
      rw [hjoin]
      exact .cons rfl hfull hout
    · rw [lastBytes_cons hmore.ne_nil]
      exact hres
    · intro ahead rest e s hs
      have hcall : pushing (s, e) ⟨ahead, w :: (ws ++ rest)⟩ = (({ s with prevWord := w }, e), ⟨ahead, ws ++ rest⟩,
          { txBufferWriteData := [{ alignWords offset p w with last := false }] }) := by
        obtain ⟨state, cmd, remainingLength, lengthFirstPkg, offset', prevWord⟩ := s
        obtain rfl : state = .ALIGN_SECOND := hs.state
        obtain rfl : offset' = offset := hs.offset
        obtain rfl : prevWord = p := hs.prevWord
        apply pushing_eq
        · simp
        · simp [tasiPkgPusher, hlast, hkeep]
      obtain ⟨os, t, hrun, ht, hcmds, hdata⟩ := hmakes ahead rest e { s with prevWord := w } ⟨hs.state, hs.offset, rfl⟩
      refine ⟨_, t, .call hcall hrun, ht, ?_, ?_⟩
      · rw [List.flatMap_cons, hcmds]
        rfl
      · rw [List.flatMap_cons, hdata]
        rfl

/-- The first `r` bytes of what comes go to the end of the buffer. -/
structure Cuts (r : Nat) (s : TasiPkgPusher b W) : Prop where
  state : s.tasiPkgPushState = .CUT_FIRST
  remainingLength : s.remainingLength.toNat = r
  offset : s.offset = r % W

theorem cut (hpos : 0 < W) (hW : W ≤ 64) (h : Carries ws bs) :
    ∀ {r : Nat}, 0 < r → r < bs.length → ∃ first second res, Carries first (bs.take r) ∧
      Realigned (r % W) second res (bs.drop r) ∧ (res = none ↔ r % W = 0 ∨ lastBytes ws ≤ r % W) ∧
      Makes (b := b) (Cuts r) ws (fun s => [s.cmd.second s.lengthFirstPkg]) (first ++ second) (r % W) res := by
  induction h using Carries.induct with
  | last w bs hlast hw =>
    intro r hr hlt
    have hbytes : lastBytes [w] = bs.length := congrArg List.length hw.bytes_eq
    have hrW : r < W := Nat.lt_of_lt_of_le hlt hw.length_le
    have hmod : r % W = r := Nat.mod_eq_of_lt hrW
    rw [hmod, hbytes]
    obtain ⟨ls, hlanes, hls⟩ := hw
    refine ⟨[{ w with keep := lenToKeep W r, last := true }], [], some w,
      .last rfl (cut_holds hr (by omega) (Nat.le_of_lt hrW) hlanes (Nat.le_of_lt hlt) true),
      .residue .nil ⟨ls, hlanes, hls⟩ hlt, ?_, ?_⟩
    · exact iff_of_false (by simp) (by omega)
    · intro ahead rest e s hs
      have hcall : pushing (s, e) ⟨ahead, w :: rest⟩ =
          (({ s with prevWord := w, tasiPkgPushState := .RESIDUE, cmd := s.cmd.second s.lengthFirstPkg }, e),
            ⟨ahead, rest⟩,
            { txBufferWriteCmd := [s.cmd.second s.lengthFirstPkg]
              txBufferWriteData := [{ w with keep := lenToKeep W r, last := true }] }) := by
        apply pushing_eq
        · simp [hs.state]
        · simp [tasiPkgPusher, hs.state, hs.remainingLength, hlast, Nat.not_lt_of_lt hrW, Nat.ne_of_lt hrW]
      refine ⟨_, _, .call hcall (.one (pushing_residue rfl _)), rfl, rfl, ?_⟩
      simp [hs.offset, hmod]
  | cons w ws bs bs' hlast hw hmore ih =>
    intro r hr hlt
    have hlen := hw.length_eq
    rw [List.length_append] at hlt
    rw [lastBytes_cons hmore.ne_nil]
    rcases Nat.lt_trichotomy W r with hWr | rfl | hrW
    · -- the whole word is in front of the cut
      obtain ⟨first, second, res, hfirst, hsecond, hres, hmakes⟩ := ih (r := r - W) (by omega) (by omega)
      rw [← Nat.mod_eq_sub_mod (Nat.le_of_lt hWr)] at hsecond hres hmakes
      refine ⟨w :: first, second, res, ?_, ?_, hres, ?_⟩
      · rw [List.take_append, List.take_of_length_le (by omega), hlen]
        exact .cons hlast hw hfirst
      · rw [List.drop_append, List.drop_of_length_le (by omega), hlen]
        exact hsecond
      · intro ahead rest e s hs
        have hr := hs.remainingLength
        have hrange := s.remainingLength.isLt
        have hword : (BitVec.ofNat b.windowBits W).toNat = W := by
          rw [BitVec.toNat_ofNat, Nat.mod_eq_of_lt (by omega)]
        have hcall : pushing (s, e) ⟨ahead, w :: (ws ++ rest)⟩ =
            (({ s with prevWord := w, remainingLength := s.remainingLength - BitVec.ofNat _ W }, e), ⟨ahead, ws ++ rest⟩,
              { txBufferWriteData := [w] }) := by
          apply pushing_eq
          · simp [hs.state]
          · simp [tasiPkgPusher, hs.state, hr, hWr]
        have hcuts : Cuts (r - W) { s with prevWord := w, remainingLength := s.remainingLength - BitVec.ofNat _ W } := by
          refine ⟨hs.state, ?_, ?_⟩
          · dsimp only
            rw [BitVec.toNat_sub_of_le (by rw [BitVec.le_def]; omega), hr, hword]
          · exact hs.offset.trans (Nat.mod_eq_sub_mod (Nat.le_of_lt hWr))
        obtain ⟨os, t, hrun, ht, hcmds, hdata⟩ := hmakes ahead rest e _ hcuts
        refine ⟨_, t, .call hcall hrun, ht, ?_, ?_⟩
        · rw [List.flatMap_cons, hcmds]
          rfl
        · rw [List.flatMap_cons, hdata]
          rfl
    · -- the cut is behind the word
      refine ⟨[{ w with last := true }], ws, none, ?_, ?_, ?_, ?_⟩
      · rw [List.take_left' hlen]
        exact .last rfl (Axi.Word.holds_full hw)
      · rw [List.drop_left' hlen]
        exact .whole hmore
      · exact iff_of_true rfl (.inl (Nat.mod_self W))
      · intro ahead rest e s hs
        have hcall : pushing (s, e) ⟨ahead, w :: (ws ++ rest)⟩ =
            (({ s with prevWord := w, tasiPkgPushState := .FWD_ALIGNED, cmd := s.cmd.second s.lengthFirstPkg }, e),
              ⟨ahead, ws ++ rest⟩,
              { txBufferWriteCmd := [s.cmd.second s.lengthFirstPkg]
                txBufferWriteData := [{ w with last := true }] }) := by
          apply pushing_eq
          · simp [hs.state]
          · simp [tasiPkgPusher, hs.state, hs.remainingLength]
        have hforward : Makes (b := b) _ ws _ ws (W % W) none := forward hmore
        obtain ⟨os, t, hrun, ht, hcmds, hdata⟩ := hforward ahead rest e
          { s with prevWord := w, tasiPkgPushState := .FWD_ALIGNED, cmd := s.cmd.second s.lengthFirstPkg } rfl
        refine ⟨_, t, .call hcall hrun, ht, ?_, ?_⟩
        · rw [List.flatMap_cons, hcmds]
          rfl
        · rw [List.flatMap_cons, hdata]
          rfl
    · -- the cut is inside the word
      have hmod : r % W = r := Nat.mod_eq_of_lt hrW
      rw [hmod]
      obtain ⟨out, res, hout, hres, hmakes⟩ := align (b := b) hrW hmore hw
      refine ⟨[{ w with keep := lenToKeep W r, last := true }], out, res, ?_, ?_, ?_, ?_⟩
      · rw [List.take_append_of_le_length (by omega)]
        have hlanes : w.toWord.lanes = bs.map Lane.kept ++ [] := by rwa [List.append_nil]
        exact .last rfl (cut_holds hr (by omega) (Nat.le_of_lt hrW) hlanes (by omega) true)
      · rw [List.drop_append_of_le_length (by omega)]
        exact hout
      · rw [hres]
        omega
      · intro ahead rest e s hs
        have hcall : pushing (s, e) ⟨ahead, w :: (ws ++ rest)⟩ =
            (({ s with prevWord := w, tasiPkgPushState := .ALIGN_SECOND, cmd := s.cmd.second s.lengthFirstPkg }, e),
              ⟨ahead, ws ++ rest⟩,
              { txBufferWriteCmd := [s.cmd.second s.lengthFirstPkg]
                txBufferWriteData := [{ w with keep := lenToKeep W r, last := true }] }) := by
          apply pushing_eq
          · simp [hs.state]
          · simp [tasiPkgPusher, hs.state, hs.remainingLength, hlast, Nat.not_lt_of_lt hrW, Nat.ne_of_lt hrW]
        obtain ⟨os, t, hrun, ht, hcmds, hdata⟩ := hmakes ahead rest e
          { s with prevWord := w, tasiPkgPushState := .ALIGN_SECOND, cmd := s.cmd.second s.lengthFirstPkg }
          ⟨rfl, hs.offset.trans hmod, rfl⟩
        refine ⟨_, t, .call hcall hrun, ht, ?_, ?_⟩
        · rw [List.flatMap_cons, hcmds]
          rfl
        · rw [List.flatMap_cons, hdata]
          rfl

end TasiPkgPusher

end FpgaNetworkStack.Toe
