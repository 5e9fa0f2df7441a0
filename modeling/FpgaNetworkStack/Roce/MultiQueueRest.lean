import FpgaNetworkStack.Roce.MultiQueueNet

/-!
# `multi_queue` answers every request

No request is lost on its way in, and without new ones the calls of the four processes come to an end: each one that does
anything uses up a request.  At rest every `POP` and `FRONT` is answered, and an insertion waits only while no element is free.
-/

namespace FpgaNetworkStack.Roce

open Lib

variable {T : Type}

/-- A call of one of the processes; the other labels are requests. -/
def MqLabel.isCall : MqLabel T → Bool
  | .process | .pointerTable | .metaTable | .freelist => true
  | _ => false

namespace MultiQueueNet

variable {sz : MqSizes} {t u : MultiQueueNet T} {ops : List (MqOp T)} {cells : MqKey → List MqIdx} {s : MqProcess T}
  {b : MqLabel T}

/-! ## Nothing is lost -/

/-- The requests of both kinds are taken up in order, and the others still wait. -/
structure Kept (t : MultiQueueNet T) : Prop where
  pushed : t.taken.filterMap MqOp.push? ++ t.inp.multiQueuePush = t.pushed
  requested : t.taken.filterMap MqOp.pop? ++ t.inp.multiQueuePopReq = t.requested

theorem Kept.congr (h : Kept t) (htaken : u.taken = t.taken) (hpush : u.inp.multiQueuePush = t.inp.multiQueuePush)
    (hpop : u.inp.multiQueuePopReq = t.inp.multiQueuePopReq) (hpushed : u.pushed = t.pushed)
    (hrequested : u.requested = t.requested) : Kept u := by
  refine ⟨?_, ?_⟩
  · rw [htaken, hpush, hpushed]
    exact h.pushed
  · rw [htaken, hpop, hrequested]
    exact h.requested

theorem Kept.main (h : Kept t) (hm : t.proc.rtState = .STATE_MAIN) : Kept (t.after (mqMain t.proc t.inp)) := by
  unfold mqMain
  split
  · next insert rest idx free hins hfree =>
      have hpushed := h.pushed
      rw [hins] at hpushed
      refine ⟨?_, ?_⟩
      · simpa [after, begun, hm, MqOp.push?, List.filterMap_cons] using hpushed
      · simpa [after, begun, hm, MqOp.pop?, List.filterMap_cons] using h.requested
  · next r rest hreq _ =>
      have hrequested := h.requested
      rw [hreq] at hrequested
      refine ⟨?_, ?_⟩
      · simpa [after, begun, hm, MqOp.push?, List.filterMap_cons] using h.pushed
      · simpa [after, begun, hm, MqOp.pop?, List.filterMap_cons] using hrequested
  · rw [after_idle]
    exact h

theorem Kept.process (h : Kept t) : Kept (t.after (mqProcessRequests t.proc t.inp)) := by
  have hother {s : MqProcess T} {inp : MqProcessIn T} {o : MqProcessOut T} (hne : t.proc.rtState ≠ .STATE_MAIN)
      (hpush : inp.multiQueuePush = t.inp.multiQueuePush) (hpop : inp.multiQueuePopReq = t.inp.multiQueuePopReq) :
      Kept (t.after (s, inp, o)) :=
    h.congr (by simp [after, begun_of_ne hne]) hpush hpop rfl rfl
  unfold mqProcessRequests
  split
  · next hs => exact h.main hs
  · next hs _ => exact hother (by simp [hs]) rfl rfl
  · next hs => exact hother (by simp [hs]) rfl rfl
  · next hs _ => exact hother (by simp [hs]) rfl rfl
  · next hs _ => exact hother (by simp [hs]) rfl rfl
  · rw [after_idle]
    exact h

theorem kept_step (h : Kept t) (hs : t.step sz b = some u) : Kept u := by
  cases b with
  | push e =>
    rw [step, Option.ite_none_right_eq_some, Option.some.injEq] at hs
    rw [← hs.2]
    refine ⟨?_, h.requested⟩
    simp only [← h.pushed, List.append_assoc]
  | popReq r =>
    rw [step, Option.ite_none_right_eq_some, Option.some.injEq] at hs
    rw [← hs.2]
    refine ⟨h.pushed, ?_⟩
    simp only [← h.requested, List.append_assoc]
  | process =>
    cases hs
    exact h.process
  | pointerTable | metaTable | freelist =>
    cases hs
    exact h.congr rfl rfl rfl rfl rfl

/-! ## Calls come to an end -/

def Moves (sz : MqSizes) (u t : MultiQueueNet T) : Prop := u ≠ t ∧ ∃ b : MqLabel T, b.isCall = true ∧ t.step sz b = some u

/-- What the request that was taken up will still cause. -/
def ahead : MqState → Nat
  | .STATE_MAIN => 0
  | .STATE_PUSH => 6
  | .STATE_PUSH_2 => 4
  | .STATE_POP => 5
  | .STATE_POP_2 => 3

/-- An upper bound on the calls to come. -/
def load (sz : MqSizes) (t : MultiQueueNet T) : Nat :=
  12 * (t.inp.multiQueuePush.length + t.inp.multiQueuePopReq.length) + ahead t.proc.rtState + 3 * t.pointerReqFifo.length +
    (if t.ptr.wait then 2 else 0) + t.inp.pointerRspFifo.length + t.pointerUpdFifo.length + 2 * t.metaReqFifo.length +
    t.inp.metaRspFifo.length + t.releaseFifo.length + (sz.multiQueueSize - t.freeListCounter.toNat)

theorem load_main (hm : t.proc.rtState = .STATE_MAIN) :
    t.after (mqMain t.proc t.inp) = t ∨ (t.after (mqMain t.proc t.inp)).load sz < t.load sz := by
  unfold mqMain
  split
  · next insert rest idx free hins hfree =>
      right
      simp only [load, after, hm, hins, ahead, List.append_nil, List.length_append, List.length_cons, List.length_nil]
      omega
  · next r rest hreq _ =>
      right
      simp only [load, after, hm, hreq, ahead, List.append_nil, List.length_append, List.length_cons, List.length_nil]
      omega
  · exact .inl after_idle

theorem load_process : t.after (mqProcessRequests t.proc t.inp) = t ∨
    (t.after (mqProcessRequests t.proc t.inp)).load sz < t.load sz := by
  unfold mqProcessRequests
  split
  · next hs => exact load_main hs
  · next p rest hs hrsp =>
      right
      unfold mqPush
      split <;> simp only [load, after, hs, hrsp, ahead, List.append_nil, List.length_append, List.length_cons,
        List.length_nil] <;> omega
  · next hs =>
      right
      simp only [load, after, mqPush2, hs, ahead, List.append_nil, List.length_append, List.length_cons, List.length_nil]
      omega
  · next p rest hs hrsp =>
      right
      unfold mqPop
      split <;> simp only [load, after, hs, hrsp, ahead, List.append_nil, List.length_append, List.length_cons,
        List.length_nil] <;> omega
  · next m rest hs hrsp =>
      right
      unfold mqPop2
      split
      · split <;> simp only [load, after, hs, hrsp, ahead, List.append_nil, List.length_append, List.length_cons,
          List.length_nil] <;> omega
      · simp only [load, after, hs, hrsp, ahead, List.append_nil, List.length_cons]
        omega
  · exact .inl after_idle

theorem load_pointerTable (hs : t.step sz .pointerTable = some u) : u = t ∨ u.load sz < t.load sz := by
  simp only [step, Option.some.injEq] at hs
  generalize hcall : mqPointerTable t.ptr t.pointerReqFifo t.pointerUpdFifo = call at hs
  unfold mqPointerTable at hcall
  subst hs
  split at hcall
  · next upd rest reqs w hupd =>
      subst hcall
      right
      simp only [load, hupd, List.append_nil, List.length_cons]
      omega
  · next req rest hupd hreq hwait =>
      right
      split at hcall <;> subst hcall <;> simp only [load, hupd, hreq, hwait, Bool.false_eq_true, if_true, if_false,
        List.append_nil, List.length_append, List.length_cons, List.length_nil] <;> omega
  · next reqs hupd hwait =>
      split at hcall
      · subst hcall
        left
        rw [← hupd, List.append_nil]
      · subst hcall
        right
        simp only [load, hupd, hwait, Bool.false_eq_true, if_true, if_false, List.length_append, List.length_cons,
          List.length_nil]
        omega
  · next hupd hreq hwait =>
      subst hcall
      left
      rw [← hupd, ← hreq, List.append_nil]

theorem load_metaTable (hs : t.step sz .metaTable = some u) : u = t ∨ u.load sz < t.load sz := by
  simp only [step, Option.some.injEq] at hs
  subst hs
  cases hreq : t.metaReqFifo with
  | nil =>
    left
    simp only [mqMetaTable, List.append_nil]
    rw [← hreq]
  | cons req rest =>
    right
    cases req <;> simp only [load, mqMetaTable, hreq, MqMetaReq.reply, List.append_nil, List.length_append,
      List.length_cons, List.length_nil] <;> omega

theorem load_freelist (hs : t.step sz .freelist = some u) : u = t ∨ u.load sz < t.load sz := by
  simp only [step, Option.some.injEq] at hs
  subst hs
  cases hrel : t.releaseFifo with
  | cons idx rest =>
    right
    simp only [load, mqFreelistHandler, hrel, List.length_cons]
    omega
  | nil =>
    unfold mqFreelistHandler
    by_cases hc : t.freeListCounter.toNat < sz.multiQueueSize ∧ t.inp.freeListFifo.length < sz.multiQueueSize
    · right
      simp only [load, hrel, if_pos hc, counter_succ hc.1, List.length_nil]
      omega
    · left
      simp only [if_neg hc, List.append_nil]
      rw [← hrel]

theorem load_lt (h : Moves sz u t) : u.load sz < t.load sz := by
  obtain ⟨hne, b, hb, hs⟩ := h
  cases b with
  | push e => cases hb
  | popReq r => cases hb
  | process =>
    cases hs
    exact load_process.resolve_left hne
  | pointerTable => exact (load_pointerTable hs).resolve_left hne
  | metaTable => exact (load_metaTable hs).resolve_left hne
  | freelist => exact (load_freelist hs).resolve_left hne

theorem moves_wf (sz : MqSizes) : WellFounded (@Moves T sz) := Subrelation.wf load_lt (measure (load sz)).wf

/-! ## At rest -/

/-- What is the case when no call does anything any more. -/
structure Resting (sz : MqSizes) (t : MultiQueueNet T) : Prop where
  main : t.proc.rtState = .STATE_MAIN
  tables : t.settledPtr = t.ptr.ptrTable ∧ t.settledMeta = t.metaTable
  pops : t.inp.multiQueuePopReq = []
  answered : t.multiQueuePopRsp = queueAnswers t.taken
  pushes : t.inp.multiQueuePush = [] ∨ t.free sz = []

theorem still (hrest : ∀ u, ¬Moves sz u t) (hb : b.isCall = true) (hs : t.step sz b = some u) : u = t := by
  by_contra hne
  exact hrest u ⟨hne, b, hb, hs⟩

theorem rest_metaTable (hrest : ∀ u, ¬Moves sz u t) : t.metaReqFifo = [] := by
  have heq := congrArg MultiQueueNet.metaReqFifo (still hrest (b := .metaTable) rfl rfl)
  cases hreq : t.metaReqFifo with
  | nil => rfl
  | cons req rest => simp [hreq] at heq

theorem Inv.rest_pointerTable (h : Inv sz t ops cells) (hrest : ∀ u, ¬Moves sz u t) :
    t.pointerUpdFifo = [] ∧ t.pointerReqFifo = [] := by
  have heq := still hrest (b := .pointerTable) rfl rfl
  cases hupd : t.pointerUpdFifo with
  | cons upd rest =>
    have hupds := congrArg MultiQueueNet.pointerUpdFifo heq
    simp [hupd] at hupds
  | nil =>
    refine ⟨rfl, ?_⟩
    have hreqs := congrArg MultiQueueNet.pointerReqFifo heq
    cases hreq : t.pointerReqFifo with
    | nil => rfl
    | cons req rest =>
      obtain ⟨-, -, -, hunlocked⟩ := h.request hupd hreq
      simp [hupd, hreq, h.lock.wait, hunlocked] at hreqs

theorem rest_freelist (hrest : ∀ u, ¬Moves sz u t) : t.releaseFifo = [] ∧
    ¬(t.freeListCounter.toNat < sz.multiQueueSize ∧ t.inp.freeListFifo.length < sz.multiQueueSize) := by
  have heq := still hrest (b := .freelist) rfl rfl
  cases hrel : t.releaseFifo with
  | cons idx rest =>
    have hreleased := congrArg MultiQueueNet.releaseFifo heq
    simp [hrel] at hreleased
  | nil =>
    refine ⟨rfl, fun hc => ?_⟩
    have hlist := congrArg (fun v => v.inp.freeListFifo) heq
    simp [hrel, hc] at hlist

/-- An answer is taken at once, so the state machine is in `STATE_MAIN`. -/
theorem Inv.rest_process (h : Inv sz t ops cells) (hrest : ∀ u, ¬Moves sz u t) : t.proc.rtState = .STATE_MAIN := by
  have heq := still hrest (b := .process) rfl rfl
  obtain ⟨-, hpreq⟩ := h.rest_pointerTable hrest
  have hpointer := h.pointer
  cases hs : t.proc.rtState with
  | STATE_MAIN => rfl
  | STATE_PUSH | STATE_POP =>
    simp only [PointerClient, asked, hs, hpreq] at hpointer
    have hrsp := congrArg (fun v => v.inp.pointerRspFifo) heq
    rcases hpointer with ⟨hnil, -⟩ | ⟨-, hans⟩
    · cases hnil
    · simp [mqProcessRequests, hs, hans, after] at hrsp
  | STATE_PUSH_2 =>
    have hmain := congrArg (fun v => v.proc.rtState) heq
    simp [mqProcessRequests, hs, after, mqPush2] at hmain
  | STATE_POP_2 =>
    have hclient := h.element.client
    rw [rest_metaTable hrest, hs] at hclient
    obtain ⟨m, hm⟩ := hclient.answer_of_nil
    have hrsp := congrArg (fun v => v.inp.metaRspFifo) heq
    simp [mqProcessRequests, hs, hm, after] at hrsp

/-- In `STATE_MAIN` a pop is always taken up, and an insertion if an element is free. -/
theorem Inv.rest_main (h : Inv sz t ops cells) (hrest : ∀ u, ¬Moves sz u t) :
    t.inp.multiQueuePopReq = [] ∧ (t.inp.multiQueuePush = [] ∨ t.inp.freeListFifo = []) := by
  have hmain := h.rest_process hrest
  have hstate := congrArg (fun v => v.proc.rtState) (still hrest (b := .process) rfl rfl)
  simp only [after, mqProcessRequests, hmain, mqMain] at hstate
  cases hpush : t.inp.multiQueuePush with
  | nil =>
    refine ⟨?_, .inl rfl⟩
    cases hreq : t.inp.multiQueuePopReq with
    | nil => rfl
    | cons r rest => simp [hpush, hreq] at hstate
  | cons e rest =>
    cases hfree : t.inp.freeListFifo with
    | cons idx free => simp [hpush, hfree] at hstate
    | nil =>
      refine ⟨?_, .inr rfl⟩
      cases hreq : t.inp.multiQueuePopReq with
      | nil => rfl
      | cons r rest => simp [hpush, hfree, hreq] at hstate

theorem Inv.resting (h : Inv sz t ops cells) (hrest : ∀ u, ¬Moves sz u t) : Resting sz t := by
  have hmain := h.rest_process hrest
  obtain ⟨hupd, -⟩ := h.rest_pointerTable hrest
  obtain ⟨hrel, hlist⟩ := rest_freelist hrest
  obtain ⟨hpops, hpushes⟩ := h.rest_main hrest
  have htodo : todo t.proc = {} := by simp [todo, hmain]
  have htaken : t.taken = ops := by simp [h.taken, unfinished, hmain]
  refine ⟨hmain, ⟨?_, ?_⟩, hpops, ?_, hpushes.imp_right fun hnil => ?_⟩
  · simp [settledPtr, hupd, htodo]
  · simp [settledMeta, rest_metaTable hrest, htodo]
  · rw [htaken]
    exact h.answered
  · -- all elements were given out, and none came back
    have hall : sz.multiQueueSize ≤ t.freeListCounter.toNat := by
      rw [hnil] at hlist
      by_contra hlt
      exact hlist ⟨Nat.lt_of_not_le hlt, Nat.lt_of_le_of_lt (Nat.zero_le _) (Nat.lt_of_not_le hlt)⟩
    simp [free, hmain, hrel, hnil, fresh, List.drop_eq_nil_of_le, hall]

/-! ## Main result -/

/-- What the queues promise in every state of a run. -/
structure RefinesQueues (sz : MqSizes) (t : MultiQueueNet T) : Prop where
  kept : Kept t
  /-- All requests taken up, but for the one that is being served, have had their effects on the queues and their answers. -/
  answered : ∃ ops, t.taken = ops ++ unfinished t.proc ∧ t.multiQueuePopRsp = queueAnswers ops ∧
    ∀ k, t.contents sz k = queueRun ops k
  /-- Every element is free or in the chain of exactly one key. -/
  partition : Partition (slots sz) (t.free sz) (t.chain sz)
  /-- Only finitely many calls do anything without new requests. -/
  ends : Acc (Moves sz) t
  rest : (∀ u, ¬Moves sz u t) → Resting sz t

theorem Inv.chain_eq (h : Inv sz t ops cells) : t.chain sz = cells := by
  funext k
  have hwalk := h.stored.walk_eq k
  rw [slots, List.length_map, List.length_range] at hwalk
  exact hwalk

variable [Inhabited T]

/-- Under every interleaving of insertions, pops and calls of the processes, `multi_queue` is a FIFO queue for every key. -/
theorem multi_queue_refines_queues (h : Reach (step sz) anyStep start t) : RefinesQueues sz t := by
  obtain ⟨ops, cells, hinv⟩ := inv_of_reach h
  have hchain := hinv.chain_eq
  refine ⟨?_, ⟨ops, hinv.taken, hinv.answered, fun k => ?_⟩, ?_, (moves_wf sz).apply t, hinv.resting⟩
  · exact h.invariant (P := Kept) ⟨rfl, rfl⟩ fun u b v hu _ hs => kept_step hu hs
  · rw [contents, hchain]
    exact hinv.stored.values k
  · rw [hchain]
    exact hinv.stored.partition

/-- The first two values of key 5 are popped; a look at its head before, and a pop of an empty queue, change nothing. -/
def twoKeys : List (MqLabel (BitVec 64)) :=
  [.push ⟨5, 0x1000⟩, .push ⟨9, 0x2000⟩, .push ⟨5, 0x3000⟩] ++
    (List.replicate 12 [.freelist, .process, .pointerTable, .metaTable]).flatten ++
    [.popReq ⟨.FRONT, 5⟩, .popReq ⟨.POP, 5⟩, .popReq ⟨.POP, 3⟩, .popReq ⟨.POP, 5⟩] ++
    (List.replicate 16 [.freelist, .process, .pointerTable, .metaTable]).flatten

theorem multi_queue_refines_queues_twoKeys : ∃ t, Reach (step ⟨128, 2048, by decide⟩) anyStep start t ∧
    t.multiQueuePopRsp = [0x1000, 0x1000, 0x3000] ∧ RefinesQueues (T := BitVec 64) ⟨128, 2048, by decide⟩ t := by
  have hrun : (run (step ⟨128, 2048, by decide⟩) start twoKeys).map (fun t => t.multiQueuePopRsp) =
      some [0x1000, 0x1000, 0x3000] := by decide +kernel
  obtain ⟨t, ht, hrsp⟩ := Option.map_eq_some_iff.mp hrun
  have hreach := reach_of_run ht
  exact ⟨t, hreach, hrsp, multi_queue_refines_queues hreach⟩

end MultiQueueNet

end FpgaNetworkStack.Roce
