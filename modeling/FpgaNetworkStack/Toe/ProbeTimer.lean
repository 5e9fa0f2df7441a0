import FpgaNetworkStack.Toe.Timers
import FpgaNetworkStack.Lib.Armed
import FpgaNetworkStack.Lib.Reach

/-!
# The close timer and the probe timer arm and fire

A set request is written a few calls after it has been read, and no other request is read before that.  The probe timer is
also asked to fire at once; with a full event FIFO such a request is read and nothing happens.
-/

namespace FpgaNetworkStack.Toe

open Lib

variable {b : Build} {time60s time50ms : BitVec 32}

/-- What a call of `close_timer` has done, as its flag and its output tell: it has started the timer it waited with, waited,
read the next request, or visited a session. -/
def closeSeen (s : CloseTimer) (r : CloseTimer × List SessionID × List SessionID) : Option (Booking SessionID) :=
  if s.ctWaitForWrite then if r.1.ctWaitForWrite then none else some (.arm s.ctSetSessionID)
  else if r.1.ctWaitForWrite then none
  else some (.visit r.1.ctPrevSessionID false (decide (r.2.2 ≠ [])))

/-- The same for `probe_timer`; a visit is asked for when a clear request has been read. -/
def probeSeen (s : ProbeTimer) (i : ProbeTimerIn) (r : ProbeTimer × ProbeTimerIn × List (Event b)) :
    Option (Booking SessionID) :=
  if s.ptWaitForWrite then if r.1.ptWaitForWrite then none else some (.arm s.ptUpdSessionID)
  else if r.1.ptWaitForWrite then none
  else
    some (.visit r.1.ptPrevSessionID
      (decide (r.2.1.rxEng2timerClearProbeTimer.length < i.rxEng2timerClearProbeTimer.length)) (decide (r.2.2 ≠ [])))

/-- Both timers with their requests; the lists `…Sent` hold all requests so far, and the logs what the calls have done. -/
structure ArmRun (b : Build) where
  close : CloseTimer := {}
  closeSets : List SessionID := []
  closeSent : List SessionID := []
  released : List SessionID := []
  closeLog : List (Booking SessionID) := []
  probe : ProbeTimer := {}
  probeIn : ProbeTimerIn := {}
  probeSent : List SessionID := []
  clearsSent : List SessionID := []
  events : List (Event b) := []
  probeLog : List (Booking SessionID) := []

inductive ArmLabel where
  | setClose (id : SessionID)
  | closeTimer
  | setProbe (id : SessionID)
  | clearProbe (id : SessionID)
  | probeTimer (full : Bool)

namespace ArmRun

def callClose (time60s : BitVec 32) (t : ArmRun b) : ArmRun b :=
  let r := closeTimer b time60s t.close t.closeSets
  { t with
    close := r.1, closeSets := r.2.1, released := t.released ++ r.2.2
    closeLog := t.closeLog ++ (closeSeen t.close r).toList }

/-- `full` says whether the event FIFO is full. -/
def callProbe (time50ms : BitVec 32) (full : Bool) (t : ArmRun b) : ArmRun b :=
  let r := probeTimer b time50ms full t.probe t.probeIn
  { t with
    probe := r.1, probeIn := r.2.1, events := t.events ++ r.2.2
    probeLog := t.probeLog ++ (probeSeen t.probe t.probeIn r).toList }

/-- Requests for sessions of the tables, and calls. -/
def step (time60s time50ms : BitVec 32) (t : ArmRun b) : ArmLabel → Option (ArmRun b)
  | .setClose id =>
    if id.toNat < b.maxSessions.toNat then
      some { t with closeSets := t.closeSets ++ [id], closeSent := t.closeSent ++ [id] }
    else none
  | .closeTimer => some (t.callClose time60s)
  | .setProbe id =>
    if id.toNat < b.maxSessions.toNat then
      some { t with
        probeIn.txEng2timerSetProbeTimer := t.probeIn.txEng2timerSetProbeTimer ++ [id]
        probeSent := t.probeSent ++ [id] }
    else none
  | .clearProbe id =>
    if id.toNat < b.maxSessions.toNat then
      some { t with
        probeIn.rxEng2timerClearProbeTimer := t.probeIn.rxEng2timerClearProbeTimer ++ [id]
        clearsSent := t.clearsSent ++ [id] }
    else none
  | .probeTimer full => some (t.callProbe time50ms full)

/-- The clear request that the next call of `probe_timer` reads. -/
def takesClear (t : ArmRun b) : Option SessionID :=
  if t.probe.ptWaitForWrite then none
  else if t.probeIn.txEng2timerSetProbeTimer = [] then t.probeIn.rxEng2timerClearProbeTimer.head?
  else none

/-- No clear request of a running timer is read while the event FIFO is full. -/
def resumes (t : ArmRun b) : ArmLabel → Bool
  | .probeTimer full => t.takesClear.all fun id => !(full && (t.probe.probeTimerTable id).active)
  | _ => true

/-! ## The books -/

/-- What `close_timer` has done: the requests but the one it waits with, and the sessions it has released. -/
structure CloseBooked (t : ArmRun b) (sets : List SessionID) : Prop where
  books : Books t.closeLog (fun id => (t.close.closeTimerTable id).active) sets [] t.released
  sent : t.closeSent = sets ++ ((if t.close.ctWaitForWrite then [t.close.ctSetSessionID] else []) ++ t.closeSets)

/-- What `probe_timer` has done: the set requests but the one it waits with, the clear requests, and the events. -/
structure ProbeBooked (t : ArmRun b) (sets clears fired : List SessionID) : Prop where
  books : Books t.probeLog (fun id => (t.probe.probeTimerTable id).active) sets clears fired
  sent : t.probeSent =
    sets ++ ((if t.probe.ptWaitForWrite then [t.probe.ptUpdSessionID] else []) ++ t.probeIn.txEng2timerSetProbeTimer)
  cleared : t.clearsSent = clears ++ t.probeIn.rxEng2timerClearProbeTimer
  events : t.events = fired.map (resumeEvent b)

end ArmRun

-- an entry that is written changes one flag
theorem active_update {ε : Type} (f : ε → Bool) (table : SessionID → ε) (id : SessionID) (entry : ε) :
    (fun k => f (Function.update table id entry k)) = Function.update (fun k => f (table k)) id (f entry) := by
  funext k
  by_cases hk : k = id
  · subst hk
    rw [Function.update_self, Function.update_self]
  · rw [Function.update_of_ne hk, Function.update_of_ne hk]

theorem active_visit {ε : Type} (f : ε → Bool) (table : SessionID → ε) (id : SessionID) {entry : ε} {fires : Bool}
    (h : f entry = if fires then false else f (table id)) :
    (fun k => f (Function.update table id entry k)) =
      if fires then Function.update (fun k => f (table k)) id false else fun k => f (table k) := by
  rw [active_update, h]
  cases fires with
  | true => rfl
  | false => exact Function.update_eq_self id _

theorem CloseTimerEntry.visit_fires (entry : CloseTimerEntry) :
    entry.visit.1.active = (if entry.visit.2 then false else entry.active) ∧
      (entry.visit.2 = true → entry.active = true) := by
  unfold visit
  cases ha : entry.active with
  | false => simp [ha]
  | true =>
    by_cases ht : entry.time = 0
    · simp [ht]
    · have hne : ¬entry.time = 0#32 := ht
      simp [hne]

theorem ProbeTimerEntry.visit_fires (entry : ProbeTimerEntry) (fastResume full : Bool) :
    (entry.visit fastResume full).1.active = (if (entry.visit fastResume full).2 then false else entry.active) ∧
      ((entry.visit fastResume full).2 = true → entry.active = true) ∧
      (fastResume = true → full = false → entry.active = true → (entry.visit fastResume full).2 = true) := by
  unfold visit
  cases ha : entry.active with
  | false => simp [ha]
  | true =>
    cases full with
    | true => simp [ha]
    | false =>
      rw [Bool.not_false, Bool.and_true, if_pos rfl]
      by_cases hdue : (entry.time == 0 || fastResume) = true
      · rw [if_pos hdue]
        exact ⟨rfl, fun _ => rfl, fun _ _ _ => rfl⟩
      · rw [if_neg hdue]
        refine ⟨rfl, fun hfires => absurd hfires Bool.false_ne_true, ?_⟩
        intro hfast
        rw [hfast, Bool.or_true] at hdue
        exact absurd rfl hdue

namespace ArmRun

/-! ## One call -/

variable {t : ArmRun b}

theorem CloseBooked.call {sets : List SessionID} (h : t.CloseBooked sets) :
    ∃ sets', (t.callClose time60s).CloseBooked sets' := by
  have hcalled := ctCalled (b := b) time60s t.close t.closeSets
  have hsent := h.sent
  unfold callClose
  generalize closeTimer b time60s t.close t.closeSets = r at hcalled
  cases hcalled with
  | write prev hw =>
    simp only [closeSeen, hw, if_true, Bool.false_eq_true, if_false, Option.toList_some, List.append_nil]
    refine ⟨sets ++ [t.close.ctSetSessionID], ?_, ?_⟩
    · show Books _ (fun k => CloseTimerEntry.active (Function.update t.close.closeTimerTable _ _ k)) _ _ _
      rw [active_update]
      exact h.books.arm _
    · rw [hsent, if_pos hw, List.append_assoc]
      rfl
  | wait prev hw =>
    simp only [closeSeen, hw, if_true, Option.toList_none, List.append_nil]
    refine ⟨sets, h.books, ?_⟩
    rw [hsent, hw]
  | read id rest hw hqueue =>
    simp only [closeSeen, hw, Bool.false_eq_true, if_false, if_true, Option.toList_none, List.append_nil]
    refine ⟨sets, h.books, ?_⟩
    rw [hsent, hw, hqueue]
    rfl
  | visit curr hw hqueue =>
    obtain ⟨hactive, hfires⟩ := (t.close.closeTimerTable t.close.ctCurrSessionID).visit_fires
    have hseen : decide ((if (t.close.closeTimerTable t.close.ctCurrSessionID).visit.2 then
        [t.close.ctCurrSessionID] else []) ≠ []) = (t.close.closeTimerTable t.close.ctCurrSessionID).visit.2 := by
      cases (t.close.closeTimerTable t.close.ctCurrSessionID).visit.2 <;> rfl
    simp only [closeSeen, hw, Bool.false_eq_true, if_false, Option.toList_some, hseen]
    refine ⟨sets, ?_, ?_⟩
    · have hbooks := h.books.visit t.close.ctCurrSessionID hfires (fun hask => absurd hask Bool.false_ne_true)
      show Books _ (fun k => CloseTimerEntry.active (Function.update t.close.closeTimerTable _ _ k)) _ _ _
      rw [active_visit _ _ _ hactive]
      exact hbooks
    · rw [hsent, hw, hqueue]

theorem ProbeBooked.call {sets clears fired : List SessionID} (h : t.ProbeBooked sets clears fired)
    {full : Bool} (hok : t.resumes (.probeTimer full) = true) :
    ∃ sets' clears' fired', (t.callProbe time50ms full).ProbeBooked sets' clears' fired' := by
  have hcalled := ptCalled (b := b) time50ms full t.probe t.probeIn
  have hsent := h.sent
  unfold callProbe
  generalize probeTimer b time50ms full t.probe t.probeIn = r at hcalled
  cases hcalled with
  | write prev hw =>
    simp only [probeSeen, hw, if_true, Bool.false_eq_true, if_false, Option.toList_some]
    refine ⟨sets ++ [t.probe.ptUpdSessionID], clears, fired, ?_, ?_, h.cleared, (List.append_nil _).trans h.events⟩
    · show Books _ (fun k => ProbeTimerEntry.active (Function.update t.probe.probeTimerTable _ _ k)) _ _ _
      rw [active_update]
      exact h.books.arm _
    · rw [hsent, if_pos hw, List.append_assoc]
      rfl
  | wait prev hw =>
    simp only [probeSeen, hw, if_true, Option.toList_none, List.append_nil]
    refine ⟨sets, clears, fired, h.books, ?_, h.cleared, h.events⟩
    rw [hsent, hw]
  | read id rest hw hqueue =>
    simp only [probeSeen, hw, Bool.false_eq_true, if_false, if_true, Option.toList_none, List.append_nil]
    refine ⟨sets, clears, fired, h.books, ?_, h.cleared, h.events⟩
    rw [hsent, hw, hqueue]
    rfl
  | visit id fastResume curr clears' hw hsets hclears =>
    obtain ⟨hactive, hfires, hdue⟩ := (t.probe.probeTimerTable id).visit_fires fastResume full
    -- a clear request that is read in vain meets a timer that does not run
    have hask : fastResume = true → (t.probe.probeTimerTable id).active = true →
        ((t.probe.probeTimerTable id).visit fastResume full).2 = true := by
      intro hfast hrunning
      have htakes : t.takesClear = some id := by
        rw [takesClear, hw, hsets, hclears, hfast]
        rfl
      cases hfull : full with
      | false => exact hfull ▸ hdue hfast hfull hrunning
      | true =>
        rw [resumes, htakes, hfull] at hok
        change (!(true && (t.probe.probeTimerTable id).active)) = true at hok
        rw [hrunning] at hok
        cases hok
    have hread : decide (clears'.length < t.probeIn.rxEng2timerClearProbeTimer.length) = fastResume := by
      rw [hclears]
      cases fastResume <;> simp
    have hseen : decide ((if ((t.probe.probeTimerTable id).visit fastResume full).2 then [resumeEvent b id] else []) ≠
        []) = ((t.probe.probeTimerTable id).visit fastResume full).2 := by
      cases ((t.probe.probeTimerTable id).visit fastResume full).2 <;> simp
    simp only [probeSeen, hw, Bool.false_eq_true, if_false, Option.toList_some, hread, hseen]
    refine ⟨sets, clears ++ if fastResume then [id] else [],
      fired ++ if ((t.probe.probeTimerTable id).visit fastResume full).2 then [id] else [], ?_, ?_, ?_, ?_⟩
    · show Books _ (fun k => ProbeTimerEntry.active (Function.update t.probe.probeTimerTable _ _ k)) _ _ _
      rw [active_visit _ _ _ hactive]
      exact h.books.visit id hfires hask
    · rw [hsent, hw, hsets]
    · rw [h.cleared, hclears, List.append_assoc]
    · rw [List.map_append, h.events]
      split <;> rfl

/-! ## Waiting -/

/-- `close_timer` writes what it waits with in this call or in the next one, whatever the previous index. -/
theorem callClose_settles (hw : t.close.ctWaitForWrite = true) :
    (t.callClose time60s).close.ctWaitForWrite = false ∨
      ((t.callClose time60s).callClose time60s).close.ctWaitForWrite = false := by
  by_cases hne : t.close.ctSetSessionID ≠ t.close.ctPrevSessionID
  · left
    simp [callClose, closeTimer, hw, hne]
  · -- the index in front of this one
    right
    have heq := not_not.mp hne
    have hpred : t.close.ctPrevSessionID ≠ t.close.ctPrevSessionID - 1#16 := by bv_omega
    simp [callClose, closeTimer, hw, heq, hpred]

theorem callProbe_settles (hw : t.probe.ptWaitForWrite = true) (full full' : Bool) :
    (t.callProbe time50ms full).probe.ptWaitForWrite = false ∨
      ((t.callProbe time50ms full).callProbe time50ms full').probe.ptWaitForWrite = false := by
  by_cases hne : t.probe.ptUpdSessionID ≠ t.probe.ptPrevSessionID
  · left
    simp [callProbe, probeTimer, hw, hne]
  · right
    have heq := not_not.mp hne
    have hpred : t.probe.ptPrevSessionID ≠ t.probe.ptPrevSessionID - 1#16 := by bv_omega
    simp [callProbe, probeTimer, hw, heq, hpred]

/-! ## Every run -/

/-- Each request is carried out once, each timer that has been started fires once at most, and a running timer that is
cleared fires. -/
structure Kept (time60s time50ms : BitVec 32) (t : ArmRun b) : Prop where
  close : ∃ sets, t.CloseBooked sets
  closeOnce : OneShot t.closeLog
  closeSettles : t.close.ctWaitForWrite = true → (t.callClose time60s).close.ctWaitForWrite = false ∨
    ((t.callClose time60s).callClose time60s).close.ctWaitForWrite = false
  probe : ∃ sets clears fired, t.ProbeBooked sets clears fired
  probeOnce : OneShot t.probeLog
  probeSettles : t.probe.ptWaitForWrite = true → ∀ full full',
    (t.callProbe time50ms full).probe.ptWaitForWrite = false ∨
      ((t.callProbe time50ms full).callProbe time50ms full').probe.ptWaitForWrite = false

theorem booked_step {t t' : ArmRun b} {a : ArmLabel} (hok : t.resumes a = true) (hclose : ∃ sets, t.CloseBooked sets)
    (hprobe : ∃ sets clears fired, t.ProbeBooked sets clears fired) (hstep : t.step time60s time50ms a = some t') :
    (∃ sets, t'.CloseBooked sets) ∧ ∃ sets clears fired, t'.ProbeBooked sets clears fired := by
  obtain ⟨sets, hc⟩ := hclose
  obtain ⟨sets', clears, fired, hp⟩ := hprobe
  cases a with
  | setClose id =>
    simp only [step] at hstep
    split at hstep <;> cases hstep
    refine ⟨⟨sets, hc.books, ?_⟩, sets', clears, fired, hp.books, hp.sent, hp.cleared, hp.events⟩
    show t.closeSent ++ [id] = _ ++ (_ ++ (t.closeSets ++ [id]))
    rw [hc.sent, List.append_assoc, List.append_assoc]
  | closeTimer =>
    cases hstep
    exact ⟨hc.call, sets', clears, fired, hp.books, hp.sent, hp.cleared, hp.events⟩
  | setProbe id =>
    simp only [step] at hstep
    split at hstep <;> cases hstep
    refine ⟨⟨sets, hc.books, hc.sent⟩, sets', clears, fired, hp.books, ?_, hp.cleared, hp.events⟩
    show t.probeSent ++ [id] = _ ++ (_ ++ (t.probeIn.txEng2timerSetProbeTimer ++ [id]))
    rw [hp.sent, List.append_assoc, List.append_assoc]
  | clearProbe id =>
    simp only [step] at hstep
    split at hstep <;> cases hstep
    refine ⟨⟨sets, hc.books, hc.sent⟩, sets', clears, fired, hp.books, hp.sent, ?_, hp.events⟩
    show t.clearsSent ++ [id] = _ ++ (t.probeIn.rxEng2timerClearProbeTimer ++ [id])
    rw [hp.cleared, List.append_assoc]
  | probeTimer full =>
    cases hstep
    exact ⟨⟨sets, hc.books, hc.sent⟩, hp.call hok⟩

/-- As long as no clear request of a running timer meets a full event FIFO, both timers keep their books. -/
theorem timers_kept {t : ArmRun b} (h : Reach (step time60s time50ms) (fun t a => t.resumes a = true) {} t) : t.Kept time60s time50ms := by
  have hinv : (∃ sets, t.CloseBooked sets) ∧ ∃ sets clears fired, t.ProbeBooked sets clears fired := by
    apply h.invariant
    · exact ⟨⟨[], books_nil, rfl⟩, [], [], [], books_nil, rfl, rfl, rfl⟩
    · rintro u a v ⟨hclose, hprobe⟩ hok hstep
      exact booked_step hok hclose hprobe hstep
  obtain ⟨⟨sets, hc⟩, sets', clears, fired, hp⟩ := hinv
  exact ⟨⟨sets, hc⟩, hc.books.legal.oneShot, callClose_settles, ⟨sets', clears, fired, hp⟩, hp.books.legal.oneShot,
    fun hw full full' => callProbe_settles hw full full'⟩

-- Session 1 is released, and a clear request resumes session 2.
theorem timers_kept_two : ∃ t : ArmRun ⟨false, true, true, false, 1460, 4⟩,
    Reach (step 0 9) (fun t a => t.resumes a = true) {} t ∧ t.Kept 0 9 ∧ t.released = [1] ∧ t.events = [⟨.TX, 2, 0, 0, 0⟩] := by
  have hrun : (runIf (step (b := ⟨false, true, true, false, 1460, 4⟩) 0 9) (fun t a => t.resumes a = true) {}
      [.setClose 1, .closeTimer, .closeTimer, .closeTimer, .closeTimer, .setProbe 2, .probeTimer true, .probeTimer true,
        .clearProbe 2, .probeTimer false, .probeTimer false]).map (fun t => (t.released, t.events)) =
      some ([1], [⟨.TX, 2, 0, 0, 0⟩]) := by
    decide +kernel
  obtain ⟨t, ht, hmap⟩ := Option.map_eq_some_iff.mp hrun
  exact ⟨t, reach_of_runIf ht, timers_kept (reach_of_runIf ht), congrArg Prod.fst hmap, congrArg Prod.snd hmap⟩

-- The same clear request with a full event FIFO: it is read, and nothing happens.
theorem clear_lost : ∃ t : ArmRun ⟨false, true, true, false, 1460, 4⟩,
    Reach (step 1 9) anyStep {} t ∧ t.events = [] ∧ ¬OneShot t.probeLog := by
  have hrun : (run (step (b := ⟨false, true, true, false, 1460, 4⟩) 1 9) {}
      [.setProbe 2, .probeTimer false, .probeTimer false, .clearProbe 2, .probeTimer true]).map
        (fun t => (t.events, t.probeLog)) = some ([], [.arm 2, .visit 2 true false]) := by
    decide +kernel
  obtain ⟨t, ht, hmap⟩ := Option.map_eq_some_iff.mp hrun
  have hlog : t.probeLog = [.arm 2, .visit 2 true false] := congrArg Prod.snd hmap
  refine ⟨t, reach_of_run ht, congrArg Prod.fst hmap, ?_⟩
  intro h
  exact absurd (h.asked [.arm 2] 2 false [] hlog (by decide)) Bool.false_ne_true

end ArmRun

end FpgaNetworkStack.Toe
