import FpgaNetworkStack.Toe.Timers
import FpgaNetworkStack.Lib.History
import FpgaNetworkStack.Lib.Reach
import Mathlib.Data.List.Induction

/-!
# The books of the retransmit timer

What `retransmit_timer` does to its table is a log of acknowledgements, segments and visits, each applied at once.  The
log accounts for every request, and a session is given up at the fifth expiration since its last acknowledgement.
-/

namespace FpgaNetworkStack.Toe

open Lib
open EventType

variable {b : Build} {times : RtTimes}

/-! ## The log -/

/-- What a call does to one entry. -/
inductive RtAction where
  | clear (update : RxRetransmitTimerUpdate)
  | set (request : TxRetransmitTimerSet)
  | visit (id : SessionID) (full : Bool)
  deriving DecidableEq

namespace RtAction

def clear? : RtAction → Option RxRetransmitTimerUpdate
  | clear update => some update
  | _ => none

def set? : RtAction → Option TxRetransmitTimerSet
  | set request => some request
  | _ => none

def visit? : RtAction → Option SessionID
  | visit id _ => some id
  | _ => none

end RtAction

/-- The time of an entry is up, and the visit can act on it. -/
def RetransmitTimerEntry.expires (entry : RetransmitTimerEntry) (full : Bool) : Bool :=
  entry.active && entry.time == 0 && !full

/-- The table with every request applied at once, the expirations of each session since it was last acknowledged or given
up, and the sessions given up. -/
structure RtAccount where
  table : SessionID → RetransmitTimerEntry := fun _ => ⟨0, 0, false, TX⟩
  expired : SessionID → Nat := fun _ => 0
  aborted : List (SessionID × EventType) := []

/-- One action; the fifth expiration gives the session up. -/
def RtAccount.apply (times : RtTimes) (a : RtAccount) : RtAction → RtAccount
  | .clear update =>
    { a with
      table := Function.update a.table update.sessionID ((a.table update.sessionID).acknowledge times update.stop)
      expired := Function.update a.expired update.sessionID 0 }
  | .set request =>
    { a with table := Function.update a.table request.sessionID ((a.table request.sessionID).set times request.type) }
  | .visit id full =>
    let entry := a.table id
    let last := a.expired id + 1 = 5
    { table := Function.update a.table id
        (if entry.expires full then
          { entry with time := 0, active := false, retries := if last then 0 else entry.retries + 1 }
        else if entry.active && entry.time != 0 then { entry with time := entry.time - 1 }
        else entry)
      expired :=
        if entry.expires full then Function.update a.expired id (if last then 0 else a.expired id + 1) else a.expired
      aborted := if entry.expires full ∧ last then a.aborted ++ [(id, entry.type)] else a.aborted }

def account (times : RtTimes) (log : List RtAction) : RtAccount := after (RtAccount.apply times) {} log

theorem account_snoc (log : List RtAction) (a : RtAction) :
    account times (log ++ [a]) = (account times log).apply times a := after_snoc

/-! ## The timer with its requests -/

def RetransmitTimerOut.append (o o' : RetransmitTimerOut b) : RetransmitTimerOut b where
  rtTimer2eventEngSetEvent := o.rtTimer2eventEngSetEvent ++ o'.rtTimer2eventEngSetEvent
  rtTimer2stateTableReleaseState := o.rtTimer2stateTableReleaseState ++ o'.rtTimer2stateTableReleaseState
  rtTimer2rxAppNotification := o.rtTimer2rxAppNotification ++ o'.rtTimer2rxAppNotification
  rtTimer2txAppNotification := o.rtTimer2txAppNotification ++ o'.rtTimer2txAppNotification

/-- What a call has done to the table, as its queues tell: it has written the acknowledgement it waited with, read the next
one, taken a segment, or else visited the session at its position. -/
def RtAction.seen (full : Bool) (s : RetransmitTimer) (i : RetransmitTimerIn)
    (r : RetransmitTimer × RetransmitTimerIn × RetransmitTimerOut b) : Option RtAction :=
  if s.rtWaitForWrite && !r.1.rtWaitForWrite then some (.clear s.rtUpdate)
  else if r.2.1.rxEng2timerClearRetransmitTimer.length < i.rxEng2timerClearRetransmitTimer.length then none
  else
    match i.txEng2timerSetRetransmitTimer with
    | request :: _ => some (.set request)
    | [] => some (.visit s.rtPosition full)

/-- `clears` and `sets` are all requests that have been sent, `out` is everything written, and `log` what the calls have
done. -/
structure RtRun (b : Build) where
  timer : RetransmitTimer := {}
  timerIn : RetransmitTimerIn := {}
  clears : List RxRetransmitTimerUpdate := []
  sets : List TxRetransmitTimerSet := []
  out : RetransmitTimerOut b := {}
  log : List RtAction := []

inductive RtLabel where
  | clear (update : RxRetransmitTimerUpdate)
  | set (request : TxRetransmitTimerSet)
  | call (full : Bool)

namespace RtRun

/-- One call; `full` says whether the event FIFO is full. -/
def call (times : RtTimes) (full : Bool) (t : RtRun b) : RtRun b :=
  let r := retransmitTimer b times full t.timer t.timerIn
  { t with
    timer := r.1, timerIn := r.2.1, out := t.out.append r.2.2
    log := t.log ++ (RtAction.seen full t.timer t.timerIn r).toList }

/-- Requests for sessions of the table, and calls. -/
def step (times : RtTimes) (t : RtRun b) : RtLabel → Option (RtRun b)
  | .clear update =>
    if update.sessionID.toNat < b.maxSessions.toNat then
      some { t with
        timerIn.rxEng2timerClearRetransmitTimer := t.timerIn.rxEng2timerClearRetransmitTimer ++ [update]
        clears := t.clears ++ [update] }
    else none
  | .set request =>
    if request.sessionID.toNat < b.maxSessions.toNat then
      some { t with
        timerIn.txEng2timerSetRetransmitTimer := t.timerIn.txEng2timerSetRetransmitTimer ++ [request]
        sets := t.sets ++ [request] }
    else none
  | .call full => some (t.call times full)

/-- The acknowledgement that has been read and not yet written. -/
def pending (t : RtRun b) : List RxRetransmitTimerUpdate := if t.timer.rtWaitForWrite then [t.timer.rtUpdate] else []

end RtRun

/-- The set request of the next call. -/
def RetransmitTimer.takes (s : RetransmitTimer) (i : RetransmitTimerIn) : Option TxRetransmitTimerSet :=
  if s.rtWaitForWrite && s.rtUpdate.sessionID != s.rtPrevPosition then none
  else if i.rxEng2timerClearRetransmitTimer ≠ [] ∧ s.rtWaitForWrite = false then none
  else i.txEng2timerSetRetransmitTimer.head?

/-- The position is less than three entries in front of this one: it will be moved on by five. -/
def RetransmitTimer.skips (s : RetransmitTimer) (id : SessionID) : Prop :=
  (id.toNat : Int) - 3 < s.rtPosition.toNat ∧ s.rtPosition.toNat ≤ id.toNat

instance (s : RetransmitTimer) (id : SessionID) : Decidable (s.skips id) := inferInstanceAs (Decidable (_ ∧ _))

/-- Moving on by five stays in the table. -/
def RtRun.InTable (t : RtRun b) : RtLabel → Prop
  | .call _ => ∀ request ∈ t.timer.takes t.timerIn, t.timer.skips request.sessionID →
      t.timer.rtPosition.toNat + 5 < b.maxSessions.toNat
  | _ => True

instance (t : RtRun b) (a : RtLabel) : Decidable (t.InTable a) :=
  match a with
  | .call _ => inferInstanceAs (Decidable (∀ request ∈ t.timer.takes t.timerIn, t.timer.skips request.sessionID →
      t.timer.rtPosition.toNat + 5 < b.maxSessions.toNat))
  | .clear _ => isTrue trivial
  | .set _ => isTrue trivial

/-! ## The position -/

/-- The position stays in the table, if moving on does. -/
theorem rtPosition_lt (times : RtTimes) (full : Bool) {s : RetransmitTimer} {i : RetransmitTimerIn}
    (h : s.rtPosition.toNat < b.maxSessions.toNat)
    (hskip : ∀ request, s.takes i = some request → s.skips request.sessionID → s.rtPosition.toNat + 5 < b.maxSessions.toNat) :
    (retransmitTimer b times full s i).1.rtPosition.toNat < b.maxSessions.toNat := by
  have hmax := b.maxSessions.isLt
  unfold retransmitTimer
  by_cases hwrite : (s.rtWaitForWrite && s.rtUpdate.sessionID != s.rtPrevPosition) = true
  · rw [if_pos hwrite]
    exact h
  · rw [if_neg hwrite]
    split
    · exact h
    · next request rest hset hread =>
        have htakes : s.takes i = some request := by
          have hnone : ¬(i.rxEng2timerClearRetransmitTimer ≠ [] ∧ s.rtWaitForWrite = false) := by
            rintro ⟨hne, hw⟩
            obtain ⟨update, rest', hclear⟩ := List.exists_cons_of_ne_nil hne
            exact hread update rest' hclear hw
          rw [RetransmitTimer.takes, if_neg hwrite, if_neg hnone, hset]
          rfl
        -- a request near the position moves it on
        show (if s.skips request.sessionID then s.rtPosition + 5 else s.rtPosition).toNat < _
        by_cases hs : s.skips request.sessionID
        · have hroom := hskip request htakes hs
          rw [if_pos hs, BitVec.toNat_add, Nat.mod_eq_of_lt (by show s.rtPosition.toNat + 5 < 2 ^ 16; omega)]
          exact hroom
        · rw [if_neg hs]
          exact h
    · show (if b.maxSessions.toNat ≤ (s.rtPosition + 1).toNat then 0 else s.rtPosition + 1).toNat < _
      by_cases hend : b.maxSessions.toNat ≤ (s.rtPosition + 1).toNat
      · rw [if_pos hend]
        exact Nat.lt_of_le_of_lt (Nat.zero_le _) h
      · rw [if_neg hend]
        omega

/-! ## What the books say -/

/-- The log accounts for every request, for the table and for everything that is written about sessions given up. -/
structure Booked (times : RtTimes) (t : RtRun b) : Prop where
  clears : t.clears = t.log.filterMap RtAction.clear? ++ (t.pending ++ t.timerIn.rxEng2timerClearRetransmitTimer)
  sets : t.sets = t.log.filterMap RtAction.set? ++ t.timerIn.txEng2timerSetRetransmitTimer
  visits : ∀ id ∈ t.log.filterMap RtAction.visit?, id.toNat < b.maxSessions.toNat
  table : t.timer.retransmitTimerTable = (account times t.log).table
  released : t.out.rtTimer2stateTableReleaseState = (account times t.log).aborted.map (·.1)
  txApp : t.out.rtTimer2txAppNotification =
    ((account times t.log).aborted.filter (·.2 == SYN)).map fun a => ⟨a.1, false, 0, 0⟩
  rxApp : t.out.rtTimer2rxAppNotification =
    ((account times t.log).aborted.filter (·.2 != SYN)).map fun a => ⟨a.1, 0, 0, 0, true⟩

/-- The counter of an entry is the number of its expirations. -/
structure RtAccount.Counts (a : RtAccount) : Prop where
  retries : ∀ id, (a.table id).retries.toNat = a.expired id
  le : ∀ id, a.expired id ≤ 4

theorem RtAccount.Counts.apply {a : RtAccount} (h : a.Counts) (action : RtAction) : (a.apply times action).Counts := by
  cases action with
  | clear update =>
    constructor
    · intro id
      show (Function.update a.table _ _ id).retries.toNat = Function.update a.expired _ _ id
      by_cases hid : id = update.sessionID
      · subst hid
        rw [Function.update_self, Function.update_self, RetransmitTimerEntry.acknowledge]
        cases update.stop <;> rfl
      · rw [Function.update_of_ne hid, Function.update_of_ne hid]
        exact h.retries id
    · intro id
      show Function.update a.expired _ _ id ≤ 4
      by_cases hid : id = update.sessionID
      · subst hid
        rw [Function.update_self]
        omega
      · rw [Function.update_of_ne hid]
        exact h.le id
  | set request =>
    refine ⟨?_, h.le⟩
    intro id
    show (Function.update a.table _ _ id).retries.toNat = a.expired id
    by_cases hid : id = request.sessionID
    · subst hid
      rw [Function.update_self]
      exact h.retries _
    · rw [Function.update_of_ne hid]
      exact h.retries id
  | visit sid full =>
    have hretries := h.retries sid
    have hle := h.le sid
    constructor
    · intro id
      simp only [RtAccount.apply]
      by_cases hid : id = sid
      · subst hid
        rw [Function.update_self]
        by_cases he : (a.table id).expires full = true
        · rw [if_pos he, if_pos he, Function.update_self]
          by_cases hlast : a.expired id + 1 = 5
          · simp only [if_pos hlast]
            rfl
          · -- there is room for one more
            simp only [if_neg hlast]
            rw [BitVec.toNat_add, hretries]
            show (a.expired id + 1) % 8 = _
            omega
        · rw [if_neg he, if_neg he]
          split <;> exact hretries
      · rw [Function.update_of_ne hid]
        split
        · rw [Function.update_of_ne hid]
          exact h.retries id
        · exact h.retries id
    · intro id
      simp only [RtAccount.apply]
      split
      · by_cases hid : id = sid
        · subst hid
          rw [Function.update_self]
          split <;> omega
        · rw [Function.update_of_ne hid]
          exact h.le id
      · exact h.le id

theorem account_counts (times : RtTimes) (log : List RtAction) : (account times log).Counts := by
  induction log using List.reverseRecOn with
  | nil => exact ⟨fun _ => rfl, fun _ => Nat.zero_le 4⟩
  | append_singleton log action ih =>
    rw [account_snoc]
    exact ih.apply action

/-- A visit of the table is one of the account. -/
theorem visit_eq {entry : RetransmitTimerEntry} {n : Nat} (hretries : entry.retries.toNat = n) (hle : n ≤ 4)
    (id : SessionID) (full : Bool) :
    (entry.visit (b := b) id full).1 =
        (if entry.expires full then
          { entry with time := 0, active := false, retries := if n + 1 = 5 then 0 else entry.retries + 1 }
        else if entry.active && entry.time != 0 then { entry with time := entry.time - 1 }
        else entry) ∧
      (entry.visit (b := b) id full).2.rtTimer2stateTableReleaseState =
        (if entry.expires full ∧ n + 1 = 5 then [id] else []) ∧
      (entry.visit (b := b) id full).2.rtTimer2txAppNotification =
        (if entry.expires full ∧ n + 1 = 5 then if entry.type = SYN then [⟨id, false, 0, 0⟩] else [] else []) ∧
      (entry.visit (b := b) id full).2.rtTimer2rxAppNotification =
        (if entry.expires full ∧ n + 1 = 5 then if entry.type = SYN then [] else [⟨id, 0, 0, 0, true⟩] else []) := by
  unfold RetransmitTimerEntry.visit
  cases ha : entry.active with
  | false => simp [RetransmitTimerEntry.expires, ha]
  | true =>
    by_cases ht : entry.time = 0
    · cases full with
      | true => simp [RetransmitTimerEntry.expires, ha, ht]
      | false =>
        by_cases hlast : n + 1 = 5
        · have hfour : ¬entry.retries.toNat < 4 := by omega
          simp [RetransmitTimerEntry.expires, ha, ht, hlast, hfour]
        · have hfour : entry.retries.toNat < 4 := by omega
          simp [RetransmitTimerEntry.expires, ha, ht, hlast, hfour]
    · have hne : ¬entry.time = 0#32 := ht
      simp [RetransmitTimerEntry.expires, ha, hne]

variable {t : RtRun b}

theorem Booked.call (h : Booked times t) (full : Bool)
    (hlt : t.timer.rtPosition.toNat < b.maxSessions.toNat) : Booked times (t.call times full) := by
  have hcalled := rtCalled (b := b) times full t.timer t.timerIn
  unfold RtRun.call
  generalize retransmitTimer b times full t.timer t.timerIn = r at hcalled
  have hclears := h.clears
  unfold RtRun.pending at hclears
  cases hcalled with
  | write hw hne =>
    simp only [RtAction.seen, hw, Bool.not_false, Bool.and_self, if_true, Option.toList_some]
    refine ⟨?_, ?_, ?_, ?_, ?_, ?_, ?_⟩
    · rw [hclears, if_pos hw, filterMap_snoc, List.append_assoc]
      rfl
    · rw [filterMap_snoc]
      exact h.sets.trans (by simp [RtAction.set?])
    · rw [filterMap_snoc]
      exact fun id hid => h.visits id (by simpa [RtAction.visit?] using hid)
    · rw [account_snoc, h.table]
      rfl
    · rw [account_snoc]
      exact (List.append_nil _).trans h.released
    · rw [account_snoc]
      exact (List.append_nil _).trans h.txApp
    · rw [account_snoc]
      exact (List.append_nil _).trans h.rxApp
  | read update rest hw hqueue =>
    have hread : rest.length < t.timerIn.rxEng2timerClearRetransmitTimer.length := by
      rw [hqueue]
      exact Nat.lt_succ_self _
    simp only [RtAction.seen, hw, Bool.false_and, Bool.false_eq_true, if_false, if_pos hread, Option.toList_none,
      List.append_nil]
    refine ⟨?_, h.sets, h.visits, h.table, (List.append_nil _).trans h.released,
      (List.append_nil _).trans h.txApp, (List.append_nil _).trans h.rxApp⟩
    rw [hclears, hqueue, hw]
    rfl
  | set request rest position hqueue =>
    simp only [RtAction.seen, Bool.and_not_self, Bool.false_eq_true, if_false, Nat.lt_irrefl, hqueue,
      Option.toList_some]
    refine ⟨?_, ?_, ?_, ?_, ?_, ?_, ?_⟩
    · rw [filterMap_snoc]
      exact hclears.trans (by simp [RtAction.clear?, RtRun.pending])
    · rw [filterMap_snoc, h.sets, hqueue, List.append_assoc]
      rfl
    · rw [filterMap_snoc]
      exact fun id hid => h.visits id (by simpa [RtAction.visit?] using hid)
    · rw [account_snoc, h.table]
      rfl
    · rw [account_snoc]
      exact (List.append_nil _).trans h.released
    · rw [account_snoc]
      exact (List.append_nil _).trans h.txApp
    · rw [account_snoc]
      exact (List.append_nil _).trans h.rxApp
  | visit position hqueue =>
    have hcounts := account_counts times t.log
    obtain ⟨hentry, hreleased, htxApp, hrxApp⟩ := visit_eq (b := b) (hcounts.retries t.timer.rtPosition)
      (hcounts.le t.timer.rtPosition) t.timer.rtPosition full
    simp only [RtAction.seen, Bool.and_not_self, Bool.false_eq_true, if_false, Nat.lt_irrefl, hqueue,
      Option.toList_some]
    refine ⟨?_, ?_, ?_, ?_, ?_, ?_, ?_⟩
    · rw [filterMap_snoc]
      exact hclears.trans (by simp [RtAction.clear?, RtRun.pending])
    · rw [filterMap_snoc]
      exact h.sets.trans (by simp [RtAction.set?])
    · rw [filterMap_snoc]
      intro id hid
      rcases List.mem_append.mp hid with hid | hid
      · exact h.visits id hid
      · rw [List.mem_singleton.mp hid]
        exact hlt
    · rw [account_snoc]
      show Function.update t.timer.retransmitTimerTable _ _ = _
      rw [h.table, hentry]
      rfl
    · rw [account_snoc]
      show _ ++ _ = _
      rw [h.table, hreleased, h.released]
      simp only [RtAccount.apply]
      split
      · rw [List.map_append]
        rfl
      · exact List.append_nil _
    · rw [account_snoc]
      show _ ++ _ = _
      rw [h.table, htxApp, h.txApp]
      simp only [RtAccount.apply]
      split
      · rw [List.filter_append, List.map_append]
        split
        · next hsyn => simp [hsyn]
        · next hsyn => simp [hsyn]
      · exact List.append_nil _
    · rw [account_snoc]
      show _ ++ _ = _
      rw [h.table, hrxApp, h.rxApp]
      simp only [RtAccount.apply]
      split
      · rw [List.filter_append, List.map_append]
        split
        · next hsyn => simp [hsyn]
        · next hsyn => simp [hsyn]
      · exact List.append_nil _

theorem Booked.step {t t' : RtRun b} {a : RtLabel} (h : Booked times t)
    (hlt : t.timer.rtPosition.toNat < b.maxSessions.toNat) (hstep : t.step times a = some t') : Booked times t' := by
  cases a with
  | clear update =>
    simp only [RtRun.step] at hstep
    split at hstep <;> cases hstep
    refine { h with clears := ?_ }
    show t.clears ++ [update] = _ ++ (t.pending ++ (_ ++ [update]))
    rw [h.clears, List.append_assoc, List.append_assoc]
  | set request =>
    simp only [RtRun.step] at hstep
    split at hstep <;> cases hstep
    refine { h with sets := ?_ }
    show t.sets ++ [request] = _ ++ (_ ++ [request])
    rw [h.sets, List.append_assoc]
  | call full =>
    cases hstep
    exact h.call full hlt

/-! ## A waiting acknowledgement -/

theorem RtRun.call_write (hw : t.timer.rtWaitForWrite = true)
    (hne : t.timer.rtUpdate.sessionID ≠ t.timer.rtPrevPosition) (full : Bool) :
    (t.call times full).timer.rtWaitForWrite = false := by
  simp [RtRun.call, retransmitTimer, hw, hne]

theorem RtRun.call_visit (times : RtTimes) (hw : t.timer.rtWaitForWrite = true)
    (heq : t.timer.rtUpdate.sessionID = t.timer.rtPrevPosition) (hsets : t.timerIn.txEng2timerSetRetransmitTimer = [])
    (full : Bool) : (t.call times full).timer.rtWaitForWrite = true ∧
      (t.call times full).timer.rtUpdate = t.timer.rtUpdate ∧
      (t.call times full).timer.rtPrevPosition = t.timer.rtPosition ∧
      (t.call times full).timerIn.txEng2timerSetRetransmitTimer = [] ∧
      (t.call times full).timer.rtPosition =
        if b.maxSessions.toNat ≤ (t.timer.rtPosition + 1).toNat then 0 else t.timer.rtPosition + 1 := by
  simp [RtRun.call, retransmitTimer, hw, heq, hsets]

/-- The acknowledgement is written by the third call that finds no segment. -/
theorem RtRun.call_settles (hb : 1 < b.maxSessions.toNat)
    (hlt : t.timer.rtPosition.toNat < b.maxSessions.toNat) (hw : t.timer.rtWaitForWrite = true)
    (hsets : t.timerIn.txEng2timerSetRetransmitTimer = []) (full full' full'' : Bool) :
    (t.call times full).timer.rtWaitForWrite = false ∨
      ((t.call times full).call times full').timer.rtWaitForWrite = false ∨
      (((t.call times full).call times full').call times full'').timer.rtWaitForWrite = false := by
  by_cases heq : t.timer.rtUpdate.sessionID = t.timer.rtPrevPosition
  · right
    obtain ⟨hw', hupdate, hprev, hsets', hposition⟩ := RtRun.call_visit times hw heq hsets full
    by_cases heq' : t.timer.rtUpdate.sessionID = t.timer.rtPosition
    · right
      have hsame : (t.call times full).timer.rtUpdate.sessionID = (t.call times full).timer.rtPrevPosition := by
        rw [hupdate, hprev, heq']
      obtain ⟨hw'', hupdate', hprev', -, -⟩ := RtRun.call_visit times hw' hsame hsets' full'
      -- two visits in a row are at different sessions
      refine RtRun.call_write hw'' ?_ full''
      rw [hupdate', hupdate, hprev', hposition, heq']
      have hmax := b.maxSessions.isLt
      intro hnext
      have hnat := congrArg BitVec.toNat hnext
      by_cases hend : b.maxSessions.toNat ≤ (t.timer.rtPosition + 1).toNat
      · rw [if_pos hend] at hnat
        rw [BitVec.toNat_add] at hend
        simp at hnat hend
        omega
      · rw [if_neg hend, BitVec.toNat_add] at hnat
        simp at hnat
        omega
    · left
      exact RtRun.call_write hw' (by rw [hupdate, hprev]; exact heq') full'
  · left
    exact RtRun.call_write hw heq full

/-! ## Every run -/

structure RtKept (times : RtTimes) (t : RtRun b) : Prop where
  position : t.timer.rtPosition.toNat < b.maxSessions.toNat
  booked : Booked times t
  settles : t.timer.rtWaitForWrite = true → t.timerIn.txEng2timerSetRetransmitTimer = [] → ∀ full full' full'',
    (t.call times full).timer.rtWaitForWrite = false ∨
      ((t.call times full).call times full').timer.rtWaitForWrite = false ∨
      (((t.call times full).call times full').call times full'').timer.rtWaitForWrite = false

/-- As long as moving on stays in the table, the position does, the books are right, and nothing waits for ever. -/
theorem retransmitTimer_kept (hb : 1 < b.maxSessions.toNat) {t : RtRun b}
    (h : Reach (RtRun.step times) RtRun.InTable {} t) : RtKept times t := by
  have hinv : t.timer.rtPosition.toNat < b.maxSessions.toNat ∧ Booked times t := by
    apply h.invariant
    · refine ⟨?_, rfl, rfl, fun _ hid => (List.not_mem_nil hid).elim, rfl, rfl, rfl, rfl⟩
      show 0 < _
      omega
    · rintro u a v ⟨hlt, hbooked⟩ hok hstep
      refine ⟨?_, hbooked.step hlt hstep⟩
      cases a with
      | call full =>
        cases hstep
        exact rtPosition_lt times full hlt fun request htakes => hok request htakes
      | clear | set =>
        simp only [RtRun.step] at hstep
        split at hstep <;> cases hstep
        exact hlt
  exact ⟨hinv.1, hinv.2, fun hw hsets => RtRun.call_settles hb hinv.1 hw hsets⟩

-- Six expirations of session 1, with an acknowledgement behind the first one.
theorem retransmitTimer_kept_aborts :
    ∃ t : RtRun ⟨true, true, true, false, 1460, 8⟩,
      Reach (RtRun.step ⟨0, 0, 0, 0, 0⟩) RtRun.InTable {} t ∧ RtKept ⟨0, 0, 0, 0, 0⟩ t ∧
        t.out.rtTimer2stateTableReleaseState = [1] ∧ t.out.rtTimer2rxAppNotification = [⟨1, 0, 0, 0, true⟩] := by
  have hrun : (runIf (RtRun.step (b := ⟨true, true, true, false, 1460, 8⟩) ⟨0, 0, 0, 0, 0⟩) RtRun.InTable {}
      ([.set ⟨1, RT⟩] ++ List.replicate 9 (.call false) ++ [.clear ⟨1, false⟩] ++ List.replicate 4 (.call false) ++
        (List.replicate 5 ([.set ⟨1, RT⟩] ++ List.replicate 9 (.call false))).flatten)).map (fun t =>
      (t.out.rtTimer2stateTableReleaseState, t.out.rtTimer2rxAppNotification)) =
      some ([1], [⟨1, 0, 0, 0, true⟩]) := by
    decide +kernel
  obtain ⟨t, ht, hmap⟩ := Option.map_eq_some_iff.mp hrun
  obtain ⟨hreleased, hrxApp⟩ := Prod.mk.inj hmap
  exact ⟨t, reach_of_runIf ht, retransmitTimer_kept (by decide) (reach_of_runIf ht), hreleased, hrxApp⟩

theorem reach_position (times : RtTimes) {n : Nat} (hn : n < b.maxSessions.toNat) :
    ∃ t : RtRun b, Reach (RtRun.step times) anyStep {} t ∧ t.timerIn = {} ∧ t.timer.rtWaitForWrite = false ∧
      t.timer.rtPosition.toNat = n := by
  induction n with
  | zero => exact ⟨{}, Reach.refl _, rfl, rfl, rfl⟩
  | succ n ih =>
    obtain ⟨⟨timer, timerIn, clears, sets, out, log⟩, ht, hin, hw, hposition⟩ := ih (Nat.lt_of_succ_lt hn)
    change timerIn = {} at hin
    change timer.rtWaitForWrite = false at hw
    change timer.rtPosition.toNat = n at hposition
    subst hin
    have hmax := b.maxSessions.isLt
    have hnext : (timer.rtPosition + 1).toNat = n + 1 := by
      rw [BitVec.toNat_add, hposition, Nat.mod_eq_of_lt (by show n + 1 < 2 ^ 16; omega)]
      rfl
    have hroom : ¬b.maxSessions.toNat ≤ (timer.rtPosition + 1).toNat := by omega
    have hcall : retransmitTimer b times false timer {} =
        ({ timer with
            retransmitTimerTable := Function.update timer.retransmitTimerTable timer.rtPosition
              ((timer.retransmitTimerTable timer.rtPosition).visit (b := b) timer.rtPosition false).1
            rtPosition := timer.rtPosition + 1, rtPrevPosition := timer.rtPosition }, {},
          ((timer.retransmitTimerTable timer.rtPosition).visit timer.rtPosition false).2) := by
      rw [retransmitTimer, hw, if_neg (by simp), if_neg hroom]
    refine ⟨RtRun.call times false ⟨timer, {}, clears, sets, out, log⟩, ht.tail ⟨.call false, trivial, rfl⟩, ?_, ?_, ?_⟩
    · rw [RtRun.call, hcall]
    · rw [RtRun.call, hcall]
      exact hw
    · rw [RtRun.call, hcall]
      exact hnext

-- A segment of the last session, when the timer is about to visit it.
theorem rtPosition_past_end :
    ∃ t : RtRun ⟨true, true, true, false, 1460, 1000⟩,
      Reach (RtRun.step ⟨1, 5, 10, 15, 30⟩) anyStep {} t ∧ ¬t.timer.rtPosition.toNat < 1000 := by
  obtain ⟨t, ht, hin, hw, hposition⟩ := reach_position (b := ⟨true, true, true, false, 1460, 1000⟩)
    ⟨1, 5, 10, 15, 30⟩ (n := 997) (by decide)
  have hset : t.step ⟨1, 5, 10, 15, 30⟩ (.set ⟨999, RT⟩) =
      some { t with timerIn := { txEng2timerSetRetransmitTimer := [⟨999, RT⟩] }, sets := t.sets ++ [⟨999, RT⟩] } := by
    simp [RtRun.step, hin]
  refine ⟨_, (ht.tail ⟨_, trivial, hset⟩).tail ⟨.call false, trivial, rfl⟩, ?_⟩
  have heq : t.timer.rtPosition = 997 := BitVec.eq_of_toNat_eq hposition
  simp [RtRun.call, retransmitTimer, hw, heq]

end FpgaNetworkStack.Toe
