import FpgaNetworkStack.Lib.History
import Mathlib.Data.List.Induction

/-!
# Timers that fire once

Seen from outside a table of timers is a log: a timer is armed, or it is visited and may fire.  A visit may be asked for,
and then it is to fire if the timer is armed.  In such a log each arming is followed by one firing at most.
-/

namespace FpgaNetworkStack.Lib

variable {κ : Type*}

/-- What happens to one timer. -/
inductive Booking (κ : Type*) where
  | arm (id : κ)
  | visit (id : κ) (asked fires : Bool)
  deriving DecidableEq

namespace Booking

def armed? : Booking κ → Option κ
  | arm id => some id
  | visit _ _ _ => none

def asked? : Booking κ → Option κ
  | arm _ => none
  | visit id asked _ => if asked then some id else none

def fired? : Booking κ → Option κ
  | arm _ => none
  | visit id _ fires => if fires then some id else none

variable [DecidableEq κ]

/-- The timers that are armed behind it. -/
def mark (m : κ → Bool) : Booking κ → κ → Bool
  | arm id => Function.update m id true
  | visit id _ fires => if fires then Function.update m id false else m

end Booking

variable [DecidableEq κ] {log : List (Booking κ)} {id : κ}

/-- The timers that are armed at the end of the log. -/
def armed (log : List (Booking κ)) : κ → Bool := after Booking.mark (fun _ => false) log

/-- Only an armed timer fires, and one that is asked for does. -/
def Booking.Allowed (m : κ → Bool) : Booking κ → Prop
  | arm _ => True
  | visit id asked fires => (fires = true → m id = true) ∧ (asked = true → m id = true → fires = true)

def Legal (log : List (Booking κ)) : Prop := Conforms Booking.mark Booking.Allowed (fun _ => false) log

theorem legal_snoc {a : Booking κ} : Legal (log ++ [a]) ↔ Legal log ∧ a.Allowed (armed log) := conforms_snoc

/-- Since it was armed the timer has not fired, or it has fired once and is not armed any more. -/
theorem Legal.since {pre post : List (Booking κ)} (h : Legal (pre ++ .arm id :: post))
    (hpost : id ∉ post.filterMap Booking.armed?) :
    (post.filterMap Booking.fired?).count id + (armed (pre ++ .arm id :: post) id).toNat = 1 := by
  induction post using List.reverseRecOn with
  | nil =>
    rw [armed, after_snoc]
    show 0 + (Function.update (armed pre) id true id).toNat = 1
    rw [Function.update_self]
    rfl
  | append_singleton post a ih =>
    have hassoc : pre ++ .arm id :: (post ++ [a]) = (pre ++ .arm id :: post) ++ [a] := by simp
    rw [hassoc] at h ⊢
    rw [filterMap_snoc, List.mem_append, not_or] at hpost
    obtain ⟨hlegal, hallowed⟩ := legal_snoc.mp h
    have hih := ih hlegal hpost.1
    rw [armed, after_snoc, filterMap_snoc, List.count_append]
    unfold armed at hallowed hih
    generalize after Booking.mark (fun _ => false) (pre ++ .arm id :: post) = m at hallowed hih ⊢
    cases a with
    | arm k =>
      -- another timer, since this one is not armed again
      have hk : id ≠ k := fun heq => hpost.2 (by rw [heq]; exact List.mem_singleton.mpr rfl)
      show _ + 0 + (Function.update m k true id).toNat = 1
      rw [Function.update_of_ne hk]
      exact hih
    | visit k asked fires =>
      cases fires with
      | false => exact hih
      | true =>
        show _ + [k].count id + (Function.update m k false id).toNat = 1
        by_cases hk : id = k
        · subst hk
          rw [hallowed.1 rfl] at hih
          rw [Function.update_self, List.count_singleton_self]
          exact hih
        · rw [Function.update_of_ne hk, List.count_singleton, if_neg (by simpa using fun heq => hk heq.symm)]
          exact hih

/-- Each arming is followed by one firing at most, and an armed timer that is asked for fires. -/
structure OneShot (log : List (Booking κ)) : Prop where
  once : ∀ pre id post, log = pre ++ .arm id :: post → id ∉ post.filterMap Booking.armed? →
    (post.filterMap Booking.fired?).count id ≤ 1
  asked : ∀ pre id fires post, log = pre ++ .visit id true fires :: post → armed pre id = true → fires = true

theorem Legal.oneShot (h : Legal log) : OneShot log := by
  constructor
  · rintro pre id post rfl hpost
    have hsince := h.since hpost
    omega
  · intro pre id fires post hlog harmed
    exact (h pre _ post hlog).2 rfl harmed

/-- The log accounts for the timers that are armed, the requests to arm one, the visits asked for and the firings. -/
structure Books (log : List (Booking κ)) (active : κ → Bool) (sets asked fired : List κ) : Prop where
  legal : Legal log
  active : active = armed log
  sets : sets = log.filterMap Booking.armed?
  asked : asked = log.filterMap Booking.asked?
  fired : fired = log.filterMap Booking.fired?

variable {active : κ → Bool} {sets asked fired : List κ}

theorem books_nil : Books [] (fun _ : κ => false) [] [] [] := ⟨conforms_nil, rfl, rfl, rfl, rfl⟩

theorem Books.arm (h : Books log active sets asked fired) (id : κ) :
    Books (log ++ [.arm id]) (Function.update active id true) (sets ++ [id]) asked fired := by
  refine ⟨legal_snoc.mpr ⟨h.legal, trivial⟩, ?_, ?_, ?_, ?_⟩
  · rw [armed, after_snoc, h.active]
    rfl
  · rw [filterMap_snoc, h.sets]
    rfl
  · rw [filterMap_snoc, h.asked]
    exact (List.append_nil _).symm
  · rw [filterMap_snoc, h.fired]
    exact (List.append_nil _).symm

/-- A visit, asked for or not. -/
theorem Books.visit (h : Books log active sets asked fired) (id : κ) {ask fires : Bool}
    (hfires : fires = true → active id = true) (hask : ask = true → active id = true → fires = true) :
    Books (log ++ [.visit id ask fires]) (if fires then Function.update active id false else active) sets
      (asked ++ if ask then [id] else []) (fired ++ if fires then [id] else []) := by
  refine ⟨legal_snoc.mpr ⟨h.legal, ?_⟩, ?_, ?_, ?_, ?_⟩
  · rw [← h.active]
    exact ⟨hfires, hask⟩
  · rw [armed, after_snoc, h.active]
    rfl
  · rw [filterMap_snoc, h.sets]
    exact (List.append_nil _).symm
  · rw [filterMap_snoc, h.asked]
    cases ask <;> rfl
  · rw [filterMap_snoc, h.fired]
    cases fires <;> rfl

end FpgaNetworkStack.Lib
