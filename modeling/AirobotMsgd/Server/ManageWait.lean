/-
The wait of `manage_thread` and the threads that wake it (source/manage.cpp, http_server::push_to_remove,
front_conn::notify_conn_error, co_worker::timing_wheel_check).

A step is what one thread does between two operations on `conn_notify_mutex` or `conn_notify`. A caller locks, inserts,
unlocks, and makes its `notify_one` some time later without the lock; a tick inserts several connections before its one
`notify_one`. A notification is delivered to a waiting thread or lost. When `timed_wait` returns it holds the lock
again: true for a notification, which is followed by a pass, false for a time-out, which is followed by a report. The
lock is released at the end of the loop body and taken anew for the next wait.

`due` is a ghost: the entries present when the last wait ended, as far as no pass has processed them.

Results:
- `handled_iff_prompt`: no entry is left behind, and every wait that ends is followed by the processing of what it
  found, if and only if no wait begins with entries whose callers have all made their notification, and none that timed
  out returns with entries present.
- `notified_in_the_gap`: a caller that inserts and notifies between the pass and the wait; and a time-out.
-/
import AirobotMsgd.Core.Runs
import Mathlib.Data.List.Basic

namespace AirobotMsgd.ManageWait

open AirobotMsgd.Runs

/-- where `manage_thread` is -/
inductive Phase where
  /-- between two rounds, without the lock -/
  | between
  /-- in `timed_wait`, not notified -/
  | waiting
  /-- in `timed_wait`, notified, without the lock yet -/
  | notified
  /-- in `timed_wait`, timed out, without the lock yet -/
  | timedOut
  /-- `timed_wait` has returned true -/
  | pass
  /-- `timed_wait` has returned false -/
  | report
deriving DecidableEq, Repr

structure St where
  phase : Phase
  pendingToRemove : List ℕ
  /-- callers that have inserted and not notified yet -/
  owing : ℕ
  due : List ℕ
deriving DecidableEq, Repr

inductive Op where
  /-- a caller's first `push_to_remove` -/
  | push (c : ℕ)
  /-- another one of a caller that has still to notify -/
  | pushMore (c : ℕ)
  | notifyOne
  /-- lock, and `timed_wait` up to the wait -/
  | wait
  /-- 45 seconds have passed -/
  | timeout
  /-- the lock is taken again, and `timed_wait` returns -/
  | wake
  /-- the rest of the loop body, up to the unlock -/
  | finish
deriving DecidableEq, Repr

def init : St := ⟨.between, [], 0, []⟩

/-- `manage_thread` holds the lock -/
def St.locked (s : St) : Bool := s.phase = .pass || s.phase = .report

def step (s : St) : Op → St
  | .push c =>
    if s.locked then s
    else { s with pendingToRemove := s.pendingToRemove.insert c, owing := s.owing + 1 }
  | .pushMore c =>
    if s.locked ∨ s.owing = 0 then s else { s with pendingToRemove := s.pendingToRemove.insert c }
  | .notifyOne =>
    if s.owing = 0 then s
    else { s with owing := s.owing - 1, phase := if s.phase = .waiting then .notified else s.phase }
  | .wait => if s.phase = .between then { s with phase := .waiting } else s
  | .timeout => if s.phase = .waiting then { s with phase := .timedOut } else s
  | .wake =>
    match s.phase with
    | .notified => { s with phase := .pass, due := s.pendingToRemove }
    | .timedOut => { s with phase := .report, due := s.pendingToRemove }
    | _ => s
  | .finish =>
    match s.phase with
    | .pass => { s with phase := .between, pendingToRemove := [], due := s.due.filter (· ∉ s.pendingToRemove) }
    | .report => { s with phase := .between }
    | _ => s

/-! ## What is claimed -/

structure Handled (s : St) : Prop where
  /-- nothing is left to a thread that waits for a notification nobody will make -/
  noneStranded : s.phase = .waiting → s.owing = 0 → s.pendingToRemove = []
  /-- what a wait found is due until the pass that follows is over, and no longer -/
  noneDue : s.phase ≠ .pass → s.due = []

/-- a wait begins with no entries or with a notification still to come, and one that times out returns with no
entries -/
def Prompt (s : St) : Op → Prop
  | .wait => s.phase = .between → s.owing = 0 → s.pendingToRemove = []
  | .wake => s.phase = .timedOut → s.pendingToRemove = []
  | _ => True

/-! ## Invariant -/

structure Inv (s : St) : Prop where
  handled : Handled s
  /-- the lock keeps the callers out of a pass -/
  pass : s.phase = .pass → s.due = s.pendingToRemove

theorem inv_init : Inv init := ⟨⟨fun h => (by cases h), fun _ => rfl⟩, fun h => (by cases h)⟩

theorem step_inv (s : St) (o : Op) (hprompt : Prompt s o) (h : Inv s) : Inv (step s o) := by
  have hs := h.handled.noneStranded
  have hd := h.handled.noneDue
  cases o with
  | push c =>
    simp only [step]
    split_ifs with hl
    · exact h
    · have hpass : s.phase ≠ .pass := by
        intro hp
        simp [St.locked, hp] at hl
      exact ⟨⟨fun _ h0 => absurd h0 (Nat.succ_ne_zero _), fun _ => hd hpass⟩, fun hp => absurd hp hpass⟩
  | pushMore c =>
    simp only [step]
    split_ifs with hl
    · exact h
    · rw [not_or] at hl
      have hpass : s.phase ≠ .pass := by
        intro hp
        simp [St.locked, hp] at hl
      exact ⟨⟨fun _ h0 => absurd h0 hl.2, fun _ => hd hpass⟩, fun hp => absurd hp hpass⟩
  | notifyOne =>
    simp only [step]
    split_ifs with h0 hw
    · exact h
    · -- delivered
      exact ⟨⟨fun hp => by simp at hp, fun _ => hd (by rw [hw]; decide)⟩, fun hp => by simp at hp⟩
    · -- lost, or not needed any more
      exact ⟨⟨fun hp => absurd hp hw, fun hp => hd hp⟩, fun hp => h.pass hp⟩
  | wait =>
    simp only [step]
    split_ifs with hb
    · exact ⟨⟨fun _ h0 => hprompt hb h0, fun _ => hd (by rw [hb]; decide)⟩, fun hp => by simp at hp⟩
    · exact h
  | timeout =>
    simp only [step]
    split_ifs with hw
    · exact ⟨⟨fun hp => by simp at hp, fun _ => hd (by rw [hw]; decide)⟩, fun hp => by simp at hp⟩
    · exact h
  | wake =>
    simp only [step]
    split
    · exact ⟨⟨fun hp => by simp at hp, fun hp => absurd rfl hp⟩, fun _ => rfl⟩
    · rename_i ht
      exact ⟨⟨fun hp => by simp at hp, fun _ => hprompt ht⟩, fun hp => by simp at hp⟩
    · exact h
  | finish =>
    simp only [step]
    split
    · rename_i hp
      -- the pass has processed everything that was due
      refine ⟨⟨fun hw => by simp at hw, ?_⟩, fun hw => by simp at hw⟩
      intro _
      rw [h.pass hp, List.filter_eq_nil_iff]
      intro c hc
      simpa using hc
    · rename_i hp
      exact ⟨⟨fun hw => by simp at hw, fun _ => hd (by rw [hp]; decide)⟩, fun hw => by simp at hw⟩
    · exact h

theorem prompt_of_handled (s : St) (o : Op) (h : Handled (step s o)) : Prompt s o := by
  cases o with
  | wait =>
    intro hb h0
    have hs := h.noneStranded
    simp only [step, if_pos hb] at hs
    exact hs trivial h0
  | wake =>
    intro ht
    have hd := h.noneDue
    simp only [step, ht] at hd
    exact hd (by decide)
  | _ => trivial

/-! ## Results -/

/-- **Exactly when no removal request is stranded.** For any number of callers and any order of the steps, what is
pending while `manage_thread` waits has a notification still to come, and what a wait finds is processed before the
next one, if and only if no wait begins with entries whose callers have all notified already, and none that times out
returns with entries. -/
theorem handled_iff_prompt (ops : List Op) : Always step Handled init ops ↔ Meets step Prompt init ops :=
  always_iff_meets (L := fun _ _ => True) (fun _ => Inv.handled) (fun s o _ => step_inv s o)
    (fun s o _ _ => prompt_of_handled s o) (meets_of_forall fun _ _ _ => trivial) inv_init

/-- **Notified in the gap.** A caller inserts and notifies after a pass and before the next wait; and a wait times out
between a caller's insertion and its notification. -/
theorem notified_in_the_gap :
    ¬ Always step Handled init [.wait, .push 0, .notifyOne, .wake, .finish, .push 1, .notifyOne, .wait] ∧
      ¬ Always step Handled init [.wait, .push 0, .timeout, .wake, .finish, .wait] := by
  constructor
  · intro h
    have hempty := h.last.noneStranded (by decide) (by decide)
    exact absurd hempty (by decide)
  · intro h
    have hempty := h.last.noneDue (by decide)
    exact absurd hempty (by decide)

end AirobotMsgd.ManageWait
