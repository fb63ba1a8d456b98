/-
The two mutexes of the front server, as its threads take them (source/http_server.cpp, manage.cpp, co_worker.cpp,
front_conn.cpp, include/http_server.hpp).

`conn_notify_mutex` is for `pending_to_remove_`, `front_conns_mutex_` for the registry, the cache and the wheel. A call is
what it does to the mutexes, in the order of the source; `work` is what it does with one held. `timed_wait` unlocks
`conn_notify_mutex` and locks it again, for a notification as for a time-out. Only a round of `manage_thread` holds both.

- `calls_finish`: **the front server does not deadlock.**
-/
import AirobotMsgd.Core.Locks

namespace AirobotMsgd.LockOrder

open AirobotMsgd.Locks AirobotMsgd.Runs

inductive Mutex where
  | connNotify
  | frontConns
deriving DecidableEq, Repr

def Mutex.index : Mutex → ℕ
  | .connNotify => 0
  | .frontConns => 1

theorem Mutex.index_injective : Function.Injective Mutex.index := by
  intro a b h
  cases a <;> cases b <;> first | rfl | cases h

/-- `conn_notify_mutex` is taken first -/
instance : LinearOrder Mutex := LinearOrder.lift' Mutex.index Mutex.index_injective

instance : Finite Mutex := Finite.of_injective (fun m : Mutex => decide (m = .frontConns)) fun a b h => by
  cases a <;> cases b <;> simp_all

theorem connNotify_lt : Mutex.connNotify < Mutex.frontConns := Nat.zero_lt_one

/-- a `lock_guard` and what it guards -/
def guarded (m : Mutex) : List (Instr Mutex) := [.acquire m, .work, .release m]

/-- how the wait of a round of `manage_thread` ends -/
inductive Wake where
  | notifiedForNothing
  | notified
  | timedOut
deriving DecidableEq, Repr

inductive Call where
  /-- with a connection inserted, or refused -/
  | acceptHandler (inserted : Bool)
  | requestSessionId
  | setSessionId
  | requestConnection
  | showConnsInfo
  | pushToRemove
  /-- `push_to_remove` and `notify_one` -/
  | notifyConnError
  /-- a tick that finds so many connections expired -/
  | timingWheelCheck (expired : ℕ)
  | manageRound (wake : Wake)
deriving DecidableEq, Repr

def Call.locks : Call → List (Instr Mutex)
  | .acceptHandler inserted => if inserted then guarded .frontConns else []
  | .requestSessionId | .setSessionId | .requestConnection | .showConnsInfo => guarded .frontConns
  | .pushToRemove => guarded .connNotify
  | .notifyConnError => guarded .connNotify ++ [.work]
  | .timingWheelCheck expired => (List.replicate expired (guarded .connNotify)).flatten ++ guarded .frontConns
  | .manageRound wake =>
    [.acquire .connNotify, .release .connNotify, .acquire .connNotify] ++
      (match wake with
        | .notifiedForNothing => [.work]
        | .notified => guarded .frontConns
        | .timedOut => guarded .frontConns ++ [.work]) ++
      [.release .connNotify]

theorem guarded_climbs (m : Mutex) : Climbs [] (guarded m) := by
  simp [guarded, Climbs]

/-- every call takes the mutexes in their order, and leaves none locked -/
theorem climbs (c : Call) : Climbs [] c.locks := by
  cases c with
  | acceptHandler inserted =>
    cases inserted with
    | true => exact guarded_climbs _
    | false => rfl
  | timingWheelCheck expired =>
    refine Climbs.append ?_ (guarded_climbs _)
    have h := climbs_flatMap (fun _ : Unit => guarded_climbs .connNotify) (List.replicate expired ())
    rwa [List.flatMap_def, List.map_replicate] at h
  | manageRound wake => cases wake <;> simp [Call.locks, guarded, Climbs, connNotify_lt]
  | notifyConnError => simp [Call.locks, guarded, Climbs]
  | pushToRemove => exact guarded_climbs _
  | requestSessionId => exact guarded_climbs _
  | setSessionId => exact guarded_climbs _
  | requestConnection => exact guarded_climbs _
  | showConnsInfo => exact guarded_climbs _

/-- **The front server does not deadlock.** Any number of threads make any calls, and are at any point of them: they can
all go on to the ends of their calls, with both mutexes unlocked. -/
theorem calls_finish {ι : Type*} [Fintype ι] [DecidableEq ι] (calls : ι → List Call) (order : List ι) :
    ∃ more : List ι,
      let s := run step (init fun i => (calls i).flatMap Call.locks) (order ++ more)
      (∀ i, s.todo i = []) ∧ ∀ m, s.owner m = none := by
  have hinit : Locks.Inv (init fun i => (calls i).flatMap Call.locks) := inv_init fun i => climbs_flatMap climbs (calls i)
  have hinv : ∀ order, Locks.Inv (run step (init fun i => (calls i).flatMap Call.locks) order) := fun order =>
    Always.last (always_run (I := Locks.Inv) (fun s i h => step_inv h i) hinit)
  obtain ⟨more, hdone⟩ := can_finish (hinv order)
  rw [← run_append] at hdone
  exact ⟨more, hdone, (hinv (order ++ more)).unlocked hdone⟩

end AirobotMsgd.LockOrder
