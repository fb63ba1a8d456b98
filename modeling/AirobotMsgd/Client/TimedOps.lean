/-
The timed calls of `client_ops` on one socket, and the `co_worker` thread that runs their timers' callbacks
(source/client_ops.cpp, co_worker.cpp, front_conn.cpp).

`sync_timed_connect`, `sync_timed_read_from` and `sync_timed_read_some` do the same around different operations: start a
timer whose callback shuts the socket down, block, cancel the timer if its time is not up by the clock, and return, which
destroys it. A wait that is cancelled, by `cancel()` or by the destructor, is queued with `operation_aborted`; one whose
time is up is queued without an error by the co_worker, at any moment from then on, and can be cancelled no more. The
co_worker runs the queue in order, one callback at a time.

Results:
- `contained_iff_prompt`: no callback outlives its call, in every state of a run, exactly if no call returns while its
  callback is queued without an error or running.
- `second_call_shut_down`: the two calls of `/bb`, the second of which is shut down by the timer of the first.
-/
import AirobotMsgd.Core.Runs
import AirobotMsgd.Wire.Connection

namespace AirobotMsgd.TimedOps

open AirobotMsgd.Runs

/-! ## State -/

/-- the operation a call blocks in -/
inductive Blocking where
  | connect
  | readFrom
  | readSome
deriving DecidableEq, Repr

/-- where the caller is -/
inductive Pc where
  | outside
  | blocking (op : Blocking)
  /-- before the comparison with the clock -/
  | checking
  | leaving
deriving DecidableEq, Repr

/-- a queued callback: its call, and the error code it will be given -/
structure Callback where
  call : ℕ
  ec : Ec
deriving DecidableEq, Repr

structure St where
  now : ℕ
  /-- the number of the current call, or of the last one -/
  call : ℕ
  pc : Pc
  /-- `timer.expires_at()` -/
  expiresAt : ℕ
  /-- the wait of the current timer is pending -/
  armed : Bool
  queue : List Callback
  /-- the call whose callback is past the test of `ec` -/
  running : Option ℕ
  /-- the calls whose callbacks shut the socket down when they were over -/
  strays : List ℕ
deriving DecidableEq, Repr

def init : St := ⟨0, 0, .outside, 0, false, [], none, []⟩

def St.inCall (s : St) (c : ℕ) : Prop := s.pc ≠ .outside ∧ c = s.call

instance (s : St) (c : ℕ) : Decidable (s.inCall c) := inferInstanceAs (Decidable (_ ∧ _))

/-! ## Steps -/

/-- a timed call up to its operation; without a time there is no timer -/
def enter (s : St) (op : Blocking) (timeMs : ℕ) : St :=
  if s.pc = .outside ∧ timeMs ≠ 0 then
    { s with call := s.call + 1, pc := .blocking op, expiresAt := s.now + timeMs, armed := true }
  else s

/-- `timer.cancel()`, and what the destructor does -/
def cancel (s : St) : St :=
  if s.armed then { s with armed := false, queue := s.queue ++ [⟨s.call, .operationAborted⟩] } else s

/-- the operation ends -/
def unblock (s : St) : St :=
  match s.pc with
  | .blocking _ => { s with pc := .checking }
  | _ => s

/-- `if (timer.expires_at() > now()) timer.cancel()` -/
def check (s : St) : St :=
  if s.pc = .checking then { (if s.now < s.expiresAt then cancel s else s) with pc := .leaving } else s

def leave (s : St) : St := if s.pc = .leaving then { cancel s with pc := .outside } else s

/-- the co_worker finds that the time of the wait is up -/
def expire (s : St) : St :=
  if s.armed ∧ s.expiresAt ≤ s.now then { s with armed := false, queue := s.queue ++ [⟨s.call, .success⟩] } else s

/-- `timed_cancel_socket` up to its test of `ec` -/
def dispatch (s : St) : St :=
  match s.queue with
  | [] => s
  | cb :: queue =>
    if s.running ≠ none then s
    else if cb.ec = .operationAborted then { s with queue }
    else { s with queue, running := some cb.call }

/-- the `shutdown` of `timed_cancel_socket` -/
def shutdown (s : St) : St :=
  match s.running with
  | none => s
  | some c => { s with running := none, strays := if s.inCall c then s.strays else s.strays ++ [c] }

inductive Op where
  | syncTimedConnect (timeMs : ℕ)
  | syncTimedReadFrom (timeMs : ℕ)
  | syncTimedReadSome (timeMs : ℕ)
  | unblock
  | check
  | leave
  | advance (ms : ℕ)
  | expire
  | dispatch
  | shutdown
deriving DecidableEq, Repr

def step (s : St) : Op → St
  | .syncTimedConnect timeMs => enter s .connect timeMs
  | .syncTimedReadFrom timeMs => enter s .readFrom timeMs
  | .syncTimedReadSome timeMs => enter s .readSome timeMs
  | .unblock => unblock s
  | .check => check s
  | .leave => leave s
  | .advance ms => { s with now := s.now + ms }
  | .expire => expire s
  | .dispatch => dispatch s
  | .shutdown => shutdown s

/-! ## What is claimed -/

/-- the callback is queued without an error, or running -/
def St.fired (s : St) (c : ℕ) : Prop := (∃ cb ∈ s.queue, cb.call = c ∧ cb.ec ≠ .operationAborted) ∨ s.running = some c

/-- the callback would still shut the socket down, now or when its time is up -/
def St.pending (s : St) (c : ℕ) : Prop := (s.armed = true ∧ c = s.call) ∨ s.fired c

/-- no callback outlives its call -/
def Contained (s : St) : Prop := (∀ c, s.pending c → s.inCall c) ∧ s.strays = []

/-- a call returns only if its time was not up, or its callback is through -/
def Prompt (s : St) : Op → Prop
  | .leave => s.pc = .leaving → ¬ s.fired s.call
  | _ => True

/-! ## Steps -/

theorem fired_cancel (s : St) (c : ℕ) : (cancel s).fired c ↔ s.fired c := by
  unfold cancel
  split_ifs
  · simp [St.fired]
  · rfl

theorem not_armed_cancel (s : St) : (cancel s).armed = false := by
  unfold cancel
  split_ifs with h
  · rfl
  · simpa using h

theorem cancel_same (s : St) : (cancel s).call = s.call ∧ (cancel s).pc = s.pc ∧ (cancel s).strays = s.strays := by
  unfold cancel
  split_ifs <;> exact ⟨rfl, rfl, rfl⟩

theorem not_pending_outside {s : St} (h : Contained s) (hpc : s.pc = .outside) (c : ℕ) : ¬ s.pending c :=
  fun hc => (h.1 c hc).1 hpc

/-- a step of the caller within its call keeps what the callbacks are -/
theorem contained_of_le {s s' : St} (h : Contained s) (hcall : s'.call = s.call) (hpc : s'.pc ≠ .outside)
    (hstrays : s'.strays = s.strays) (hpending : ∀ c, s'.pending c → s.pending c) : Contained s' := by
  refine ⟨fun c hc => ⟨hpc, ?_⟩, hstrays.trans h.2⟩
  rw [hcall]
  exact (h.1 c (hpending c hc)).2

theorem enter_contained {s : St} (h : Contained s) (op : Blocking) (timeMs : ℕ) : Contained (enter s op timeMs) := by
  unfold enter
  split_ifs with hgo
  · refine ⟨?_, h.2⟩
    intro c hc
    rcases hc with ⟨-, hcall⟩ | hfired
    · exact ⟨by simp, hcall⟩
    · exact absurd (.inr hfired) (not_pending_outside h hgo.1 c)
  · exact h

theorem check_contained {s : St} (h : Contained s) : Contained (check s) := by
  unfold check
  split_ifs with hpc htime
  · obtain ⟨hcall, -, hstrays⟩ := cancel_same s
    refine contained_of_le h hcall (by simp) hstrays ?_
    intro c hc
    rcases hc with ⟨harmed, -⟩ | hfired
    · exact absurd harmed (by simp [not_armed_cancel])
    · exact .inr ((fired_cancel s c).1 hfired)
  · exact contained_of_le h rfl (by simp) rfl fun c hc => hc
  · exact h

theorem leave_contained {s : St} (h : Contained s) (hprompt : Prompt s .leave) : Contained (leave s) := by
  unfold leave
  split_ifs with hpc
  · obtain ⟨hcall, -, hstrays⟩ := cancel_same s
    refine ⟨?_, hstrays.trans h.2⟩
    intro c hc
    rcases hc with ⟨harmed, -⟩ | hfired
    · exact absurd harmed (by simp [not_armed_cancel])
    · -- a callback that is still to run is the one of this call
      have hfired' : s.fired c := (fired_cancel s c).1 hfired
      obtain ⟨-, rfl⟩ := h.1 c (.inr hfired')
      exact absurd hfired' (hprompt hpc)
  · exact h

theorem expire_contained {s : St} (h : Contained s) : Contained (expire s) := by
  unfold expire
  split_ifs with hup
  · refine ⟨fun c hc => h.1 c ?_, h.2⟩
    rcases hc with ⟨harmed, -⟩ | ⟨cb, hcb, hcall, hec⟩ | hrun
    · exact absurd harmed (by simp)
    · rcases List.mem_append.1 hcb with hcb | hcb
      · exact .inr (.inl ⟨cb, hcb, hcall, hec⟩)
      · rw [List.mem_singleton.1 hcb] at hcall
        exact .inl ⟨hup.1, hcall.symm⟩
    · exact .inr (.inr hrun)
  · exact h

theorem dispatch_contained {s : St} (h : Contained s) : Contained (dispatch s) := by
  unfold dispatch
  split
  · exact h
  · rename_i cb queue hqueue
    have htail : ∀ cb' ∈ queue, cb' ∈ s.queue := by
      rw [hqueue]
      exact fun _ => List.mem_cons_of_mem cb
    split_ifs with hrun hec
    · exact h
    · refine ⟨fun c hc => h.1 c ?_, h.2⟩
      rcases hc with harmed | ⟨cb', hcb', hc'⟩ | hrun'
      · exact .inl harmed
      · exact .inr (.inl ⟨cb', htail cb' hcb', hc'⟩)
      · exact .inr (.inr hrun')
    · refine ⟨fun c hc => h.1 c ?_, h.2⟩
      rcases hc with harmed | ⟨cb', hcb', hc'⟩ | hrun'
      · exact .inl harmed
      · exact .inr (.inl ⟨cb', htail cb' hcb', hc'⟩)
      · exact .inr (.inl ⟨cb, by rw [hqueue]; exact List.mem_cons_self, Option.some.inj hrun', hec⟩)

theorem shutdown_contained {s : St} (h : Contained s) : Contained (shutdown s) := by
  unfold shutdown
  split
  · exact h
  · rename_i c hrun
    have hin : s.inCall c := h.1 c (.inr (.inr hrun))
    refine ⟨fun c' hc' => h.1 c' ?_, by rw [if_pos hin]; exact h.2⟩
    rcases hc' with harmed | hcb | hrun'
    · exact .inl harmed
    · exact .inr (.inl hcb)
    · exact absurd hrun' (by simp)

theorem step_contained (s : St) (o : Op) (hprompt : Prompt s o) (h : Contained s) : Contained (step s o) := by
  cases o with
  | syncTimedConnect timeMs => exact enter_contained h .connect timeMs
  | syncTimedReadFrom timeMs => exact enter_contained h .readFrom timeMs
  | syncTimedReadSome timeMs => exact enter_contained h .readSome timeMs
  | unblock =>
    simp only [step, unblock]
    split
    · exact contained_of_le h rfl (by simp) rfl fun c hc => hc
    · exact h
  | check => exact check_contained h
  | leave => exact leave_contained h hprompt
  | advance ms => exact h
  | expire => exact expire_contained h
  | dispatch => exact dispatch_contained h
  | shutdown => exact shutdown_contained h

/-- a call that returns before its callback is through leaves it behind -/
theorem prompt_of_contained (s : St) (o : Op) (h : Contained (step s o)) : Prompt s o := by
  cases o with
  | leave =>
    intro hpc hfired
    have hleft : (step s .leave).pc = .outside := by simp [step, leave, hpc]
    have hpending : (step s .leave).pending s.call := by
      simp only [step, leave, if_pos hpc]
      exact .inr ((fired_cancel s s.call).2 hfired)
    exact (h.1 _ hpending).1 hleft
  | _ => trivial

/-! ## Results -/

/-- **When a time-out stays within its call.** In every state of a run of calls, no callback that would still shut the
socket down belongs to a call that has returned, and none has shut it down after its call, if and only if no call returns
while its callback is queued without an error or running. -/
theorem contained_iff_prompt (ops : List Op) : Always step Contained init ops ↔ Meets step Prompt init ops := by
  have hinit : Contained init := by
    refine ⟨?_, rfl⟩
    intro c hc
    rcases hc with ⟨harmed, -⟩ | ⟨cb, hcb, -⟩ | hrun
    · exact absurd harmed (by decide)
    · exact absurd hcb List.not_mem_nil
    · exact absurd hrun (by simp [init])
  exact always_iff_meets (L := fun _ _ => True) (fun _ => id) (fun s o _ => step_contained s o)
    (fun s o _ _ => prompt_of_contained s o) (meets_of_forall fun _ _ _ => trivial) hinit

/-- **The second call is shut down.** The connect of `/bb` succeeds at the last moment, when the co_worker has just
queued the callback; the callback runs during the read that follows. -/
theorem second_call_shut_down :
    ¬ Always step Contained init
      [.syncTimedConnect 1000, .advance 1000, .expire, .unblock, .check, .leave, .syncTimedReadSome 3000, .dispatch,
        .shutdown] := by
  intro h
  exact absurd h.last.2 (by decide)

end AirobotMsgd.TimedOps
