/-
The four loops that arm themselves anew: the two accept loops, the sweep of the backend server and the tick of the
timing wheel (source/http_server.cpp, backend_server.cpp, co_worker.cpp).

The machine puts the front server and the backend server side by side, with what keeps each loop going: the
`async_accept`s outstanding, and for a timer its waits outstanding and the completions that wait for a thread.
`expires_from_now` ends the waits with `operation_aborted`. Each handler takes the operation that has completed, and
arms the next one where its source does. The accept handler of the front server and the tick are several steps; the two
handlers of the backend server, which has one thread, are one. When an assertion has failed, or an exception has left a
handler (`remote_endpoint` of a connection that is gone), the process has ended and nothing happens any more.

Results:
- `alive_iff_accepted`: in every state of a run each loop has exactly one operation outstanding, or its handler is
  running, if and only if no accept completes with an error.
- `accept_error`: one such accept, of either server; `http_deaf`, `backend_deaf`: it never accepts again.
- `front_always`, `backend_always`: what holds in every run of one of the servers holds of it here.
-/
import AirobotMsgd.Backend.BackendServer
import AirobotMsgd.Server.TimingWheel
import AirobotMsgd.Server.Recycling

namespace AirobotMsgd.Loops

open AirobotMsgd.Runs

/-! ## State -/

/-- `deadline_timer` -/
structure Timer where
  waits : ℕ
  /-- the error codes of the completions that wait for a thread -/
  queued : List Ec
deriving DecidableEq, Repr

def Timer.expiresFromNow (t : Timer) : Timer := ⟨0, t.queued ++ List.replicate t.waits .operationAborted⟩

def Timer.asyncWait (t : Timer) : Timer := { t with waits := t.waits + 1 }

/-- a wait ends -/
def Timer.complete (t : Timer) (ec : Ec) : Timer :=
  if t.waits = 0 then t else ⟨t.waits - 1, t.queued ++ [ec]⟩

def Timer.outstanding (t : Timer) : ℕ := t.waits + t.queued.length

structure St where
  front : FrontServer.St
  /-- the `async_accept`s of `http_server` -/
  httpAccepts : ℕ
  backend : BackendServer.St
  /-- the `async_accept`s of `backend_server` -/
  backendAccepts : ℕ
  checkTimer : Timer
  timingWheelTimer : Timer
  /-- an exception has left a handler -/
  terminated : Bool

/-- the process has ended -/
def St.over (s : St) : Bool := s.terminated || s.front.aborted.isSome || s.backend.aborted

/-! ## Handlers -/

/-- `http_server::do_accept` -/
def httpDoAccept (s : St) : St := { s with httpAccepts := s.httpAccepts + 1 }

/-- `backend_server::do_accept` -/
def backendDoAccept (s : St) : St := { s with backendAccepts := s.backendAccepts + 1 }

/-- the constructors of the two servers, and `co_worker::run` -/
def init (cfg : FrontServer.Config) (now : ℕ) : St :=
  let s : St := ⟨FrontServer.init cfg now, 0, BackendServer.init, 0, ⟨0, []⟩, ⟨0, []⟩, false⟩
  let s := httpDoAccept s
  let s := { s with checkTimer := s.checkTimer.expiresFromNow.asyncWait }
  let s := backendDoAccept s
  { s with timingWheelTimer := s.timingWheelTimer.asyncWait }

/-- `http_server::accept_handler` up to the lock -/
def httpAcceptHandler (cfg : FrontServer.Config) (s : St) (ec : Ec) : St :=
  if ec ≠ .success then { s with front := { s.front with accept := .stopped } }
  else
    let front := { s.front with nextSock := s.front.nextSock + 1 }
    if cfg.maxServeConnsCnt ≤ s.front.currentConnsCnt then httpDoAccept { s with front := front }
    else { s with front := { front with accept := .tested s.front.nextSock } }

/-- its end, from `start` on -/
def httpStart (s : St) : St :=
  match s.front.accept with
  | .registered _ =>
    let s := { s with front := FrontServer.acceptStart s.front }
    if s.over then s else httpDoAccept s
  | _ => s

/-- `backend_server::accept_handler` -/
def backendAcceptHandler (s : St) (ec : Ec) (now : ℕ) : St :=
  if ec ≠ .success then { s with backend := { s.backend with stopped := true } }
  else backendDoAccept { s with backend := BackendServer.acceptHandler s.backend now }

/-- `return_entry` of `on_check_timeout` -/
def returnEntry (s : St) : St := { s with checkTimer := s.checkTimer.expiresFromNow.asyncWait }

def onCheckTimeout (s : St) (e : Ec) : St :=
  if e ≠ .operationAborted then
    if s.backend.backendConns = [] then returnEntry s
    else
      let allOk := s.backend.backendConns.all fun c => (s.backend.conns c).stats ≠ .connError
      if allOk then returnEntry s
      else
        let newStore := s.backend.backendConns.filter fun c => (s.backend.conns c).stats ≠ .connError
        returnEntry { s with backend := { s.backend with backendConns := newStore } }
  else returnEntry s

/-- `timing_wheel_check` up to its `push_back`; it does not look at its error code -/
def timingWheelCheck (cfg : FrontServer.Config) (s : St) : St := { s with front := FrontServer.tickScan cfg s.front }

/-- its end: `push_back`, and the next wait -/
def timingWheelPush (cfg : FrontServer.Config) (s : St) : St :=
  { s with
    front := FrontServer.tickPush cfg s.front
    timingWheelTimer := s.timingWheelTimer.expiresFromNow.asyncWait }

/-! ## Steps -/

inductive Op where
  /-- an accept of the front server completes, and its handler begins -/
  | httpAccept (ec : Ec)
  | httpInsert
  | httpStart
  /-- anything else the front server does -/
  | front (o : FrontServer.Op)
  | backendAccept (ec : Ec) (now : ℕ)
  /-- anything else the backend server does -/
  | backend (o : BackendServer.Op)
  /-- a wait ends: the timer expires, or is cancelled -/
  | checkExpires (ec : Ec)
  | checkTimeout
  | wheelExpires (ec : Ec)
  | wheelCheck
  | wheelPush
  /-- an exception leaves a handler -/
  | terminate

/-- the steps of the front server that belong to a loop -/
def httpLoop : FrontServer.Op → Bool
  | .acceptError | .acceptTest | .acceptInsert | .acceptStart | .tickScan | .tickPush => true
  | _ => false

/-- the steps of the backend server that do -/
def backendLoop : BackendServer.Op → Bool
  | .accept _ | .start _ | .acceptError | .checkTimeout _ => true
  | _ => false

/-- an accept of the front server can complete with ec -/
def HttpReady (s : St) (ec : Ec) : Prop :=
  0 < s.httpAccepts ∧ s.front.accept = .listening ∧ (ec = .success → s.front.frontConns.length < 2 ^ 31)

instance (s : St) (ec : Ec) : Decidable (HttpReady s ec) := inferInstanceAs (Decidable (_ ∧ _ ∧ (_ → _)))

def step (cfg : FrontServer.Config) (s : St) (o : Op) : St :=
  if s.over then s
  else match o with
    | .httpAccept ec =>
      if HttpReady s ec then httpAcceptHandler cfg { s with httpAccepts := s.httpAccepts - 1 } ec else s
    | .httpInsert => { s with front := FrontServer.acceptInsert s.front }
    | .httpStart => httpStart s
    | .front o => if httpLoop o then s else { s with front := FrontServer.step cfg s.front o }
    | .backendAccept ec now =>
      if 0 < s.backendAccepts then backendAcceptHandler { s with backendAccepts := s.backendAccepts - 1 } ec now else s
    | .backend o => if backendLoop o then s else { s with backend := BackendServer.step s.backend o }
    | .checkExpires ec => { s with checkTimer := s.checkTimer.complete ec }
    | .checkTimeout =>
      match s.checkTimer.queued with
      | [] => s
      | ec :: queued => onCheckTimeout { s with checkTimer := { s.checkTimer with queued := queued } } ec
    | .wheelExpires ec => { s with timingWheelTimer := s.timingWheelTimer.complete ec }
    | .wheelCheck =>
      match s.front.tick, s.timingWheelTimer.queued with
      | none, _ :: queued =>
        timingWheelCheck cfg { s with timingWheelTimer := { s.timingWheelTimer with queued := queued } }
      | _, _ => s
    | .wheelPush => if s.front.tick.isSome then timingWheelPush cfg s else s
    | .terminate => { s with terminated := true }

/-! ## What is claimed -/

/-- `accept_handler` is running -/
def handling : FrontServer.Accept → Bool
  | .tested _ | .registered _ => true
  | _ => false

def St.httpRunning (s : St) : Bool := handling s.front.accept

/-- `timing_wheel_check` is running -/
def St.tickRunning (s : St) : Bool := s.front.tick.isSome

/-- each loop has one operation outstanding, and none while its handler is running -/
structure Alive (s : St) : Prop where
  httpAccept : s.httpAccepts = if s.httpRunning then 0 else 1
  backendAccept : s.backendAccepts = 1
  check : s.checkTimer.outstanding = 1
  tick : s.timingWheelTimer.outstanding = if s.tickRunning then 0 else 1

/-- up to the end of the process -/
def Served (s : St) : Prop := s.over = false → Alive s

/-- no accept completes with an error -/
def Accepted (s : St) : Op → Prop
  | .httpAccept ec => s.over = false → HttpReady s ec → ec = .success
  | .backendAccept ec _ => s.over = false → 0 < s.backendAccepts → ec = .success
  | _ => True

instance (s : St) (o : Op) : Decidable (Accepted s o) := by
  cases o <;> unfold Accepted <;> infer_instance

/-! ## Timers -/

theorem outstanding_complete (t : Timer) (ec : Ec) : (t.complete ec).outstanding = t.outstanding := by
  unfold Timer.complete Timer.outstanding
  split_ifs
  · rfl
  · simp only [List.length_append, List.length_singleton]
    omega

theorem outstanding_expiresFromNow (t : Timer) : t.expiresFromNow.outstanding = t.outstanding := by
  simp only [Timer.expiresFromNow, Timer.outstanding, List.length_append, List.length_replicate]
  omega

/-- a handler that arms its timer when nothing is outstanding -/
theorem outstanding_rearm {t : Timer} (h : t.outstanding = 0) : t.expiresFromNow.asyncWait.outstanding = 1 := by
  have hkeep := outstanding_expiresFromNow t
  unfold Timer.asyncWait Timer.outstanding at *
  dsimp only
  omega

/-- its completion is taken from the queue -/
theorem outstanding_take {t : Timer} {ec : Ec} {queued : List Ec} (hq : t.queued = ec :: queued) :
    Timer.outstanding { t with queued := queued } + 1 = t.outstanding := by
  unfold Timer.outstanding
  rw [hq, List.length_cons, Nat.add_assoc]

/-! ## What the servers do between the handlers of the loops -/

theorem managePass_accept (cfg : FrontServer.Config) (s : FrontServer.St) (order : List ℕ) :
    (FrontServer.managePass cfg s order).accept = s.accept := by
  have hitems := (FrontServer.manageItems_holders cfg order s).accept
  unfold FrontServer.managePass
  dsimp only
  split_ifs
  · exact hitems
  · exact hitems
  · exact hitems
  · rfl

/-- neither the accept loop nor the tick moves -/
theorem front_same (cfg : FrontServer.Config) (s : FrontServer.St) {o : FrontServer.Op} (ho : httpLoop o = false) :
    (FrontServer.step cfg s o).accept = s.accept ∧ (FrontServer.step cfg s o).tick = s.tick := by
  unfold FrontServer.step
  by_cases ha : s.aborted.isSome
  · rw [if_pos ha]
    exact ⟨rfl, rfl⟩
  rw [if_neg ha]
  cases o with
  | advance d => exact ⟨rfl, rfl⟩
  | complete i ec n => exact ⟨(FrontServer.complete_same s i ec n).accept, (FrontServer.complete_grows s i ec n).tick⟩
  | setSessionId c sessionId =>
    dsimp only [FrontServer.setSessionId]
    split_ifs
    · exact ⟨rfl, rfl⟩
    · exact ⟨rfl, rfl⟩
  | lookUp sessionId =>
    exact ⟨(FrontServer.lookUp_same s sessionId).accept, (FrontServer.lookUp_grows s sessionId).tick⟩
  | pushFront => exact ⟨(FrontServer.pushFront_same s).accept, (FrontServer.pushFront_grows s).tick⟩
  | pushToRemove c => exact ⟨rfl, rfl⟩
  | managePass order => exact ⟨managePass_accept cfg s order, (FrontServer.managePass_grows cfg s order).tick⟩
  | _ => cases ho

/-- the accept handler of the backend server is not entered, nor left -/
theorem backend_same (s : BackendServer.St) {o : BackendServer.Op} (ho : backendLoop o = false) :
    (BackendServer.step s o).starting = s.starting := by
  have haside : o.aside = true := by
    cases o with
    | accept | start | checkTimeout => cases ho
    | _ => rfl
  exact (BackendServer.step_aside s haside).2

/-- it starts what it has pushed -/
theorem acceptHandler_starting (s : BackendServer.St) (now : ℕ) :
    (BackendServer.acceptHandler s now).starting = none := by
  unfold BackendServer.acceptHandler BackendServer.acceptStart
  split
  · assumption
  · rfl

/-! ## The handlers arm what they have taken -/

/-- the front server moves, and neither of its loops does -/
theorem Alive.front {s : St} (h : Alive s) {front : FrontServer.St}
    (haccept : handling front.accept = handling s.front.accept) (htick : front.tick = s.front.tick) :
    Alive { s with front := front } := by
  refine ⟨?_, h.backendAccept, h.check, ?_⟩
  · show s.httpAccepts = if handling front.accept then 0 else 1
    rw [haccept]
    exact h.httpAccept
  · show s.timingWheelTimer.outstanding = if front.tick.isSome then 0 else 1
    rw [htick]
    exact h.tick

theorem httpAcceptHandler_alive {cfg : FrontServer.Config} {s : St} (h : Alive s)
    (hlisten : s.front.accept = .listening) :
    Alive (httpAcceptHandler cfg { s with httpAccepts := s.httpAccepts - 1 } .success) := by
  have hone : s.httpAccepts = 1 := by simpa [St.httpRunning, handling, hlisten] using h.httpAccept
  unfold httpAcceptHandler
  rw [if_neg (by simp), hone]
  dsimp only
  split_ifs
  · refine ⟨?_, h.backendAccept, h.check, h.tick⟩
    simp [httpDoAccept, St.httpRunning, handling, hlisten]
  · exact ⟨rfl, h.backendAccept, h.check, h.tick⟩

/-- the insertion is in the middle of the handler, also where its assertion fails -/
theorem acceptInsert_handling (s : FrontServer.St) :
    handling (FrontServer.acceptInsert s).accept = handling s.accept ∧ (FrontServer.acceptInsert s).tick = s.tick := by
  unfold FrontServer.acceptInsert
  split
  · rename_i sock haccept
    rw [haccept]
    split
    · dsimp only
      split_ifs
      · exact ⟨rfl, rfl⟩
      · exact ⟨haccept ▸ rfl, rfl⟩
    · exact ⟨rfl, rfl⟩
  · exact ⟨rfl, rfl⟩

theorem httpStart_served {s : St} (h : Alive s) : Served (httpStart s) := by
  unfold httpStart
  split
  · rename_i c hc
    have hnone : s.httpAccepts = 0 := by simpa [St.httpRunning, handling, hc] using h.httpAccept
    dsimp only
    split_ifs with hover
    · intro hup
      rw [hover] at hup
      cases hup
    · intro _
      have hstart : (FrontServer.acceptStart s.front).accept = .listening ∧
          (FrontServer.acceptStart s.front).tick = s.front.tick := by
        unfold FrontServer.acceptStart
        rw [hc]
        exact ⟨(FrontServer.startOp_same _ c _).accept, (FrontServer.startOp_grows _ c _).tick⟩
      refine ⟨?_, h.backendAccept, h.check, ?_⟩
      · simp [httpDoAccept, St.httpRunning, handling, hstart.1, hnone]
      · show s.timingWheelTimer.outstanding = if (FrontServer.acceptStart s.front).tick.isSome then 0 else 1
        rw [hstart.2]
        exact h.tick
  · exact fun _ => h

theorem backendAcceptHandler_alive {s : St} (h : Alive s) (now : ℕ) :
    Alive (backendAcceptHandler { s with backendAccepts := s.backendAccepts - 1 } .success now) := by
  unfold backendAcceptHandler
  rw [if_neg (by simp)]
  refine ⟨h.httpAccept, ?_, h.check, h.tick⟩
  simp [backendDoAccept, h.backendAccept]

/-- **Every way out of the sweep goes through `return_entry`.** -/
theorem onCheckTimeout_eq (s : St) (e : Ec) :
    onCheckTimeout s e = returnEntry { s with backend := BackendServer.onCheckTimeout s.backend e } := by
  unfold onCheckTimeout BackendServer.onCheckTimeout
  dsimp only
  split_ifs
  · rfl
  · rfl
  · rfl
  · rfl

theorem onCheckTimeout_alive {s : St} (h : Alive s) {ec e : Ec} {queued : List Ec}
    (hq : s.checkTimer.queued = ec :: queued) :
    Alive (onCheckTimeout { s with checkTimer := { s.checkTimer with queued := queued } } e) := by
  have htake := outstanding_take hq
  have hnone : Timer.outstanding { s.checkTimer with queued := queued } = 0 := Nat.succ.inj (htake.trans h.check)
  rw [onCheckTimeout_eq]
  exact ⟨h.httpAccept, h.backendAccept, outstanding_rearm hnone, h.tick⟩

theorem tickScan_running (cfg : FrontServer.Config) {s : FrontServer.St} (h : s.tick = none) :
    (FrontServer.tickScan cfg s).tick.isSome ∧ (FrontServer.tickScan cfg s).accept = s.accept := by
  refine ⟨?_, (FrontServer.tickScan_same cfg s).accept⟩
  unfold FrontServer.tickScan
  rw [h]
  rfl

theorem timingWheelCheck_alive {cfg : FrontServer.Config} {s : St} (h : Alive s) (htick : s.front.tick = none) {ec : Ec}
    {queued : List Ec} (hq : s.timingWheelTimer.queued = ec :: queued) :
    Alive (timingWheelCheck cfg { s with timingWheelTimer := { s.timingWheelTimer with queued := queued } }) := by
  obtain ⟨hrunning, haccept⟩ := tickScan_running cfg htick
  have hone : s.timingWheelTimer.outstanding = 1 := by simpa [St.tickRunning, htick] using h.tick
  have htake := outstanding_take hq
  refine ⟨?_, h.backendAccept, h.check, ?_⟩
  · show s.httpAccepts = if handling (FrontServer.tickScan cfg s.front).accept then 0 else 1
    rw [haccept]
    exact h.httpAccept
  · have hnone : Timer.outstanding { s.timingWheelTimer with queued := queued } = 0 := Nat.succ.inj (htake.trans hone)
    simpa [timingWheelCheck, St.tickRunning, hrunning] using hnone

theorem timingWheelPush_alive {cfg : FrontServer.Config} {s : St} (h : Alive s) (htick : s.front.tick.isSome) :
    Alive (timingWheelPush cfg s) := by
  have hnone : s.timingWheelTimer.outstanding = 0 := by simpa [St.tickRunning, htick] using h.tick
  obtain ⟨modi, hmodi⟩ := Option.isSome_iff_exists.1 htick
  have hpush : (FrontServer.tickPush cfg s.front).accept = s.front.accept ∧
      (FrontServer.tickPush cfg s.front).tick = none := by
    unfold FrontServer.tickPush
    rw [hmodi]
    exact ⟨rfl, rfl⟩
  refine ⟨?_, h.backendAccept, h.check, ?_⟩
  · show s.httpAccepts = if handling (FrontServer.tickPush cfg s.front).accept then 0 else 1
    rw [hpush.1]
    exact h.httpAccept
  · simpa [timingWheelPush, St.tickRunning, hpush.2] using outstanding_rearm hnone

/-! ## Steps -/

theorem step_served {cfg : FrontServer.Config} (s : St) (o : Op) (haccepted : Accepted s o) (h : Served s) :
    Served (step cfg s o) := by
  unfold step
  by_cases hover : s.over
  · rw [if_pos hover]
    exact h
  rw [if_neg hover]
  rw [Bool.not_eq_true] at hover
  have halive := h hover
  intro hup
  cases o with
  | httpAccept ec =>
    dsimp only
    split_ifs with hready
    · obtain rfl := haccepted hover hready
      exact httpAcceptHandler_alive halive hready.2.1
    · exact halive
  | httpInsert =>
    obtain ⟨hhandling, htick⟩ := acceptInsert_handling s.front
    exact halive.front hhandling htick
  | httpStart => exact httpStart_served halive hup
  | front o =>
    dsimp only
    split_ifs with hloop
    · exact halive
    · obtain ⟨haccept, htick⟩ := front_same cfg s.front (Bool.eq_false_iff.2 hloop)
      exact halive.front (congrArg handling haccept) htick
  | backendAccept ec now =>
    dsimp only
    split_ifs with hready
    · obtain rfl := haccepted hover hready
      exact backendAcceptHandler_alive halive now
    · exact halive
  | backend o =>
    dsimp only
    split_ifs
    · exact halive
    · exact ⟨halive.httpAccept, halive.backendAccept, halive.check, halive.tick⟩
  | checkExpires ec =>
    exact ⟨halive.httpAccept, halive.backendAccept, (outstanding_complete _ ec).trans halive.check, halive.tick⟩
  | checkTimeout =>
    dsimp only
    split
    · exact halive
    · rename_i ec queued hq
      exact onCheckTimeout_alive halive hq
  | wheelExpires ec =>
    exact ⟨halive.httpAccept, halive.backendAccept, halive.check, (outstanding_complete _ ec).trans halive.tick⟩
  | wheelCheck =>
    dsimp only
    split
    · rename_i ec queued htick hq
      exact timingWheelCheck_alive halive htick hq
    · exact halive
  | wheelPush =>
    dsimp only
    split_ifs with htick
    · exact timingWheelPush_alive halive htick
    · exact halive
  | terminate => exact ⟨halive.httpAccept, halive.backendAccept, halive.check, halive.tick⟩

/-- an accept that completes with an error arms nothing -/
theorem accepted_of_served {cfg : FrontServer.Config} (s : St) (o : Op) (h : Served s) (h' : Served (step cfg s o)) :
    Accepted s o := by
  cases o with
  | httpAccept ec =>
    intro hover hready
    by_contra hec
    have heq : step cfg s (.httpAccept ec) =
        { s with httpAccepts := s.httpAccepts - 1, front := { s.front with accept := .stopped } } := by
      simp [step, hover, hready, httpAcceptHandler, hec]
    have hone : s.httpAccepts = 1 := by simpa [St.httpRunning, handling, hready.2.1] using (h hover).httpAccept
    rw [heq] at h'
    have hdead := (h' hover).httpAccept
    simp [St.httpRunning, handling, hone] at hdead
  | backendAccept ec now =>
    intro hover hready
    by_contra hec
    have heq : step cfg s (.backendAccept ec now) =
        { s with backendAccepts := s.backendAccepts - 1, backend := { s.backend with stopped := true } } := by
      simp [step, hover, hready, backendAcceptHandler, hec]
    rw [heq] at h'
    have hdead := (h' hover).backendAccept
    simp [(h hover).backendAccept] at hdead
  | _ => trivial

theorem served_init (cfg : FrontServer.Config) (now : ℕ) : Served (init cfg now) := fun _ => ⟨rfl, rfl, rfl, rfl⟩

/-! ## Whose step it is -/

/-- a step of the front server -/
def Op.ofFront : Op → Bool
  | .httpAccept _ | .httpInsert | .httpStart | .front _ | .wheelCheck | .wheelPush => true
  | _ => false

/-- a step of the backend server -/
def Op.ofBackend : Op → Bool
  | .backendAccept .. | .backend _ | .checkTimeout => true
  | _ => false

theorem step_front_same (cfg : FrontServer.Config) (s : St) {o : Op} (ho : o.ofFront = false) :
    (step cfg s o).front = s.front ∧ (step cfg s o).httpAccepts = s.httpAccepts := by
  unfold step
  by_cases hover : s.over
  · rw [if_pos hover]
    exact ⟨rfl, rfl⟩
  rw [if_neg hover]
  cases o with
  | backendAccept ec now =>
    dsimp only [backendAcceptHandler]
    split_ifs
    · exact ⟨rfl, rfl⟩
    · exact ⟨rfl, rfl⟩
    · exact ⟨rfl, rfl⟩
  | backend o =>
    dsimp only
    split_ifs
    · exact ⟨rfl, rfl⟩
    · exact ⟨rfl, rfl⟩
  | checkTimeout =>
    dsimp only
    split
    · exact ⟨rfl, rfl⟩
    · rw [onCheckTimeout_eq]
      exact ⟨rfl, rfl⟩
  | checkExpires ec => exact ⟨rfl, rfl⟩
  | wheelExpires ec => exact ⟨rfl, rfl⟩
  | terminate => exact ⟨rfl, rfl⟩
  | _ => cases ho

theorem step_backend_same (cfg : FrontServer.Config) (s : St) {o : Op} (ho : o.ofBackend = false) :
    (step cfg s o).backend = s.backend ∧ (step cfg s o).backendAccepts = s.backendAccepts := by
  unfold step
  by_cases hover : s.over
  · rw [if_pos hover]
    exact ⟨rfl, rfl⟩
  rw [if_neg hover]
  cases o with
  | httpAccept ec =>
    dsimp only [httpAcceptHandler]
    split_ifs
    · exact ⟨rfl, rfl⟩
    · exact ⟨rfl, rfl⟩
    · exact ⟨rfl, rfl⟩
    · exact ⟨rfl, rfl⟩
  | httpInsert => exact ⟨rfl, rfl⟩
  | httpStart =>
    dsimp only [httpStart]
    split
    · split_ifs
      · exact ⟨rfl, rfl⟩
      · exact ⟨rfl, rfl⟩
    · exact ⟨rfl, rfl⟩
  | front o =>
    dsimp only
    split_ifs
    · exact ⟨rfl, rfl⟩
    · exact ⟨rfl, rfl⟩
  | wheelCheck =>
    dsimp only
    split
    · exact ⟨rfl, rfl⟩
    · exact ⟨rfl, rfl⟩
  | wheelPush =>
    dsimp only
    split_ifs
    · exact ⟨rfl, rfl⟩
    · exact ⟨rfl, rfl⟩
  | checkExpires ec => exact ⟨rfl, rfl⟩
  | wheelExpires ec => exact ⟨rfl, rfl⟩
  | terminate => exact ⟨rfl, rfl⟩
  | _ => cases ho

/-! ## A loop that has died -/

/-- the accept loop of the front server has died -/
structure HttpDeaf (s : St) : Prop where
  none : s.httpAccepts = 0
  stopped : s.front.accept = .stopped

theorem step_httpDeaf {cfg : FrontServer.Config} (s : St) (o : Op) (h : HttpDeaf s) : HttpDeaf (step cfg s o) := by
  have hnone := h.none
  have hstopped := h.stopped
  by_cases ho : o.ofFront = false
  · obtain ⟨hfront, haccepts⟩ := step_front_same cfg s ho
    exact ⟨haccepts.trans hnone, (congrArg FrontServer.St.accept hfront).trans hstopped⟩
  unfold step
  by_cases hover : s.over
  · rw [if_pos hover]
    exact h
  rw [if_neg hover]
  cases o with
  | httpAccept ec =>
    have hnot : ¬ HttpReady s ec := fun hready => absurd hready.1 (by simp [hnone])
    dsimp only
    rw [if_neg hnot]
    exact h
  | httpInsert => exact ⟨hnone, by simp [FrontServer.acceptInsert, hstopped]⟩
  | httpStart =>
    dsimp only [httpStart]
    rw [hstopped]
    exact h
  | front o =>
    dsimp only
    split_ifs with hloop
    · exact h
    · exact ⟨hnone, (front_same cfg s.front (Bool.eq_false_iff.2 hloop)).1.trans hstopped⟩
  | wheelCheck =>
    dsimp only
    split
    · exact ⟨hnone, (FrontServer.tickScan_same cfg s.front).accept.trans hstopped⟩
    · exact h
  | wheelPush =>
    dsimp only
    split_ifs
    · exact ⟨hnone, (FrontServer.tickPush_same cfg s.front).accept.trans hstopped⟩
    · exact h
  | _ => exact absurd rfl ho

/-- **Deaf for good.** After an accept of the front server that completes with an error, none is ever outstanding
again. -/
theorem http_deaf {cfg : FrontServer.Config} {s : St} (h : Alive s) {ec : Ec} (hover : s.over = false)
    (hready : HttpReady s ec) (hec : ec ≠ .success) (ops : List Op) :
    (run (step cfg) s (.httpAccept ec :: ops)).httpAccepts = 0 := by
  have hone : s.httpAccepts = 1 := by simpa [St.httpRunning, handling, hready.2.1] using h.httpAccept
  have hdeaf : HttpDeaf (step cfg s (.httpAccept ec)) := by
    constructor
    · simp [step, hover, hready, httpAcceptHandler, hec, hone]
    · simp [step, hover, hready, httpAcceptHandler, hec]
  exact (always_run step_httpDeaf hdeaf).last.none

theorem step_backendDeaf {cfg : FrontServer.Config} (s : St) (o : Op) (h : s.backendAccepts = 0) :
    (step cfg s o).backendAccepts = 0 := by
  by_cases ho : o.ofBackend = false
  · exact (step_backend_same cfg s ho).2.trans h
  unfold step
  by_cases hover : s.over
  · rw [if_pos hover]
    exact h
  rw [if_neg hover]
  cases o with
  | backendAccept ec now =>
    dsimp only
    rw [if_neg (by simp [h])]
    exact h
  | backend o =>
    dsimp only
    split_ifs
    · exact h
    · exact h
  | checkTimeout =>
    dsimp only
    split
    · exact h
    · rw [onCheckTimeout_eq]
      exact h
  | _ => exact absurd rfl ho

theorem backend_deaf {cfg : FrontServer.Config} {s : St} (h : Alive s) {ec : Ec} (hover : s.over = false)
    (hec : ec ≠ .success) (now : ℕ) (ops : List Op) :
    (run (step cfg) s (.backendAccept ec now :: ops)).backendAccepts = 0 := by
  have hdeaf : (step cfg s (.backendAccept ec now)).backendAccepts = 0 := by
    simp [step, hover, backendAcceptHandler, hec, h.backendAccept]
  exact (always_run step_backendDeaf hdeaf).last

/-! ## The servers run as they do alone -/

theorem not_over {s : St} (h : s.over = false) : s.front.aborted = none ∧ s.backend.aborted = false := by
  unfold St.over at h
  rw [Bool.or_eq_false_iff, Bool.or_eq_false_iff, Option.isSome_eq_false_iff, Option.isNone_iff_eq_none] at h
  exact ⟨h.1.2, h.2⟩

/-- the part of the accept handler before the lock, as one step of the front server -/
theorem httpAcceptHandler_front (cfg : FrontServer.Config) {s : St} {ec : Ec} (hup : s.front.aborted = none)
    (hlisten : s.front.accept = .listening) (hroom : ec = .success → s.front.frontConns.length < 2 ^ 31) :
    (httpAcceptHandler cfg s ec).front =
      FrontServer.step cfg s.front (if ec = .success then .acceptTest else .acceptError) := by
  by_cases hec : ec = .success
  · have htest : FrontServer.step cfg s.front .acceptTest = FrontServer.acceptTest cfg s.front := by
      simp [FrontServer.step, hup]
    have hready : s.front.accept = .listening ∧ s.front.frontConns.length < 2 ^ 31 := ⟨hlisten, hroom hec⟩
    rw [if_pos hec, htest, httpAcceptHandler, if_neg (not_not.2 hec), FrontServer.acceptTest]
    dsimp only
    rw [if_pos hready]
    split_ifs
    · rfl
    · rfl
  · rw [if_neg hec, httpAcceptHandler, if_pos hec]
    simp [FrontServer.step, hup, hlisten]

/-- the front server moves as it does alone -/
theorem front_project {cfg : FrontServer.Config} (s : St) (o : Op) :
    ∃ ops', (step cfg s o).front = run (FrontServer.step cfg) s.front ops' := by
  by_cases ho : o.ofFront = false
  · exact ⟨[], (step_front_same cfg s ho).1⟩
  unfold step
  by_cases hover : s.over
  · rw [if_pos hover]
    exact ⟨[], rfl⟩
  rw [if_neg hover]
  rw [Bool.not_eq_true] at hover
  have hup := (not_over hover).1
  cases o with
  | httpAccept ec =>
    dsimp only
    split_ifs with hready
    · exact ⟨[if ec = .success then .acceptTest else .acceptError],
        httpAcceptHandler_front cfg hup hready.2.1 hready.2.2⟩
    · exact ⟨[], rfl⟩
  | httpInsert => exact ⟨[.acceptInsert], by simp [FrontServer.step, hup]⟩
  | httpStart =>
    dsimp only [httpStart]
    split
    · have hstart : FrontServer.step cfg s.front .acceptStart = FrontServer.acceptStart s.front := by
        simp [FrontServer.step, hup]
      refine ⟨[.acceptStart], ?_⟩
      rw [run_cons, run_nil, hstart]
      split_ifs
      · rfl
      · rfl
    · exact ⟨[], rfl⟩
  | front o =>
    dsimp only
    split_ifs
    · exact ⟨[], rfl⟩
    · exact ⟨[o], rfl⟩
  | wheelCheck =>
    dsimp only
    split
    · exact ⟨[.tickScan], by simp [FrontServer.step, hup, timingWheelCheck]⟩
    · exact ⟨[], rfl⟩
  | wheelPush =>
    dsimp only
    split_ifs
    · exact ⟨[.tickPush], by simp [FrontServer.step, hup, timingWheelPush]⟩
    · exact ⟨[], rfl⟩
  | _ => exact absurd rfl ho

/-- a handler of the backend server, as steps of it -/
theorem acceptHandler_run {s : BackendServer.St} (hup : s.aborted = false) (hnone : s.starting = none) (now : ℕ) :
    BackendServer.acceptHandler s now = run BackendServer.step s [.accept now, .start now] := by
  have hpush : BackendServer.step s (.accept now) = BackendServer.acceptPush s now := by
    simp [BackendServer.step, hup, hnone]
  have hup' : (BackendServer.acceptPush s now).aborted = false := by
    unfold BackendServer.acceptPush
    split_ifs
    · exact hup
    · exact hup
  rw [run_cons, run_cons, run_nil, hpush, BackendServer.acceptHandler]
  simp [BackendServer.step, hup', BackendServer.Op.handler]

/-- and so does the backend server, of which no accept handler is interrupted here -/
theorem backend_project {cfg : FrontServer.Config} (s : St) (o : Op) (hnone : s.backend.starting = none) :
    (step cfg s o).backend.starting = none ∧
      ∃ ops', (step cfg s o).backend = run BackendServer.step s.backend ops' := by
  by_cases ho : o.ofBackend = false
  · rw [(step_backend_same cfg s ho).1]
    exact ⟨hnone, [], rfl⟩
  unfold step
  by_cases hover : s.over
  · rw [if_pos hover]
    exact ⟨hnone, [], rfl⟩
  rw [if_neg hover]
  rw [Bool.not_eq_true] at hover
  have hup := (not_over hover).2
  cases o with
  | backendAccept ec now =>
    dsimp only [backendAcceptHandler]
    split_ifs
    · exact ⟨hnone, [.acceptError], by simp [BackendServer.step, hup, hnone]⟩
    · exact ⟨acceptHandler_starting s.backend now, [.accept now, .start now], acceptHandler_run hup hnone now⟩
    · exact ⟨hnone, [], rfl⟩
  | backend o =>
    dsimp only
    split_ifs with hloop
    · exact ⟨hnone, [], rfl⟩
    · exact ⟨(backend_same s.backend (Bool.eq_false_iff.2 hloop)).trans hnone, [o], rfl⟩
  | checkTimeout =>
    dsimp only
    split
    · exact ⟨hnone, [], rfl⟩
    · rename_i ec queued _
      rw [onCheckTimeout_eq]
      refine ⟨(BackendServer.sweep_same s.backend ec).2.2.trans hnone, [.checkTimeout ec], ?_⟩
      simp [BackendServer.step, hup, hnone, returnEntry]
  | _ => exact absurd rfl ho

theorem front_always {cfg : FrontServer.Config} {now : ℕ} {P : FrontServer.St → Prop}
    (hP : ∀ ops', Always (FrontServer.step cfg) P (FrontServer.init cfg now) ops') (ops : List Op) :
    Always (step cfg) (fun s => P s.front) (init cfg now) ops :=
  always_project (I := fun _ => True) (fun s o _ => ⟨trivial, front_project s o⟩) trivial hP ops

theorem backend_always {cfg : FrontServer.Config} {now : ℕ} {P : BackendServer.St → Prop}
    (hP : ∀ ops', Always BackendServer.step P BackendServer.init ops') (ops : List Op) :
    Always (step cfg) (fun s => P s.backend) (init cfg now) ops := by
  have hkeep : ∀ (s : St) (o : Op), s.backend.starting = none → (step cfg s o).backend.starting = none ∧
      ∃ ops', (step cfg s o).backend = run BackendServer.step s.backend ops' := backend_project
  exact always_project hkeep rfl hP ops

/-! ## Results -/

/-- **Exactly when no loop dies.** In every state of a run, up to the end of the process, each of the four loops has
exactly one operation outstanding, or none while its handler is running, if and only if no accept of the run completes
with an error. -/
theorem alive_iff_accepted (cfg : FrontServer.Config) (now : ℕ) (ops : List Op) :
    Always (step cfg) Served (init cfg now) ops ↔ Meets (step cfg) Accepted (init cfg now) ops :=
  always_iff_meets (L := fun _ _ => True) (fun _ => id) (fun s o _ => step_served s o)
    (fun s o _ => accepted_of_served s o) (meets_of_forall fun _ _ _ => trivial) (served_init cfg now)

/-- **One accept that fails**, for want of a descriptor say, ends the loop of its server. -/
theorem accept_error :
    ¬ Always (step FrontServer.mainConfig) Served (init FrontServer.mainConfig 0) [.httpAccept .failure] ∧
      ¬ Always (step FrontServer.mainConfig) Served (init FrontServer.mainConfig 0) [.backendAccept .failure 0] := by
  constructor
  · intro h
    exact absurd (h.last rfl).httpAccept (by decide +kernel)
  · intro h
    exact absurd (h.last rfl).backendAccept (by decide +kernel)

end AirobotMsgd.Loops
