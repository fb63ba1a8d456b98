/-
The backend server: `backend_server` with its accept loop and its sweep, the asynchronous operations of its connections,
and the front threads that send through them (source/backend_server.cpp, backend_conn.cpp, connection.cpp).

A backend connection is bound to its handlers by `this`, not by a shared pointer. Its owners are `backend_conns_` and
the front threads between `require_backend_conn` and the end of `push_backend`; `held` has one entry for each of these
pointers. A completion is run by the io thread in any order, with any error code: closing the socket only queues the
other completions of the connection, with `operation_aborted`. A sweep may come between any two of them. The accept
handler takes two steps, `push_back` and `start`; the io thread does nothing else in between, the other threads may.

Results:
- `liveTargets_iff_quiet`: every operation outstanding or queued is on a connection somebody owns, in every state
  of a run, if and only if no sweep and no front thread gives up the last pointer to a connection with an operation.
- `sweep_before_abort`: a write fails while the read is outstanding, and the sweep comes before the aborted read.
-/
import AirobotMsgd.Core.Runs
import AirobotMsgd.Wire.BackendWire
import AirobotMsgd.Backend.BackendConn

namespace AirobotMsgd.BackendServer

open AirobotMsgd.Bytes AirobotMsgd.Runs

/-! ## State -/

/-- an operation in flight or with its completion queued; `conn` is the object behind `this` -/
inductive AsyncOp where
  | read (conn : ℕ) (win : Window)
  | write (conn : ℕ) (win : Window)
deriving DecidableEq, Repr

def AsyncOp.conn : AsyncOp → ℕ
  | .read c _ => c
  | .write c _ => c

structure St where
  conns : ℕ → Connection
  nextId : ℕ
  backendConns : List ℕ
  /-- the pointers of front threads -/
  held : List ℕ
  ops : List AsyncOp
  /-- the connection that the accept handler is about to start -/
  starting : Option ℕ
  /-- the accept loop has stopped -/
  stopped : Bool
  /-- `assert(data && len)` failed -/
  aborted : Bool

def init : St := ⟨fun _ => Connection.create 0, 0, [], [], [], none, false, false⟩

/-- somebody owns the connection -/
def St.owned (s : St) (c : ℕ) : Prop := c ∈ s.backendConns ∨ c ∈ s.held

instance (s : St) (c : ℕ) : Decidable (s.owned c) := inferInstanceAs (Decidable (_ ∨ _))

/-- an operation on the connection is outstanding or queued -/
def St.busy (s : St) (c : ℕ) : Prop := c ∈ s.ops.map AsyncOp.conn

instance (s : St) (c : ℕ) : Decidable (s.busy c) := inferInstanceAs (Decidable (_ ∈ _))

/-- the operations a handler starts -/
def started (c : ℕ) (evs : List BackendConn.Ev) : List AsyncOp :=
  evs.filterMap fun
    | .asyncReadSome win => some (.read c win)
    | _ => none

/-! ## Steps -/

/-- `accept_handler` up to its `push_back` -/
def acceptPush (s : St) (now : ℕ) : St :=
  if s.stopped then s
  else
    { s with
      conns := Function.update s.conns s.nextId (Connection.create now)
      nextId := s.nextId + 1
      backendConns := s.backendConns ++ [s.nextId]
      starting := some s.nextId }

/-- its end, `start` -/
def acceptStart (s : St) (now : ℕ) : St :=
  match s.starting with
  | none => s
  | some c =>
    let (conn, evs) := BackendConn.doRead { s.conns c with stats := .connWorking } now
    { s with
      conns := Function.update s.conns c conn
      ops := s.ops ++ started c evs
      starting := none }

/-- `accept_handler` -/
def acceptHandler (s : St) (now : ℕ) : St := acceptStart (acceptPush s now) now

/-- `require_backend_conn`: from the site's index on, once around -/
def requireBackendConn (s : St) (siteId : ℕ) : Option ℕ :=
  (s.backendConns.rotate (siteId % s.backendConns.length)).find? fun c => (s.conns c).stats = .connWorking

/-- `push_backend` up to its `fill_and_send` -/
def require (s : St) (siteId : ℕ) : St :=
  match requireBackendConn s siteId with
  | none => s
  | some c => { s with held := s.held ++ [c] }

/-- `fill_and_send` by the j-th pointer -/
def send (s : St) (j now : ℕ) (data : Str) : St :=
  match s.held[j]? with
  | none => s
  | some c =>
    if data = [] then { s with aborted := true }
    else
      let (conn, win) := (s.conns c).fillAndSend now data
      { s with
        conns := Function.update s.conns c conn
        ops := s.ops ++ (win.map (AsyncOp.write c)).toList }

/-- the i-th operation, a read, completes with these bytes and its handler runs -/
def completeRead (s : St) (i : ℕ) (ec : Ec) (data : Str) (env : BackendConn.Env) : St :=
  match s.ops[i]? with
  | some (.read c win) =>
    if ec = .success ∧ (data = [] ∨ win.len < data.length) then s
    else
      let conn := if ec = .success then BackendConn.receive (s.conns c) data else s.conns c
      let (conn, evs) := BackendConn.readHandler conn env ec data.length
      { s with
        conns := Function.update s.conns c conn
        ops := s.ops.eraseIdx i ++ started c evs }
  | _ => s

/-- the i-th operation, a write, completes with n bytes and its handler runs -/
def completeWrite (s : St) (i : ℕ) (ec : Ec) (n : ℕ) : St :=
  match s.ops[i]? with
  | some (.write c win) =>
    if ec = .success ∧ (n = 0 ∨ win.len < n) then s
    else
      { s with
        conns := Function.update s.conns c (BackendWire.writeHandler (s.conns c) ec n)
        ops := s.ops.eraseIdx i }
  | _ => s

/-- `on_check_timeout` -/
def onCheckTimeout (s : St) (ec : Ec) : St :=
  if ec ≠ .operationAborted then
    if s.backendConns = [] then s
    else
      let allOk := s.backendConns.all fun c => (s.conns c).stats ≠ .connError
      if allOk then s
      else { s with backendConns := s.backendConns.filter fun c => (s.conns c).stats ≠ .connError }
  else s

inductive Op where
  | accept (now : ℕ)
  | start (now : ℕ)
  | acceptError
  | require (siteId : ℕ)
  | send (j now : ℕ) (data : Str)
  /-- the j-th pointer goes out of scope -/
  | release (j : ℕ)
  | completeRead (i : ℕ) (ec : Ec) (data : Str) (env : BackendConn.Env)
  | completeWrite (i : ℕ) (ec : Ec) (n : ℕ)
  | checkTimeout (ec : Ec)

/-- a handler, which the io thread runs only after the one before -/
def Op.handler : Op → Bool
  | .accept _ | .acceptError | .completeRead .. | .completeWrite .. | .checkTimeout _ => true
  | .start _ | .require _ | .send .. | .release _ => false

def step (s : St) (o : Op) : St :=
  if s.aborted ∨ s.starting.isSome ∧ o.handler then s
  else match o with
    | .accept now => acceptPush s now
    | .start now => acceptStart s now
    | .acceptError => { s with stopped := true }
    | .require siteId => require s siteId
    | .send j now data => send s j now data
    | .release j => { s with held := s.held.eraseIdx j }
    | .completeRead i ec data env => completeRead s i ec data env
    | .completeWrite i ec n => completeWrite s i ec n
    | .checkTimeout ec => onCheckTimeout s ec

/-! ## What is claimed -/

/-- an outstanding operation has a live target -/
def LiveTargets (s : St) : Prop := ∀ op ∈ s.ops, s.owned op.conn

/-- a sweep drops a connection marked `conn_error`, and a front thread its pointer, only when another pointer is left or
no operation -/
def Quiet (s : St) : Op → Prop
  | .checkTimeout ec => s.aborted = false → s.starting = none → ec ≠ .operationAborted →
      ∀ c ∈ s.backendConns, (s.conns c).stats = .connError → s.busy c → c ∈ s.held
  | .release j => s.aborted = false →
      ∀ c ∈ s.held, s.busy c → c ∈ s.backendConns ∨ c ∈ s.held.eraseIdx j
  | _ => True

instance (s : St) (o : Op) : Decidable (Quiet s o) := by
  cases o <;> unfold Quiet <;> infer_instance

/-! ## Steps keep the targets alive -/

theorem started_conn {c : ℕ} {evs : List BackendConn.Ev} {op : AsyncOp} (h : op ∈ started c evs) : op.conn = c := by
  obtain ⟨e, -, he⟩ := List.mem_filterMap.1 h
  cases e <;> simp at he
  rw [← he]
  rfl

/-- the accept handler starts a connection of `backend_conns_` -/
def StartsOne (s : St) : Prop := ∀ c, s.starting = some c → c ∈ s.backendConns

theorem acceptPush_live {s : St} (h : LiveTargets s) (now : ℕ) : LiveTargets (acceptPush s now) := by
  unfold acceptPush
  split_ifs
  · exact h
  · exact fun op hop => (h op hop).imp_left (List.mem_append_left _)

theorem acceptStart_live {s : St} (h : LiveTargets s) (hstart : StartsOne s) (now : ℕ) :
    LiveTargets (acceptStart s now) := by
  unfold acceptStart
  split
  · exact h
  · rename_i c hc
    intro op hop
    rcases List.mem_append.1 hop with hop | hop
    · exact h op hop
    · rw [started_conn hop]
      exact .inl (hstart c hc)

theorem send_live {s : St} (h : LiveTargets s) (j now : ℕ) (data : Str) : LiveTargets (send s j now data) := by
  unfold send
  split
  · exact h
  · rename_i c hc
    split_ifs
    · exact h
    · intro op hop
      rcases List.mem_append.1 hop with hop | hop
      · exact h op hop
      · -- the sender holds the connection
        obtain ⟨win, -, rfl⟩ : ∃ win, _ ∧ AsyncOp.write c win = op := by
          simpa using hop
        exact .inr (List.mem_of_getElem? hc)

theorem completeRead_live {s : St} (h : LiveTargets s) (i : ℕ) (ec : Ec) (data : Str) (env : BackendConn.Env) :
    LiveTargets (completeRead s i ec data env) := by
  unfold completeRead
  split
  · rename_i c win hi
    by_cases hlate : ec = .success ∧ (data = [] ∨ win.len < data.length)
    · rw [if_pos hlate]
      exact h
    · rw [if_neg hlate]
      intro op hop
      rcases List.mem_append.1 hop with hop | hop
      · exact h op (List.eraseIdx_subset hop)
      · -- the next read is on the connection whose read has completed
        rw [started_conn hop]
        exact h (.read c win) (List.mem_of_getElem? hi)
  · exact h

theorem completeWrite_live {s : St} (h : LiveTargets s) (i : ℕ) (ec : Ec) (n : ℕ) :
    LiveTargets (completeWrite s i ec n) := by
  unfold completeWrite
  split
  · split_ifs
    · exact h
    · exact fun op hop => h op (List.eraseIdx_subset hop)
  · exact h

/-- what a sweep leaves -/
theorem mem_sweep (s : St) {ec : Ec} (hec : ec ≠ .operationAborted) (c : ℕ) :
    c ∈ (onCheckTimeout s ec).backendConns ↔ c ∈ s.backendConns ∧ (s.conns c).stats ≠ .connError := by
  unfold onCheckTimeout
  rw [if_pos hec]
  dsimp only
  split_ifs with hnil hok
  · simp [hnil]
  · rw [List.all_eq_true] at hok
    exact ⟨fun hc => ⟨hc, by simpa using hok c hc⟩, fun hc => hc.1⟩
  · simp

theorem sweep_same (s : St) (ec : Ec) : (onCheckTimeout s ec).held = s.held ∧ (onCheckTimeout s ec).ops = s.ops ∧
    (onCheckTimeout s ec).starting = s.starting := by
  unfold onCheckTimeout
  dsimp only
  split_ifs <;> exact ⟨rfl, rfl, rfl⟩

/-- a step that is taken: nothing has failed, and the io thread is not inside the accept handler -/
theorem taken {s : St} {o : Op} (h : ¬ (s.aborted = true ∨ s.starting.isSome = true ∧ o.handler = true)) :
    s.aborted = false ∧ (o.handler = true → s.starting = none) := by
  rw [not_or, Bool.not_eq_true] at h
  exact ⟨h.1, fun ho => by simpa [ho] using h.2⟩

/-- neither a step of the accept handler nor a sweep -/
def Op.aside : Op → Bool
  | .accept _ | .start _ | .checkTimeout _ => false
  | _ => true

/-- such a step leaves the list, and what is about to start -/
theorem step_aside (s : St) {o : Op} (ho : o.aside = true) :
    (step s o).backendConns = s.backendConns ∧ (step s o).starting = s.starting := by
  unfold step
  split_ifs
  · exact ⟨rfl, rfl⟩
  cases o with
  | acceptError => exact ⟨rfl, rfl⟩
  | require siteId =>
    dsimp only [require]
    split <;> exact ⟨rfl, rfl⟩
  | send j now data =>
    dsimp only [send]
    split
    · exact ⟨rfl, rfl⟩
    · split_ifs <;> exact ⟨rfl, rfl⟩
  | release j => exact ⟨rfl, rfl⟩
  | completeRead i ec data env =>
    dsimp only [completeRead]
    split
    · split_ifs <;> exact ⟨rfl, rfl⟩
    · exact ⟨rfl, rfl⟩
  | completeWrite i ec n =>
    dsimp only [completeWrite]
    split
    · split_ifs <;> exact ⟨rfl, rfl⟩
    · exact ⟨rfl, rfl⟩
  | _ => cases ho

theorem step_startsOne (s : St) (o : Op) (h : StartsOne s) : StartsOne (step s o) := by
  by_cases ho : o.aside = true
  · obtain ⟨hconns, hstarting⟩ := step_aside s ho
    intro c hc
    rw [hconns]
    exact h c (hstarting ▸ hc)
  unfold step
  by_cases ha : s.aborted = true ∨ s.starting.isSome = true ∧ o.handler = true
  · rw [if_pos ha]
    exact h
  rw [if_neg ha]
  cases o with
  | accept now =>
    dsimp only [acceptPush]
    split_ifs
    · exact h
    · rintro c ⟨⟩
      exact List.mem_append_right _ (List.mem_singleton_self _)
  | start now =>
    dsimp only [acceptStart]
    split
    · exact h
    · rintro c ⟨⟩
  | checkTimeout ec =>
    -- it does not come between the two steps of the accept handler
    have hnone : s.starting = none := (taken ha).2 rfl
    intro c hc
    dsimp only at hc
    rw [(sweep_same s ec).2.2, hnone] at hc
    cases hc
  | _ => exact absurd rfl ho

theorem step_live (s : St) (o : Op) (hquiet : Quiet s o) (h : LiveTargets s) (hstart : StartsOne s) :
    LiveTargets (step s o) := by
  unfold step
  by_cases ha : s.aborted = true ∨ s.starting.isSome = true ∧ o.handler = true
  · rw [if_pos ha]
    exact h
  rw [if_neg ha]
  obtain ⟨hup, hnone⟩ := taken ha
  cases o with
  | accept now => exact acceptPush_live h now
  | start now => exact acceptStart_live h hstart now
  | acceptError => exact h
  | require siteId =>
    dsimp only [require]
    split
    · exact h
    · exact fun op hop => (h op hop).imp_right (List.mem_append_left _)
  | send j now data => exact send_live h j now data
  | release j =>
    intro op hop
    rcases h op hop with hc | hc
    · exact .inl hc
    · exact hquiet hup op.conn hc (List.mem_map_of_mem hop)
  | completeRead i ec data env => exact completeRead_live h i ec data env
  | completeWrite i ec n => exact completeWrite_live h i ec n
  | checkTimeout ec =>
    intro op hop
    obtain ⟨hheld, hops, -⟩ := sweep_same s ec
    rw [hops] at hop
    rw [St.owned, hheld]
    by_cases hec : ec = .operationAborted
    · simpa [onCheckTimeout, hec, St.owned] using h op hop
    · rw [mem_sweep s hec]
      rcases h op hop with hc | hc
      · by_cases herr : (s.conns op.conn).stats = .connError
        · exact .inr (hquiet hup (hnone rfl) hec op.conn hc herr (List.mem_map_of_mem hop))
        · exact .inl ⟨hc, herr⟩
      · exact .inr hc

theorem quiet_of_live (s : St) (o : Op) (h : LiveTargets (step s o)) : Quiet s o := by
  cases o with
  | checkTimeout ec =>
    intro ha hnone hec c hc herr hbusy
    obtain ⟨op, hop, rfl⟩ := List.mem_map.1 hbusy
    obtain ⟨hheld, hops, -⟩ := sweep_same s ec
    unfold step at h
    rw [if_neg (by simp [ha, hnone])] at h
    dsimp only at h
    have howned := h op (by rw [hops]; exact hop)
    rw [St.owned, hheld, mem_sweep s hec] at howned
    exact howned.resolve_left fun hin => hin.2 herr
  | release j =>
    intro ha c hc hbusy
    obtain ⟨op, hop, rfl⟩ := List.mem_map.1 hbusy
    unfold step at h
    rw [if_neg (by simp [ha, Op.handler])] at h
    exact h op hop
  | _ => trivial

/-! ## Results -/

/-- **Exactly when targets stay alive.** Every operation that is outstanding or queued is on a connection that is in
`backend_conns_` or held by a front thread, in every state of a run, if and only if no sweep drops a connection marked
`conn_error`, and no front thread the last pointer, while an operation of it has still to run. -/
theorem liveTargets_iff_quiet (ops : List Op) : Always step LiveTargets init ops ↔ Meets step Quiet init ops := by
  have hinit : LiveTargets init ∧ StartsOne init := ⟨fun _ hop => absurd hop List.not_mem_nil, fun _ hc => by cases hc⟩
  have hstep : ∀ s o, True → Quiet s o → LiveTargets s ∧ StartsOne s → LiveTargets (step s o) ∧ StartsOne (step s o) :=
    fun s o _ hquiet h => ⟨step_live s o hquiet h.1 h.2, step_startsOne s o h.2⟩
  exact always_iff_meets (fun _ => And.left) hstep (fun s o _ _ => quiet_of_live s o)
    (meets_of_forall fun _ _ _ => trivial) hinit

/-- **A sweep before the abort.** The write of a front thread fails while the read is outstanding; the sweep comes
before the aborted read, which then runs on a connection that is gone. -/
theorem sweep_before_abort :
    ¬ Always step LiveTargets init
      [.accept 0, .start 0, .require 0, .send 0 0 (ascii "a"), .release 0, .completeWrite 1 .failure 0,
        .checkTimeout .success] := by
  intro h
  have howned := h.last (.read 0 ⟨0, 16 * 1024⟩) (by decide +kernel)
  exact absurd howned (by decide +kernel)

end AirobotMsgd.BackendServer
