/-
What `manage_thread` shows when nobody has woken it: `show_conns_info` of both servers (source/http_server.cpp,
backend_server.cpp). Each is one loop over the connections that counts statuses; that of the front server counts session
ids as well. The loop is taken as one step. What is printed for a single connection (`verbose`) is left out:
`manage_thread` asks for the totals only.

Results:
- `front_report`: the total is the counter of the admissions, and the pending are those that the accept loop is about to
  start.
- `backend_report`: the only pending backend is the one that the accept handler is about to start, the working are those
  that a push finds, and a sweep leaves just them.
-/
import AirobotMsgd.Backend.Selection
import AirobotMsgd.Server.PendingCached

namespace AirobotMsgd

open AirobotMsgd.Bytes AirobotMsgd.Runs

/-! ## Model -/

/-- the counters of `show_conns_info` -/
structure Totals where
  totalCnt : ℕ
  errCnt : ℕ
  workCnt : ℕ
  pendCnt : ℕ
deriving DecidableEq, Repr

namespace Totals

def zero : Totals := ⟨0, 0, 0, 0⟩

/-- one round of the loop, for a connection with this status -/
def add (r : Totals) (stats : ConnStats) : Totals where
  totalCnt := r.totalCnt + 1
  errCnt := if stats = .connError then r.errCnt + 1 else r.errCnt
  workCnt := if stats = .connWorking then r.workCnt + 1 else r.workCnt
  pendCnt := if stats = .connPending then r.pendCnt + 1 else r.pendCnt

end Totals

/-- the counters of the session ids -/
structure SessionTotals where
  normalCnt : ℕ
  zeroCnt : ℕ
  negoneCnt : ℕ
deriving DecidableEq, Repr

namespace SessionTotals

def zero : SessionTotals := ⟨0, 0, 0⟩

def add (r : SessionTotals) (sessionId : ℕ) : SessionTotals :=
  if sessionId = 0 then { r with zeroCnt := r.zeroCnt + 1 }
  else if sessionId = 2 ^ 64 - 1 then { r with negoneCnt := r.negoneCnt + 1 }
  else { r with normalCnt := r.normalCnt + 1 }

def sum (r : SessionTotals) : ℕ := r.normalCnt + r.zeroCnt + r.negoneCnt

end SessionTotals

/-- `http_server::show_conns_info` -/
def FrontServer.showConnsInfo (s : FrontServer.St) : Totals × SessionTotals :=
  s.frontConns.foldl (fun r e => (r.1.add (s.conns e.1).stats, r.2.add e.2)) (.zero, .zero)

/-- `backend_server::show_conns_info` -/
def BackendServer.showConnsInfo (s : BackendServer.St) : Totals :=
  s.backendConns.foldl (fun r c => r.add (s.conns c).stats) .zero

/-! ## The loops -/

namespace Totals

variable {ι : Type*} (stats : ι → ConnStats)

/-- the counters are counts -/
theorem foldl_add (cs : List ι) (r : Totals) :
    cs.foldl (fun r c => r.add (stats c)) r =
      ⟨r.totalCnt + cs.length, r.errCnt + cs.countP (stats · = .connError),
        r.workCnt + cs.countP (stats · = .connWorking), r.pendCnt + cs.countP (stats · = .connPending)⟩ := by
  induction cs generalizing r with
  | nil => rfl
  | cons c cs ih =>
    rw [List.foldl_cons, ih]
    cases hs : stats c <;> simp [add, hs, Nat.add_assoc, Nat.add_comm 1]

/-- a connection has one status -/
theorem countP_stats (cs : List ι) :
    cs.countP (stats · = .connWorking) + cs.countP (stats · = .connPending) + cs.countP (stats · = .connError) =
      cs.length := by
  induction cs with
  | nil => rfl
  | cons c cs ih =>
    rw [List.length_cons, ← ih]
    cases hs : stats c <;> simp [hs] <;> omega

end Totals

theorem SessionTotals.sum_foldl (ids : List ℕ) (r : SessionTotals) : (ids.foldl add r).sum = r.sum + ids.length := by
  induction ids generalizing r with
  | nil => rfl
  | cons id ids ih =>
    have hadd : (r.add id).sum = r.sum + 1 := by
      unfold add
      split_ifs <;> simp only [sum] <;> omega
    rw [List.foldl_cons, ih, hadd, List.length_cons, Nat.add_assoc, Nat.add_comm 1]

namespace FrontServer

theorem showConnsInfo_eq (s : St) :
    showConnsInfo s = ((s.keys.foldl (fun r c => r.add (s.conns c).stats) .zero),
      (s.frontConns.map Prod.snd).foldl SessionTotals.add .zero) := by
  have hsplit : ∀ (es : List (ℕ × ℕ)) (r : Totals × SessionTotals),
      es.foldl (fun r e => (r.1.add (s.conns e.1).stats, r.2.add e.2)) r =
        ((es.map Prod.fst).foldl (fun r c => r.add (s.conns c).stats) r.1,
          (es.map Prod.snd).foldl SessionTotals.add r.2) := by
    intro es
    induction es with
    | nil => exact fun _ => rfl
    | cons e es ih => exact fun r => ih _
  exact hsplit _ _

/-- the connection that the accept loop is about to start -/
def toStart (s : St) : Option ℕ :=
  match s.accept with
  | .registered c => some c
  | _ => none

theorem toStart_eq {s : St} {c : ℕ} : toStart s = some c ↔ s.accept = .registered c := by
  unfold toStart
  split <;> simp_all

/-- what the totals say of the state -/
structure Reported (cfg : Config) (s : St) : Prop where
  total : (showConnsInfo s).1.totalCnt = s.currentConnsCnt
  bound : (showConnsInfo s).1.totalCnt ≤ cfg.maxServeConnsCnt
  stats : (showConnsInfo s).1.workCnt + (showConnsInfo s).1.pendCnt + (showConnsInfo s).1.errCnt =
    (showConnsInfo s).1.totalCnt
  sessions : (showConnsInfo s).2.sum = (showConnsInfo s).1.totalCnt
  pending : (showConnsInfo s).1.pendCnt = (toStart s).toList.length

/-- the connections that are registered and pending -/
theorem countP_pending {cfg : Config} {s : St} (h : Parked cfg s) (ha : s.aborted = none) :
    s.keys.countP (fun c => (s.conns c).stats = .connPending) = (toStart s).toList.length := by
  have honly : ∀ c ∈ s.keys, (s.conns c).stats = .connPending → s.accept = .registered c := fun c hc hpending =>
    (h.waiting ha c ((alive_iff s c).2 (.inl hc)) hpending).resolve_left fun hcached =>
      h.registry.registry.disjoint c hcached hc
  cases hreg : toStart s with
  | some c =>
    have hc := toStart_eq.1 hreg
    have hstart := h.starting ha c hc
    have hcount : s.keys.countP (fun d => (s.conns d).stats = .connPending) = s.keys.count c := by
      refine List.countP_congr fun d hd => ?_
      rw [decide_eq_true_iff, beq_iff_eq]
      constructor
      · exact fun hpending => Accept.registered.inj ((honly d hd hpending).symm.trans hc)
      · rintro rfl
        exact hstart.stats
    rw [hcount, List.count_eq_one_of_mem h.registry.keys hstart.key]
    rfl
  | none =>
    rw [Option.toList_none, List.length_nil, List.countP_eq_zero]
    intro c hc hpending
    have hsome := toStart_eq.2 (honly c hc (of_decide_eq_true hpending))
    rw [hreg] at hsome
    cases hsome

theorem Parked.reported {cfg : Config} {s : St} (h : Parked cfg s) (ha : s.aborted = none) : Reported cfg s := by
  have hlen : s.keys.length = s.currentConnsCnt := (length_keys s).trans h.registry.registry.count.symm
  have heq := showConnsInfo_eq s
  rw [Totals.foldl_add] at heq
  simp only [Totals.zero, Nat.zero_add] at heq
  refine ⟨?_, ?_, ?_, ?_, ?_⟩ <;> rw [heq]
  · exact hlen
  · exact hlen.trans_le h.registry.registry.bound
  · exact Totals.countP_stats _ s.keys
  · dsimp only
    rw [SessionTotals.sum_foldl, List.length_map, length_keys]
    simp [SessionTotals.sum, SessionTotals.zero]
  · exact countP_pending h ha

/-- **What the front server shows.** As long as no tick examines an entry of a connection that is registered and not yet
started, the totals of a state that a run reaches add up to the counter of the admissions, and the only connection that
is shown as pending is the one that the accept loop is about to start. -/
theorem front_report (cfg : Config) (now : ℕ) (ops : List Op) (hlegal : Meets (step cfg) Legal (init cfg now) ops)
    (hstarted : Meets (step cfg) Started (init cfg now) ops) :
    Always (step cfg) (fun s => s.aborted = none → Reported cfg s) (init cfg now) ops := by
  have hboth : Meets (step cfg) (fun s o => Legal s o ∧ Started s o) (init cfg now) ops := hlegal.and hstarted
  exact (always_meets (fun s o ho => step_parked s o ho.1 ho.2) (parked_init cfg now) hboth).mono fun _ => Parked.reported

/-- a recycled connection, before it is started -/
theorem front_report_recycled :
    Reported mainConfig (run (step mainConfig) (init mainConfig 0) recycledAtFront) :=
  (front_report mainConfig 0 recycledAtFront (legal_of_no_push (by simp [recycledAtFront, failedWrite]) _ _)
    (by decide +kernel)).last (by decide +kernel)

end FrontServer

namespace BackendServer

theorem fillAndSend_stats (c : Connection) (now : ℕ) (data : Str) : (c.fillAndSend now data).1.stats = c.stats := by
  have hfill : (c.fill data).stats = c.stats := by
    unfold Connection.fill Connection.growWrite
    split_ifs <;> rfl
  rw [Connection.fillAndSend, ← hfill]
  unfold Connection.doWrite
  split_ifs <;> rfl

theorem doRead_stats (c : Connection) (now : ℕ) : (BackendConn.doRead c now).1.stats = c.stats := by
  unfold BackendConn.doRead
  split_ifs <;> rfl

/-- a handler of the connection leaves it as it is, or marks it -/
theorem readHandler_stats (c : Connection) (env : BackendConn.Env) (ec : Ec) (n : ℕ) :
    (BackendConn.readHandler c env ec n).1.stats = c.stats ∨
      (BackendConn.readHandler c env ec n).1.stats = .connError := by
  unfold BackendConn.readHandler
  split_ifs <;> rw [doRead_stats]
  · exact .inl rfl
  · exact .inr rfl
  · exact .inl rfl

theorem writeHandler_stats (c : Connection) (ec : Ec) (n : ℕ) :
    (BackendWire.writeHandler c ec n).stats = c.stats ∨ (BackendWire.writeHandler c ec n).stats = .connError := by
  unfold BackendWire.writeHandler
  split_ifs
  · exact .inl rfl
  · exact .inr rfl
  · exact .inl rfl

/-- the only pending connection is the one that the accept handler is about to start -/
structure OnlyStarting (s : St) : Prop where
  fresh : ∀ c ∈ s.backendConns, c < s.nextId
  nodup : s.backendConns.Nodup
  starts : StartsOne s
  pending : ∀ c ∈ s.backendConns, (s.conns c).stats = .connPending ↔ s.starting = some c

/-- outside the accept handler no connection is pending -/
theorem OnlyStarting.settled {s : St} (h : OnlyStarting s) (hnone : s.starting = none) {c : ℕ}
    (hc : c ∈ s.backendConns) : (s.conns c).stats ≠ .connPending := by
  intro hstats
  have hstart := (h.pending c hc).1 hstats
  rw [hnone] at hstart
  cases hstart

/-- a connection keeps whether it is pending, and nothing else changes but the operations -/
theorem OnlyStarting.update {s : St} (h : OnlyStarting s) {c : ℕ} {conn : Connection}
    (hconn : c ∈ s.backendConns → (conn.stats = .connPending ↔ (s.conns c).stats = .connPending))
    (ops : List AsyncOp) : OnlyStarting { s with conns := Function.update s.conns c conn, ops := ops } := by
  refine ⟨h.fresh, h.nodup, h.starts, fun d hd => ?_⟩
  rw [← h.pending d hd]
  dsimp only
  by_cases hdc : d = c
  · subst hdc
    rw [Function.update_self]
    exact hconn hd
  · rw [Function.update_of_ne hdc]

/-- a handler of a connection leaves its status, or marks it -/
theorem OnlyStarting.handled {s : St} (h : OnlyStarting s) (hnone : s.starting = none) {c : ℕ} {conn : Connection}
    (hconn : conn.stats = (s.conns c).stats ∨ conn.stats = .connError) (ops : List AsyncOp) :
    OnlyStarting { s with conns := Function.update s.conns c conn, ops := ops } := by
  refine h.update (fun hc => ?_) ops
  have hsettled := h.settled hnone hc
  rcases hconn with hkeep | herror
  · rw [hkeep]
  · rw [herror]
    exact iff_of_false nofun hsettled

theorem acceptPush_onlyStarting {s : St} (h : OnlyStarting s) (hnone : s.starting = none) (now : ℕ) :
    OnlyStarting (acceptPush s now) := by
  unfold acceptPush
  split_ifs
  · exact h
  · have hnew : s.nextId ∉ s.backendConns := fun hmem => lt_irrefl _ (h.fresh _ hmem)
    refine ⟨fun c hc => ?_, ?_, ?_, fun c hc => ?_⟩
    · rcases List.mem_append.1 hc with hc | hc
      · exact Nat.lt_succ_of_lt (h.fresh c hc)
      · rw [List.mem_singleton.1 hc]
        exact Nat.lt_succ_self _
    · exact List.nodup_append'.2 ⟨h.nodup, List.nodup_singleton _, List.disjoint_singleton.2 hnew⟩
    · rintro c ⟨⟩
      exact List.mem_append_right _ (List.mem_singleton_self _)
    · dsimp only
      rcases List.mem_append.1 hc with hc | hc
      · have hne : c ≠ s.nextId := fun heq => hnew (heq ▸ hc)
        rw [Function.update_of_ne hne, h.pending c hc, hnone]
        simpa using Ne.symm hne
      · rw [List.mem_singleton.1 hc, Function.update_self]
        exact iff_of_true rfl rfl

theorem acceptStart_onlyStarting {s : St} (h : OnlyStarting s) (now : ℕ) : OnlyStarting (acceptStart s now) := by
  unfold acceptStart
  split
  · exact h
  · rename_i c hc
    refine ⟨h.fresh, h.nodup, by rintro d ⟨⟩, fun d hd => ?_⟩
    dsimp only
    by_cases hdc : d = c
    · rw [hdc, Function.update_self, doRead_stats]
      simp
    · rw [Function.update_of_ne hdc, h.pending d hd, hc]
      simpa using Ne.symm hdc

theorem step_onlyStarting (s : St) (o : Op) (h : OnlyStarting s) : OnlyStarting (step s o) := by
  have hstarts := step_startsOne s o h.starts
  unfold step at hstarts ⊢
  by_cases ha : s.aborted = true ∨ s.starting.isSome = true ∧ o.handler = true
  · rw [if_pos ha]
    exact h
  rw [if_neg ha] at hstarts ⊢
  have hnone := (taken ha).2
  cases o with
  | accept now => exact acceptPush_onlyStarting h (hnone rfl) now
  | start now => exact acceptStart_onlyStarting h now
  | acceptError => exact ⟨h.fresh, h.nodup, h.starts, h.pending⟩
  | require siteId =>
    dsimp only [require]
    split
    · exact h
    · exact ⟨h.fresh, h.nodup, h.starts, h.pending⟩
  | send j now data =>
    dsimp only [send]
    split
    · exact h
    · split_ifs
      · exact ⟨h.fresh, h.nodup, h.starts, h.pending⟩
      · exact h.update (fun _ => by rw [fillAndSend_stats]) _
  | release j => exact ⟨h.fresh, h.nodup, h.starts, h.pending⟩
  | completeRead i ec data env =>
    dsimp only [completeRead]
    split
    · split_ifs
      · exact h
      · exact h.handled (hnone rfl) (readHandler_stats (BackendConn.receive _ data) env ec _) _
      · exact h.handled (hnone rfl) (readHandler_stats _ env ec _) _
    · exact h
  | completeWrite i ec n =>
    dsimp only [completeWrite]
    split
    · split_ifs
      · exact h
      · exact h.handled (hnone rfl) (writeHandler_stats _ ec n) _
    · exact h
  | checkTimeout ec =>
    obtain ⟨-, -, hstarting⟩ := sweep_same s ec
    obtain ⟨hsub, hnext⟩ : (onCheckTimeout s ec).backendConns.Sublist s.backendConns ∧
        (onCheckTimeout s ec).nextId = s.nextId := by
      unfold onCheckTimeout
      dsimp only
      split_ifs
      · exact ⟨List.Sublist.refl _, rfl⟩
      · exact ⟨List.Sublist.refl _, rfl⟩
      · exact ⟨List.filter_sublist, rfl⟩
      · exact ⟨List.Sublist.refl _, rfl⟩
    refine ⟨fun c hc => ?_, h.nodup.sublist hsub, hstarts, fun c hc => ?_⟩
    · rw [hnext]
      exact h.fresh c (hsub.subset hc)
    · rw [sweep_conns, hstarting]
      exact h.pending c (hsub.subset hc)

/-- what the totals say of the state -/
structure Reported (s : St) : Prop where
  total : (showConnsInfo s).totalCnt = s.backendConns.length
  pending : (showConnsInfo s).pendCnt = s.starting.toList.length
  starting : ∀ c ∈ s.backendConns, (s.conns c).stats = .connPending ↔ s.starting = some c
  stats : (showConnsInfo s).workCnt + (showConnsInfo s).pendCnt + (showConnsInfo s).errCnt = (showConnsInfo s).totalCnt
  found : (showConnsInfo s).workCnt = 0 ↔ ∀ siteId, requireBackendConn s siteId = none
  swept : s.starting = none → ∀ ec, ec ≠ .operationAborted →
    showConnsInfo (onCheckTimeout s ec) = ⟨(showConnsInfo s).workCnt, 0, (showConnsInfo s).workCnt, 0⟩

theorem showConnsInfo_eq (s : St) : showConnsInfo s =
    ⟨s.backendConns.length, s.backendConns.countP fun c => (s.conns c).stats = .connError,
      s.backendConns.countP fun c => (s.conns c).stats = .connWorking,
      s.backendConns.countP fun c => (s.conns c).stats = .connPending⟩ := by
  rw [showConnsInfo, Totals.foldl_add]
  simp only [Totals.zero, Nat.zero_add]

theorem OnlyStarting.countP_pending {s : St} (h : OnlyStarting s) :
    s.backendConns.countP (fun c => (s.conns c).stats = .connPending) = s.starting.toList.length := by
  cases hs : s.starting with
  | none =>
    rw [Option.toList_none, List.length_nil, List.countP_eq_zero]
    exact fun c hc hpending => h.settled hs hc (of_decide_eq_true hpending)
  | some c =>
    have hcount : s.backendConns.countP (fun d => (s.conns d).stats = .connPending) = s.backendConns.count c := by
      refine List.countP_congr fun d hd => ?_
      rw [decide_eq_true_iff, beq_iff_eq, h.pending d hd, hs, Option.some.injEq]
      exact eq_comm
    rw [hcount, List.count_eq_one_of_mem h.nodup (h.starts c hs)]
    rfl

/-- a sweep leaves the working connections -/
theorem OnlyStarting.swept {s : St} (h : OnlyStarting s) (hs : s.starting = none) {ec : Ec} (hec : ec ≠ .operationAborted) :
    showConnsInfo (onCheckTimeout s ec) = ⟨(showConnsInfo s).workCnt, 0, (showConnsInfo s).workCnt, 0⟩ := by
  rw [showConnsInfo_eq, showConnsInfo_eq, sweep_conns, sweep_eq_filter s hec]
  have hleft : ∀ c ∈ s.backendConns.filter fun c => (s.conns c).stats ≠ .connError,
      (s.conns c).stats = .connWorking := by
    intro c hc
    obtain ⟨hmem, hne⟩ := List.mem_filter.1 hc
    have hne' := h.settled hs hmem
    cases hstats : (s.conns c).stats <;> simp_all
  have hwork : (s.backendConns.filter fun c => (s.conns c).stats ≠ .connError).length =
      s.backendConns.countP fun c => (s.conns c).stats = .connWorking := by
    rw [← List.countP_eq_length_filter]
    refine List.countP_congr fun c hc => ?_
    have hne' := h.settled hs hc
    cases hstats : (s.conns c).stats <;> simp_all
  rw [← hwork, Totals.mk.injEq]
  refine ⟨rfl, ?_, ?_, ?_⟩
  · exact List.countP_eq_zero.2 fun c hc => by simp [hleft c hc]
  · exact List.countP_eq_length.2 fun c hc => by simp [hleft c hc]
  · exact List.countP_eq_zero.2 fun c hc => by simp [hleft c hc]

theorem OnlyStarting.reported {s : St} (h : OnlyStarting s) : Reported s := by
  have hsum := Totals.countP_stats (fun c => (s.conns c).stats) s.backendConns
  refine ⟨by rw [showConnsInfo_eq], by rw [showConnsInfo_eq]; exact h.countP_pending, h.pending,
    by rw [showConnsInfo_eq]; exact hsum, ?_, fun hs ec => h.swept hs⟩
  rw [showConnsInfo_eq]
  dsimp only
  rw [List.countP_eq_zero]
  constructor
  · exact fun hno siteId => requireBackendConn_eq_none.2 fun c hc hw => hno c hc (decide_eq_true hw)
  · exact fun hnone c hc hw => requireBackendConn_eq_none.1 (hnone 0) c hc (of_decide_eq_true hw)

/-- **What the backend server shows**, in every state of every run, also while the accept handler is between its
`push_back` and `start`. -/
theorem backend_report (ops : List Op) : Always step Reported init ops := by
  have hinit : OnlyStarting init := ⟨by simp [init], by simp [init], by rintro c ⟨⟩, by simp [init]⟩
  exact (always_run step_onlyStarting hinit).mono fun _ => OnlyStarting.reported

end BackendServer

end AirobotMsgd
