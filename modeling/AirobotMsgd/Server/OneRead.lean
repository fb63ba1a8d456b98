/-
One read at a time (source/front_conn.cpp, http_server.cpp).

A read is started by `start`, by both read handlers, and by the one through the direct call of the other. `Armed` is
what keeps them apart: a handler that starts one has just used up its own, and nobody else starts any, since a connection
between its registration and `start` has no operation outstanding and is not working. A recycled one has none because
its `use_count` is tested, and a new one because no operation is on a connection that is not there yet. A connection
that is cached while it is being started has lost its socket.

Results:
- `oneRead`: in every state of every run, up to the first failed assertion, each connection has at most one read
  outstanding, and a handler that runs on a connection that is not working starts nothing.
-/
import AirobotMsgd.Server.PendingCached

namespace AirobotMsgd.FrontServer

open AirobotMsgd.Runs

/-! ## What is claimed -/

/-- a read of c: `async_read_until` or `async_read` -/
def AsyncOp.reads (c : ℕ) (op : AsyncOp) : Bool := op.conn = c ∧ op.handler ≠ .write

/-- the reads of c that are outstanding -/
def St.reads (s : St) (c : ℕ) : ℕ := s.ops.countP (AsyncOp.reads c)

/-- the connection a handler runs on, or `push_front` -/
def handled (s : St) : Op → Option ℕ
  | .complete i _ _ => s.ops[i]?.map AsyncOp.conn
  | .pushFront => s.held
  | _ => none

structure OneRead (cfg : Config) (s : St) : Prop where
  once : ∀ c, s.reads c ≤ 1
  /-- what is outstanding after a handler on a connection that is not working, was outstanding before -/
  quiet : ∀ o c, handled s o = some c → (s.conns c).stats ≠ .connWorking → (step cfg s o).ops.Sublist s.ops

/-! ## Invariant -/

/-- c can be acted on by the one who has it in hand -/
def St.drives (s : St) (c : ℕ) : Prop := c ∈ s.ops.map AsyncOp.conn ∨ s.accept = .registered c ∨ s.held = some c

/-- the cached connections are at rest -/
def AtRest (s : St) : Prop := ∀ c ∈ s.cachedConns, (s.conns c).stats ≠ .connWorking ∧ (s.conns c).sock = none

structure Armed (s : St) : Prop where
  once : ∀ c, s.reads c ≤ 1
  known : ∀ c, s.drives c → c < s.nextId
  /-- between the registration and `start` -/
  idle : s.aborted = none → ∀ c, s.accept = .registered c →
    (s.conns c).stats ≠ .connWorking ∧ c ∉ s.ops.map AsyncOp.conn
  atRest : s.aborted = none → AtRest s

theorem armed_init (cfg : Config) (now : ℕ) : Armed (init cfg now) where
  once := by simp [init, St.reads]
  known := by simp [init, St.drives]
  idle := by simp [init]
  atRest := by simp [init, AtRest]

/-- what a step does that begins to serve nobody: operations are started on working connections only -/
structure Calm (s s' : St) : Prop where
  working : ∀ c, (s'.conns c).stats = .connWorking → (s.conns c).stats = .connWorking
  drives : ∀ c, s'.drives c → s.drives c ∨ c ∈ s.keys
  started : ∀ c ∈ s'.ops.map AsyncOp.conn, c ∈ s.ops.map AsyncOp.conn ∨ (s.conns c).stats = .connWorking
  accept : ∀ c, s'.accept = .registered c → s.accept = .registered c
  atRest : s'.aborted = none → AtRest s → AtRest s'
  aborted : s'.aborted = none → s.aborted = none
  keys : ∀ c ∈ s'.keys, c ∈ s.keys
  nextId : s'.nextId = s.nextId

theorem Calm.refl (s : St) : Calm s s :=
  ⟨fun _ => id, fun _ => .inl, fun _ => .inl, fun _ => id, fun _ => id, id, fun _ => id, rfl⟩

theorem Calm.trans {s t u : St} (h : Calm s t) (h' : Calm t u) : Calm s u where
  working := fun c hc => h.working c (h'.working c hc)
  drives := fun c hc => by
    rcases h'.drives c hc with hd | hk
    · exact h.drives c hd
    · exact .inr (h.keys c hk)
  started := fun c hc => by
    rcases h'.started c hc with ho | hw
    · exact h.started c ho
    · exact .inr (h.working c hw)
  accept := fun c hc => h.accept c (h'.accept c hc)
  atRest := fun ha hr => h'.atRest ha (h.atRest (h'.aborted ha) hr)
  aborted := fun ha => h.aborted (h'.aborted ha)
  keys := fun c hc => h.keys c (h'.keys c hc)
  nextId := h'.nextId.trans h.nextId

theorem Armed.calm {cfg : Config} {s s' : St} (h : Armed s) (hi : Inv cfg s) (hc : Calm s s')
    (honce : ∀ c, s'.reads c ≤ 1) : Armed s' where
  once := honce
  known := fun c hd => by
    rw [hc.nextId]
    rcases hc.drives c hd with hd | hk
    · exact h.known c hd
    · exact hi.known c (.inl hk)
  idle := fun ha c haccept => by
    obtain ⟨hrest, hno⟩ := h.idle (hc.aborted ha) c (hc.accept c haccept)
    refine ⟨fun hw => hrest (hc.working c hw), ?_⟩
    intro ho
    rcases hc.started c ho with ho | hw
    · exact hno ho
    · exact hrest hw
  atRest := fun ha => hc.atRest ha (h.atRest (hc.aborted ha))

theorem Armed.same_ops {cfg : Config} {s s' : St} (h : Armed s) (hi : Inv cfg s) (hc : Calm s s')
    (hops : s'.ops = s.ops) : Armed s' :=
  h.calm hi hc fun c => by
    rw [St.reads, hops]
    exact h.once c

/-- no connection changes and the owners become no more -/
theorem calm_of_same {s s' : St} (hconns : s'.conns = s.conns)
    (hops : ∀ c ∈ s'.ops.map AsyncOp.conn, c ∈ s.ops.map AsyncOp.conn)
    (haccept : ∀ c, s'.accept = .registered c → s.accept = .registered c)
    (hheld : ∀ c, s'.held = some c → s.held = some c ∨ c ∈ s.keys) (hcached : s'.cachedConns = s.cachedConns)
    (haborted : s'.aborted = none → s.aborted = none) (hkeys : ∀ c ∈ s'.keys, c ∈ s.keys)
    (hnext : s'.nextId = s.nextId) : Calm s s' where
  working := fun c hc => hconns ▸ hc
  drives := fun c hc => by
    rcases hc with hc | hc | hc
    · exact .inl (.inl (hops c hc))
    · exact .inl (.inr (.inl (haccept c hc)))
    · exact (hheld c hc).imp_left fun hc => .inr (.inr hc)
  started := fun c hc => .inl (hops c hc)
  accept := haccept
  atRest := fun _ hr => by
    rw [AtRest, hcached, hconns]
    exact hr
  aborted := haborted
  keys := hkeys
  nextId := hnext

/-- nothing but the pending set, the wheel and the clock changes -/
theorem calm_of_eq {s s' : St} (hconns : s'.conns = s.conns) (hops : s'.ops = s.ops) (haccept : s'.accept = s.accept)
    (hheld : s'.held = s.held) (hcached : s'.cachedConns = s.cachedConns) (haborted : s'.aborted = s.aborted)
    (hkeys : s'.frontConns = s.frontConns) (hnext : s'.nextId = s.nextId) : Calm s s' :=
  calm_of_same hconns (fun _ hc => hops ▸ hc) (fun _ hc => haccept ▸ hc) (fun _ hc => .inl (hheld ▸ hc)) hcached
    (fun ha => haborted ▸ ha) (fun c hc => by rwa [St.keys, hkeys] at hc) hnext

theorem abort_calm (s : St) (a : Assertion) : Calm s (s.abort a) :=
  calm_of_same rfl (fun _ => id) (fun _ => id) (fun _ => .inl) rfl (fun ha => by simp [St.abort] at ha) (fun _ => id)
    rfl

/-! ## What a handler starts -/

theorem startOp_calm (s : St) {c : ℕ} (hd : Handler) (hc : s.drives c) : Calm s (startOp s c hd) := by
  unfold startOp
  by_cases hw : (s.conns c).stats = .connWorking
  · rw [if_neg (not_not.2 hw)]
    split
    · exact abort_calm s _
    · rename_i sock _
      have hstats : ∀ d, ((s.setConn c { s.conns c with touchTime := s.now }).conns d).stats = (s.conns d).stats :=
        setConn_common Conn.stats rfl
      have hsocks : ∀ d, ((s.setConn c { s.conns c with touchTime := s.now }).conns d).sock = (s.conns d).sock :=
        setConn_common Conn.sock rfl
      refine ⟨?_, ?_, ?_, fun _ => id, ?_, id, fun _ => id, rfl⟩
      · intro d hd
        exact (hstats d).symm.trans hd
      · rintro d (ho | hd)
        · rcases mem_conns_append.1 ho with ho | rfl
          · exact .inl (.inl ho)
          · exact .inl hc
        · exact .inl (.inr hd)
      · intro d ho
        rcases mem_conns_append.1 ho with ho | rfl
        · exact .inl ho
        · exact .inr hw
      · intro _ hr d hd
        refine ⟨?_, (hsocks d).trans (hr d hd).2⟩
        intro hd'
        exact (hr d hd).1 ((hstats d).symm.trans hd')
  · rw [if_pos hw]
    exact .refl s

/-- `set_stats(conn_error)` and `push_to_remove` -/
theorem mark_calm (s : St) (c : ℕ) : Calm s (pushToRemove (s.setConn c { s.conns c with stats := .connError }) c) := by
  have hworking : ∀ d, ((s.setConn c { s.conns c with stats := .connError }).conns d).stats = .connWorking →
      (s.conns d).stats = .connWorking := by
    intro d hd
    rw [conns_setConn] at hd
    split_ifs at hd
    exact hd
  have hsocks : ∀ d, ((s.setConn c { s.conns c with stats := .connError }).conns d).sock = (s.conns d).sock :=
    setConn_common Conn.sock rfl
  refine ⟨hworking, fun _ => .inl, fun _ => .inl, fun _ => id, ?_, id, fun _ => id, rfl⟩
  intro _ hr d hd
  exact ⟨fun hw => (hr d hd).1 (hworking d hw), (hsocks d).trans (hr d hd).2⟩

theorem perform_calm {s : St} {c : ℕ} (hc : s.drives c) (a : Act) : Calm s (perform c s a) := by
  unfold perform
  split_ifs
  · exact .refl s
  · cases a with
    | doReadHead => exact startOp_calm s _ hc
    | doReadBody => exact startOp_calm s _ hc
    | doWrite => exact startOp_calm s _ hc
    | notifyConnError =>
      dsimp only
      split
      · exact abort_calm s _
      · exact mark_calm s c

def Act.reads : Act → Bool
  | .doReadHead => true
  | .doReadBody => true
  | _ => false

/-- what has been started since: reads of c, this many at most, and nothing of another connection -/
structure Since (c reads : ℕ) (s s' : St) : Prop where
  ops : ∃ new, s'.ops = s.ops ++ new ∧ new.countP (AsyncOp.reads c) ≤ reads ∧
    ∀ d, d ≠ c → new.countP (AsyncOp.reads d) = 0
  idle : (s.conns c).stats ≠ .connWorking → s'.ops = s.ops

theorem since_of_ops {c reads : ℕ} {s s' : St} (h : s'.ops = s.ops) : Since c reads s s' :=
  ⟨⟨[], h.trans (List.append_nil _).symm, Nat.zero_le _, fun _ _ => rfl⟩, fun _ => h⟩

theorem Since.trans {c m n : ℕ} {s t u : St} (h : Since c m s t) (hcalm : Calm s t) (h' : Since c n t u) :
    Since c (m + n) s u where
  ops := by
    obtain ⟨new, heq, hown, hother⟩ := h.ops
    obtain ⟨new', heq', hown', hother'⟩ := h'.ops
    refine ⟨new ++ new', ?_, ?_, ?_⟩
    · rw [heq', heq, List.append_assoc]
    · rw [List.countP_append]
      exact Nat.add_le_add hown hown'
    · intro d hdc
      rw [List.countP_append, hother d hdc, hother' d hdc]
  idle := fun hidle => by
    have hidle' : (t.conns c).stats ≠ .connWorking := fun hw => hidle (hcalm.working c hw)
    rw [h'.idle hidle', h.idle hidle]

theorem startOp_since (s : St) (c : ℕ) (hd : Handler) : Since c (if hd = .write then 0 else 1) s (startOp s c hd) := by
  unfold startOp
  by_cases hw : (s.conns c).stats = .connWorking
  · rw [if_neg (not_not.2 hw)]
    cases (s.conns c).sock with
    | none => exact since_of_ops rfl
    | some sock =>
      refine ⟨⟨[⟨c, hd, sock⟩], rfl, ?_, ?_⟩, fun hidle => absurd hw hidle⟩
      · by_cases hwrite : hd = .write <;> simp [AsyncOp.reads, hwrite]
      · intro d hdc
        simp [AsyncOp.reads, hdc.symm]
  · rw [if_pos hw]
    exact since_of_ops rfl

theorem perform_since (c : ℕ) (s : St) (a : Act) : Since c (if a.reads then 1 else 0) s (perform c s a) := by
  unfold perform
  by_cases ha : s.aborted.isSome
  · rw [if_pos ha]
    exact since_of_ops rfl
  rw [if_neg ha]
  cases a with
  | doReadHead => exact startOp_since s c .readHead
  | doReadBody => exact startOp_since s c .readBody
  | doWrite => exact startOp_since s c .write
  | notifyConnError =>
    dsimp only
    cases (s.conns c).sock with
    | none => exact since_of_ops rfl
    | some sock => exact since_of_ops rfl

theorem perform_drives {s : St} {c : ℕ} (hc : c ∈ s.ops.map AsyncOp.conn) (a : Act) :
    c ∈ (perform c s a).ops.map AsyncOp.conn := by
  obtain ⟨new, heq, -⟩ := (perform_since c s a).ops
  rw [heq, List.map_append]
  exact List.mem_append_left _ hc

/-- what a handler does on a connection its own operation holds -/
theorem performAll_since {c : ℕ} (acts : List Act) {s : St} (hc : c ∈ s.ops.map AsyncOp.conn) :
    Calm s (acts.foldl (perform c) s) ∧ Since c (acts.countP Act.reads) s (acts.foldl (perform c) s) := by
  induction acts generalizing s with
  | nil => exact ⟨.refl s, since_of_ops rfl⟩
  | cons a acts ih =>
    have hcalm : Calm s (perform c s a) := perform_calm (.inl hc) a
    obtain ⟨hcalm', hsince⟩ := ih (perform_drives hc a)
    refine ⟨hcalm.trans hcalm', ?_⟩
    rw [List.countP_cons, Nat.add_comm]
    exact (perform_since c s a).trans hcalm hsince

/-- a handler of a read starts one read at most, and a handler of a write none -/
theorem outcomes_reads {hd : Handler} {ec : Ec} {acts : List Act} (h : acts ∈ outcomes hd ec) :
    acts.countP Act.reads ≤ if hd = .write then 0 else 1 := by
  revert acts
  cases hd <;> cases ec <;> decide

theorem countP_eraseIdx_add {p : AsyncOp → Bool} {ops : List AsyncOp} {i : ℕ} {op : AsyncOp} (h : ops[i]? = some op) :
    (ops.eraseIdx i).countP p + (if p op then 1 else 0) = ops.countP p := by
  obtain ⟨hi, rfl⟩ := List.getElem?_eq_some_iff.1 h
  have hperm : (ops[i] :: ops.eraseIdx i).Perm ops := List.getElem_cons_eraseIdx_perm hi
  rw [← hperm.countP_eq, List.countP_cons]

theorem complete_calm (s : St) (i : ℕ) (ec : Ec) (n : ℕ) : Calm s (complete s i ec n) := by
  unfold complete
  split
  · exact .refl s
  · rename_i op hop
    split
    · exact .refl s
    · rename_i acts _
      have hc : op.conn ∈ s.ops.map AsyncOp.conn := List.mem_map_of_mem (List.mem_of_getElem? hop)
      refine (performAll_since acts hc).1.trans ?_
      refine calm_of_same rfl ?_ (fun _ => id) (fun _ => .inl) rfl id (fun _ => id) rfl
      intro d hd
      obtain ⟨o, ho, rfl⟩ := List.mem_map.1 hd
      exact List.mem_map_of_mem (List.eraseIdx_subset ho)

/-- **The read that completes makes room for the next one.** -/
theorem complete_once {s : St} (h : ∀ c, s.reads c ≤ 1) (i : ℕ) (ec : Ec) (n : ℕ) (c : ℕ) :
    (complete s i ec n).reads c ≤ 1 := by
  unfold complete
  split
  · exact h c
  · rename_i op hop
    split
    · exact h c
    · rename_i acts hacts
      obtain ⟨hi, -⟩ := List.getElem?_eq_some_iff.1 hop
      have hheld : op.conn ∈ s.ops.map AsyncOp.conn := List.mem_map_of_mem (List.mem_of_getElem? hop)
      obtain ⟨new, heq, hown, hother⟩ := (performAll_since acts hheld).2.ops
      have hreads := outcomes_reads (List.mem_of_getElem? hacts)
      have hleft := countP_eraseIdx_add (p := AsyncOp.reads c) hop
      have hone := h c
      rw [St.reads] at hone ⊢
      rw [← hleft] at hone
      dsimp only
      rw [heq, List.eraseIdx_append_of_lt_length hi, List.countP_append]
      by_cases hc : c = op.conn
      · rw [hc] at hone ⊢
        by_cases hwrite : op.handler = .write
        · rw [if_pos hwrite] at hreads
          omega
        · have hop : AsyncOp.reads op.conn op = true := by simp [AsyncOp.reads, hwrite]
          rw [if_neg hwrite] at hreads
          rw [if_pos hop] at hone
          omega
      · rw [hother c hc]
        omega

theorem complete_quiet {s : St} {i : ℕ} (ec : Ec) (n : ℕ) {c : ℕ} (hc : s.ops[i]?.map AsyncOp.conn = some c)
    (hidle : (s.conns c).stats ≠ .connWorking) : (complete s i ec n).ops.Sublist s.ops := by
  unfold complete
  split
  · exact List.Sublist.refl _
  · rename_i op hop
    split
    · exact List.Sublist.refl _
    · rename_i acts _
      obtain rfl : op.conn = c := by simpa [hop] using hc
      have hheld : op.conn ∈ s.ops.map AsyncOp.conn := List.mem_map_of_mem (List.mem_of_getElem? hop)
      dsimp only
      rw [(performAll_since acts hheld).2.idle hidle]
      exact List.eraseIdx_sublist _ _

theorem pushFront_calm (s : St) : Calm s (pushFront s) := by
  unfold pushFront
  split
  · exact .refl s
  · rename_i c hc
    exact (startOp_calm s .write (.inr (.inr hc))).trans
      (calm_of_same rfl (fun _ => id) (fun _ => id) (fun d hd => by cases hd) rfl id (fun _ => id) rfl)

theorem pushFront_once {s : St} (h : ∀ c, s.reads c ≤ 1) (c : ℕ) : (pushFront s).reads c ≤ 1 := by
  unfold pushFront
  split
  · exact h c
  · rename_i d hd
    obtain ⟨new, heq, hown, hother⟩ := (startOp_since s d .write).ops
    have hnone : new.countP (AsyncOp.reads c) = 0 := by
      by_cases hc : c = d
      · rw [hc]
        exact Nat.le_zero.1 hown
      · exact hother c hc
    rw [St.reads]
    dsimp only
    rw [heq, List.countP_append, hnone]
    exact h c

theorem pushFront_quiet {s : St} {c : ℕ} (hc : s.held = some c) (hidle : (s.conns c).stats ≠ .connWorking) :
    (pushFront s).ops.Sublist s.ops := by
  unfold pushFront
  rw [hc]
  dsimp only
  rw [(startOp_since s c .write).idle hidle]

theorem setSessionId_calm (s : St) (c sessionId : ℕ) :
    Calm s (setSessionId s c sessionId).1 ∧ (setSessionId s c sessionId).1.ops = s.ops := by
  have hkeys := keys_setSessionId s c sessionId
  unfold setSessionId at hkeys ⊢
  split_ifs at hkeys ⊢
  · exact ⟨calm_of_same rfl (fun _ => id) (fun _ => id) (fun _ => .inl) rfl id (fun _ hd => hkeys ▸ hd) rfl, rfl⟩
  · exact ⟨.refl s, rfl⟩

theorem lookUp_calm (s : St) (sessionId : ℕ) : Calm s (lookUp s sessionId) ∧ (lookUp s sessionId).ops = s.ops := by
  rcases lookUp_cases s sessionId with heq | ⟨c, hkey, heq⟩ | ⟨a, -, heq⟩
  · rw [heq]
    exact ⟨.refl s, rfl⟩
  · rw [heq]
    refine ⟨calm_of_same rfl (fun _ => id) (fun _ => id) ?_ rfl id (fun _ => id) rfl, rfl⟩
    intro d hd
    rw [← Option.some.inj hd]
    exact .inr hkey
  · rw [heq]
    exact ⟨abort_calm s a, rfl⟩

/-! ## Ticks and removal passes -/

theorem tickItem_calm (cfg : Config) (p : St × List ℕ) (c : ℕ) : Calm p.1 (tickItem cfg p c).1 := by
  unfold tickItem
  dsimp only
  split_ifs
  · exact .refl _
  · exact .refl _
  · exact .refl _
  · exact abort_calm _ _
  · split
    · exact abort_calm _ _
    · exact mark_calm _ c
  · exact .refl _

theorem tickItem_ops (cfg : Config) (p : St × List ℕ) (c : ℕ) : (tickItem cfg p c).1.ops = p.1.ops := by
  unfold tickItem
  dsimp only
  split_ifs
  · rfl
  · rfl
  · rfl
  · rfl
  · split
    · rfl
    · rfl
  · rfl

theorem tickItems_calm (cfg : Config) (bucket : List ℕ) (p : St × List ℕ) :
    Calm p.1 (bucket.foldl (tickItem cfg) p).1 ∧ (bucket.foldl (tickItem cfg) p).1.ops = p.1.ops := by
  induction bucket generalizing p with
  | nil => exact ⟨.refl _, rfl⟩
  | cons c bucket ih =>
    obtain ⟨hcalm, hops⟩ := ih (tickItem cfg p c)
    exact ⟨(tickItem_calm cfg p c).trans hcalm, hops.trans (tickItem_ops cfg p c)⟩

theorem tickScan_calm (cfg : Config) (s : St) : Calm s (tickScan cfg s) ∧ (tickScan cfg s).ops = s.ops := by
  unfold tickScan
  split
  · obtain ⟨hcalm, hops⟩ := tickItems_calm cfg (s.timingWheel.headD []) (s, s.timingWheel.headD [])
    refine ⟨hcalm.trans ?_, hops⟩
    exact calm_of_eq rfl rfl rfl rfl rfl rfl rfl rfl
  · exact ⟨.refl s, rfl⟩

theorem recycle_calm (s : St) (c : ℕ) : Calm s (recycle s c) := by
  unfold recycle
  split_ifs with hw
  · exact abort_calm s _
  · have hconn : (s.setConn c { s.conns c with stats := .connPending, sock := none }).conns c =
        { s.conns c with stats := .connPending, sock := none } := by
      rw [conns_setConn, if_pos rfl]
    have hother : ∀ d, d ≠ c →
        (s.setConn c { s.conns c with stats := .connPending, sock := none }).conns d = s.conns d := by
      intro d hdc
      rw [conns_setConn, if_neg hdc]
    refine ⟨?_, fun _ => .inl, fun _ => .inl, fun _ => id, ?_, id, fun _ => id, rfl⟩
    · intro d hd
      by_cases hdc : d = c
      · rw [hdc] at hd
        exact absurd ((congrArg Conn.stats hconn).symm.trans hd) (by simp)
      · exact (congrArg Conn.stats (hother d hdc)).symm.trans hd
    · intro _ hr d hd
      dsimp only
      by_cases hdc : d = c
      · rw [hdc, hconn]
        simp
      · rw [hother d hdc]
        rcases List.mem_append.1 hd with hd | hd
        · exact hr d hd
        · exact absurd (List.mem_singleton.1 hd) hdc

theorem skip_calm (s : St) (c : ℕ) : Calm s (skip s c) := by
  unfold skip
  split_ifs
  · exact calm_of_eq rfl rfl rfl rfl rfl rfl rfl rfl
  · exact .refl s

theorem unregister_calm (s : St) (c : ℕ) : Calm s (unregister s c) :=
  calm_of_same rfl (fun _ => id) (fun _ => id) (fun _ => .inl) rfl id (fun _ hd => (mem_keys_unregister.1 hd).1) rfl

theorem manageItem_calm (cfg : Config) (s : St) (c : ℕ) : Calm s (manageItem cfg s c) := by
  have hout : Calm s (unregister (skip s c) c) := (skip_calm s c).trans (unregister_calm (skip s c) c)
  rcases manageItem_cases cfg s c with ⟨-, heq⟩ | ⟨-, -, -, heq⟩ | ⟨-, -, -, heq⟩
  · rw [heq]
    exact .refl s
  · rw [heq]
    exact hout
  · rw [heq]
    exact hout.trans (recycle_calm _ c)

theorem manageItems_calm (cfg : Config) (order : List ℕ) (s : St) : Calm s (order.foldl (manageItem cfg) s) := by
  induction order generalizing s with
  | nil => exact .refl s
  | cons c order ih => exact (manageItem_calm cfg s c).trans (ih _)

theorem managePass_calm (cfg : Config) (s : St) (order : List ℕ) :
    Calm s (managePass cfg s order) ∧ (managePass cfg s order).ops = s.ops := by
  have hcalm := manageItems_calm cfg order s
  have hops := (manageItems_holders cfg order s).ops
  unfold managePass
  dsimp only
  generalize order.foldl (manageItem cfg) s = t at hcalm hops ⊢
  have hclear : Calm t { t with pendingToRemove := [] } :=
    calm_of_eq rfl rfl rfl rfl rfl rfl rfl rfl
  split_ifs
  · exact ⟨hcalm, hops⟩
  · exact ⟨hcalm.trans hclear, hops⟩
  · exact ⟨(hcalm.trans hclear).trans (abort_calm _ _), hops⟩
  · exact ⟨.refl s, rfl⟩

/-! ## The accept loop -/

/-- a connection that nobody serves is registered -/
theorem register_armed {s t : St} {c : ℕ} (h : Armed s) (ha : s.aborted = none) (hops : t.ops = s.ops)
    (hheld : t.held = s.held) (hnext : s.nextId ≤ t.nextId) (hc : c < t.nextId)
    (hstats : (t.conns c).stats ≠ .connWorking) (hno : c ∉ s.ops.map AsyncOp.conn)
    (hcached : ∀ d ∈ t.cachedConns, d ∈ s.cachedConns ∧ t.conns d = s.conns d) : Armed (register t c) where
  once := fun d => by
    show t.ops.countP (AsyncOp.reads d) ≤ 1
    rw [hops]
    exact h.once d
  known := fun d hd => by
    show d < t.nextId
    rcases hd with hd | hd | hd
    · exact (h.known d (.inl (hops ▸ hd))).trans_le hnext
    · rw [← Accept.registered.inj hd]
      exact hc
    · exact (h.known d (.inr (.inr (hheld ▸ hd)))).trans_le hnext
  idle := fun _ d hd => by
    obtain rfl : c = d := Accept.registered.inj hd
    refine ⟨hstats, ?_⟩
    show c ∉ t.ops.map AsyncOp.conn
    rw [hops]
    exact hno
  atRest := fun _ d hd => by
    obtain ⟨hd', hconn⟩ := hcached d hd
    show (t.conns d).stats ≠ .connWorking ∧ (t.conns d).sock = none
    rw [hconn]
    exact h.atRest ha d hd'

theorem acceptInsert_armed {cfg : Config} {s : St} (h : Armed s) (hi : Inv cfg s) (ha : s.aborted = none) :
    Armed (acceptInsert s) := by
  unfold acceptInsert
  split
  · rename_i sock hsock
    split
    · rename_i c cached hcache
      have hc : c ∈ s.cachedConns := by rw [hcache]; exact List.mem_cons_self
      have hnodup := hi.registry.nodup
      rw [hcache, List.nodup_cons] at hnodup
      dsimp only
      split_ifs with hcount
      · refine register_armed h ha rfl rfl le_rfl (hi.known c (.inr hc)) ?_ ?_ ?_
        · rw [conns_setConn, if_pos rfl]
          exact (h.atRest ha c hc).1
        · -- its count was zero outside the cache
          intro ho
          have halive : St.alive { s with cachedConns := cached } c := holds_alive (.inr (.inl ho))
          simp [St.alive, hcount] at halive
        · intro d hd
          refine ⟨by rw [hcache]; exact List.mem_cons_of_mem c hd, ?_⟩
          rw [conns_setConn, if_neg (ne_of_mem_of_not_mem hd hnodup.1)]
      · refine h.same_ops hi ⟨fun _ => id, fun _ => .inl, fun _ => .inl, fun _ => id, ?_, ?_, fun _ => id, rfl⟩ rfl
        · intro hnone
          simp [St.abort] at hnone
        · intro hnone
          simp [St.abort] at hnone
    · rename_i hcache
      have hno : s.nextId ∉ s.ops.map AsyncOp.conn := fun ho => (h.known _ (.inl ho)).false
      refine register_armed h ha rfl rfl (Nat.le_succ _) (Nat.lt_succ_self _) ?_ hno ?_
      · show ((s.setConn s.nextId _).conns s.nextId).stats ≠ .connWorking
        rw [conns_setConn, if_pos rfl]
        simp
      · intro d hd
        have hd' : d ∈ s.cachedConns := hd
        rw [hcache] at hd'
        cases hd'
  · exact h

/-- `start` on the connection that was registered: its first read -/
theorem startOp_start (s : St) (c : ℕ) :
    startOp { s.setConn c { s.conns c with stats := .connWorking } with accept := .listening } c .readHead =
      match (s.conns c).sock with
      | none =>
        { s.setConn c { s.conns c with stats := .connWorking } with
          accept := .listening
          aborted := some .nullSock }
      | some sock =>
        { s.setConn c { s.conns c with stats := .connWorking, touchTime := s.now } with
          accept := .listening
          ops := s.ops ++ [⟨c, .readHead, sock⟩] } := by
  have hconn : (s.setConn c { s.conns c with stats := .connWorking }).conns c =
      { s.conns c with stats := .connWorking } := by
    rw [conns_setConn, if_pos rfl]
  unfold startOp
  dsimp only
  rw [hconn, if_neg (by simp)]
  cases (s.conns c).sock with
  | none => rfl
  | some sock => simp [St.setConn]

/-- the first operation of its client -/
theorem once_append {ops : List AsyncOp} {op : AsyncOp} (h : ∀ c, ops.countP (AsyncOp.reads c) ≤ 1)
    (hno : op.conn ∉ ops.map AsyncOp.conn) (c : ℕ) : (ops ++ [op]).countP (AsyncOp.reads c) ≤ 1 := by
  rw [List.countP_append, List.countP_singleton]
  by_cases hc : c = op.conn
  · have hnone : ops.countP (AsyncOp.reads c) = 0 := by
      rw [List.countP_eq_zero]
      intro o ho hreads
      apply hno
      have hconn : o.conn = c ∧ o.handler ≠ .write := of_decide_eq_true hreads
      rw [← hc, ← hconn.1]
      exact List.mem_map_of_mem ho
    rw [hnone, Nat.zero_add]
    split_ifs
    · exact le_rfl
    · exact Nat.zero_le 1
  · have hother : AsyncOp.reads c op = false := by simp [AsyncOp.reads, Ne.symm hc]
    rw [hother]
    exact h c

theorem acceptStart_armed {s : St} (h : Armed s) (ha : s.aborted = none) : Armed (acceptStart s) := by
  unfold acceptStart
  split
  · rename_i c hc
    obtain ⟨hidle, hno⟩ := h.idle ha c hc
    have hknown := h.known c (.inr (.inl hc))
    rw [startOp_start]
    cases hsock : (s.conns c).sock with
    | none =>
      refine ⟨h.once, ?_, fun ha => by simp at ha, fun ha => by simp at ha⟩
      rintro d (hd | hd | hd)
      · exact h.known d (.inl hd)
      · cases hd
      · exact h.known d (.inr (.inr hd))
    | some sock =>
      refine ⟨?_, ?_, ?_, ?_⟩
      · exact once_append h.once hno
      · rintro d (hd | hd | hd)
        · rcases mem_conns_append.1 hd with hd | rfl
          · exact h.known d (.inl hd)
          · exact hknown
        · cases hd
        · exact h.known d (.inr (.inr hd))
      · intro _ d hd
        cases hd
      · intro _ d hd
        have hrest := h.atRest ha d hd
        have hdc : d ≠ c := by
          rintro rfl
          rw [hsock] at hrest
          cases hrest.2
        show ((s.setConn c _).conns d).stats ≠ .connWorking ∧ ((s.setConn c _).conns d).sock = none
        rw [conns_setConn, if_neg hdc]
        exact hrest
  · exact h

/-! ## Results -/

theorem step_armed {cfg : Config} {s : St} (h : Armed s) (hi : Inv cfg s) (o : Op) : Armed (step cfg s o) := by
  unfold step
  by_cases ha : s.aborted.isSome
  · rw [if_pos ha]
    exact h
  rw [if_neg ha]
  rw [Option.not_isSome_iff_eq_none] at ha
  cases o with
  | advance d =>
    exact h.same_ops hi (calm_of_eq rfl rfl rfl rfl rfl rfl rfl rfl) rfl
  | acceptError =>
    dsimp only
    split_ifs
    · exact h.same_ops hi (calm_of_same rfl (fun _ => id) (fun c hc => by cases hc) (fun _ => .inl) rfl id
        (fun _ => id) rfl) rfl
    · exact h
  | acceptTest =>
    dsimp only [acceptTest]
    split_ifs
    · exact h.same_ops hi (calm_of_eq rfl rfl rfl rfl rfl rfl rfl rfl) rfl
    · exact h.same_ops hi (calm_of_same rfl (fun _ => id) (fun c hc => by cases hc) (fun _ => .inl) rfl id
        (fun _ => id) rfl) rfl
    · exact h
  | acceptInsert => exact acceptInsert_armed h hi ha
  | acceptStart => exact acceptStart_armed h ha
  | complete i ec n => exact h.calm hi (complete_calm s i ec n) (complete_once h.once i ec n)
  | setSessionId c sessionId =>
    obtain ⟨hcalm, hops⟩ := setSessionId_calm s c sessionId
    exact h.same_ops hi hcalm hops
  | lookUp sessionId => exact h.same_ops hi (lookUp_calm s sessionId).1 (lookUp_calm s sessionId).2
  | pushFront => exact h.calm hi (pushFront_calm s) (pushFront_once h.once)
  | pushToRemove c =>
    exact h.same_ops hi (calm_of_eq rfl rfl rfl rfl rfl rfl rfl rfl) rfl
  | tickScan => exact h.same_ops hi (tickScan_calm cfg s).1 (tickScan_calm cfg s).2
  | tickPush =>
    dsimp only [tickPush]
    split
    · exact h.same_ops hi (calm_of_eq rfl rfl rfl rfl rfl rfl rfl rfl) rfl
    · exact h
  | managePass order => exact h.same_ops hi (managePass_calm cfg s order).1 (managePass_calm cfg s order).2

/-- a handler on a connection that is not working starts nothing -/
theorem step_quiet (cfg : Config) (s : St) (o : Op) (c : ℕ) (hc : handled s o = some c)
    (hidle : (s.conns c).stats ≠ .connWorking) : (step cfg s o).ops.Sublist s.ops := by
  unfold step
  by_cases ha : s.aborted.isSome
  · rw [if_pos ha]
  rw [if_neg ha]
  cases o with
  | complete i ec n => exact complete_quiet ec n hc hidle
  | pushFront => exact pushFront_quiet hc hidle
  | _ => cases hc

/-- **One read at a time**, in every state of every run. -/
theorem oneRead (cfg : Config) (now : ℕ) (ops : List Op) :
    Always (step cfg) (OneRead cfg) (init cfg now) ops := by
  have hinv : ∀ s o, Inv cfg s ∧ Armed s → Inv cfg (step cfg s o) ∧ Armed (step cfg s o) := by
    rintro s o ⟨hi, h⟩
    exact ⟨step_inv s o hi, step_armed h hi o⟩
  exact (always_run hinv ⟨inv_init cfg now, armed_init cfg now⟩).mono fun s h => ⟨h.2.once, step_quiet cfg s⟩

end AirobotMsgd.FrontServer
