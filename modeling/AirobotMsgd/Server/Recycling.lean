/-
Recycling: who owns the connections in the cache.

A removal pass logs "SKIP" for an item with more than the two references of the registry and of the set, and goes on: it
erases the item and, while the cache has room, washes and caches it with its operations outstanding. `Owned` is what
holds as long as that does not happen: a cached connection has no other owner, everything else has a socket, and an
operation is on the socket its connection has now.

Results:
- `free_iff_clean`: the cached connections are free, and the assertions that rely on it hold, in every state of a run if
  and only if no removal pass washes an item somebody else still uses.
- `cached_with_read_outstanding`: a failed write with the next read outstanding is enough.

Premise (`Legal`): `push_to_remove` is called by a handler of the connection, after `set_stats(conn_error)`, or by a
tick, as `notify_conn_error` and `timing_wheel_check` do.
-/
import AirobotMsgd.Server.Registry

namespace AirobotMsgd.FrontServer

open AirobotMsgd.Runs

/-! ## What is claimed -/

structure Free (s : St) : Prop where
  /-- the cache is the only owner -/
  alone : ∀ c ∈ s.cachedConns, s.useCount c = 1
  noOp : ∀ c ∈ s.cachedConns, c ∉ s.ops.map AsyncOp.conn
  notPending : ∀ c ∈ s.cachedConns, c ∉ s.pendingToRemove
  /-- an operation is on the socket its connection has -/
  opSock : ∀ op ∈ s.ops, (s.conns op.conn).sock = some op.sock
  useCount : s.aborted ≠ some .useCount
  nullSock : s.aborted ≠ some .nullSock

/-- an explicit `push_to_remove` comes from a handler of the connection, after `set_stats(conn_error)` -/
def Legal (s : St) : Op → Prop
  | .pushToRemove c => (s.conns c).stats = .connError ∧ c ∈ s.ops.map AsyncOp.conn
  | _ => True

/-- an item with more than two references comes up only when the cache is full; cached is its size by then -/
def CleanFrom (cfg : Config) (s : St) : List ℕ → ℕ → Prop
  | [], _ => True
  | c :: order, cached =>
    (c ∈ s.keys → 2 < s.useCount c → cfg.cacheCap ≤ cached) ∧
      CleanFrom cfg s order (if c ∈ s.keys then cached + 1 else cached)

/-- a removal pass washes nothing that somebody else uses -/
def Clean (cfg : Config) (s : St) : Op → Prop
  | .managePass order =>
    s.aborted = none → order.Perm s.pendingToRemove → CleanFrom cfg s order s.cachedConns.length
  | _ => True

instance decidableCleanFrom (cfg : Config) (s : St) :
    (order : List ℕ) → (cached : ℕ) → Decidable (CleanFrom cfg s order cached)
  | [], _ => inferInstanceAs (Decidable True)
  | c :: order, cached =>
    @instDecidableAnd _ _ _ (decidableCleanFrom cfg s order (if c ∈ s.keys then cached + 1 else cached))

instance (cfg : Config) (s : St) (o : Op) : Decidable (Clean cfg s o) := by
  cases o <;> unfold Clean <;> infer_instance

/-! ## Invariant -/

/-- c has an owner besides the registry and the cache -/
def St.holds (s : St) (c : ℕ) : Prop :=
  c ∈ s.pendingToRemove ∨ c ∈ s.ops.map AsyncOp.conn ∨ s.accept = .registered c ∨ s.held = some c

/-- the assertions that are not about owners -/
def Assertion.tolerated (a : Assertion) : Prop := a ≠ .useCount ∧ a ≠ .nullSock ∧ a ≠ .washWhite

structure Owned (cfg : Config) (s : St) : Prop where
  registry : Inv cfg s
  pending : s.pendingToRemove.Nodup
  known : ∀ c, s.holds c → c < s.nextId
  free : ∀ c ∈ s.cachedConns, ¬ s.holds c
  washed : ∀ c ∈ s.cachedConns, (s.conns c).stats = .connPending
  sock : ∀ c, c ∈ s.keys ∨ s.holds c → (s.conns c).sock.isSome
  opSock : ∀ op ∈ s.ops, (s.conns op.conn).sock = some op.sock
  marked : ∀ c ∈ s.pendingToRemove, (s.conns c).stats = .connError
  /-- between the registration and `start` -/
  starting : ∀ c, s.accept = .registered c →
    (s.conns c).stats = .connPending ∧ c ∉ s.pendingToRemove ∧ c ∉ s.ops.map AsyncOp.conn
  asserts : ∀ a, s.aborted = some a → a.tolerated

theorem owned_init (cfg : Config) (now : ℕ) : Owned cfg (init cfg now) := by
  refine ⟨inv_init cfg now, List.nodup_nil, ?_, ?_, ?_, ?_, ?_, ?_, ?_, ?_⟩ <;> simp [init, St.holds, St.keys]

theorem useCount_cached {cfg : Config} {s : St} (h : Owned cfg s) {c : ℕ} (hc : c ∈ s.cachedConns) :
    s.useCount c = 1 := by
  have hfree := h.free c hc
  have hkeys := h.registry.registry.disjoint c hc
  have hone : s.cachedConns.count c = 1 := List.count_eq_one_of_mem h.registry.registry.nodup hc
  simp only [St.holds, not_or] at hfree
  obtain ⟨hp, ho, ha, hh⟩ := hfree
  simp only [St.useCount, hone, List.count_eq_zero_of_not_mem hkeys, List.count_eq_zero_of_not_mem hp,
    List.count_eq_zero_of_not_mem ho, if_neg ha, if_neg hh]

theorem Owned.isFree {cfg : Config} {s : St} (h : Owned cfg s) : Free s where
  alone := fun _ hc => useCount_cached h hc
  noOp := fun c hc ho => h.free c hc (.inr (.inl ho))
  notPending := fun c hc hp => h.free c hc (.inl hp)
  opSock := h.opSock
  useCount := fun ha => (h.asserts _ ha).1 rfl
  nullSock := fun ha => (h.asserts _ ha).2.1 rfl

/-- whoever is alive and not pending is not in the cache and has a socket -/
theorem Owned.of_alive {cfg : Config} {s : St} (h : Owned cfg s) {c : ℕ} (halive : s.alive c)
    (hstats : (s.conns c).stats ≠ .connPending) :
    c < s.nextId ∧ c ∉ s.cachedConns ∧ s.accept ≠ .registered c ∧ (s.conns c).sock.isSome := by
  have hcached : c ∉ s.cachedConns := fun hc => hstats (h.washed c hc)
  have haccept : s.accept ≠ .registered c := fun ha => hstats (h.starting c ha).1
  have howner : c ∈ s.keys ∨ s.holds c := by
    by_contra hno
    simp only [St.holds, not_or] at hno
    obtain ⟨hk, hp, ho, ha, hh⟩ := hno
    simp [St.alive, St.useCount, hk, hp, ho, ha, hh, hcached, List.count_eq_zero_of_not_mem] at halive
  exact ⟨howner.elim (fun hk => h.registry.known c (.inl hk)) (h.known c), hcached, haccept, h.sock c howner⟩

/-- the owners and the connections are left alone -/
structure SameOwners (s s' : St) : Prop where
  keys : s'.keys = s.keys
  cached : s'.cachedConns = s.cachedConns
  nextId : s'.nextId = s.nextId
  conns : s'.conns = s.conns
  pending : s'.pendingToRemove = s.pendingToRemove
  ops : s'.ops = s.ops
  held : s'.held = s.held
  accept : ∀ c, s'.accept = .registered c → s.accept = .registered c
  asserts : ∀ a, s'.aborted = some a → s.aborted = some a ∨ a.tolerated

theorem SameOwners.holds {s s' : St} (hs : SameOwners s s') {c : ℕ} (h : s'.holds c) : s.holds c := by
  rw [St.holds, hs.pending, hs.ops, hs.held] at h
  rcases h with h | h | h | h
  · exact .inl h
  · exact .inr (.inl h)
  · exact .inr (.inr (.inl (hs.accept c h)))
  · exact .inr (.inr (.inr h))

theorem Owned.same {cfg : Config} {s s' : St} (h : Owned cfg s) (hi : Inv cfg s') (hs : SameOwners s s') :
    Owned cfg s' where
  registry := hi
  pending := by rw [hs.pending]; exact h.pending
  known := fun c hc => by rw [hs.nextId]; exact h.known c (hs.holds hc)
  free := fun c hc hh => h.free c (by rw [← hs.cached]; exact hc) (hs.holds hh)
  washed := by rw [hs.cached, hs.conns]; exact h.washed
  sock := fun c hc => by rw [hs.conns]; rw [hs.keys] at hc; exact h.sock c (hc.imp_right hs.holds)
  opSock := by rw [hs.ops, hs.conns]; exact h.opSock
  marked := by rw [hs.pending, hs.conns]; exact h.marked
  starting := fun c hc => by rw [hs.conns, hs.pending, hs.ops]; exact h.starting c (hs.accept c hc)
  asserts := fun a ha => (hs.asserts a ha).elim (h.asserts a) id

theorem Owned.abort {cfg : Config} {s : St} (h : Owned cfg s) {a : Assertion} (ha : a.tolerated)
    (hsize : a ≠ .sizeEq) : Owned cfg (s.abort a) :=
  h.same (h.registry.same (abort_same s hsize))
    ⟨rfl, rfl, rfl, rfl, rfl, rfl, rfl, fun _ => id, fun _ hb => .inr (Option.some.inj hb ▸ ha)⟩

/-! ## Operations -/

theorem conns_setConn (s : St) (c : ℕ) (conn : Conn) (d : ℕ) :
    (s.setConn c conn).conns d = if d = c then conn else s.conns d := by
  simp only [St.setConn, Function.update_apply]

/-- what c's new state has in common with its old one -/
theorem setConn_common {β : Type*} (f : Conn → β) {s : St} {c : ℕ} {conn : Conn} (hf : f conn = f (s.conns c)) (d : ℕ) :
    f ((s.setConn c conn).conns d) = f (s.conns d) := by
  rw [conns_setConn]
  split_ifs with hdc
  · rw [hf, hdc]
  · rfl

theorem mem_conns_append {ops : List AsyncOp} {op : AsyncOp} {d : ℕ} :
    d ∈ (ops ++ [op]).map AsyncOp.conn ↔ d ∈ ops.map AsyncOp.conn ∨ d = op.conn := by
  rw [List.map_append, List.mem_append, List.map_singleton, List.mem_singleton]

theorem startOp_owned {cfg : Config} {s : St} {c : ℕ} (h : Owned cfg s) (hd : Handler) (hknown : c < s.nextId)
    (hsock : (s.conns c).sock.isSome) : Owned cfg (startOp s c hd) := by
  have hi : Inv cfg (startOp s c hd) := h.registry.same (startOp_same s c hd)
  by_cases hw : (s.conns c).stats = .connWorking
  · obtain ⟨sock, hs⟩ := Option.isSome_iff_exists.1 hsock
    have heq : startOp s c hd = { s.setConn c { s.conns c with touchTime := s.now } with
        ops := s.ops ++ [⟨c, hd, sock⟩] } := by
      simp [startOp, hw, hs]
    rw [heq] at hi ⊢
    have hstats : ∀ d, ((s.setConn c { s.conns c with touchTime := s.now }).conns d).stats = (s.conns d).stats :=
      setConn_common Conn.stats rfl
    have hsocks : ∀ d, ((s.setConn c { s.conns c with touchTime := s.now }).conns d).sock = (s.conns d).sock :=
      setConn_common Conn.sock rfl
    have hholds : ∀ d, St.holds { s.setConn c { s.conns c with touchTime := s.now } with
        ops := s.ops ++ [⟨c, hd, sock⟩] } d → s.holds d ∨ d = c := by
      rintro d (hh | hh | hh | hh)
      · exact .inl (.inl hh)
      · exact (mem_conns_append.1 hh).imp_left fun ho => .inr (.inl ho)
      · exact .inl (.inr (.inr (.inl hh)))
      · exact .inl (.inr (.inr (.inr hh)))
    refine ⟨hi, h.pending, ?_, ?_, ?_, ?_, ?_, ?_, ?_, h.asserts⟩
    · intro d hh
      rcases hholds d hh with hh | rfl
      · exact h.known d hh
      · exact hknown
    · intro d hcached hh
      rcases hholds d hh with hh | rfl
      · exact h.free d hcached hh
      · -- a cached connection is not working
        exact absurd (hw.symm.trans (h.washed d hcached)) (by decide)
    · intro d hcached
      rw [hstats]
      exact h.washed d hcached
    · rintro d (hk | hh)
      · rw [hsocks]
        exact h.sock d (.inl hk)
      · rw [hsocks]
        rcases hholds d hh with hh | rfl
        · exact h.sock d (.inr hh)
        · exact hsock
    · intro op hop
      rw [hsocks]
      rcases List.mem_append.1 hop with hop | hop
      · exact h.opSock op hop
      · rw [List.mem_singleton.1 hop]
        exact hs
    · intro d hp
      rw [hstats]
      exact h.marked d hp
    · intro d ha
      rw [hstats]
      obtain ⟨hpend, hnp, hno⟩ := h.starting d ha
      refine ⟨hpend, hnp, ?_⟩
      intro ho
      rcases mem_conns_append.1 ho with ho | rfl
      · exact hno ho
      · -- nor is one between its registration and `start`
        exact absurd (hw.symm.trans hpend) (by decide)
  · have heq : startOp s c hd = s := by simp [startOp, hw]
    rw [heq]
    exact h

/-- `set_stats(conn_error)` and `push_to_remove` -/
theorem mark_owned {cfg : Config} {s : St} {c : ℕ} (h : Owned cfg s) (hknown : c < s.nextId)
    (hcached : c ∉ s.cachedConns) (haccept : s.accept ≠ .registered c) (hsock : (s.conns c).sock.isSome) :
    Owned cfg (pushToRemove (s.setConn c { s.conns c with stats := .connError }) c) := by
  have hsocks : ∀ d, ((s.setConn c { s.conns c with stats := .connError }).conns d).sock = (s.conns d).sock :=
    setConn_common Conn.sock rfl
  have hstats : ∀ d, d ≠ c →
      ((s.setConn c { s.conns c with stats := .connError }).conns d).stats = (s.conns d).stats := by
    intro d hdc
    rw [conns_setConn, if_neg hdc]
  have hholds : ∀ d, (pushToRemove (s.setConn c { s.conns c with stats := .connError }) c).holds d →
      s.holds d ∨ d = c := by
    rintro d (hh | hh | hh | hh)
    · exact (List.mem_insert_iff.1 hh).symm.imp_left .inl
    · exact .inl (.inr (.inl hh))
    · exact .inl (.inr (.inr (.inl hh)))
    · exact .inl (.inr (.inr (.inr hh)))
  refine ⟨h.registry.same ⟨rfl, rfl, rfl, rfl, rfl, rfl, id⟩, h.pending.insert, ?_, ?_, ?_, ?_, ?_, ?_, ?_, h.asserts⟩
  · intro d hh
    rcases hholds d hh with hh | rfl
    · exact h.known d hh
    · exact hknown
  · intro d hd hh
    rcases hholds d hh with hh | rfl
    · exact h.free d hd hh
    · exact hcached hd
  · intro d hd
    refine (hstats d ?_).trans (h.washed d hd)
    rintro rfl
    exact hcached hd
  · rintro d (hk | hh)
    · exact (congrArg Option.isSome (hsocks d)).trans (h.sock d (.inl hk))
    · refine (congrArg Option.isSome (hsocks d)).trans ?_
      rcases hholds d hh with hh | rfl
      · exact h.sock d (.inr hh)
      · exact hsock
  · intro op hop
    exact (hsocks op.conn).trans (h.opSock op hop)
  · intro d hp
    by_cases hdc : d = c
    · show ((s.setConn c { s.conns c with stats := .connError }).conns d).stats = .connError
      rw [conns_setConn, if_pos hdc]
    · refine (hstats d hdc).trans (h.marked d ?_)
      exact (List.mem_insert_iff.1 hp).resolve_left hdc
  · intro d ha
    obtain ⟨hpend, hnp, hno⟩ := h.starting d ha
    have hdc : d ≠ c := by
      rintro rfl
      exact haccept ha
    exact ⟨(hstats d hdc).trans hpend, fun hp => hnp ((List.mem_insert_iff.1 hp).resolve_left hdc), hno⟩

theorem mem_ops_startOp {s : St} {c d : ℕ} (hd : Handler) (h : d ∈ s.ops.map AsyncOp.conn) :
    d ∈ (startOp s c hd).ops.map AsyncOp.conn := by
  unfold startOp
  split_ifs
  · exact h
  · split
    · exact h
    · exact List.map_append ▸ List.mem_append_left _ h

/-- a handler acts on a connection that its own operation holds -/
theorem perform_owned {cfg : Config} {s : St} {c : ℕ} (h : Owned cfg s) (hop : c ∈ s.ops.map AsyncOp.conn) (a : Act) :
    Owned cfg (perform c s a) ∧ c ∈ (perform c s a).ops.map AsyncOp.conn := by
  have hholds : s.holds c := .inr (.inl hop)
  have hknown := h.known c hholds
  have hsock := h.sock c (.inr hholds)
  have hstart : ∀ hd, Owned cfg (startOp s c hd) ∧ c ∈ (startOp s c hd).ops.map AsyncOp.conn := fun hd =>
    ⟨startOp_owned h hd hknown hsock, mem_ops_startOp hd hop⟩
  unfold perform
  split_ifs with ha
  · exact ⟨h, hop⟩
  · cases a with
    | doReadHead => exact hstart _
    | doReadBody => exact hstart _
    | doWrite => exact hstart _
    | notifyConnError =>
      have haccept : s.accept ≠ .registered c := fun ha => (h.starting c ha).2.2 hop
      dsimp only
      split
      · rename_i hs
        simp [hs] at hsock
      · exact ⟨mark_owned h hknown (fun hc => h.free c hc hholds) haccept hsock, hop⟩

theorem performAll_owned {cfg : Config} {c : ℕ} (acts : List Act) {s : St} (h : Owned cfg s)
    (hop : c ∈ s.ops.map AsyncOp.conn) : Owned cfg (acts.foldl (perform c) s) := by
  induction acts generalizing s with
  | nil => exact h
  | cons a acts ih =>
    obtain ⟨h', hop'⟩ := perform_owned h hop a
    exact ih h' hop'

theorem complete_owned {cfg : Config} {s : St} (h : Owned cfg s) (i : ℕ) (ec : Ec) (n : ℕ) :
    Owned cfg (complete s i ec n) := by
  have hi : Inv cfg (complete s i ec n) := h.registry.same (complete_same s i ec n)
  unfold complete at hi ⊢
  split at hi
  · exact h
  · rename_i op hop
    split at hi
    · exact h
    · rename_i acts _
      have hall : Owned cfg (acts.foldl (perform op.conn) s) :=
        performAll_owned acts h (List.mem_map_of_mem (List.mem_of_getElem? hop))
      generalize acts.foldl (perform op.conn) s = t at hall hi ⊢
      have hmem : ∀ o ∈ t.ops.eraseIdx i, o ∈ t.ops := fun o ho => (List.eraseIdx_subset) ho
      have hconn : ∀ d, d ∈ (t.ops.eraseIdx i).map AsyncOp.conn → d ∈ t.ops.map AsyncOp.conn := by
        intro d hd
        obtain ⟨o, ho, rfl⟩ := List.mem_map.1 hd
        exact List.mem_map_of_mem (hmem o ho)
      have hholds : ∀ d, St.holds { t with ops := t.ops.eraseIdx i } d → t.holds d := by
        rintro d (hh | hh | hh)
        · exact .inl hh
        · exact .inr (.inl (hconn d hh))
        · exact .inr (.inr hh)
      exact ⟨hi, hall.pending, fun d hd => hall.known d (hholds d hd), fun d hd hh => hall.free d hd (hholds d hh),
        hall.washed, fun d hd => hall.sock d (hd.imp_right (hholds d)), fun o ho => hall.opSock o (hmem o ho),
        hall.marked, fun d hd => ⟨(hall.starting d hd).1, (hall.starting d hd).2.1, fun ho =>
          (hall.starting d hd).2.2 (hconn d ho)⟩, hall.asserts⟩

/-! ## Ticks and the backend thread -/

theorem tickItem_owned {cfg : Config} {p : St × List ℕ} (h : Owned cfg p.1) (c : ℕ) :
    Owned cfg (tickItem cfg p c).1 := by
  obtain ⟨s, modi⟩ := p
  simp only [tickItem]
  split_ifs with ha halive hstats hcached htouch
  · exact h
  · exact h
  · exact h
  · exact h.abort (by simp [Assertion.tolerated]) (by decide)
  · obtain ⟨hknown, hnc, haccept, hsock⟩ := h.of_alive (by simpa using halive) hstats
    split
    · rename_i hs
      simp [hs] at hsock
    · exact mark_owned h hknown hnc haccept hsock
  · exact h

theorem tickItems_owned {cfg : Config} (bucket : List ℕ) {p : St × List ℕ} (h : Owned cfg p.1) :
    Owned cfg (bucket.foldl (tickItem cfg) p).1 := by
  induction bucket generalizing p with
  | nil => exact h
  | cons c bucket ih => exact ih (tickItem_owned h c)

theorem tickScan_owned {cfg : Config} {s : St} (h : Owned cfg s) : Owned cfg (tickScan cfg s) := by
  unfold tickScan
  split
  · have hall := tickItems_owned (s.timingWheel.headD []) (p := (s, s.timingWheel.headD [])) h
    exact hall.same (hall.registry.same ⟨rfl, rfl, rfl, rfl, rfl, rfl, id⟩)
      ⟨rfl, rfl, rfl, rfl, rfl, rfl, rfl, fun _ => id, fun _ => .inl⟩
  · exact h

theorem lookUp_owned {cfg : Config} {s : St} (h : Owned cfg s) (sessionId : ℕ) : Owned cfg (lookUp s sessionId) := by
  have hi : Inv cfg (lookUp s sessionId) := h.registry.same (lookUp_same s sessionId)
  rcases lookUp_cases s sessionId with heq | ⟨c, hkey, heq⟩ | ⟨a, ha, heq⟩
  · rw [heq]
    exact h
  · rw [heq] at hi ⊢
    have hholds : ∀ d, St.holds { s with held := some c } d → s.holds d ∨ d = c := by
      rintro d (hh | hh | hh | hh)
      · exact .inl (.inl hh)
      · exact .inl (.inr (.inl hh))
      · exact .inl (.inr (.inr (.inl hh)))
      · exact .inr (Option.some.inj hh).symm
    refine ⟨hi, h.pending, ?_, ?_, h.washed, ?_, h.opSock, h.marked, h.starting, h.asserts⟩
    · intro d hd
      rcases hholds d hd with hd | rfl
      · exact h.known d hd
      · exact h.registry.known _ (.inl hkey)
    · intro d hd hh
      rcases hholds d hh with hh | rfl
      · exact h.free d hd hh
      · exact h.registry.registry.disjoint _ hd hkey
    · rintro d (hk | hh)
      · exact h.sock d (.inl hk)
      · rcases hholds d hh with hh | rfl
        · exact h.sock d (.inr hh)
        · exact h.sock _ (.inl hkey)
  · rw [heq]
    exact h.abort (by rcases ha with rfl | rfl <;> simp [Assertion.tolerated]) (by rcases ha with rfl | rfl <;> decide)

theorem pushFront_owned {cfg : Config} {s : St} (h : Owned cfg s) : Owned cfg (pushFront s) := by
  have hi : Inv cfg (pushFront s) := h.registry.same (pushFront_same s)
  unfold pushFront at hi ⊢
  split at hi
  · exact h
  · rename_i c hc
    have hholds : s.holds c := .inr (.inr (.inr hc))
    have hs := startOp_owned h .write (h.known c hholds) (h.sock c (.inr hholds))
    generalize startOp s c .write = t at hs hi
    have hless : ∀ d, St.holds { t with held := none } d → t.holds d := by
      rintro d (hh | hh | hh | hh)
      · exact .inl hh
      · exact .inr (.inl hh)
      · exact .inr (.inr (.inl hh))
      · exact absurd hh (by simp)
    exact ⟨hi, hs.pending, fun d hd => hs.known d (hless d hd), fun d hd hh => hs.free d hd (hless d hh), hs.washed,
      fun d hd => hs.sock d (hd.imp_right (hless d)), hs.opSock, hs.marked, hs.starting, hs.asserts⟩

/-! ## The accept loop -/

theorem acceptTest_owned {cfg : Config} {s : St} (h : Owned cfg s) : Owned cfg (acceptTest cfg s) := by
  refine h.same (acceptTest_inv h.registry) ?_
  unfold acceptTest
  dsimp only
  split_ifs
  · exact ⟨rfl, rfl, rfl, rfl, rfl, rfl, rfl, fun _ => id, fun _ => .inl⟩
  · exact ⟨rfl, rfl, rfl, rfl, rfl, rfl, rfl, fun _ ha => by simp at ha, fun _ => .inl⟩
  · exact ⟨rfl, rfl, rfl, rfl, rfl, rfl, rfl, fun _ => id, fun _ => .inl⟩

/-- registering a connection without any owner -/
theorem register_owned {cfg : Config} {s : St} {c : ℕ} (h : Owned cfg s) (hi : Inv cfg (register s c))
    (hfree : ¬ s.holds c) (hcached : c ∉ s.cachedConns) (hknown : c < s.nextId) (hsock : (s.conns c).sock.isSome)
    (hstats : (s.conns c).stats = .connPending) : Owned cfg (register s c) := by
  have hholds : ∀ d, (register s c).holds d → s.holds d ∨ d = c := by
    rintro d (hh | hh | hh | hh)
    · exact .inl (.inl hh)
    · exact .inl (.inr (.inl hh))
    · exact .inr (Accept.registered.inj hh).symm
    · exact .inl (.inr (.inr (.inr hh)))
  have hkeys : ∀ d, d ∈ (register s c).keys → d ∈ s.keys ∨ d = c := fun d => mem_keys_register
  refine ⟨hi, h.pending, ?_, ?_, h.washed, ?_, h.opSock, h.marked, ?_, h.asserts⟩
  · intro d hd
    rcases hholds d hd with hd | rfl
    · exact h.known d hd
    · exact hknown
  · intro d hd hh
    rcases hholds d hh with hh | rfl
    · exact h.free d hd hh
    · exact hcached hd
  · rintro d (hk | hh)
    · rcases hkeys d hk with hk | rfl
      · exact h.sock d (.inl hk)
      · exact hsock
    · rcases hholds d hh with hh | rfl
      · exact h.sock d (.inr hh)
      · exact hsock
  · intro d hd
    obtain rfl : c = d := Accept.registered.inj hd
    exact ⟨hstats, fun hp => hfree (.inl hp), fun ho => hfree (.inr (.inl ho))⟩

/-- another socket for a connection nobody owns -/
theorem setConn_owned {cfg : Config} {s : St} {c : ℕ} (h : Owned cfg s) (hkeys : c ∉ s.keys)
    (hcached : c ∉ s.cachedConns) (hfree : ¬ s.holds c) (conn : Conn) : Owned cfg (s.setConn c conn) := by
  have hother : ∀ d, d ≠ c → (s.setConn c conn).conns d = s.conns d := by
    intro d hdc
    rw [conns_setConn, if_neg hdc]
  refine ⟨h.registry.same ⟨rfl, rfl, rfl, rfl, rfl, rfl, id⟩, h.pending, h.known, h.free, ?_, ?_, ?_, ?_, ?_,
    h.asserts⟩
  · intro d hd
    rw [hother d (ne_of_mem_of_not_mem hd hcached)]
    exact h.washed d hd
  · intro d hd
    have hdc : d ≠ c := by
      rintro rfl
      exact hd.elim hkeys hfree
    rw [hother d hdc]
    exact h.sock d hd
  · intro op hop
    have hdc : op.conn ≠ c := by
      rintro rfl
      exact hfree (.inr (.inl (List.mem_map_of_mem hop)))
    rw [hother _ hdc]
    exact h.opSock op hop
  · intro d hd
    have hdc : d ≠ c := by
      rintro rfl
      exact hfree (.inl hd)
    rw [hother d hdc]
    exact h.marked d hd
  · intro d hd
    have hdc : d ≠ c := by
      rintro rfl
      exact hfree (.inr (.inr (.inl hd)))
    rw [hother d hdc]
    exact h.starting d hd

theorem acceptInsert_owned {cfg : Config} {s : St} (h : Owned cfg s) : Owned cfg (acceptInsert s) := by
  have hi := acceptInsert_inv h.registry
  have hr := h.registry.registry
  unfold acceptInsert at hi ⊢
  split at hi
  · rename_i sock hsock
    split at hi
    · rename_i c cached hcache
      have hc : c ∈ s.cachedConns := by rw [hcache]; exact List.mem_cons_self
      have hmem : ∀ d ∈ cached, d ∈ s.cachedConns := fun d hd => by rw [hcache]; exact List.mem_cons_of_mem c hd
      have hnodup := hr.nodup
      rw [hcache, List.nodup_cons] at hnodup
      have hout : Owned cfg { s with cachedConns := cached } :=
        ⟨uncache_inv h.registry hcache, h.pending, h.known, fun d hd => h.free d (hmem d hd),
          fun d hd => h.washed d (hmem d hd), h.sock, h.opSock, h.marked, h.starting, h.asserts⟩
      -- its only owner was the cache
      have hzero : St.useCount { s with cachedConns := cached } c = 0 := by
        have hone := useCount_cached h hc
        have hcount : s.cachedConns.count c = cached.count c + 1 := by rw [hcache, List.count_cons_self]
        simp only [St.useCount, St.keys, hcount] at hone ⊢
        omega
      dsimp only at hi ⊢
      rw [if_pos hzero] at hi ⊢
      refine register_owned (setConn_owned hout (hr.disjoint c hc) hnodup.1 (h.free c hc) _) hi (h.free c hc) hnodup.1
        (h.registry.known c (.inr hc)) ?_ ?_
      · rw [conns_setConn, if_pos rfl]
        rfl
      · rw [conns_setConn, if_pos rfl]
        exact h.washed c hc
    · have hnew : s.nextId ∉ s.keys := fun hk => (h.registry.known _ (.inl hk)).false
      have hnc : s.nextId ∉ s.cachedConns := fun hk => (h.registry.known _ (.inr hk)).false
      have hfree : ¬ s.holds s.nextId := fun hh => (h.known _ hh).false
      have hset := setConn_owned h hnew hnc hfree ⟨.connPending, s.now, some sock⟩
      have hfresh : Owned cfg { s.setConn s.nextId ⟨.connPending, s.now, some sock⟩ with nextId := s.nextId + 1 } :=
        ⟨fresh_inv h.registry _, hset.pending, fun d hd => Nat.lt_succ_of_lt (h.known d hd), hset.free, hset.washed,
          hset.sock, hset.opSock, hset.marked, hset.starting, hset.asserts⟩
      refine register_owned hfresh hi hfree hnc (Nat.lt_succ_self _) ?_ ?_
      · show ((s.setConn s.nextId _).conns s.nextId).sock.isSome
        rw [conns_setConn, if_pos rfl]
        rfl
      · show ((s.setConn s.nextId _).conns s.nextId).stats = .connPending
        rw [conns_setConn, if_pos rfl]
  · exact h

theorem acceptStart_owned {cfg : Config} {s : St} (h : Owned cfg s) : Owned cfg (acceptStart s) := by
  unfold acceptStart
  split
  · rename_i c hc
    obtain ⟨-, hnp, hno⟩ := h.starting c hc
    have hheld : s.holds c := .inr (.inr (.inl hc))
    have hnc : c ∉ s.cachedConns := fun hd => h.free c hd hheld
    have hother : ∀ d, d ≠ c →
        (s.setConn c { s.conns c with stats := .connWorking }).conns d = s.conns d := by
      intro d hdc
      rw [conns_setConn, if_neg hdc]
    have hsocks : ∀ d, ((s.setConn c { s.conns c with stats := .connWorking }).conns d).sock = (s.conns d).sock :=
      setConn_common Conn.sock rfl
    have hless : ∀ d, St.holds { s.setConn c { s.conns c with stats := .connWorking } with accept := .listening } d →
        s.holds d := by
      rintro d (hh | hh | hh | hh)
      · exact .inl hh
      · exact .inr (.inl hh)
      · exact absurd hh (by simp)
      · exact .inr (.inr (.inr hh))
    have hstarted : Owned cfg
        { s.setConn c { s.conns c with stats := .connWorking } with accept := .listening } := by
      refine ⟨listening_inv h.registry c _, h.pending, fun d hd => h.known d (hless d hd),
        fun d hd hh => h.free d hd (hless d hh), ?_, ?_, ?_, ?_, fun d ha => by simp at ha, h.asserts⟩
      · intro d hd
        refine (congrArg Conn.stats (hother d ?_)).trans (h.washed d hd)
        rintro rfl
        exact hnc hd
      · intro d hd
        exact (congrArg Option.isSome (hsocks d)).trans (h.sock d (hd.imp_right (hless d)))
      · intro op hop
        exact (hsocks op.conn).trans (h.opSock op hop)
      · intro d hd
        refine (congrArg Conn.stats (hother d ?_)).trans (h.marked d hd)
        rintro rfl
        exact hnp hd
    exact startOp_owned hstarted _ (h.known c hheld)
      ((congrArg Option.isSome (hsocks c)).trans (h.sock c (.inr hheld)))
  · exact h

/-! ## Removal passes

The invariant of the loop is `Owned` with the items still to come in place of the pending set. -/

/-- with the two references of the registry and of the set, c has no other -/
theorem no_more_owners {s : St} {c : ℕ} (hkeys : c ∈ s.keys) (hpending : c ∈ s.pendingToRemove)
    (hcount : s.useCount c ≤ 2) :
    c ∉ s.ops.map AsyncOp.conn ∧ s.accept ≠ .registered c ∧ s.held ≠ some c := by
  have hk := List.count_pos_iff.2 hkeys
  have hp := List.count_pos_iff.2 hpending
  unfold St.useCount at hcount
  refine ⟨fun ho => ?_, fun ha => ?_, fun hh => ?_⟩
  · have := List.count_pos_iff.2 ho
    omega
  · rw [if_pos ha] at hcount
    omega
  · rw [if_pos hh] at hcount
    omega

theorem drop_owned {cfg : Config} {s : St} {c : ℕ} {rest : List ℕ}
    (h : Owned cfg { s with pendingToRemove := c :: rest }) : Owned cfg { s with pendingToRemove := rest } := by
  have hless : ∀ d, St.holds { s with pendingToRemove := rest } d →
      St.holds { s with pendingToRemove := c :: rest } d := fun d hd => hd.imp_left (List.mem_cons_of_mem c)
  exact ⟨h.registry.same ⟨rfl, rfl, rfl, rfl, rfl, rfl, id⟩, (List.nodup_cons.1 h.pending).2,
    fun d hd => h.known d (hless d hd), fun d hd hh => h.free d hd (hless d hh), h.washed,
    fun d hd => h.sock d (hd.imp_right (hless d)), h.opSock, fun d hd => h.marked d (List.mem_cons_of_mem c hd),
    fun d hd => ⟨(h.starting d hd).1, fun hp => (h.starting d hd).2.1 (List.mem_cons_of_mem c hp),
      (h.starting d hd).2.2⟩, h.asserts⟩

theorem skip_owners (s : St) (c : ℕ) : SameOwners s (skip s c) := by
  unfold skip
  split_ifs
  · exact ⟨rfl, rfl, rfl, rfl, rfl, rfl, rfl, fun _ => id, fun _ => .inl⟩
  · exact ⟨rfl, rfl, rfl, rfl, rfl, rfl, rfl, fun _ => id, fun _ => .inl⟩

theorem unregister_owned {cfg : Config} {s : St} {c : ℕ} (h : Owned cfg s) (hc : c ∈ s.keys) :
    Owned cfg (unregister s c) :=
  ⟨unregister_inv h.registry hc, h.pending, h.known, h.free, h.washed,
    fun d hd => h.sock d (hd.imp_left fun hk => (mem_keys_unregister.1 hk).1), h.opSock, h.marked, h.starting,
    h.asserts⟩

/-- washing and caching a connection that has no owner left -/
theorem recycle_owned {cfg : Config} {s : St} {c : ℕ} (h : Owned cfg s) (hi : Inv cfg (recycle s c))
    (hkeys : c ∉ s.keys) (hcached : c ∉ s.cachedConns) (hfree : ¬ s.holds c)
    (hstats : (s.conns c).stats = .connError) : Owned cfg (recycle s c) := by
  have hset := setConn_owned h hkeys hcached hfree { s.conns c with stats := .connPending, sock := none }
  have heq : recycle s c = { s.setConn c { s.conns c with stats := .connPending, sock := none } with
      cachedConns := s.cachedConns ++ [c] } := by
    rw [recycle, if_neg (by rw [hstats]; decide)]
  rw [heq] at hi ⊢
  refine ⟨hi, h.pending, h.known, ?_, ?_, hset.sock, hset.opSock, hset.marked, hset.starting, h.asserts⟩
  · intro d hd
    rcases List.mem_append.1 hd with hd | hd
    · exact h.free d hd
    · rw [List.mem_singleton.1 hd]
      exact hfree
  · intro d hd
    rcases List.mem_append.1 hd with hd | hd
    · exact hset.washed d hd
    · show ((s.setConn c _).conns d).stats = .connPending
      rw [conns_setConn, if_pos (List.mem_singleton.1 hd)]

theorem recycle_setPending (s : St) (c : ℕ) (rest : List ℕ) :
    recycle { s with pendingToRemove := rest } c = { recycle s c with pendingToRemove := rest } := by
  unfold recycle
  split_ifs <;> rfl

/-- what one item of a removal pass comes to -/
theorem manageItem_cases (cfg : Config) (s : St) (c : ℕ) :
    (s.aborted.isSome ∨ c ∉ s.keys) ∧ manageItem cfg s c = s ∨
    s.aborted = none ∧ c ∈ s.keys ∧ cfg.cacheCap ≤ s.cachedConns.length ∧
      manageItem cfg s c = unregister (skip s c) c ∨
    s.aborted = none ∧ c ∈ s.keys ∧ s.cachedConns.length < cfg.cacheCap ∧
      manageItem cfg s c = recycle (unregister (skip s c) c) c := by
  have hcached : (unregister (skip s c) c).cachedConns = s.cachedConns := (skip_same s c).cached
  unfold manageItem
  dsimp only
  by_cases ha : s.aborted.isSome
  · exact .inl ⟨.inl ha, if_pos ha⟩
  rw [if_neg ha]
  rw [Option.not_isSome_iff_eq_none] at ha
  by_cases hc : c ∈ s.keys
  · rw [if_pos hc, hcached]
    rcases Nat.lt_or_ge s.cachedConns.length cfg.cacheCap with hlt | hge
    · exact .inr (.inr ⟨ha, hc, hlt, if_pos hlt⟩)
    · exact .inr (.inl ⟨ha, hc, hge, if_neg (not_lt.2 hge)⟩)
  · exact .inl ⟨.inr hc, if_neg hc⟩

theorem manageItem_owned {cfg : Config} {s : St} {c : ℕ} {rest : List ℕ}
    (h : Owned cfg { s with pendingToRemove := c :: rest }) (hp : c ∈ s.pendingToRemove)
    (hclean : c ∈ s.keys → 2 < s.useCount c → cfg.cacheCap ≤ s.cachedConns.length) :
    Owned cfg { manageItem cfg s c with pendingToRemove := rest } := by
  have hrest := drop_owned h
  have hc : c ∉ rest := (List.nodup_cons.1 h.pending).1
  have hout : c ∈ s.keys → Owned cfg { unregister (skip s c) c with pendingToRemove := rest } := by
    intro hkeys
    have hskip : Owned cfg { skip s c with pendingToRemove := rest } := by
      have hs := skip_owners s c
      exact hrest.same (hrest.registry.same ⟨(skip_same s c).frontConns, hs.cached, (skip_same s c).count, hs.nextId,
        (skip_same s c).refused, (skip_same s c).accept, (skip_same s c).sizeEq⟩)
        ⟨hs.keys, hs.cached, hs.nextId, hs.conns, rfl, hs.ops, hs.held, hs.accept, hs.asserts⟩
    have hmem : c ∈ St.keys { skip s c with pendingToRemove := rest } := (skip_owners s c).keys ▸ hkeys
    exact unregister_owned hskip hmem
  rcases manageItem_cases cfg s c with ⟨-, heq⟩ | ⟨-, hkeys, -, heq⟩ | ⟨-, hkeys, hlt, heq⟩
  · rw [heq]
    exact hrest
  · rw [heq]
    exact hout hkeys
  · have htwo : s.useCount c ≤ 2 := by
      by_contra hgt
      exact absurd (hclean hkeys (not_le.1 hgt)) (not_le.2 hlt)
    obtain ⟨hno, hna, hnh⟩ := no_more_owners hkeys hp htwo
    have hs := skip_owners s c
    have hu := hout hkeys
    have hout' : c ∉ St.keys { unregister (skip s c) c with pendingToRemove := rest } :=
      fun hk => (mem_keys_unregister.1 hk).2 rfl
    have hcached : c ∉ (skip s c).cachedConns := by
      rw [hs.cached]
      exact fun hd => h.registry.registry.disjoint c hd hkeys
    have hfree : ¬ St.holds { unregister (skip s c) c with pendingToRemove := rest } c := by
      rintro (hh | hh | hh | hh)
      · exact hc hh
      · exact hno (hs.ops ▸ hh)
      · exact hna (hs.accept c hh)
      · exact hnh (hs.held ▸ hh)
    have hstats : ((skip s c).conns c).stats = .connError := by
      rw [hs.conns]
      exact h.marked c List.mem_cons_self
    have hs0 : Inv cfg s := h.registry.same ⟨rfl, rfl, rfl, rfl, rfl, rfl, id⟩
    have hinv : Inv cfg { manageItem cfg s c with pendingToRemove := rest } :=
      (manageItem_inv hs0 c).same ⟨rfl, rfl, rfl, rfl, rfl, rfl, id⟩
    rw [heq, ← recycle_setPending] at hinv ⊢
    exact recycle_owned hu hinv hout' hcached hfree hstats

/-- an item leaves the set and the owners other than the registry and the cache alone, and takes nothing from the
cache -/
structure SameHolders (s s' : St) : Prop where
  pending : s'.pendingToRemove = s.pendingToRemove
  ops : s'.ops = s.ops
  accept : s'.accept = s.accept
  held : s'.held = s.held
  cached : ∀ c ∈ s.cachedConns, c ∈ s'.cachedConns

theorem manageItem_holders (cfg : Config) (s : St) (c : ℕ) : SameHolders s (manageItem cfg s c) := by
  have hskip : SameHolders s (skip s c) := by
    unfold skip
    split_ifs
    · exact ⟨rfl, rfl, rfl, rfl, fun _ => id⟩
    · exact ⟨rfl, rfl, rfl, rfl, fun _ => id⟩
  rcases manageItem_cases cfg s c with ⟨-, heq⟩ | ⟨-, -, -, heq⟩ | ⟨-, -, -, heq⟩
  · rw [heq]
    exact ⟨rfl, rfl, rfl, rfl, fun _ => id⟩
  · rw [heq]
    exact ⟨hskip.pending, hskip.ops, hskip.accept, hskip.held, hskip.cached⟩
  · rw [heq]
    unfold recycle
    split_ifs
    · exact ⟨hskip.pending, hskip.ops, hskip.accept, hskip.held, hskip.cached⟩
    · exact ⟨hskip.pending, hskip.ops, hskip.accept, hskip.held, fun d hd =>
        List.mem_append_left _ (hskip.cached d hd)⟩

theorem manageItems_holders (cfg : Config) (order : List ℕ) (s : St) :
    SameHolders s (order.foldl (manageItem cfg) s) := by
  induction order generalizing s with
  | nil => exact ⟨rfl, rfl, rfl, rfl, fun _ => id⟩
  | cons c order ih =>
    have h1 := manageItem_holders cfg s c
    have h2 := ih (manageItem cfg s c)
    exact ⟨h2.pending.trans h1.pending, h2.ops.trans h1.ops, h2.accept.trans h1.accept, h2.held.trans h1.held,
      fun d hd => h2.cached d (h1.cached d hd)⟩

/-- an item changes neither whether another is registered nor how many use it -/
theorem manageItem_other (cfg : Config) (s : St) {c d : ℕ} (hdc : d ≠ c) :
    (d ∈ (manageItem cfg s c).keys ↔ d ∈ s.keys) ∧ (manageItem cfg s c).useCount d = s.useCount d := by
  have hskip : (skip s c).keys = s.keys ∧ (skip s c).useCount d = s.useCount d := by
    unfold skip
    split_ifs
    · exact ⟨rfl, rfl⟩
    · exact ⟨rfl, rfl⟩
  have hout : (d ∈ (unregister (skip s c) c).keys ↔ d ∈ s.keys) ∧
      (unregister (skip s c) c).useCount d = s.useCount d := by
    refine ⟨by rw [mem_keys_unregister, hskip.1]; exact and_iff_left hdc, ?_⟩
    rw [← hskip.2]
    have hcount : (unregister (skip s c) c).keys.count d = (skip s c).keys.count d := by
      rw [keys_unregister]
      exact List.count_filter (by simpa using hdc)
    unfold St.useCount
    rw [hcount]
    rfl
  rcases manageItem_cases cfg s c with ⟨-, heq⟩ | ⟨-, -, -, heq⟩ | ⟨-, -, -, heq⟩
  · rw [heq]
    exact ⟨Iff.rfl, rfl⟩
  · rw [heq]
    exact hout
  · rw [heq]
    generalize unregister (skip s c) c = t at hout
    unfold recycle
    split_ifs
    · exact hout
    · refine ⟨hout.1, Eq.trans ?_ hout.2⟩
      have hcount : (t.cachedConns ++ [c]).count d = t.cachedConns.count d := by
        rw [List.count_append, List.count_singleton, if_neg (by simpa using hdc.symm), Nat.add_zero]
      unfold St.useCount
      rw [hcount]
      rfl

/-- an item that is not working does not fail an assertion, and enters the cache if it is registered and there is
room -/
theorem manageItem_cached {cfg : Config} {s : St} {c : ℕ} (ha : s.aborted = none)
    (hstats : (s.conns c).stats ≠ .connWorking) :
    (manageItem cfg s c).aborted = none ∧
      ((manageItem cfg s c).cachedConns.length =
          (if c ∈ s.keys then s.cachedConns.length + 1 else s.cachedConns.length) ∨
        cfg.cacheCap ≤ s.cachedConns.length ∧ cfg.cacheCap ≤ (manageItem cfg s c).cachedConns.length) := by
  have hs := skip_owners s c
  have hab : (skip s c).aborted = none := by
    unfold skip
    split_ifs
    · exact ha
    · exact ha
  rcases manageItem_cases cfg s c with ⟨hno, heq⟩ | ⟨-, -, hge, heq⟩ | ⟨-, hc, -, heq⟩
  · rw [heq]
    refine ⟨ha, .inl ?_⟩
    rw [if_neg (hno.resolve_left (by simp [ha]))]
  · rw [heq]
    refine ⟨hab, .inr ⟨hge, ?_⟩⟩
    show cfg.cacheCap ≤ (skip s c).cachedConns.length
    rw [hs.cached]
    exact hge
  · have hstats' : ((unregister (skip s c) c).conns c).stats ≠ .connWorking := by
      show ((skip s c).conns c).stats ≠ .connWorking
      rw [hs.conns]
      exact hstats
    rw [heq, recycle, if_neg hstats', if_pos hc]
    refine ⟨hab, .inl ?_⟩
    show ((skip s c).cachedConns ++ [c]).length = _
    rw [hs.cached, List.length_append, List.length_singleton]

/-- what `CleanFrom` reads -/
theorem cleanFrom_congr {cfg : Config} {s t : St} (order : List ℕ) {m n : ℕ}
    (hsame : ∀ d ∈ order, (d ∈ t.keys ↔ d ∈ s.keys) ∧ t.useCount d = s.useCount d)
    (hmn : m = n ∨ cfg.cacheCap ≤ n ∧ cfg.cacheCap ≤ m) : CleanFrom cfg s order n ↔ CleanFrom cfg t order m := by
  induction order generalizing m n with
  | nil => exact Iff.rfl
  | cons c order ih =>
    obtain ⟨hkeys, hcount⟩ := hsame c List.mem_cons_self
    have hrest := fun d hd => hsame d (List.mem_cons_of_mem c hd)
    have hnext : (if c ∈ t.keys then m + 1 else m) = (if c ∈ s.keys then n + 1 else n) ∨
        cfg.cacheCap ≤ (if c ∈ s.keys then n + 1 else n) ∧ cfg.cacheCap ≤ (if c ∈ t.keys then m + 1 else m) := by
      by_cases hc : c ∈ s.keys
      · rw [if_pos hc, if_pos (hkeys.2 hc)]
        omega
      · rw [if_neg hc, if_neg (fun h => hc (hkeys.1 h))]
        exact hmn
    have hfull : cfg.cacheCap ≤ n ↔ cfg.cacheCap ≤ m := by
      rcases hmn with rfl | ⟨hn, hm⟩
      · exact Iff.rfl
      · exact iff_of_true hn hm
    exact and_congr (by rw [hkeys, hcount, hfull]) (ih hrest hnext)

/-- what is left of a pass is clean after an item if it was before -/
theorem cleanFrom_manageItem {cfg : Config} {s : St} {c : ℕ} {order : List ℕ} (ha : s.aborted = none)
    (hstats : (s.conns c).stats ≠ .connWorking) (hc : c ∉ order) :
    CleanFrom cfg s order (if c ∈ s.keys then s.cachedConns.length + 1 else s.cachedConns.length) ↔
      CleanFrom cfg (manageItem cfg s c) order (manageItem cfg s c).cachedConns.length := by
  refine cleanFrom_congr order (fun d hd => manageItem_other cfg s (ne_of_mem_of_not_mem hd hc)) ?_
  rcases (manageItem_cached ha hstats).2 with heq | ⟨hn, hm⟩
  · exact .inl heq
  · refine .inr ⟨hn.trans ?_, hm⟩
    split_ifs
    · exact Nat.le_succ _
    · exact le_rfl

/-- the items still to come, with what the loop knows of them -/
structure Loop (cfg : Config) (s : St) (order : List ℕ) : Prop where
  owned : Owned cfg { s with pendingToRemove := order }
  pending : ∀ c ∈ order, c ∈ s.pendingToRemove
  aborted : s.aborted = none

theorem Loop.item {cfg : Config} {s : St} {c : ℕ} {order : List ℕ} (h : Loop cfg s (c :: order))
    (hclean : c ∈ s.keys → 2 < s.useCount c → cfg.cacheCap ≤ s.cachedConns.length) :
    Loop cfg (manageItem cfg s c) order where
  owned := manageItem_owned h.owned (h.pending c List.mem_cons_self) hclean
  pending := fun d hd => by
    rw [(manageItem_holders cfg s c).pending]
    exact h.pending d (List.mem_cons_of_mem c hd)
  aborted := (manageItem_cached h.aborted (by
    have hm : (s.conns c).stats = .connError := h.owned.marked c List.mem_cons_self
    rw [hm]; decide)).1

theorem Loop.cleanFrom {cfg : Config} {s : St} {c : ℕ} {order : List ℕ} (h : Loop cfg s (c :: order)) :
    CleanFrom cfg s order (if c ∈ s.keys then s.cachedConns.length + 1 else s.cachedConns.length) ↔
      CleanFrom cfg (manageItem cfg s c) order (manageItem cfg s c).cachedConns.length := by
  have hm : (s.conns c).stats = .connError := h.owned.marked c List.mem_cons_self
  exact cleanFrom_manageItem h.aborted (by rw [hm]; decide) (List.nodup_cons.1 h.owned.pending).1

theorem Loop.run {cfg : Config} (order : List ℕ) {s : St} (h : Loop cfg s order)
    (hclean : CleanFrom cfg s order s.cachedConns.length) : Loop cfg (order.foldl (manageItem cfg) s) [] := by
  induction order generalizing s with
  | nil => exact h
  | cons c order ih => exact ih (h.item hclean.1) (h.cleanFrom.1 hclean.2)

/-- nobody but the set holds a cached connection when the pass is over -/
def Unshared (s : St) : Prop :=
  ∀ c ∈ s.cachedConns, c ∉ s.ops.map AsyncOp.conn ∧ s.accept ≠ .registered c ∧ s.held ≠ some c

/-- with more than two references there is another owner -/
theorem shared_of_two_lt {cfg : Config} {s : St} {c : ℕ} (h : Inv cfg s) (hp : s.pendingToRemove.Nodup)
    (hc : c ∈ s.keys) (hcount : 2 < s.useCount c) :
    ¬ (c ∉ s.ops.map AsyncOp.conn ∧ s.accept ≠ .registered c ∧ s.held ≠ some c) := by
  rintro ⟨ho, ha, hh⟩
  have hcached : c ∉ s.cachedConns := fun hd => h.registry.disjoint c hd hc
  have hk := List.nodup_iff_count_le_one.1 h.keys c
  have hp1 := List.nodup_iff_count_le_one.1 hp c
  rw [St.useCount, List.count_eq_zero_of_not_mem hcached, List.count_eq_zero_of_not_mem ho, if_neg ha,
    if_neg hh] at hcount
  omega

theorem Loop.exact {cfg : Config} (order : List ℕ) {s : St} (h : Loop cfg s order) (hp : s.pendingToRemove.Nodup)
    (hend : Unshared (order.foldl (manageItem cfg) s)) : CleanFrom cfg s order s.cachedConns.length := by
  induction order generalizing s with
  | nil => trivial
  | cons c order ih =>
    have hclean : c ∈ s.keys → 2 < s.useCount c → cfg.cacheCap ≤ s.cachedConns.length := by
      intro hc hcount
      by_contra hroom
      have hs : Inv cfg s := h.owned.registry.same ⟨rfl, rfl, rfl, rfl, rfl, rfl, id⟩
      have hshared := shared_of_two_lt hs hp hc hcount
      -- then the item is cached and stays so, with its other owner
      have hin : c ∈ (manageItem cfg s c).cachedConns := by
        rcases manageItem_cases cfg s c with ⟨hno, -⟩ | ⟨-, -, hge, -⟩ | ⟨-, -, -, heq⟩
        · exact absurd hc (hno.resolve_left (by simp [h.aborted]))
        · exact absurd hge hroom
        · have hm : ((skip s c).conns c).stats = .connError := by
            rw [(skip_owners s c).conns]
            exact h.owned.marked c List.mem_cons_self
          have hm' : ((unregister (skip s c) c).conns c).stats ≠ .connWorking := by
            show ((skip s c).conns c).stats ≠ .connWorking
            rw [hm]
            decide
          rw [heq, recycle, if_neg hm']
          exact List.mem_append_right _ (List.mem_singleton_self c)
      have h1 := manageItem_holders cfg s c
      have h2 := manageItems_holders cfg order (manageItem cfg s c)
      have hlast := hend c (h2.cached c hin)
      rw [List.foldl_cons, h2.ops, h1.ops, h2.accept, h1.accept, h2.held, h1.held] at hlast
      exact hshared hlast
    refine ⟨hclean, h.cleanFrom.2 (ih (h.item hclean) ?_ hend)⟩
    rw [(manageItem_holders cfg s c).pending]
    exact hp

theorem loop_start {cfg : Config} {s : St} {order : List ℕ} (h : Owned cfg s) (ha : s.aborted = none)
    (hperm : order.Perm s.pendingToRemove) : Loop cfg s order := by
  have hmem : ∀ d, d ∈ order ↔ d ∈ s.pendingToRemove := fun d => hperm.mem_iff
  have hless : ∀ d, St.holds { s with pendingToRemove := order } d → s.holds d := fun d hd => hd.imp_left (hmem d).1
  refine ⟨⟨h.registry.same ⟨rfl, rfl, rfl, rfl, rfl, rfl, id⟩, hperm.nodup_iff.2 h.pending,
    fun d hd => h.known d (hless d hd), fun d hd hh => h.free d hd (hless d hh), h.washed,
    fun d hd => h.sock d (hd.imp_right (hless d)), h.opSock, fun d hd => h.marked d ((hmem d).1 hd), ?_, h.asserts⟩,
    fun d hd => (hmem d).1 hd, ha⟩
  intro d hd
  obtain ⟨hpend, hnp, hno⟩ := h.starting d hd
  exact ⟨hpend, fun hp => hnp ((hmem d).1 hp), hno⟩

theorem managePass_owned {cfg : Config} {s : St} {order : List ℕ} (h : Owned cfg s) (ha : s.aborted = none)
    (hclean : order.Perm s.pendingToRemove → CleanFrom cfg s order s.cachedConns.length) :
    Owned cfg (managePass cfg s order) := by
  unfold managePass
  dsimp only
  by_cases hperm : order.Perm s.pendingToRemove ∧ order ≠ []
  · have hend := (loop_start h ha hperm.1).run order (hclean hperm.1)
    generalize order.foldl (manageItem cfg) s = t at hend ⊢
    have hsize : t.frontConns.length = t.currentConnsCnt := hend.owned.registry.registry.count.symm
    rw [if_pos hperm, if_neg (by simp [hend.aborted]), if_pos hsize]
    exact hend.owned
  · rw [if_neg hperm]
    exact h

theorem cleanFrom_of_free {cfg : Config} {s : St} {order : List ℕ} (h : Owned cfg s) (ha : s.aborted = none)
    (hperm : order.Perm s.pendingToRemove) (hfree : Free (managePass cfg s order)) :
    CleanFrom cfg s order s.cachedConns.length := by
  by_cases hne : order = []
  · rw [hne]
    trivial
  refine (loop_start h ha hperm).exact order h.pending ?_
  unfold managePass at hfree
  dsimp only at hfree
  rw [if_pos ⟨hperm, hne⟩] at hfree
  generalize order.foldl (manageItem cfg) s = t at hfree ⊢
  -- whatever the pass ends with, its cache and its other owners are those of the loop
  have hsame : ∀ u : St, u.cachedConns = t.cachedConns → u.ops = t.ops → u.accept = t.accept → u.held = t.held →
      Free u → Unshared t := by
    intro u hcached hops haccept hheld hu c hc
    rw [← hcached] at hc
    have hone := hu.alone c hc
    have hpos := List.count_pos_iff.2 hc
    unfold St.useCount at hone
    rw [← hops, ← haccept, ← hheld]
    refine ⟨hu.noOp c hc, fun hacc => ?_, fun hh => ?_⟩
    · rw [if_pos hacc] at hone
      omega
    · rw [if_pos hh] at hone
      omega
  split_ifs at hfree
  all_goals
    refine hsame _ ?_ ?_ ?_ ?_ hfree
    all_goals rfl

/-! ## Results -/

theorem step_owned {cfg : Config} (s : St) (o : Op) (hlegal : Legal s o) (hclean : Clean cfg s o)
    (h : Owned cfg s) : Owned cfg (step cfg s o) := by
  have hi := step_inv s o h.registry
  by_cases ha : s.aborted.isSome
  · unfold step
    rw [if_pos ha]
    exact h
  unfold step at hi ⊢
  rw [if_neg ha] at hi ⊢
  rw [Option.not_isSome_iff_eq_none] at ha
  cases o with
  | advance d => exact h.same hi ⟨rfl, rfl, rfl, rfl, rfl, rfl, rfl, fun _ => id, fun _ => .inl⟩
  | acceptError =>
    dsimp only at hi ⊢
    split_ifs at hi ⊢
    · exact h.same hi ⟨rfl, rfl, rfl, rfl, rfl, rfl, rfl, fun _ hd => by simp at hd, fun _ => .inl⟩
    · exact h
  | acceptTest => exact acceptTest_owned h
  | acceptInsert => exact acceptInsert_owned h
  | acceptStart => exact acceptStart_owned h
  | complete i ec n => exact complete_owned h i ec n
  | setSessionId c sessionId =>
    have hkeys := keys_setSessionId s c sessionId
    dsimp only [setSessionId] at hi hkeys ⊢
    split_ifs at hi hkeys ⊢
    · exact h.same hi ⟨hkeys, rfl, rfl, rfl, rfl, rfl, rfl, fun _ => id, fun _ => .inl⟩
    · exact h
  | lookUp sessionId => exact lookUp_owned h sessionId
  | pushFront => exact pushFront_owned h
  | pushToRemove c =>
    obtain ⟨hstats, hop⟩ := hlegal
    have hholds : s.holds c := .inr (.inl hop)
    have hmark := mark_owned h (h.known c hholds) (fun hc => h.free c hc hholds)
      (fun hc => (h.starting c hc).2.2 hop) (h.sock c (.inr hholds))
    have heq : s.setConn c { s.conns c with stats := .connError } = s := by
      rw [← hstats]
      simp [St.setConn]
    rw [heq] at hmark
    exact hmark
  | tickScan => exact tickScan_owned h
  | tickPush =>
    refine h.same hi ?_
    dsimp only [tickPush]
    split
    · exact ⟨rfl, rfl, rfl, rfl, rfl, rfl, rfl, fun _ => id, fun _ => .inl⟩
    · exact ⟨rfl, rfl, rfl, rfl, rfl, rfl, rfl, fun _ => id, fun _ => .inl⟩
  | managePass order => exact managePass_owned h ha (hclean ha)

theorem clean_of_free {cfg : Config} (s : St) (o : Op) (h : Owned cfg s) (hfree : Free (step cfg s o)) :
    Clean cfg s o := by
  cases o with
  | managePass order =>
    intro ha hperm
    unfold step at hfree
    rw [if_neg (by simp [ha])] at hfree
    exact cleanFrom_of_free h ha hperm hfree
  | _ => trivial

/-- **Exactly when recycling is safe.** The connections in the cache are referenced by nobody else, every operation is
on the socket its connection has, and no assertion about either fails, in every state of a run, if and only if no
removal pass washes an item that somebody else still uses. -/
theorem free_iff_clean (cfg : Config) (now : ℕ) (ops : List Op)
    (hlegal : Meets (step cfg) Legal (init cfg now) ops) :
    Always (step cfg) Free (init cfg now) ops ↔ Meets (step cfg) (Clean cfg) (init cfg now) ops :=
  always_iff_meets (fun _ => Owned.isFree) step_owned (fun s o _ => clean_of_free s o) hlegal (owned_init cfg now)

/-- a write fails while the next head is read -/
def failedWrite : List Op :=
  [.acceptTest, .acceptInsert, .acceptStart, .complete 0 .success 2, .complete 0 .failure 0]

theorem legal_of_no_push {ops : List Op} (h : ∀ c, Op.pushToRemove c ∉ ops) (cfg : Config) (s : St) :
    Meets (step cfg) Legal s ops := by
  apply meets_of_forall
  intro o ho s
  cases o with
  | pushToRemove c => exact absurd ho (h c)
  | _ => trivial

/-- with the read completed before the pass, the connection serves the next client -/
theorem free_iff_clean_served :
    Always (step mainConfig) Free (init mainConfig 0)
      (failedWrite ++ [.complete 0 .operationAborted 0, .managePass [0], .acceptTest, .acceptInsert, .acceptStart]) :=
  (free_iff_clean mainConfig 0 _ (legal_of_no_push (by simp [failedWrite]) _ _)).2 (by decide +kernel)

/-- **Cached with a read outstanding.** The pass finds three references, logs, and washes the connection all the same;
the next client that is given it stops the server. -/
theorem cached_with_read_outstanding :
    Meets (step mainConfig) Legal (init mainConfig 0) (failedWrite ++ [.managePass [0], .acceptTest, .acceptInsert]) ∧
      ¬ Always (step mainConfig) Free (init mainConfig 0)
        (failedWrite ++ [.managePass [0], .acceptTest, .acceptInsert]) ∧
      (run (step mainConfig) (init mainConfig 0) (failedWrite ++ [.managePass [0], .acceptTest, .acceptInsert])).aborted
        = some .useCount := by
  have hend : (run (step mainConfig) (init mainConfig 0)
      (failedWrite ++ [.managePass [0], .acceptTest, .acceptInsert])).aborted = some .useCount := by
    decide +kernel
  exact ⟨legal_of_no_push (by simp [failedWrite]) _ _, fun h => h.last.useCount hend, hend⟩

end AirobotMsgd.FrontServer
