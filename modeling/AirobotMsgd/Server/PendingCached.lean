/-
Pending means cached: what a tick finds in bucket 0.

A connection is pending while it is cached, and between its registration and `start`. The assertion of the tick allows
for the first only. `Parked` says that there is no third case, and that a connection that is being started is registered
and used by nobody else, so that nothing can change its status before `start` does.

Results:
- `seen_iff_started`: no tick finds a pending connection outside the cache, and its assertion never fails, if and only
  if no tick examines an entry of a connection that is registered and not yet started.
- `tick_before_start`: a recycled connection with an older entry in bucket 0 is enough.
-/
import AirobotMsgd.Server.Recycling

namespace AirobotMsgd.FrontServer

open AirobotMsgd.Runs

/-! ## What is claimed -/

/-- what a tick finds pending in bucket 0 is cached -/
def Seen (s : St) (o : Op) : Prop :=
  o = .tickScan → s.tick = none → s.aborted = none →
    ∀ c ∈ s.timingWheel.headD [], s.alive c → (s.conns c).stats = .connPending → c ∈ s.cachedConns

def TickHolds (s : St) : Prop := s.aborted ≠ some .tickCached

/-- no tick examines an entry of a connection between its registration and `start` -/
def Started (s : St) : Op → Prop
  | .tickScan => s.tick = none → s.aborted = none →
      match s.accept with
      | .registered c => c ∉ s.timingWheel.headD []
      | _ => True
  | _ => True

instance (s : St) : (o : Op) → Decidable (Started s o)
  | .tickScan =>
    @instDecidableForall _ _ _ <| @instDecidableForall _ _ _ <| match s.accept with
      | .registered c => inferInstanceAs (Decidable (c ∉ s.timingWheel.headD []))
      | .listening | .tested _ | .stopped => inferInstanceAs (Decidable True)
  | .advance _ | .acceptError | .acceptTest | .acceptInsert | .acceptStart | .complete .. | .setSessionId .. | .lookUp _
  | .pushFront | .pushToRemove _ | .tickPush | .managePass _ => inferInstanceAs (Decidable True)

/-! ## Invariant -/

theorem alive_iff (s : St) (c : ℕ) : s.alive c ↔ c ∈ s.keys ∨ c ∈ s.cachedConns ∨ s.holds c := by
  have halive : s.alive c ↔ 0 < s.useCount c := decide_eq_true_iff
  rw [halive]
  unfold St.useCount St.holds
  simp only [← List.count_pos_iff]
  constructor
  · intro h
    by_contra hno
    simp only [not_or, not_lt, Nat.le_zero] at hno
    obtain ⟨hk, hd, hp, ho, ha, hh⟩ := hno
    rw [hk, hd, hp, ho, if_neg ha, if_neg hh] at h
    exact absurd h (lt_irrefl 0)
  · rintro (h | h | h | h | h | h)
    · omega
    · omega
    · omega
    · omega
    · rw [if_pos h]
      omega
    · rw [if_pos h]
      omega

theorem held_alive {s : St} {c : ℕ} (h : s.held = some c) : s.alive c :=
  (alive_iff s c).2 (.inr (.inr (.inr (.inr (.inr h)))))

/-- registered, not yet started, and used by nobody else -/
structure Starting (s : St) (c : ℕ) : Prop where
  stats : (s.conns c).stats = .connPending
  key : c ∈ s.keys
  notPending : c ∉ s.pendingToRemove
  noOp : c ∉ s.ops.map AsyncOp.conn

def Washed (s : St) : Prop :=
  ∀ c ∈ s.cachedConns, (s.conns c).stats = .connPending ∧ (s.conns c).sock = none

structure Parked (cfg : Config) (s : St) : Prop where
  registry : Inv cfg s
  known : ∀ c, s.holds c → c < s.nextId
  tick : TickHolds s
  washed : s.aborted = none → Washed s
  waiting : s.aborted = none → ∀ c, s.alive c → (s.conns c).stats = .connPending →
    c ∈ s.cachedConns ∨ s.accept = .registered c
  starting : s.aborted = none → ∀ c, s.accept = .registered c → Starting s c

theorem parked_init (cfg : Config) (now : ℕ) : Parked cfg (init cfg now) where
  registry := inv_init cfg now
  known := by simp [init, St.holds]
  tick := by simp [init, TickHolds]
  washed := by simp [init, Washed]
  waiting := fun _ c hc _ => by
    rw [alive_iff] at hc
    simp [init, St.keys, St.holds] at hc
  starting := by simp [init]

theorem Parked.lt_nextId {cfg : Config} {s : St} (h : Parked cfg s) {c : ℕ} (hc : s.alive c) : c < s.nextId := by
  rcases (alive_iff s c).1 hc with hc | hc | hc
  · exact h.registry.known c (.inl hc)
  · exact h.registry.known c (.inr hc)
  · exact h.known c hc

theorem parked_abort {cfg : Config} {s : St} (hi : Inv cfg s) (hk : ∀ c, s.holds c → c < s.nextId)
    (ha : s.aborted ≠ none) (ht : TickHolds s) : Parked cfg s :=
  ⟨hi, hk, ht, fun h => absurd h ha, fun h => absurd h ha, fun h => absurd h ha⟩

/-- what a step does that leaves the accept loop alone: nobody new waits outside the cache, and who is being started
stays so -/
structure Keeps (s s' : St) : Prop where
  cached : ∀ c ∈ s.cachedConns, c ∈ s'.cachedConns
  washed : Washed s → Washed s'
  accept : ∀ c, s'.accept = .registered c ↔ s.accept = .registered c
  waiting : ∀ c, s'.alive c → (s'.conns c).stats = .connPending →
    s.alive c ∧ (s.conns c).stats = .connPending ∨ c ∈ s'.cachedConns
  starting : ∀ c, s.accept = .registered c → Starting s c → Starting s' c
  aborted : s'.aborted = none → s.aborted = none
  tick : s'.aborted = some .tickCached → s.aborted = some .tickCached
  holds : ∀ c, s'.holds c → s.alive c
  nextId : s'.nextId = s.nextId

theorem holds_alive {s : St} {c : ℕ} (h : s.holds c) : s.alive c := (alive_iff s c).2 (.inr (.inr h))

theorem Keeps.refl (s : St) : Keeps s s :=
  ⟨fun _ => id, id, fun _ => Iff.rfl, fun _ ha hs => .inl ⟨ha, hs⟩, fun _ _ => id, id, id, fun _ => holds_alive,
    rfl⟩

theorem Parked.keeps {cfg : Config} {s s' : St} (h : Parked cfg s) (hi : Inv cfg s') (hk : Keeps s s') :
    Parked cfg s' where
  registry := hi
  known := fun c hc => hk.nextId ▸ h.lt_nextId (hk.holds c hc)
  tick := fun ha => h.tick (hk.tick ha)
  washed := fun ha => hk.washed (h.washed (hk.aborted ha))
  waiting := fun ha c hc hs => by
    rcases hk.waiting c hc hs with ⟨hc', hs'⟩ | hcached
    · exact (h.waiting (hk.aborted ha) c hc' hs').imp (hk.cached c) (hk.accept c).2
    · exact .inl hcached
  starting := fun ha c hc => by
    have hc' := (hk.accept c).1 hc
    exact hk.starting c hc' (h.starting (hk.aborted ha) c hc')

/-- the owners become no more, the rest stays -/
theorem keeps_of_less {s s' : St} (hcached : s'.cachedConns = s.cachedConns)
    (haccept : ∀ c, s'.accept = .registered c ↔ s.accept = .registered c)
    (hconns : s'.conns = s.conns) (hkeys : s'.keys = s.keys)
    (hpending : ∀ c ∈ s'.pendingToRemove, c ∈ s.pendingToRemove)
    (hops : ∀ c ∈ s'.ops.map AsyncOp.conn, c ∈ s.ops.map AsyncOp.conn)
    (hheld : ∀ c, s'.held = some c → s.alive c) (haborted : s'.aborted = s.aborted)
    (hnext : s'.nextId = s.nextId) : Keeps s s' where
  cached := fun c hc => hcached ▸ hc
  washed := fun hw => by rw [Washed, hcached, hconns]; exact hw
  accept := haccept
  waiting := fun c hc hs => by
    rw [hconns] at hs
    refine .inl ⟨?_, hs⟩
    rw [alive_iff, hkeys, hcached] at hc
    rcases hc with hc | hc | hc | hc | hc | hc
    · exact (alive_iff s c).2 (.inl hc)
    · exact (alive_iff s c).2 (.inr (.inl hc))
    · exact (alive_iff s c).2 (.inr (.inr (.inl (hpending c hc))))
    · exact (alive_iff s c).2 (.inr (.inr (.inr (.inl (hops c hc)))))
    · exact (alive_iff s c).2 (.inr (.inr (.inr (.inr (.inl ((haccept c).1 hc))))))
    · exact hheld c hc
  starting := fun c _ hc => ⟨hconns ▸ hc.stats, hkeys ▸ hc.key, fun hp => hc.notPending (hpending c hp),
    fun ho => hc.noOp (hops c ho)⟩
  aborted := fun ha => haborted ▸ ha
  tick := fun ha => haborted ▸ ha
  holds := fun c hc => by
    rcases hc with hc | hc | hc | hc
    · exact holds_alive (.inl (hpending c hc))
    · exact holds_alive (.inr (.inl (hops c hc)))
    · exact holds_alive (.inr (.inr (.inl ((haccept c).1 hc))))
    · exact hheld c hc
  nextId := hnext

/-! ## Steps that keep the accept loop -/

theorem abort_parked {cfg : Config} {s : St} (h : Parked cfg s) {a : Assertion} (ha : a ≠ .sizeEq)
    (ht : a ≠ .tickCached) : Parked cfg (s.abort a) :=
  parked_abort (h.registry.same (abort_same s ha)) h.known (by simp [St.abort])
    (by simpa [TickHolds, St.abort] using ht)

theorem startOp_keeps {s : St} {c : ℕ} (hc : s.alive c) (hd : Handler) : Keeps s (startOp s c hd) := by
  unfold startOp
  by_cases hw : (s.conns c).stats = .connWorking
  · rw [if_neg (not_not.2 hw)]
    split
    · exact ⟨fun _ => id, id, fun _ => Iff.rfl, fun _ ha hs => .inl ⟨ha, hs⟩, fun _ _ hc => ⟨hc.1, hc.2, hc.3, hc.4⟩,
        fun ha => by simp [St.abort] at ha, fun ha => by simp [St.abort] at ha, fun _ => holds_alive, rfl⟩
    · rename_i sock _
      have hstats : ∀ d, ((s.setConn c { s.conns c with touchTime := s.now }).conns d).stats = (s.conns d).stats :=
        setConn_common Conn.stats rfl
      have hsocks : ∀ d, ((s.setConn c { s.conns c with touchTime := s.now }).conns d).sock = (s.conns d).sock :=
        setConn_common Conn.sock rfl
      refine ⟨fun _ => id, fun hw d hd => ⟨(hstats d).trans (hw d hd).1, (hsocks d).trans (hw d hd).2⟩,
        fun _ => Iff.rfl, ?_, ?_, id, id, ?_, rfl⟩
      · intro d ha hs
        have hs' : (s.conns d).stats = .connPending := (hstats d).symm.trans hs
        refine .inl ⟨?_, hs'⟩
        rw [alive_iff] at ha ⊢
        rcases ha with ha | ha | ha | ha | ha
        · exact .inl ha
        · exact .inr (.inl ha)
        · exact .inr (.inr (.inl ha))
        · rcases mem_conns_append.1 ha with ha | rfl
          · exact .inr (.inr (.inr (.inl ha)))
          · -- the operation is of a working connection
            exact absurd (hw.symm.trans hs') (by decide)
        · exact .inr (.inr (.inr (.inr ha)))
      · intro d _ hd
        refine ⟨(hstats d).trans hd.stats, hd.key, hd.notPending, ?_⟩
        intro ho
        rcases mem_conns_append.1 ho with ho | rfl
        · exact hd.noOp ho
        · exact absurd (hw.symm.trans hd.stats) (by decide)
      · rintro d (ha | ha | ha)
        · exact holds_alive (.inl ha)
        · rcases mem_conns_append.1 ha with ha | rfl
          · exact holds_alive (.inr (.inl ha))
          · exact hc
        · exact holds_alive (.inr (.inr ha))
  · rw [if_pos hw]
    exact .refl s

/-- `set_stats(conn_error)` and `push_to_remove`, on a connection that is not being started -/
theorem mark_keeps {s : St} {c : ℕ} (halive : s.alive c) (hc : s.accept ≠ .registered c) (hcached : c ∉ s.cachedConns) :
    Keeps s (pushToRemove (s.setConn c { s.conns c with stats := .connError }) c) := by
  have hother : ∀ d, d ≠ c → (s.setConn c { s.conns c with stats := .connError }).conns d = s.conns d := by
    intro d hdc
    rw [conns_setConn, if_neg hdc]
  refine ⟨fun _ => id, ?_, fun _ => Iff.rfl, ?_, ?_, id, id, ?_, rfl⟩
  · intro hw d hd
    have heq := hother d (ne_of_mem_of_not_mem hd hcached)
    exact ⟨(congrArg Conn.stats heq).trans (hw d hd).1, (congrArg Conn.sock heq).trans (hw d hd).2⟩
  · intro d ha hs
    have hdc : d ≠ c := by
      rintro rfl
      change ((s.setConn d { s.conns d with stats := .connError }).conns d).stats = .connPending at hs
      rw [conns_setConn, if_pos rfl] at hs
      cases hs
    refine .inl ⟨?_, (congrArg Conn.stats (hother d hdc)).symm.trans hs⟩
    rw [alive_iff] at ha ⊢
    rcases ha with ha | ha | ha | ha
    · exact .inl ha
    · exact .inr (.inl ha)
    · exact .inr (.inr (.inl ((List.mem_insert_iff.1 ha).resolve_left hdc)))
    · exact .inr (.inr (.inr ha))
  · intro d hd hst
    have hdc : d ≠ c := by
      rintro rfl
      exact hc hd
    exact ⟨(congrArg Conn.stats (hother d hdc)).trans hst.stats, hst.key,
      fun hp => hst.notPending ((List.mem_insert_iff.1 hp).resolve_left hdc), hst.noOp⟩
  · rintro d (ha | ha)
    · rcases List.mem_insert_iff.1 ha with rfl | ha
      · exact halive
      · exact holds_alive (.inl ha)
    · exact holds_alive (.inr ha)

theorem startOp_parked {cfg : Config} {s : St} (h : Parked cfg s) {c : ℕ} (hc : s.alive c) (hd : Handler) :
    Parked cfg (startOp s c hd) :=
  h.keeps (h.registry.same (startOp_same s c hd)) (startOp_keeps hc hd)

theorem perform_parked {cfg : Config} {s : St} {c : ℕ} (h : Parked cfg s) (hop : c ∈ s.ops.map AsyncOp.conn)
    (a : Act) : Parked cfg (perform c s a) ∧ c ∈ (perform c s a).ops.map AsyncOp.conn := by
  have halive : s.alive c := holds_alive (.inr (.inl hop))
  unfold perform
  by_cases ha : s.aborted.isSome
  · rw [if_pos ha]
    exact ⟨h, hop⟩
  rw [if_neg ha]
  cases a with
  | doReadHead => exact ⟨startOp_parked h halive _, mem_ops_startOp _ hop⟩
  | doReadBody => exact ⟨startOp_parked h halive _, mem_ops_startOp _ hop⟩
  | doWrite => exact ⟨startOp_parked h halive _, mem_ops_startOp _ hop⟩
  | notifyConnError =>
    dsimp only
    split
    · exact ⟨abort_parked h (by decide) (by decide), hop⟩
    · rename_i hsock
      rw [Option.not_isSome_iff_eq_none] at ha
      -- a connection with an operation has been started, and one with a socket is not cached
      have haccept : s.accept ≠ .registered c := fun hc => (h.starting ha c hc).noOp hop
      have hcached : c ∉ s.cachedConns := fun hc => by simp [(h.washed ha c hc).2] at hsock
      exact ⟨h.keeps (h.registry.same ⟨rfl, rfl, rfl, rfl, rfl, rfl, id⟩) (mark_keeps halive haccept hcached), hop⟩

theorem performAll_parked {cfg : Config} {c : ℕ} (acts : List Act) {s : St} (h : Parked cfg s)
    (hop : c ∈ s.ops.map AsyncOp.conn) : Parked cfg (acts.foldl (perform c) s) := by
  induction acts generalizing s with
  | nil => exact h
  | cons a acts ih =>
    obtain ⟨h', hop'⟩ := perform_parked h hop a
    exact ih h' hop'

theorem complete_parked {cfg : Config} {s : St} (h : Parked cfg s) (i : ℕ) (ec : Ec) (n : ℕ) :
    Parked cfg (complete s i ec n) := by
  have hi : Inv cfg (complete s i ec n) := h.registry.same (complete_same s i ec n)
  unfold complete at hi ⊢
  split at hi
  · exact h
  · rename_i op hop
    split at hi
    · exact h
    · rename_i acts _
      have hall : Parked cfg (acts.foldl (perform op.conn) s) :=
        performAll_parked acts h (List.mem_map_of_mem (List.mem_of_getElem? hop))
      generalize acts.foldl (perform op.conn) s = t at hall hi ⊢
      refine hall.keeps hi (keeps_of_less rfl (fun _ => Iff.rfl) rfl rfl (fun _ => id) ?_ ?_ rfl rfl)
      · intro d hd
        obtain ⟨o, ho, rfl⟩ := List.mem_map.1 hd
        exact List.mem_map_of_mem (List.eraseIdx_subset ho)
      · exact fun d hd => held_alive hd

theorem lookUp_parked {cfg : Config} {s : St} (h : Parked cfg s) (sessionId : ℕ) :
    Parked cfg (lookUp s sessionId) := by
  have hi : Inv cfg (lookUp s sessionId) := h.registry.same (lookUp_same s sessionId)
  rcases lookUp_cases s sessionId with heq | ⟨c, hkey, heq⟩ | ⟨a, ha, heq⟩
  · rw [heq]
    exact h
  · rw [heq] at hi ⊢
    refine h.keeps hi (keeps_of_less rfl (fun _ => Iff.rfl) rfl rfl (fun _ => id) (fun _ => id) ?_ rfl rfl)
    rintro d hd
    rw [← Option.some.inj hd]
    exact (alive_iff s c).2 (.inl hkey)
  · rw [heq]
    exact abort_parked h (by rcases ha with rfl | rfl <;> decide) (by rcases ha with rfl | rfl <;> decide)

theorem pushFront_parked {cfg : Config} {s : St} (h : Parked cfg s) : Parked cfg (pushFront s) := by
  have hi : Inv cfg (pushFront s) := h.registry.same (pushFront_same s)
  unfold pushFront at hi ⊢
  split at hi
  · exact h
  · rename_i c hc
    have hs := startOp_parked h (held_alive hc) .write
    exact hs.keeps hi (keeps_of_less rfl (fun _ => Iff.rfl) rfl rfl (fun _ => id) (fun _ => id)
      (fun d hd => absurd hd (by simp)) rfl rfl)

theorem setSessionId_parked {cfg : Config} {s : St} (h : Parked cfg s) (c sessionId : ℕ) :
    Parked cfg (setSessionId s c sessionId).1 := by
  have hi := setSessionId_inv h.registry c sessionId
  have hkeys := keys_setSessionId s c sessionId
  unfold setSessionId at hi hkeys ⊢
  split_ifs at hi hkeys ⊢
  · exact h.keeps hi (keeps_of_less rfl (fun _ => Iff.rfl) rfl hkeys (fun _ => id) (fun _ => id)
      (fun d hd => held_alive (by exact hd)) rfl rfl)
  · exact h

/-- an explicit `push_to_remove` changes nothing that waits -/
theorem pushToRemove_parked {cfg : Config} {s : St} (h : Parked cfg s) (ha : s.aborted = none) {c : ℕ}
    (hstats : (s.conns c).stats = .connError) (hop : c ∈ s.ops.map AsyncOp.conn) : Parked cfg (pushToRemove s c) := by
  have hcached : c ∉ s.cachedConns := fun hc => by simp [(h.washed ha c hc).1] at hstats
  have hmark := mark_keeps (holds_alive (.inr (.inl hop))) (fun hc => (h.starting ha c hc).noOp hop) hcached
  have heq : s.setConn c { s.conns c with stats := .connError } = s := by
    rw [← hstats]
    simp [St.setConn]
  rw [heq] at hmark
  exact h.keeps (h.registry.same ⟨rfl, rfl, rfl, rfl, rfl, rfl, id⟩) hmark

/-! ## Ticks -/

theorem tickItem_parked {cfg : Config} {p : St × List ℕ} (h : Parked cfg p.1) {c : ℕ}
    (hc : p.1.accept ≠ .registered c) : Parked cfg (tickItem cfg p c).1 := by
  obtain ⟨s, modi⟩ := p
  simp only [tickItem]
  split_ifs with ha halive hstats hcached htouch
  · exact h
  · exact h
  · exact h
  · rw [Option.not_isSome_iff_eq_none] at ha
    exact absurd (h.waiting ha c (by simpa using halive) hstats) (not_or.2 ⟨hcached, hc⟩)
  · split
    · exact abort_parked h (by decide) (by decide)
    · rw [Option.not_isSome_iff_eq_none] at ha
      exact h.keeps (h.registry.same ⟨rfl, rfl, rfl, rfl, rfl, rfl, id⟩)
        (mark_keeps (by simpa using halive) hc fun hd => hstats (h.washed ha c hd).1)
  · exact h

theorem tickItems_parked {cfg : Config} (bucket : List ℕ) {p : St × List ℕ} (h : Parked cfg p.1)
    (hc : ∀ c ∈ bucket, p.1.accept ≠ .registered c) : Parked cfg (bucket.foldl (tickItem cfg) p).1 := by
  induction bucket generalizing p with
  | nil => exact h
  | cons c bucket ih =>
    apply ih (tickItem_parked h (hc c List.mem_cons_self))
    intro d hd
    rw [(tickItem_same cfg p c).accept]
    exact hc d (List.mem_cons_of_mem c hd)

theorem tickScan_parked {cfg : Config} {s : St} (h : Parked cfg s) (ha : s.aborted = none)
    (hstarted : Started s .tickScan) : Parked cfg (tickScan cfg s) := by
  unfold tickScan
  split
  · rename_i htick
    have hc : ∀ c ∈ s.timingWheel.headD [], s.accept ≠ .registered c := by
      intro c hc haccept
      have hno := hstarted htick ha
      rw [haccept] at hno
      exact hno hc
    have hall := tickItems_parked (s.timingWheel.headD []) (p := (s, s.timingWheel.headD [])) h hc
    exact hall.keeps (hall.registry.same ⟨rfl, rfl, rfl, rfl, rfl, rfl, id⟩)
      (keeps_of_less rfl (fun _ => Iff.rfl) rfl rfl (fun _ => id) (fun _ => id) (fun _ => held_alive) rfl rfl)
  · exact h

theorem tickPush_parked {cfg : Config} {s : St} (h : Parked cfg s) : Parked cfg (tickPush cfg s) := by
  have hi := h.registry.same (tickPush_same cfg s)
  unfold tickPush at hi ⊢
  split at hi
  · exact h.keeps hi
      (keeps_of_less rfl (fun _ => Iff.rfl) rfl rfl (fun _ => id) (fun _ => id) (fun _ => held_alive) rfl rfl)
  · exact h

/-! ## Removal passes -/

theorem unregister_keeps {s : St} {c : ℕ} (hc : s.accept ≠ .registered c) : Keeps s (unregister s c) := by
  refine ⟨fun _ => id, id, fun _ => Iff.rfl, fun d ha hs => .inl ⟨?_, hs⟩, fun d hd hst => ?_, id, id,
    fun _ hd => holds_alive (by exact hd), rfl⟩
  · rw [alive_iff] at ha ⊢
    exact ha.imp_left fun hk => (mem_keys_unregister.1 hk).1
  · have hdc : d ≠ c := by
      rintro rfl
      exact hc hd
    exact ⟨hst.stats, mem_keys_unregister.2 ⟨hst.key, hdc⟩, hst.notPending, hst.noOp⟩

theorem recycle_keeps {s : St} {c : ℕ} (hc : s.accept ≠ .registered c) (hstats : (s.conns c).stats ≠ .connWorking) :
    Keeps s (recycle s c) := by
  have hother : ∀ d, d ≠ c →
      (s.setConn c { s.conns c with stats := .connPending, sock := none }).conns d = s.conns d := by
    intro d hdc
    rw [conns_setConn, if_neg hdc]
  have hself : (s.setConn c { s.conns c with stats := .connPending, sock := none }).conns c =
      { s.conns c with stats := .connPending, sock := none } := by
    rw [conns_setConn, if_pos rfl]
  rw [recycle, if_neg hstats]
  refine ⟨fun d hd => List.mem_append_left _ hd, fun hw d hd => ?_, fun _ => Iff.rfl, fun d ha hs => ?_,
    fun d hd hst => ?_, id, id, fun _ hd => holds_alive (by exact hd), rfl⟩
  · by_cases hdc : d = c
    · rw [hdc]
      exact ⟨congrArg Conn.stats hself, congrArg Conn.sock hself⟩
    · have hd' : d ∈ s.cachedConns := (List.mem_append.1 hd).resolve_right fun h => hdc (List.mem_singleton.1 h)
      exact ⟨(congrArg Conn.stats (hother d hdc)).trans (hw d hd').1,
        (congrArg Conn.sock (hother d hdc)).trans (hw d hd').2⟩
  · by_cases hdc : d = c
    · rw [hdc]
      exact .inr (List.mem_append_right _ (List.mem_singleton_self c))
    · refine .inl ⟨?_, (congrArg Conn.stats (hother d hdc)).symm.trans hs⟩
      rw [alive_iff] at ha ⊢
      rcases ha with ha | ha | ha
      · exact .inl ha
      · exact .inr (.inl ((List.mem_append.1 ha).resolve_right fun h => hdc (List.mem_singleton.1 h)))
      · exact .inr (.inr ha)
  · have hdc : d ≠ c := by
      rintro rfl
      exact hc hd
    exact ⟨(congrArg Conn.stats (hother d hdc)).trans hst.stats, hst.key, hst.notPending, hst.noOp⟩

theorem manageItem_parked {cfg : Config} {s : St} (h : Parked cfg s) {c : ℕ} (hc : c ∈ s.pendingToRemove) :
    Parked cfg (manageItem cfg s c) := by
  have hi := manageItem_inv h.registry c
  have hskip : Parked cfg (skip s c) := by
    have hs := skip_same s c
    refine h.keeps (h.registry.same hs) ?_
    unfold skip
    split_ifs
    · exact keeps_of_less rfl (fun _ => Iff.rfl) rfl rfl (fun _ => id) (fun _ => id) (fun _ => held_alive) rfl rfl
    · exact .refl s
  have hout : s.aborted = none → c ∈ s.keys → (skip s c).accept ≠ .registered c ∧
      Parked cfg (unregister (skip s c) c) := by
    intro ha hkey
    have haccept : (skip s c).accept ≠ .registered c := by
      rw [(skip_same s c).accept]
      exact fun hd => (h.starting ha c hd).notPending hc
    have hkey' : c ∈ (skip s c).keys := by
      rw [(skip_same s c).keys]
      exact hkey
    exact ⟨haccept, hskip.keeps (unregister_inv hskip.registry hkey') (unregister_keeps haccept)⟩
  rcases manageItem_cases cfg s c with ⟨-, heq⟩ | ⟨ha, hkey, -, heq⟩ | ⟨ha, hkey, -, heq⟩
  · rw [heq]
    exact h
  · rw [heq]
    exact (hout ha hkey).2
  · obtain ⟨haccept, hpark⟩ := hout ha hkey
    rw [heq] at hi ⊢
    by_cases hw : ((unregister (skip s c) c).conns c).stats = .connWorking
    · rw [recycle, if_pos hw]
      exact abort_parked hpark (by decide) (by decide)
    · exact hpark.keeps hi (recycle_keeps haccept hw)

theorem manageItems_parked {cfg : Config} (order : List ℕ) {s : St} (h : Parked cfg s)
    (hc : ∀ c ∈ order, c ∈ s.pendingToRemove) : Parked cfg (order.foldl (manageItem cfg) s) := by
  induction order generalizing s with
  | nil => exact h
  | cons c order ih =>
    apply ih (manageItem_parked h (hc c List.mem_cons_self))
    intro d hd
    rw [(manageItem_holders cfg s c).pending]
    exact hc d (List.mem_cons_of_mem c hd)

theorem managePass_parked {cfg : Config} {s : St} (h : Parked cfg s) (order : List ℕ) :
    Parked cfg (managePass cfg s order) := by
  unfold managePass
  dsimp only
  by_cases hperm : order.Perm s.pendingToRemove ∧ order ≠ []
  · rw [if_pos hperm]
    have hall := manageItems_parked order h fun c hc => hperm.1.mem_iff.1 hc
    generalize order.foldl (manageItem cfg) s = t at hall ⊢
    have hclear : Parked cfg { t with pendingToRemove := [] } :=
      hall.keeps (hall.registry.same ⟨rfl, rfl, rfl, rfl, rfl, rfl, id⟩)
        (keeps_of_less rfl (fun _ => Iff.rfl) rfl rfl (fun _ hd => absurd hd List.not_mem_nil) (fun _ => id)
          (fun d hd => held_alive (by exact hd)) rfl rfl)
    have hsize : t.frontConns.length = t.currentConnsCnt := hall.registry.registry.count.symm
    rw [if_pos hsize]
    split_ifs
    · exact hall
    · exact hclear
  · rw [if_neg hperm]
    exact h

/-! ## The accept loop -/

theorem idle_parked {cfg : Config} {s s' : St} (h : Parked cfg s) (hi : Inv cfg s')
    (hcached : s'.cachedConns = s.cachedConns) (hconns : s'.conns = s.conns) (hkeys : s'.keys = s.keys)
    (hpending : s'.pendingToRemove = s.pendingToRemove) (hops : s'.ops = s.ops) (hheld : s'.held = s.held)
    (haborted : s'.aborted = s.aborted) (hnext : s'.nextId = s.nextId) (hidle : ∀ c, s.accept ≠ .registered c)
    (hidle' : ∀ c, s'.accept ≠ .registered c) : Parked cfg s' :=
  h.keeps hi (keeps_of_less hcached (fun c => iff_of_false (hidle' c) (hidle c)) hconns hkeys
    (fun _ hd => hpending ▸ hd) (fun _ hd => hops ▸ hd) (fun _ hd => held_alive (hheld ▸ hd)) haborted hnext)

theorem acceptTest_parked {cfg : Config} {s : St} (h : Parked cfg s) : Parked cfg (acceptTest cfg s) := by
  have hi := acceptTest_inv h.registry
  unfold acceptTest at hi ⊢
  dsimp only at hi ⊢
  split_ifs at hi ⊢ with hc
  · exact idle_parked h hi rfl rfl rfl rfl rfl rfl rfl rfl (fun c hd => by simp [hc.1] at hd)
      (fun c hd => by simp [hc.1] at hd)
  · exact idle_parked h hi rfl rfl rfl rfl rfl rfl rfl rfl (fun c hd => by simp [hc.1] at hd)
      (fun c hd => by simp at hd)
  · exact h

/-- registering a connection nobody owns -/
theorem register_parked {cfg : Config} {s t : St} {c : ℕ} (h : Parked cfg s) (hi : Inv cfg (register t c))
    (hcached : ∀ d ∈ t.cachedConns, d ∈ s.cachedConns ∧ d ≠ c) (hless : ∀ d ∈ s.cachedConns, d ≠ c → d ∈ t.cachedConns)
    (hconns : ∀ d, d ≠ c → t.conns d = s.conns d) (hstats : (t.conns c).stats = .connPending)
    (hkeys : t.keys = s.keys) (hpending : t.pendingToRemove = s.pendingToRemove) (hops : t.ops = s.ops)
    (hheld : t.held = s.held) (haborted : t.aborted = s.aborted) (hidle : ∀ d, s.accept ≠ .registered d)
    (hfree : ¬ s.holds c) (hnew : c ∉ s.keys) (hnext : s.nextId ≤ t.nextId) (hc : c < t.nextId) :
    Parked cfg (register t c) := by
  have hmem : ∀ d, d ∈ (register t c).keys ↔ d ∈ s.keys ∨ d = c := by
    intro d
    have hnew' : c ∉ t.keys := by
      rw [hkeys]
      exact hnew
    rw [keys_register hnew', hkeys, List.mem_append, List.mem_singleton]
  refine ⟨hi, ?_, ?_, ?_, ?_, ?_⟩
  · rintro d (hd | hd | hd | hd)
    · exact (h.known d (.inl (hpending ▸ hd))).trans_le hnext
    · exact (h.known d (.inr (.inl (hops ▸ hd)))).trans_le hnext
    · exact (Accept.registered.inj hd) ▸ hc
    · exact (h.known d (.inr (.inr (.inr (hheld ▸ hd))))).trans_le hnext
  · show t.aborted ≠ some .tickCached
    rw [haborted]
    exact h.tick
  · intro ha d hd
    obtain ⟨hd', hdc⟩ := hcached d hd
    have hw := h.washed (haborted ▸ ha) d hd'
    show (t.conns d).stats = .connPending ∧ (t.conns d).sock = none
    rw [hconns d hdc]
    exact hw
  · intro ha d hd hs
    by_cases hdc : d = c
    · rw [hdc]
      exact .inr rfl
    · have hs' : (s.conns d).stats = .connPending := by
        rw [← hconns d hdc]
        exact hs
      have halive : s.alive d := by
        rw [alive_iff] at hd ⊢
        rcases hd with hd | hd | hd | hd | hd | hd
        · exact .inl (((hmem d).1 hd).resolve_right hdc)
        · exact .inr (.inl (hcached d hd).1)
        · exact .inr (.inr (.inl (hpending ▸ hd)))
        · exact .inr (.inr (.inr (.inl (hops ▸ hd))))
        · exact absurd (Accept.registered.inj hd).symm hdc
        · exact .inr (.inr (.inr (.inr (.inr (hheld ▸ hd)))))
      have hwait := (h.waiting (haborted ▸ ha) d halive hs').resolve_right (hidle d)
      exact .inl (hless d hwait hdc)
  · intro ha d hd
    obtain rfl : c = d := Accept.registered.inj hd
    refine ⟨hstats, (hmem c).2 (.inr rfl), fun hp => hfree (.inl ?_), fun ho => hfree (.inr (.inl ?_))⟩
    · exact hpending ▸ hp
    · exact hops ▸ ho

theorem acceptInsert_parked {cfg : Config} {s : St} (h : Parked cfg s) (ha : s.aborted = none) :
    Parked cfg (acceptInsert s) := by
  have hi := acceptInsert_inv h.registry
  unfold acceptInsert at hi ⊢
  split at hi
  · rename_i sock hsock
    have hidle : ∀ d, s.accept ≠ .registered d := fun d hd => by simp [hsock] at hd
    split at hi
    · rename_i c cached hcache
      have hc : c ∈ s.cachedConns := by rw [hcache]; exact List.mem_cons_self
      have hnodup := h.registry.registry.nodup
      rw [hcache, List.nodup_cons] at hnodup
      dsimp only at hi ⊢
      split_ifs at hi ⊢ with hcount
      · refine register_parked h hi ?_ ?_ ?_ ?_ rfl rfl rfl rfl rfl hidle ?_ (h.registry.registry.disjoint c hc) le_rfl
          (h.registry.known c (.inr hc))
        · intro d hd
          exact ⟨by rw [hcache]; exact List.mem_cons_of_mem c hd, ne_of_mem_of_not_mem hd hnodup.1⟩
        · intro d hd hdc
          rw [hcache] at hd
          exact (List.mem_cons.1 hd).resolve_left hdc
        · intro d hdc
          rw [conns_setConn, if_neg hdc]
        · rw [conns_setConn, if_pos rfl]
          exact (h.washed ha c hc).1
        · -- its count was zero outside the cache
          intro hh
          have halive : St.alive { s with cachedConns := cached } c := (alive_iff _ c).2 (.inr (.inr hh))
          simp [St.alive, hcount] at halive
      · exact parked_abort hi h.known (by simp [St.abort]) (by simp [TickHolds, St.abort])
    · rename_i hcache
      have hnew : s.nextId ∉ s.keys := fun hk => (h.registry.known _ (.inl hk)).false
      have hknown : ¬ s.holds s.nextId := fun hh => (h.known _ hh).false
      refine register_parked h hi ?_ ?_ ?_ ?_ rfl rfl rfl rfl rfl hidle hknown hnew (Nat.le_succ _) (Nat.lt_succ_self _)
      · intro d hd
        exact ⟨hd, fun hdc => (h.registry.known d (.inr hd)).ne hdc⟩
      · exact fun d hd _ => hd
      · intro d hdc
        show (s.setConn s.nextId _).conns d = s.conns d
        rw [conns_setConn, if_neg hdc]
      · show ((s.setConn s.nextId _).conns s.nextId).stats = .connPending
        rw [conns_setConn, if_pos rfl]
  · exact h

theorem acceptStart_parked {cfg : Config} {s : St} (h : Parked cfg s) (ha : s.aborted = none) :
    Parked cfg (acceptStart s) := by
  unfold acceptStart
  split
  · rename_i c hc
    have hi := listening_inv h.registry c { s.conns c with stats := .connWorking }
    have hother : ∀ d, d ≠ c →
        (s.setConn c { s.conns c with stats := .connWorking }).conns d = s.conns d := by
      intro d hdc
      rw [conns_setConn, if_neg hdc]
    refine startOp_parked ⟨hi, ?_, h.tick, ?_, ?_, fun _ d hd => by simp at hd⟩ ?_ _
    · rintro d (hd | hd | hd | hd)
      · exact h.known d (.inl hd)
      · exact h.known d (.inr (.inl hd))
      · exact absurd hd (by simp)
      · exact h.known d (.inr (.inr (.inr hd)))
    · intro ha d hd
      have hdc : d ≠ c := by
        rintro rfl
        exact h.registry.registry.disjoint d hd (h.starting ha d hc).key
      have hw := h.washed ha d hd
      exact ⟨(congrArg Conn.stats (hother d hdc)).trans hw.1, (congrArg Conn.sock (hother d hdc)).trans hw.2⟩
    · intro ha d hd hs
      have hdc : d ≠ c := by
        rintro rfl
        change ((s.setConn d { s.conns d with stats := .connWorking }).conns d).stats = .connPending at hs
        rw [conns_setConn, if_pos rfl] at hs
        cases hs
      have halive : s.alive d := by
        rw [alive_iff] at hd ⊢
        rcases hd with hd | hd | hd | hd | hd | hd
        · exact .inl hd
        · exact .inr (.inl hd)
        · exact .inr (.inr (.inl hd))
        · exact .inr (.inr (.inr (.inl hd)))
        · exact absurd hd (by simp)
        · exact .inr (.inr (.inr (.inr (.inr hd))))
      have hwait := h.waiting ha d halive ((congrArg Conn.stats (hother d hdc)).symm.trans hs)
      refine .inl (hwait.resolve_right fun hd => hdc ?_)
      rw [hc] at hd
      exact (Accept.registered.inj hd).symm
    · exact (alive_iff _ c).2 (.inl (h.starting ha c hc).key)
  · exact h

/-! ## Results -/

theorem step_parked {cfg : Config} (s : St) (o : Op) (hlegal : Legal s o) (hstarted : Started s o)
    (h : Parked cfg s) : Parked cfg (step cfg s o) := by
  have hi := step_inv s o h.registry
  unfold step at hi ⊢
  by_cases ha : s.aborted.isSome
  · rw [if_pos ha]
    exact h
  rw [if_neg ha] at hi ⊢
  rw [Option.not_isSome_iff_eq_none] at ha
  cases o with
  | advance d =>
    exact h.keeps hi (keeps_of_less rfl (fun _ => Iff.rfl) rfl rfl (fun _ => id) (fun _ => id) (fun _ => held_alive)
      rfl rfl)
  | acceptError =>
    dsimp only at hi ⊢
    split_ifs at hi ⊢ with hc
    · exact idle_parked h hi rfl rfl rfl rfl rfl rfl rfl rfl (fun c hd => by simp [hc] at hd)
        (fun c hd => by simp at hd)
    · exact h
  | acceptTest => exact acceptTest_parked h
  | acceptInsert => exact acceptInsert_parked h ha
  | acceptStart => exact acceptStart_parked h ha
  | complete i ec n => exact complete_parked h i ec n
  | setSessionId c sessionId => exact setSessionId_parked h c sessionId
  | lookUp sessionId => exact lookUp_parked h sessionId
  | pushFront => exact pushFront_parked h
  | pushToRemove c => exact pushToRemove_parked h ha hlegal.1 hlegal.2
  | tickScan => exact tickScan_parked h ha hstarted
  | tickPush => exact tickPush_parked h
  | managePass order => exact managePass_parked h order

/-- what waits outside the cache is being started -/
theorem seen_iff {cfg : Config} {s : St} (h : Parked cfg s) (o : Op) : Seen s o ↔ Started s o := by
  cases o with
  | tickScan =>
    constructor
    · intro hseen htick ha
      split
      · rename_i c hc
        intro hmem
        have hst := h.starting ha c hc
        exact h.registry.registry.disjoint c
          (hseen rfl htick ha c hmem (holds_alive (.inr (.inr (.inl hc)))) hst.stats) hst.key
      · trivial
    · intro hstarted _ htick ha c hmem halive hstats
      apply (h.waiting ha c halive hstats).resolve_right
      intro hc
      have hno := hstarted htick ha
      rw [hc] at hno
      exact hno hmem
  | _ => exact iff_of_true (fun ho => by cases ho) trivial

/-- **Exactly when pending means cached.** In every run, whatever a tick finds pending in bucket 0 is cached, and the
tick's assertion does not fail, if and only if no tick examines an entry of a connection that is registered and not yet
started. -/
theorem seen_iff_started (cfg : Config) (now : ℕ) (ops : List Op)
    (hlegal : Meets (step cfg) Legal (init cfg now) ops) :
    Meets (step cfg) Seen (init cfg now) ops ∧ Always (step cfg) TickHolds (init cfg now) ops ↔
      Meets (step cfg) Started (init cfg now) ops := by
  have hiff : Meets (step cfg) Seen (init cfg now) ops ↔ Meets (step cfg) Started (init cfg now) ops :=
    meets_iff_meets (fun s o _ h => seen_iff h o) step_parked hlegal (parked_init cfg now)
  refine ⟨fun h => hiff.1 h.1, fun h => ⟨hiff.2 h, ?_⟩⟩
  have hboth : Meets (step cfg) (fun s o => Legal s o ∧ Started s o) (init cfg now) ops := hlegal.and h
  exact (always_meets (fun s o ho => step_parked s o ho.1 ho.2) (parked_init cfg now) hboth).mono fun _ hs => hs.tick

/-- a connection is recycled, and its first entry reaches bucket 0 -/
def recycledAtFront : List Op :=
  failedWrite ++ [.complete 0 .operationAborted 0, .managePass [0]] ++
    (List.replicate 9 [Op.advance 2, .tickScan, .tickPush]).flatten ++ [.acceptTest, .acceptInsert]

/-- started before the next tick -/
theorem seen_iff_started_recycled :
    Meets (step mainConfig) Seen (init mainConfig 0) (recycledAtFront ++ [.acceptStart, .advance 2, .tickScan]) ∧
      Always (step mainConfig) TickHolds (init mainConfig 0) (recycledAtFront ++ [.acceptStart, .advance 2, .tickScan]) :=
  (seen_iff_started mainConfig 0 _ (legal_of_no_push (by simp [recycledAtFront, failedWrite]) _ _)).2
    (by decide +kernel)

/-- **A tick between the registration and `start`** finds the older entry, and stops the server. -/
theorem tick_before_start :
    Meets (step mainConfig) Legal (init mainConfig 0) (recycledAtFront ++ [.advance 2, .tickScan]) ∧
      ¬ Always (step mainConfig) TickHolds (init mainConfig 0) (recycledAtFront ++ [.advance 2, .tickScan]) := by
  have hend : (run (step mainConfig) (init mainConfig 0) (recycledAtFront ++ [.advance 2, .tickScan])).aborted =
      some .tickCached := by
    decide +kernel
  exact ⟨legal_of_no_push (by simp [recycledAtFront, failedWrite]) _ _, fun h => h.last hend⟩

end AirobotMsgd.FrontServer
