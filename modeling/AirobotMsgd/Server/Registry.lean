/-
The registry of the front server and the bound on admissions.

The counter is kept beside the bimap, and the capacity is tested before the lock is taken. `Inv` strengthens what the
results say: the connections in the registry and in the cache are distinct and known, and between the test and the
insertion there is still room for one. Every step but the locked insertion and a removal pass leaves the registry alone
(`SameRegistry`); a removal pass keeps the invariant connection by connection (`manageItem_inv`).

Results:
- `registry`: in every state of every run the counter is the size of the registry and at most the maximum, nothing is
  both registered and cached, the cache has no duplicate and at most three tenths of the maximum, no insertion has
  failed, and the assertion of `manage_thread` has not.
- `cacheCap_le`: the double computation of the cache's size does not exceed that.
-/
import AirobotMsgd.Server.FrontServer

namespace AirobotMsgd.FrontServer

open AirobotMsgd.Runs

structure Registry (cfg : Config) (s : St) : Prop where
  count : s.currentConnsCnt = s.frontConns.length
  bound : s.currentConnsCnt ≤ cfg.maxServeConnsCnt
  disjoint : ∀ c ∈ s.cachedConns, c ∉ s.keys
  nodup : s.cachedConns.Nodup
  cached : s.cachedConns.length ≤ 3 * cfg.maxServeConnsCnt / 10
  inserted : s.refused = false
  sizeEq : s.aborted ≠ some .sizeEq

/-! ## The size of the cache -/

theorem threeTenths_le : threeTenths ≤ (3 : ℕ) / 10 := by
  norm_num [threeTenths]

/-- **The double computation** is at most three tenths, truncated, for up to 2^49 connections -/
theorem cacheCap_le {cfg : Config} (h : cfg.maxServeConnsCnt ≤ 2 ^ 49) :
    cfg.cacheCap ≤ 3 * cfg.maxServeConnsCnt / 10 := by
  have hexact : Double.roundQ cfg.maxServeConnsCnt = cfg.maxServeConnsCnt :=
    Double.roundQ_natCast (h.trans_lt (by norm_num))
  have hlt : (cfg.maxServeConnsCnt : ℚ) * threeTenths < 2 ^ (48 : ℤ) := by
    have h1 : (cfg.maxServeConnsCnt : ℚ) ≤ 2 ^ 49 := by exact_mod_cast h
    calc (cfg.maxServeConnsCnt : ℚ) * threeTenths ≤ 2 ^ 49 * threeTenths := by
          gcongr
          norm_num [threeTenths]
      _ < 2 ^ (48 : ℤ) := by norm_num [threeTenths]
  rw [Config.cacheCap, hexact]
  exact Double.floor_roundQ_mul_le hlt (by norm_num [threeTenths]) threeTenths_le

/-! ## Invariant -/

structure Inv (cfg : Config) (s : St) : Prop where
  registry : Registry cfg s
  keys : s.keys.Nodup
  known : ∀ c, c ∈ s.keys ∨ c ∈ s.cachedConns → c < s.nextId
  room : ∀ sock, s.accept = .tested sock → s.currentConnsCnt < cfg.maxServeConnsCnt
  tested : ∀ sock, s.accept = .tested sock → s.frontConns.length < 2 ^ 31
  descriptors : s.frontConns.length + s.cachedConns.length ≤ 2 ^ 31

theorem inv_init (cfg : Config) (now : ℕ) : Inv cfg (init cfg now) where
  registry := ⟨rfl, Nat.zero_le _, by simp [init], List.nodup_nil, Nat.zero_le _, rfl, by simp [init]⟩
  keys := List.nodup_nil
  known := by simp [init, St.keys]
  room := by simp [init]
  tested := by simp [init]
  descriptors := by simp [init]

/-- the registry, the cache and the accept loop are left alone, and no removal pass has failed -/
structure SameRegistry (s s' : St) : Prop where
  frontConns : s'.frontConns = s.frontConns
  cached : s'.cachedConns = s.cachedConns
  count : s'.currentConnsCnt = s.currentConnsCnt
  nextId : s'.nextId = s.nextId
  refused : s'.refused = s.refused
  accept : s'.accept = s.accept
  sizeEq : s'.aborted = some .sizeEq → s.aborted = some .sizeEq

theorem SameRegistry.refl (s : St) : SameRegistry s s := ⟨rfl, rfl, rfl, rfl, rfl, rfl, id⟩

theorem SameRegistry.trans {s t u : St} (h : SameRegistry s t) (h' : SameRegistry t u) : SameRegistry s u :=
  ⟨h'.frontConns.trans h.frontConns, h'.cached.trans h.cached, h'.count.trans h.count, h'.nextId.trans h.nextId,
    h'.refused.trans h.refused, h'.accept.trans h.accept, fun ha => h.sizeEq (h'.sizeEq ha)⟩

theorem SameRegistry.keys {s s' : St} (h : SameRegistry s s') : s'.keys = s.keys :=
  congrArg (List.map Prod.fst) h.frontConns

theorem length_keys (s : St) : s.keys.length = s.frontConns.length := List.length_map _

theorem Inv.same {cfg : Config} {s s' : St} (h : Inv cfg s) (hs : SameRegistry s s') : Inv cfg s' := by
  have hlen : s'.frontConns.length = s.frontConns.length := by rw [← length_keys, hs.keys, length_keys]
  have hr := h.registry
  refine ⟨⟨by rw [hs.count, hlen, hr.count], by rw [hs.count]; exact hr.bound, ?_, by rw [hs.cached]; exact hr.nodup,
    by rw [hs.cached]; exact hr.cached, hs.refused.trans hr.inserted, fun ha => hr.sizeEq (hs.sizeEq ha)⟩,
    by rw [hs.keys]; exact h.keys, ?_, ?_, ?_, by rw [hlen, hs.cached]; exact h.descriptors⟩
  · rw [hs.cached, hs.keys]; exact hr.disjoint
  · rw [hs.keys, hs.cached, hs.nextId]; exact h.known
  · rw [hs.accept, hs.count]; exact h.room
  · rw [hs.accept, hlen]; exact h.tested

/-! ## Steps that leave the registry alone -/

theorem abort_same (s : St) {a : Assertion} (ha : a ≠ .sizeEq) : SameRegistry s (s.abort a) :=
  ⟨rfl, rfl, rfl, rfl, rfl, rfl, fun h => absurd (Option.some.inj h) ha⟩

theorem startOp_same (s : St) (c : ℕ) (h : Handler) : SameRegistry s (startOp s c h) := by
  unfold startOp
  split_ifs
  · exact .refl s
  · split
    · exact abort_same s (by decide)
    · exact ⟨rfl, rfl, rfl, rfl, rfl, rfl, id⟩

theorem perform_same (c : ℕ) (s : St) (a : Act) : SameRegistry s (perform c s a) := by
  unfold perform
  split_ifs
  · exact .refl s
  · cases a with
    | doReadHead => exact startOp_same s c _
    | doReadBody => exact startOp_same s c _
    | doWrite => exact startOp_same s c _
    | notifyConnError =>
      dsimp only
      split
      · exact abort_same s (by decide)
      · exact ⟨rfl, rfl, rfl, rfl, rfl, rfl, id⟩

theorem performAll_same (c : ℕ) (s : St) (acts : List Act) : SameRegistry s (acts.foldl (perform c) s) := by
  induction acts generalizing s with
  | nil => exact .refl s
  | cons a acts ih => exact (perform_same c s a).trans (ih _)

theorem complete_same (s : St) (i : ℕ) (ec : Ec) (n : ℕ) : SameRegistry s (complete s i ec n) := by
  unfold complete
  split
  · exact .refl s
  · split
    · exact .refl s
    · exact (performAll_same _ s _).trans ⟨rfl, rfl, rfl, rfl, rfl, rfl, id⟩

theorem keys_setSessionId (s : St) (c sessionId : ℕ) : (setSessionId s c sessionId).1.keys = s.keys := by
  unfold setSessionId
  split_ifs
  · simp only [St.keys, List.map_map]
    apply List.map_congr_left
    intro e _
    simp only [Function.comp_apply]
    split_ifs with he
    · exact he.symm
    · rfl
  · rfl

theorem setSessionId_inv {cfg : Config} {s : St} (h : Inv cfg s) (c sessionId : ℕ) :
    Inv cfg (setSessionId s c sessionId).1 := by
  have hkeys := keys_setSessionId s c sessionId
  have hr := h.registry
  have hlen : (setSessionId s c sessionId).1.frontConns.length = s.frontConns.length := by
    rw [← length_keys, hkeys, length_keys]
  unfold setSessionId at hkeys hlen ⊢
  split_ifs at hkeys hlen ⊢
  · exact ⟨⟨hr.count.trans hlen.symm, hr.bound, fun d hd hk => hr.disjoint d hd (hkeys ▸ hk), hr.nodup, hr.cached,
      hr.inserted, hr.sizeEq⟩, hkeys ▸ h.keys, fun d hd => h.known d (hd.imp_left fun hk => hkeys ▸ hk), h.room,
      fun sock ha => hlen.trans_lt (h.tested sock ha), (Nat.add_le_add_right hlen.le _).trans h.descriptors⟩
  · exact h

/-- what `push_front` comes to with the connection it asks for -/
theorem lookUp_cases (s : St) (sessionId : ℕ) :
    lookUp s sessionId = s ∨ (∃ c ∈ s.keys, lookUp s sessionId = { s with held := some c }) ∨
      ∃ a, (a = .sessionId ∨ a = .unique) ∧ lookUp s sessionId = s.abort a := by
  unfold lookUp requestConnection
  split_ifs with hno hzero hid
  · exact .inl rfl
  · exact absurd (.inr hzero) hno
  · exact .inr (.inr ⟨_, .inl rfl, rfl⟩)
  · split
    · rename_i a ha
      split at ha
      · cases ha
      · cases ha
      · cases ha
        exact .inr (.inr ⟨_, .inr rfl, rfl⟩)
    · exact .inl rfl
    · rename_i c hc
      split at hc
      · cases hc
      · rename_i e he
        cases hc
        have hmem : e ∈ s.frontConns.filter fun e => e.2 = sessionId := by
          rw [he]
          exact List.mem_singleton_self e
        exact .inr (.inl ⟨_, List.mem_map_of_mem (List.mem_filter.1 hmem).1, rfl⟩)
      · cases hc

theorem lookUp_same (s : St) (sessionId : ℕ) : SameRegistry s (lookUp s sessionId) := by
  rcases lookUp_cases s sessionId with heq | ⟨c, -, heq⟩ | ⟨a, ha, heq⟩
  · rw [heq]
    exact .refl s
  · rw [heq]
    exact ⟨rfl, rfl, rfl, rfl, rfl, rfl, id⟩
  · rw [heq]
    exact abort_same s (by rcases ha with rfl | rfl <;> decide)

theorem pushFront_same (s : St) : SameRegistry s (pushFront s) := by
  unfold pushFront
  split
  · exact .refl s
  · exact (startOp_same s _ _).trans ⟨rfl, rfl, rfl, rfl, rfl, rfl, id⟩

theorem tickItem_same (cfg : Config) (p : St × List ℕ) (c : ℕ) : SameRegistry p.1 (tickItem cfg p c).1 := by
  unfold tickItem
  dsimp only
  split_ifs
  · exact .refl _
  · exact .refl _
  · exact .refl _
  · exact abort_same _ (by decide)
  · split
    · exact abort_same _ (by decide)
    · exact ⟨rfl, rfl, rfl, rfl, rfl, rfl, id⟩
  · exact .refl _

theorem tickItems_same (cfg : Config) (p : St × List ℕ) (bucket : List ℕ) :
    SameRegistry p.1 (bucket.foldl (tickItem cfg) p).1 := by
  induction bucket generalizing p with
  | nil => exact .refl _
  | cons c bucket ih => exact (tickItem_same cfg p c).trans (ih _)

theorem tickScan_same (cfg : Config) (s : St) : SameRegistry s (tickScan cfg s) := by
  unfold tickScan
  split
  · have h := tickItems_same cfg (s, s.timingWheel.headD []) (s.timingWheel.headD [])
    exact h.trans ⟨rfl, rfl, rfl, rfl, rfl, rfl, id⟩
  · exact .refl s

theorem tickPush_same (cfg : Config) (s : St) : SameRegistry s (tickPush cfg s) := by
  unfold tickPush
  split
  · exact ⟨rfl, rfl, rfl, rfl, rfl, rfl, id⟩
  · exact .refl s

/-! ## The accept loop -/

theorem acceptTest_inv {cfg : Config} {s : St} (h : Inv cfg s) : Inv cfg (acceptTest cfg s) := by
  unfold acceptTest
  dsimp only
  split_ifs with hc hmax
  · exact h.same ⟨rfl, rfl, rfl, rfl, rfl, rfl, id⟩
  · have hr := h.registry
    exact ⟨⟨hr.count, hr.bound, hr.disjoint, hr.nodup, hr.cached, hr.inserted, hr.sizeEq⟩, h.keys, h.known,
      fun _ _ => not_le.1 hmax, fun _ _ => hc.2, h.descriptors⟩
  · exact h

theorem keys_register {s : St} {c : ℕ} (hc : c ∉ s.keys) : (register s c).keys = s.keys ++ [c] := by
  simp [register, St.keys, show c ∉ s.frontConns.map Prod.fst from hc]

/-- what the bimap holds after a registration -/
theorem mem_register {s : St} {c : ℕ} {e : ℕ × ℕ} (he : e ∈ (register s c).frontConns) :
    e ∈ s.frontConns ∨ e = (c, 0) ∧ c ∉ s.keys := by
  unfold register at he
  dsimp only at he
  split_ifs at he with hc
  · exact .inl he
  · rcases List.mem_append.1 he with he | he
    · exact .inl he
    · exact .inr ⟨List.mem_singleton.1 he, hc⟩

theorem mem_keys_register {s : St} {c d : ℕ} (hd : d ∈ (register s c).keys) : d ∈ s.keys ∨ d = c := by
  obtain ⟨e, he, rfl⟩ := List.mem_map.1 hd
  rcases mem_register he with he | ⟨rfl, -⟩
  · exact .inl (List.mem_map_of_mem he)
  · exact .inr rfl

/-- registering a connection that is known and neither registered nor cached -/
theorem register_inv {cfg : Config} {s : St} (h : Inv cfg s) (hroom : s.currentConnsCnt < cfg.maxServeConnsCnt) {c : ℕ}
    (hkeys : c ∉ s.keys) (hcached : c ∉ s.cachedConns) (hknown : c < s.nextId)
    (hdesc : s.frontConns.length + s.cachedConns.length < 2 ^ 31) : Inv cfg (register s c) := by
  have hr := h.registry
  have hcount := hr.count
  have hmax := cfg.max_lt
  have hk := keys_register hkeys
  have hlen : (register s c).frontConns.length = s.frontConns.length + 1 := by
    rw [← length_keys, hk, List.length_append, length_keys]; rfl
  have hcnt : (register s c).currentConnsCnt = s.currentConnsCnt + 1 := Nat.mod_eq_of_lt (by omega)
  refine ⟨⟨by rw [hcnt, hlen, hcount], by rw [hcnt]; exact hroom, ?_, hr.nodup, hr.cached, ?_, hr.sizeEq⟩, ?_, ?_,
    fun sock ha => by simp [register] at ha, fun sock ha => by simp [register] at ha, ?_⟩
  · intro d hd hdk
    rw [hk, List.mem_append, List.mem_singleton] at hdk
    rcases hdk with hdk | rfl
    · exact hr.disjoint d hd hdk
    · exact hcached hd
  · simp [register, hr.inserted, hkeys]
  · rw [hk]
    exact List.nodup_append.2 ⟨h.keys, List.nodup_singleton c, fun a ha b hb => by
      rw [List.mem_singleton.1 hb]; rintro rfl; exact hkeys ha⟩
  · intro d hd
    rw [hk, List.mem_append, List.mem_singleton] at hd
    rcases hd with (hd | rfl) | hd
    · exact h.known d (.inl hd)
    · exact hknown
    · exact h.known d (.inr hd)
  · rw [hlen]
    show s.frontConns.length + 1 + s.cachedConns.length ≤ 2 ^ 31
    omega

/-- the first cached connection is taken out of the cache -/
theorem uncache_inv {cfg : Config} {s : St} (h : Inv cfg s) {c : ℕ} {cached : List ℕ}
    (hcache : s.cachedConns = c :: cached) : Inv cfg { s with cachedConns := cached } := by
  have hr := h.registry
  have hcap := hr.cached
  have hdesc := h.descriptors
  have hnodup := hr.nodup
  rw [hcache, List.nodup_cons] at hnodup
  have hlen : s.cachedConns.length = cached.length + 1 := by rw [hcache]; rfl
  have hmem : ∀ d ∈ cached, d ∈ s.cachedConns := fun d hd => by rw [hcache]; exact List.mem_cons_of_mem c hd
  refine ⟨⟨hr.count, hr.bound, fun d hd => hr.disjoint d (hmem d hd), hnodup.2, ?_, hr.inserted, hr.sizeEq⟩,
    h.keys, fun d hd => h.known d (hd.imp_right (hmem d)), h.room, h.tested, ?_⟩
  · show cached.length ≤ _
    omega
  · show s.frontConns.length + cached.length ≤ _
    omega

/-- `make_shared` -/
theorem fresh_inv {cfg : Config} {s : St} (h : Inv cfg s) (conn : Conn) :
    Inv cfg { s.setConn s.nextId conn with nextId := s.nextId + 1 } := by
  have hr := h.registry
  exact ⟨⟨hr.count, hr.bound, hr.disjoint, hr.nodup, hr.cached, hr.inserted, hr.sizeEq⟩, h.keys,
    fun d hd => Nat.lt_succ_of_lt (h.known d hd), h.room, h.tested, h.descriptors⟩

/-- the accept loop goes back to listening -/
theorem listening_inv {cfg : Config} {s : St} (h : Inv cfg s) (c : ℕ) (conn : Conn) :
    Inv cfg { s.setConn c conn with accept := .listening } := by
  have hr := h.registry
  exact ⟨⟨hr.count, hr.bound, hr.disjoint, hr.nodup, hr.cached, hr.inserted, hr.sizeEq⟩, h.keys, h.known,
    fun sock ha => by simp at ha, fun sock ha => by simp at ha, h.descriptors⟩

theorem acceptInsert_inv {cfg : Config} {s : St} (h : Inv cfg s) : Inv cfg (acceptInsert s) := by
  have hr := h.registry
  have hdesc := h.descriptors
  unfold acceptInsert
  split
  · rename_i sock hsock
    have hroom := h.room sock hsock
    have htested := h.tested sock hsock
    split
    · rename_i c cached hcache
      have hnodup := hr.nodup
      rw [hcache, List.nodup_cons] at hnodup
      have hc : c ∈ s.cachedConns := by rw [hcache]; exact List.mem_cons_self
      have hlen : s.cachedConns.length = cached.length + 1 := by rw [hcache]; rfl
      have hout := uncache_inv h hcache
      dsimp only
      split_ifs
      · refine register_inv (s := St.setConn { s with cachedConns := cached } c _)
          (hout.same ⟨rfl, rfl, rfl, rfl, rfl, rfl, id⟩) hroom (hr.disjoint c hc) hnodup.1
          (h.known c (.inr hc)) ?_
        show s.frontConns.length + cached.length < _
        omega
      · exact hout.same (abort_same _ (by decide))
    · rename_i hcache
      refine register_inv (fresh_inv h _) hroom (fun hk => (h.known _ (.inl hk)).false)
        (fun hk => (h.known _ (.inr hk)).false) (Nat.lt_succ_self _) ?_
      show s.frontConns.length + s.cachedConns.length < _
      rw [hcache]
      exact htested
  · exact h

theorem acceptStart_inv {cfg : Config} {s : St} (h : Inv cfg s) : Inv cfg (acceptStart s) := by
  unfold acceptStart
  split
  · exact (listening_inv h _ _).same (startOp_same _ _ _)
  · exact h

/-! ## Removal passes -/

theorem skip_same (s : St) (c : ℕ) : SameRegistry s (skip s c) := by
  unfold skip
  split_ifs
  · exact ⟨rfl, rfl, rfl, rfl, rfl, rfl, id⟩
  · exact .refl s

theorem keys_unregister (s : St) (c : ℕ) : (unregister s c).keys = s.keys.filter (· ≠ c) := by
  simp only [unregister, St.keys, List.filter_map, Function.comp_def]

theorem mem_keys_unregister {s : St} {c d : ℕ} : d ∈ (unregister s c).keys ↔ d ∈ s.keys ∧ d ≠ c := by
  simp [keys_unregister]

theorem length_unregister {cfg : Config} {s : St} (h : Inv cfg s) {c : ℕ} (hc : c ∈ s.keys) :
    (unregister s c).frontConns.length + 1 = s.frontConns.length := by
  have herase : (unregister s c).keys = s.keys.erase c := by
    rw [keys_unregister, h.keys.erase_eq_filter]
    exact List.filter_congr fun d _ => by by_cases hd : d = c <;> simp [hd]
  have hpos := List.length_pos_of_mem hc
  rw [← length_keys, herase, List.length_erase_of_mem hc, ← length_keys]
  omega

theorem currentConnsCnt_unregister (s : St) (c : ℕ) :
    (unregister s c).currentConnsCnt = (s.currentConnsCnt + 2 ^ 64 - 1) % 2 ^ 64 := by
  simp only [unregister]

theorem count_unregister {cfg : Config} {s : St} (h : Inv cfg s) {c : ℕ} (hc : c ∈ s.keys) :
    (unregister s c).currentConnsCnt + 1 = s.currentConnsCnt := by
  have hpos : 0 < s.currentConnsCnt := by
    rw [h.registry.count, ← length_keys]
    exact List.length_pos_of_mem hc
  have hlt : s.currentConnsCnt < 2 ^ 64 := h.registry.bound.trans_lt cfg.max_lt
  rw [currentConnsCnt_unregister]
  omega

/-- a registered connection leaves the registry -/
theorem unregister_inv {cfg : Config} {s : St} (h : Inv cfg s) {c : ℕ} (hc : c ∈ s.keys) :
    Inv cfg (unregister s c) := by
  have hr := h.registry
  have hlen := length_unregister h hc
  have hcnt := count_unregister h hc
  refine ⟨⟨Nat.add_right_cancel (hcnt.trans (hr.count.trans hlen.symm)), Nat.le_of_succ_le (hcnt.trans_le hr.bound),
    fun d hd hk => hr.disjoint d hd (mem_keys_unregister.1 hk).1, hr.nodup, hr.cached, hr.inserted, hr.sizeEq⟩,
    ?_, fun d hd => h.known d (hd.imp_left fun hk => (mem_keys_unregister.1 hk).1),
    fun sock ha => Nat.lt_of_succ_lt (hcnt.trans_lt (h.room sock ha)),
    fun sock ha => Nat.lt_of_succ_lt (hlen.trans_lt (h.tested sock ha)),
    (Nat.add_le_add_right (Nat.le_of_succ_le hlen.le) _).trans h.descriptors⟩
  rw [keys_unregister]
  exact h.keys.filter _

/-- a known connection that is neither registered nor cached enters the cache, below its capacity -/
theorem recycle_inv {cfg : Config} {s : St} (h : Inv cfg s) {c : ℕ} (hkeys : c ∉ s.keys) (hcached : c ∉ s.cachedConns)
    (hknown : c < s.nextId) (hdesc : s.frontConns.length + s.cachedConns.length < 2 ^ 31)
    (hcap : s.cachedConns.length < cfg.cacheCap) : Inv cfg (recycle s c) := by
  have hr := h.registry
  unfold recycle
  split_ifs
  · exact h.same (abort_same s (by decide))
  · -- up to 2^49 connections the double is right; beyond, the cache is bounded by the descriptors
    have hthird : s.cachedConns.length + 1 ≤ 3 * cfg.maxServeConnsCnt / 10 := by
      rcases Nat.lt_or_ge (2 ^ 49) cfg.maxServeConnsCnt with hbig | hsmall
      · omega
      · have := cacheCap_le hsmall
        omega
    refine ⟨⟨hr.count, hr.bound, ?_, ?_, ?_, hr.inserted, hr.sizeEq⟩, h.keys, ?_, h.room, h.tested, ?_⟩
    · intro d hd
      rcases List.mem_append.1 hd with hd | hd
      · exact hr.disjoint d hd
      · rw [List.mem_singleton.1 hd]
        exact hkeys
    · exact List.nodup_append.2 ⟨hr.nodup, List.nodup_singleton c, fun a ha b hb => by
        rw [List.mem_singleton.1 hb]; rintro rfl; exact hcached ha⟩
    · show (s.cachedConns ++ [c]).length ≤ _
      simpa using hthird
    · rintro d (hd | hd)
      · exact h.known d (.inl hd)
      · rcases List.mem_append.1 hd with hd | hd
        · exact h.known d (.inr hd)
        · rw [List.mem_singleton.1 hd]
          exact hknown
    · show s.frontConns.length + (s.cachedConns ++ [c]).length ≤ 2 ^ 31
      simp only [List.length_append, List.length_singleton]
      omega

theorem manageItem_inv {cfg : Config} {s : St} (h : Inv cfg s) (c : ℕ) : Inv cfg (manageItem cfg s c) := by
  unfold manageItem
  dsimp only
  by_cases ha : s.aborted.isSome
  · rw [if_pos ha]
    exact h
  rw [if_neg ha]
  by_cases hc : c ∈ s.keys
  · rw [if_pos hc]
    have hskip := h.same (skip_same s c)
    have hc' : c ∈ (skip s c).keys := by rw [(skip_same s c).keys]; exact hc
    have hout := unregister_inv hskip hc'
    split_ifs with hcap
    · have hdesc : (unregister (skip s c) c).frontConns.length + (skip s c).cachedConns.length < 2 ^ 31 := by
        have hlen := length_unregister hskip hc'
        have hall := hskip.descriptors
        generalize (unregister (skip s c) c).frontConns.length = n at hlen ⊢
        omega
      exact recycle_inv hout (fun hk => (mem_keys_unregister.1 hk).2 rfl)
        (fun hk => hskip.registry.disjoint c hk hc') (hskip.known c (.inl hc')) hdesc hcap
    · exact hout
  · rw [if_neg hc]
    exact h

theorem managePass_inv {cfg : Config} {s : St} (h : Inv cfg s) (order : List ℕ) : Inv cfg (managePass cfg s order) := by
  have hitems : ∀ (order : List ℕ) (s : St), Inv cfg s → Inv cfg (order.foldl (manageItem cfg) s) := by
    intro order
    induction order with
    | nil => exact fun s hs => hs
    | cons c order ih => exact fun s hs => ih _ (manageItem_inv hs c)
  unfold managePass
  dsimp only
  split_ifs with _ _ hsize
  · exact hitems order s h
  · exact (hitems order s h).same ⟨rfl, rfl, rfl, rfl, rfl, rfl, id⟩
  · exact absurd (hitems order s h).registry.count.symm hsize
  · exact h

theorem acceptError_inv {cfg : Config} {s : St} (h : Inv cfg s) :
    Inv cfg (if s.accept = .listening then { s with accept := .stopped } else s) := by
  have hr := h.registry
  split_ifs
  · exact ⟨⟨hr.count, hr.bound, hr.disjoint, hr.nodup, hr.cached, hr.inserted, hr.sizeEq⟩, h.keys, h.known,
      fun sock ha => by simp at ha, fun sock ha => by simp at ha, h.descriptors⟩
  · exact h

theorem step_inv {cfg : Config} (s : St) (o : Op) (h : Inv cfg s) : Inv cfg (step cfg s o) := by
  unfold step
  by_cases ha : s.aborted.isSome
  · rw [if_pos ha]
    exact h
  rw [if_neg ha]
  cases o with
  | advance d => exact h.same ⟨rfl, rfl, rfl, rfl, rfl, rfl, id⟩
  | acceptError => exact acceptError_inv h
  | acceptTest => exact acceptTest_inv h
  | acceptInsert => exact acceptInsert_inv h
  | acceptStart => exact acceptStart_inv h
  | complete i ec n => exact h.same (complete_same s i ec n)
  | setSessionId c sessionId => exact setSessionId_inv h c sessionId
  | lookUp sessionId => exact h.same (lookUp_same s sessionId)
  | pushFront => exact h.same (pushFront_same s)
  | pushToRemove c => exact h.same ⟨rfl, rfl, rfl, rfl, rfl, rfl, id⟩
  | tickScan => exact h.same (tickScan_same cfg s)
  | tickPush => exact h.same (tickPush_same cfg s)
  | managePass order => exact managePass_inv h order

/-- **The registry and the bound on admissions**, in every state of every run. -/
theorem registry (cfg : Config) (now : ℕ) (ops : List Op) :
    Always (step cfg) (Registry cfg) (init cfg now) ops :=
  (always_run step_inv (inv_init cfg now)).mono fun _ h => h.registry

end AirobotMsgd.FrontServer
