/-
The timing wheel: no connection escapes expiry.

Bucket 0 is examined, then rotated to the back with what is left of it. `Scheduled` ties every registered connection to
one of its entries: when that entry is examined next, the connection has been untouched for less than 2E - s seconds.
The invariant carries it through the scan (`front_modi` stands for bucket 0 from then on), the rotation, and the
insertions of the two other threads into the last bucket.

Results:
- `no_escape`: in every run whose ticks are s seconds apart, up to the first failed assertion, each registered
  connection has an entry or a removal request, a tick asks for the removal of a connection only after E - s seconds
  without a touch, and a connection without a removal request was touched less than 2E - s seconds ago.

Premises: a tick begins when its timer expires, s seconds after the one before (`Timely`). All times are readings in whole
seconds of one clock, the `local_time()` of the code, which never goes back: nobody sets it.
-/
import AirobotMsgd.Server.Registry

namespace AirobotMsgd.FrontServer

open AirobotMsgd.Runs

/-! ## What is claimed -/

structure Expiry (cfg : Config) (s : St) : Prop where
  somewhere : ∀ c ∈ s.keys, (∃ bucket ∈ s.timingWheel, c ∈ bucket) ∨ c ∈ s.pendingToRemove
  touched : ∀ c ∈ s.keys, c ∉ s.pendingToRemove →
    s.now < (s.conns c).touchTime + (2 * cfg.connExpiredTime - cfg.connCheckSpare)

/-- what a tick adds to the pending set has been untouched for E - s seconds -/
def ExpiredOnly (cfg : Config) (s : St) (o : Op) : Prop :=
  o = .tickScan → ∀ c ∈ (step cfg s o).pendingToRemove, c ∉ s.pendingToRemove →
    (s.conns c).touchTime + (cfg.connExpiredTime - cfg.connCheckSpare) ≤ s.now

/-- a tick begins when its timer expires -/
def Timely (s : St) : Op → Prop
  | .advance d => s.now + d ≤ s.nextTick
  | .tickScan => s.tick = none → s.now = s.nextTick
  | _ => True

instance (s : St) : (o : Op) → Decidable (Timely s o)
  | .advance d => inferInstanceAs (Decidable (s.now + d ≤ s.nextTick))
  | .tickScan => inferInstanceAs (Decidable (s.tick = none → s.now = s.nextTick))
  | .acceptError | .acceptTest | .acceptInsert | .acceptStart | .complete .. | .setSessionId .. | .lookUp _ | .pushFront
  | .pushToRemove _ | .tickPush | .managePass _ => inferInstanceAs (Decidable True)

/-! ## The wheel -/

def St.bucket (s : St) (i : ℕ) : List ℕ := s.timingWheel.getD i []

/-- N · s -/
def Config.round (cfg : Config) : ℕ := cfg.capacity * cfg.connCheckSpare

theorem round_le (cfg : Config) : cfg.round ≤ cfg.connExpiredTime := Nat.mul_div_le _ _

theorem spare_lt (cfg : Config) : cfg.connCheckSpare < cfg.connExpiredTime :=
  Nat.div_lt_self (Nat.zero_lt_of_lt cfg.lt_expired) cfg.two_le

theorem length_insertBack (c : ℕ) (wheel : List (List ℕ)) : (insertBack c wheel).length = wheel.length := by
  fun_induction insertBack c wheel with
  | case1 => rfl
  | case2 b => rfl
  | case3 b bs _ ih => rw [List.length_cons, ih, List.length_cons]

theorem subset_insertBack (c : ℕ) (wheel : List (List ℕ)) (i : ℕ) :
    wheel.getD i [] ⊆ (insertBack c wheel).getD i [] := by
  fun_induction insertBack c wheel generalizing i with
  | case1 => exact fun _ => id
  | case2 b =>
    cases i with
    | zero => exact fun d hd => List.mem_insert_of_mem hd
    | succ i => exact fun _ => id
  | case3 b bs _ ih =>
    cases i with
    | zero => exact fun _ => id
    | succ i => exact ih i

/-- the last bucket has the connection -/
theorem mem_insertBack (c : ℕ) {wheel : List (List ℕ)} (h : 0 < wheel.length) :
    c ∈ (insertBack c wheel).getD (wheel.length - 1) [] := by
  fun_induction insertBack c wheel with
  | case1 => exact absurd h (lt_irrefl 0)
  | case2 b => exact List.mem_insert_self
  | case3 b bs hne ih =>
    have hpos : 0 < bs.length := List.length_pos_iff.2 hne
    have hlen : (b :: bs).length - 1 = (bs.length - 1) + 1 := by
      rw [List.length_cons]
      omega
    rw [hlen]
    exact ih hpos

/-! ## Invariant -/

/-- an entry of c is examined early enough; during a tick bucket 0 counts as far as `front_modi` has it -/
def Scheduled (cfg : Config) (s : St) (c : ℕ) : Prop :=
  match s.tick with
  | none => ∃ i, c ∈ s.bucket i ∧
      s.nextTick + i * cfg.connCheckSpare <
        (s.conns c).touchTime + (cfg.connExpiredTime - cfg.connCheckSpare) + cfg.round
  | some modi => (∃ i, c ∈ s.bucket (i + 1) ∧
      s.nextTick + i * cfg.connCheckSpare <
        (s.conns c).touchTime + (cfg.connExpiredTime - cfg.connCheckSpare) + cfg.round) ∨
    c ∈ modi ∧ s.nextTick + (cfg.capacity - 1) * cfg.connCheckSpare <
      (s.conns c).touchTime + (cfg.connExpiredTime - cfg.connCheckSpare) + cfg.round

structure Wheel (cfg : Config) (s : St) : Prop where
  registry : Inv cfg s
  length : s.timingWheel.length = cfg.capacity
  clock : s.now ≤ s.nextTick
  next : s.nextTick ≤ s.now + cfg.connCheckSpare
  touch : ∀ c, (s.conns c).touchTime ≤ s.now
  modi : ∀ modi, s.tick = some modi → modi ⊆ s.bucket 0
  scheduled : s.aborted = none → ∀ c ∈ s.keys, c ∉ s.pendingToRemove → Scheduled cfg s c

theorem wheel_init (cfg : Config) (now : ℕ) : Wheel cfg (init cfg now) where
  registry := inv_init cfg now
  length := List.length_replicate
  clock := Nat.le_add_right now _
  next := le_rfl
  touch := fun _ => le_rfl
  modi := by simp [init]
  scheduled := by simp [init, St.keys]

theorem bucket_mem {s : St} {c i : ℕ} (h : c ∈ s.bucket i) : ∃ b ∈ s.timingWheel, c ∈ b := by
  unfold St.bucket at h
  rw [List.getD_eq_getElem?_getD] at h
  cases hi : s.timingWheel[i]? with
  | none => simp [hi] at h
  | some b =>
    rw [hi, Option.getD_some] at h
    exact ⟨b, List.mem_of_getElem? hi, h⟩

theorem Wheel.expiry {cfg : Config} {s : St} (h : Wheel cfg s) (ha : s.aborted = none) : Expiry cfg s := by
  have hround := round_le cfg
  have hspare := spare_lt cfg
  have hclock := h.clock
  constructor
  · intro c hc
    by_cases hp : c ∈ s.pendingToRemove
    · exact .inr hp
    have hs := h.scheduled ha c hc hp
    unfold Scheduled at hs
    split at hs
    · obtain ⟨i, hi, -⟩ := hs
      exact .inl (bucket_mem hi)
    · rename_i modi htick
      rcases hs with ⟨i, hi, -⟩ | ⟨hmem, -⟩
      · exact .inl (bucket_mem hi)
      · exact .inl (bucket_mem (h.modi modi htick hmem))
  · intro c hc hp
    have hs := h.scheduled ha c hc hp
    unfold Scheduled at hs
    split at hs
    · obtain ⟨i, -, hi⟩ := hs
      omega
    · rcases hs with ⟨i, -, hi⟩ | ⟨-, hi⟩
      · omega
      · omega

/-! ## Steps that keep the entries -/

/-- no connection is registered, no entry lost and no touch taken back; the clock and the timer stand still -/
structure Grows (s s' : St) : Prop where
  keys : ∀ c ∈ s'.keys, c ∉ s'.pendingToRemove → c ∈ s.keys ∧ c ∉ s.pendingToRemove
  length : s'.timingWheel.length = s.timingWheel.length
  buckets : ∀ i, s.bucket i ⊆ s'.bucket i
  touch : ∀ c, (s'.conns c).touchTime = (s.conns c).touchTime ∨ (s'.conns c).touchTime = s.now
  tick : s'.tick = s.tick
  nextTick : s'.nextTick = s.nextTick
  now : s'.now = s.now
  aborted : s'.aborted = none → s.aborted = none

theorem Grows.refl (s : St) : Grows s s :=
  ⟨fun _ hc hp => ⟨hc, hp⟩, rfl, fun _ _ => id, fun _ => .inl rfl, rfl, rfl, rfl, id⟩

theorem Grows.trans {s t u : St} (h : Grows s t) (h' : Grows t u) : Grows s u where
  keys := fun c hc hp => (fun h1 => h.keys c h1.1 h1.2) (h'.keys c hc hp)
  length := h'.length.trans h.length
  buckets := fun i _ hd => h'.buckets i (h.buckets i hd)
  touch := fun c => (h'.touch c).elim (fun h1 => h1 ▸ h.touch c) fun h1 => .inr (h1.trans h.now)
  tick := h'.tick.trans h.tick
  nextTick := h'.nextTick.trans h.nextTick
  now := h'.now.trans h.now
  aborted := fun ha => h.aborted (h'.aborted ha)

theorem Grows.touch_le {s s' : St} (h : Grows s s') (ht : ∀ c, (s.conns c).touchTime ≤ s.now) (c : ℕ) :
    (s.conns c).touchTime ≤ (s'.conns c).touchTime ∧ (s'.conns c).touchTime ≤ s.now := by
  rcases h.touch c with heq | heq
  · exact ⟨heq.ge, heq.le.trans (ht c)⟩
  · exact ⟨(ht c).trans heq.ge, heq.le⟩

/-- more entries and a later touch keep a connection scheduled -/
theorem Scheduled.mono {cfg : Config} {s s' : St} {c : ℕ} (hs : Scheduled cfg s c) (htick : s'.tick = s.tick)
    (hnext : s'.nextTick = s.nextTick) (hbuckets : ∀ i, s.bucket i ⊆ s'.bucket i)
    (ht : (s.conns c).touchTime ≤ (s'.conns c).touchTime) : Scheduled cfg s' c := by
  unfold Scheduled at hs ⊢
  rw [htick, hnext]
  split at hs
  · obtain ⟨i, hi, hlt⟩ := hs
    exact ⟨i, hbuckets i hi, by omega⟩
  · rcases hs with ⟨i, hi, hlt⟩ | ⟨hm, hlt⟩
    · exact .inl ⟨i, hbuckets (i + 1) hi, by omega⟩
    · exact .inr ⟨hm, by omega⟩

theorem Wheel.grows {cfg : Config} {s s' : St} (h : Wheel cfg s) (hi : Inv cfg s') (hg : Grows s s') :
    Wheel cfg s' where
  registry := hi
  length := hg.length.trans h.length
  clock := by rw [hg.now, hg.nextTick]; exact h.clock
  next := by rw [hg.now, hg.nextTick]; exact h.next
  touch := fun c => hg.now ▸ (hg.touch_le h.touch c).2
  modi := fun modi hm _ hd => hg.buckets 0 (h.modi modi (hg.tick ▸ hm) hd)
  scheduled := fun ha c hc hp => by
    obtain ⟨hc', hp'⟩ := hg.keys c hc hp
    exact (h.scheduled (hg.aborted ha) c hc' hp').mono hg.tick hg.nextTick hg.buckets (hg.touch_le h.touch c).1

theorem abort_grows (s : St) (a : Assertion) : Grows s (s.abort a) :=
  ⟨fun _ hc hp => ⟨hc, hp⟩, rfl, fun _ _ => id, fun _ => .inl rfl, rfl, rfl, rfl, fun ha => by simp [St.abort] at ha⟩

theorem setConn_touch (s : St) (c : ℕ) (conn : Conn)
    (h : conn.touchTime = (s.conns c).touchTime ∨ conn.touchTime = s.now) (d : ℕ) :
    ((s.setConn c conn).conns d).touchTime = (s.conns d).touchTime ∨
      ((s.setConn c conn).conns d).touchTime = s.now := by
  unfold St.setConn
  dsimp only
  by_cases hd : d = c
  · rw [hd, Function.update_self]
    exact h
  · rw [Function.update_of_ne hd]
    exact .inl rfl

theorem startOp_grows (s : St) (c : ℕ) (hd : Handler) : Grows s (startOp s c hd) := by
  unfold startOp
  split_ifs
  · exact .refl s
  · split
    · exact abort_grows s _
    · exact ⟨fun _ hc hp => ⟨hc, hp⟩, rfl, fun _ _ => id, setConn_touch s c _ (.inr rfl), rfl, rfl, rfl, id⟩

/-- `set_stats(conn_error)` and `push_to_remove` -/
theorem mark_grows (s : St) (c : ℕ) :
    Grows s (pushToRemove (s.setConn c { s.conns c with stats := .connError }) c) :=
  ⟨fun _ hc hp => ⟨hc, fun hd => hp (List.mem_insert_of_mem hd)⟩, rfl, fun _ _ => id,
    setConn_touch s c _ (.inl rfl), rfl, rfl, rfl, id⟩

theorem perform_grows (c : ℕ) (s : St) (a : Act) : Grows s (perform c s a) := by
  unfold perform
  split_ifs
  · exact .refl s
  · cases a with
    | doReadHead => exact startOp_grows s c _
    | doReadBody => exact startOp_grows s c _
    | doWrite => exact startOp_grows s c _
    | notifyConnError =>
      dsimp only
      split
      · exact abort_grows s _
      · exact mark_grows s c

theorem performAll_grows (c : ℕ) (s : St) (acts : List Act) : Grows s (acts.foldl (perform c) s) := by
  induction acts generalizing s with
  | nil => exact .refl s
  | cons a acts ih => exact (perform_grows c s a).trans (ih _)

theorem complete_grows (s : St) (i : ℕ) (ec : Ec) (n : ℕ) : Grows s (complete s i ec n) := by
  unfold complete
  split
  · exact .refl s
  · split
    · exact .refl s
    · exact (performAll_grows _ s _).trans
        ⟨fun _ hc hp => ⟨hc, hp⟩, rfl, fun _ _ => id, fun _ => .inl rfl, rfl, rfl, rfl, id⟩

theorem setSessionId_grows (s : St) (c sessionId : ℕ) : Grows s (setSessionId s c sessionId).1 := by
  have hkeys := keys_setSessionId s c sessionId
  unfold setSessionId at hkeys ⊢
  split_ifs at hkeys ⊢
  · exact ⟨fun d hd hp => ⟨hkeys ▸ hd, hp⟩, rfl, fun _ _ => id, fun _ => .inl rfl, rfl, rfl, rfl, id⟩
  · exact .refl s

theorem lookUp_grows (s : St) (sessionId : ℕ) : Grows s (lookUp s sessionId) := by
  rcases lookUp_cases s sessionId with heq | ⟨c, -, heq⟩ | ⟨a, -, heq⟩
  · rw [heq]
    exact .refl s
  · rw [heq]
    exact ⟨fun _ hc hp => ⟨hc, hp⟩, rfl, fun _ _ => id, fun _ => .inl rfl, rfl, rfl, rfl, id⟩
  · rw [heq]
    exact abort_grows s a

theorem pushFront_grows (s : St) : Grows s (pushFront s) := by
  unfold pushFront
  split
  · exact .refl s
  · exact (startOp_grows s _ _).trans
      ⟨fun _ hc hp => ⟨hc, hp⟩, rfl, fun _ _ => id, fun _ => .inl rfl, rfl, rfl, rfl, id⟩

/-! ## The accept loop -/

theorem acceptTest_grows (cfg : Config) (s : St) : Grows s (acceptTest cfg s) := by
  unfold acceptTest
  dsimp only
  split_ifs
  · exact ⟨fun _ hc hp => ⟨hc, hp⟩, rfl, fun _ _ => id, fun _ => .inl rfl, rfl, rfl, rfl, id⟩
  · exact ⟨fun _ hc hp => ⟨hc, hp⟩, rfl, fun _ _ => id, fun _ => .inl rfl, rfl, rfl, rfl, id⟩
  · exact .refl s

/-- a connection in the last bucket that has just been touched -/
theorem scheduled_back {cfg : Config} {s : St} {c : ℕ} (hnext : s.nextTick ≤ s.now + cfg.connCheckSpare)
    (hback : c ∈ s.bucket (cfg.capacity - 1)) (htouch : (s.conns c).touchTime = s.now) : Scheduled cfg s c := by
  obtain ⟨n, hn⟩ : ∃ n, cfg.capacity = n + 2 := ⟨cfg.capacity - 2, by have := cfg.two_le; omega⟩
  have hlt := spare_lt cfg
  have hround : cfg.round = n * cfg.connCheckSpare + cfg.connCheckSpare + cfg.connCheckSpare := by
    rw [Config.round, hn]
    ring
  rw [hn] at hback
  unfold Scheduled
  split
  · refine ⟨n + 1, hback, ?_⟩
    rw [Nat.succ_mul]
    omega
  · exact .inl ⟨n, hback, by omega⟩

/-- registering a connection that has just been touched -/
theorem register_wheel {cfg : Config} {s : St} {c : ℕ} (h : Wheel cfg s) (hi : Inv cfg (register s c))
    (htouch : (s.conns c).touchTime = s.now) : Wheel cfg (register s c) := by
  have hlen : (register s c).timingWheel.length = s.timingWheel.length := length_insertBack c _
  have hpos : 0 < s.timingWheel.length := by
    have := cfg.two_le
    rw [h.length]
    omega
  have hbuckets : ∀ i, s.bucket i ⊆ (register s c).bucket i := subset_insertBack c s.timingWheel
  refine ⟨hi, hlen.trans h.length, h.clock, h.next, h.touch, fun modi hm d hd => hbuckets 0 (h.modi modi hm hd), ?_⟩
  intro ha d hd hp
  have hkeys : d ∈ s.keys ∨ d = c := mem_keys_register hd
  by_cases hdc : d = c
  · have hback : c ∈ (register s c).bucket (cfg.capacity - 1) := h.length ▸ mem_insertBack c hpos
    rw [hdc]
    exact scheduled_back h.next hback htouch
  · exact (h.scheduled ha d (hkeys.resolve_right hdc) hp).mono rfl rfl hbuckets le_rfl

theorem acceptInsert_wheel {cfg : Config} {s : St} (h : Wheel cfg s) : Wheel cfg (acceptInsert s) := by
  have hi := acceptInsert_inv h.registry
  unfold acceptInsert at hi ⊢
  split at hi
  · rename_i sock hsock
    split at hi
    · rename_i c cached hcache
      have hout : Wheel cfg { s with cachedConns := cached } :=
        h.grows (uncache_inv h.registry hcache)
          ⟨fun _ hc hp => ⟨hc, hp⟩, rfl, fun _ _ => id, fun _ => .inl rfl, rfl, rfl, rfl, id⟩
      dsimp only at hi ⊢
      split_ifs at hi ⊢
      · have hset : Wheel cfg (St.setConn { s with cachedConns := cached } c
            { s.conns c with sock := some sock, touchTime := s.now }) :=
          hout.grows (hout.registry.same ⟨rfl, rfl, rfl, rfl, rfl, rfl, id⟩)
            ⟨fun _ hc hp => ⟨hc, hp⟩, rfl, fun _ _ => id, setConn_touch _ c _ (.inr rfl), rfl, rfl, rfl, id⟩
        refine register_wheel hset hi ?_
        simp only [St.setConn, Function.update_self]
      · exact hout.grows hi (abort_grows _ _)
    · have hfresh : Wheel cfg { s.setConn s.nextId ⟨.connPending, s.now, some sock⟩ with nextId := s.nextId + 1 } :=
        h.grows (fresh_inv h.registry _)
          ⟨fun _ hc hp => ⟨hc, hp⟩, rfl, fun _ _ => id, setConn_touch _ _ _ (.inr rfl), rfl, rfl, rfl, id⟩
      refine register_wheel hfresh hi ?_
      simp only [St.setConn, Function.update_self]
  · exact h

theorem acceptStart_wheel {cfg : Config} {s : St} (h : Wheel cfg s) : Wheel cfg (acceptStart s) := by
  refine h.grows (acceptStart_inv h.registry) ?_
  unfold acceptStart
  split
  · refine Grows.trans ?_ (startOp_grows _ _ _)
    exact ⟨fun _ hc hp => ⟨hc, hp⟩, rfl, fun _ _ => id, setConn_touch s _ _ (.inl rfl), rfl, rfl, rfl, id⟩
  · exact .refl s

/-! ## Removal passes -/

theorem skip_grows (s : St) (c : ℕ) : Grows s (skip s c) := by
  unfold skip
  split_ifs
  · exact ⟨fun _ hc hp => ⟨hc, hp⟩, length_insertBack c _, subset_insertBack c _, fun _ => .inl rfl, rfl, rfl, rfl, id⟩
  · exact .refl s

theorem unregister_grows (s : St) (c : ℕ) : Grows s (unregister s c) :=
  ⟨fun _ hc hp => ⟨(mem_keys_unregister.1 hc).1, hp⟩, rfl, fun _ _ => id, fun _ => .inl rfl, rfl, rfl, rfl, id⟩

theorem recycle_grows (s : St) (c : ℕ) : Grows s (recycle s c) := by
  unfold recycle
  split_ifs
  · exact abort_grows s _
  · exact ⟨fun _ hc hp => ⟨hc, hp⟩, rfl, fun _ _ => id, setConn_touch s c _ (.inl rfl), rfl, rfl, rfl, id⟩

theorem keys_recycle (s : St) (c : ℕ) : (recycle s c).keys = s.keys := by
  unfold recycle
  split_ifs <;> rfl

theorem manageItem_grows (cfg : Config) (s : St) (c : ℕ) : Grows s (manageItem cfg s c) := by
  have hgrows := (skip_grows s c).trans (unregister_grows (skip s c) c)
  unfold manageItem
  dsimp only
  split_ifs
  · exact .refl s
  · exact hgrows.trans (recycle_grows _ c)
  · exact hgrows
  · exact .refl s

/-- an item leaves the registry -/
theorem manageItem_keys (cfg : Config) (s : St) (c : ℕ) {d : ℕ} (hd : d ∈ (manageItem cfg s c).keys) :
    d ∈ s.keys ∧ ((manageItem cfg s c).aborted = none → d ≠ c) := by
  have hout : ∀ e ∈ (unregister (skip s c) c).keys, e ∈ s.keys ∧ e ≠ c := by
    intro e he
    rw [mem_keys_unregister, (skip_same s c).keys] at he
    exact he
  unfold manageItem at hd ⊢
  dsimp only at hd ⊢
  by_cases ha : s.aborted.isSome
  · rw [if_pos ha] at hd ⊢
    exact ⟨hd, fun hn => by simp [hn] at ha⟩
  rw [if_neg ha] at hd ⊢
  by_cases hc : c ∈ s.keys
  · rw [if_pos hc] at hd
    have hd' := hout d (by
      split_ifs at hd
      · rw [← keys_recycle _ c]
        exact hd
      · exact hd)
    exact ⟨hd'.1, fun _ => hd'.2⟩
  · rw [if_neg hc] at hd
    refine ⟨hd, ?_⟩
    intro _
    rintro rfl
    exact hc hd

theorem manageItems_grows (cfg : Config) (order : List ℕ) (s : St) : Grows s (order.foldl (manageItem cfg) s) := by
  induction order generalizing s with
  | nil => exact .refl s
  | cons c order ih => exact (manageItem_grows cfg s c).trans (ih _)

theorem manageItems_keys (cfg : Config) (order : List ℕ) (s : St) {d : ℕ}
    (hd : d ∈ (order.foldl (manageItem cfg) s).keys) :
    d ∈ s.keys ∧ ((order.foldl (manageItem cfg) s).aborted = none → d ∉ order) := by
  induction order generalizing s with
  | nil => exact ⟨hd, fun _ => List.not_mem_nil⟩
  | cons c order ih =>
    obtain ⟨hd', hrest⟩ := ih (manageItem cfg s c) hd
    obtain ⟨hkey, hne⟩ := manageItem_keys cfg s c hd'
    refine ⟨hkey, ?_⟩
    intro ha hmem
    rcases List.mem_cons.1 hmem with rfl | hmem
    · exact hne ((manageItems_grows cfg order _).aborted ha) rfl
    · exact hrest ha hmem

theorem managePass_grows (cfg : Config) (s : St) (order : List ℕ) : Grows s (managePass cfg s order) := by
  unfold managePass
  dsimp only
  by_cases hperm : order.Perm s.pendingToRemove ∧ order ≠ []
  · rw [if_pos hperm]
    have hgrows := manageItems_grows cfg order s
    have hkeys := fun d => manageItems_keys cfg order s (d := d)
    generalize order.foldl (manageItem cfg) s = t at hgrows hkeys ⊢
    by_cases ha : t.aborted.isSome
    · rw [if_pos ha]
      exact hgrows
    · rw [if_neg ha]
      rw [Option.not_isSome_iff_eq_none] at ha
      -- the set is cleared, and who was in it is registered no more
      have hclear : Grows s { t with pendingToRemove := [] } :=
        ⟨fun c hc _ => ⟨(hkeys c hc).1, fun hp => (hkeys c hc).2 ha (hperm.1.mem_iff.2 hp)⟩, hgrows.length,
          hgrows.buckets, hgrows.touch, hgrows.tick, hgrows.nextTick, hgrows.now, hgrows.aborted⟩
      split_ifs
      · exact hclear
      · exact hclear.trans (abort_grows _ _)
  · rw [if_neg hperm]
    exact .refl s

/-! ## Ticks -/

/-- what examining one entry comes to -/
structure Examined (cfg : Config) (p p' : St × List ℕ) (c : ℕ) : Prop where
  grows : Grows p.1 p'.1
  sub : ∀ d ∈ p'.2, d ∈ p.2
  /-- no registered connection is dropped without a removal request -/
  kept : ∀ d ∈ p.1.keys, d ∉ p'.1.pendingToRemove → p'.1.aborted = none → d ∈ p.2 → d ∈ p'.2
  /-- nor kept when it has expired -/
  recent : c ∈ p.1.keys → c ∉ p'.1.pendingToRemove → p'.1.aborted = none →
    p.1.now < (p.1.conns c).touchTime + (cfg.connExpiredTime - cfg.connCheckSpare)
  expired : ∀ d ∈ p'.1.pendingToRemove, d ∉ p.1.pendingToRemove →
    (p.1.conns d).touchTime + (cfg.connExpiredTime - cfg.connCheckSpare) ≤ p.1.now
  touch : ∀ d, (p'.1.conns d).touchTime = (p.1.conns d).touchTime
  keys : p'.1.keys = p.1.keys

theorem alive_of_key {s : St} {c : ℕ} (h : c ∈ s.keys) : s.alive c := by
  have := List.count_pos_iff.2 h
  unfold St.alive St.useCount
  exact decide_eq_true (by omega)

theorem tickItem_examined {cfg : Config} {p : St × List ℕ} (h : Inv cfg p.1) (c : ℕ) :
    Examined cfg p (tickItem cfg p c) c := by
  obtain ⟨s, modi⟩ := p
  have hkeep : ∀ d, d ≠ c → d ∈ modi → d ∈ modi.erase c := fun d hd hm => (List.mem_erase_of_ne hd).2 hm
  have hless : ∀ d ∈ modi.erase c, d ∈ modi := fun d hd => List.mem_of_mem_erase hd
  simp only [tickItem]
  by_cases ha : s.aborted.isSome
  · rw [if_pos ha]
    exact ⟨.refl s, fun _ => id, fun _ _ _ _ => id,
      fun _ _ hn => absurd ha (by rw [show s.aborted = none from hn]; decide), fun d hd hn => absurd hd hn,
      fun _ => rfl, rfl⟩
  rw [if_neg ha]
  by_cases halive : s.alive c
  · rw [if_neg (by simp [halive])]
    by_cases hstats : (s.conns c).stats = .connPending
    · rw [if_pos hstats]
      by_cases hcached : c ∈ s.cachedConns
      · rw [if_pos hcached]
        have hc : c ∉ s.keys := h.registry.disjoint c hcached
        exact ⟨.refl s, hless, fun d hd _ _ => hkeep d (ne_of_mem_of_not_mem hd hc), fun hk => absurd hk hc,
          fun d hd hn => absurd hd hn, fun _ => rfl, rfl⟩
      · rw [if_neg hcached]
        exact ⟨abort_grows s _, fun _ => id, fun d _ _ hn => by simp [St.abort] at hn,
          fun _ _ hn => by simp [St.abort] at hn, fun d hd hn => absurd hd hn, fun _ => rfl, rfl⟩
    · rw [if_neg hstats]
      by_cases htouch : (s.conns c).touchTime + (cfg.connExpiredTime - cfg.connCheckSpare) ≤ s.now
      · rw [if_pos htouch]
        split
        · exact ⟨abort_grows s _, fun _ => id, fun d _ _ hn => by simp [St.abort] at hn,
            fun _ _ hn => by simp [St.abort] at hn, fun d hd hn => absurd hd hn, fun _ => rfl, rfl⟩
        · refine ⟨mark_grows s c, hless, fun d _ hp _ => hkeep d ?_, fun _ hp => absurd ?_ hp, ?_, ?_, rfl⟩
          · rintro rfl
            exact hp List.mem_insert_self
          · exact List.mem_insert_self
          · intro d hd hn
            rw [(List.mem_insert_iff.1 hd).resolve_right hn]
            exact htouch
          · intro d
            by_cases hd : d = c
            · rw [hd]
              simp [pushToRemove, St.setConn]
            · simp [pushToRemove, St.setConn, Function.update_of_ne hd]
      · rw [if_neg htouch]
        exact ⟨.refl s, fun _ => id, fun _ _ _ _ => id, fun _ _ _ => not_le.1 htouch,
          fun d hd hn => absurd hd hn, fun _ => rfl, rfl⟩
  · rw [if_pos (by simp [halive])]
    have hc : c ∉ s.keys := fun hk => halive (alive_of_key hk)
    exact ⟨.refl s, hless, fun d hd _ _ => hkeep d (ne_of_mem_of_not_mem hd hc), fun hk => absurd hk hc,
      fun d hd hn => absurd hd hn, fun _ => rfl, rfl⟩

/-- what examining a bucket comes to -/
structure Scanned (cfg : Config) (p p' : St × List ℕ) (bucket : List ℕ) : Prop where
  grows : Grows p.1 p'.1
  sub : ∀ d ∈ p'.2, d ∈ p.2
  kept : ∀ d ∈ p.1.keys, d ∉ p'.1.pendingToRemove → p'.1.aborted = none → d ∈ p.2 → d ∈ p'.2
  recent : ∀ c ∈ bucket, c ∈ p.1.keys → c ∉ p'.1.pendingToRemove → p'.1.aborted = none →
    p.1.now < (p.1.conns c).touchTime + (cfg.connExpiredTime - cfg.connCheckSpare)
  expired : ∀ d ∈ p'.1.pendingToRemove, d ∉ p.1.pendingToRemove →
    (p.1.conns d).touchTime + (cfg.connExpiredTime - cfg.connCheckSpare) ≤ p.1.now
  touch : ∀ d, (p'.1.conns d).touchTime = (p.1.conns d).touchTime
  keys : p'.1.keys = p.1.keys

theorem tickItems_scanned {cfg : Config} (bucket : List ℕ) {p : St × List ℕ} (h : Inv cfg p.1) :
    Scanned cfg p (bucket.foldl (tickItem cfg) p) bucket := by
  induction bucket generalizing p with
  | nil =>
    exact ⟨.refl _, fun _ => id, fun _ _ _ _ => id, fun c hc => absurd hc List.not_mem_nil,
      fun d hd hn => absurd hd hn, fun _ => rfl, rfl⟩
  | cons c bucket ih =>
    have h1 := tickItem_examined h c
    have h2 := ih (h.same (tickItem_same cfg p c))
    rw [List.foldl_cons]
    generalize tickItem cfg p c = q at h1 h2 ⊢
    generalize bucket.foldl (tickItem cfg) q = r at h2 ⊢
    -- who is not pending in the end was not after the first item
    have hless : ∀ d ∈ r.1.keys, d ∉ r.1.pendingToRemove → d ∉ q.1.pendingToRemove := fun d hd hp =>
      (h2.grows.keys d hd hp).2
    refine ⟨h1.grows.trans h2.grows, fun d hd => h1.sub d (h2.sub d hd), ?_, ?_, ?_,
      fun d => (h2.touch d).trans (h1.touch d), h2.keys.trans h1.keys⟩
    · intro d hd hp ha hm
      have hr : d ∈ r.1.keys := by rw [h2.keys, h1.keys]; exact hd
      have hq : d ∈ q.1.keys := by rw [h1.keys]; exact hd
      exact h2.kept d hq hp ha (h1.kept d hd (hless d hr hp) (h2.grows.aborted ha) hm)
    · intro d hd hk hp ha
      have hr : d ∈ r.1.keys := by rw [h2.keys, h1.keys]; exact hk
      have hq : d ∈ q.1.keys := by rw [h1.keys]; exact hk
      rcases List.mem_cons.1 hd with rfl | hd
      · exact h1.recent hk (hless d hr hp) (h2.grows.aborted ha)
      · have hlt := h2.recent d hd hq hp ha
        rwa [h1.touch, h1.grows.now] at hlt
    · intro d hd hn
      by_cases hq : d ∈ q.1.pendingToRemove
      · exact h1.expired d hq hn
      · have hle := h2.expired d hd hq
        rwa [h1.touch, h1.grows.now] at hle

theorem headD_eq (s : St) : s.timingWheel.headD [] = s.bucket 0 := by
  unfold St.bucket
  cases s.timingWheel <;> rfl

theorem tickScan_wheel {cfg : Config} {s : St} (h : Wheel cfg s) (ht : s.tick = none → s.now = s.nextTick) :
    Wheel cfg (tickScan cfg s) := by
  have hi : Inv cfg (tickScan cfg s) := h.registry.same (tickScan_same cfg s)
  unfold tickScan at hi ⊢
  cases htick : s.tick with
  | some modi => exact h
  | none =>
    rw [htick] at hi
    dsimp only at hi ⊢
    have hnow := ht htick
    have hscan := tickItems_scanned (s.timingWheel.headD []) (p := (s, s.timingWheel.headD [])) h.registry
    rw [headD_eq] at hscan hi ⊢
    generalize (s.bucket 0).foldl (tickItem cfg) (s, s.bucket 0) = r at hscan hi ⊢
    obtain ⟨t, modi⟩ := r
    have hgrows := hscan.grows
    refine ⟨hi, hgrows.length.trans h.length, ?_, ?_, ?_, ?_, ?_⟩
    · show t.now ≤ s.now + cfg.connCheckSpare
      rw [hgrows.now]
      exact Nat.le_add_right _ _
    · show s.now + cfg.connCheckSpare ≤ t.now + cfg.connCheckSpare
      rw [hgrows.now]
    · intro c
      show (t.conns c).touchTime ≤ t.now
      rw [hgrows.now, hscan.touch]
      exact h.touch c
    · rintro _ hm
      obtain rfl := Option.some.inj hm
      exact fun d hd => hgrows.buckets 0 (hscan.sub d hd)
    · intro ha c hc hp
      have hk : c ∈ s.keys := hscan.keys ▸ hc
      have hp' := (hgrows.keys c hc hp).2
      have hold := h.scheduled (hgrows.aborted ha) c hk hp'
      simp only [Scheduled, htick] at hold
      obtain ⟨i, hmem, hlt⟩ := hold
      have htouch : (t.conns c).touchTime = (s.conns c).touchTime := hscan.touch c
      show (∃ i, c ∈ t.bucket (i + 1) ∧ s.now + cfg.connCheckSpare + i * cfg.connCheckSpare <
          (t.conns c).touchTime + (cfg.connExpiredTime - cfg.connCheckSpare) + cfg.round) ∨
        c ∈ modi ∧ s.now + cfg.connCheckSpare + (cfg.capacity - 1) * cfg.connCheckSpare <
          (t.conns c).touchTime + (cfg.connExpiredTime - cfg.connCheckSpare) + cfg.round
      rw [htouch]
      cases i with
      | zero =>
        -- an entry of the bucket examined stays in `front_modi`, for one more round
        have hrecent : s.now < (s.conns c).touchTime + (cfg.connExpiredTime - cfg.connCheckSpare) :=
          hscan.recent c hmem hk hp ha
        have hround : cfg.round = (cfg.capacity - 1) * cfg.connCheckSpare + cfg.connCheckSpare := by
          obtain ⟨n, hn⟩ : ∃ n, cfg.capacity = n + 1 := ⟨cfg.capacity - 1, by have := cfg.two_le; omega⟩
          rw [Config.round, hn, Nat.succ_mul, Nat.add_sub_cancel]
        exact .inr ⟨hscan.kept c hk hp ha hmem, by omega⟩
      | succ i =>
        rw [Nat.succ_mul] at hlt
        exact .inl ⟨i, hgrows.buckets (i + 1) hmem, by omega⟩

theorem tickPush_wheel {cfg : Config} {s : St} (h : Wheel cfg s) : Wheel cfg (tickPush cfg s) := by
  have hi : Inv cfg (tickPush cfg s) := h.registry.same (tickPush_same cfg s)
  unfold tickPush at hi ⊢
  cases htick : s.tick with
  | none => exact h
  | some modi =>
    rw [htick] at hi
    dsimp only at hi ⊢
    have htwo := cfg.two_le
    have hpush : pushBack cfg.capacity modi s.timingWheel = s.timingWheel.tail ++ [modi] := by
      rw [pushBack, if_pos h.length.ge]
    have hlen : s.timingWheel.tail.length = cfg.capacity - 1 := by rw [List.length_tail, h.length]
    -- bucket i + 1 moves to i, and `front_modi` to the back
    have hmove : ∀ i, s.bucket (i + 1) ⊆ (s.timingWheel.tail ++ [modi]).getD i [] := by
      intro i d hd
      have htail : s.bucket (i + 1) = s.timingWheel.tail.getD i [] := by
        unfold St.bucket
        cases s.timingWheel <;> rfl
      rw [htail, List.getD_eq_getElem?_getD] at hd
      rw [List.getD_eq_getElem?_getD]
      by_cases hlt : i < s.timingWheel.tail.length
      · rw [List.getElem?_append_left hlt]
        exact hd
      · rw [List.getElem?_eq_none (not_lt.1 hlt)] at hd
        exact absurd hd List.not_mem_nil
    have hback : (s.timingWheel.tail ++ [modi]).getD (cfg.capacity - 1) [] = modi := by
      rw [List.getD_eq_getElem?_getD, List.getElem?_append_right hlen.le, hlen, Nat.sub_self]
      rfl
    refine ⟨hi, ?_, h.clock, h.next, h.touch, by simp, ?_⟩
    · show (pushBack cfg.capacity modi s.timingWheel).length = cfg.capacity
      rw [hpush, List.length_append, hlen, List.length_singleton]
      omega
    · intro ha c hc hp
      have hold := h.scheduled ha c hc hp
      simp only [Scheduled, htick] at hold
      show ∃ i, c ∈ (pushBack cfg.capacity modi s.timingWheel).getD i [] ∧ _
      rw [hpush]
      rcases hold with ⟨i, hmem, hlt⟩ | ⟨hmem, hlt⟩
      · exact ⟨i, hmove i hmem, hlt⟩
      · exact ⟨cfg.capacity - 1, by rw [hback]; exact hmem, hlt⟩

/-! ## Results -/

theorem step_wheel {cfg : Config} (s : St) (o : Op) (ht : Timely s o) (h : Wheel cfg s) : Wheel cfg (step cfg s o) := by
  have hi := step_inv s o h.registry
  unfold step at hi ⊢
  by_cases ha : s.aborted.isSome
  · rw [if_pos ha]
    exact h
  rw [if_neg ha] at hi ⊢
  cases o with
  | advance d =>
    have hnext := h.next
    exact ⟨hi, h.length, ht, by show s.nextTick ≤ s.now + d + _; omega,
      fun c => (h.touch c).trans (Nat.le_add_right _ _), h.modi, h.scheduled⟩
  | acceptError =>
    refine h.grows hi ?_
    dsimp only
    split_ifs
    · exact ⟨fun _ hc hp => ⟨hc, hp⟩, rfl, fun _ _ => id, fun _ => .inl rfl, rfl, rfl, rfl, id⟩
    · exact .refl s
  | acceptTest => exact h.grows hi (acceptTest_grows cfg s)
  | acceptInsert => exact acceptInsert_wheel h
  | acceptStart => exact acceptStart_wheel h
  | complete i ec n => exact h.grows hi (complete_grows s i ec n)
  | setSessionId c sessionId => exact h.grows hi (setSessionId_grows s c sessionId)
  | lookUp sessionId => exact h.grows hi (lookUp_grows s sessionId)
  | pushFront => exact h.grows hi (pushFront_grows s)
  | pushToRemove c =>
    exact h.grows hi ⟨fun _ hc hp => ⟨hc, fun hd => hp (List.mem_insert_of_mem hd)⟩, rfl, fun _ _ => id,
      fun _ => .inl rfl, rfl, rfl, rfl, id⟩
  | tickScan => exact tickScan_wheel h ht
  | tickPush => exact tickPush_wheel h
  | managePass order => exact h.grows hi (managePass_grows cfg s order)

/-- a tick asks for the removal of expired connections only -/
theorem expiredOnly {cfg : Config} {s : St} (h : Inv cfg s) (o : Op) : ExpiredOnly cfg s o := by
  rintro rfl c hc hn
  unfold step at hc
  by_cases ha : s.aborted.isSome
  · rw [if_pos ha] at hc
    exact absurd hc hn
  rw [if_neg ha] at hc
  dsimp only [tickScan] at hc
  split at hc
  · have hscan := tickItems_scanned (s.timingWheel.headD []) (p := (s, s.timingWheel.headD [])) h
    exact hscan.expired c hc hn
  · exact absurd hc hn

/-- **No connection escapes expiry**: in every run whose ticks come s seconds apart, up to the first failed assertion,
a registered connection is in the wheel or to be removed, a tick removes only what has been untouched for E - s
seconds, and nothing else stays untouched for 2E - s. -/
theorem no_escape (cfg : Config) (now : ℕ) (ops : List Op) (h : Meets (step cfg) Timely (init cfg now) ops) :
    Always (step cfg) (fun s => s.aborted = none → Expiry cfg s) (init cfg now) ops ∧
      Meets (step cfg) (ExpiredOnly cfg) (init cfg now) ops := by
  have hwheel := always_meets step_wheel (wheel_init cfg now) h
  exact ⟨hwheel.mono fun _ hs => hs.expiry, hwheel.meets fun _ o hs => expiredOnly hs.registry o⟩

/-- a silent client, over the ten ticks after which it is removed -/
def silentClient : List Op :=
  [.acceptTest, .acceptInsert, .acceptStart] ++
    (List.replicate 10 [Op.advance 2, .tickScan, .tickPush]).flatten ++ [.managePass [0]]

theorem no_escape_silent :
    Always (step mainConfig) (fun s => s.aborted = none → Expiry mainConfig s) (init mainConfig 0) silentClient ∧
      Meets (step mainConfig) (ExpiredOnly mainConfig) (init mainConfig 0) silentClient :=
  no_escape mainConfig 0 _ (by decide +kernel)

example : (run (step mainConfig) (init mainConfig 0) silentClient).keys = [] := by decide +kernel

end AirobotMsgd.FrontServer
