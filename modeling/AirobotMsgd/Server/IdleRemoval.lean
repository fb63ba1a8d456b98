/-
Idle connections leave the registry.

`no_escape` ends with a removal request; here the request is carried out. The server runs beside a clock that stands
still while a request is pending (`watch`), so that the age of the oldest request is the distance of the two. The
invariant is about the second clock: each registered connection, to be removed or not, was touched less than 2E - s
seconds before it. A removal pass moves the second clock up to the first, and is sound there since no connection it
leaves registered is pending.

Results:
- `idle_removed`: in every run whose ticks come s seconds apart and whose removal requests wait for at most m seconds,
  up to the first failed assertion, no registered connection has been untouched for 2E - s + m seconds.

Premises: `Timely` for the ticks, `Prompt` for `manage_thread`, and the clock of `TimingWheel`, which is read in whole
seconds and never set.
-/
import AirobotMsgd.Server.TimingWheel

namespace AirobotMsgd.FrontServer

open AirobotMsgd.Runs

/-! ## The age of the removal requests -/

/-- the server beside the last moment at which no removal was asked for -/
def watch (cfg : Config) (p : St × ℕ) (o : Op) : St × ℕ :=
  let s := step cfg p.1 o
  (s, if s.pendingToRemove = [] then s.now else p.2)

/-- no removal request gets older than m seconds -/
def Prompt (m : ℕ) (p : St × ℕ) : Op → Prop
  | .advance d => p.1.pendingToRemove = [] ∨ p.1.now + d ≤ p.2 + m
  | _ => True

instance (m : ℕ) (p : St × ℕ) : (o : Op) → Decidable (Prompt m p o)
  | .advance d => inferInstanceAs (Decidable (p.1.pendingToRemove = [] ∨ p.1.now + d ≤ p.2 + m))
  | .acceptError | .acceptTest | .acceptInsert | .acceptStart | .complete .. | .setSessionId .. | .lookUp _ | .pushFront
  | .pushToRemove _ | .tickScan | .tickPush | .managePass _ => inferInstanceAs (Decidable True)

/-! ## Touches -/

/-- who is registered was so before, with the same touch, or is touched now; the clock stands still -/
structure Touched (s s' : St) : Prop where
  now : s'.now = s.now
  touch : ∀ c ∈ s'.keys, c ∈ s.keys ∧ (s'.conns c).touchTime = (s.conns c).touchTime ∨ (s'.conns c).touchTime = s.now

theorem Touched.refl (s : St) : Touched s s := ⟨rfl, fun _ hc => .inl ⟨hc, rfl⟩⟩

theorem Grows.touched {s s' : St} (h : Grows s s') (hkeys : ∀ c ∈ s'.keys, c ∈ s.keys) : Touched s s' where
  now := h.now
  touch := fun c hc => (h.touch c).imp_left fun heq => ⟨hkeys c hc, heq⟩

theorem SameRegistry.sub {s s' : St} (h : SameRegistry s s') : ∀ c ∈ s'.keys, c ∈ s.keys :=
  fun _ hc => h.keys ▸ hc

/-- a connection set with a touch and then registered -/
theorem register_touched {s t : St} {c : ℕ} (hnow : t.now = s.now) (hkeys : t.keys = s.keys)
    (hother : ∀ d, d ≠ c → t.conns d = s.conns d) (htouch : (t.conns c).touchTime = s.now) :
    Touched s (register t c) where
  now := hnow
  touch := by
    intro d hd
    by_cases hdc : d = c
    · exact .inr (hdc ▸ htouch)
    · have hold : d ∈ t.keys := (mem_keys_register hd).resolve_right hdc
      exact .inl ⟨hkeys ▸ hold, congrArg Conn.touchTime (hother d hdc)⟩

theorem acceptInsert_touched (s : St) : Touched s (acceptInsert s) := by
  unfold acceptInsert
  split
  · split
    · dsimp only
      split_ifs
      · refine register_touched rfl rfl (fun d hd => Function.update_of_ne hd _ _) ?_
        simp only [St.setConn, Function.update_self]
      · exact ⟨rfl, fun _ hc => .inl ⟨hc, rfl⟩⟩
    · refine register_touched rfl rfl (fun d hd => Function.update_of_ne hd _ _) ?_
      simp only [St.setConn, Function.update_self]
  · exact .refl s

theorem acceptStart_touched (s : St) : Touched s (acceptStart s) := by
  unfold acceptStart
  split
  · rename_i c _
    have hset : Grows s { s.setConn c { s.conns c with stats := .connWorking } with accept := .listening } :=
      ⟨fun _ hc hp => ⟨hc, hp⟩, rfl, fun _ _ => id, setConn_touch s c _ (.inl rfl), rfl, rfl, rfl, id⟩
    exact (hset.trans (startOp_grows _ c .readHead)).touched (startOp_same _ c .readHead).sub
  · exact .refl s

theorem tickScan_touched {cfg : Config} {s : St} (h : Inv cfg s) : Touched s (tickScan cfg s) := by
  have hkeys := (tickScan_same cfg s).sub
  unfold tickScan at hkeys ⊢
  split
  · rename_i htick
    rw [htick] at hkeys
    have hscan := tickItems_scanned (s.timingWheel.headD []) (p := (s, s.timingWheel.headD [])) h
    exact ⟨hscan.grows.now, fun c hc => .inl ⟨hkeys c hc, hscan.touch c⟩⟩
  · exact .refl s

theorem tickPush_touched (cfg : Config) (s : St) : Touched s (tickPush cfg s) := by
  unfold tickPush
  split
  · exact ⟨rfl, fun _ hc => .inl ⟨hc, rfl⟩⟩
  · exact .refl s

theorem managePass_sub (cfg : Config) (s : St) (order : List ℕ) : ∀ c ∈ (managePass cfg s order).keys, c ∈ s.keys := by
  intro c hc
  unfold managePass at hc
  dsimp only at hc
  split_ifs at hc
  · exact (manageItems_keys cfg order s hc).1
  · exact (manageItems_keys cfg order s hc).1
  · exact (manageItems_keys cfg order s hc).1
  · exact hc

theorem step_touched {cfg : Config} {s : St} (h : Inv cfg s) (o : Op) :
    (∃ d, o = .advance d ∧ step cfg s o = { s with now := s.now + d }) ∨ Touched s (step cfg s o) := by
  unfold step
  by_cases ha : s.aborted.isSome
  · rw [if_pos ha]
    exact .inr (.refl s)
  rw [if_neg ha]
  cases o with
  | advance d => exact .inl ⟨d, rfl, rfl⟩
  | acceptError =>
    refine .inr ?_
    dsimp only
    split_ifs
    · exact ⟨rfl, fun _ hc => .inl ⟨hc, rfl⟩⟩
    · exact .refl s
  | acceptTest =>
    refine .inr ((acceptTest_grows cfg s).touched ?_)
    unfold acceptTest
    dsimp only
    split_ifs <;> exact fun _ => id
  | acceptInsert => exact .inr (acceptInsert_touched s)
  | acceptStart => exact .inr (acceptStart_touched s)
  | complete i ec n => exact .inr ((complete_grows s i ec n).touched (complete_same s i ec n).sub)
  | setSessionId c sessionId =>
    exact .inr ((setSessionId_grows s c sessionId).touched fun d hd => keys_setSessionId s c sessionId ▸ hd)
  | lookUp sessionId => exact .inr ((lookUp_grows s sessionId).touched (lookUp_same s sessionId).sub)
  | pushFront => exact .inr ((pushFront_grows s).touched (pushFront_same s).sub)
  | pushToRemove c => exact .inr ⟨rfl, fun _ hc => .inl ⟨hc, rfl⟩⟩
  | tickScan => exact .inr (tickScan_touched h)
  | tickPush => exact .inr (tickPush_touched cfg s)
  | managePass order => exact .inr ((managePass_grows cfg s order).touched (managePass_sub cfg s order))

/-! ## Invariant -/

structure Idle (cfg : Config) (m : ℕ) (p : St × ℕ) : Prop where
  wheel : Wheel cfg p.1
  past : p.2 ≤ p.1.now
  prompt : p.1.now ≤ p.2 + m
  touched : p.1.aborted = none → ∀ c ∈ p.1.keys,
    p.2 < (p.1.conns c).touchTime + (2 * cfg.connExpiredTime - cfg.connCheckSpare)

theorem idle_init (cfg : Config) (m now : ℕ) : Idle cfg m (init cfg now, now) where
  wheel := wheel_init cfg now
  past := le_rfl
  prompt := Nat.le_add_right now m
  touched := by simp [init, St.keys]

theorem aborted_of_step {cfg : Config} {s : St} {o : Op} (h : (step cfg s o).aborted = none) : s.aborted = none := by
  unfold step at h
  by_cases ha : s.aborted.isSome
  · rw [if_pos ha] at h
    exact h
  · exact Option.not_isSome_iff_eq_none.1 ha

theorem watch_idle {cfg : Config} {m : ℕ} (p : St × ℕ) (o : Op) (ho : Timely p.1 o ∧ Prompt m p o)
    (h : Idle cfg m p) : Idle cfg m (watch cfg p o) := by
  have hwheel : Wheel cfg (step cfg p.1 o) := step_wheel p.1 o ho.1 h.wheel
  have hpast := h.past
  unfold watch
  dsimp only
  by_cases hquiet : (step cfg p.1 o).pendingToRemove = []
  · -- whoever is registered now is not to be removed
    rw [if_pos hquiet]
    refine ⟨hwheel, le_rfl, Nat.le_add_right _ m, ?_⟩
    intro ha c hc
    exact (hwheel.expiry ha).touched c hc (by simp [hquiet])
  rw [if_neg hquiet]
  rcases step_touched h.wheel.registry o with ⟨d, rfl, hstep⟩ | hstep
  · rw [hstep] at hwheel hquiet ⊢
    have hm : p.1.now + d ≤ p.2 + m := ho.2.resolve_left hquiet
    exact ⟨hwheel, hpast.trans (Nat.le_add_right _ d), hm, h.touched⟩
  · refine ⟨hwheel, by rw [hstep.now]; exact hpast, by rw [hstep.now]; exact h.prompt, ?_⟩
    intro ha c hc
    rcases hstep.touch c hc with ⟨hold, heq⟩ | heq
    · have hlt := h.touched (aborted_of_step ha) c hold
      dsimp only
      omega
    · have hlt := spare_lt cfg
      dsimp only
      omega

/-! ## Results -/

/-- **Idle connections leave the registry**: in every run whose ticks come s seconds apart and whose removal requests
wait for at most m seconds, up to the first failed assertion, a connection in the registry was touched less than
2E - s + m seconds ago. -/
theorem idle_removed (cfg : Config) (m now : ℕ) (ops : List Op)
    (h : Meets (watch cfg) (fun p o => Timely p.1 o ∧ Prompt m p o) (init cfg now, now) ops) :
    Always (watch cfg) (fun p => p.1.aborted = none → ∀ c ∈ p.1.keys,
      p.1.now < (p.1.conns c).touchTime + (2 * cfg.connExpiredTime - cfg.connCheckSpare) + m) (init cfg now, now) ops := by
  refine (always_meets watch_idle (idle_init cfg m now) h).mono ?_
  intro p hp ha c hc
  have hlt := hp.touched ha c hc
  have hprompt := hp.prompt
  omega

/-- the silent client, removed two seconds after it was found to have expired -/
theorem idle_removed_silent :
    Always (watch mainConfig) (fun p => p.1.aborted = none → ∀ c ∈ p.1.keys,
      p.1.now < (p.1.conns c).touchTime + (2 * mainConfig.connExpiredTime - mainConfig.connCheckSpare) + 2)
      (init mainConfig 0, 0) (silentClient.dropLast ++ [.advance 2, .managePass [0]]) :=
  idle_removed mainConfig 2 0 _ (by decide +kernel)

end AirobotMsgd.FrontServer
