/-
Session routing: who a session id leads to.

The right view of `front_conns_` is a multiset, so nothing keeps two connections from one session id; the lookup asserts
that it never happens. `Given` is the history the answers are compared with: the id last given to each connection since
it was accepted, and the connection last given each id.

Results:
- `routes_iff_oneHolder`: in every state of a run the three functions answer as the history says, and the assertion of
  the lookup holds, if and only if `set_session_id` never gives a connection an id that another registered one has.
- `reconnected_client_asserts`: a client that comes back with its session while its old connection lingers.
-/
import AirobotMsgd.Server.Registry

namespace AirobotMsgd.FrontServer

open AirobotMsgd.Runs

/-! ## The history -/

structure Given where
  /-- the id last given to a connection since it was accepted, 0 for none -/
  session : ℕ → ℕ
  /-- the connection an id was last given to -/
  last : ℕ → Option ℕ

def noneGiven : Given := ⟨fun _ => 0, fun _ => none⟩

/-- what a step adds to the history -/
def give (cfg : Config) (s : St) (g : Given) (o : Op) : Given :=
  match o with
  | .setSessionId c sessionId =>
    if s.aborted = none ∧ c ∈ s.keys then
      ⟨Function.update g.session c sessionId, Function.update g.last sessionId (some c)⟩
    else g
  | _ => { g with session := fun c => if c ∈ (step cfg s o).keys ∧ c ∉ s.keys then 0 else g.session c }

def stepGiven (cfg : Config) (p : St × Given) (o : Op) : St × Given := (step cfg p.1 o, give cfg p.1 p.2 o)

/-! ## What is claimed -/

/-- an id a client can have; 0 and -1 are no session -/
def IsSession (sessionId : ℕ) : Prop := sessionId ≠ 0 ∧ sessionId ≠ 2 ^ 64 - 1

structure Routes (p : St × Given) : Prop where
  asserts : ∀ sessionId, IsSession sessionId → ∃ r, requestConnection p.1 sessionId = .ok r
  found : ∀ sessionId c, IsSession sessionId → requestConnection p.1 sessionId = .ok (some c) →
    c ∈ p.1.keys ∧ p.2.session c = sessionId ∧ p.2.last sessionId = some c
  unknown : ∀ sessionId, IsSession sessionId → requestConnection p.1 sessionId = .ok none →
    ∀ c ∈ p.1.keys, p.2.session c ≠ sessionId
  sessionId : ∀ c, requestSessionId p.1 c = if c ∈ p.1.keys then toInt64 (p.2.session c) else -1
  set : ∀ c sessionId, (setSessionId p.1 c sessionId).2 = true ↔ c ∈ p.1.keys

/-- no id is given while another registered connection has it -/
def OneHolder (p : St × Given) : Op → Prop
  | .setSessionId c sessionId =>
    p.1.aborted = none → c ∈ p.1.keys → IsSession sessionId → ∀ e ∈ p.1.frontConns, e.2 = sessionId → e.1 = c
  | _ => True

/-! ## The lookups -/

/-- a lookup that does not assert finds at most one entry -/
theorem requestConnection_ok {s : St} {sessionId : ℕ} {r : Option ℕ} (h : requestConnection s sessionId = .ok r)
    {e e' : ℕ × ℕ} (he : e ∈ s.frontConns) (he' : e' ∈ s.frontConns) (hid : e.2 = sessionId)
    (hid' : e'.2 = sessionId) : e = e' := by
  have hmem : ∀ x ∈ s.frontConns, x.2 = sessionId → x ∈ s.frontConns.filter fun e => e.2 = sessionId := fun x hx hxid =>
    List.mem_filter.2 ⟨hx, by simpa using hxid⟩
  have h1 := hmem e he hid
  have h2 := hmem e' he' hid'
  unfold requestConnection at h
  split_ifs at h
  split at h
  · rename_i hnil
    rw [hnil] at h1
    exact absurd h1 List.not_mem_nil
  · rename_i x hx
    rw [hx, List.mem_singleton] at h1 h2
    rw [h1, h2]
  · cases h

/-- where one connection at most has the id, the lookup finds it -/
theorem requestConnection_cases {s : St} (hkeys : s.keys.Nodup) {sessionId : ℕ} (hid : IsSession sessionId)
    (hone : ∀ e ∈ s.frontConns, ∀ e' ∈ s.frontConns, e.2 = sessionId → e'.2 = sessionId → e.1 = e'.1) :
    (∃ c, requestConnection s sessionId = .ok (some c) ∧ (c, sessionId) ∈ s.frontConns) ∨
      requestConnection s sessionId = .ok none ∧ ∀ e ∈ s.frontConns, e.2 ≠ sessionId := by
  have hmem : ∀ x ∈ s.frontConns.filter fun e => e.2 = sessionId, x ∈ s.frontConns ∧ x.2 = sessionId := fun x hx =>
    (List.mem_filter.1 hx).imp_right fun h => by simpa using h
  unfold requestConnection
  rw [if_neg hid.1, if_neg hid.2]
  rcases hf : s.frontConns.filter fun e => e.2 = sessionId with _ | ⟨e, _ | ⟨e', rest⟩⟩
  · refine .inr ⟨by rw [hf], ?_⟩
    intro e he hid'
    have hin : e ∈ s.frontConns.filter fun e => e.2 = sessionId := List.mem_filter.2 ⟨he, by simpa using hid'⟩
    rw [hf] at hin
    exact absurd hin List.not_mem_nil
  · have he := hmem e (by rw [hf]; exact List.mem_cons_self)
    exact .inl ⟨e.1, by rw [hf], by rw [← he.2]; exact he.1⟩
  · -- two entries would be one connection, twice registered
    have he := hmem e (by rw [hf]; exact List.mem_cons_self)
    have he' := hmem e' (by rw [hf]; exact List.mem_cons_of_mem e List.mem_cons_self)
    have hnodup : ((s.frontConns.filter fun e => e.2 = sessionId).map Prod.fst).Nodup :=
      hkeys.sublist (List.filter_sublist.map Prod.fst)
    rw [hf, List.map_cons, List.map_cons, List.nodup_cons, hone e he.1 e' he'.1 he.2 he'.2] at hnodup
    exact absurd List.mem_cons_self hnodup.1

/-! ## Invariant -/

structure Routed (cfg : Config) (p : St × Given) : Prop where
  registry : Inv cfg p.1
  session : ∀ e ∈ p.1.frontConns, p.2.session e.1 = e.2
  last : ∀ e ∈ p.1.frontConns, IsSession e.2 → p.2.last e.2 = some e.1

theorem Routed.routes {cfg : Config} {p : St × Given} (h : Routed cfg p) : Routes p := by
  have hcases : ∀ sessionId, IsSession sessionId → _ := fun sessionId hid =>
    requestConnection_cases h.registry.keys hid fun e he e' he' hid1 hid2 => by
      have h1 := h.last e he (hid1 ▸ hid)
      have h2 := h.last e' he' (hid2 ▸ hid)
      rw [hid1] at h1
      rw [hid2, h1] at h2
      exact Option.some.inj h2
  refine ⟨fun sessionId hid => ?_, fun sessionId c hid hr => ?_, fun sessionId hid hr c hc => ?_, fun c => ?_,
    fun c sessionId => ?_⟩
  · rcases hcases sessionId hid with ⟨c, hr, -⟩ | ⟨hr, -⟩
    · exact ⟨_, hr⟩
    · exact ⟨_, hr⟩
  · rcases hcases sessionId hid with ⟨d, hr', hd⟩ | ⟨hr', -⟩
    · rw [hr] at hr'
      obtain rfl : c = d := by simpa using hr'
      exact ⟨List.mem_map_of_mem hd, h.session _ hd, h.last _ hd hid⟩
    · rw [hr] at hr'
      simp at hr'
  · obtain ⟨e, he, rfl⟩ := List.mem_map.1 hc
    rw [h.session e he]
    rcases hcases sessionId hid with ⟨d, hr', -⟩ | ⟨-, hno⟩
    · rw [hr] at hr'
      simp at hr'
    · exact hno e he
  · unfold requestSessionId
    split
    · rename_i hnone
      rw [List.find?_eq_none] at hnone
      rw [if_neg]
      intro hc
      obtain ⟨e, he, hec⟩ := List.mem_map.1 hc
      exact hnone e he (by simpa using hec)
    · rename_i e hsome
      have hmem := List.mem_of_find?_eq_some hsome
      have hec : e.1 = c := by simpa using List.find?_some hsome
      have hkey : e.1 ∈ p.1.keys := List.mem_map_of_mem hmem
      rw [← hec, if_pos hkey, h.session e hmem]
  · unfold setSessionId
    split_ifs with hc
    · exact iff_of_true rfl hc
    · exact iff_of_false (by simp) hc

/-! ## What a step does to the bimap -/

theorem acceptInsert_entries {cfg : Config} {s : St} (h : Inv cfg s) {e : ℕ × ℕ}
    (he : e ∈ (acceptInsert s).frontConns) : e ∈ s.frontConns ∨ e.2 = 0 ∧ e.1 ∉ s.keys := by
  have hreg : ∀ (t : St) (c : ℕ), t.frontConns = s.frontConns → c ∉ s.keys → e ∈ (register t c).frontConns →
      e ∈ s.frontConns ∨ e.2 = 0 ∧ e.1 ∉ s.keys := by
    intro t c ht hc hmem
    rcases mem_register hmem with hmem | ⟨rfl, -⟩
    · exact .inl (ht ▸ hmem)
    · exact .inr ⟨rfl, hc⟩
  unfold acceptInsert at he
  split at he
  · split at he
    · rename_i c cached hcache
      have hc : c ∈ s.cachedConns := by rw [hcache]; exact List.mem_cons_self
      dsimp only at he
      split_ifs at he
      · exact hreg _ c rfl (h.registry.disjoint c hc) he
      · exact .inl he
    · exact hreg _ _ rfl (fun hk => (h.known _ (.inl hk)).false) he
  · exact .inl he

theorem managePass_entries (cfg : Config) (s : St) (order : List ℕ) :
    (managePass cfg s order).frontConns ⊆ s.frontConns := by
  have hitem : ∀ (s : St) (c : ℕ), (manageItem cfg s c).frontConns ⊆ s.frontConns := by
    intro s c
    have hskip := (skip_same s c).frontConns
    have hout : (unregister (skip s c) c).frontConns ⊆ s.frontConns := by
      intro e he
      rw [← hskip]
      exact List.mem_of_mem_filter he
    unfold manageItem
    dsimp only
    split_ifs
    · exact fun _ => id
    · unfold recycle
      split_ifs
      · exact hout
      · exact hout
    · exact hout
    · exact fun _ => id
  have hitems : ∀ (order : List ℕ) (s : St), (order.foldl (manageItem cfg) s).frontConns ⊆ s.frontConns := by
    intro order
    induction order with
    | nil => exact fun s _ => id
    | cons c order ih => exact fun s e he => hitem s c (ih _ he)
  unfold managePass
  dsimp only
  split_ifs
  · exact hitems order s
  · exact hitems order s
  · exact hitems order s
  · exact fun _ => id

theorem acceptTest_entries (cfg : Config) (s : St) : (acceptTest cfg s).frontConns = s.frontConns := by
  unfold acceptTest
  dsimp only
  split_ifs <;> rfl

theorem acceptStart_entries (s : St) : (acceptStart s).frontConns = s.frontConns := by
  unfold acceptStart
  split
  · exact (startOp_same _ _ _).frontConns
  · rfl

/-- where the entries after a step come from -/
theorem step_entries {cfg : Config} {s : St} (h : Inv cfg s) (o : Op) {e : ℕ × ℕ}
    (he : e ∈ (step cfg s o).frontConns) :
    (∃ c sessionId, o = .setSessionId c sessionId ∧ s.aborted = none ∧ c ∈ s.keys ∧
      (e = (c, sessionId) ∨ e ∈ s.frontConns ∧ e.1 ≠ c)) ∨
    (∀ c sessionId, o = .setSessionId c sessionId → s.aborted = none → c ∉ s.keys) ∧
      (e ∈ s.frontConns ∨ e.2 = 0 ∧ e.1 ∉ s.keys) := by
  unfold step at he
  by_cases ha : s.aborted.isSome
  · rw [if_pos ha] at he
    exact .inr ⟨fun _ _ _ hn => by simp [hn] at ha, .inl he⟩
  rw [if_neg ha] at he
  rw [Option.not_isSome_iff_eq_none] at ha
  cases o with
  | setSessionId c sessionId =>
    unfold setSessionId at he
    dsimp only at he
    split_ifs at he with hc
    · obtain ⟨e0, he0, heq⟩ := List.mem_map.1 he
      refine .inl ⟨c, sessionId, rfl, ha, hc, ?_⟩
      split_ifs at heq with hec
      · exact .inl heq.symm
      · rw [← heq]
        exact .inr ⟨he0, hec⟩
    · exact .inr ⟨fun d _ hd _ => by cases hd; exact hc, .inl he⟩
  | acceptInsert => exact .inr ⟨fun _ _ hd => by (cases hd), acceptInsert_entries h he⟩
  | managePass order => exact .inr ⟨fun _ _ hd => by (cases hd), .inl (managePass_entries cfg s order he)⟩
  | advance d => exact .inr ⟨fun _ _ hd => by (cases hd), .inl he⟩
  | acceptError =>
    dsimp only at he
    split_ifs at he
    · exact .inr ⟨fun _ _ hd => by (cases hd), .inl he⟩
    · exact .inr ⟨fun _ _ hd => by (cases hd), .inl he⟩
  | acceptTest => exact .inr ⟨fun _ _ hd => by (cases hd), .inl (acceptTest_entries cfg s ▸ he)⟩
  | acceptStart => exact .inr ⟨fun _ _ hd => by (cases hd), .inl (acceptStart_entries s ▸ he)⟩
  | complete i ec n => exact .inr ⟨fun _ _ hd => by (cases hd), .inl ((complete_same s i ec n).frontConns ▸ he)⟩
  | lookUp sessionId => exact .inr ⟨fun _ _ hd => by (cases hd), .inl ((lookUp_same s sessionId).frontConns ▸ he)⟩
  | pushFront => exact .inr ⟨fun _ _ hd => by (cases hd), .inl ((pushFront_same s).frontConns ▸ he)⟩
  | pushToRemove c => exact .inr ⟨fun _ _ hd => by (cases hd), .inl he⟩
  | tickScan => exact .inr ⟨fun _ _ hd => by (cases hd), .inl ((tickScan_same cfg s).frontConns ▸ he)⟩
  | tickPush => exact .inr ⟨fun _ _ hd => by (cases hd), .inl ((tickPush_same cfg s).frontConns ▸ he)⟩

/-- an id that nobody else was given -/
theorem give_set {cfg : Config} {s : St} (g : Given) {c sessionId : ℕ} (ha : s.aborted = none) (hc : c ∈ s.keys) :
    give cfg s g (.setSessionId c sessionId) =
      ⟨Function.update g.session c sessionId, Function.update g.last sessionId (some c)⟩ :=
  if_pos ⟨ha, hc⟩

/-- any other step -/
theorem give_other {cfg : Config} {s : St} (g : Given) {o : Op}
    (ho : ∀ c sessionId, o = .setSessionId c sessionId → s.aborted = none → c ∉ s.keys) :
    (give cfg s g o).last = g.last ∧
      ∀ c ∈ (step cfg s o).keys, (give cfg s g o).session c = if c ∈ s.keys then g.session c else 0 := by
  have hnew : ∀ c ∈ (step cfg s o).keys, (if c ∈ (step cfg s o).keys ∧ c ∉ s.keys then 0 else g.session c) =
      if c ∈ s.keys then g.session c else 0 := by
    intro c hc
    by_cases hk : c ∈ s.keys
    · rw [if_neg (fun h => h.2 hk), if_pos hk]
    · rw [if_pos ⟨hc, hk⟩, if_neg hk]
  cases o with
  | setSessionId c sessionId =>
    have hno : ¬ (s.aborted = none ∧ c ∈ s.keys) := fun h => ho c sessionId rfl h.1 h.2
    rw [give, if_neg hno]
    refine ⟨rfl, ?_⟩
    intro d hd
    have hkeys : (step cfg s (.setSessionId c sessionId)).keys = s.keys := by
      unfold step
      by_cases ha : s.aborted.isSome
      · rw [if_pos ha]
      · rw [if_neg ha]
        exact keys_setSessionId s c sessionId
    rw [if_pos (hkeys ▸ hd)]
  | _ => exact ⟨rfl, hnew⟩

/-! ## Results -/

theorem step_routed {cfg : Config} (p : St × Given) (o : Op) (hone : OneHolder p o) (h : Routed cfg p) :
    Routed cfg (stepGiven cfg p o) := by
  obtain ⟨s, g⟩ := p
  have hreg : Inv cfg s := h.registry
  refine ⟨step_inv s o hreg, fun e he => ?_, fun e he hid => ?_⟩
  · rcases step_entries hreg o he with ⟨c, sessionId, rfl, ha, hc, hce⟩ | ⟨ho, hold⟩
    · show (give cfg s g (.setSessionId c sessionId)).session e.1 = e.2
      rw [give_set g ha hc]
      rcases hce with rfl | ⟨hmem, hne⟩
      · exact Function.update_self ..
      · exact (Function.update_of_ne hne ..).trans (h.session e hmem)
    · have hkey : e.1 ∈ (step cfg s o).keys := List.mem_map_of_mem he
      refine ((give_other g ho).2 e.1 hkey).trans ?_
      rcases hold with hmem | ⟨hzero, hnew⟩
      · have hk : e.1 ∈ s.keys := List.mem_map_of_mem hmem
        rw [if_pos hk]
        exact h.session e hmem
      · rw [if_neg hnew, hzero]
  · rcases step_entries hreg o he with ⟨c, sessionId, rfl, ha, hc, hce⟩ | ⟨ho, hold⟩
    · show (give cfg s g (.setSessionId c sessionId)).last e.2 = some e.1
      rw [give_set g ha hc]
      rcases hce with rfl | ⟨hmem, hne⟩
      · exact Function.update_self ..
      · -- an entry that stays has another id, for the id given was nobody else's
        have hother : e.2 ≠ sessionId := fun heq => hne (hone ha hc (heq ▸ hid) e hmem heq)
        exact (Function.update_of_ne hother ..).trans (h.last e hmem hid)
    · refine (congrFun (give_other g ho).1 e.2).trans ?_
      rcases hold with hmem | ⟨hzero, -⟩
      · exact h.last e hmem hid
      · exact absurd hzero hid.1

/-- once two registered connections have an id, the lookup asserts -/
theorem oneHolder_of_routes {cfg : Config} (p : St × Given) (o : Op) (hroutes : Routes (stepGiven cfg p o)) :
    OneHolder p o := by
  obtain ⟨s, g⟩ := p
  cases o with
  | setSessionId c sessionId =>
    intro ha hc hid e he heq
    by_contra hne
    obtain ⟨r, hr⟩ := hroutes.asserts sessionId hid
    have hstep : (step cfg s (.setSessionId c sessionId)).frontConns =
        s.frontConns.map fun e => if e.1 = c then (c, sessionId) else e := by
      have hn : ¬ s.aborted.isSome := Option.not_isSome_iff_eq_none.2 ha
      have hk : c ∈ s.keys := hc
      unfold step
      rw [if_neg hn]
      dsimp only [setSessionId]
      rw [if_pos hk]
    have h1 : (c, sessionId) ∈ (step cfg s (.setSessionId c sessionId)).frontConns := by
      rw [hstep]
      obtain ⟨e0, he0, hec⟩ := List.mem_map.1 hc
      exact List.mem_map.2 ⟨e0, he0, if_pos hec⟩
    have h2 : e ∈ (step cfg s (.setSessionId c sessionId)).frontConns := by
      rw [hstep]
      exact List.mem_map.2 ⟨e, he, if_neg hne⟩
    have hsame := requestConnection_ok hr h1 h2 rfl heq
    exact hne (congrArg Prod.fst hsame).symm
  | _ => trivial

/-- **Exactly when sessions are routed.** In every state of a run `request_connection` finds the connection that was
given the id last and has it still, or none, without failing its assertion, and `request_session_id` and
`set_session_id` answer as the history says, if and only if no id is given while another registered connection has
it. -/
theorem routes_iff_oneHolder (cfg : Config) (now : ℕ) (ops : List Op) :
    Always (stepGiven cfg) Routes (init cfg now, noneGiven) ops ↔
      Meets (stepGiven cfg) OneHolder (init cfg now, noneGiven) ops :=
  always_iff_meets (L := fun _ _ => True) (fun _ => Routed.routes) (fun p o _ => step_routed p o)
    (fun p o _ _ => oneHolder_of_routes p o) (meets_of_forall fun _ _ _ => trivial)
    ⟨inv_init cfg now, by simp [init], by simp [init]⟩

/-- **A client that comes back** with its session id while its old connection is still registered. -/
theorem reconnected_client_asserts :
    ¬ Always (stepGiven mainConfig) Routes (init mainConfig 0, noneGiven)
      [.acceptTest, .acceptInsert, .acceptStart, .setSessionId 0 7, .acceptTest, .acceptInsert, .acceptStart,
        .setSessionId 1 7] := by
  intro h
  obtain ⟨r, hr⟩ := h.last.asserts 7 ⟨by decide, by decide⟩
  have herr : requestConnection (run (stepGiven mainConfig) (init mainConfig 0, noneGiven)
      [.acceptTest, .acceptInsert, .acceptStart, .setSessionId 0 7, .acceptTest, .acceptInsert, .acceptStart,
        .setSessionId 1 7]).1 7 = .error .unique := by
    rfl
  rw [herr] at hr
  cases hr

end AirobotMsgd.FrontServer
