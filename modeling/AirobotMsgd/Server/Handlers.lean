/-
The handlers of a front connection, as the front server sees them (source/front_conn.cpp). The front server takes from a
handler the operations it starts and whether it reports an error: one of the lists of `outcomes`. Here every run of the
read handlers and of the write handler, on its buffers, is found to do one of these lists.

Results:
- `handle_does`: the events of a handler, on a connection of any status, are those of one of its `outcomes`.
- `complete_handles`: the front server has a step for every run of a handler, with the same operations started, the same
  status and the same entry in the pending set.
-/
import AirobotMsgd.Front.FrontConn
import AirobotMsgd.Server.FrontServer

namespace AirobotMsgd.Handlers

open AirobotMsgd.Bytes AirobotMsgd.HttpProto AirobotMsgd.FrontServer

/-- the handler bound to an operation runs -/
def handle (c : FrontConn) (hd : Handler) (env : Env) (ec : Ec) (n : ℕ) : FrontConn × List Ev :=
  match hd with
  | .readHead => c.readHeadHandler env ec n
  | .readBody => c.readBodyHandler env ec n
  | .write =>
    let r := FrontConn.writeHandler c.conn env.now ec n
    ({ c with conn := r.1 }, r.2)

/-- what the front server sees of an event -/
def act : Ev → Option Act
  | .asyncReadUntil => some .doReadHead
  | .asyncRead .. => some .doReadBody
  | .asyncWrite _ => some .doWrite
  | .notifyConnError => some .notifyConnError
  | _ => none

/-- a connection that is not working starts nothing -/
def effective (stats : ConnStats) (acts : List Act) : List Act :=
  if stats = .connWorking then acts else acts.filter (· = .notifyConnError)

/-- the status behind these actions -/
def after (stats : ConnStats) (acts : List Act) : ConnStats :=
  if .notifyConnError ∈ acts then .connError else stats

/-- from one status to the other, with the events of these actions -/
structure Does (stats : ConnStats) (acts : List Act) (stats' : ConnStats) (evs : List Ev) : Prop where
  events : evs.filterMap act = effective stats acts
  status : stats' = after stats acts

/-- a run of a handler does one of these lists -/
def DoesOne (c : FrontConn) (lists : List (List Act)) (r : FrontConn × List Ev) : Prop :=
  ∃ acts ∈ lists, Does c.conn.stats acts r.1.conn.stats r.2

theorem effective_append (stats : ConnStats) (a b : List Act) :
    effective stats (a ++ b) = effective stats a ++ effective stats b := by
  unfold effective
  split_ifs
  · rfl
  · exact List.filter_append a b

/-- nothing that the front server sees -/
theorem does_nothing {stats : ConnStats} {evs : List Ev} (h : ∀ e ∈ evs, act e = none) : Does stats [] stats evs := by
  refine ⟨?_, rfl⟩
  rw [List.filterMap_eq_nil_iff.2 h, effective]
  split_ifs <;> rfl

theorem Does.append {stats stats' stats'' : ConnStats} {a b : List Act} {evs evs' : List Ev} (h : Does stats a stats' evs)
    (hquiet : .notifyConnError ∉ a) (h' : Does stats' b stats'' evs') : Does stats (a ++ b) stats'' (evs ++ evs') := by
  obtain rfl : stats' = stats := by simpa [after, hquiet] using h.status
  refine ⟨?_, ?_⟩
  · rw [List.filterMap_append, h.events, h'.events, effective_append]
  · rw [h'.status]
    simp [after, hquiet]

/-- events that the front server does not see, and then one of the lists -/
theorem DoesOne.andThen {c : FrontConn} {lists : List (List Act)} {r : FrontConn × List Ev}
    {f : FrontConn → FrontConn × List Ev} (hstats : r.1.conn.stats = c.conn.stats) (hevs : ∀ e ∈ r.2, act e = none)
    (h : DoesOne r.1 lists (f r.1)) : DoesOne c lists (FrontConn.andThen r f) := by
  obtain ⟨acts, hmem, hdoes⟩ := h
  refine ⟨acts, hmem, ?_⟩
  rw [hstats] at hdoes
  exact (does_nothing hevs).append (by simp) hdoes

theorem DoesOne.mono {c : FrontConn} {lists lists' : List (List Act)} {r : FrontConn × List Ev}
    (h : DoesOne c lists r) (hsub : lists ⊆ lists') : DoesOne c lists' r := by
  obtain ⟨acts, hmem, hdoes⟩ := h
  exact ⟨acts, hsub hmem, hdoes⟩

/-! ## What the handlers are made of -/

section
variable (c : FrontConn) (env : Env)

theorem fillAndWrite_does (content status : Str) :
    Does c.conn.stats [.doWrite] (c.fillAndWrite env content status).1.conn.stats
      (c.fillAndWrite env content status).2 := by
  refine ⟨?_, (FrontConn.fillAndWrite_sameRead c env content status).stats⟩
  by_cases hw : c.conn.stats = .connWorking
  · rw [FrontConn.fillAndWrite_working hw, effective, if_pos hw]
    rfl
  · rw [FrontConn.fillAndWrite_idle hw, effective, if_neg hw]
    rfl

theorem doReadHead_does (now : ℕ) :
    Does c.conn.stats [.doReadHead] (c.doReadHead now).1.conn.stats (c.doReadHead now).2 := by
  refine ⟨?_, (FrontConn.doReadHead_sameRead c now).stats⟩
  unfold FrontConn.doReadHead effective
  by_cases hw : c.conn.stats = .connWorking
  · rw [if_neg (not_not.2 hw), if_pos hw]
    rfl
  · rw [if_pos hw, if_neg hw]
    rfl

theorem doReadBody_does (now : ℕ) :
    Does c.conn.stats [.doReadBody] (c.doReadBody now).1.conn.stats (c.doReadBody now).2 := by
  unfold FrontConn.doReadBody
  by_cases hw : c.conn.stats = .connWorking
  · rw [if_neg (not_not.2 hw)]
    exact ⟨by rw [effective, if_pos hw]; rfl, rfl⟩
  · rw [if_pos hw]
    exact ⟨by rw [effective, if_neg hw]; rfl, rfl⟩

theorem fillWriteRead_does (content status : Str) :
    Does c.conn.stats [.doWrite, .doReadHead] (c.fillWriteRead env content status).1.conn.stats
      (c.fillWriteRead env content status).2 :=
  (fillAndWrite_does c env content status).append (by simp) (doReadHead_does _ env.now)

theorem notifyConnError_does (conn : Connection) :
    Does conn.stats [.notifyConnError] (FrontConn.notifyConnError conn).1.stats (FrontConn.notifyConnError conn).2 := by
  refine ⟨?_, rfl⟩
  unfold effective
  split_ifs <;> rfl

/-- a handler that is not aborted may report an error -/
theorem notify_outcome (hd : Handler) {ec : Ec} (h : ec ≠ .operationAborted) :
    [.notifyConnError] ∈ outcomes hd ec := by
  cases ec with
  | success => cases hd <;> simp [outcomes]
  | operationAborted => exact absurd rfl h
  | failure => cases hd <;> simp [outcomes]

theorem errorReturn_does :
    Does c.conn.stats [.doWrite] (c.errorReturn env).1.conn.stats (c.errorReturn env).2 := by
  rw [FrontConn.errorReturn_eq]
  exact fillAndWrite_does { c with conn := { c.conn with rSize := 0 }, request := [] } env _ _

/-- the answer, or none -/
theorem handleBb_does : DoesOne c [[.doWrite, .doReadHead], []] (c.handleBb env) := by
  unfold FrontConn.handleBb
  dsimp only
  refine DoesOne.andThen rfl (by simp [act]) ?_
  dsimp only
  by_cases herr : (Json11.parse (cut (c.conn.pBuffer.take c.conn.rSize)) env.errno).err = []
  · rw [if_neg (not_not.2 herr)]
    refine DoesOne.andThen rfl (by simp [act]) ?_
    dsimp only
    split_ifs
    · exact ⟨[], by simp, does_nothing (by simp)⟩
    · exact ⟨[], by simp, does_nothing (by simp)⟩
    · exact ⟨[.doWrite, .doReadHead], by simp, fillWriteRead_does c env _ _⟩
  · rw [if_pos herr]
    exact ⟨[.doWrite, .doReadHead], by simp, fillWriteRead_does c env _ _⟩

theorem dispatchBody_does : DoesOne c [[.doWrite, .doReadHead], []] (c.dispatchBody env) := by
  unfold FrontConn.dispatchBody
  dsimp only
  split_ifs
  · exact ⟨[.doWrite, .doReadHead], by simp, fillWriteRead_does c env _ _⟩
  · exact handleBb_does c env
  · exact ⟨[.doWrite, .doReadHead], by simp, fillWriteRead_does c env _ _⟩
  · exact ⟨[.doWrite, .doReadHead], by simp, fillWriteRead_does c env _ _⟩

theorem readBodyHandler_does (ec : Ec) (n : ℕ) : DoesOne c (outcomes .readBody ec) (c.readBodyHandler env ec n) := by
  unfold FrontConn.readBodyHandler
  split_ifs with hok haborted
  · obtain ⟨rfl, -⟩ := hok
    dsimp only
    refine DoesOne.andThen rfl (by simp [act]) ?_
    dsimp only
    split_ifs
    · exact ⟨[.doReadBody], by simp [outcomes], doReadBody_does _ env.now⟩
    · refine DoesOne.andThen rfl (by simp [act]) ?_
      exact (dispatchBody_does _ env).mono (by simp [outcomes])
  · exact ⟨[.notifyConnError], notify_outcome .readBody haborted, notifyConnError_does c.conn⟩
  · obtain rfl := not_not.1 haborted
    exact ⟨[.doWrite, .doReadHead], by simp [outcomes], fillWriteRead_does c env _ _⟩

theorem moveAdditional_quiet :
    c.moveAdditional.1.conn.stats = c.conn.stats ∧ ∀ e ∈ c.moveAdditional.2, act e = none := by
  unfold FrontConn.moveAdditional
  split_ifs
  · exact ⟨rfl, by simp⟩
  · exact ⟨rfl, by simp [act]⟩

theorem readBodyOf_does (additionalSize : ℕ) :
    DoesOne c (outcomes .readBody .success) (c.readBodyOf env .success additionalSize) := by
  obtain ⟨hstats, hevs⟩ := moveAdditional_quiet c
  unfold FrontConn.readBodyOf
  refine DoesOne.andThen hstats hevs ?_
  dsimp only
  split_ifs
  · exact ⟨[.doReadBody], by simp [outcomes],
      doReadBody_does { c.moveAdditional.1 with
        conn := { c.moveAdditional.1.conn with rSize := additionalSize } } env.now⟩
  · exact readBodyHandler_does _ env .success additionalSize

theorem dispatchHead_does : DoesOne c (outcomes .readBody .success) (c.dispatchHead env .success) := by
  unfold FrontConn.dispatchHead
  dsimp only
  by_cases hmore : c.len < c.request.length
  · rw [if_pos hmore]
    exact ⟨[], by simp [outcomes], does_nothing (by simp [act])⟩
  · rw [if_neg hmore]
    refine DoesOne.andThen rfl (by simp [act]) ?_
    dsimp only
    by_cases hgrow : c.conn.pBuffer.length < (c.len + 1) % FrontConn.SIZE_MOD
    · rw [if_pos hgrow]
      by_cases hmax : FrontConn.maxSize < (c.len + 256) % FrontConn.SIZE_MOD
      · rw [if_pos hmax]
        exact ⟨[], by simp [outcomes], does_nothing (by simp [act])⟩
      · rw [if_neg hmax]
        refine DoesOne.andThen rfl (by simp [act]) ?_
        exact readBodyOf_does _ env _
    · rw [if_neg hgrow]
      exact readBodyOf_does _ env _

theorem readHeadHandler_does (ec : Ec) (n : ℕ) : DoesOne c (outcomes .readHead ec) (c.readHeadHandler env ec n) := by
  unfold FrontConn.readHeadHandler
  split_ifs with hok haborted
  · obtain ⟨rfl, -⟩ := hok
    dsimp only
    split
    · exact ⟨[], by simp [outcomes], does_nothing (by simp [act])⟩
    · exact ⟨[.doWrite], by simp [outcomes], errorReturn_does { c with request := _, headerOpts := _ } env⟩
    · rename_i headerOpts _
      split_ifs
      · exact ⟨[.doWrite], by simp [outcomes], fillAndWrite_does { c with request := _, headerOpts := _ } env _ _⟩
      · have hsub : outcomes .readBody .success ⊆ outcomes .readHead .success := by simp [outcomes]
        exact (dispatchHead_does { c with request := c.request.drop n, headerOpts } env).mono hsub
      · exact ⟨[.doWrite], by simp [outcomes], fillAndWrite_does { c with request := _, headerOpts := _ } env _ _⟩
  · exact ⟨[.notifyConnError], notify_outcome .readHead haborted, notifyConnError_does c.conn⟩
  · obtain rfl := not_not.1 haborted
    exact ⟨[.doWrite], by simp [outcomes], errorReturn_does c env⟩

end

/-- a write goes on where some of its bytes are left -/
theorem writeHandler_does (conn : Connection) (now : ℕ) (ec : Ec) (n : ℕ) :
    ∃ acts ∈ outcomes .write ec, Does conn.stats acts (FrontConn.writeHandler conn now ec n).1.stats
      (FrontConn.writeHandler conn now ec n).2 := by
  unfold FrontConn.writeHandler
  dsimp only
  split_ifs with hok hleft haborted
  · obtain ⟨rfl, -⟩ := hok
    obtain ⟨t, ht⟩ := FrontConn.doWrite_eq { conn with wPos := conn.wPos + n } now
    refine ⟨[.doWrite], by simp [outcomes], ?_, by rw [ht]; rfl⟩
    by_cases hw : conn.stats = .connWorking
    · have hsize : conn.wSize ≠ 0 := Nat.ne_zero_of_lt hleft
      have hgo := FrontConn.doWrite_working (c := { conn with wPos := conn.wPos + n }) hw hsize hleft now
      rw [hgo, effective, if_pos hw]
      rfl
    · simp [FrontConn.doWrite, effective, hw]
  · obtain ⟨rfl, -⟩ := hok
    exact ⟨[], by simp [outcomes], does_nothing (by simp)⟩
  · exact ⟨[.notifyConnError], notify_outcome .write haborted, notifyConnError_does conn⟩
  · obtain rfl := not_not.1 haborted
    exact ⟨[], by simp [outcomes], does_nothing (by simp)⟩

/-- **A handler does one of its outcomes.** -/
theorem handle_does (c : FrontConn) (hd : Handler) (env : Env) (ec : Ec) (n : ℕ) :
    DoesOne c (outcomes hd ec) (handle c hd env ec n) := by
  cases hd with
  | readHead => exact readHeadHandler_does c env ec n
  | readBody => exact readBodyHandler_does c env ec n
  | write => exact writeHandler_does c.conn env.now ec n

/-! ## The front server's step -/

/-- the operation that an action starts -/
def Act.op (c sock : ℕ) : Act → Option AsyncOp
  | .doReadHead => some ⟨c, .readHead, sock⟩
  | .doReadBody => some ⟨c, .readBody, sock⟩
  | .doWrite => some ⟨c, .write, sock⟩
  | .notifyConnError => none

/-- what the front server keeps of a handler that did these actions on connection c -/
structure Performed (c sock : ℕ) (acts : List Act) (s s' : St) : Prop where
  aborted : s'.aborted = none
  keepsSock : (s'.conns c).sock = some sock
  ops : s'.ops = s.ops ++ (effective (s.conns c).stats acts).filterMap (Act.op c sock)
  status : (s'.conns c).stats = after (s.conns c).stats acts
  pending : ∀ d, d ∈ s'.pendingToRemove ↔ d ∈ s.pendingToRemove ∨ d = c ∧ .notifyConnError ∈ acts

theorem perform_start {c sock : ℕ} {s : St} (ha : s.aborted = none) (hsock : (s.conns c).sock = some sock) {a : Act}
    (hne : a ≠ .notifyConnError) : Performed c sock [a] s (perform c s a) := by
  have hstart : ∀ hd : Handler, Act.op c sock a = some ⟨c, hd, sock⟩ → Performed c sock [a] s (startOp s c hd) := by
    intro hd hop
    unfold startOp
    by_cases hw : (s.conns c).stats = .connWorking
    · rw [if_neg (not_not.2 hw), hsock]
      refine ⟨ha, by simp [St.setConn, hsock], ?_, by simp [St.setConn, after, hne.symm], by simp [St.setConn, hne.symm]⟩
      rw [effective, if_pos hw, List.filterMap_cons_some hop]
      rfl
    · rw [if_pos hw]
      refine ⟨ha, hsock, ?_, by simp [after, hne.symm], by simp [hne.symm]⟩
      simp [effective, hw, hne]
  unfold perform
  rw [if_neg (by simp [ha])]
  cases a with
  | doReadHead => exact hstart .readHead rfl
  | doReadBody => exact hstart .readBody rfl
  | doWrite => exact hstart .write rfl
  | notifyConnError => exact absurd rfl hne

theorem perform_notify {c sock : ℕ} {s : St} (ha : s.aborted = none) (hsock : (s.conns c).sock = some sock) :
    Performed c sock [.notifyConnError] s (perform c s .notifyConnError) := by
  unfold perform
  rw [if_neg (by simp [ha]), hsock]
  refine ⟨ha, by simp [pushToRemove, St.setConn, hsock], ?_, by simp [pushToRemove, St.setConn, after], fun d => ?_⟩
  · unfold effective
    split_ifs <;> simp [pushToRemove, St.setConn, Act.op]
  · simp [pushToRemove, St.setConn, or_comm]

/-- actions that start operations, one after the other -/
theorem performAll_start {c sock : ℕ} {acts : List Act} (hquiet : .notifyConnError ∉ acts) {s : St}
    (ha : s.aborted = none) (hsock : (s.conns c).sock = some sock) :
    Performed c sock acts s (acts.foldl (perform c) s) := by
  induction acts generalizing s with
  | nil =>
    refine ⟨ha, hsock, ?_, by simp [after], by simp⟩
    simp [effective]
  | cons a acts ih =>
    rw [List.mem_cons, not_or] at hquiet
    have hfirst := perform_start ha hsock (Ne.symm hquiet.1)
    have hrest := ih hquiet.2 hfirst.aborted hfirst.keepsSock
    have hsame : ((perform c s a).conns c).stats = (s.conns c).stats := by
      simpa [after, hquiet.1] using hfirst.status
    refine ⟨hrest.aborted, hrest.keepsSock, ?_, ?_, fun d => ?_⟩
    · rw [List.foldl_cons, hrest.ops, hfirst.ops, hsame, List.append_assoc, ← List.filterMap_append, ← effective_append]
      rfl
    · rw [List.foldl_cons, hrest.status, hsame]
      simp [after, hquiet.1, hquiet.2]
    · rw [List.foldl_cons, hrest.pending, hfirst.pending]
      simp [hquiet.1, hquiet.2]

/-- an outcome reports an error and does nothing else, or reports none -/
theorem outcomes_notify {hd : Handler} {ec : Ec} {acts : List Act} (h : acts ∈ outcomes hd ec) :
    acts = [.notifyConnError] ∨ .notifyConnError ∉ acts := by
  revert acts
  cases hd <;> cases ec <;> decide

/-- **The front server has a step for every run of a handler.** Where the connection has the status that the handler finds,
the completion has an outcome that starts the handler's operations, leaves its status, and puts the connection into the
pending set if the handler does. -/
theorem complete_handles {s : St} (ha : s.aborted = none) {i : ℕ} {op : AsyncOp} (hop : s.ops[i]? = some op) {sock : ℕ}
    (hsock : (s.conns op.conn).sock = some sock) {c : FrontConn} (hstats : c.conn.stats = (s.conns op.conn).stats)
    (env : Env) (ec : Ec) (n : ℕ) :
    ∃ k, (complete s i ec k).aborted = none ∧
      (complete s i ec k).ops = s.ops.eraseIdx i ++
        ((handle c op.handler env ec n).2.filterMap act).filterMap (Act.op op.conn sock) ∧
      ((complete s i ec k).conns op.conn).stats = (handle c op.handler env ec n).1.conn.stats ∧
      ∀ d, d ∈ (complete s i ec k).pendingToRemove ↔
        d ∈ s.pendingToRemove ∨ d = op.conn ∧ .notifyConnError ∈ (handle c op.handler env ec n).2.filterMap act := by
  obtain ⟨acts, hacts, hdoes⟩ := handle_does c op.handler env ec n
  obtain ⟨k, hk⟩ := List.getElem?_of_mem hacts
  have hall : Performed op.conn sock acts s (acts.foldl (perform op.conn) s) := by
    rcases outcomes_notify hacts with rfl | hquiet
    · exact perform_notify ha hsock
    · exact performAll_start hquiet ha hsock
  have hstep : complete s i ec k =
      { acts.foldl (perform op.conn) s with ops := (acts.foldl (perform op.conn) s).ops.eraseIdx i } := by
    simp only [complete, hop, hk]
  have hnotify : .notifyConnError ∈ effective (s.conns op.conn).stats acts ↔ .notifyConnError ∈ acts := by
    unfold effective
    split_ifs
    · exact Iff.rfl
    · simp
  obtain ⟨hi, -⟩ := List.getElem?_eq_some_iff.1 hop
  refine ⟨k, ?_⟩
  rw [hstep, hdoes.events, hdoes.status, hstats]
  refine ⟨hall.aborted, ?_, hall.status, fun d => ?_⟩
  · dsimp only
    rw [hall.ops, List.eraseIdx_append_of_lt_length hi]
  · rw [hnotify]
    exact hall.pending d

end AirobotMsgd.Handlers
