/-
"If error, we will not read anymore" (`read_head_handler`), over whole runs of one front connection.

`Ends r last`: how the handlers' work may end on a connection that is still working, with the outstanding read r. It
ends with a read, with the write of a refusal, or, for a `/bb` whose outgoing connect or read fails, with the push to
the backend. So a working connection that reads nothing has refused a request of its client or left one unanswered.

- `working_ends`: in every run that stays in bounds a working connection is at such an end.
- `silent_step`, `silent_run`: without a read a connection does nothing any more until it is recycled.
- `refused_is_last`: **a refused request is the last one.**
-/
import AirobotMsgd.Front.Reading

namespace AirobotMsgd.Reading

open AirobotMsgd.Bytes AirobotMsgd.HttpText AirobotMsgd.HttpProto AirobotMsgd.HttpParser AirobotMsgd.Runs

/-! ## The end of a handler's work -/

/-- the replies after which `read_head_handler` does not read on -/
def refusals : List (Str × Str) :=
  [(contentBadRequest, Status.badRequest), (contentNotFound, Status.notFound),
    (contentError, Status.internalServerError)]

inductive Ends : Outstanding → List Ev → Prop
  | head : Ends .head [.asyncReadUntil]
  | body (win : Window) (size : ℕ) : Ends (.body win) [.asyncRead win size]
  /-- no read is started behind the reply -/
  | refused {content status : Str} (win : Window) (h : (content, status) ∈ refusals) :
    Ends .none [.fillForHttp content status, .assertion true, .asyncWrite win]
  /-- a `/bb` that is returned from without a reply -/
  | unanswered (siteId : ℕ) (dat : Str) (len : ℕ) : Ends .none [.pushBackend siteId dat len]

/-- if nothing went wrong and the connection is still working, the work is at an end -/
def Closed (stats : ConnStats) (r : Outstanding) (evs : List Ev) : Prop :=
  (∀ e ∈ evs, e.Ok) → stats = .connWorking → ∃ before last, evs = before ++ last ∧ Ends r last

/-- what a handler has done is at an end -/
def Closes (r : FrontConn × List Ev) : Prop := Closed r.1.conn.stats (started r.2) r.2

theorem Closed.append {stats : ConnStats} {r : Outstanding} {evs : List Ev} (h : Closed stats r evs)
    (earlier : List Ev) : Closed stats r (earlier ++ evs) := by
  intro hok hw
  obtain ⟨before, last, rfl, hends⟩ := h (fun e he => hok e (List.mem_append_right _ he)) hw
  exact ⟨earlier ++ before, last, (List.append_assoc _ _ _).symm, hends⟩

theorem Closes.andThen {c : FrontConn} {evs : List Ev} {f : FrontConn → FrontConn × List Ev}
    (hquiet : ∀ e ∈ evs, Quiet e) (h : Closes (f c)) : Closes (FrontConn.andThen (c, evs) f) := by
  have hstarted : started (FrontConn.andThen (c, evs) f).2 = started (f c).2 := started_append hquiet
  rw [Closes, hstarted]
  exact Closed.append h evs

/-- a handler that leaves the connection failed has ended -/
theorem closes_idle {r : FrontConn × List Ev} (h : r.1.conn.stats ≠ .connWorking) : Closes r :=
  fun _ hw => absurd hw h

/-- one that has met an event out of bounds has nothing to show -/
theorem closes_bad {r : FrontConn × List Ev} {e : Ev} (he : e ∈ r.2) (hbad : ¬ e.Ok) : Closes r :=
  fun hok _ => absurd (hok e he) hbad

theorem refuse_closes {content status : Str} (h : (content, status) ∈ refusals) (c : FrontConn) (env : Env) :
    Closes (c.fillAndWrite env content status) := by
  by_cases hw : c.conn.stats = .connWorking
  · have hevs := FrontConn.fillAndWrite_working hw env content status
    intro _ _
    rw [hevs]
    exact ⟨[], _, rfl, .refused _ h⟩
  · refine closes_idle ?_
    rwa [(FrontConn.fillAndWrite_sameRead c env content status).stats]

theorem fillWriteRead_closes (c : FrontConn) (env : Env) (content status : Str) :
    Closes (c.fillWriteRead env content status) := by
  by_cases hw : c.conn.stats = .connWorking
  · have hevs := FrontConn.fillWriteRead_working hw env content status
    intro _ _
    rw [hevs]
    exact ⟨[.fillForHttp content status, .assertion true, .asyncWrite _], [.asyncReadUntil], rfl, .head⟩
  · refine closes_idle ?_
    rwa [(FrontConn.fillWriteRead_sameRead c env content status).stats]

theorem readError_closes (c : FrontConn) : Closes c.readError :=
  closes_idle (by simp [FrontConn.readError, FrontConn.notifyConnError])

theorem doReadBody_closes (c : FrontConn) (now : ℕ) : Closes (c.doReadBody now) := by
  unfold FrontConn.doReadBody
  split_ifs with hw
  · exact closes_idle hw
  · intro _ _
    exact ⟨[.sub c.len c.conn.rSize], [.asyncRead _ _], rfl, .body _ _⟩

/-! ## The handlers -/

theorem handleBb_closes (c : FrontConn) (env : Env) : Closes (c.handleBb env) := by
  unfold FrontConn.handleBb
  refine .andThen (by simp [Quiet, Outstanding.next]) ?_
  by_cases herr : (Json11.parse (cut (c.conn.pBuffer.take c.conn.rSize)) env.errno).err ≠ []
  · rw [if_pos herr]
    exact fillWriteRead_closes c env _ _
  · rw [if_neg herr]
    -- past the push: no connection, no answer, an answer
    split_ifs
    · intro _ _
      exact ⟨[], _, rfl, .unanswered _ _ _⟩
    · intro _ _
      exact ⟨[], _, rfl, .unanswered _ _ _⟩
    · exact .andThen (by simp [Quiet, Outstanding.next]) (fillWriteRead_closes c env _ _)

theorem dispatchBody_closes (c : FrontConn) (env : Env) : Closes (c.dispatchBody env) := by
  simp only [FrontConn.dispatchBody]
  split_ifs
  · exact fillWriteRead_closes c env _ _
  · exact handleBb_closes c env
  · exact fillWriteRead_closes c env _ _
  · exact fillWriteRead_closes c env _ _

theorem readBodyHandler_closes (c : FrontConn) (env : Env) (ec : Ec) (k : ℕ) :
    Closes (c.readBodyHandler env ec k) := by
  unfold FrontConn.readBodyHandler
  split_ifs
  · refine .andThen (by simp [Quiet, Outstanding.next]) ?_
    split_ifs
    · exact doReadBody_closes _ _
    · exact .andThen (by simp [Quiet, Outstanding.next]) (dispatchBody_closes _ env)
  · exact readError_closes c
  · exact fillWriteRead_closes c env _ _

theorem readBodyOf_closes (c : FrontConn) (env : Env) (ec : Ec) (k : ℕ) : Closes (c.readBodyOf env ec k) := by
  have hquiet : ∀ e ∈ c.moveAdditional.2, Quiet e := by
    unfold FrontConn.moveAdditional
    split_ifs <;> simp [Quiet, Outstanding.next]
  unfold FrontConn.readBodyOf
  refine Closes.andThen hquiet ?_
  split_ifs
  · exact doReadBody_closes _ _
  · exact readBodyHandler_closes _ env ec k

theorem dispatchHead_closes (c : FrontConn) (env : Env) (ec : Ec) : Closes (c.dispatchHead env ec) := by
  simp only [FrontConn.dispatchHead]
  split_ifs with hassert hmax
  · exact closes_bad (e := .assertion false) (by simp) (by simp [Ev.Ok])
  · refine .andThen (by simp [Quiet, Outstanding.next]) ?_
    split_ifs
    · exact closes_bad (e := .resize ((c.len + 256) % FrontConn.SIZE_MOD)) (by simp) (by simpa [Ev.Ok] using hmax)
    · exact readBodyOf_closes _ env ec _
  · refine .andThen (by simp [Quiet, Outstanding.next]) ?_
    split_ifs
    · exact .andThen (by simp [Quiet, Outstanding.next]) (readBodyOf_closes _ env ec _)
    · exact readBodyOf_closes _ env ec _

theorem errorReturn_closes (c : FrontConn) (env : Env) : Closes (c.errorReturn env) := by
  rw [FrontConn.errorReturn_eq]
  exact refuse_closes (by simp [refusals]) _ env

theorem readHeadHandler_closes (c : FrontConn) (env : Env) (ec : Ec) (n : ℕ) :
    Closes (c.readHeadHandler env ec n) := by
  unfold FrontConn.readHeadHandler
  split_ifs
  · dsimp only
    rcases parseRequest c.headerOpts (cut c.request) with _ | ⟨_ | _, opts⟩
    · exact closes_bad (e := .outOfRange) (by simp) (by simp [Ev.Ok])
    · exact errorReturn_closes _ env
    · dsimp only
      split_ifs
      · exact refuse_closes (by simp [refusals]) _ env
      · exact dispatchHead_closes _ env ec
      · exact refuse_closes (by simp [refusals]) _ env
  · exact readError_closes c
  · exact errorReturn_closes c env

/-! ## Runs -/

def Ended (s : St) : Prop := Closed s.front.conn.stats s.reading s.evs

theorem Closes.ended {r : FrontConn × List Ev} (h : Closes r) (s : St) : Ended (perform s r) :=
  Closed.append h s.evs

theorem start_closes (c : FrontConn) (now : ℕ) : Closes (c.start now) := by
  simp only [FrontConn.start, FrontConn.doReadHead, ne_eq, not_true_eq_false, if_false]
  intro _ _
  exact ⟨[], _, rfl, .head⟩

theorem ended_init (now : ℕ) : Ended (init now) := start_closes _ now

theorem step_ended {s : St} (h : Ended s) (o : Op) : Ended (step s o) := by
  cases o with
  | headData data env =>
    cases hr : s.reading with
    | head =>
      cases hi : find blankLine (receive s.front data).request with
      | none => simpa [step, hr, hi] using h
      | some i => simpa [step, hr, hi] using (readHeadHandler_closes _ env .success (i + 4)).ended s
    | none => simpa [step, hr] using h
    | body win => simpa [step, hr] using h
  | headError data ec env =>
    simp only [step]
    split_ifs
    · exact (readHeadHandler_closes _ env ec 0).ended s
    · exact h
  | bodyData data env =>
    cases hr : s.reading with
    | body win =>
      simp only [step, hr]
      split_ifs
      · exact (readBodyHandler_closes _ env .success _).ended s
      · exact h
    | none => simpa [step, hr] using h
    | head => simpa [step, hr] using h
  | bodyError data ec env =>
    cases hr : s.reading with
    | body win =>
      simp only [step, hr]
      split_ifs
      · exact (readBodyHandler_closes _ env ec _).ended s
      · exact h
    | none => simpa [step, hr] using h
    | head => simpa [step, hr] using h
  | writeSide w => exact h
  | writeError =>
    exact fun _ hw => by simp [step, FrontConn.readError, FrontConn.notifyConnError] at hw
  | expire => exact fun _ hw => by simp [step] at hw
  | recycle now =>
    simp only [step]
    split_ifs
    · exact (start_closes _ now).ended _
    · exact h

/-- how the work of a working connection ends, in every run that stays in bounds -/
theorem working_ends {now : ℕ} {ops : List Op} (hok : InBounds (run step (init now) ops))
    (hw : (run step (init now) ops).front.conn.stats = .connWorking) :
    ∃ before last, (run step (init now) ops).evs = before ++ last ∧ Ends (run step (init now) ops).reading last := by
  have h : Always step Ended (init now) ops := always_run (fun _ o hs => step_ended hs o) (ended_init now)
  exact h.last hok hw

/-- one operation on a connection without a read -/
theorem silent_step {s : St} (h : s.reading = .none) {o : Op} (ho : ∀ now, o ≠ .recycle now) :
    (step s o).reading = .none ∧ ((step s o).evs = s.evs ∨ (step s o).evs = s.evs ++ [.notifyConnError]) := by
  cases o with
  | recycle now => exact absurd rfl (ho now)
  | writeError => exact ⟨h, .inr rfl⟩
  | _ => simp [step, h]

theorem silent_run {s : St} (h : s.reading = .none) {ops : List Op} (hops : ∀ o ∈ ops, ∀ now, o ≠ .recycle now) :
    (run step s ops).reading = .none ∧ ∃ k, (run step s ops).evs = s.evs ++ List.replicate k .notifyConnError := by
  induction ops generalizing s with
  | nil => exact ⟨h, 0, by simp⟩
  | cons o ops ih =>
    obtain ⟨hr, hevs⟩ := silent_step h (hops o List.mem_cons_self)
    obtain ⟨hrun, k, hk⟩ := ih hr fun o' ho' => hops o' (List.mem_cons_of_mem o ho')
    refine ⟨hrun, ?_⟩
    rcases hevs with hevs | hevs
    · exact ⟨k, by rw [run_cons, hk, hevs]⟩
    · refine ⟨k + 1, ?_⟩
      rw [run_cons, hk, hevs, List.append_assoc, List.replicate_succ, List.singleton_append]

/-- **A refused request is the last one.** In every run that stays in bounds, a working connection that reads nothing
has refused the last request it was given or returned from its `/bb` without a reply; and until it is recycled it reads
nothing, and its own handlers reply nothing and push nothing, whatever its client sends. What a backend's `push_front`
writes to it is not theirs. -/
theorem refused_is_last {now : ℕ} {ops : List Op} (hok : InBounds (run step (init now) ops))
    (hw : (run step (init now) ops).front.conn.stats = .connWorking)
    (hr : (run step (init now) ops).reading = .none) :
    let s := run step (init now) ops
    (∃ before last, s.evs = before ++ last ∧
      ((∃ r ∈ refusals, ∃ win, last = [.fillForHttp r.1 r.2, .assertion true, .asyncWrite win]) ∨
        ∃ siteId dat len, last = [.pushBackend siteId dat len])) ∧
    ∀ later : List Op, (∀ o ∈ later, ∀ now, o ≠ .recycle now) →
      (run step s later).reading = .none ∧ ∃ k, (run step s later).evs = s.evs ++ List.replicate k .notifyConnError := by
  refine ⟨?_, fun later hlater => silent_run hr hlater⟩
  obtain ⟨before, last, hevs, hends⟩ := working_ends hok hw
  rw [hr] at hends
  refine ⟨before, last, hevs, ?_⟩
  cases hends with
  | refused win h => exact .inl ⟨_, h, win, rfl⟩
  | unanswered siteId dat len => exact .inr ⟨siteId, dat, len, rfl⟩

/-- a request for an unknown page, and another one behind it -/
theorem refused_is_last_unknown :
    let s := run step (init 0) [.headData (ascii "POST /dd HTTP/1.1\r\n\r\n") someEnv]
    (InBounds s ∧ s.front.conn.stats = .connWorking ∧ s.reading = .none) ∧
      (run step s [.headData (ascii "POST /aa HTTP/1.1\r\nContent-Length: 1\r\n\r\nx") someEnv, .writeError]).reading =
        .none := by
  have hs : InBounds (run step (init 0) [.headData (ascii "POST /dd HTTP/1.1\r\n\r\n") someEnv]) ∧
      (run step (init 0) [.headData (ascii "POST /dd HTTP/1.1\r\n\r\n") someEnv]).front.conn.stats = .connWorking ∧
      (run step (init 0) [.headData (ascii "POST /dd HTTP/1.1\r\n\r\n") someEnv]).reading = .none := by
    decide +kernel
  exact ⟨hs, ((refused_is_last hs.1 hs.2.1 hs.2.2).2 _ (by simp)).1⟩

end AirobotMsgd.Reading
