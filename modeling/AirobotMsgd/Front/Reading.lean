/-
The reads of one front connection, over any byte stream a client sends and any way it is delivered.

At most one read is outstanding. `async_read_until` completes when `request_` and what has arrived hold a blank line, and
reports the offset just past the first one; everything that has arrived, also beyond it, stays in `request_`.
`async_read` delivers at least one byte into its window. A failed read delivers what it had and an error code. Between
them the write side may change its own fields, the connection may be marked as failed by a write or by the timing wheel,
and a failed connection without a read may be washed, given a new socket and started again. `manage_thread` may also
wash a connection while a read is outstanding, which comes of a removal pass and not of a byte stream; that is left out
here, and is what `Server/Recycling` is about.

`evs` is a ghost: all that the handlers have done. `InBounds`: no assertion has failed, no size has wrapped, no `resize`
was beyond `max_size`, and every copy and read window lay inside `p_buffer_`.

Results:
- `inBounds_iff_fits`: a run is in bounds throughout if and only if every head that is delivered fits: its lines do not
  strip an all-'/' URI, and if it is a POST to `/aa`, `/bb` or `/cc`, its Content-Length is not negative as an int and
  not less than the bytes that came with it.
- `short_length_asserts`: a stream that does not fit.
-/
import AirobotMsgd.Front.FrontConn

namespace AirobotMsgd.Reading

open AirobotMsgd.Bytes AirobotMsgd.HttpText AirobotMsgd.HttpProto AirobotMsgd.HttpParser AirobotMsgd.Runs

/-! ## Model -/

/-- the outstanding read -/
inductive Outstanding where
  | none
  | head
  | body (win : Window)
deriving DecidableEq, Repr

/-- the read a handler has started -/
def Outstanding.next (r : Outstanding) : Ev → Outstanding
  | .asyncReadUntil => .head
  | .asyncRead win _ => .body win
  | _ => r

def started (evs : List Ev) : Outstanding := evs.foldl Outstanding.next .none

structure St where
  front : FrontConn
  reading : Outstanding
  evs : List Ev
deriving DecidableEq, Repr

/-- the fields of the write side -/
structure WriteSide where
  wSize : ℕ
  wPos : ℕ
  pWrite : Str
  touchTime : ℕ
deriving DecidableEq, Repr

inductive Op where
  /-- `data` arrives, and with it the first blank line -/
  | headData (data : Str) (env : Env)
  | headError (data : Str) (ec : Ec) (env : Env)
  | bodyData (data : Str) (env : Env)
  | bodyError (data : Str) (ec : Ec) (env : Env)
  /-- what write completions and pushes do to the connection -/
  | writeSide (w : WriteSide)
  /-- `notify_conn_error` after a failed write -/
  | writeError
  /-- `set_stats(conn_error)` by the timing wheel -/
  | expire
  /-- `conn_wash_white`, `conn_reset_network` and `start`, with no read outstanding -/
  | recycle (now : ℕ)

/-- a new connection, started -/
def init (now : ℕ) : St :=
  let r := FrontConn.start ⟨Connection.create now, [], []⟩ now
  ⟨r.1, started r.2, r.2⟩

def perform (s : St) (r : FrontConn × List Ev) : St := ⟨r.1, started r.2, s.evs ++ r.2⟩

/-- `data` arrives in `request_` -/
def receive (c : FrontConn) (data : Str) : FrontConn := { c with request := c.request ++ data }

/-- `data` arrives in the window of a read -/
def receiveBody (c : FrontConn) (win : Window) (data : Str) : FrontConn :=
  { c with conn := { c.conn with pBuffer := overwrite c.conn.pBuffer win.off data } }

def step (s : St) : Op → St
  | .headData data env =>
    match s.reading with
    | .head =>
      let c := receive s.front data
      match find blankLine c.request with
      | some i => perform s (c.readHeadHandler env .success (i + 4))
      | none => s
    | _ => s
  | .headError data ec env =>
    if s.reading = .head ∧ ec ≠ .success then perform s ((receive s.front data).readHeadHandler env ec 0) else s
  | .bodyData data env =>
    match s.reading with
    | .body win =>
      if data ≠ [] ∧ data.length ≤ win.len then
        perform s ((receiveBody s.front win data).readBodyHandler env .success data.length)
      else s
    | _ => s
  | .bodyError data ec env =>
    match s.reading with
    | .body win =>
      if ec ≠ .success ∧ data.length ≤ win.len then
        perform s ((receiveBody s.front win data).readBodyHandler env ec data.length)
      else s
    | _ => s
  | .writeSide w =>
    { s with front := { s.front with conn := { s.front.conn with
        wSize := w.wSize, wPos := w.wPos, pWrite := w.pWrite, touchTime := w.touchTime } } }
  | .writeError =>
    let r := s.front.readError
    { s with front := r.1, evs := s.evs ++ r.2 }
  | .expire => { s with front := { s.front with conn := { s.front.conn with stats := .connError } } }
  | .recycle now =>
    if s.reading = .none ∧ s.front.conn.stats ≠ .connWorking then
      let r := s.front.connWashWhite
      perform { s with evs := s.evs ++ r.2 } ((r.1.connResetNetwork now).start now)
    else s

def InBounds (s : St) : Prop := ∀ e ∈ s.evs, e.Ok

instance : DecidablePred InBounds := fun s => inferInstanceAs (Decidable (∀ e ∈ s.evs, e.Ok))

/-- a POST to `/aa`, `/bb` or `/cc` -/
def wantsBody (opts : HeaderOpts) : Bool :=
  iequals (requestOption opts HeaderOptions.requestMethod) (ascii "POST") &&
    FrontConn.isBodyUri (requestOption opts HeaderOptions.requestUri)

/-- what has arrived, with its first blank line at i, fits: no line strips an all-'/' URI, and for a POST to `/aa`,
`/bb` or `/cc` the Content-Length is not negative and not less than the bytes behind the head -/
def FitsAt (c : FrontConn) (i : ℕ) : Prop :=
  match parseRequest c.headerOpts (cut c.request) with
  | none => False
  | some (false, _) => True
  | some (true, opts) =>
    wantsBody opts = true → ((c.request.drop (i + 4)).length : ℤ) ≤ FrontConn.contentLength opts

instance (c : FrontConn) (i : ℕ) : Decidable (FitsAt c i) := by
  unfold FitsAt
  split <;> infer_instance

/-- a head that is delivered fits -/
def Fits (s : St) : Op → Prop
  | .headData data _ =>
    s.reading = .head → ∀ i ∈ find blankLine (receive s.front data).request, FitsAt (receive s.front data) i
  | _ => True

instance (s : St) (o : Op) : Decidable (Fits s o) := by
  cases o <;> unfold Fits <;> infer_instance

/-! ## The read a handler leaves outstanding -/

/-- a body is being read into a window that ends where the body does, in a buffer that holds it -/
structure BodyRead (c : FrontConn) (win : Window) (L : ℕ) : Prop where
  length : FrontConn.contentLength c.headerOpts = L
  window : win.off + win.len = L
  room : L + 1 ≤ c.conn.pBuffer.length
  rSize : c.conn.rSize ≤ win.off
  working : c.conn.stats = .connWorking → c.conn.rSize = win.off

/-- what a handler does is in bounds, and the read it leaves outstanding is one of a body -/
structure Good (r : FrontConn × List Ev) : Prop where
  ok : ∀ e ∈ r.2, e.Ok
  body : ∀ win, started r.2 = .body win → ∃ L, BodyRead r.1 win L
  buffer : r.1.conn.pBuffer.length ≤ FrontConn.maxSize

/-- an event that starts no read -/
def Quiet (e : Ev) : Prop := ∀ r, Outstanding.next r e = r

theorem quiet_of_internal {e : Ev} (h : e.internal = true) : Quiet e := by
  intro r
  cases e <;> simp_all [Ev.internal, Outstanding.next]

theorem started_append {a b : List Ev} (h : ∀ e ∈ a, Quiet e) : started (a ++ b) = started b := by
  have : a.foldl Outstanding.next .none = .none := by
    induction a with
    | nil => rfl
    | cons e a ih =>
      rw [List.foldl_cons, h e List.mem_cons_self]
      exact ih fun e' he' => h e' (List.mem_cons_of_mem e he')
  rw [started, List.foldl_append, this, started]

theorem started_quiet {evs : List Ev} (h : ∀ e ∈ evs, Quiet e) : started evs = .none := by
  simpa [started] using started_append (b := []) h

theorem good_quiet {r : FrontConn × List Ev} (hb : r.1.conn.pBuffer.length ≤ FrontConn.maxSize)
    (h : ∀ e ∈ r.2, e.Ok ∧ Quiet e) : Good r :=
  ⟨fun e he => (h e he).1, fun win hw => by simp [started_quiet fun e he => (h e he).2] at hw, hb⟩

/-- quiet events in front of a good result -/
theorem Good.andThen {c : FrontConn} {evs : List Ev} {f : FrontConn → FrontConn × List Ev}
    (h : ∀ e ∈ evs, e.Ok ∧ Quiet e) (hf : Good (f c)) : Good (FrontConn.andThen (c, evs) f) := by
  refine ⟨fun e he => ?_, fun win hw => hf.body win ?_, hf.buffer⟩
  · rcases List.mem_append.1 he with he | he
    · exact (h e he).1
    · exact hf.ok e he
  · rwa [FrontConn.andThen, started_append fun e he => (h e he).2] at hw

theorem fillAndWrite_good {c : FrontConn} (hb : c.conn.pBuffer.length ≤ FrontConn.maxSize) (env : Env)
    (content status : Str) : Good (c.fillAndWrite env content status) := by
  apply good_quiet (by rwa [(FrontConn.fillAndWrite_sameRead c env content status).pBuffer])
  intro e he
  by_cases hw : c.conn.stats = .connWorking
  · rw [FrontConn.fillAndWrite_working hw] at he
    simp only [List.mem_cons, List.not_mem_nil, or_false] at he
    rcases he with rfl | rfl | rfl <;> exact ⟨by simp [Ev.Ok], fun _ => rfl⟩
  · rw [FrontConn.fillAndWrite_idle hw, List.mem_singleton] at he
    subst he
    exact ⟨trivial, fun _ => rfl⟩

theorem fillWriteRead_good {c : FrontConn} (hb : c.conn.pBuffer.length ≤ FrontConn.maxSize) (env : Env)
    (content status : Str) : Good (c.fillWriteRead env content status) := by
  rw [← (FrontConn.fillWriteRead_sameRead c env content status).pBuffer] at hb
  by_cases hw : c.conn.stats = .connWorking
  · have he := FrontConn.fillWriteRead_working hw env content status
    refine ⟨by simp [he, Ev.Ok], ?_, hb⟩
    intro win hs
    simp [he, started, Outstanding.next] at hs
  · have he := FrontConn.fillWriteRead_idle hw env content status
    refine ⟨by simp [he, Ev.Ok], ?_, hb⟩
    intro win hs
    simp [he, started, Outstanding.next] at hs

theorem readError_good {c : FrontConn} (hb : c.conn.pBuffer.length ≤ FrontConn.maxSize) : Good c.readError :=
  good_quiet hb fun e he => by
    simp only [FrontConn.readError, FrontConn.notifyConnError, List.mem_singleton] at he
    subst he
    exact ⟨trivial, fun _ => rfl⟩

theorem handleBb_good {c : FrontConn} (hb : c.conn.pBuffer.length ≤ FrontConn.maxSize)
    (h : c.conn.rSize ≤ c.conn.pBuffer.length) (env : Env) : Good (c.handleBb env) := by
  unfold FrontConn.handleBb
  refine .andThen (by simpa [Ev.Ok, Quiet, Outstanding.next] using h) ?_
  by_cases herr : (Json11.parse (cut (c.conn.pBuffer.take c.conn.rSize)) env.errno).err ≠ []
  · rw [if_pos herr]
    exact fillWriteRead_good hb _ _ _
  · rw [if_neg herr]
    refine .andThen (by simp [Ev.Ok, Quiet, Outstanding.next]) ?_
    split_ifs
    · exact good_quiet hb (by simp)
    · exact good_quiet hb (by simp)
    · exact fillWriteRead_good hb _ _ _

theorem dispatchBody_good {c : FrontConn} (hb : c.conn.pBuffer.length ≤ FrontConn.maxSize)
    (h : c.conn.rSize ≤ c.conn.pBuffer.length) (env : Env) : Good (c.dispatchBody env) := by
  simp only [FrontConn.dispatchBody]
  split_ifs
  · exact fillWriteRead_good hb _ _ _
  · exact handleBb_good hb h env
  · exact fillWriteRead_good hb _ _ _
  · exact fillWriteRead_good hb _ _ _

/-- the rest of a body that is not complete is read into the buffer behind what is there -/
theorem doReadBody_good {c : FrontConn} {L : ℕ} (hb : c.conn.pBuffer.length ≤ FrontConn.maxSize)
    (hL : FrontConn.contentLength c.headerOpts = L) (hroom : L + 1 ≤ c.conn.pBuffer.length) (hlt : c.conn.rSize < L)
    (now : ℕ) : Good (c.doReadBody now) := by
  by_cases hw : c.conn.stats = .connWorking
  · rw [FrontConn.doReadBody_working hw hL hlt]
    refine ⟨?_, fun win hs => ?_, hb⟩
    · simp only [List.mem_cons, List.not_mem_nil, or_false]
      rintro e (rfl | rfl)
      · exact hlt.le
      · simp only [Ev.Ok]; omega
    · obtain rfl : ⟨c.conn.rSize, L - c.conn.rSize⟩ = win := by simpa [started, Outstanding.next] using hs
      exact ⟨L, hL, by simp only; omega, hroom, le_rfl, fun _ => rfl⟩
  · rw [FrontConn.doReadBody, if_pos hw]
    exact good_quiet hb (by simp)

/-- a part of the body, or its last part, arrives -/
theorem readBodyHandler_good {c : FrontConn} {L k : ℕ} (hb : c.conn.pBuffer.length ≤ FrontConn.maxSize)
    (hL : FrontConn.contentLength c.headerOpts = L) (hroom : L + 1 ≤ c.conn.pBuffer.length)
    (hk : c.conn.rSize + k ≤ L) (env : Env) (ec : Ec) : Good (c.readBodyHandler env ec k) := by
  obtain ⟨hlen, hL31⟩ := FrontConn.len_eq hL
  have hsum : (c.conn.rSize + k) % FrontConn.SIZE_MOD = c.conn.rSize + k :=
    Nat.mod_eq_of_lt (by unfold FrontConn.SIZE_MOD; omega)
  have hlen' : ∀ n, FrontConn.len { c with conn := { c.conn with rSize := n } } = L := fun n => hlen
  unfold FrontConn.readBodyHandler
  split_ifs
  · refine .andThen ?_ ?_
    · simp only [List.mem_singleton, forall_eq]
      exact ⟨by simp only [Ev.Ok]; omega, fun _ => rfl⟩
    · simp only [hsum, hlen']
      split_ifs with hlt
      · exact doReadBody_good (by exact hb) (by exact hL) (by exact hroom) (by exact hlt) _
      · exact .andThen (by simp [Ev.Ok, Quiet, Outstanding.next])
          (dispatchBody_good (by exact hb) (by simp only; omega) _)
  · exact readError_good hb
  · exact fillWriteRead_good hb _ _ _

/-- a body that fits is read -/
theorem dispatchHead_good {c : FrontConn} {L : ℕ} (hb : c.conn.pBuffer.length ≤ FrontConn.maxSize)
    (hL : FrontConn.contentLength c.headerOpts = L) (ha : c.request.length ≤ L) (env : Env) :
    Good (c.dispatchHead env .success) := by
  have hL31 := (FrontConn.len_eq hL).2
  obtain ⟨evs, buf, hok, hroom, hmax, -, heq⟩ := FrontConn.dispatchHead_spec hL ha env .success
  have hbuf : buf.length ≤ FrontConn.maxSize :=
    hmax.trans (max_le hb (by unfold FrontConn.maxSize; omega))
  rw [heq]
  refine .andThen (fun e he => ⟨(hok e he).1, quiet_of_internal (hok e he).2⟩) ?_
  split_ifs with hlt
  · exact doReadBody_good (by exact hbuf) (by exact hL) (by exact hroom) (by exact hlt) _
  · exact readBodyHandler_good (by exact hbuf) (by exact hL) (by exact hroom) (by simpa using ha) env .success

/-- a body that does not fit fails the assertion, wraps a sum or resizes beyond `max_size` -/
theorem dispatchHead_bad {c : FrontConn} (hb : c.conn.pBuffer.length ≤ FrontConn.maxSize)
    (h : FrontConn.contentLength c.headerOpts < c.request.length) (env : Env) :
    ∃ e ∈ (c.dispatchHead env .success).2, ¬ e.Ok := by
  obtain ⟨hlow, hhigh⟩ := atoi_range (requestOption c.headerOpts HeaderOptions.contentLength)
  change -2 ^ 31 ≤ FrontConn.contentLength c.headerOpts at hlow
  change FrontConn.contentLength c.headerOpts < 2 ^ 31 at hhigh
  have hlen : c.len = FrontConn.toSizeT (FrontConn.contentLength c.headerOpts) := rfl
  generalize FrontConn.contentLength c.headerOpts = L at h hlow hhigh hlen
  unfold FrontConn.maxSize at hb
  by_cases ha : c.len < c.request.length
  · exact ⟨.assertion false, by simp [FrontConn.dispatchHead, ha], by simp [Ev.Ok]⟩
  · simp only [FrontConn.dispatchHead, if_neg ha]
    have hneg : L < 0 := by
      unfold FrontConn.toSizeT at hlen; omega
    have hsz : (c.len : ℤ) = L + 2 ^ 64 := by
      unfold FrontConn.toSizeT at hlen; omega
    rcases eq_or_ne L (-1) with rfl | hL1
    · exact ⟨.add c.len 1, by simp [FrontConn.andThen], by simp only [Ev.Ok]; omega⟩
    · have hgrow : c.conn.pBuffer.length < (c.len + 1) % FrontConn.SIZE_MOD := by
        unfold FrontConn.SIZE_MOD; omega
      simp only [FrontConn.andThen, if_pos hgrow]
      rcases lt_or_ge L (-256) with hL2 | hL2
      · have hmax : FrontConn.maxSize < (c.len + 256) % FrontConn.SIZE_MOD := by
          unfold FrontConn.SIZE_MOD FrontConn.maxSize; omega
        rw [if_pos hmax]
        exact ⟨.resize ((c.len + 256) % FrontConn.SIZE_MOD), by simp, by simp only [Ev.Ok]; omega⟩
      · refine ⟨.add c.len 256, ?_, by simp only [Ev.Ok]; omega⟩
        split_ifs <;> simp

theorem errorReturn_good {c : FrontConn} (hb : c.conn.pBuffer.length ≤ FrontConn.maxSize) (env : Env) :
    Good (c.errorReturn env) := by
  rw [FrontConn.errorReturn_eq]
  exact fillAndWrite_good (by exact hb) _ _ _

/-- a head that fits is handled in bounds -/
theorem readHeadHandler_good {c : FrontConn} (hb : c.conn.pBuffer.length ≤ FrontConn.maxSize) {i : ℕ}
    (h : FitsAt c i) (env : Env) : Good (c.readHeadHandler env .success (i + 4)) := by
  unfold FitsAt at h
  simp only [FrontConn.readHeadHandler, ne_eq, Nat.add_eq_zero_iff, OfNat.ofNat_ne_zero, and_false,
    not_false_eq_true, and_self, if_true]
  rcases hp : parseRequest c.headerOpts (cut c.request) with _ | ⟨_ | _, opts⟩
  · simp only [hp] at h
  · exact errorReturn_good (by exact hb) env
  · simp only [hp] at h
    dsimp only
    split_ifs with hpost huri
    · exact fillAndWrite_good (by exact hb) _ _ _
    · have hlen := h (by simp [wantsBody, huri]; simpa using hpost)
      obtain ⟨L, hL⟩ := Int.eq_ofNat_of_zero_le ((Int.natCast_nonneg _).trans hlen)
      exact dispatchHead_good (by exact hb) (by exact hL) (by simp only; omega) env
    · exact fillAndWrite_good (by exact hb) _ _ _

/-- a head that does not fit is not -/
theorem readHeadHandler_bad {c : FrontConn} (hb : c.conn.pBuffer.length ≤ FrontConn.maxSize) {i : ℕ}
    (h : ¬ FitsAt c i) (env : Env) : ∃ e ∈ (c.readHeadHandler env .success (i + 4)).2, ¬ e.Ok := by
  unfold FitsAt at h
  simp only [FrontConn.readHeadHandler, ne_eq, Nat.add_eq_zero_iff, OfNat.ofNat_ne_zero, and_false,
    not_false_eq_true, and_self, if_true]
  rcases hp : parseRequest c.headerOpts (cut c.request) with _ | ⟨_ | _, opts⟩
  · exact ⟨.outOfRange, by simp, by simp [Ev.Ok]⟩
  · simp only [hp, not_true_eq_false] at h
  · simp only [hp] at h
    dsimp only
    rw [Classical.not_imp, not_le] at h
    obtain ⟨hw, hlt⟩ := h
    simp only [wantsBody, Bool.and_eq_true] at hw
    rw [if_neg (by simp [hw.1]), if_pos hw.2]
    exact dispatchHead_bad (by exact hb) (by exact hlt) env

/-- a failed read of a head -/
theorem readHeadHandler_failed {c : FrontConn} (hb : c.conn.pBuffer.length ≤ FrontConn.maxSize) {ec : Ec}
    (hec : ec ≠ .success) (env : Env) (n : ℕ) : Good (c.readHeadHandler env ec n) := by
  simp only [FrontConn.readHeadHandler, hec, false_and, if_false]
  split_ifs
  · exact readError_good hb
  · exact errorReturn_good hb env

/-! ## Invariant -/

structure Inv (s : St) : Prop where
  ok : InBounds s
  body : ∀ win, s.reading = .body win → ∃ L, BodyRead s.front win L
  buffer : s.front.conn.pBuffer.length ≤ FrontConn.maxSize

theorem Good.inv {s : St} {r : FrontConn × List Ev} (hs : InBounds s) (h : Good r) : Inv (perform s r) := by
  refine ⟨?_, h.body, h.buffer⟩
  intro e he
  rcases List.mem_append.1 he with he | he
  · exact hs e he
  · exact h.ok e he

theorem start_good {c : FrontConn} (hb : c.conn.pBuffer.length ≤ FrontConn.maxSize) (now : ℕ) :
    Good (c.start now) := by
  simp only [FrontConn.start, FrontConn.doReadHead, ne_eq, not_true_eq_false, if_false]
  exact ⟨by simp [Ev.Ok], fun win hw => by simp [started, Outstanding.next] at hw, hb⟩

theorem inv_init (now : ℕ) : Inv (init now) := by
  have h := Good.inv (s := ⟨⟨Connection.create now, [], []⟩, .none, []⟩) (fun _ he => absurd he List.not_mem_nil)
    (start_good (c := ⟨Connection.create now, [], []⟩) (by simp [FrontConn.maxSize]) now)
  simpa [perform, init] using h

/-- data arrives in the window of the outstanding read -/
theorem receiveBody_good {c : FrontConn} {win : Window} {L : ℕ} (hb : c.conn.pBuffer.length ≤ FrontConn.maxSize)
    (h : BodyRead c win L) {data : Str} (hd : data.length ≤ win.len) (env : Env) (ec : Ec) :
    Good ((receiveBody c win data).readBodyHandler env ec data.length) := by
  have hwin := h.window
  have hroom := h.room
  have hr := h.rSize
  have hlen : (overwrite c.conn.pBuffer win.off data).length = c.conn.pBuffer.length :=
    length_overwrite (by omega)
  exact readBodyHandler_good (c := receiveBody c win data) (by simp only [receiveBody]; omega) h.length
    (by simp only [receiveBody]; omega) (by simp only [receiveBody]; omega) env ec

theorem step_inv {s : St} {o : Op} (hf : Fits s o) (h : Inv s) : Inv (step s o) := by
  cases o with
  | headData data env =>
    cases hr : s.reading with
    | head =>
      cases hi : find blankLine (receive s.front data).request with
      | none => simpa [step, hr, hi] using h
      | some i =>
        have hg := readHeadHandler_good (c := receive s.front data) h.buffer (hf hr i hi) env
        simpa [step, hr, hi] using hg.inv h.ok
    | none => simpa [step, hr] using h
    | body win => simpa [step, hr] using h
  | headError data ec env =>
    unfold step
    dsimp only
    split_ifs with hc
    · exact (readHeadHandler_failed (c := receive s.front data) h.buffer hc.2 env 0).inv h.ok
    · exact h
  | bodyData data env =>
    cases hr : s.reading with
    | body win =>
      obtain ⟨L, hL⟩ := h.body win hr
      simp only [step, hr]
      split_ifs with hc
      · exact (receiveBody_good h.buffer hL hc.2 env .success).inv h.ok
      · exact h
    | none => simpa [step, hr] using h
    | head => simpa [step, hr] using h
  | bodyError data ec env =>
    cases hr : s.reading with
    | body win =>
      obtain ⟨L, hL⟩ := h.body win hr
      simp only [step, hr]
      split_ifs with hc
      · exact (receiveBody_good h.buffer hL hc.2 env ec).inv h.ok
      · exact h
    | none => simpa [step, hr] using h
    | head => simpa [step, hr] using h
  | writeSide w =>
    refine ⟨h.ok, ?_, h.buffer⟩
    intro win hr
    obtain ⟨L, hL⟩ := h.body win hr
    exact ⟨L, hL.length, hL.window, hL.room, hL.rSize, hL.working⟩
  | writeError =>
    refine ⟨fun e he => ?_, fun win hr => ?_, h.buffer⟩
    · rcases List.mem_append.1 he with he | he
      · exact h.ok e he
      · exact (readError_good h.buffer).ok e he
    · obtain ⟨L, hL⟩ := h.body win hr
      exact ⟨L, hL.length, hL.window, hL.room, Nat.zero_le _,
        fun hw => by simp [step, FrontConn.readError, FrontConn.notifyConnError] at hw⟩
  | expire =>
    refine ⟨h.ok, ?_, h.buffer⟩
    intro win hr
    obtain ⟨L, hL⟩ := h.body win hr
    exact ⟨L, hL.length, hL.window, hL.room, hL.rSize, fun hw => by simp [step] at hw⟩
  | recycle now =>
    unfold step
    dsimp only
    split_ifs with hc
    · have hwash : s.front.connWashWhite.2 = [.assertion true, .resize (16 * 1024)] := by
        simp [FrontConn.connWashWhite, hc.2]
      refine (start_good ?_ now).inv ?_
      · simp [FrontConn.connWashWhite, hc.2, FrontConn.connResetNetwork, FrontConn.maxSize]
      · intro e he
        rcases List.mem_append.1 he with he | he
        · exact h.ok e he
        · rw [hwash] at he
          simp only [List.mem_cons, List.not_mem_nil, or_false] at he
          rcases he with rfl | rfl <;> simp [Ev.Ok, FrontConn.maxSize]
    · exact h

/-- a head that does not fit leaves the bounds -/
theorem fits_of_inBounds {s : St} {o : Op} (h : Inv s) (hg : InBounds (step s o)) : Fits s o := by
  cases o with
  | headData data env =>
    intro hr i hi
    by_contra hbad
    obtain ⟨e, he, hne⟩ := readHeadHandler_bad (c := receive s.front data) h.buffer hbad env
    refine hne (hg e ?_)
    rw [Option.mem_def] at hi
    simp [step, hr, hi, perform, he]
  | _ => trivial

/-! ## Results -/

/-- **Exactly when reading stays in bounds.** Over any byte stream, delivered in any way, no assertion fails, no size
wraps, nothing is resized beyond `max_size` and every copy and read window lies inside `p_buffer_`, if and only if every
head that is delivered fits. -/
theorem inBounds_iff_fits (now : ℕ) (ops : List Op) :
    Always step InBounds (init now) ops ↔ Meets step Fits (init now) ops :=
  always_iff_meets (L := fun _ _ => True) (fun _ => Inv.ok) (fun _ _ _ => step_inv)
    (fun _ _ _ => fits_of_inBounds) (meets_of_forall fun _ _ _ => trivial) (inv_init now)

def someEnv : Env := ⟨0, ascii "2024-Jan-01 00:00:00", false, false, [], fun _ => 0⟩

/-- the body is one byte longer than announced, and all of it comes with the head -/
def shortLength : Str := ascii "POST /aa HTTP/1.1\r\nContent-Length: 2\r\n\r\nabc"

def negativeLength : Str := ascii "POST /aa HTTP/1.1\r\nContent-Length: -1\r\n\r\n"

/-- **More bytes than announced fail the assertion** `additional_size <= len`. -/
theorem short_length_asserts :
    Ev.assertion false ∈ (run step (init 0) [.headData shortLength someEnv]).evs ∧
      ¬ Always step InBounds (init 0) [.headData shortLength someEnv] := by
  have h : Ev.assertion false ∈ (run step (init 0) [.headData shortLength someEnv]).evs := by decide +kernel
  exact ⟨h, fun hA => absurd (hA.last _ h) (by simp [Ev.Ok])⟩

-- a Content-Length of -1 wraps `len + 1`, and the body is read into a window of 2^64 - 1 bytes
example :
    Ev.add (2 ^ 64 - 1) 1 ∈ (run step (init 0) [.headData negativeLength someEnv]).evs ∧
      (run step (init 0) [.headData negativeLength someEnv]).reading = .body ⟨0, 2 ^ 64 - 1⟩ := by
  decide +kernel

end AirobotMsgd.Reading
