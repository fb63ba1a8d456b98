/-
What a recycled front connection keeps from its earlier life: its buffers are resized, not cleared, and `parser_` has
the options of its last request. None of it shows.

`visible` leaves of an event what the handlers have read: of `p_buffer_` its first `r_size_` bytes. `Alike c d`: the two
connections differ in the bytes of their buffers and in the options only; `AlikeTo n`: in the bytes from n on.

- `step_like`: one step keeps two connections alike, and shows the same.
- `recycled_like_fresh`: **after a recycling everything is as on a new connection.**
-/
import AirobotMsgd.Front.Reading

namespace AirobotMsgd.Reading

open AirobotMsgd.Bytes AirobotMsgd.HttpText AirobotMsgd.HttpProto AirobotMsgd.HttpParser AirobotMsgd.Runs

/-! ## Alike -/

/-- an event, without the bytes that are behind the body -/
def visible : Ev → Ev
  | .bodyComplete rSize buffer request headerOpts => .bodyComplete rSize (buffer.take rSize) request headerOpts
  | e => e

structure Alike (c d : FrontConn) : Prop where
  stats : c.conn.stats = d.conn.stats
  rSize : c.conn.rSize = d.conn.rSize
  length : c.conn.pBuffer.length = d.conn.pBuffer.length
  request : c.request = d.request

structure AlikeTo (n : ℕ) (c d : FrontConn) : Prop extends Alike c d where
  headerOpts : c.headerOpts = d.headerOpts
  bytes : c.conn.pBuffer.take n = d.conn.pBuffer.take n

/-- two results that show the same and leave connections that go on alike -/
structure Like (r q : FrontConn × List Ev) : Prop where
  evs : r.2.map visible = q.2.map visible
  conn : Alike r.1 q.1
  body : ∀ win, started r.2 = .body win → AlikeTo win.off r.1 q.1 ∧ r.1.conn.rSize ≤ win.off

theorem AlikeTo.mono {n m : ℕ} {c d : FrontConn} (h : AlikeTo n c d) (hm : m ≤ n) : AlikeTo m c d := by
  refine ⟨h.toAlike, h.headerOpts, ?_⟩
  rw [← Nat.min_eq_left hm, ← List.take_take, h.bytes, List.take_take]

/-- the bytes that arrive are alike -/
theorem take_overwrite_congr {v w : Str} {off : ℕ} (hlen : v.length = w.length) (h : v.take off = w.take off)
    (data : Str) : (overwrite v off data).take (off + data.length) = (overwrite w off data).take (off + data.length) := by
  rcases Nat.le_total off v.length with hle | hle
  · rw [take_overwrite hle, take_overwrite (hlen ▸ hle), h]
  · rw [List.take_of_length_le hle, List.take_of_length_le (hlen ▸ hle)] at h
    rw [h]

theorem length_overwrite_congr {v w : Str} (hlen : v.length = w.length) (off : ℕ) (data : Str) :
    (overwrite v off data).length = (overwrite w off data).length := by
  simp [overwrite, hlen]

theorem started_visible (evs : List Ev) : started (evs.map visible) = started evs := by
  have hnext : ∀ r e, Outstanding.next r (visible e) = Outstanding.next r e := fun r e => by cases e <;> rfl
  rw [started, started, List.foldl_map]
  simp only [hnext]

/-- the same in front of what goes on alike -/
theorem Like.andThen {c d : FrontConn} {evs evs' : List Ev} {f : FrontConn → FrontConn × List Ev}
    (hevs : evs.map visible = evs'.map visible) (hquiet : ∀ e ∈ evs, Quiet e) (h : Like (f c) (f d)) :
    Like (FrontConn.andThen (c, evs) f) (FrontConn.andThen (d, evs') f) := by
  refine ⟨?_, h.conn, fun win hw => h.body win ?_⟩
  · simp only [FrontConn.andThen, List.map_append, hevs, h.evs]
  · rwa [FrontConn.andThen, started_append hquiet] at hw

theorem Like.of_quiet {r q : FrontConn × List Ev} (hevs : r.2.map visible = q.2.map visible) (hconn : Alike r.1 q.1)
    (hquiet : started r.2 = .none ∨ started r.2 = .head) : Like r q :=
  ⟨hevs, hconn, fun win hw => by rcases hquiet with h | h <;> simp [h] at hw⟩

theorem Alike.sameRead {c d c' d' : FrontConn} (h : Alike c d) (hc : FrontConn.SameRead c c')
    (hd : FrontConn.SameRead d d') : Alike c' d' where
  stats := by rw [hc.stats, hd.stats, h.stats]
  rSize := by rw [hc.rSize, hd.rSize, h.rSize]
  length := by rw [hc.pBuffer, hd.pBuffer, h.length]
  request := by rw [hc.request, hd.request, h.request]

/-! ## The handlers -/

theorem fillAndWrite_like {c d : FrontConn} (h : Alike c d) (env : Env) (content status : Str) :
    Like (c.fillAndWrite env content status) (d.fillAndWrite env content status) := by
  have hconn := h.sameRead (FrontConn.fillAndWrite_sameRead c env content status)
    (FrontConn.fillAndWrite_sameRead d env content status)
  by_cases hw : c.conn.stats = .connWorking
  · have hc := FrontConn.fillAndWrite_working hw env content status
    have hd := FrontConn.fillAndWrite_working (h.stats ▸ hw) env content status
    exact .of_quiet (by rw [hc, hd]) hconn (.inl (by rw [hc]; rfl))
  · have hc := FrontConn.fillAndWrite_idle hw env content status
    have hd := FrontConn.fillAndWrite_idle (h.stats ▸ hw) env content status
    exact .of_quiet (by rw [hc, hd]) hconn (.inl (by rw [hc]; rfl))

theorem fillWriteRead_like {c d : FrontConn} (h : Alike c d) (env : Env) (content status : Str) :
    Like (c.fillWriteRead env content status) (d.fillWriteRead env content status) := by
  have hconn := h.sameRead (FrontConn.fillWriteRead_sameRead c env content status)
    (FrontConn.fillWriteRead_sameRead d env content status)
  by_cases hw : c.conn.stats = .connWorking
  · have hc := FrontConn.fillWriteRead_working hw env content status
    have hd := FrontConn.fillWriteRead_working (h.stats ▸ hw) env content status
    exact .of_quiet (by rw [hc, hd]) hconn (.inr (by rw [hc]; rfl))
  · have hc := FrontConn.fillWriteRead_idle hw env content status
    have hd := FrontConn.fillWriteRead_idle (h.stats ▸ hw) env content status
    exact .of_quiet (by rw [hc, hd]) hconn (.inl (by rw [hc]; rfl))

theorem readError_like {c d : FrontConn} (h : Alike c d) : Like c.readError d.readError :=
  .of_quiet rfl ⟨rfl, rfl, h.length, h.request⟩ (.inl rfl)

theorem doReadHead_like {c d : FrontConn} (h : Alike c d) (now : ℕ) : Like (c.doReadHead now) (d.doReadHead now) := by
  unfold FrontConn.doReadHead
  rw [h.stats]
  split_ifs
  · exact .of_quiet rfl h (.inl rfl)
  · exact .of_quiet rfl ⟨h.stats, h.rSize, h.length, h.request⟩ (.inr rfl)

theorem doReadBody_like {c d : FrontConn} (h : AlikeTo c.conn.rSize c d) (now : ℕ) :
    Like (c.doReadBody now) (d.doReadBody now) := by
  have hlen : c.len = d.len := by rw [FrontConn.len, FrontConn.len, h.headerOpts]
  unfold FrontConn.doReadBody
  rw [h.stats]
  split_ifs with hw
  · exact .of_quiet rfl h.toAlike (.inl rfl)
  · have hconn : Alike { c with conn := { c.conn with touchTime := now } }
        { d with conn := { d.conn with touchTime := now } } := ⟨h.stats, h.rSize, h.length, h.request⟩
    refine ⟨by simp only [hlen, h.rSize, h.length], hconn, fun win hs => ?_⟩
    obtain rfl : (⟨c.conn.rSize, _⟩ : Window) = win := by simpa [started, Outstanding.next] using hs
    exact ⟨⟨hconn, h.headerOpts, h.bytes⟩, le_rfl⟩

theorem handleBb_like {c d : FrontConn} {n : ℕ} (h : AlikeTo n c d) (hr : c.conn.rSize ≤ n) (env : Env) :
    Like (c.handleBb env) (d.handleBb env) := by
  have hbytes := (h.mono hr).bytes
  simp only [FrontConn.handleBb, ← h.rSize, ← hbytes]
  refine .andThen (by simp [h.length]) (by simp [Quiet, Outstanding.next]) ?_
  by_cases herr : (Json11.parse (cut (c.conn.pBuffer.take c.conn.rSize)) env.errno).err ≠ []
  · rw [if_pos herr, if_pos herr]
    exact fillWriteRead_like h.toAlike env _ _
  · rw [if_neg herr, if_neg herr]
    refine .andThen rfl (by simp [Quiet, Outstanding.next]) ?_
    split_ifs
    · exact .of_quiet rfl h.toAlike (.inl rfl)
    · exact .of_quiet rfl h.toAlike (.inl rfl)
    · exact fillWriteRead_like h.toAlike env _ _

theorem dispatchBody_like {c d : FrontConn} {n : ℕ} (h : AlikeTo n c d) (hr : c.conn.rSize ≤ n) (env : Env) :
    Like (c.dispatchBody env) (d.dispatchBody env) := by
  simp only [FrontConn.dispatchBody, h.headerOpts]
  split_ifs
  · exact fillWriteRead_like h.toAlike env _ _
  · exact handleBb_like h hr env
  · exact fillWriteRead_like h.toAlike env _ _
  · exact fillWriteRead_like h.toAlike env _ _

/-- k bytes of the body have arrived behind the others -/
theorem readBodyHandler_like {c d : FrontConn} {n k : ℕ} (h : AlikeTo n c d) (hk : c.conn.rSize + k ≤ n) (env : Env)
    (ec : Ec) : Like (c.readBodyHandler env ec k) (d.readBodyHandler env ec k) := by
  have hmod : (c.conn.rSize + k) % FrontConn.SIZE_MOD ≤ n := (Nat.mod_le _ _).trans hk
  unfold FrontConn.readBodyHandler
  rw [← h.rSize]
  split_ifs
  · dsimp only
    generalize (c.conn.rSize + k) % FrontConn.SIZE_MOD = r at hmod
    have hread : AlikeTo n { c with conn := { c.conn with rSize := r } } { d with conn := { d.conn with rSize := r } } :=
      ⟨⟨h.stats, rfl, h.length, h.request⟩, h.headerOpts, h.bytes⟩
    have hlen : FrontConn.len { c with conn := { c.conn with rSize := r } } =
        FrontConn.len { d with conn := { d.conn with rSize := r } } := by
      rw [FrontConn.len, FrontConn.len, hread.headerOpts]
    refine .andThen rfl (by simp [Quiet, Outstanding.next]) ?_
    rw [hlen]
    split_ifs
    · exact doReadBody_like (hread.mono hmod) env.now
    · refine .andThen ?_ (by simp [Quiet, Outstanding.next]) (dispatchBody_like hread hmod env)
      simp only [List.map_cons, List.map_nil, visible, (hread.mono hmod).bytes, h.request, h.headerOpts]
  · exact readError_like h.toAlike
  · exact fillWriteRead_like h.toAlike env _ _

/-- the bytes that came with the head are the start of the buffer -/
theorem moveAdditional_like {c d : FrontConn} (h : AlikeTo 0 c d) :
    (c.moveAdditional.2.map visible = d.moveAdditional.2.map visible ∧ ∀ e ∈ c.moveAdditional.2, Quiet e) ∧
      AlikeTo c.request.length c.moveAdditional.1 d.moveAdditional.1 ∧ c.moveAdditional.1.conn.rSize = c.conn.rSize := by
  unfold FrontConn.moveAdditional
  rw [← h.request]
  split_ifs with hnil
  · exact ⟨⟨rfl, by simp⟩, hnil ▸ h, rfl⟩
  · refine ⟨⟨by rw [h.length], by simp [Quiet, Outstanding.next]⟩, ⟨⟨h.stats, h.rSize, ?_, rfl⟩, h.headerOpts, ?_⟩, rfl⟩
    · exact length_overwrite_congr h.length 0 _
    · have htake := take_overwrite_congr h.length h.bytes (c.request ++ [0])
      have hle : c.request.length ≤ 0 + (c.request ++ [0]).length := by simp
      dsimp only
      rw [← Nat.min_eq_left hle, ← List.take_take, htake, List.take_take]

theorem readBodyOf_like {c d : FrontConn} (h : AlikeTo 0 c d) (hr : c.conn.rSize = 0) (env : Env) (ec : Ec) :
    Like (c.readBodyOf env ec c.request.length) (d.readBodyOf env ec c.request.length) := by
  obtain ⟨⟨hevs, hquiet⟩, hto, hrSize⟩ := moveAdditional_like h
  unfold FrontConn.readBodyOf
  have hgo : ∀ {c' d' : FrontConn}, AlikeTo c.request.length c' d' → c'.conn.rSize = 0 →
      Like (if c.request.length < c'.len then
          FrontConn.doReadBody { c' with conn := { c'.conn with rSize := c.request.length } } env.now
        else c'.readBodyHandler env ec c.request.length)
        (if c.request.length < d'.len then
          FrontConn.doReadBody { d' with conn := { d'.conn with rSize := c.request.length } } env.now
        else d'.readBodyHandler env ec c.request.length) := by
    intro c' d' hto hr
    have hlen : c'.len = d'.len := by rw [FrontConn.len, FrontConn.len, hto.headerOpts]
    rw [hlen]
    split_ifs
    · have hread : AlikeTo c.request.length { c' with conn := { c'.conn with rSize := c.request.length } }
          { d' with conn := { d'.conn with rSize := c.request.length } } :=
        ⟨⟨hto.stats, rfl, hto.length, hto.request⟩, hto.headerOpts, hto.bytes⟩
      exact doReadBody_like hread env.now
    · exact readBodyHandler_like hto (by omega) env ec
  exact Like.andThen hevs hquiet (hgo hto (hrSize.trans hr))

theorem dispatchHead_like {c d : FrontConn} (h : AlikeTo 0 c d) (env : Env) (ec : Ec) :
    Like (c.dispatchHead env ec) (d.dispatchHead env ec) := by
  obtain ⟨⟨stats, touchTime, rSize, wSize, wPos, buf, out⟩, request, opts⟩ := c
  obtain ⟨⟨stats', touchTime', rSize', wSize', wPos', buf', out'⟩, request', opts'⟩ := d
  obtain ⟨⟨hstats, hrSize, hlength, hrequest⟩, hopts, -⟩ := h
  dsimp only at hstats hrSize hlength hrequest hopts
  subst hstats hrSize hrequest hopts
  have hzero : ∀ {b b' : Str}, b.length = b'.length →
      AlikeTo 0 ⟨⟨stats, touchTime, 0, wSize, wPos, b, out⟩, request, opts⟩
        ⟨⟨stats, touchTime', 0, wSize', wPos', b', out'⟩, request, opts⟩ := fun hb => ⟨⟨rfl, rfl, hb, rfl⟩, rfl, rfl⟩
  have hlen : FrontConn.len ⟨⟨stats, touchTime', rSize, wSize', wPos', buf', out'⟩, request, opts⟩ =
      FrontConn.len ⟨⟨stats, touchTime, rSize, wSize, wPos, buf, out⟩, request, opts⟩ := rfl
  simp only [FrontConn.dispatchHead, hlen]
  split_ifs
  · exact .of_quiet rfl (hzero hlength).toAlike (.inl rfl)
  · refine .andThen rfl (by simp [Quiet, Outstanding.next]) ?_
    rw [hlength]
    split_ifs
    · exact .of_quiet rfl (hzero hlength).toAlike (.inl rfl)
    · exact readBodyOf_like (hzero hlength) rfl env ec
  · refine .andThen rfl (by simp [Quiet, Outstanding.next]) ?_
    rw [hlength]
    split_ifs
    · exact .andThen rfl (by simp [Quiet, Outstanding.next]) (readBodyOf_like (hzero (by simp)) rfl env ec)
    · exact readBodyOf_like (hzero hlength) rfl env ec

theorem errorReturn_like {c d : FrontConn} (h : Alike c d) (env : Env) :
    Like (c.errorReturn env) (d.errorReturn env) := by
  have hreset : Alike { c with conn := { c.conn with rSize := 0 }, request := [] }
      { d with conn := { d.conn with rSize := 0 }, request := [] } := ⟨h.stats, rfl, h.length, rfl⟩
  rw [FrontConn.errorReturn_eq, FrontConn.errorReturn_eq]
  exact fillAndWrite_like hreset env _ _

/-- the options of the last request do not show in those of the next -/
theorem parseRequest_opts (opts opts' : HeaderOpts) (ptr : Str) :
    (parseRequest opts ptr = some (false, opts) ∧ parseRequest opts' ptr = some (false, opts')) ∨
      (parseRequest opts ptr = parseRequest opts' ptr ∧ ∀ o, parseRequest opts ptr ≠ some (false, o)) := by
  unfold parseRequest
  cases find blankLine ptr with
  | none => exact .inl ⟨rfl, rfl⟩
  | some index => exact .inr ⟨rfl, by simp⟩

theorem readHeadHandler_like {c d : FrontConn} (h : Alike c d) (env : Env) (ec : Ec) (n : ℕ) :
    Like (c.readHeadHandler env ec n) (d.readHeadHandler env ec n) := by
  unfold FrontConn.readHeadHandler
  rw [← h.request]
  split_ifs
  · dsimp only
    have hdrop : ∀ opts, AlikeTo 0 { c with request := c.request.drop n, headerOpts := opts }
        { d with request := c.request.drop n, headerOpts := opts } := fun opts =>
      ⟨⟨h.stats, h.rSize, h.length, rfl⟩, rfl, rfl⟩
    have hkeep : Alike { c with request := c.request.drop n } { d with request := c.request.drop n } :=
      ⟨h.stats, h.rSize, h.length, rfl⟩
    rcases parseRequest_opts c.headerOpts d.headerOpts (cut c.request) with ⟨hc, hd⟩ | ⟨heq, hne⟩
    · rw [hc, hd]
      exact errorReturn_like hkeep env
    · rw [← heq]
      rcases hp : parseRequest c.headerOpts (cut c.request) with _ | ⟨_ | _, opts⟩
      · exact .of_quiet rfl hkeep (.inl rfl)
      · exact absurd hp (hne opts)
      · dsimp only
        split_ifs
        · exact fillAndWrite_like (hdrop opts).toAlike env _ _
        · exact dispatchHead_like (hdrop opts) env ec
        · exact fillAndWrite_like (hdrop opts).toAlike env _ _
  · exact readError_like h
  · exact errorReturn_like h env

/-! ## Runs -/

/-- behind what the first one did before, the two show the same, and go on alike -/
structure Related (before : List Ev) (s t : St) : Prop where
  evs : s.evs.map visible = before ++ t.evs.map visible
  reading : s.reading = t.reading
  conn : Alike s.front t.front
  body : ∀ win, s.reading = .body win → AlikeTo win.off s.front t.front ∧ s.front.conn.rSize ≤ win.off

theorem Like.related {before : List Ev} {s t : St} {r q : FrontConn × List Ev}
    (hevs : s.evs.map visible = before ++ t.evs.map visible) (h : Like r q) :
    Related before (perform s r) (perform t q) where
  evs := by simp only [perform, List.map_append, hevs, h.evs, List.append_assoc]
  reading := by rw [perform, perform, ← started_visible, h.evs, started_visible]
  conn := h.conn
  body := h.body

theorem receive_like {c d : FrontConn} (h : Alike c d) (data : Str) : Alike (receive c data) (receive d data) :=
  ⟨h.stats, h.rSize, h.length, by simp [receive, h.request]⟩

theorem receiveBody_like {c d : FrontConn} {win : Window} (h : AlikeTo win.off c d) (data : Str) :
    AlikeTo (win.off + data.length) (receiveBody c win data) (receiveBody d win data) where
  stats := h.stats
  rSize := h.rSize
  length := length_overwrite_congr h.length win.off data
  request := h.request
  headerOpts := h.headerOpts
  bytes := take_overwrite_congr h.length h.bytes data

theorem start_like {c d : FrontConn} (h : Alike c d) (now : ℕ) : Like (c.start now) (d.start now) := by
  have hworking : Alike { c with conn := { c.conn with stats := .connWorking } }
      { d with conn := { d.conn with stats := .connWorking } } := ⟨rfl, h.rSize, h.length, h.request⟩
  exact doReadHead_like hworking now

/-- **One step** of both, on the same bytes and completions. -/
theorem step_like {before : List Ev} {s t : St} (h : Related before s t) (o : Op) :
    Related before (step s o) (step t o) := by
  cases o with
  | headData data env =>
    have hc := receive_like h.conn data
    simp only [step, ← h.reading, ← hc.request]
    cases s.reading with
    | head =>
      cases find blankLine (receive s.front data).request with
      | none => exact h
      | some i => exact (readHeadHandler_like hc env .success (i + 4)).related h.evs
    | none => exact h
    | body win => exact h
  | headError data ec env =>
    simp only [step, ← h.reading]
    split_ifs
    · exact (readHeadHandler_like (receive_like h.conn data) env ec 0).related h.evs
    · exact h
  | bodyData data env =>
    simp only [step, ← h.reading]
    cases hr : s.reading with
    | body win =>
      obtain ⟨hto, hle⟩ := h.body win hr
      dsimp only
      split_ifs
      · exact (readBodyHandler_like (receiveBody_like hto data) (Nat.add_le_add_right hle _) env .success).related h.evs
      · exact h
    | none => exact h
    | head => exact h
  | bodyError data ec env =>
    simp only [step, ← h.reading]
    cases hr : s.reading with
    | body win =>
      obtain ⟨hto, hle⟩ := h.body win hr
      dsimp only
      split_ifs
      · exact (readBodyHandler_like (receiveBody_like hto data) (Nat.add_le_add_right hle _) env ec).related h.evs
      · exact h
    | none => exact h
    | head => exact h
  | writeSide w =>
    refine ⟨h.evs, h.reading, ⟨h.conn.stats, h.conn.rSize, h.conn.length, h.conn.request⟩, fun win hr => ?_⟩
    obtain ⟨hto, hle⟩ := h.body win hr
    exact ⟨⟨⟨hto.stats, hto.rSize, hto.length, hto.request⟩, hto.headerOpts, hto.bytes⟩, hle⟩
  | writeError =>
    have hlike := readError_like h.conn
    refine ⟨?_, h.reading, hlike.conn, fun win hr => ?_⟩
    · simp only [step, List.map_append, h.evs, hlike.evs, List.append_assoc]
    · obtain ⟨hto, -⟩ := h.body win hr
      exact ⟨⟨hlike.conn, hto.headerOpts, hto.bytes⟩, Nat.zero_le _⟩
  | expire =>
    refine ⟨h.evs, h.reading, ⟨rfl, h.conn.rSize, h.conn.length, h.conn.request⟩, fun win hr => ?_⟩
    obtain ⟨hto, hle⟩ := h.body win hr
    exact ⟨⟨⟨rfl, hto.rSize, hto.length, hto.request⟩, hto.headerOpts, hto.bytes⟩, hle⟩
  | recycle now =>
    simp only [step, ← h.reading, ← h.conn.stats]
    split_ifs with hfree
    · have hs : s.front.conn.stats ≠ .connWorking := hfree.2
      have ht : t.front.conn.stats ≠ .connWorking := h.conn.stats ▸ hs
      simp only [FrontConn.connWashWhite, if_neg hs, if_neg ht]
      have hevs : (s.evs ++ [Ev.assertion true, Ev.resize (16 * 1024)]).map visible =
          before ++ (t.evs ++ [Ev.assertion true, Ev.resize (16 * 1024)]).map visible := by
        simp only [List.map_append, h.evs, List.append_assoc]
      refine (start_like ?_ now).related hevs
      exact ⟨rfl, rfl, by simp [FrontConn.connResetNetwork], rfl⟩
    · exact h

/-- no read is outstanding, and the connection is not working -/
def Free (s : St) : Prop := s.reading = .none ∧ s.front.conn.stats ≠ .connWorking

instance : DecidablePred Free := fun _ => inferInstanceAs (Decidable (_ ∧ _))

/-- a connection that is recycled starts like a new one -/
theorem related_recycle {s : St} (h : Free s) (now : ℕ) :
    Related ((s.evs ++ s.front.connWashWhite.2).map visible) (step s (.recycle now)) (init now) := by
  have hwash : s.front.connWashWhite.1.conn.pBuffer.length = 16 * 1024 := by
    simp [FrontConn.connWashWhite, h.2]
  have hr : s.front.connWashWhite.1.conn.rSize = 0 := by
    simp [FrontConn.connWashWhite, h.2]
  simp only [step, if_pos (show s.reading = .none ∧ s.front.conn.stats ≠ .connWorking from h)]
  simp only [init, FrontConn.start, FrontConn.doReadHead, ne_eq, not_true_eq_false, if_false, perform]
  refine ⟨by simp, rfl, ⟨rfl, ?_, ?_, rfl⟩, fun win hw => by simp [started, Outstanding.next] at hw⟩
  · exact hr
  · simpa [FrontConn.connResetNetwork] using hwash

/-- **After a recycling everything is as on a new connection.** Whatever the connection did and received before, the
same bytes and completions lead to the same reads, replies, pushes and assertions, to the same bodies, and to the same
outstanding read. -/
theorem recycled_like_fresh {start : ℕ} {life : List Op} (hfree : Free (run step (init start) life)) (now : ℕ)
    (later : List Op) :
    let s := run step (init start) life
    let s' := run step s (.recycle now :: later)
    let t := run step (init now) later
    s'.evs.map visible = (s.evs ++ s.front.connWashWhite.2).map visible ++ t.evs.map visible ∧
      s'.reading = t.reading ∧ Alike s'.front t.front := by
  have hstep : ∀ before (u v : St) (o : Op), Related before u v → Related before (step u o) (step v o) :=
    fun _ _ _ o hrel => step_like hrel o
  have h := run_related (hstep _) (related_recycle hfree now) later
  exact ⟨h.evs, h.reading, h.conn⟩

/-- a request that was answered, a timeout, and the aborted read -/
def servedLife : List Op :=
  [.headData (ascii "POST /aa HTTP/1.1\r\nContent-Length: 7\r\n\r\n\x7b\"a\":1\x7d") someEnv, .expire,
    .headError [] .operationAborted someEnv]

theorem recycled_like_fresh_served :
    (run step (run step (init 0) servedLife) [.recycle 9, .headData (ascii "GET / HTTP/1.1\r\n\r\n") someEnv]).reading =
      (run step (init 9) [.headData (ascii "GET / HTTP/1.1\r\n\r\n") someEnv]).reading :=
  (@recycled_like_fresh 0 servedLife (by decide +kernel) 9 [.headData (ascii "GET / HTTP/1.1\r\n\r\n") someEnv]).2.1

end AirobotMsgd.Reading
