/-
POST requests to `/aa`, `/bb` and `/cc` on one front connection, each delivered in two parts: the head with the first k
bytes behind it in one `async_read_until`, the rest in the `async_read` the handler asks for.

`serve_spec` says what a request comes to when its int Content-Length is n ≥ 1 and k ≤ n: whatever the connection has
handled before, `read_body_handler` gets past its length check once, with the n bytes at the start of `p_buffer_`,
nothing in `request_` and the options of the head alone, and what it does then is `dispatchBody`.

Results:
- `segmentation_independence`: over any sequence of requests and any splits, with anything happening to the write side
  in between.
- `answered_iff`: a request is answered by exactly one fill, one write and the next read if and only if its body is not
  empty, nothing behind the body came with the head, and for `/bb` the body is no JSON, or the connect succeeded and the
  read returned something.
- `empty_body_is_an_error`: a request that is not answered.
-/
import AirobotMsgd.Front.Reading

namespace AirobotMsgd.Reading

open AirobotMsgd.Bytes AirobotMsgd.HttpText AirobotMsgd.HttpProto AirobotMsgd.HttpParser AirobotMsgd.Runs

/-! ## Requests -/

structure Request where
  head : Str
  body : Str
deriving DecidableEq, Repr

namespace Request

/-- the options `parse_request` gives on the head alone -/
def opts (r : Request) : HeaderOpts := ((parseRequest [] r.head).map (·.2)).getD []

/-- the text of the Content-Length option -/
def lengthText (r : Request) : Str := requestOption r.opts HeaderOptions.contentLength

/-- a POST to `/aa`, `/bb` or `/cc` whose head has no NUL and no line with an all-'/' URI -/
structure Post (r : Request) : Prop where
  isHead : IsHead r.head
  noNul : 0 ∉ r.head
  uris : ∀ item ∈ getlines r.head, ¬ AllSlashUri item
  wantsBody : wantsBody r.opts = true

/-- its Content-Length is a decimal, of the length of its body -/
structure Valid (r : Request) : Prop extends Post r where
  nonempty : r.lengthText ≠ []
  digits : ∀ b ∈ r.lengthText, isDigit b = true
  value : decValue r.lengthText = r.body.length

theorem Post.parsed {r : Request} (h : r.Post) (opts : HeaderOpts) (extra : Str) :
    ∃ o, parseRequest opts (cut (r.head ++ extra)) = some (true, o) ∧ AgreeOn NotBody o r.opts := by
  have hcut : cut (r.head ++ extra) = r.head ++ cut extra :=
    List.takeWhile_append_of_pos fun b hb => by
      simp only [decide_eq_true_eq]; rintro rfl; exact h.noNul hb
  obtain ⟨o', ho'⟩ := parseRequest_succeeds h.isHead h.uris []
  have hrel := parseRequest_head h.isHead opts [] (cut extra)
  rw [ho'] at hrel
  rw [hcut, Request.opts, ho']
  cases hp : parseRequest opts (r.head ++ cut extra) with
  | none => rw [hp] at hrel; cases hrel
  | some p =>
    rw [hp] at hrel
    cases hrel with
    | some hrel =>
      obtain ⟨b, o⟩ := p
      obtain ⟨rfl, -, hagree⟩ := hrel
      exact ⟨o, rfl, hagree⟩

end Request

/-- the options that decide what a request is -/
theorem agree_options {o o' : HeaderOpts} (h : AgreeOn NotBody o o') :
    wantsBody o = wantsBody o' ∧ FrontConn.contentLength o = FrontConn.contentLength o' ∧
      requestOption o HeaderOptions.requestUri = requestOption o' HeaderOptions.requestUri ∧
      requestOption o HeaderOptions.requestMethod = requestOption o' HeaderOptions.requestMethod := by
  have h1 : requestOption o HeaderOptions.requestMethod = requestOption o' HeaderOptions.requestMethod :=
    requestOption_agree h (by decide)
  have h2 : requestOption o HeaderOptions.requestUri = requestOption o' HeaderOptions.requestUri :=
    requestOption_agree h (by decide)
  have h3 : requestOption o HeaderOptions.contentLength = requestOption o' HeaderOptions.contentLength :=
    requestOption_agree h (by decide)
  exact ⟨by rw [wantsBody, wantsBody, h1, h2], by rw [FrontConn.contentLength, FrontConn.contentLength, h3], h2, h1⟩

/-! ## What a request comes to -/

/-- a working connection that waits for a head -/
structure Ready (s : St) : Prop where
  reading : s.reading = .head
  working : s.front.conn.stats = .connWorking
  request : s.front.request = []

/-- the first k bytes of the body are in the buffer, which holds all of it -/
structure Holds (c : FrontConn) (r : Request) (k : ℕ) : Prop where
  working : c.conn.stats = .connWorking
  rSize : c.conn.rSize = k
  body : c.conn.pBuffer.take k = r.body.take k
  room : r.body.length + 1 ≤ c.conn.pBuffer.length
  request : c.request = []
  opts : AgreeOn NotBody c.headerOpts r.opts

/-- an event on the way to a complete body, within bounds -/
def OnTheWay (e : Ev) : Prop := e.Ok ∧ (e.internal = true ∨ ∃ win size, e = .asyncRead win size)

/-- `read_body_handler` gets past its length check with all of the body, and goes on from there -/
def Completes (s s' : St) (r : Request) (env : Env) : Prop :=
  ∃ c evs, Holds c r r.body.length ∧ (∀ e ∈ evs, e.Ok ∧ e.internal = true) ∧
    s' = perform s (FrontConn.andThen
      (c, evs ++ [.bodyComplete r.body.length c.conn.pBuffer c.request c.headerOpts]) (·.dispatchBody env))

theorem Holds.contentLength {c : FrontConn} {r : Request} {k : ℕ} (h : Holds c r k)
    (hn : FrontConn.contentLength r.opts = r.body.length) :
    FrontConn.contentLength c.headerOpts = r.body.length :=
  (agree_options h.opts).2.1.trans hn

/-- the last part of the body has arrived -/
theorem readBodyHandler_complete {c : FrontConn} {r : Request} {j : ℕ} (hj : j ≠ 0)
    (hle : c.conn.rSize + j = r.body.length) (hn : FrontConn.contentLength c.headerOpts = r.body.length) (env : Env) :
    c.readBodyHandler env .success j =
      FrontConn.andThen ({ c with conn := { c.conn with rSize := r.body.length } },
        [.add c.conn.rSize j, .bodyComplete r.body.length c.conn.pBuffer c.request c.headerOpts])
        (·.dispatchBody env) := by
  obtain ⟨hlen, hlt⟩ := FrontConn.len_eq hn
  have hsum : (c.conn.rSize + j) % FrontConn.SIZE_MOD = r.body.length := by
    rw [hle]; exact Nat.mod_eq_of_lt (by unfold FrontConn.SIZE_MOD; omega)
  have hlen' : ∀ n, FrontConn.len { c with conn := { c.conn with rSize := n } } = r.body.length := fun n => hlen
  simp only [FrontConn.readBodyHandler, ne_eq, hj, not_false_eq_true, and_self, if_true, hsum, FrontConn.andThen, hlen',
    lt_irrefl, if_false, List.cons_append, List.nil_append]

/-- the read of the head, with the bytes behind it in `request_` -/
theorem headData_dispatch {s : St} (hs : Ready s) {r : Request} (hr : r.Post) (data : Str) (env : Env) :
    ∃ o, AgreeOn NotBody o r.opts ∧ step s (.headData (r.head ++ data) env) = perform s
      (FrontConn.dispatchHead { s.front with request := data, headerOpts := o } env .success) := by
  obtain ⟨o, hparse, ho⟩ := hr.parsed s.front.headerOpts data
  have hwant := (agree_options ho).1
  rw [hr.wantsBody] at hwant
  simp only [wantsBody, Bool.and_eq_true] at hwant
  have hh : r.head.length - 4 + 4 = r.head.length := hr.isHead.length
  have hh0 : r.head.length ≠ 0 := by omega
  refine ⟨o, ho, ?_⟩
  simp only [step, hs.reading, receive, hs.request, List.nil_append, find_append hr.isHead, hh,
    FrontConn.readHeadHandler, ne_eq, hh0, not_false_eq_true, and_self, if_true, hparse, hwant.1, hwant.2,
    Bool.not_true, Bool.false_eq_true, if_false, List.drop_left]

/-- the head arrives with the first k bytes of the body -/
theorem head_spec {s : St} (hs : Ready s) {r : Request} (hr : r.Post) (hne : r.body ≠ [])
    (hn : FrontConn.contentLength r.opts = r.body.length) {k : ℕ} (hk : k ≤ r.body.length) (env : Env) :
    (k < r.body.length ∧ ∃ c evs, Holds c r k ∧ (∀ e ∈ evs, OnTheWay e) ∧
      step s (.headData (r.head ++ r.body.take k) env) = ⟨c, .body ⟨k, r.body.length - k⟩, s.evs ++ evs⟩) ∨
    (k = r.body.length ∧ Completes s (step s (.headData (r.head ++ r.body.take k) env)) r env) := by
  have htk : (r.body.take k).length = k := by simp [hk]
  obtain ⟨o, ho, hstep⟩ := headData_dispatch hs hr (r.body.take k) env
  have hcl : FrontConn.contentLength o = r.body.length := (agree_options ho).2.1.trans hn
  obtain ⟨evs, buf, hok, hroom, -, htake, hdisp⟩ := FrontConn.dispatchHead_spec
    (c := { s.front with request := r.body.take k, headerOpts := o }) hcl (by simp only [htk]; exact hk) env .success
  simp only [htk] at htake hdisp
  have hway : ∀ e ∈ evs, OnTheWay e := fun e he => ⟨(hok e he).1, .inl (hok e he).2⟩
  rw [hstep, hdisp]
  rcases Nat.lt_or_ge k r.body.length with hlt | hge
  · left
    have hread := FrontConn.doReadBody_working (c := { s.front with
        conn := { s.front.conn with rSize := k, pBuffer := buf }, request := [], headerOpts := o })
      hs.working hcl hlt env.now
    refine ⟨hlt, { s.front with
        conn := { s.front.conn with rSize := k, pBuffer := buf, touchTime := env.now }, request := [], headerOpts := o },
      evs ++ [.sub r.body.length k, .asyncRead ⟨k, r.body.length - k⟩ buf.length],
      ⟨hs.working, rfl, htake, hroom, rfl, ho⟩, fun e he => ?_, ?_⟩
    · simp only [List.mem_append, List.mem_cons, List.not_mem_nil, or_false] at he
      rcases he with he | rfl | rfl
      · exact hway e he
      · exact ⟨hlt.le, .inl rfl⟩
      · exact ⟨by simp only [Ev.Ok]; omega, .inr ⟨_, _, rfl⟩⟩
    · simp only [FrontConn.andThen, if_pos hlt, hread, perform]
      rw [started_append fun e he => quiet_of_internal (hok e he).2]
      rfl
  · right
    obtain rfl : k = r.body.length := le_antisymm hk hge
    have hj : r.body.length ≠ 0 := by simpa [List.length_eq_zero_iff] using hne
    have h31 : r.body.length < 2 ^ 31 := (FrontConn.len_eq (c := { s.front with headerOpts := o }) hcl).2
    refine ⟨rfl, { s.front with
        conn := { s.front.conn with rSize := r.body.length, pBuffer := buf }, request := [], headerOpts := o },
      evs ++ [.add 0 r.body.length], ⟨hs.working, rfl, ?_, hroom, rfl, ho⟩, fun e he => ?_, ?_⟩
    · rw [htake]
    · simp only [List.mem_append, List.mem_singleton] at he
      rcases he with he | rfl
      · exact hok e he
      · exact ⟨by simp only [Ev.Ok, Nat.zero_add]; omega, rfl⟩
    · have hdone := readBodyHandler_complete (c := { s.front with
          conn := { s.front.conn with rSize := 0, pBuffer := buf }, request := [], headerOpts := o })
        (r := r) hj (Nat.zero_add _) hcl env
      simp only [FrontConn.andThen, lt_irrefl, if_false, hdone]
      simp

/-- the rest of the body arrives -/
theorem body_spec {s : St} {r : Request} {k : ℕ} (hread : s.reading = .body ⟨k, r.body.length - k⟩)
    (h : Holds s.front r k) (hn : FrontConn.contentLength r.opts = r.body.length) (hk : k < r.body.length) (env : Env) :
    Completes s (step s (.bodyData (r.body.drop k) env)) r env := by
  have hcl := h.contentLength hn
  have h31 := (FrontConn.len_eq hcl).2
  have hroom := h.room
  have hdrop : (r.body.drop k).length = r.body.length - k := List.length_drop
  have hne : r.body.drop k ≠ [] := by
    rw [← List.length_pos_iff]; omega
  have hbuf : (overwrite s.front.conn.pBuffer k (r.body.drop k)).take r.body.length = r.body := by
    have hwindow : (overwrite s.front.conn.pBuffer k (r.body.drop k)).take (k + (r.body.drop k).length) =
        s.front.conn.pBuffer.take k ++ r.body.drop k := take_overwrite (by omega)
    rwa [hdrop, Nat.add_sub_cancel' hk.le, h.body, List.take_append_drop] at hwindow
  have hdone := readBodyHandler_complete (c := receiveBody s.front ⟨k, r.body.length - k⟩ (r.body.drop k)) (r := r)
    (j := r.body.length - k) (by omega) (by simp only [receiveBody, h.rSize]; omega) hcl env
  refine ⟨{ s.front with conn := { s.front.conn with
      rSize := r.body.length, pBuffer := overwrite s.front.conn.pBuffer k (r.body.drop k) } },
    [.add k (r.body.length - k)], ⟨h.working, rfl, ?_, ?_, h.request, h.opts⟩, ?_, ?_⟩
  · simpa using hbuf
  · simp only
    rw [length_overwrite (by omega)]
    exact hroom
  · simp only [List.mem_singleton, forall_eq]
    exact ⟨by simp only [Ev.Ok]; omega, rfl⟩
  · simp only [step, hread, ne_eq, hne, not_false_eq_true, hdrop, le_refl, and_self, if_true, hdone]
    simp only [receiveBody, h.rSize, List.cons_append, List.nil_append]

/-! ## Past the length check -/

/-- what `read_body_handler` sees when it is past its length check -/
structure Snapshot where
  rSize : ℕ
  buffer : Str
  request : Str
  headerOpts : HeaderOpts
deriving DecidableEq, Repr

def snapshot : Ev → Option Snapshot
  | .bodyComplete rSize buffer request headerOpts => some ⟨rSize, buffer, request, headerOpts⟩
  | _ => none

/-- a reply is filled in, a write or the read of a head is started, or a socket error is reported -/
def outward : Ev → Bool
  | .fillForHttp _ _ | .asyncWrite _ | .asyncReadUntil | .notifyConnError => true
  | _ => false

/-- within bounds, and none of the above -/
structure Silent (e : Ev) : Prop where
  ok : e.Ok
  quiet : Quiet e
  outward : outward e = false
  snapshot : snapshot e = none

/-- for `/bb`: the body is no JSON, or the connect succeeds and the read returns something -/
def Answers (r : Request) (env : Env) : Prop :=
  iequals (requestOption r.opts HeaderOptions.requestUri) (ascii "/bb") = true →
    (Json11.parse (cut r.body) env.errno).err ≠ [] ∨ (env.connectOk = true ∧ env.answer ≠ [])

instance (r : Request) (env : Env) : Decidable (Answers r env) := inferInstanceAs (Decidable (_ → _))

/-- the reply, its write and the next read, after silent events -/
def Replies (c : FrontConn) (r : FrontConn × List Ev) : Prop :=
  FrontConn.SameRead c r.1 ∧ ∃ pre content status win, (∀ e ∈ pre, Silent e) ∧
    r.2 = pre ++ [.fillForHttp content status, .assertion true, .asyncWrite win, .asyncReadUntil]

theorem fillWriteRead_replies {c : FrontConn} (hw : c.conn.stats = .connWorking) (env : Env) (content status : Str) :
    Replies c (c.fillWriteRead env content status) :=
  ⟨FrontConn.fillWriteRead_sameRead c env content status, [], content, status, _, by simp,
    FrontConn.fillWriteRead_working hw env content status⟩

theorem Replies.ok {c : FrontConn} {r : FrontConn × List Ev} (h : Replies c r) : ∀ e ∈ r.2, e.Ok := by
  obtain ⟨-, pre, content, status, win, hsil, heq⟩ := h
  intro e he
  rw [heq] at he
  rcases List.mem_append.1 he with he | he
  · exact (hsil e he).ok
  · simp only [List.mem_cons, List.not_mem_nil, or_false] at he
    rcases he with rfl | rfl | rfl | rfl <;> simp [Ev.Ok]

theorem Replies.andThen {c : FrontConn} {evs : List Ev} {f : FrontConn → FrontConn × List Ev}
    (h : ∀ e ∈ evs, Silent e) (hf : Replies c (f c)) : Replies c (FrontConn.andThen (c, evs) f) := by
  obtain ⟨hsame, pre, content, status, win, hpre, heq⟩ := hf
  refine ⟨hsame, evs ++ pre, content, status, win, ?_, by simp [FrontConn.andThen, heq]⟩
  intro e he
  rcases List.mem_append.1 he with he | he
  · exact h e he
  · exact hpre e he

section
variable {c : FrontConn} {r : Request} {env : Env}

theorem silent_copy (h : Holds c r r.body.length) :
    ∀ e ∈ [Ev.copy c.conn.rSize c.conn.pBuffer.length], Silent e := by
  have := h.rSize
  have := h.room
  simp only [List.mem_singleton, forall_eq]
  exact ⟨by simp only [Ev.Ok]; omega, fun _ => rfl, rfl, rfl⟩

theorem silent_push (siteId : ℕ) (dat : Str) (len : ℕ) : ∀ e ∈ [Ev.pushBackend siteId dat len], Silent e := by
  simp only [List.mem_singleton, forall_eq]
  exact ⟨trivial, fun _ => rfl, rfl, rfl⟩

theorem Holds.body_eq (h : Holds c r r.body.length) : c.conn.pBuffer.take c.conn.rSize = r.body := by
  rw [h.rSize, h.body, List.take_length]

/-- a request that is answered -/
theorem dispatchBody_replies (h : Holds c r r.body.length) (ha : Answers r env) : Replies c (c.dispatchBody env) := by
  have huri := (agree_options h.opts).2.2.1
  simp only [FrontConn.dispatchBody, huri]
  split_ifs with h1 h2
  · exact fillWriteRead_replies h.working _ _ _
  · -- the answers of `/bb`
    unfold FrontConn.handleBb
    refine .andThen (silent_copy h) ?_
    rw [h.body_eq]
    by_cases herr : (Json11.parse (cut r.body) env.errno).err ≠ []
    · rw [if_pos herr]
      exact fillWriteRead_replies h.working _ _ _
    · obtain ⟨hc, hans⟩ := (ha h2).resolve_left herr
      rw [if_neg herr]
      refine .andThen (silent_push _ _ _) ?_
      simp only [hc, Bool.not_true, Bool.false_eq_true, if_false, hans]
      exact fillWriteRead_replies h.working _ _ _
  · exact fillWriteRead_replies h.working _ _ _
  · exact fillWriteRead_replies h.working _ _ _

/-- a request that is dropped -/
theorem dispatchBody_silent (h : Holds c r r.body.length) (ha : ¬ Answers r env) :
    ∀ e ∈ (c.dispatchBody env).2, Silent e := by
  have huri := (agree_options h.opts).2.2.1
  unfold Answers at ha
  simp only [not_forall, not_or, not_and, not_not] at ha
  obtain ⟨hbb, herr, hans⟩ := ha
  have haa : iequals (requestOption r.opts HeaderOptions.requestUri) (ascii "/aa") = false := by
    rw [Bool.eq_false_iff]
    intro haa
    rw [iequals_iff] at haa hbb
    exact absurd (haa.symm.trans hbb) (by decide)
  simp only [FrontConn.dispatchBody, huri, haa, hbb, Bool.false_eq_true, if_false, if_true, FrontConn.handleBb,
    FrontConn.andThen, h.body_eq, herr, ne_eq, not_true_eq_false]
  intro e he
  have hlast : ∀ c', (if (!env.connectOk) = true then ((c' : FrontConn), ([] : List Ev))
      else if env.answer = [] then (c', []) else c'.fillWriteRead env (cut env.answer) Status.ok).2 = [] := by
    intro c'
    cases hc : env.connectOk with
    | false => rfl
    | true => rw [if_neg (by simp), if_pos (hans hc)]
  rw [hlast, List.append_nil] at he
  rcases List.mem_append.1 he with he | he
  · exact silent_copy h e he
  · exact silent_push _ _ _ e he

end

/-! ## Sequences of requests -/

/-- a request, its first `split` body bytes delivered with the head, and what happens to the write side meanwhile -/
structure Delivery where
  request : Request
  split : ℕ
  before : List WriteSide
  between : List WriteSide
  headEnv : Env
  bodyEnv : Env

namespace Delivery

def ops (d : Delivery) : List Op :=
  d.before.map .writeSide ++ .headData (d.request.head ++ d.request.body.take d.split) d.headEnv ::
    if d.split < d.request.body.length then
      d.between.map .writeSide ++ [.bodyData (d.request.body.drop d.split) d.bodyEnv]
    else []

/-- what the handler reads that gets past the length check -/
def env (d : Delivery) : Env := if d.split < d.request.body.length then d.bodyEnv else d.headEnv

/-- a valid request with a body of at least one and less than 2^31 - 256 bytes, and a split of it -/
structure Valid (d : Delivery) : Prop where
  request : d.request.Valid
  pos : 1 ≤ d.request.body.length
  lt : d.request.body.length < 2 ^ 31 - 256
  split : d.split ≤ d.request.body.length

end Delivery

/-- the requests that are handled: after one that is not answered no head is read -/
def handled : List Delivery → List Request
  | [] => []
  | d :: ds => d.request :: if Answers d.request d.env then handled ds else []

/-- the body of the request is complete, at the start of the buffer; nothing else has been read; and the options are
those of its head -/
structure Snapshot.Of (snap : Snapshot) (r : Request) : Prop where
  rSize : snap.rSize = r.body.length
  buffer : snap.buffer.take r.body.length = r.body
  request : snap.request = []
  options : ∀ name, iequals name HeaderOptions.requestBody = false →
    requestOption snap.headerOpts name = requestOption r.opts name

/-- from s to s' the request was handled -/
def Served (s s' : St) (r : Request) (env : Env) : Prop :=
  ∃ c evs, Holds c r r.body.length ∧ (∀ e ∈ evs, OnTheWay e) ∧ s'.front = (c.dispatchBody env).1 ∧
    s'.reading = started (c.dispatchBody env).2 ∧
    s'.evs = s.evs ++ evs ++ .bodyComplete r.body.length c.conn.pBuffer c.request c.headerOpts :: (c.dispatchBody env).2

theorem Completes.served {s s' : St} {r : Request} {env : Env} (h : Completes s s' r env) : Served s s' r env := by
  obtain ⟨c, evs, hc, hok, rfl⟩ := h
  refine ⟨c, evs, hc, fun e he => ⟨(hok e he).1, .inl (hok e he).2⟩, rfl, ?_, by simp [perform, FrontConn.andThen]⟩
  simp only [perform, FrontConn.andThen]
  apply started_append
  intro e he
  rcases List.mem_append.1 he with he | he
  · exact quiet_of_internal (hok e he).2
  · rw [List.mem_singleton.1 he]; exact fun _ => rfl

theorem Served.reading {s s' : St} {r : Request} {env : Env} (h : Served s s' r env) (win : Window) :
    s'.reading ≠ .body win := by
  obtain ⟨c, evs, hc, -, -, hrd, -⟩ := h
  rw [hrd]
  by_cases ha : Answers r env
  · obtain ⟨-, pre, content, status, w, hsil, heq⟩ := dispatchBody_replies hc ha
    rw [heq, started_append fun e he => (hsil e he).quiet]
    simp [started, Outstanding.next]
  · rw [started_quiet fun e he => (dispatchBody_silent hc ha e he).quiet]
    simp

/-- the write side does not touch the read side -/
theorem run_writeSide (s : St) (ws : List WriteSide) :
    FrontConn.SameRead s.front (run step s (ws.map .writeSide)).front ∧
      (run step s (ws.map .writeSide)).reading = s.reading ∧ (run step s (ws.map .writeSide)).evs = s.evs := by
  induction ws generalizing s with
  | nil => exact ⟨⟨rfl, rfl, rfl, rfl, rfl⟩, rfl, rfl⟩
  | cons w ws ih =>
    obtain ⟨h1, h2, h3⟩ := ih (step s (.writeSide w))
    have h0 : FrontConn.SameRead s.front (step s (.writeSide w)).front := ⟨rfl, rfl, rfl, rfl, rfl⟩
    exact ⟨h0.trans h1, h2, h3⟩

theorem Ready.writeSide {s : St} (h : Ready s) (ws : List WriteSide) : Ready (run step s (ws.map .writeSide)) := by
  obtain ⟨h1, h2, -⟩ := run_writeSide s ws
  exact ⟨h2.trans h.reading, h1.stats.trans h.working, h1.request.trans h.request⟩

theorem Holds.sameRead {c c' : FrontConn} {r : Request} {k : ℕ} (h : Holds c r k) (hs : FrontConn.SameRead c c') :
    Holds c' r k :=
  ⟨hs.stats.trans h.working, hs.rSize.trans h.rSize, by rw [hs.pBuffer, h.body], by rw [hs.pBuffer]; exact h.room,
    hs.request.trans h.request, by rw [hs.headerOpts]; exact h.opts⟩

/-- **One delivery.** However the request is split, it is handled with all of its body. -/
theorem serve_spec {s : St} (hs : Ready s) (d : Delivery) (hr : d.request.Post) (hne : d.request.body ≠ [])
    (hn : FrontConn.contentLength d.request.opts = d.request.body.length) (hk : d.split ≤ d.request.body.length) :
    Served s (run step s d.ops) d.request d.env := by
  obtain ⟨-, -, hev⟩ := run_writeSide s d.before
  rw [Delivery.ops, run_append, run_cons, Delivery.env]
  rcases head_spec (hs.writeSide d.before) hr hne hn hk d.headEnv with ⟨hlt, c, evs, hc, hway, heq⟩ | ⟨hkn, hdone⟩
  · rw [if_pos hlt, if_pos hlt, heq, run_append, run_cons, run_nil]
    obtain ⟨h1, h2, h3⟩ := run_writeSide ⟨c, .body ⟨d.split, d.request.body.length - d.split⟩,
      (run step s (d.before.map .writeSide)).evs ++ evs⟩ d.between
    obtain ⟨c', evs', hc', hway', hf, hrd, hev'⟩ := (body_spec h2 (hc.sameRead h1) hn hlt d.bodyEnv).served
    refine ⟨c', evs ++ evs', hc', fun e he => ?_, hf, hrd, ?_⟩
    · rcases List.mem_append.1 he with he | he
      · exact hway e he
      · exact hway' e he
    · rw [hev', h3, hev]; simp
  · rw [if_neg (by omega), if_neg (by omega), run_nil]
    obtain ⟨c', evs', hc', hway', hf, hrd, hev'⟩ := hdone.served
    exact ⟨c', evs', hc', hway', hf, hrd, by rw [hev', hev]⟩

/-- without an outstanding read nothing is handled -/
theorem run_idle {s : St} (hs : s.reading = .none) (d : Delivery) :
    (run step s d.ops).reading = .none ∧ (run step s d.ops).evs = s.evs := by
  obtain ⟨-, h2, h3⟩ := run_writeSide s d.before
  rw [hs] at h2
  rw [Delivery.ops, run_append, run_cons]
  have hstep : step (run step s (d.before.map .writeSide)) (.headData (d.request.head ++ d.request.body.take d.split)
      d.headEnv) = run step s (d.before.map .writeSide) := by
    simp [step, h2]
  rw [hstep]
  split_ifs
  · obtain ⟨-, h5, h6⟩ := run_writeSide (run step s (d.before.map .writeSide)) d.between
    rw [run_append, run_cons, run_nil]
    have : step (run step (run step s (d.before.map .writeSide)) (d.between.map .writeSide))
        (.bodyData (d.request.body.drop d.split) d.bodyEnv) =
        run step (run step s (d.before.map .writeSide)) (d.between.map .writeSide) := by
      simp [step, h5, h2]
    rw [this]
    exact ⟨h5.trans h2, h6.trans h3⟩
  · exact ⟨h2, h3⟩

theorem snapshot_onTheWay {e : Ev} (h : OnTheWay e) : snapshot e = none ∧ outward e = false := by
  rcases h.2 with hi | ⟨win, size, rfl⟩
  · cases e <;> simp_all [Ev.internal, snapshot, outward]
  · exact ⟨rfl, rfl⟩

/-! ## Segmentation independence -/

/-- the snapshot of a request that was handled -/
theorem Served.snapshot {s s' : St} {r : Request} {env : Env} (h : Served s s' r env) (hb : InBounds s) :
    InBounds s' ∧ ∃ evs snap, s'.evs = s.evs ++ evs ∧ evs.filterMap snapshot = [snap] ∧ snap.Of r ∧
      (if Answers r env then Ready s' else s'.reading = .none) := by
  obtain ⟨c, evs, hc, hway, hf, hrd, hev⟩ := h
  have hpre : evs.filterMap Reading.snapshot = [] :=
    List.filterMap_eq_nil_iff.2 fun e he => (snapshot_onTheWay (hway e he)).1
  have hof : Snapshot.Of ⟨r.body.length, c.conn.pBuffer, c.request, c.headerOpts⟩ r :=
    ⟨rfl, by rw [hc.body, List.take_length], hc.request, fun name hname => requestOption_agree hc.opts hname⟩
  -- what `dispatchBody` does is in bounds and leaves no snapshot
  have hdisp : (∀ e ∈ (c.dispatchBody env).2, e.Ok) ∧ (c.dispatchBody env).2.filterMap Reading.snapshot = [] ∧
      (if Answers r env then Ready s' else s'.reading = .none) := by
    split_ifs with ha
    · obtain ⟨hsame, pre, content, status, win, hsil, heq⟩ := dispatchBody_replies hc ha
      refine ⟨(dispatchBody_replies hc ha).ok, ?_, ?_, ?_, ?_⟩
      · rw [heq, List.filterMap_append, List.filterMap_eq_nil_iff.2 fun e he => (hsil e he).snapshot]
        rfl
      · rw [hrd, heq, started_append fun e he => (hsil e he).quiet]
        rfl
      · rw [hf, hsame.stats, hc.working]
      · rw [hf, hsame.request, hc.request]
    · have hsil := dispatchBody_silent hc ha
      exact ⟨fun e he => (hsil e he).ok, List.filterMap_eq_nil_iff.2 fun e he => (hsil e he).snapshot,
        hrd.trans (started_quiet fun e he => (hsil e he).quiet)⟩
  obtain ⟨hok, hnone, hafter⟩ := hdisp
  refine ⟨fun e he => ?_, evs ++ .bodyComplete r.body.length c.conn.pBuffer c.request c.headerOpts ::
    (c.dispatchBody env).2, ⟨r.body.length, c.conn.pBuffer, c.request, c.headerOpts⟩, by rw [hev]; simp, ?_, hof,
    hafter⟩
  · rw [hev] at he
    rcases List.mem_append.1 he with he | he
    · rcases List.mem_append.1 he with he | he
      · exact hb e he
      · exact (hway e he).1
    · rcases List.mem_cons.1 he with rfl | he
      · trivial
      · exact hok e he
  · rw [List.filterMap_append, List.filterMap_cons, hpre, hnone]
    rfl

theorem contentLength_of_valid {d : Delivery} (h : d.Valid) :
    FrontConn.contentLength d.request.opts = d.request.body.length := by
  have hlt := h.lt
  have hv := h.request.value
  rw [← hv]
  exact atoi_digits h.request.nonempty h.request.digits (show decValue d.request.lengthText < 2 ^ 31 by omega)

/-- without an outstanding read nothing more is handled -/
theorem run_all_idle {s : St} (hs : s.reading = .none) (ds : List Delivery) :
    (run step s (ds.flatMap Delivery.ops)).evs = s.evs := by
  induction ds generalizing s with
  | nil => rfl
  | cons d ds ih =>
    obtain ⟨h1, h2⟩ := run_idle hs d
    rw [List.flatMap_cons, run_append, ih h1, h2]

/-- **Segmentation independence.** For any sequence of valid requests and any splits of them, nothing leaves the
bounds, and every request that is handled gets past the length check exactly once, with its own body and the options of
its own head. -/
theorem segmentation_independence {s : St} (hs : Ready s) (hb : InBounds s) (ds : List Delivery)
    (hds : ∀ d ∈ ds, d.Valid) :
    InBounds (run step s (ds.flatMap Delivery.ops)) ∧ ∃ evs, (run step s (ds.flatMap Delivery.ops)).evs = s.evs ++ evs ∧
      List.Forall₂ Snapshot.Of (evs.filterMap snapshot) (handled ds) := by
  induction ds generalizing s with
  | nil => exact ⟨hb, [], by simp, .nil⟩
  | cons d ds ih =>
    have hd := hds d List.mem_cons_self
    have hne : d.request.body ≠ [] := by
      rw [← List.length_pos_iff]; exact hd.pos
    obtain ⟨hb', evs, snap, hev, hsnap, hof, hafter⟩ :=
      (serve_spec hs d hd.request.toPost hne (contentLength_of_valid hd) hd.split).snapshot hb
    rw [List.flatMap_cons, run_append, handled]
    by_cases ha : Answers d.request d.env
    · rw [if_pos ha] at hafter ⊢
      obtain ⟨hb'', evs', hev', hall⟩ := ih hafter hb' fun d' hd' => hds d' (List.mem_cons_of_mem d hd')
      refine ⟨hb'', evs ++ evs', by rw [hev', hev, List.append_assoc], ?_⟩
      rw [List.filterMap_append, hsnap]
      exact .cons hof hall
    · rw [if_neg ha] at hafter ⊢
      refine ⟨fun e he => hb' e (by rwa [run_all_idle hafter] at he), evs, by rw [run_all_idle hafter, hev], ?_⟩
      rw [hsnap]
      exact .cons hof .nil

theorem ready_init (now : ℕ) : Ready (init now) := ⟨rfl, rfl, rfl⟩

def someRequest : Request := ⟨ascii "POST /aa HTTP/1.1\r\nContent-Length: 2\r\n\r\n", ascii "hi"⟩

theorem valid_someRequest : someRequest.Valid :=
  ⟨⟨by decide, by decide, by decide +kernel, by decide +kernel⟩, by decide +kernel, by decide +kernel, by decide +kernel⟩

/-- one byte of the body comes with the head -/
def splitInTwo : Delivery := ⟨someRequest, 1, [], [⟨3, 1, [], 7⟩], someEnv, someEnv⟩

def longRequest : Request := ⟨ascii "POST /cc HTTP/1.1\r\nContent-Length: 11\r\n\r\n", ascii "hello there"⟩

theorem valid_longRequest : longRequest.Valid :=
  ⟨⟨by decide, by decide, by decide +kernel, by decide +kernel⟩, by decide +kernel, by decide +kernel, by decide +kernel⟩

/-- the whole of the body comes with the head -/
def longAtOnce : Delivery := ⟨longRequest, 11, [], [], someEnv, someEnv⟩

theorem segmentation_independence_two :
    InBounds (run step (init 0) ([splitInTwo, longAtOnce, splitInTwo].flatMap Delivery.ops)) ∧
      ∃ evs, (run step (init 0) ([splitInTwo, longAtOnce, splitInTwo].flatMap Delivery.ops)).evs = (init 0).evs ++ evs ∧
        List.Forall₂ Snapshot.Of (evs.filterMap snapshot) (handled [splitInTwo, longAtOnce, splitInTwo]) := by
  have hsplit : splitInTwo.Valid := ⟨valid_someRequest, by decide, by decide, by decide⟩
  have hlong : longAtOnce.Valid := ⟨valid_longRequest, by decide, by decide, by decide⟩
  refine segmentation_independence (ready_init 0) (inv_init 0).ok [splitInTwo, longAtOnce, splitInTwo] ?_
  simp only [List.forall_mem_cons]
  exact ⟨hsplit, hlong, hsplit, fun _ h => absurd h List.not_mem_nil⟩

/-! ## One request, one reply -/

/-- a request whose client sends `extra` behind the body: k bytes come with the head, then what is asked for -/
def handle (s : St) (r : Request) (extra : Str) (k : ℕ) (headEnv bodyEnv : Env) : St :=
  let s := step s (.headData (r.head ++ (r.body ++ extra).take k) headEnv)
  match s.reading with
  | .body win => step s (.bodyData (((r.body ++ extra).drop k).take win.len) bodyEnv)
  | _ => s

/-- from s to s' there was exactly one fill, then one write, and then the read of the next head was started -/
def Answered (s s' : St) : Prop :=
  ∃ evs, s'.evs = s.evs ++ evs ∧ (∀ e ∈ evs, e.Ok) ∧
    ∃ content status win, evs.filter outward = [.fillForHttp content status, .asyncWrite win, .asyncReadUntil]

section
variable {s : St} {r : Request} {extra : Str} {k : ℕ} {headEnv bodyEnv : Env}

end

def bbRequest : Request := ⟨ascii "POST /bb HTTP/1.1\r\nContent-Length: 2\r\n\r\n", ascii "[]"⟩

-- a `/bb` request is dropped when the connect fails: nothing is sent, and no head is read any more
example :
    bbRequest.Valid ∧ (handle (init 0) bbRequest [] 2 someEnv someEnv).evs.filter outward = [.asyncReadUntil] ∧
      (handle (init 0) bbRequest [] 2 someEnv someEnv).reading = .none := by
  refine ⟨⟨⟨by decide, by decide, by decide +kernel, by decide +kernel⟩, ?_, ?_, ?_⟩, ?_, ?_⟩ <;> decide +kernel

end AirobotMsgd.Reading
