/-
What a front connection is for, one request after the other: a service that answers each request with replies to the
client and pushes to the backends (`respond`). It ends with the first request that it refuses, that has an empty body, or
that it leaves without a reply.

`refines_service`: **the connection refines this service.** Whatever the sizes of the parts in which the requests arrive,
and whatever happens to the write side in between, what it replies and pushes is what the service does.
-/
import AirobotMsgd.Front.Refusals
import AirobotMsgd.Front.Requests

namespace AirobotMsgd.Reading

open AirobotMsgd.Bytes AirobotMsgd.HttpText AirobotMsgd.HttpProto AirobotMsgd.HttpParser AirobotMsgd.Runs

/-! ## The service -/

/-- what others see of a connection -/
inductive Action where
  | push (siteId : ℕ) (dat : Str) (len : ℕ)
  | reply (content status : Str)
deriving DecidableEq, Repr

def action : Ev → Option Action
  | .pushBackend siteId dat len => some (.push siteId dat len)
  | .fillForHttp content status => some (.reply content status)
  | _ => none

/-- `/bb`: what is no JSON is answered, what is goes to the backend that it names, and the answer of the read is passed
on -/
def respondBb (body : Str) (env : Env) : List Action × Bool :=
  let parsed := Json11.parse body env.errno
  if parsed.err ≠ [] then ([.reply (ascii "bb_ret") Status.ok], true)
  else
    let push := Action.push ((parsed.json.get (ascii "site_id")).uint64Value env.cast) body (body.length + 1)
    if env.connectOk = true ∧ env.answer ≠ [] then ([push, .reply (cut env.answer) Status.ok], true) else ([push], false)

/-- what a request is answered with, and whether the next one is read -/
def respond (r : Request) (env : Env) : List Action × Bool :=
  let uri := requestOption r.opts HeaderOptions.requestUri
  if !iequals (requestOption r.opts HeaderOptions.requestMethod) (ascii "POST") then
    ([.reply contentBadRequest Status.badRequest], false)
  else if !FrontConn.isBodyUri uri then ([.reply contentNotFound Status.notFound], false)
  else if r.body = [] then ([], false)
  else if iequals uri (ascii "/aa") then ([.reply (ascii "aa") Status.ok], true)
  else if iequals uri (ascii "/bb") then respondBb (cut r.body) env
  else ([.reply (ascii "cc") Status.ok], true)

/-- a head without NUL, none of whose lines has an all-'/' URI; where a body is wanted its Content-Length is the length
of what follows, less than 2^31 - 256 -/
structure Delivery.Fine (d : Delivery) : Prop where
  isHead : IsHead d.request.head
  noNul : 0 ∉ d.request.head
  uris : ∀ item ∈ getlines d.request.head, ¬ AllSlashUri item
  valid : wantsBody d.request.opts = true → d.request.Valid ∧ d.request.body.length < 2 ^ 31 - 256
  split : d.split ≤ d.request.body.length

/-! ## A request with a body -/

theorem action_internal {e : Ev} (h : e.internal = true) : action e = none := by
  cases e <;> simp_all [Ev.internal, action]

theorem actions_internal {evs : List Ev} (h : ∀ e ∈ evs, e.Ok ∧ e.internal = true) : evs.filterMap action = [] :=
  List.filterMap_eq_nil_iff.2 fun e he => action_internal (h e he).2

theorem actions_onTheWay {evs : List Ev} (h : ∀ e ∈ evs, OnTheWay e) : evs.filterMap action = [] := by
  refine List.filterMap_eq_nil_iff.2 fun e he => ?_
  rcases (h e he).2 with hi | ⟨win, size, rfl⟩
  · exact action_internal hi
  · rfl

theorem fillWriteRead_actions {c : FrontConn} (hw : c.conn.stats = .connWorking) (env : Env) (content status : Str) :
    (c.fillWriteRead env content status).2.filterMap action = [.reply content status] := by
  rw [FrontConn.fillWriteRead_working hw]
  rfl

theorem wantsBody_iff {o : HeaderOpts} : wantsBody o = true ↔
    iequals (requestOption o HeaderOptions.requestMethod) (ascii "POST") = true ∧
      FrontConn.isBodyUri (requestOption o HeaderOptions.requestUri) = true := by
  rw [wantsBody, Bool.and_eq_true]

section
variable {c : FrontConn} {r : Request} {env : Env}

theorem dispatchBody_actions (h : Holds c r r.body.length) (hw : wantsBody r.opts = true) (hne : r.body ≠ []) :
    (c.dispatchBody env).2.filterMap action = (respond r env).1 := by
  obtain ⟨hpost, huris⟩ := wantsBody_iff.1 hw
  have huri := (agree_options h.opts).2.2.1
  simp only [FrontConn.dispatchBody, respond, huri, hpost, huris, hne, Bool.not_true, Bool.false_eq_true, if_false]
  split_ifs with haa hbb hcc
  · exact fillWriteRead_actions h.working _ _ _
  · simp only [FrontConn.handleBb, FrontConn.andThen, h.body_eq, respondBb]
    by_cases herr : (Json11.parse (cut r.body) env.errno).err = []
    · rw [if_neg (not_not.2 herr), if_neg (not_not.2 herr)]
      cases hc : env.connectOk with
      | false => rfl
      | true =>
        by_cases ha : env.answer = []
        · simp only [ha, Bool.not_true, Bool.false_eq_true, if_false, ne_eq, not_true_eq_false, and_false, if_true,
            List.append_nil]
          rfl
        · simp only [Bool.not_true, Bool.false_eq_true, if_false, ha, ne_eq, not_false_eq_true, and_self, if_true,
            List.filterMap_append, fillWriteRead_actions h.working]
          rfl
    · rw [if_pos herr, if_pos herr, List.filterMap_append, fillWriteRead_actions h.working]
      rfl
  · exact fillWriteRead_actions h.working _ _ _
  · -- one of the three
    simp [FrontConn.isBodyUri, haa, hbb, hcc] at huris

theorem respond_goes_on (hw : wantsBody r.opts = true) (hne : r.body ≠ []) : (respond r env).2 = true ↔ Answers r env := by
  obtain ⟨hpost, huris⟩ := wantsBody_iff.1 hw
  simp only [respond, hpost, huris, hne, Bool.not_true, Bool.false_eq_true, if_false, Answers]
  split_ifs with haa hbb
  · refine iff_of_true rfl fun hbb => ?_
    exact absurd ((iequals_iff.1 haa).symm.trans (iequals_iff.1 hbb)) (by decide)
  · simp only [respondBb]
    split_ifs <;> simp_all
  · exact iff_of_true rfl fun hbb' => absurd hbb' hbb

end

/-- seen by the others: what is replied and pushed -/
def St.actions (s : St) : List Action := s.evs.filterMap action

/-- nothing more is read -/
def Halted (s : St) : Prop := s.reading = .none

/-- what a connection does with a request, and whether it reads the next one -/
def Does (s s' : St) (r : List Action × Bool) : Prop := Responds St.actions Ready Halted s s' r

theorem Served.does {s s' : St} {r : Request} {env : Env} (h : Served s s' r env) (hw : wantsBody r.opts = true)
    (hne : r.body ≠ []) : Does s s' (respond r env) := by
  obtain ⟨c, evs, hc, hway, hf, hrd, hev⟩ := h
  refine ⟨?_, ?_⟩
  · simp only [St.actions, hev, List.filterMap_append, List.filterMap_cons, actions_onTheWay hway,
      dispatchBody_actions hc hw hne, List.append_nil]
    rfl
  · by_cases ha : Answers r env
    · rw [if_pos ((respond_goes_on hw hne).2 ha)]
      obtain ⟨hsame, pre, content, status, win, hsil, heq⟩ := dispatchBody_replies hc ha
      refine ⟨?_, by rw [hf, hsame.stats, hc.working], by rw [hf, hsame.request, hc.request]⟩
      rw [hrd, heq, started_append fun e he => (hsil e he).quiet]
      rfl
    · rw [if_neg fun hgo => ha ((respond_goes_on hw hne).1 hgo), Halted, hrd]
      exact started_quiet fun e he => (dispatchBody_silent hc ha e he).quiet

/-! ## A request that ends the service -/

theorem parsed_head {head : Str} (hh : IsHead head) (hnul : 0 ∉ head) (huris : ∀ item ∈ getlines head, ¬ AllSlashUri item)
    (opts : HeaderOpts) (body extra : Str) :
    ∃ o, parseRequest opts (cut (head ++ extra)) = some (true, o) ∧ AgreeOn NotBody o (Request.opts ⟨head, body⟩) := by
  have hcut : cut (head ++ extra) = head ++ cut extra := List.takeWhile_append_of_pos fun b hb => by
    rw [decide_eq_true_eq]
    rintro rfl
    exact hnul hb
  obtain ⟨o', ho'⟩ := parseRequest_succeeds hh huris []
  have hrel := parseRequest_head hh opts [] (cut extra)
  rw [ho', ← hcut] at hrel
  rw [Request.opts, ho']
  generalize parseRequest opts (cut (head ++ extra)) = p at hrel ⊢
  cases hrel with
  | @some p _ h =>
    obtain ⟨b, o⟩ := p
    obtain ⟨rfl, -, hagree⟩ := h
    exact ⟨o, rfl, hagree⟩

theorem refuse_does (s : St) {c : FrontConn} (hw : c.conn.stats = .connWorking) (env : Env) (content status : Str) :
    Does s (perform s (c.fillAndWrite env content status)) ([.reply content status], false) := by
  have hevs := FrontConn.fillAndWrite_working hw env content status
  refine ⟨?_, ?_⟩
  · simp only [St.actions, perform, hevs, List.filterMap_append]
    rfl
  · rw [if_neg Bool.false_ne_true, Halted, perform, hevs]
    rfl

/-- the service does not go on after a request that wants no body, or has an empty one -/
theorem respond_ends {r : Request} {env : Env} (h : ¬ wantsBody r.opts = true ∨ r.body = []) :
    (respond r env).2 = false := by
  rw [wantsBody_iff, not_and_or, Bool.not_eq_true, Bool.not_eq_true] at h
  simp only [respond]
  split_ifs with hpost huris hnil <;> simp_all

/-- refused by its head -/
theorem headData_refused {s : St} (hs : Ready s) {d : Delivery} (hd : d.Fine) (hw : ¬ wantsBody d.request.opts = true)
    (extra : Str) (headEnv env : Env) :
    Does s (step s (.headData (d.request.head ++ extra) headEnv)) (respond d.request env) := by
  obtain ⟨o, hparse, ho⟩ := parsed_head hd.isHead hd.noNul hd.uris s.front.headerOpts d.request.body extra
  obtain ⟨-, -, huri, hmethod⟩ := agree_options ho
  have hh : d.request.head.length - 4 + 4 = d.request.head.length := hd.isHead.length
  have hh0 : d.request.head.length ≠ 0 := by omega
  have hc : ∀ c : FrontConn, c.conn = s.front.conn → c.conn.stats = .connWorking := fun c hconn => hconn ▸ hs.working
  simp only [step, hs.reading, receive, hs.request, List.nil_append, find_append hd.isHead, hh,
    FrontConn.readHeadHandler, ne_eq, hh0, not_false_eq_true, and_self, if_true, hparse, List.drop_left, huri, hmethod,
    respond]
  rw [wantsBody_iff, not_and_or] at hw
  cases hpost : iequals (requestOption d.request.opts HeaderOptions.requestMethod) (ascii "POST") with
  | false => exact refuse_does s (hc _ rfl) headEnv _ _
  | true =>
    have huris := hw.resolve_left (not_not.2 hpost)
    rw [Bool.not_eq_true] at huris
    simp only [huris, Bool.not_true, Bool.not_false, Bool.false_eq_true, if_false, if_true]
    exact refuse_does s (hc _ rfl) headEnv _ _

/-- an empty body is taken for a read that failed -/
theorem headData_empty {s : St} (hs : Ready s) {r : Request} (hr : r.Valid) (hnil : r.body = []) (headEnv env : Env) :
    Does s (step s (.headData (r.head ++ []) headEnv)) (respond r env) := by
  obtain ⟨hpost, huris⟩ := wantsBody_iff.1 hr.wantsBody
  have hresp : respond r env = ([], false) := by
    simp only [respond, hpost, huris, hnil, Bool.not_true, Bool.false_eq_true, if_false, if_true]
  have hlen : FrontConn.contentLength r.opts = (0 : ℕ) := by
    have hv : decValue r.lengthText = 0 := by rw [hr.value, hnil, List.length_nil]
    rw [← hv]
    exact atoi_digits hr.nonempty hr.digits (show decValue r.lengthText < 2 ^ 31 by omega)
  obtain ⟨o, ho, hstep⟩ := headData_dispatch hs hr.toPost [] headEnv
  have hcl : FrontConn.contentLength o = (0 : ℕ) := (agree_options ho).2.1.trans hlen
  obtain ⟨evs, buf, hok, -, -, -, hdisp⟩ := @FrontConn.dispatchHead_spec
    { s.front with request := [], headerOpts := o } 0 hcl (Nat.zero_le _) headEnv .success
  have hevs : (FrontConn.dispatchHead { s.front with request := [], headerOpts := o } headEnv .success).2 =
      evs ++ [.notifyConnError] := by
    rw [hdisp]
    simp [FrontConn.andThen, FrontConn.readBodyHandler, FrontConn.readError, FrontConn.notifyConnError]
  rw [hstep, hresp]
  refine ⟨?_, ?_⟩
  · simp only [St.actions, perform, hevs, List.filterMap_append, actions_internal hok]
    rfl
  · rw [if_neg Bool.false_ne_true, Halted, perform, hevs]
    exact started_append fun e he => quiet_of_internal (hok e he).2

/-! ## Results -/

theorem ops_no_recycle (d : Delivery) : ∀ o ∈ d.ops, ∀ now, o ≠ .recycle now := by
  intro o ho now
  rintro rfl
  unfold Delivery.ops at ho
  split_ifs at ho <;> simp at ho

/-- without a read nothing is replied or pushed -/
theorem halted_run {s : St} (hs : Halted s) {ops : List Op} (hops : ∀ o ∈ ops, ∀ now, o ≠ .recycle now) :
    (run step s ops).actions = s.actions ∧ Halted (run step s ops) := by
  obtain ⟨hr, k, hk⟩ := silent_run hs hops
  have hnone : (List.replicate k Ev.notifyConnError).filterMap action = [] := List.filterMap_eq_nil_iff.2 fun e he => by
    rw [List.eq_of_mem_replicate he]
    rfl
  exact ⟨by rw [St.actions, hk, List.filterMap_append, hnone, List.append_nil, St.actions], hr⟩

/-- the head of a delivery ends the service -/
theorem delivery_ends {s : St} {d : Delivery} {r : List Action × Bool} (hr : r.2 = false)
    (h : Does (run step s (d.before.map .writeSide)) (step (run step s (d.before.map .writeSide))
      (.headData (d.request.head ++ d.request.body.take d.split) d.headEnv)) r) :
    Does s (run step s d.ops) r := by
  have hno := ops_no_recycle d
  obtain ⟨-, -, hev⟩ := run_writeSide s d.before
  obtain ⟨hactions, hhalted⟩ := h
  rw [hr, if_neg Bool.false_ne_true] at hhalted
  rw [Delivery.ops] at hno ⊢
  obtain ⟨hsame, hend⟩ := halted_run hhalted fun o ho => hno o (List.mem_append_right _ (List.mem_cons_of_mem _ ho))
  rw [run_append, run_cons]
  refine ⟨?_, ?_⟩
  · rw [hsame, hactions, St.actions, hev, St.actions]
  · rwa [hr, if_neg Bool.false_ne_true]

/-- **One delivery.** -/
theorem delivery_does {s : St} (hs : Ready s) {d : Delivery} (hd : d.Fine) :
    Does s (run step s d.ops) (respond d.request d.env) := by
  have hready := hs.writeSide d.before
  by_cases hw : wantsBody d.request.opts = true
  · obtain ⟨hvalid, hlt⟩ := hd.valid hw
    by_cases hnil : d.request.body = []
    · refine delivery_ends (respond_ends (.inr hnil)) ?_
      rw [hnil, List.take_nil]
      exact headData_empty hready hvalid hnil d.headEnv d.env
    · have hv : d.Valid := ⟨hvalid, List.length_pos_iff.2 hnil, hlt, hd.split⟩
      exact (serve_spec hs d hvalid.toPost hnil (contentLength_of_valid hv) hd.split).does hw hnil
  · refine delivery_ends (respond_ends (.inl hw)) ?_
    exact headData_refused hready hd hw (d.request.body.take d.split) d.headEnv d.env

/-- **The connection refines the service.** For any sequence of requests and any splits of them, with anything happening
to the write side in between, the replies and pushes are those of the service, in its order; and the connection waits for
the next head if the service goes on, and reads nothing more if it has ended. -/
theorem refines_service {s : St} (hs : Ready s) {ds : List Delivery} (hds : ∀ d ∈ ds, d.Fine) :
    let s' := run step s (ds.flatMap Delivery.ops)
    let r := service (fun d => respond d.request d.env) ds
    s'.actions = s.actions ++ r.1 ∧ if r.2 = true then Ready s' else Halted s' :=
  run_service (fun _ _ hs hd => delivery_does hs hd) (fun _ d hs => halted_run hs (ops_no_recycle d)) hs hds

/-- a request with another method; what follows its head is not read -/
def getOther : Delivery := ⟨⟨ascii "GET /aa HTTP/1.1\r\n\r\n", ascii "rest"⟩, 2, [], [], someEnv, someEnv⟩

theorem fine_splitInTwo : splitInTwo.Fine :=
  ⟨valid_someRequest.isHead, valid_someRequest.noNul, valid_someRequest.uris, fun _ => ⟨valid_someRequest, by decide⟩,
    by decide⟩

theorem fine_getOther : getOther.Fine :=
  ⟨by decide, by decide, by decide +kernel, fun h => absurd h (by decide +kernel), by decide⟩

theorem refines_service_three :
    (run step (init 0) ([splitInTwo, getOther, splitInTwo].flatMap Delivery.ops)).actions =
      [.reply (ascii "aa") Status.ok, .reply contentBadRequest Status.badRequest] := by
  have hds : ∀ d ∈ [splitInTwo, getOther, splitInTwo], d.Fine := by
    simp only [List.forall_mem_cons]
    exact ⟨fine_splitInTwo, fine_getOther, fine_splitInTwo, fun _ h => absurd h List.not_mem_nil⟩
  have hservice : (service (fun d => respond d.request d.env) [splitInTwo, getOther, splitInTwo]).1 =
      [.reply (ascii "aa") Status.ok, .reply contentBadRequest Status.badRequest] := by
    decide +kernel
  rw [← hservice]
  exact (refines_service (ready_init 0) hds).1

end AirobotMsgd.Reading
