/-
Messages on their way between the clients and the backends, from their bytes to their addressees
(source/backend_conn.cpp, backend_server.cpp, front_conn.cpp).

A backend's message is parsed and relayed to the client it names, whatever error the parse reports: `read_handler` does
not look at it. A client's `/bb` body is given to `push_backend` only if its parse reports none. Both come to the same:
`Says text errno v`, the text is a document that says v.

Results:
- `delivered_iff`: the client that a backend's message is written to.
- `cut_not_relayed`: of a message that arrives in parts, the first is not relayed.
- `pushes_in_order`: the calls of `push_backend` in a run of a front connection.
-/
import AirobotMsgd.Json.Streams
import AirobotMsgd.Server.Relay
import AirobotMsgd.Wire.ReplyStream
import AirobotMsgd.Front.Reading

namespace AirobotMsgd.Messages

open AirobotMsgd.Bytes AirobotMsgd.Runs AirobotMsgd.Json11 AirobotMsgd.JsonText AirobotMsgd.HttpProto

/-- the text is a document, and says v -/
def Says (text : Str) (errno : Bool) (v : Json) : Prop :=
  ∃ errno', Document sem (maxDepth + 1) errno text v errno'

theorem Says.parse {text : Str} {errno : Bool} {v : Json} (h : Says text errno v) :
    (Json11.parse text errno).json = v ∧ (Json11.parse text errno).err = [] := by
  obtain ⟨errno', hdoc⟩ := h
  rw [(parse_iff text errno v errno').2 hdoc]
  exact ⟨rfl, rfl⟩

/-- a text is a document, or its parse reports an error and gives a value without members -/
theorem says_or (text : Str) (errno : Bool) :
    Says text errno (Json11.parse text errno).json ∨
      (∀ v, ¬ Says text errno v) ∧ (Json11.parse text errno).err ≠ [] ∧
        ∀ key, (Json11.parse text errno).json.get key = .null := by
  by_cases h : ∃ v errno', Document sem (maxDepth + 1) errno text v errno'
  · obtain ⟨v, hsays⟩ := h
    left
    rwa [(Says.parse hsays).1]
  · obtain ⟨herr, hblank⟩ := rejected h
    refine .inr ⟨fun v hv => h ⟨v, hv⟩, herr, fun key => ?_⟩
    rcases hblank with hjson | hjson <;> rw [hjson] <;> rfl

/-! ## From a backend to a client -/

/-- the message names a session and a site -/
structure Addressed (cast : Double.Value → ℕ) (v : Json) (sessionId : ℕ) : Prop where
  session : (v.get (ascii "session_id")).uint64Value cast = sessionId
  valid : FrontServer.IsSession sessionId
  site : (v.get (ascii "site_id")).uint64Value cast ≠ 0

/-- `push_front`: the connection it finds, as `do_write` leaves it, and what that starts; the connections' buffers are
those of `front` -/
def pushFront (s : FrontServer.St) (front : ℕ → Connection) (date : Str) (now sessionId : ℕ) (dat : Str) (len : ℕ) :
    Option (ℕ × Connection × List Ev) :=
  match Relay.pushFront s sessionId len with
  | .ok (some p) => ((front p).fillForHttpData date dat len Status.ok).map fun conn => (p, FrontConn.doWrite conn now)
  | _ => none

/-- one of the calls of `push_front` starts the write of a push of the text on connection p -/
def Delivered (s : FrontServer.St) (front : ℕ → Connection) (date : Str) (now : ℕ) (evs : List BackendConn.Ev) (p : ℕ)
    (text : Str) : Prop :=
  ∃ sessionId dat len conn, BackendConn.Ev.pushFront sessionId dat len ∈ evs ∧
    pushFront s front date now sessionId dat len = some (p, conn, [.assertion true, .asyncWrite ⟨0, conn.wSize⟩]) ∧
    some (conn.pWrite.take conn.wSize) = (Reply.Sent.push date text Status.ok).encoded

theorem relay_some {s : FrontServer.St} (hone : Relay.OneEach s) {sessionId len p : ℕ} (hlen : len ≠ 0) :
    Relay.pushFront s sessionId len = .ok (some p) ↔ FrontServer.IsSession sessionId ∧ (p, sessionId) ∈ s.frontConns := by
  have hone' : sessionId ≠ 0 → ∀ e ∈ s.frontConns, ∀ e' ∈ s.frontConns, e.2 = sessionId → e'.2 = sessionId → e.1 = e'.1 :=
    fun h0 e he e' he' heq heq' => hone.sessions e he e' he' (heq ▸ h0) (heq.trans heq'.symm)
  constructor
  · intro h
    unfold Relay.pushFront at h
    by_cases hfilter : sessionId = 0 ∨ len = 0
    · rw [if_pos hfilter] at h
      cases h
    rw [if_neg hfilter] at h
    rw [not_or] at hfilter
    have hid : FrontServer.IsSession sessionId := by
      refine ⟨hfilter.1, ?_⟩
      rintro rfl
      simp [FrontServer.requestConnection] at h
    refine ⟨hid, ?_⟩
    rcases FrontServer.requestConnection_cases hone.keys hid (hone' hfilter.1) with ⟨c, hc, hmem⟩ | ⟨hnone, -⟩
    · rw [hc] at h
      obtain rfl : c = p := by simpa using h
      exact hmem
    · rw [hnone] at h
      cases h
  · rintro ⟨hid, hmem⟩
    rw [Relay.pushFront, if_neg (by simp [hid.1, hlen])]
    rcases FrontServer.requestConnection_cases hone.keys hid (hone' hid.1) with ⟨c, hc, hmem'⟩ | ⟨-, hnone⟩
    · obtain rfl : c = p := hone' hid.1 _ hmem' _ hmem rfl rfl
      exact hc
    · exact absurd rfl (hnone _ hmem)

/-- what `push_front` encodes is a push of the message (`Reply.stream_iff`) -/
theorem relayed_encoded {c : Connection} {env : BackendConn.Env} {sessionId len : ℕ} {dat : Str}
    (h : BackendConn.Ev.pushFront sessionId dat len ∈ BackendConn.relay c env) :
    ∃ text, cstr c.pBuffer = some text ∧ 0 ∉ text ∧
      ∀ date stat, Reply.replyGenerateData date dat len stat = (Reply.Sent.push date text stat).encoded := by
  cases htext : cstr c.pBuffer with
  | none =>
    rw [BackendConn.relay, htext] at h
    simp at h
  | some text =>
    obtain ⟨hnul, rest, hbuffer⟩ := cstr_eq_some.1 htext
    obtain ⟨-, -, -, rfl, rfl⟩ := (Relay.mem_relay htext).1 h
    have htake : c.pBuffer.take (text.length + 1) = text ++ [0] := by
      rw [hbuffer, List.append_cons]
      exact List.take_left' (by simp)
    exact ⟨text, rfl, hnul, fun date stat => by rw [htake, Reply.Sent.encoded]⟩

/-- `do_write` starts a write only on a working connection -/
theorem working_of_doWrite {c : Connection} (now : ℕ) (h : (FrontConn.doWrite c now).2 ≠ []) :
    c.stats = .connWorking := by
  by_contra hidle
  simp [FrontConn.doWrite, hidle] at h

/-- the message that `read_handler` relays is written as a whole to the connection that is found, if it is working -/
theorem pushFront_working {s : FrontServer.St} {front : ℕ → Connection} {sessionId len p : ℕ} {dat text date : Str}
    (hfind : Relay.pushFront s sessionId len = .ok (some p)) (hwork : (front p).stats = .connWorking) (hnul : 0 ∉ text)
    (henc : Reply.replyGenerateData date dat len Status.ok = (Reply.Sent.push date text Status.ok).encoded) (now : ℕ) :
    ∃ conn, pushFront s front date now sessionId dat len =
        some (p, conn, [.assertion true, .asyncWrite ⟨0, conn.wSize⟩]) ∧
      some (conn.pWrite.take conn.wSize) = (Reply.Sent.push date text Status.ok).encoded := by
  set enc := (Reply.Sent.push date text Status.ok).message.text with htext
  have hsome : (Reply.Sent.push date text Status.ok).encoded = some enc := Reply.encoded_push hnul date Status.ok
  have hne : enc.length ≠ 0 := by simp [htext, Reply.Sent.message, HttpText.Message.text, HttpText.crlf]
  have hwrite := FrontConn.doWrite_working (c := (front p).fillEnc enc) (by simpa using hwork) (by simpa using hne)
    (by simpa using Nat.pos_of_ne_zero hne) now
  rw [hsome] at henc ⊢
  refine ⟨{ (front p).fillEnc enc with touchTime := now }, ?_, ?_⟩
  · rw [pushFront, hfind]
    simp [Connection.fillForHttpData, henc, hwrite]
  · exact congrArg some (Connection.fillEnc_pWrite (front p) enc)


/-- what it starts is started on the connection that is found, and that is working -/
theorem found_of_pushFront {s : FrontServer.St} {front : ℕ → Connection} {sessionId len p now : ℕ} {dat date : Str}
    {conn : Connection} {e : Ev} {evs : List Ev}
    (h : pushFront s front date now sessionId dat len = some (p, conn, e :: evs)) :
    Relay.pushFront s sessionId len = .ok (some p) ∧ (front p).stats = .connWorking := by
  unfold pushFront at h
  split at h
  · rename_i q hfind
    obtain ⟨filled, hfill, heq⟩ := Option.map_eq_some_iff.1 h
    obtain ⟨rfl, hwrite⟩ := Prod.mk.inj heq
    have hwork : filled.stats = .connWorking := working_of_doWrite now (by simp [hwrite])
    obtain ⟨enc, -, rfl⟩ := Option.map_eq_some_iff.1 hfill
    rw [Connection.fillEnc_stats] at hwork
    exact ⟨hfind, hwork⟩
  · cases h

/-- **Who gets a backend's message.** A read that leaves a C string in the buffer starts the write of a push of it on
connection p exactly if the string is a document, its session id is one a client can have, its site id is not 0, p has
this session, and p is working. -/
theorem delivered_iff {s : FrontServer.St} (hone : Relay.OneEach s) (front : ℕ → Connection) (date : Str) (now : ℕ)
    {c : Connection} {data message : Str} (hne : data ≠ [])
    (hmessage : cstr (BackendConn.receive c data).pBuffer = some message) (env : BackendConn.Env) (p : ℕ) :
    Delivered s front date now (BackendConn.readHandler (BackendConn.receive c data) env .success data.length).2 p
        message ↔
      (front p).stats = .connWorking ∧
        ∃ v sessionId, Says message env.errno v ∧ Addressed env.cast v sessionId ∧ (p, sessionId) ∈ s.frontConns := by
  have hlen : data.length ≠ 0 := by rwa [Ne, List.length_eq_zero_iff]
  constructor
  · rintro ⟨sessionId, dat, len, conn, hcall, hpush, -⟩
    obtain ⟨-, hcall⟩ := Relay.mem_readHandler.1 hcall
    obtain ⟨hsid, hsid0, hsite, -, rfl⟩ := (Relay.mem_relay hmessage).1 hcall
    obtain ⟨hfind, hwork⟩ := found_of_pushFront hpush
    obtain ⟨hid, hmem⟩ := (relay_some hone (Nat.succ_ne_zero _)).1 hfind
    refine ⟨hwork, ?_⟩
    rcases says_or message env.errno with hsays | ⟨-, -, hget⟩
    · exact ⟨_, sessionId, hsays, ⟨hsid, hid, hsite⟩, hmem⟩
    · -- an error: there are no members
      rw [hget] at hsid
      exact absurd hsid.symm hsid0
  · rintro ⟨hwork, v, sessionId, hsays, haddr, hmem⟩
    have hjson := hsays.parse.1
    have hcall := (@Relay.mem_relay _ env _ hmessage _ _ _).2
      ⟨hjson ▸ haddr.session, haddr.valid.1, hjson ▸ haddr.site, rfl, rfl⟩
    have hfind := (relay_some hone (Nat.succ_ne_zero message.length)).2 ⟨haddr.valid, hmem⟩
    obtain ⟨text, htext, hnul, henc⟩ := relayed_encoded hcall
    obtain rfl : message = text := Option.some.inj (hmessage.symm.trans htext)
    obtain ⟨conn, hpush, hwritten⟩ := pushFront_working hfind hwork hnul (henc date Status.ok) now
    exact ⟨sessionId, _, _, conn, Relay.mem_readHandler.2 ⟨hlen, hcall⟩, hpush, hwritten⟩

/-- connection 3 has the session 7 -/
def sevenAtThree : FrontServer.St := { FrontServer.init FrontServer.mainConfig 0 with frontConns := [(3, 7)] }

theorem delivered_iff_seven :
    Delivered sevenAtThree (fun _ => BackendConn.working) (ascii "now") 0
      (BackendConn.readHandler (BackendConn.receive BackendConn.working BackendConn.message)
        BackendConn.someEnv .success BackendConn.message.length).2 3 BackendConn.message := by
  have hone : Relay.OneEach sevenAtThree := ⟨List.nodup_singleton 3, by simp [sevenAtThree]⟩
  have hsays : (Json11.parse BackendConn.message false).err = [] := by decide +kernel
  refine (delivered_iff hone _ _ 0 (by decide +kernel) BackendConn.cstr_message BackendConn.someEnv 3).2
    ⟨rfl, _, 7, ⟨_, accepted hsays⟩, ⟨by decide +kernel, ⟨by decide, by decide⟩, by decide +kernel⟩,
      List.mem_singleton_self _⟩

/-- **The first part of a message is not relayed.** What a read leaves in the buffer is no message where something but
blanks is still to come. -/
theorem cut_not_relayed {c : Connection} {data text rest : Str}
    (htext : cstr (BackendConn.receive c data).pBuffer = some text) {env : BackendConn.Env}
    (hwhole : (Json11.parse (text ++ rest) env.errno).err = [])
    (hnumber : (Json11.parse (text ++ rest) env.errno).json.kind ≠ .number) (hrest : ¬ Blank rest)
    (sessionId : ℕ) (dat : Str) (len : ℕ) :
    BackendConn.Ev.pushFront sessionId dat len ∉
      (BackendConn.readHandler (BackendConn.receive c data) env .success data.length).2 := by
  intro hcall
  obtain ⟨-, hcall⟩ := Relay.mem_readHandler.1 hcall
  obtain ⟨hsid, hsid0, -⟩ := (Relay.mem_relay htext).1 hcall
  rcases says_or text env.errno with ⟨errno', hdoc⟩ | ⟨-, -, hget⟩
  · exact cut_not_document (accepted hwhole) hnumber hrest hdoc
  · rw [hget] at hsid
    exact hsid0 hsid.symm

/-- the message that `delivered_iff_seven` delivers, but for its last byte -/
theorem cut_not_relayed_seven : BackendConn.Ev.pushFront 7 (BackendConn.message.dropLast ++ [0]) 28 ∉
    (BackendConn.readHandler (BackendConn.receive BackendConn.working BackendConn.message.dropLast) BackendConn.someEnv
      .success BackendConn.message.dropLast.length).2 :=
  @cut_not_relayed _ _ BackendConn.message.dropLast (ascii "\x7d") (BackendConn.cstr_receive rfl (by decide) (by decide))
    BackendConn.someEnv (by decide +kernel) (by decide +kernel) (by decide) 7 _ 28

/-! ## From a client to the backends -/

/-- what the completion of a body has to push: its site, the data and their length -/
def due (env : Env) : Ev → Option (ℕ × Str × ℕ)
  | .bodyComplete rSize buffer _ headerOpts =>
    let dat := cut (buffer.take rSize)
    if iequals (HttpParser.requestOption headerOpts HttpProto.HeaderOptions.requestUri) (ascii "/bb") = true ∧
        (Json11.parse dat env.errno).err = [] then
      some (((Json11.parse dat env.errno).json.get (ascii "site_id")).uint64Value env.cast, dat, dat.length + 1)
    else none
  | _ => none

/-- the arguments of a `push_backend` -/
def pushed : Ev → Option (ℕ × Str × ℕ)
  | .pushBackend siteId dat len => some (siteId, dat, len)
  | _ => none

/-- the body, up to its first NUL, is a document, and is sent to a `/bb` URI; it goes with its NUL to the site that the
document names -/
def Due (env : Env) (e : Ev) (siteId : ℕ) (dat : Str) (len : ℕ) : Prop :=
  ∃ rSize buffer request headerOpts v, e = .bodyComplete rSize buffer request headerOpts ∧
    iequals (HttpParser.requestOption headerOpts HttpProto.HeaderOptions.requestUri) (ascii "/bb") = true ∧
    dat = cut (buffer.take rSize) ∧ len = dat.length + 1 ∧ Says dat env.errno v ∧
    siteId = (v.get (ascii "site_id")).uint64Value env.cast

theorem due_iff {env : Env} {e : Ev} {siteId : ℕ} {dat : Str} {len : ℕ} :
    due env e = some (siteId, dat, len) ↔ Due env e siteId dat len := by
  constructor
  · intro h
    cases e with
    | bodyComplete rSize buffer request headerOpts =>
      rw [due] at h
      split_ifs at h with hcond
      obtain ⟨rfl, rfl, rfl⟩ : _ ∧ _ ∧ _ := by simpa using h
      exact ⟨_, _, _, _, _, rfl, hcond.1, rfl, rfl, ⟨_, accepted hcond.2⟩, rfl⟩
    | _ => cases h
  · rintro ⟨rSize, buffer, request, headerOpts, v, rfl, huri, rfl, rfl, hsays, rfl⟩
    rw [due, if_pos ⟨huri, hsays.parse.2⟩, hsays.parse.1]

/-- neither a body nor a push -/
def Aside : Ev → Prop
  | .bodyComplete .. | .pushBackend .. => False
  | _ => True

theorem Aside.pushed {e : Ev} (h : Aside e) : pushed e = none := by
  cases e with
  | pushBackend => exact h.elim
  | _ => rfl

theorem Aside.due {e : Ev} (h : Aside e) (env : Env) : due env e = none := by
  cases e with
  | bodyComplete => exact h.elim
  | _ => rfl

theorem pushed_aside {evs : List Ev} (h : ∀ e ∈ evs, Aside e) : evs.filterMap pushed = [] :=
  List.filterMap_eq_nil_iff.2 fun e he => (h e he).pushed

theorem due_aside (env : Env) {evs : List Ev} (h : ∀ e ∈ evs, Aside e) : evs.filterMap (due env) = [] :=
  List.filterMap_eq_nil_iff.2 fun e he => (h e he).due env

/-- what is pushed is just what is due, in this order -/
def Exact (env : Env) (evs : List Ev) : Prop := evs.filterMap pushed = evs.filterMap (due env)

theorem exact_aside (env : Env) {evs : List Ev} (h : ∀ e ∈ evs, Aside e) : Exact env evs :=
  (pushed_aside h).trans (due_aside env h).symm

theorem Exact.append {env : Env} {before evs : List Ev} (hbefore : ∀ e ∈ before, Aside e) (h : Exact env evs) :
    Exact env (before ++ evs) := by
  rw [Exact, List.filterMap_append, List.filterMap_append, pushed_aside hbefore, due_aside env hbefore, h]

section
variable (c : FrontConn) (env : Env)

theorem fillAndWrite_aside (content status : Str) : ∀ e ∈ (c.fillAndWrite env content status).2, Aside e := by
  by_cases hw : c.conn.stats = .connWorking
  · simp [FrontConn.fillAndWrite_working hw, Aside]
  · simp [FrontConn.fillAndWrite_idle hw, Aside]

theorem fillWriteRead_aside (content status : Str) : ∀ e ∈ (c.fillWriteRead env content status).2, Aside e := by
  by_cases hw : c.conn.stats = .connWorking
  · simp [FrontConn.fillWriteRead_working hw, Aside]
  · simp [FrontConn.fillWriteRead_idle hw, Aside]

theorem readError_aside : ∀ e ∈ c.readError.2, Aside e := by
  simp [FrontConn.readError, FrontConn.notifyConnError, Aside]

theorem doReadBody_aside (now : ℕ) : ∀ e ∈ (c.doReadBody now).2, Aside e := by
  unfold FrontConn.doReadBody
  split_ifs <;> simp [Aside]

theorem errorReturn_aside : ∀ e ∈ (c.errorReturn env).2, Aside e := by
  rw [FrontConn.errorReturn_eq]
  exact fillAndWrite_aside _ env _ _

theorem moveAdditional_aside : ∀ e ∈ c.moveAdditional.2, Aside e := by
  unfold FrontConn.moveAdditional
  split_ifs <;> simp [Aside]

end

/-- aside from the push that is due, events that are neither -/
def Pushes (evs : List Ev) (push : Option (ℕ × Str × ℕ)) : Prop :=
  ∃ before after, (∀ e ∈ before ++ after, Aside e) ∧
    evs = before ++ (push.map fun x => Ev.pushBackend x.1 x.2.1 x.2.2).toList ++ after

theorem pushes_none {evs : List Ev} (h : ∀ e ∈ evs, Aside e) : Pushes evs none := ⟨evs, [], by simpa using h, by simp⟩

theorem Pushes.exact {env : Env} {evs : List Ev} {e : Ev} (hbody : pushed e = none) (h : Pushes evs (due env e)) :
    Exact env (e :: evs) := by
  obtain ⟨before, after, haside, rfl⟩ := h
  have hbefore : ∀ e ∈ before, Aside e := fun e he => haside e (List.mem_append_left after he)
  have hafter : ∀ e ∈ after, Aside e := fun e he => haside e (List.mem_append_right before he)
  have hall : ∀ push : Option (ℕ × Str × ℕ),
      ((push.map fun x => Ev.pushBackend x.1 x.2.1 x.2.2).toList.filterMap pushed = push.toList) ∧
        (push.map fun x => Ev.pushBackend x.1 x.2.1 x.2.2).toList.filterMap (due env) = [] := by
    intro push
    cases push <;> exact ⟨rfl, rfl⟩
  rw [Exact, List.filterMap_cons_none hbody]
  simp only [List.filterMap_append, List.filterMap_cons, pushed_aside hbefore, pushed_aside hafter,
    due_aside env hbefore, due_aside env hafter, (hall _).1, (hall _).2, List.nil_append, List.append_nil]
  cases due env e <;> rfl

/-- the push of `/bb` -/
theorem handleBb_pushes (c : FrontConn) (env : Env) (request : Str)
    (huri : iequals (HttpParser.requestOption c.headerOpts HttpProto.HeaderOptions.requestUri) (ascii "/bb") = true) :
    Pushes (c.handleBb env).2 (due env (.bodyComplete c.conn.rSize c.conn.pBuffer request c.headerOpts)) := by
  have hcopy : ∀ {n size : ℕ}, ∀ e ∈ [Ev.copy n size], Aside e := by simp [Aside]
  simp only [FrontConn.handleBb, FrontConn.andThen, due, huri, true_and]
  generalize cut (c.conn.pBuffer.take c.conn.rSize) = body
  by_cases herr : (Json11.parse body env.errno).err = []
  · rw [if_neg (not_not.2 herr), if_pos herr]
    refine ⟨[.copy c.conn.rSize c.conn.pBuffer.length], _, ?_, by rw [List.append_assoc]; rfl⟩
    refine List.forall_mem_append.2 ⟨hcopy, ?_⟩
    split_ifs
    · simp
    · simp
    · exact fillWriteRead_aside c env _ _
  · rw [if_pos herr, if_neg herr]
    exact pushes_none (List.forall_mem_append.2 ⟨hcopy, fillWriteRead_aside c env _ _⟩)

theorem dispatchBody_pushes (c : FrontConn) (env : Env) (request : Str) :
    Pushes (c.dispatchBody env).2 (due env (.bodyComplete c.conn.rSize c.conn.pBuffer request c.headerOpts)) := by
  by_cases hbb : iequals (HttpParser.requestOption c.headerOpts HttpProto.HeaderOptions.requestUri) (ascii "/bb") = true
  · have haa : ¬ iequals (HttpParser.requestOption c.headerOpts HttpProto.HeaderOptions.requestUri)
        (ascii "/aa") = true := fun haa =>
      absurd ((iequals_iff.1 haa).symm.trans (iequals_iff.1 hbb)) (by decide)
    simp only [FrontConn.dispatchBody, if_neg haa, if_pos hbb]
    exact handleBb_pushes c env request hbb
  · have hnone : due env (.bodyComplete c.conn.rSize c.conn.pBuffer request c.headerOpts) = none := by
      simp only [due, hbb, Bool.false_eq_true, false_and, if_false]
    rw [hnone]
    unfold FrontConn.dispatchBody
    dsimp only
    split_ifs <;> exact pushes_none (fillWriteRead_aside c env _ _)

/-- a body that is complete -/
theorem dispatchBody_exact (c : FrontConn) (env : Env) :
    Exact env ([Ev.bodyComplete c.conn.rSize c.conn.pBuffer c.request c.headerOpts] ++ (c.dispatchBody env).2) :=
  (dispatchBody_pushes c env c.request).exact rfl

theorem andThen_exact {c : FrontConn} {env : Env} {before : List Ev} {f : FrontConn → FrontConn × List Ev}
    (hbefore : ∀ e ∈ before, Aside e) (h : Exact env (f c).2) : Exact env (FrontConn.andThen (c, before) f).2 :=
  h.append hbefore

theorem readBodyHandler_exact (c : FrontConn) (env : Env) (ec : Ec) (n : ℕ) :
    Exact env (c.readBodyHandler env ec n).2 := by
  unfold FrontConn.readBodyHandler
  split_ifs
  · refine andThen_exact (by simp [Aside]) ?_
    split_ifs
    · exact exact_aside env (doReadBody_aside _ _)
    · exact dispatchBody_exact { c with conn := { c.conn with rSize := (c.conn.rSize + n) % FrontConn.SIZE_MOD } } env
  · exact exact_aside env (readError_aside c)
  · exact exact_aside env (fillWriteRead_aside c env _ _)

theorem readBodyOf_exact (c : FrontConn) (env : Env) (ec : Ec) (n : ℕ) : Exact env (c.readBodyOf env ec n).2 := by
  unfold FrontConn.readBodyOf
  refine Exact.append (moveAdditional_aside c) ?_
  dsimp only
  split_ifs
  · exact exact_aside env (doReadBody_aside _ _)
  · exact readBodyHandler_exact _ env ec n

theorem dispatchHead_exact (c : FrontConn) (env : Env) (ec : Ec) : Exact env (c.dispatchHead env ec).2 := by
  unfold FrontConn.dispatchHead
  dsimp only
  split_ifs
  · exact exact_aside env (by simp [Aside])
  · refine andThen_exact (by simp [Aside]) ?_
    split_ifs
    · exact exact_aside env (by simp [Aside])
    · exact readBodyOf_exact _ env ec _
  · refine andThen_exact (by simp [Aside]) ?_
    split_ifs
    · exact andThen_exact (by simp [Aside]) (readBodyOf_exact _ env ec _)
    · exact readBodyOf_exact _ env ec _

theorem readHeadHandler_exact (c : FrontConn) (env : Env) (ec : Ec) (n : ℕ) :
    Exact env (c.readHeadHandler env ec n).2 := by
  unfold FrontConn.readHeadHandler
  split_ifs
  · dsimp only
    split
    · exact exact_aside env (by simp [Aside])
    · exact exact_aside env (errorReturn_aside _ env)
    · split_ifs
      · exact exact_aside env (fillAndWrite_aside _ env _ _)
      · exact dispatchHead_exact _ env ec
      · exact exact_aside env (fillAndWrite_aside _ env _ _)
  · exact exact_aside env (readError_aside c)
  · exact exact_aside env (errorReturn_aside c env)

/-- what the handler of an operation reads from outside -/
def envOf : Reading.Op → Option Env
  | .headData _ env | .headError _ _ env | .bodyData _ env | .bodyError _ _ env => some env
  | _ => none

/-- what a step adds to the events -/
def added (s : Reading.St) (o : Reading.Op) : List Ev := (Reading.step s o).evs.drop s.evs.length

theorem added_perform {s : Reading.St} {o : Reading.Op} {r : FrontConn × List Ev}
    (h : Reading.step s o = Reading.perform s r) : added s o = r.2 := by
  rw [added, h, Reading.perform, List.drop_left]

theorem added_none {s : Reading.St} {o : Reading.Op} (h : Reading.step s o = s) : added s o = [] := by
  rw [added, h, List.drop_length]

/-- an operation without a handler that reads from outside -/
theorem added_aside (s : Reading.St) {o : Reading.Op} (h : envOf o = none) : ∀ e ∈ added s o, Aside e := by
  cases o with
  | headData | headError | bodyData | bodyError => cases h
  | writeSide w => simp [added, Reading.step]
  | writeError =>
    simp only [added, Reading.step, List.drop_left]
    exact readError_aside s.front
  | expire => simp [added, Reading.step]
  | recycle now =>
    simp only [added, Reading.step]
    split_ifs with hc
    · simp [Reading.perform, FrontConn.connWashWhite, hc.2, FrontConn.start, FrontConn.doReadHead, Aside]
    · simp

/-- a step pushes what its bodies have to -/
theorem step_exact (s : Reading.St) (o : Reading.Op) {env : Env} (henv : ∀ e ∈ envOf o, e = env) :
    Exact env (added s o) := by
  have hnone : ∀ {o : Reading.Op}, Reading.step s o = s → Exact env (added s o) := fun h => by
    rw [added_none h]
    exact exact_aside env (by simp)
  have hperform : ∀ {o : Reading.Op} {r : FrontConn × List Ev}, Exact env r.2 →
      Reading.step s o = Reading.perform s r → Exact env (added s o) := fun hr h => by
    rwa [added_perform h]
  cases o with
  | headData data e =>
    obtain rfl : e = env := henv e rfl
    cases hr : s.reading with
    | head =>
      cases hi : find HttpText.blankLine (Reading.receive s.front data).request with
      | none => exact hnone (by simp [Reading.step, hr, hi])
      | some i =>
        exact hperform (readHeadHandler_exact (Reading.receive s.front data) e .success (i + 4))
          (by simp only [Reading.step, hr, hi])
    | none => exact hnone (by simp [Reading.step, hr])
    | body win => exact hnone (by simp [Reading.step, hr])
  | headError data ec e =>
    obtain rfl : e = env := henv e rfl
    by_cases hc : s.reading = .head ∧ ec ≠ .success
    · exact hperform (readHeadHandler_exact _ e ec 0) (if_pos hc)
    · exact hnone (if_neg hc)
  | bodyData data e =>
    obtain rfl : e = env := henv e rfl
    cases hr : s.reading with
    | body win =>
      by_cases hc : data ≠ [] ∧ data.length ≤ win.len
      · exact hperform (readBodyHandler_exact (Reading.receiveBody s.front win data) e .success data.length)
          (by simp only [Reading.step, hr, if_pos hc])
      · exact hnone (by simp only [Reading.step, hr, if_neg hc])
    | none => exact hnone (by simp [Reading.step, hr])
    | head => exact hnone (by simp [Reading.step, hr])
  | bodyError data ec e =>
    obtain rfl : e = env := henv e rfl
    cases hr : s.reading with
    | body win =>
      by_cases hc : ec ≠ .success ∧ data.length ≤ win.len
      · exact hperform (readBodyHandler_exact (Reading.receiveBody s.front win data) e ec data.length)
          (by simp only [Reading.step, hr, if_pos hc])
      · exact hnone (by simp only [Reading.step, hr, if_neg hc])
    | none => exact hnone (by simp [Reading.step, hr])
    | head => exact hnone (by simp [Reading.step, hr])
  | writeSide | writeError | expire | recycle => exact exact_aside env (added_aside s rfl)

/-- the pushes that the bodies of a run have to make, each body read with the environment of its step -/
def dues : Reading.St → List Reading.Op → List (ℕ × Str × ℕ)
  | _, [] => []
  | s, o :: ops => ((envOf o).elim [] fun env => (added s o).filterMap (due env)) ++ dues (Reading.step s o) ops

/-- a step only adds events -/
theorem evs_step (s : Reading.St) (o : Reading.Op) : (Reading.step s o).evs = s.evs ++ added s o := by
  suffices h : s.evs <+: (Reading.step s o).evs by
    obtain ⟨more, hmore⟩ := h
    rw [added, ← hmore, List.drop_left]
  have hperform : ∀ r : FrontConn × List Ev, s.evs <+: (Reading.perform s r).evs := fun r => List.prefix_append _ r.2
  have hsame : s.evs <+: s.evs := List.prefix_rfl
  cases o with
  | headData data env =>
    simp only [Reading.step]
    split
    · split
      · exact hperform _
      · exact hsame
    · exact hsame
  | headError data ec env =>
    simp only [Reading.step]
    split_ifs
    · exact hperform _
    · exact hsame
  | bodyData data env | bodyError data ec env =>
    simp only [Reading.step]
    split
    · split_ifs
      · exact hperform _
      · exact hsame
    · exact hsame
  | writeSide w => exact hsame
  | writeError => exact List.prefix_append _ _
  | expire => exact hsame
  | recycle now =>
    simp only [Reading.step]
    split_ifs
    · simp only [Reading.perform, List.append_assoc]
      exact List.prefix_append _ _
    · exact hsame

/-- **One call for each body.** Whatever happens on a front connection, its calls of `push_backend` are those that its
completed bodies have to make, one behind the other: the bodies sent to `/bb` that are documents, up to their first NUL,
each with its NUL and for the site it names. The call itself drops the data where no backend is working. -/
theorem pushes_in_order (s : Reading.St) (ops : List Reading.Op) :
    (run Reading.step s ops).evs.filterMap pushed = s.evs.filterMap pushed ++ dues s ops ∧
      ∀ env e siteId dat len, due env e = some (siteId, dat, len) ↔ Due env e siteId dat len := by
  refine ⟨?_, fun _ _ _ _ _ => due_iff⟩
  induction ops generalizing s with
  | nil => simp [dues]
  | cons o ops ih =>
    have hstep : (added s o).filterMap pushed = (envOf o).elim [] fun env => (added s o).filterMap (due env) := by
      cases henv : envOf o with
      | some env => exact step_exact s o (by simp [henv])
      | none => exact pushed_aside (added_aside s henv)
    rw [run_cons, ih, evs_step, List.filterMap_append, dues, hstep, List.append_assoc]

end AirobotMsgd.Messages
