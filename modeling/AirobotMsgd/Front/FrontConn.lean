/-
The read side of a front connection: `do_read_head`, `do_read_body`, `read_head_handler` and `read_body_handler`
(source/front_conn.cpp). A handler runs on the strand as one step; it returns the connection it leaves and what it did,
as a list of `Ev`. A failed assertion, a `resize` beyond `max_size` and a read out of range end it.

Sizes are `size_t`: the int of `atoi` is converted modulo 2^64 (`toSizeT`), and every sum and difference is taken modulo
2^64; the events keep the operands, so that a wrapped one can be told.

`Env` is what a handler reads from outside: the clock, the text of the date, the thread's errno, the outcome of the
connect and the bytes of the read that `/bb` makes, and what an undefined conversion of a double gives.
-/
import AirobotMsgd.Front.FrontWire
import AirobotMsgd.Http.HttpParser
import AirobotMsgd.Json.Json11

namespace AirobotMsgd

open AirobotMsgd.Bytes AirobotMsgd.HttpProto AirobotMsgd.HttpParser

structure FrontConn where
  conn : Connection
  /-- `request_` -/
  request : Str
  /-- `parser_` -/
  headerOpts : HeaderOpts
deriving DecidableEq, Repr

structure Env where
  now : ℕ
  date : Str
  errno : Bool
  connectOk : Bool
  /-- the bytes the read of `/bb` returns; none on an error -/
  answer : Str
  cast : Double.Value → ℕ

namespace FrontConn

def SIZE_MOD : ℕ := 2 ^ 64

/-- `max_size()` of a `std::vector<char>` -/
def maxSize : ℕ := 2 ^ 63 - 1

/-- an int, converted to `size_t` -/
def toSizeT (i : ℤ) : ℕ := (i % (2 ^ 64 : ℤ)).toNat

/-- the int value of the Content-Length option -/
def contentLength (opts : HeaderOpts) : ℤ := atoi (requestOption opts HeaderOptions.contentLength)

def len (c : FrontConn) : ℕ := toSizeT (contentLength c.headerOpts)

/-- run the second after the first -/
def andThen (r : FrontConn × List Ev) (f : FrontConn → FrontConn × List Ev) : FrontConn × List Ev :=
  ((f r.1).1, r.2 ++ (f r.1).2)

def doReadHead (c : FrontConn) (now : ℕ) : FrontConn × List Ev :=
  if c.conn.stats ≠ .connWorking then (c, [])
  else ({ c with conn := { c.conn with touchTime := now } }, [.asyncReadUntil])

def doReadBody (c : FrontConn) (now : ℕ) : FrontConn × List Ev :=
  if c.conn.stats ≠ .connWorking then (c, [])
  else
    let rSize := c.conn.rSize
    ({ c with conn := { c.conn with touchTime := now } },
      [.sub c.len rSize, .asyncRead ⟨rSize, (c.len + SIZE_MOD - rSize) % SIZE_MOD⟩ c.conn.pBuffer.length])

/-- `fill_for_http(content, status)`, then `do_write` -/
def fillAndWrite (c : FrontConn) (env : Env) (content status : Str) : FrontConn × List Ev :=
  let conn := c.conn.fillForHttp env.date content status
  let r := doWrite conn env.now
  ({ c with conn := r.1 }, .fillForHttp content status :: r.2)

/-- the tail of `read_body_handler` -/
def fillWriteRead (c : FrontConn) (env : Env) (content status : Str) : FrontConn × List Ev :=
  andThen (fillAndWrite c env content status) (doReadHead · env.now)

/-- a socket error: `shutdown`, `cancel`, `notify_conn_error` -/
def readError (c : FrontConn) : FrontConn × List Ev :=
  ({ c with conn := (notifyConnError c.conn).1 }, (notifyConnError c.conn).2)

/-- the `/bb` branch of `read_body_handler` -/
def handleBb (c : FrontConn) (env : Env) : FrontConn × List Ev :=
  let body := cut (c.conn.pBuffer.take c.conn.rSize)
  let parsed := Json11.parse body env.errno
  andThen (c, [.copy c.conn.rSize c.conn.pBuffer.length]) fun c =>
    if parsed.err ≠ [] then fillWriteRead c env (ascii "bb_ret") Status.ok
    else
      let siteId := (parsed.json.get (ascii "site_id")).uint64Value env.cast
      andThen (c, [.pushBackend siteId body (body.length + 1)]) fun c =>
        if !env.connectOk then (c, [])
        else if env.answer = [] then (c, [])
        else fillWriteRead c env (cut env.answer) Status.ok

/-- what `read_body_handler` does past its length check -/
def dispatchBody (c : FrontConn) (env : Env) : FrontConn × List Ev :=
  let uri := requestOption c.headerOpts HeaderOptions.requestUri
  if iequals uri (ascii "/aa") then fillWriteRead c env (ascii "aa") Status.ok
  else if iequals uri (ascii "/bb") then handleBb c env
  else if iequals uri (ascii "/cc") then fillWriteRead c env (ascii "cc") Status.ok
  else fillWriteRead c env contentNotFound Status.notFound

def readBodyHandler (c : FrontConn) (env : Env) (ec : Ec) (bytesTransferred : ℕ) : FrontConn × List Ev :=
  if ec = .success ∧ bytesTransferred ≠ 0 then
    let rSize := (c.conn.rSize + bytesTransferred) % SIZE_MOD
    andThen ({ c with conn := { c.conn with rSize } }, [.add c.conn.rSize bytesTransferred]) fun c =>
      if rSize < c.len then doReadBody c env.now
      else
        andThen (c, [.bodyComplete rSize c.conn.pBuffer c.request c.headerOpts]) fun c => dispatchBody c env
  else if ec ≠ .operationAborted then readError c
  else fillWriteRead c env contentError Status.internalServerError

/-- `/aa`, `/bb` or `/cc` -/
def isBodyUri (uri : Str) : Bool :=
  iequals uri (ascii "/aa") || iequals uri (ascii "/bb") || iequals uri (ascii "/cc")

/-- what has arrived of the body is moved from `request_` to `p_buffer_` -/
def moveAdditional (c : FrontConn) : FrontConn × List Ev :=
  if c.request.length = 0 then (c, [])
  else
    ({ c with conn := { c.conn with pBuffer := overwrite c.conn.pBuffer 0 (c.request ++ [0]) }, request := [] },
      [.copy (c.request.length + 1) c.conn.pBuffer.length])

/-- the body of the request that `read_head_handler` has parsed is still to be read, or is here already -/
def readBodyOf (c : FrontConn) (env : Env) (ec : Ec) (additionalSize : ℕ) : FrontConn × List Ev :=
  andThen (moveAdditional c) fun c =>
    if additionalSize < c.len then doReadBody { c with conn := { c.conn with rSize := additionalSize } } env.now
    else readBodyHandler c env ec additionalSize

/-- a POST to `/aa`, `/bb` or `/cc` in `read_head_handler` -/
def dispatchHead (c : FrontConn) (env : Env) (ec : Ec) : FrontConn × List Ev :=
  let len := c.len
  let c := { c with conn := { c.conn with rSize := 0 } }
  let additionalSize := c.request.length
  if len < additionalSize then (c, [.assertion false])
  else
    andThen (c, [.assertion true, .add len 1]) fun c =>
      if c.conn.pBuffer.length < (len + 1) % SIZE_MOD then
        let size := (len + 256) % SIZE_MOD
        if maxSize < size then (c, [.add len 256, .resize size])
        else
          andThen ({ c with conn := { c.conn with pBuffer := resize c.conn.pBuffer size } },
            [.add len 256, .resize size]) fun c => readBodyOf c env ec additionalSize
      else readBodyOf c env ec additionalSize

/-- the `error_return` exit of `read_head_handler` -/
def errorReturn (c : FrontConn) (env : Env) : FrontConn × List Ev :=
  let conn := c.conn.fillForHttp env.date contentError Status.internalServerError
  let r := doWrite { conn with rSize := 0 } env.now
  ({ c with conn := r.1, request := [] }, .fillForHttp contentError Status.internalServerError :: r.2)

def readHeadHandler (c : FrontConn) (env : Env) (ec : Ec) (bytesTransferred : ℕ) : FrontConn × List Ev :=
  if ec = .success ∧ bytesTransferred ≠ 0 then
    let headStr := c.request
    let c := { c with request := c.request.drop bytesTransferred }
    match parseRequest c.headerOpts (cut headStr) with
    | none => (c, [.outOfRange])
    | some (false, headerOpts) => errorReturn { c with headerOpts } env
    | some (true, headerOpts) =>
      let c := { c with headerOpts }
      if !iequals (requestOption headerOpts HeaderOptions.requestMethod) (ascii "POST") then
        fillAndWrite c env contentBadRequest Status.badRequest
      else if isBodyUri (requestOption headerOpts HeaderOptions.requestUri) then dispatchHead c env ec
      else fillAndWrite c env contentNotFound Status.notFound
  else if ec ≠ .operationAborted then readError c
  else errorReturn c env

/-- `start` -/
def start (c : FrontConn) (now : ℕ) : FrontConn × List Ev :=
  doReadHead { c with conn := { c.conn with stats := .connWorking } } now

/-- `conn_wash_white` -/
def connWashWhite (c : FrontConn) : FrontConn × List Ev :=
  if c.conn.stats = .connWorking then (c, [.assertion false])
  else
    ({ c with conn := { c.conn with
        rSize := 0, wSize := 0, wPos := 0, pBuffer := resize c.conn.pBuffer (16 * 1024),
        pWrite := resize c.conn.pWrite (16 * 1024), stats := .connPending } },
      [.assertion true, .resize (16 * 1024)])

/-- `conn_reset_network` -/
def connResetNetwork (c : FrontConn) (now : ℕ) : FrontConn :=
  { c with request := [], conn := { c.conn with touchTime := now } }

/-! ## What a reply does -/

/-- a reply leaves the read side as it is -/
structure SameRead (c c' : FrontConn) : Prop where
  stats : c'.conn.stats = c.conn.stats
  rSize : c'.conn.rSize = c.conn.rSize
  pBuffer : c'.conn.pBuffer = c.conn.pBuffer
  request : c'.request = c.request
  headerOpts : c'.headerOpts = c.headerOpts

theorem SameRead.trans {a b c : FrontConn} (h : SameRead a b) (h' : SameRead b c) : SameRead a c :=
  ⟨h'.stats.trans h.stats, h'.rSize.trans h.rSize, h'.pBuffer.trans h.pBuffer, h'.request.trans h.request,
    h'.headerOpts.trans h.headerOpts⟩

theorem doWrite_eq (c : Connection) (now : ℕ) : ∃ t, (doWrite c now).1 = { c with touchTime := t } := by
  unfold doWrite
  dsimp only
  split_ifs
  · exact ⟨c.touchTime, rfl⟩
  · exact ⟨now, rfl⟩
  · exact ⟨now, rfl⟩

theorem fillAndWrite_sameRead (c : FrontConn) (env : Env) (content status : Str) :
    SameRead c (fillAndWrite c env content status).1 := by
  obtain ⟨t, ht⟩ := doWrite_eq (c.conn.fillForHttp env.date content status) env.now
  simp only [fillAndWrite, ht]
  constructor <;> simp [Connection.fillForHttp]

/-- the `error_return` exit is a reply on a connection whose read side is reset -/
theorem errorReturn_eq (c : FrontConn) (env : Env) :
    errorReturn c env = fillAndWrite { c with conn := { c.conn with rSize := 0 }, request := [] } env contentError
      Status.internalServerError := by
  have h : ∀ enc, { c.conn.fillEnc enc with rSize := 0 } = ({ c.conn with rSize := 0 } : Connection).fillEnc enc := by
    intro enc
    by_cases hg : c.conn.pWrite.length < enc.length + 1 <;>
      simp [Connection.fillEnc, Connection.growWrite, Connection.grows, hg]
  simp only [errorReturn, fillAndWrite, Connection.fillForHttp, h]

theorem doReadHead_sameRead (c : FrontConn) (now : ℕ) : SameRead c (doReadHead c now).1 := by
  unfold doReadHead
  split_ifs <;> exact ⟨rfl, rfl, rfl, rfl, rfl⟩

theorem fillWriteRead_sameRead (c : FrontConn) (env : Env) (content status : Str) :
    SameRead c (fillWriteRead c env content status).1 :=
  (fillAndWrite_sameRead c env content status).trans (doReadHead_sameRead _ _)

/-- on a working connection a reply is filled in and its write is started -/
theorem fillAndWrite_working {c : FrontConn} (h : c.conn.stats = .connWorking) (env : Env) (content status : Str) :
    (fillAndWrite c env content status).2 = [.fillForHttp content status, .assertion true,
      .asyncWrite ⟨0, (Reply.replyGenerate env.date content status).length⟩] := by
  have hne : (Reply.replyGenerate env.date content status).length ≠ 0 := by
    simp [Reply.replyGenerate_eq, HttpText.crlf]
  have hdw := doWrite_working (c := c.conn.fillForHttp env.date content status)
    (by simpa [Connection.fillForHttp] using h) (by simpa [Connection.fillForHttp] using hne)
    (by simpa [Connection.fillForHttp] using Nat.pos_of_ne_zero hne) env.now
  simp only [fillAndWrite, hdw]
  simp [Connection.fillForHttp]

theorem fillAndWrite_idle {c : FrontConn} (h : c.conn.stats ≠ .connWorking) (env : Env) (content status : Str) :
    (fillAndWrite c env content status).2 = [.fillForHttp content status] := by
  simp [fillAndWrite, doWrite, Connection.fillForHttp, h]

theorem fillWriteRead_working {c : FrontConn} (h : c.conn.stats = .connWorking) (env : Env) (content status : Str) :
    (fillWriteRead c env content status).2 = [.fillForHttp content status, .assertion true,
      .asyncWrite ⟨0, (Reply.replyGenerate env.date content status).length⟩, .asyncReadUntil] := by
  have hs := (fillAndWrite_sameRead c env content status).stats
  simp [fillWriteRead, andThen, fillAndWrite_working h, doReadHead, hs, h]

theorem fillWriteRead_idle {c : FrontConn} (h : c.conn.stats ≠ .connWorking) (env : Env) (content status : Str) :
    (fillWriteRead c env content status).2 = [.fillForHttp content status] := by
  have hs := (fillAndWrite_sameRead c env content status).stats
  simp [fillWriteRead, andThen, fillAndWrite_idle h, doReadHead, hs, h]

end FrontConn

/-! ## Events that are within bounds -/

/-- the assertion holds, the size does not wrap, the copy or window lies inside the buffer -/
def Ev.Ok : Ev → Prop
  | .assertion holds => holds = true
  | .add a b => a + b < 2 ^ 64
  | .sub a b => b ≤ a
  | .resize n => n ≤ FrontConn.maxSize
  | .copy n size => n ≤ size
  | .outOfRange => False
  | .asyncRead win size => win.off + win.len ≤ size
  | _ => True

instance (e : Ev) : Decidable e.Ok := by
  cases e <;> unfold Ev.Ok <;> infer_instance

/-- a test or a size computed on the way -/
def Ev.internal : Ev → Bool
  | .assertion _ | .add _ _ | .sub _ _ | .resize _ | .copy _ _ => true
  | _ => false

namespace FrontConn

theorem toSizeT_natCast {n : ℕ} (h : n < 2 ^ 64) : toSizeT n = n := by
  unfold toSizeT
  omega

theorem len_eq {c : FrontConn} {L : ℕ} (h : contentLength c.headerOpts = L) : c.len = L ∧ L < 2 ^ 31 := by
  have hr := (atoi_range (requestOption c.headerOpts HeaderOptions.contentLength)).2
  rw [contentLength] at h
  refine ⟨?_, by omega⟩
  rw [len, contentLength, h, toSizeT_natCast (by omega)]

/-- the rest of the body is read behind what is there -/
theorem doReadBody_working {c : FrontConn} {L : ℕ} (hw : c.conn.stats = .connWorking)
    (hL : contentLength c.headerOpts = L) (hlt : c.conn.rSize < L) (now : ℕ) :
    c.doReadBody now = ({ c with conn := { c.conn with touchTime := now } },
      [.sub L c.conn.rSize, .asyncRead ⟨c.conn.rSize, L - c.conn.rSize⟩ c.conn.pBuffer.length]) := by
  obtain ⟨hlen, hL31⟩ := len_eq hL
  have hwin : (L + SIZE_MOD - c.conn.rSize) % SIZE_MOD = L - c.conn.rSize := by
    unfold SIZE_MOD; omega
  simp only [doReadBody, hw, ne_eq, not_true_eq_false, if_false, hlen, hwin]

/-- what has arrived is at the start of the buffer -/
theorem moveAdditional_spec (c : FrontConn) (hlen : c.request.length + 1 ≤ c.conn.pBuffer.length) :
    ∃ evs buf, (∀ e ∈ evs, e.Ok ∧ e.internal = true) ∧ buf.length = c.conn.pBuffer.length ∧
      buf.take c.request.length = c.request ∧
      moveAdditional c = ({ c with conn := { c.conn with pBuffer := buf }, request := [] }, evs) := by
  by_cases h0 : c.request.length = 0
  · refine ⟨[], c.conn.pBuffer, by simp, rfl, by simp [List.length_eq_zero_iff.1 h0], ?_⟩
    rw [moveAdditional, if_pos h0, ← List.length_eq_zero_iff.1 h0]
  · refine ⟨[.copy (c.request.length + 1) c.conn.pBuffer.length], overwrite c.conn.pBuffer 0 (c.request ++ [0]),
      by simpa [Ev.Ok, Ev.internal] using hlen, length_overwrite (by simpa using hlen), ?_, if_neg h0⟩
    simp [overwrite]

/-- **Room is made.** When the bytes that came with the head are no more than the body, they are moved to the start of
a buffer that holds the body and one byte, and the body is read on, or handled at once if it is complete. -/
theorem dispatchHead_spec {c : FrontConn} {L : ℕ} (hL : contentLength c.headerOpts = L) (ha : c.request.length ≤ L)
    (env : Env) (ec : Ec) :
    ∃ evs buf, (∀ e ∈ evs, e.Ok ∧ e.internal = true) ∧ L + 1 ≤ buf.length ∧
      buf.length ≤ max c.conn.pBuffer.length (L + 256) ∧ buf.take c.request.length = c.request ∧
      dispatchHead c env ec =
        andThen ({ c with conn := { c.conn with rSize := 0, pBuffer := buf }, request := [] }, evs) fun c' =>
          if c.request.length < L then
            doReadBody { c' with conn := { c'.conn with rSize := c.request.length } } env.now
          else readBodyHandler c' env ec c.request.length := by
  obtain ⟨hlen, hlt⟩ := len_eq hL
  have hmod : ∀ n ≤ 256, (L + n) % SIZE_MOD = L + n := fun n hn => Nat.mod_eq_of_lt (by unfold SIZE_MOD; omega)
  have hmax : ¬ maxSize < L + 256 := by unfold maxSize; omega
  -- from a buffer with room for the body on
  have hroom : ∀ b : FrontConn, b.request = c.request → b.headerOpts = c.headerOpts → L + 1 ≤ b.conn.pBuffer.length →
      ∃ evs buf, (∀ e ∈ evs, e.Ok ∧ e.internal = true) ∧ buf.length = b.conn.pBuffer.length ∧
        buf.take c.request.length = c.request ∧
        readBodyOf b env ec c.request.length =
          andThen ({ b with conn := { b.conn with pBuffer := buf }, request := [] }, evs) fun c' =>
            if c.request.length < L then
              doReadBody { c' with conn := { c'.conn with rSize := c.request.length } } env.now
            else readBodyHandler c' env ec c.request.length := by
    intro b hreq hopts hbuf
    obtain ⟨evs, buf, hok, hl, htake, hmove⟩ := moveAdditional_spec b (by rw [hreq]; omega)
    rw [hreq] at htake
    refine ⟨evs, buf, hok, hl, htake, ?_⟩
    have hb : ∀ r s, FrontConn.len { b with conn := { b.conn with pBuffer := r }, request := s } = L := by
      intro r s
      rw [len, hopts, ← hlen, len]
    simp only [readBodyOf, hmove, andThen, hb]
  simp only [dispatchHead, hlen, hmod 1 (by omega), hmod 256 le_rfl, if_neg (Nat.not_lt.2 ha), if_neg hmax]
  by_cases hgrow : c.conn.pBuffer.length < L + 1
  · obtain ⟨evs, buf, hok, hl, htake, heq⟩ := hroom
      { c with conn := { c.conn with rSize := 0, pBuffer := resize c.conn.pBuffer (L + 256) } } rfl rfl
      (by simp)
    rw [length_resize] at hl
    refine ⟨[.assertion true, .add L 1, .add L 256, .resize (L + 256)] ++ evs, buf, ?_, by omega,
      hl ▸ le_max_right _ _, htake, ?_⟩
    · simp only [List.mem_append, List.mem_cons, List.not_mem_nil, or_false]
      rintro e ((rfl | rfl | rfl | rfl) | he)
      · exact ⟨rfl, rfl⟩
      · exact ⟨by simp only [Ev.Ok]; omega, rfl⟩
      · exact ⟨by simp only [Ev.Ok]; omega, rfl⟩
      · exact ⟨Nat.not_lt.1 hmax, rfl⟩
      · exact hok e he
    · simp only [andThen, if_pos hgrow, heq]
      simp
  · obtain ⟨evs, buf, hok, hl, htake, heq⟩ := hroom { c with conn := { c.conn with rSize := 0 } } rfl rfl
      (Nat.not_lt.1 hgrow)
    refine ⟨[.assertion true, .add L 1] ++ evs, buf, ?_, hl ▸ Nat.not_lt.1 hgrow, hl ▸ le_max_left _ _, htake, ?_⟩
    · simp only [List.mem_append, List.mem_cons, List.not_mem_nil, or_false]
      rintro e ((rfl | rfl) | he)
      · exact ⟨rfl, rfl⟩
      · exact ⟨by simp only [Ev.Ok]; omega, rfl⟩
      · exact hok e he
    · simp only [andThen, if_neg hgrow, heq]
      simp

end FrontConn

end AirobotMsgd
