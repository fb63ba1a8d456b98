/-
The front server: `http_server` with its accept loop, `manage_thread`, `co_worker::timing_wheel_check` and the
asynchronous operations of its connections (source/http_server.cpp, manage.cpp, co_worker.cpp, front_conn.cpp).

A connection object is an identifier; `make_shared` takes the next one and none is used again. Its owners are the
registry `front_conns_`, the cache, the set of removal requests, the handlers of its outstanding operations, the accept
handler between the registration and `start`, and the backend thread between `request_connection` and `do_write`.
`useCount` counts them; an entry of the timing wheel is a weak pointer and counts for nothing. An operation remembers
the socket it was started on.

One step is one critical section or one handler. The accept handler takes three: the capacity test, the locked
insertion, `start`. A tick takes two: the scan of bucket 0 and the locked `push_back`. What a handler does is a list of
`Act`s, one of those `outcomes` gives for its kind and error code (`Server/Handlers.lean` runs the handlers and finds
them there). A removal pass visits the pending set in any order. After a failed assertion (`aborted`) nothing happens any
more; a null `p_sock_` counts as one.

Premises: every connection in the registry holds an open descriptor, and descriptors are nonnegative ints, so an accept
completes only while fewer than 2^31 are registered. `max_serve_conns_cnt_`, the capacity of the wheel and
`conn_expired_time_` do not change after start-up.
-/
import AirobotMsgd.Core.Runs
import AirobotMsgd.Core.Double
import AirobotMsgd.Wire.Connection

namespace AirobotMsgd.FrontServer

/-! ## State -/

/-- the settings after start-up; `set_conn_expired_time` takes no value up to the capacity -/
structure Config where
  maxServeConnsCnt : ℕ
  capacity : ℕ
  connExpiredTime : ℕ
  max_lt : maxServeConnsCnt < 2 ^ 64
  two_le : 2 ≤ capacity
  lt_expired : capacity < connExpiredTime

/-- the settings `main` makes -/
def mainConfig : Config := ⟨100, 10, 20, by norm_num, by norm_num, by norm_num⟩

/-- `get_conn_check_spare` -/
def Config.connCheckSpare (cfg : Config) : ℕ := cfg.connExpiredTime / cfg.capacity

/-- the double nearest to 0.3 -/
def threeTenths : ℚ := 5404319552844595 / 2 ^ 54

/-- `static_cast<size_t>(max_serve_conns_cnt_ * 0.3)` -/
def Config.cacheCap (cfg : Config) : ℕ := ⌊Double.roundQ (Double.roundQ cfg.maxServeConnsCnt * threeTenths)⌋₊

structure Conn where
  stats : ConnStats
  touchTime : ℕ
  sock : Option ℕ
deriving DecidableEq, Repr

/-- the handler bound to an asynchronous operation -/
inductive Handler where
  | readHead
  | readBody
  | write
deriving DecidableEq, Repr

/-- an operation in flight or with its completion queued; it holds the connection -/
structure AsyncOp where
  conn : ℕ
  handler : Handler
  sock : ℕ
deriving DecidableEq, Repr

/-- where the accept loop is -/
inductive Accept where
  | listening
  | tested (sock : ℕ)
  | registered (c : ℕ)
  | stopped
deriving DecidableEq, Repr

inductive Assertion where
  /-- `new_c.use_count() == 1` -/
  | useCount
  /-- `get_stats() != conn_working` in `conn_wash_white` -/
  | washWhite
  /-- `front_conns_.size() == current_conns_cnt_` -/
  | sizeEq
  /-- a pending connection in bucket 0 is in the cache -/
  | tickCached
  /-- `session_id != 0` -/
  | zeroSession
  /-- `static_cast<int64_t>(session_id) != -1` -/
  | sessionId
  /-- `right.count(session_id) == 1` -/
  | unique
  /-- `*p_sock_` of an empty pointer -/
  | nullSock
deriving DecidableEq, Repr

structure St where
  now : ℕ
  conns : ℕ → Conn
  nextId : ℕ
  nextSock : ℕ
  /-- connection, session id -/
  frontConns : List (ℕ × ℕ)
  currentConnsCnt : ℕ
  pendingToRemove : List ℕ
  timingWheel : List (List ℕ)
  cachedConns : List ℕ
  ops : List AsyncOp
  accept : Accept
  /-- the connection `push_front` has looked up -/
  held : Option ℕ
  /-- `front_modi`, between the scan of a tick and its `push_back` -/
  tick : Option (List ℕ)
  /-- when the timer of the wheel expires -/
  nextTick : ℕ
  aborted : Option Assertion
  /-- ghost: an insertion into the bimap has failed -/
  refused : Bool

/-- the connections in the registry -/
def St.keys (s : St) : List ℕ := s.frontConns.map Prod.fst

def St.useCount (s : St) (c : ℕ) : ℕ :=
  s.keys.count c + s.cachedConns.count c + s.pendingToRemove.count c + (s.ops.map AsyncOp.conn).count c +
    (if s.accept = .registered c then 1 else 0) + if s.held = some c then 1 else 0

/-- `lock()` of a weak pointer succeeds -/
def St.alive (s : St) (c : ℕ) : Bool := 0 < s.useCount c

def St.abort (s : St) (a : Assertion) : St := { s with aborted := some a }

def St.setConn (s : St) (c : ℕ) (conn : Conn) : St := { s with conns := Function.update s.conns c conn }

def init (cfg : Config) (now : ℕ) : St where
  now := now
  conns := fun _ => ⟨.connPending, now, none⟩
  nextId := 0
  nextSock := 0
  frontConns := []
  currentConnsCnt := 0
  pendingToRemove := []
  timingWheel := List.replicate cfg.capacity []
  cachedConns := []
  ops := []
  accept := .listening
  held := none
  tick := none
  nextTick := now + cfg.connCheckSpare
  aborted := none
  refused := false

/-! ## What a handler does -/

inductive Act where
  | doReadHead
  | doReadBody
  | doWrite
  | notifyConnError
deriving DecidableEq, Repr

/-- what a handler does on a working connection, for its error code -/
def outcomes : Handler → Ec → List (List Act)
  | .readHead, .success => [[.doWrite], [.doReadBody], [.doWrite, .doReadHead], [], [.notifyConnError]]
  | .readHead, .operationAborted => [[.doWrite]]
  | .readBody, .success => [[.doReadBody], [.doWrite, .doReadHead], [], [.notifyConnError]]
  | .readBody, .operationAborted => [[.doWrite, .doReadHead]]
  | .write, .success => [[.doWrite], [], [.notifyConnError]]
  | .write, .operationAborted => [[]]
  | _, .failure => [[.notifyConnError]]

/-- `push_to_remove` -/
def pushToRemove (s : St) (c : ℕ) : St := { s with pendingToRemove := s.pendingToRemove.insert c }

/-- start an operation, unless the connection is not working -/
def startOp (s : St) (c : ℕ) (h : Handler) : St :=
  if (s.conns c).stats ≠ .connWorking then s
  else match (s.conns c).sock with
    | none => s.abort .nullSock
    | some sock => { s.setConn c { s.conns c with touchTime := s.now } with ops := s.ops ++ [⟨c, h, sock⟩] }

def perform (c : ℕ) (s : St) (a : Act) : St :=
  if s.aborted.isSome then s
  else match a with
    | .doReadHead => startOp s c .readHead
    | .doReadBody => startOp s c .readBody
    | .doWrite => startOp s c .write
    | .notifyConnError =>
      match (s.conns c).sock with
      | none => s.abort .nullSock
      | some _ => pushToRemove (s.setConn c { s.conns c with stats := .connError }) c

/-! ## The accept loop -/

/-- insert into the last bucket -/
def insertBack (c : ℕ) : List (List ℕ) → List (List ℕ)
  | [] => []
  | [b] => [b.insert c]
  | b :: bs => b :: insertBack c bs

def acceptTest (cfg : Config) (s : St) : St :=
  if s.accept = .listening ∧ s.frontConns.length < 2 ^ 31 then
    let s' := { s with nextSock := s.nextSock + 1 }
    if cfg.maxServeConnsCnt ≤ s.currentConnsCnt then s' else { s' with accept := .tested s.nextSock }
  else s

/-- the registration, once the connection is there -/
def register (s : St) (c : ℕ) : St :=
  { s with
    frontConns := if c ∈ s.keys then s.frontConns else s.frontConns ++ [(c, 0)]
    refused := s.refused || c ∈ s.keys
    currentConnsCnt := (s.currentConnsCnt + 1) % 2 ^ 64
    timingWheel := insertBack c s.timingWheel
    accept := .registered c }

/-- the locked part of `accept_handler` -/
def acceptInsert (s : St) : St :=
  match s.accept with
  | .tested sock =>
    match s.cachedConns with
    | c :: cached =>
      let s := { s with cachedConns := cached }
      if s.useCount c = 0 then register (s.setConn c { s.conns c with sock := some sock, touchTime := s.now }) c
      else s.abort .useCount
    | [] =>
      register { s.setConn s.nextId ⟨.connPending, s.now, some sock⟩ with nextId := s.nextId + 1 } s.nextId
  | _ => s

def acceptStart (s : St) : St :=
  match s.accept with
  | .registered c =>
    startOp { s.setConn c { s.conns c with stats := .connWorking } with accept := .listening } c .readHead
  | _ => s

/-! ## The timing wheel -/

/-- the loop body of `timing_wheel_check`: the state and `front_modi` -/
def tickItem (cfg : Config) (p : St × List ℕ) (c : ℕ) : St × List ℕ :=
  let (s, modi) := p
  if s.aborted.isSome then (s, modi)
  else if !s.alive c then (s, modi.erase c)
  else if (s.conns c).stats = .connPending then
    if c ∈ s.cachedConns then (s, modi.erase c) else (s.abort .tickCached, modi)
  else if (s.conns c).touchTime + (cfg.connExpiredTime - cfg.connCheckSpare) ≤ s.now then
    match (s.conns c).sock with
    | none => (s.abort .nullSock, modi)
    | some _ => (pushToRemove (s.setConn c { s.conns c with stats := .connError }) c, modi.erase c)
  else (s, modi)

def tickScan (cfg : Config) (s : St) : St :=
  match s.tick with
  | none =>
    let bucket := s.timingWheel.headD []
    let (s', modi) := bucket.foldl (tickItem cfg) (s, bucket)
    { s' with tick := some modi, nextTick := s.now + cfg.connCheckSpare }
  | some _ => s

/-- `push_back` of a circular buffer -/
def pushBack (capacity : ℕ) (b : List ℕ) (wheel : List (List ℕ)) : List (List ℕ) :=
  if capacity ≤ wheel.length then wheel.tail ++ [b] else wheel ++ [b]

def tickPush (cfg : Config) (s : St) : St :=
  match s.tick with
  | some modi => { s with timingWheel := pushBack cfg.capacity modi s.timingWheel, tick := none }
  | none => s

/-! ## `manage_thread` -/

/-- `view.erase` with the counter -/
def unregister (s : St) (c : ℕ) : St :=
  { s with
    frontConns := s.frontConns.filter fun e => e.1 ≠ c
    currentConnsCnt := (s.currentConnsCnt + 2 ^ 64 - 1) % 2 ^ 64 }

/-- back into the wheel, for a connection others still use -/
def skip (s : St) (c : ℕ) : St :=
  if 2 < s.useCount c then { s with timingWheel := insertBack c s.timingWheel } else s

/-- `conn_wash_white` and the `push_back` -/
def recycle (s : St) (c : ℕ) : St :=
  if (s.conns c).stats = .connWorking then s.abort .washWhite
  else { s.setConn c { s.conns c with stats := .connPending, sock := none } with cachedConns := s.cachedConns ++ [c] }

/-- the loop body of a removal pass; the branch that logs "SKIP" goes on -/
def manageItem (cfg : Config) (s : St) (c : ℕ) : St :=
  if s.aborted.isSome then s
  else if c ∈ s.keys then
    let s := unregister (skip s c) c
    if s.cachedConns.length < cfg.cacheCap then recycle s c else s
  else s

def managePass (cfg : Config) (s : St) (order : List ℕ) : St :=
  if order.Perm s.pendingToRemove ∧ order ≠ [] then
    let s := order.foldl (manageItem cfg) s
    if s.aborted.isSome then s
    else
      let s := { s with pendingToRemove := [] }
      if s.frontConns.length = s.currentConnsCnt then s else s.abort .sizeEq
  else s

/-! ## Steps -/

inductive Op where
  | advance (d : ℕ)
  | acceptError
  | acceptTest
  | acceptInsert
  | acceptStart
  /-- the i-th operation completes and its handler runs, with the n-th of its outcomes -/
  | complete (i : ℕ) (ec : Ec) (n : ℕ)
  | setSessionId (c sessionId : ℕ)
  /-- `request_connection` by `push_front` -/
  | lookUp (sessionId : ℕ)
  /-- `fill_for_http` and `do_write` on the connection looked up -/
  | pushFront
  | pushToRemove (c : ℕ)
  | tickScan
  | tickPush
  | managePass (order : List ℕ)
deriving DecidableEq, Repr

def complete (s : St) (i : ℕ) (ec : Ec) (n : ℕ) : St :=
  match s.ops[i]? with
  | none => s
  | some op =>
    match (outcomes op.handler ec)[n]? with
    | none => s
    | some acts =>
      -- the handler holds the connection until it returns
      let s := acts.foldl (perform op.conn) s
      { s with ops := s.ops.eraseIdx i }

/-- the conversion to int64_t -/
def toInt64 (n : ℕ) : ℤ := if n < 2 ^ 63 then n else n - 2 ^ 64

/-- `request_session_id` -/
def requestSessionId (s : St) (c : ℕ) : ℤ :=
  match s.frontConns.find? fun e => e.1 = c with
  | none => -1
  | some e => toInt64 e.2

/-- `set_session_id`: the state and what it returns -/
def setSessionId (s : St) (c sessionId : ℕ) : St × Bool :=
  if c ∈ s.keys then
    ({ s with frontConns := s.frontConns.map fun e => if e.1 = c then (c, sessionId) else e }, true)
  else (s, false)

/-- `request_connection`: nullptr is none, a failed assertion an error -/
def requestConnection (s : St) (sessionId : ℕ) : Except Assertion (Option ℕ) :=
  if sessionId = 0 then .error .zeroSession
  else if sessionId = 2 ^ 64 - 1 then .error .sessionId
  else match s.frontConns.filter fun e => e.2 = sessionId with
    | [] => .ok none
    | [e] => .ok (some e.1)
    | _ => .error .unique

/-- `push_front` up to the connection; it tests the session id itself -/
def lookUp (s : St) (sessionId : ℕ) : St :=
  if s.held.isSome ∨ sessionId = 0 then s
  else match requestConnection s sessionId with
    | .error a => s.abort a
    | .ok none => s
    | .ok (some c) => { s with held := some c }

def pushFront (s : St) : St :=
  match s.held with
  | none => s
  | some c => { startOp s c .write with held := none }

def step (cfg : Config) (s : St) (o : Op) : St :=
  if s.aborted.isSome then s
  else match o with
    | .advance d => { s with now := s.now + d }
    | .acceptError => if s.accept = .listening then { s with accept := .stopped } else s
    | .acceptTest => acceptTest cfg s
    | .acceptInsert => acceptInsert s
    | .acceptStart => acceptStart s
    | .complete i ec n => complete s i ec n
    | .setSessionId c sessionId => (setSessionId s c sessionId).1
    | .lookUp sessionId => lookUp s sessionId
    | .pushFront => pushFront s
    | .pushToRemove c => pushToRemove s c
    | .tickScan => tickScan cfg s
    | .tickPush => tickPush cfg s
    | .managePass order => managePass cfg s order

end AirobotMsgd.FrontServer
