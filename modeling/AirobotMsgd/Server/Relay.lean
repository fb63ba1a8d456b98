/-
What a message of a backend makes the front server assert: `backend_conn::read_handler`, `backend_server::push_front`
and `http_server::request_connection` (source/backend_conn.cpp, backend_server.cpp, http_server.cpp).

`read_handler` drops a message whose session id or site id is 0, `push_front` drops a session id 0 and an empty message,
and `request_connection` asserts that the session id is neither 0 nor -1 and that one connection at most has it. None of
the filters looks for -1.

`Reads64 n j`: the JSON value j is read as the 64-bit number n. An integer is read modulo 2^64, so -1 and 2^64 - 1 are
the same id; what is no number is 0; a double is truncated, and one outside the range is left to the machine.

Results:
- `answered_iff_harmless`: no assertion of `request_connection` fails exactly when the session id is not read as
  2^64 - 1, or the site id as 0.
- `minus_one_asserts`: a message with the session id -1.
-/
import AirobotMsgd.Backend.BackendConn
import AirobotMsgd.Server.Sessions

namespace AirobotMsgd.Relay

open AirobotMsgd.Bytes AirobotMsgd.Json11

/-! ## The calls -/

/-- `push_front` up to the connection it asks for -/
def pushFront (s : FrontServer.St) (sessionId len : ℕ) : Except FrontServer.Assertion (Option ℕ) :=
  if sessionId = 0 ∨ len = 0 then .ok none else FrontServer.requestConnection s sessionId

/-- no call of `push_front` fails an assertion -/
def Answered (s : FrontServer.St) (evs : List BackendConn.Ev) : Prop :=
  ∀ sessionId dat len, BackendConn.Ev.pushFront sessionId dat len ∈ evs → ∃ r, pushFront s sessionId len = .ok r

/-- a bimap in which each session belongs to at most one connection -/
structure OneEach (s : FrontServer.St) : Prop where
  keys : s.keys.Nodup
  sessions : ∀ e ∈ s.frontConns, ∀ e' ∈ s.frontConns, e.2 ≠ 0 → e.2 = e'.2 → e.1 = e'.1

/-! ## What a JSON value is read as -/

def Reads64 (cast : Double.Value → ℕ) (n : ℕ) : Json → Prop
  | .int64 value => value % 2 ^ 64 = n
  | .uint64 value => value = n
  | .double value => value.toUInt64.getD (cast value % 2 ^ 64) = n
  | _ => n = 0

theorem reads64_iff {cast : Double.Value → ℕ} {n : ℕ} {j : Json} : Reads64 cast n j ↔ j.uint64Value cast = n := by
  cases j with
  | int64 value =>
    have hpos : 0 ≤ value % 2 ^ 64 := Int.emod_nonneg _ (by norm_num)
    simp only [Reads64, Json.uint64Value]
    omega
  | uint64 value => exact Iff.rfl
  | double value => exact Iff.rfl
  | _ => exact eq_comm

/-- the session id is not read as -1, or the site id as 0 -/
def Harmless (env : BackendConn.Env) (data : Str) : Prop :=
  let json := (Json11.parse (cut data) env.errno).json
  ¬ Reads64 env.cast (2 ^ 64 - 1) (json.get (ascii "session_id")) ∨ Reads64 env.cast 0 (json.get (ascii "site_id"))

/-! ## The message -/

/-- bytes with a NUL behind them are read up to their first one -/
theorem cstr_cut {data : Str} (t : Str) : cstr (data ++ 0 :: t) = some (cut data) := by
  rw [cstr, if_pos (by simp), cut, List.takeWhile_append]
  split_ifs with hall
  · have hself : data.takeWhile (· ≠ 0) = data := (List.takeWhile_prefix _).eq_of_length hall
    rw [hself]
    simp
  · rfl

theorem cstr_receive {c : Connection} {data : Str}
    (hnul : (BackendConn.receive c data).pBuffer[data.length]? = some 0) :
    cstr (BackendConn.receive c data).pBuffer = some (cut data) := by
  rw [BackendConn.receive_pBuffer] at hnul ⊢
  rw [List.getElem?_append_right le_rfl, Nat.sub_self] at hnul
  obtain ⟨t, ht⟩ : ∃ t, c.pBuffer.drop data.length = 0 :: t := by
    cases hd : c.pBuffer.drop data.length with
    | nil => simp [hd] at hnul
    | cons b t =>
      obtain rfl : b = 0 := by simpa [hd] using hnul
      exact ⟨t, rfl⟩
  rw [ht]
  exact cstr_cut t

/-- the calls of `push_front` are those of the message, if there is one -/
theorem mem_readHandler {c : Connection} {env : BackendConn.Env} {n sessionId len : ℕ} {dat : Str} :
    BackendConn.Ev.pushFront sessionId dat len ∈ (BackendConn.readHandler c env .success n).2 ↔
      n ≠ 0 ∧ BackendConn.Ev.pushFront sessionId dat len ∈ BackendConn.relay c env := by
  have hread : ∀ c' : Connection, BackendConn.Ev.pushFront sessionId dat len ∉ (BackendConn.doRead c' env.now).2 := by
    intro c'
    unfold BackendConn.doRead
    split_ifs <;> simp
  unfold BackendConn.readHandler
  by_cases hn : n = 0
  · rw [if_neg (by simp [hn]), if_pos (by decide)]
    simp [hn, hread]
  · rw [if_pos ⟨rfl, hn⟩, List.mem_append, or_iff_left (hread c), and_iff_right hn]

/-- the one call of a message, with what the two ids are read as -/
theorem mem_relay {c : Connection} {env : BackendConn.Env} {text : Str} (htext : cstr c.pBuffer = some text)
    {sessionId len : ℕ} {dat : Str} :
    BackendConn.Ev.pushFront sessionId dat len ∈ BackendConn.relay c env ↔
      ((Json11.parse text env.errno).json.get (ascii "session_id")).uint64Value env.cast = sessionId ∧
        sessionId ≠ 0 ∧ ((Json11.parse text env.errno).json.get (ascii "site_id")).uint64Value env.cast ≠ 0 ∧
        dat = c.pBuffer.take (text.length + 1) ∧ len = text.length + 1 := by
  rw [BackendConn.relay, htext]
  dsimp only
  generalize ((Json11.parse text env.errno).json.get (ascii "session_id")).uint64Value env.cast = sid
  generalize ((Json11.parse text env.errno).json.get (ascii "site_id")).uint64Value env.cast = site
  split_ifs with hdrop
  · constructor
    · intro h
      simp at h
    · rintro ⟨rfl, hsid, hsite, -⟩
      exact absurd hdrop (not_or.2 ⟨hsid, hsite⟩)
  · rw [not_or] at hdrop
    constructor
    · intro h
      simp only [List.mem_cons, reduceCtorEq, BackendConn.Ev.pushFront.injEq, List.not_mem_nil, or_false,
        false_or] at h
      obtain ⟨rfl, rfl, rfl⟩ := h
      exact ⟨rfl, hdrop.1, hdrop.2, rfl, rfl⟩
    · rintro ⟨rfl, -, -, rfl, rfl⟩
      exact List.mem_cons_of_mem _ List.mem_cons_self

/-! ## Results -/

theorem pushFront_ok {s : FrontServer.St} (hone : OneEach s) {sessionId : ℕ} (hid : sessionId ≠ 2 ^ 64 - 1) (len : ℕ) :
    ∃ r, pushFront s sessionId len = .ok r := by
  unfold pushFront
  split_ifs with hfilter
  · exact ⟨none, rfl⟩
  · rw [not_or] at hfilter
    have hone' : ∀ e ∈ s.frontConns, ∀ e' ∈ s.frontConns, e.2 = sessionId → e'.2 = sessionId → e.1 = e'.1 := by
      intro e he e' he' heq heq'
      exact hone.sessions e he e' he' (heq ▸ hfilter.1) (heq.trans heq'.symm)
    rcases FrontServer.requestConnection_cases hone.keys ⟨hfilter.1, hid⟩ hone' with ⟨c, hr, -⟩ | ⟨hr, -⟩
    · exact ⟨_, hr⟩
    · exact ⟨_, hr⟩

theorem pushFront_minus_one (s : FrontServer.St) {len : ℕ} (hlen : len ≠ 0) :
    pushFront s (2 ^ 64 - 1) len = .error .sessionId := by
  rw [pushFront, if_neg (by simp [hlen]), FrontServer.requestConnection, if_neg (by norm_num), if_pos rfl]

/-- an empty text has no session id -/
theorem harmless_nil (env : BackendConn.Env) : Harmless env [] := by
  have hget : ((Json11.parse (cut []) env.errno).json.get (ascii "session_id")) = .null := by
    cases env.errno <;> rfl
  refine .inl ?_
  rw [hget]
  exact (by norm_num : (2 ^ 64 - 1 : ℕ) ≠ 0)

/-- **When a backend message trips no assertion.** -/
theorem answered_iff_harmless {s : FrontServer.St} (hone : OneEach s) {c : Connection} {data : Str}
    (hnul : (BackendConn.receive c data).pBuffer[data.length]? = some 0) (env : BackendConn.Env) :
    Answered s (BackendConn.readHandler (BackendConn.receive c data) env .success data.length).2 ↔
      Harmless env data := by
  have hrelay := @mem_relay _ env _ (cstr_receive hnul)
  constructor
  · intro h
    by_cases hne : data = []
    · rw [hne]
      exact harmless_nil env
    rw [Harmless, or_iff_not_imp_left, not_not, reads64_iff, reads64_iff]
    intro hsid
    by_contra hsite
    have hcall := hrelay.2 ⟨hsid, by norm_num, hsite, rfl, rfl⟩
    have hlen : data.length ≠ 0 := by rwa [Ne, List.length_eq_zero_iff]
    obtain ⟨r, hr⟩ := h _ _ _ (mem_readHandler.2 ⟨hlen, hcall⟩)
    rw [pushFront_minus_one s (Nat.succ_ne_zero _)] at hr
    cases hr
  · intro h sessionId dat len hcall
    obtain ⟨-, hcall⟩ := mem_readHandler.1 hcall
    obtain ⟨hsid, -, hsite, -⟩ := hrelay.1 hcall
    apply pushFront_ok hone
    rintro rfl
    rw [Harmless, reads64_iff, reads64_iff] at h
    exact h.elim (fun hno => hno hsid) hsite

/-- nobody is connected -/
theorem oneEach_init : OneEach (FrontServer.init FrontServer.mainConfig 0) where
  keys := List.nodup_nil
  sessions := by simp [FrontServer.init]

theorem answered_iff_harmless_message :
    Answered (FrontServer.init FrontServer.mainConfig 0)
        (BackendConn.readHandler (BackendConn.receive BackendConn.working BackendConn.message) BackendConn.someEnv
          .success BackendConn.message.length).2 ↔ Harmless BackendConn.someEnv BackendConn.message :=
  answered_iff_harmless oneEach_init (by decide +kernel) BackendConn.someEnv

/-- a message with the session id -1 -/
def minusOne : Str := ascii "\x7b\"session_id\":-1,\"site_id\":1\x7d"

/-- **The session id -1.** On a fresh buffer, with no connection registered, the message fails the assertion. -/
theorem minus_one_asserts :
    OneEach (FrontServer.init FrontServer.mainConfig 0) ∧
      (BackendConn.receive BackendConn.working minusOne).pBuffer[minusOne.length]? = some 0 ∧
      ¬ Answered (FrontServer.init FrontServer.mainConfig 0)
        (BackendConn.readHandler (BackendConn.receive BackendConn.working minusOne) BackendConn.someEnv .success
          minusOne.length).2 := by
  have hnul : (BackendConn.receive BackendConn.working minusOne).pBuffer[minusOne.length]? = some 0 := by decide +kernel
  refine ⟨oneEach_init, hnul, ?_⟩
  intro h
  have hread : ((Json11.parse (cut minusOne) false).json.get (ascii "session_id")).uint64Value (fun _ => 0) =
      2 ^ 64 - 1 ∧ ((Json11.parse (cut minusOne) false).json.get (ascii "site_id")).uint64Value (fun _ => 0) ≠ 0 := by
    decide +kernel
  have hrelay := @mem_relay _ BackendConn.someEnv _ (cstr_receive hnul)
  have hcall := hrelay.2 ⟨hread.1, by norm_num, hread.2, rfl, rfl⟩
  obtain ⟨r, hr⟩ := h _ _ _ (mem_readHandler.2 ⟨by decide, hcall⟩)
  rw [pushFront_minus_one _ (Nat.succ_ne_zero _)] at hr
  cases hr

end AirobotMsgd.Relay
