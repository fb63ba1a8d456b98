/-
The read side of a backend connection: `connection::do_read`, `backend_conn::read_handler`, and what `push_front` puts
into a front connection's `p_write_`.

The buffer has 16 KiB, is reused and never cleared. A completion delivers its bytes at the start of it; the handler
ignores their number and reads the buffer as a C string, twice. `Ev.scan n` says that the first n bytes were looked at,
`Ev.overrun` that the buffer holds no NUL, so that the scan runs past its end.

`SameJudgement`: whatever was read before, a message leads to the same `push_front` call or to none, and no byte beyond
its own is looked at.

Results:
- `sameJudgement_iff`: this holds of a message exactly when the message holds a NUL.
- `residue_is_judged`: a message without one, after two histories.
- `overloads_agree_iff`: the two encoders agree and are framed exactly when the first NUL of the data stands at the
  length given; and since a message is relayed with `strlen + 1`, the reply that is put into `p_write_` never is.
-/
import AirobotMsgd.Wire.Connection
import AirobotMsgd.Json.Json11

namespace AirobotMsgd.BackendConn

open AirobotMsgd.Bytes AirobotMsgd.HttpText AirobotMsgd.HttpProto AirobotMsgd.Reply AirobotMsgd.Json11

/-- what the handlers of a backend connection do -/
inductive Ev where
  | scan (n : ℕ)
  | overrun
  /-- `push_front(session_id, dat, len)`; `dat` is the `len` bytes at the pointer -/
  | pushFront (sessionId : ℕ) (dat : Str) (len : ℕ)
  | close
  | asyncReadSome (win : Window)
deriving DecidableEq, Repr

/-- what `read_handler` reads from outside -/
structure Env where
  now : ℕ
  errno : Bool
  cast : Double.Value → ℕ

def doRead (c : Connection) (now : ℕ) : Connection × List Ev :=
  if c.stats ≠ .connWorking then (c, [])
  else ({ c with touchTime := now }, [.asyncReadSome ⟨0, c.pBuffer.length⟩])

/-- the message in the buffer -/
def relay (c : Connection) (env : Env) : List Ev :=
  match cstr c.pBuffer with
  | none => [.overrun]
  | some text =>
    let parsed := Json11.parse text env.errno
    let sessionId := (parsed.json.get (ascii "session_id")).uint64Value env.cast
    let siteId := (parsed.json.get (ascii "site_id")).uint64Value env.cast
    if sessionId = 0 ∨ siteId = 0 then [.scan (text.length + 1)]
    else [.scan (text.length + 1), .pushFront sessionId (c.pBuffer.take (text.length + 1)) (text.length + 1)]

def readHandler (c : Connection) (env : Env) (ec : Ec) (bytesTransferred : ℕ) : Connection × List Ev :=
  if ec = .success ∧ bytesTransferred ≠ 0 then
    ((doRead c env.now).1, relay c env ++ (doRead c env.now).2)
  else if ec ≠ .operationAborted then
    let c := { c with stats := .connError }
    ((doRead c env.now).1, .close :: (doRead c env.now).2)
  else doRead c env.now

/-- `push_front`, on the front connection the session belongs to, up to its `do_write` -/
def pushFront (front : Connection) (date : Str) (sessionId : ℕ) (dat : Str) (len : ℕ) : Option Connection :=
  if sessionId = 0 ∨ len = 0 then some front else front.fillForHttpData date dat len Status.ok

/-! ## A message is judged with what is behind it -/

/-- the bytes of a read arrive at the start of the buffer -/
def receive (c : Connection) (data : Str) : Connection := { c with pBuffer := overwrite c.pBuffer 0 data }

/-- a completion can deliver these bytes -/
def Deliverable (data : Str) : Prop := 1 ≤ data.length ∧ data.length ≤ 16 * 1024

instance (data : Str) : Decidable (Deliverable data) := inferInstanceAs (Decidable (_ ∧ _))

/-- the connection after a history of earlier reads -/
def after (c : Connection) (history : List Str) : Connection := history.foldl receive c

/-- no byte beyond the first k is looked at -/
def Within (k : ℕ) : Ev → Prop
  | .scan n => n ≤ k
  | .overrun => False
  | _ => True

instance (k : ℕ) (e : Ev) : Decidable (Within k e) := by
  cases e <;> unfold Within <;> infer_instance

/-- whatever was read before, the message is judged alike, on its own bytes -/
def SameJudgement (c : Connection) (env : Env) (data : Str) : Prop :=
  ∀ h h' : List Str, (∀ d ∈ h, Deliverable d) → (∀ d ∈ h', Deliverable d) →
    (readHandler (receive (after c h) data) env .success data.length).2 =
      (readHandler (receive (after c h') data) env .success data.length).2 ∧
    ∀ e ∈ (readHandler (receive (after c h) data) env .success data.length).2, Within data.length e

theorem after_stats (c : Connection) (h : List Str) : (after c h).stats = c.stats := by
  induction h generalizing c with
  | nil => rfl
  | cons d h ih => exact ih (receive c d)

theorem after_length {c : Connection} (hc : c.pBuffer.length = 16 * 1024) {h : List Str}
    (hh : ∀ d ∈ h, Deliverable d) : (after c h).pBuffer.length = 16 * 1024 := by
  induction h generalizing c with
  | nil => exact hc
  | cons d h ih =>
    have hd := (hh d List.mem_cons_self).2
    refine ih (c := receive c d) ?_ fun d' hd' => hh d' (List.mem_cons_of_mem d hd')
    rw [receive, length_overwrite (by omega), hc]

/-- the buffer begins with the bytes just read -/
theorem receive_pBuffer (c : Connection) (data : Str) :
    (receive c data).pBuffer = data ++ c.pBuffer.drop data.length := by
  simp [receive, overwrite]

/-- a message with a NUL is a C string of its own -/
theorem relay_receive {data text : Str} (h : cstr data = some text) (c : Connection) (env : Env) :
    relay (receive c data) env = relay { c with pBuffer := data } env := by
  obtain ⟨h0, t, rfl⟩ := cstr_eq_some.1 h
  have htake : ((text ++ 0 :: t) ++ c.pBuffer.drop (text ++ 0 :: t).length).take (text.length + 1) =
      (text ++ 0 :: t).take (text.length + 1) :=
    List.take_append_of_le_length (by simp)
  simp only [relay, receive_pBuffer, cstr_append h, h, htake]

/-- on a fresh buffer the NUL behind the message ends it -/
theorem cstr_receive {c : Connection} (hc : c.pBuffer = List.replicate (16 * 1024) 0) {data : Str} (h0 : 0 ∉ data)
    (hlt : data.length < 16 * 1024) : cstr (receive c data).pBuffer = some data := by
  have hdrop : c.pBuffer.drop data.length = 0 :: List.replicate (16 * 1024 - data.length - 1) 0 := by
    rw [hc, List.drop_replicate, ← List.replicate_succ]
    congr 1
    omega
  rw [receive_pBuffer, hdrop]
  exact cstr_terminated h0 _

/-- the part of an earlier message that is longer is read as well -/
theorem cstr_receive_residue {c : Connection} (hc : c.pBuffer = List.replicate (16 * 1024) 0) {data more : Str}
    (h0 : 0 ∉ data ++ more) (hlt : (data ++ more).length < 16 * 1024) :
    cstr (receive (receive c (data ++ more)) data).pBuffer = some (data ++ more) := by
  have hsame : (receive (receive c (data ++ more)) data).pBuffer = (receive c (data ++ more)).pBuffer := by
    rw [receive_pBuffer, receive_pBuffer, List.append_assoc, List.drop_left]
  rw [hsame]
  exact cstr_receive hc h0 hlt

theorem readHandler_receive (c : Connection) (env : Env) {data : Str} (hd : data ≠ []) :
    (readHandler (receive c data) env .success data.length).2 =
      relay (receive c data) env ++ (doRead (receive c data) env.now).2 := by
  simp [readHandler, hd]

/-- **A message is judged on its own bytes exactly when it holds a NUL.** -/
theorem sameJudgement_iff {c : Connection} (hc : c.pBuffer = List.replicate (16 * 1024) 0) (env : Env) {data : Str}
    (hd : Deliverable data) : SameJudgement c env data ↔ 0 ∈ data := by
  have hlen : c.pBuffer.length = 16 * 1024 := by rw [hc, List.length_replicate]
  have hne : data ≠ [] := by
    rw [← List.length_pos_iff]; exact hd.1
  constructor
  · intro h
    by_contra h0
    -- the fresh buffer: its first NUL is the one behind the message, if there is room for one
    obtain ⟨-, hwithin⟩ := h [] [] (by simp) (by simp)
    rw [readHandler_receive _ _ hne] at hwithin
    rcases Nat.lt_or_ge data.length (16 * 1024) with hlt | hge
    · have hcstr := cstr_receive hc h0 hlt
      have hscan : Ev.scan (data.length + 1) ∈ relay (receive c data) env := by
        simp only [relay, hcstr]
        split_ifs <;> simp
      have := hwithin _ (List.mem_append_left _ hscan)
      simp only [Within] at this
      omega
    · have hdrop : c.pBuffer.drop data.length = [] := List.drop_eq_nil_of_le (by omega)
      have hcstr : cstr (receive c data).pBuffer = none := by
        rw [receive_pBuffer, hdrop, List.append_nil]; exact cstr_eq_none.2 h0
      have hover : Ev.overrun ∈ relay (receive c data) env := by simp [relay, hcstr]
      exact hwithin _ (List.mem_append_left _ hover)
  · intro h0 h h' hh hh'
    obtain ⟨text, htext⟩ : ∃ text, cstr data = some text :=
      Option.ne_none_iff_exists'.1 fun hn => cstr_eq_none.1 hn h0
    have hrelay : ∀ g : List Str, relay (receive (after c g) data) env = relay { c with pBuffer := data } env :=
      fun g => by rw [relay_receive htext]; rfl
    have hread : ∀ g : List Str, (∀ d ∈ g, Deliverable d) →
        (doRead (receive (after c g) data) env.now).2 = (doRead c env.now).2 := by
      intro g hg
      have hl := after_length hlen hg
      have hl' : (receive (after c g) data).pBuffer.length = c.pBuffer.length := by
        rw [receive, length_overwrite (by have := hd.2; omega), hl, hlen]
      simp only [doRead, hl', show (receive (after c g) data).stats = c.stats from after_stats c g]
      split_ifs <;> rfl
    rw [readHandler_receive _ _ hne, readHandler_receive _ _ hne, hrelay, hrelay, hread h hh, hread h' hh']
    refine ⟨rfl, ?_⟩
    intro e he
    obtain ⟨-, t, rfl⟩ := cstr_eq_some.1 htext
    rcases List.mem_append.1 he with he | he
    · simp only [relay, htext] at he
      split_ifs at he <;> simp only [List.mem_cons, List.not_mem_nil, or_false] at he
      · subst he; simp [Within]
      · rcases he with rfl | rfl <;> simp [Within]
    · unfold doRead at he
      split_ifs at he <;> simp at he
      subst he; trivial

def someEnv : Env := ⟨0, false, fun _ => 0⟩

def working : Connection := { Connection.create 0 with stats := .connWorking }

theorem sameJudgement_iff_terminated :
    SameJudgement working someEnv [49, 0] ↔ (0 : UInt8) ∈ ([49, 0] : Str) :=
  sameJudgement_iff rfl someEnv (by decide)

/-- a message as a backend sends it, without its NUL -/
def message : Str := ascii "\x7b\"session_id\":7,\"site_id\":1\x7d"

theorem cstr_message : cstr (receive working message).pBuffer = some message :=
  cstr_receive (c := working) rfl (by decide) (by decide)

/-- on a fresh buffer the message is relayed -/
theorem message_relayed : Ev.pushFront 7 ((receive working message).pBuffer.take 29) 29 ∈
    (readHandler (receive working message) someEnv .success message.length).2 := by
  have hid : ((Json11.parse message false).json.get (ascii "session_id")).uint64Value (fun _ => 0) = 7 ∧
      ((Json11.parse message false).json.get (ascii "site_id")).uint64Value (fun _ => 0) = 1 := by decide +kernel
  rw [readHandler_receive _ _ (by decide)]
  refine List.mem_append_left _ ?_
  simp only [relay, cstr_message, someEnv, hid]
  simp only [OfNat.ofNat_ne_zero, one_ne_zero, or_self, if_false]
  exact List.mem_cons_of_mem _ (List.mem_singleton.2 rfl)

/-- **The bytes of an earlier message decide**: on a fresh buffer the message is relayed, after one that was a byte
longer it is not. -/
theorem residue_is_judged :
    Deliverable message ∧ Deliverable (message ++ [120]) ∧
      Ev.pushFront 7 ((receive working message).pBuffer.take 29) 29 ∈
        (readHandler (receive (after working []) message) someEnv .success message.length).2 ∧
      relay (receive (after working [message ++ [120]]) message) someEnv = [.scan 30] ∧
      ¬ SameJudgement working someEnv message := by
  have h2 : cstr (receive (receive working (message ++ [120])) message).pBuffer = some (message ++ [120]) :=
    cstr_receive_residue (c := working) rfl (by decide) (by decide)
  have hbad : ((Json11.parse (message ++ [120]) false).json.get (ascii "session_id")).uint64Value (fun _ => 0) = 0 := by
    decide +kernel
  refine ⟨by decide, by decide, message_relayed, ?_, fun h => ?_⟩
  · simp only [relay, after, List.foldl_cons, List.foldl_nil, h2, someEnv, hbad, true_or, if_true]
    rfl
  · exact absurd ((sameJudgement_iff (c := working) rfl someEnv (by decide)).1 h) (by decide)

/-! ## What is relayed -/

/-- what `push_front` is given is a C string and its NUL -/
theorem pushFront_mem {c : Connection} {env : Env} {ec : Ec} {n sessionId len : ℕ} {dat : Str}
    (h : Ev.pushFront sessionId dat len ∈ (readHandler c env ec n).2) :
    sessionId ≠ 0 ∧ ∃ text, cstr dat = some text ∧ len = text.length + 1 := by
  have hdo : ∀ c' : Connection, Ev.pushFront sessionId dat len ∉ (doRead c' env.now).2 := by
    intro c'
    unfold doRead
    split_ifs <;> simp
  unfold readHandler at h
  split_ifs at h
  · rcases List.mem_append.1 h with h | h
    · unfold relay at h
      cases hm : cstr c.pBuffer with
      | none => simp [hm] at h
      | some text =>
        obtain ⟨h0, t, heq⟩ := cstr_eq_some.1 hm
        simp only [hm] at h
        split_ifs at h with hid
        · simp at h
        · simp only [List.mem_cons, reduceCtorEq, Ev.pushFront.injEq, List.not_mem_nil, or_false, false_or] at h
          obtain ⟨rfl, rfl, rfl⟩ := h
          refine ⟨fun h => hid (.inl h), text, ?_, rfl⟩
          rw [heq, show text.length + 1 = (text ++ [0]).length by simp, show text ++ 0 :: t = text ++ [0] ++ t by simp,
            List.take_left]
          exact cstr_terminated h0 []
    · exact absurd h (hdo _)
  · exact absurd (by simpa using h) (hdo _)
  · exact absurd h (hdo _)

/-- **A relayed reply is never framed**: it announces one byte more than its body has -/
theorem relayed_not_framed {c : Connection} {env : Env} {ec : Ec} {n sessionId len : ℕ} {dat : Str}
    (h : Ev.pushFront sessionId dat len ∈ (readHandler c env ec n).2) (front : Connection) {date : Str}
    (hd : 13 ∉ date) :
    ∃ front', pushFront front date sessionId dat len = some front' ∧ ¬ Framed (front'.pWrite.take front'.wSize) := by
  obtain ⟨hid, text, hm, rfl⟩ := pushFront_mem h
  have henc := replyGenerateData_eq date dat (text.length + 1) Status.ok
  rw [hm, Option.map_some] at henc
  refine ⟨_, by rw [pushFront, if_neg (by simp [hid]), Connection.fillForHttpData, henc, Option.map_some], ?_⟩
  rw [Connection.fillEnc_wSize, Connection.fillEnc_pWrite,
    framed_iff (statuses_lines Status.ok (by simp [Status.all])) hd]
  omega

/-- **Exactly when the overloads agree.** On data of at least `len` bytes the two encoders give the same reply, and both
replies are framed, if and only if the first NUL of the data stands at index `len`. What `read_handler` relays never
meets this: no reply it leads to is framed. -/
theorem overloads_agree_iff {date stat : Str} (hs : StatusLine stat) (hd : 13 ∉ date) :
    (∀ (mem : Str) (len : ℕ), 1 ≤ len → len ≤ mem.length →
      ((Agree date mem len stat ∧ Framed (replyGenerate date (mem.take len) stat) ∧
        ∃ r, replyGenerateData date mem len stat = some r ∧ Framed r) ↔ strlen mem = some len)) ∧
    ∀ (c : Connection) (env : Env) (ec : Ec) (n sessionId len : ℕ) (dat : Str) (front : Connection),
      Ev.pushFront sessionId dat len ∈ (readHandler c env ec n).2 →
        ∃ front', pushFront front date sessionId dat len = some front' ∧
          ¬ Framed (front'.pWrite.take front'.wSize) := by
  refine ⟨?_, fun c env ec n sessionId len dat front h => relayed_not_framed h front hd⟩
  intro mem len _ hlen
  rw [agree_iff hlen, replyGenerateData_framed_iff hs hd]
  exact ⟨fun h => h.1, fun h => ⟨h, replyGenerate_framed hs hd _, h⟩⟩

def someDate : Str := ascii "2024-Jan-01 00:00:00"

theorem overloads_agree_iff_some :
    ((Agree someDate [104, 105, 0] 2 Status.ok ∧ Framed (replyGenerate someDate (List.take 2 [104, 105, 0]) Status.ok) ∧
        ∃ r, replyGenerateData someDate [104, 105, 0] 2 Status.ok = some r ∧ Framed r) ↔
      strlen [104, 105, 0] = some 2) ∧
    ∃ front', pushFront (Connection.create 0) someDate 7 ((receive working message).pBuffer.take 29) 29 = some front' ∧
      ¬ Framed (front'.pWrite.take front'.wSize) :=
  have h := overloads_agree_iff (statuses_lines Status.ok (by simp [Status.all])) (by decide : 13 ∉ someDate)
  ⟨h.1 [104, 105, 0] 2 (by decide) (by decide), h.2 _ _ _ _ _ _ _ (Connection.create 0) message_relayed⟩

/-- **With its NUL counted a message is announced one byte too long**: the length `read_handler` gives is `strlen + 1`. -/
theorem counted_nul_disagrees :
    ¬ Agree someDate [104, 105, 0] 3 Status.ok ∧
      ∃ front', pushFront (Connection.create 0) someDate 7 ((receive working message).pBuffer.take 29) 29 = some front' ∧
        ¬ Framed (front'.pWrite.take front'.wSize) :=
  ⟨fun h => absurd ((agree_iff (by decide) _ _).1 h) (by decide), relayed_not_framed message_relayed _ (by decide)⟩

end AirobotMsgd.BackendConn
