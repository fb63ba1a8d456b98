/-
The write side of a backend connection: `connection::fill_and_send`, `connection::do_write` and
`backend_conn::write_handler`, with any number of writes in flight.

State: the connection, the `async_write_some` operations that have not run yet, the bytes the backend has received, and
three ghosts: the concatenation of all messages, whether a message was overwritten in `p_write_` while a write was in
flight, and whether an operation ran on storage that a resize had moved away. Every operation takes any positive prefix
of its window, in any order; the bytes are those `p_write_` holds at that moment.

`Intact`: what the backend has received is a prefix of the messages, all of them once nothing is in flight, and no
message was overwritten or read from moved storage.

Results:
- `short_message_sends_residue`: one message of one byte, and a completion of two: the byte behind the message, left in
  `p_write_`, is sent.
- `intact_iff_exact`: in every run of a connection that never errs, the wire is intact in all states if and only if
  every message is handed over while nothing is in flight and every completion reports exactly the length of the
  message. The window `do_write` gives is the whole buffer, and `write_handler` continues nothing.
-/
import AirobotMsgd.Core.Runs
import AirobotMsgd.Wire.Connection

namespace AirobotMsgd.BackendWire

open AirobotMsgd.Bytes AirobotMsgd.Runs

/-! ## Model -/

/-- `backend_conn::write_handler`; closing the socket is left to the state word -/
def writeHandler (c : Connection) (ec : Ec) (bytesTransferred : ℕ) : Connection :=
  if ec = .success ∧ bytesTransferred ≠ 0 then c
  else if ec ≠ .operationAborted then { c with stats := .connError }
  else c

/-- an `async_write_some` in flight: its window, and which storage of `p_write_` it points into -/
structure Write where
  win : Window
  storage : ℕ
deriving DecidableEq, Repr

structure St where
  conn : Connection
  /-- how often `p_write_` has moved -/
  storage : ℕ
  writes : List Write
  received : Str
  messages : Str
  overwritten : Bool
  moved : Bool
  /-- `assert(data && len)` failed -/
  aborted : Bool
deriving DecidableEq, Repr

inductive Op where
  | fillAndSend (now : ℕ) (data : Str)
  /-- the i-th write takes n bytes and its handler runs -/
  | complete (i n : ℕ)
  /-- the i-th write fails and its handler runs -/
  | fail (i : ℕ) (ec : Ec)
deriving DecidableEq, Repr

/-- a fresh connection, after `start` -/
def init (now : ℕ) : St :=
  ⟨{ Connection.create now with stats := .connWorking }, 0, [], [], [], false, false, false⟩

def addWrite (s : St) : Option Window → St
  | none => s
  | some w => { s with writes := s.writes ++ [⟨w, s.storage⟩] }

/-- the bytes a write takes from `p_write_` -/
def taken (s : St) (w : Write) (n : ℕ) : Str := ((s.conn.pWrite.drop w.win.off).take w.win.len).take n

def step (s : St) : Op → St
  | .fillAndSend now data =>
    if data = [] then { s with aborted := true }
    else
      let (c, w) := s.conn.fillAndSend now data
      addWrite { s with
        conn := c
        storage := if s.conn.grows data.length then s.storage + 1 else s.storage
        messages := s.messages ++ data
        overwritten := s.overwritten || !s.writes.isEmpty } w
  | .complete i n =>
    match s.writes[i]? with
    | none => s
    | some w =>
      if 0 < n ∧ n ≤ w.win.len then
        { s with
          conn := writeHandler s.conn .success n
          writes := s.writes.eraseIdx i
          received := s.received ++ taken s w n
          moved := s.moved || w.storage != s.storage }
      else s
  | .fail i ec =>
    match s.writes[i]? with
    | none => s
    | some _ =>
      if ec = .success then s
      else { s with conn := writeHandler s.conn ec 0, writes := s.writes.eraseIdx i }

/-- a run of a connection that never errs, with messages as `push_backend` makes them (at least their '\0') -/
def legal : Op → Prop
  | .fillAndSend _ data => data ≠ []
  | .complete _ _ => True
  | .fail _ _ => False

instance (o : Op) : Decidable (legal o) := by
  cases o <;> unfold legal <;> infer_instance

structure Intact (s : St) : Prop where
  isPrefix : s.received <+: s.messages
  whole : s.writes = [] → s.received = s.messages
  notOverwritten : s.overwritten = false
  notMoved : s.moved = false
  notAborted : s.aborted = false

/-- one message is in flight at a time, and its completion reports its length -/
def Exact (s : St) : Op → Prop
  | .fillAndSend _ _ => s.writes = []
  | .complete i n => ∀ w, s.writes[i]? = some w → 0 < n → n ≤ w.win.len → n = s.conn.wSize
  | .fail _ _ => True

/-! ## Invariant of the exact runs -/

/-- at most one message m is in flight, it stands at the start of `p_write_`, and everything before it was received -/
structure Inv (s : St) : Prop where
  working : s.conn.stats = .connWorking
  intact : Intact s
  inFlight : s.writes = [] ∨ ∃ m, m ≠ [] ∧ s.writes = [⟨⟨0, s.conn.pWrite.length⟩, s.storage⟩] ∧
    s.messages = s.received ++ m ∧ s.conn.wSize = m.length ∧ m <+: s.conn.pWrite

theorem inv_init (now : ℕ) : Inv (init now) :=
  ⟨rfl, ⟨List.prefix_refl _, fun _ => rfl, rfl, rfl, rfl⟩, Or.inl rfl⟩

/-- from an invariant state, handing over a message while nothing is in flight puts it, and it alone, in flight -/
theorem step_fillAndSend {s : St} (h : Inv s) (hw : s.writes = []) (now : ℕ) {data : Str} (hd : data ≠ []) :
    Inv (step s (.fillAndSend now data)) := by
  have hrm := h.intact.whole hw
  have hst : (s.conn.fill data).stats = .connWorking := by simp [h.working]
  have hpre : data <+: (s.conn.fill data).pWrite := by
    rw [List.prefix_iff_eq_take, Connection.fill_pWrite]
  have hstep : step s (.fillAndSend now data) = { s with
      conn := { s.conn.fill data with touchTime := now }
      storage := if s.conn.grows data.length then s.storage + 1 else s.storage
      writes := [⟨⟨0, (s.conn.fill data).pWrite.length⟩,
        if s.conn.grows data.length then s.storage + 1 else s.storage⟩]
      messages := s.messages ++ data } := by
    simp only [step, if_neg hd, Connection.fillAndSend, Connection.doWrite_working hst, addWrite, hw]
    simp
  rw [hstep]
  refine ⟨hst, ⟨?_, by simp, h.intact.notOverwritten, h.intact.notMoved, h.intact.notAborted⟩, Or.inr ?_⟩
  · simp only [hrm]; exact List.prefix_append _ _
  · exact ⟨data, hd, rfl, by simp [hrm], by simp, hpre⟩

/-- the only write in flight takes n bytes of its buffer -/
theorem step_complete {s : St} (h : Inv s) (hwr : s.writes = [⟨⟨0, s.conn.pWrite.length⟩, s.storage⟩])
    {i n : ℕ} {w : Write} (hi : s.writes[i]? = some w) (hn : 0 < n ∧ n ≤ w.win.len) :
    (step s (.complete i n)) =
      { s with writes := [], received := s.received ++ s.conn.pWrite.take n } ∧ n ≤ s.conn.pWrite.length := by
  obtain ⟨rfl, rfl⟩ : i = 0 ∧ w = ⟨⟨0, s.conn.pWrite.length⟩, s.storage⟩ := by
    rw [hwr] at hi
    cases i with
    | zero => exact ⟨rfl, by simpa using hi.symm⟩
    | succ i => simp at hi
  refine ⟨?_, hn.2⟩
  have hne : n ≠ 0 := Nat.pos_iff_ne_zero.1 hn.1
  simp [step, hn.1, hn.2, writeHandler, hne, taken, hwr, h.intact.notMoved]

theorem step_inv {s : St} {o : Op} (ho : legal o) (hx : Exact s o) (h : Inv s) : Inv (step s o) := by
  cases o with
  | fillAndSend now data => exact step_fillAndSend h hx now ho
  | complete i n =>
    cases hi : s.writes[i]? with
    | none => simpa [step, hi] using h
    | some w =>
      by_cases hn : 0 < n ∧ n ≤ w.win.len
      · have hlen := hx w hi hn.1 hn.2
        rcases h.inFlight with hw | ⟨m, -, hwr, hm, hsz, hp⟩
        · rw [hw] at hi; simp at hi
        · rw [(step_complete h hwr hi hn).1]
          have htake : s.conn.pWrite.take n = m := by
            rw [hlen, hsz]; exact (List.prefix_iff_eq_take.1 hp).symm
          refine ⟨h.working, ⟨?_, fun _ => ?_, h.intact.notOverwritten, h.intact.notMoved, h.intact.notAborted⟩,
            Or.inl rfl⟩
          · simp only [htake, hm]; exact List.prefix_refl _
          · simp only [htake, hm]
      · simpa [step, hi, hn] using h
  | fail i ec => exact absurd ho id

/-- a legal step from an invariant state keeps the wire intact only if it is exact -/
theorem exact_of_intact {s : St} {o : Op} (ho : legal o) (h : Inv s) (hg : Intact (step s o)) : Exact s o := by
  cases o with
  | fillAndSend now data =>
    have hov := hg.notOverwritten
    have hst : (s.conn.fill data).stats = .connWorking := by simp [h.working]
    have hd : data ≠ [] := ho
    simp only [step, if_neg hd, Connection.fillAndSend, Connection.doWrite_working hst, addWrite,
      Bool.or_eq_false_iff, Bool.not_eq_false', List.isEmpty_iff] at hov
    exact hov.2
  | complete i n =>
    intro w hi hn0 hn
    rcases h.inFlight with hw | ⟨m, -, hwr, hm, hsz, hp⟩
    · rw [hw] at hi; simp at hi
    · obtain ⟨hstep, hle⟩ := step_complete h hwr hi ⟨hn0, hn⟩
      have hall := hg.whole (by rw [hstep])
      rw [hstep] at hall
      simp only [hm] at hall
      have := congrArg List.length (List.append_cancel_left hall)
      rw [List.length_take, Nat.min_eq_left hle] at this
      rw [hsz, this]
  | fail i ec => exact absurd ho id

/-! ## Results -/

/-- **Exactly when the wire is intact.** In every run of a connection that never errs, what the backend receives is
intact in all states if and only if each message is handed over while no write is in flight and each completion reports
exactly the length of the message in flight. -/
theorem intact_iff_exact (now : ℕ) (ops : List Op) (hops : ∀ o ∈ ops, legal o) :
    Always step Intact (init now) ops ↔ Meets step Exact (init now) ops :=
  always_iff_meets (L := fun _ => legal) (fun _ => Inv.intact) (fun _ _ => step_inv) (fun _ _ => exact_of_intact)
    (meets_of_forall fun o ho _ => hops o ho) (inv_init now)

/-- two messages, each handed over after the first was taken whole -/
theorem intact_iff_exact_two :
    Always step Intact (init 0) [.fillAndSend 0 [97, 0], .complete 0 2, .fillAndSend 1 [98, 99, 0], .complete 0 3] ↔
      Meets step Exact (init 0) [.fillAndSend 0 [97, 0], .complete 0 2, .fillAndSend 1 [98, 99, 0], .complete 0 3] :=
  intact_iff_exact 0 _ (by decide)

/-- a message of one byte, and a completion of two -/
def shortMessage : List Op := [.fillAndSend 0 [97], .complete 0 2]

/-- **A short message drags its buffer along.** The window is all of `p_write_`: two bytes are taken, the message and
the NUL behind it. -/
theorem short_message_sends_residue :
    (∀ o ∈ shortMessage, legal o) ∧ (run step (init 0) shortMessage).received = [97, 0] ∧
      (run step (init 0) shortMessage).messages = [97] ∧ ¬ Always step Intact (init 0) shortMessage := by
  have hr : (run step (init 0) shortMessage).received = [97, 0] := by decide +kernel
  have hm : (run step (init 0) shortMessage).messages = [97] := by decide +kernel
  refine ⟨by decide, hr, hm, ?_⟩
  intro h
  have := h.last.isPrefix
  rw [hr, hm] at this
  exact absurd this (by decide)

end AirobotMsgd.BackendWire
