/-
The write side of a front connection: `front_conn::do_write`, `front_conn::write_handler` and the two parties that fill
the one buffer they share. Handlers of the connection run on its strand, one at a time; `backend_server::push_front`
runs on the backend thread, outside the strand, and calls `fill_for_http` and `do_write` as two steps.

`Ev` lists what the functions of a front connection do, in order: the assertions they test, the sizes they compute, the
operations they start. It is shared with the read side (`Front/FrontConn.lean`).

An `async_write` is a chain of partial writes of its window (`xfer`), read from `p_write_` as they run; its handler runs
when the whole window is transferred. Ghosts: the concatenation of all encoded replies in the order of the fills,
whether a reply was filled in while an earlier one was still to be sent, and whether a write ran on storage that a
resize had moved away.

`Intact`: the client has received a prefix of the replies, all of them when nothing is left to send, no buffer was
refilled too early and no assertion failed.

Results:
- `intact_iff_alone`: in every run of a connection that never errs, the wire is intact in all states if and only if
  every fill finds no write in flight and no other reply waiting for its `do_write`.
- `pipelined_reply_corrupts`: the next request is read right after `do_write`; its reply overwrites the first one.
-/
import AirobotMsgd.Core.Runs
import AirobotMsgd.Wire.Connection

namespace AirobotMsgd

open AirobotMsgd.Bytes

/-- what a function of a front connection does, in order -/
inductive Ev where
  /-- an `assert` with this value -/
  | assertion (holds : Bool)
  /-- `a + b` in `size_t` -/
  | add (a b : ℕ)
  /-- `a - b` in `size_t` -/
  | sub (a b : ℕ)
  /-- `p_buffer_->resize(n)` -/
  | resize (n : ℕ)
  /-- n bytes at the start of a `p_buffer_` of this size are read or written -/
  | copy (n size : ℕ)
  /-- an index out of range: what follows is undefined -/
  | outOfRange
  | fillForHttp (content status : Str)
  | asyncReadUntil
  /-- `async_read` into a window of a `p_buffer_` of this size -/
  | asyncRead (win : Window) (size : ℕ)
  | asyncWrite (win : Window)
  | pushBackend (siteId : ℕ) (dat : Str) (len : ℕ)
  /-- `read_body_handler` is past its length check, with these `r_size_`, `p_buffer_`, `request_` and header options -/
  | bodyComplete (rSize : ℕ) (buffer request : Str) (headerOpts : List (Str × Str))
  | notifyConnError
deriving DecidableEq, Repr

namespace FrontConn

/-- `front_conn::do_write`, with its two assertions -/
def doWrite (c : Connection) (now : ℕ) : Connection × List Ev :=
  if c.stats ≠ .connWorking then (c, [])
  else
    let c := { c with touchTime := now }
    if c.wSize ≠ 0 ∧ c.wPos < c.wSize then (c, [.assertion true, .asyncWrite ⟨c.wPos, c.wSize - c.wPos⟩])
    else (c, [.assertion false])

/-- `front_conn::notify_conn_error`, the connection's part -/
def notifyConnError (c : Connection) : Connection × List Ev :=
  ({ c with rSize := 0, wSize := 0, stats := .connError }, [.notifyConnError])

/-- `front_conn::write_handler` -/
def writeHandler (c : Connection) (now : ℕ) (ec : Ec) (bytesTransferred : ℕ) : Connection × List Ev :=
  if ec = .success ∧ bytesTransferred ≠ 0 then
    let c := { c with wPos := c.wPos + bytesTransferred }
    if c.wPos < c.wSize then doWrite c now
    else ({ c with wPos := 0, wSize := 0 }, [])
  else if ec ≠ .operationAborted then notifyConnError c
  else (c, [])

theorem doWrite_working {c : Connection} (h : c.stats = .connWorking) (hs : c.wSize ≠ 0) (hp : c.wPos < c.wSize)
    (now : ℕ) :
    doWrite c now = ({ c with touchTime := now }, [.assertion true, .asyncWrite ⟨c.wPos, c.wSize - c.wPos⟩]) := by
  simp [doWrite, h, hs, hp]

end FrontConn

namespace FrontWire

open AirobotMsgd.Runs AirobotMsgd.Reply AirobotMsgd.HttpProto

/-! ## Model -/

/-- an `async_write` in flight, and how much of its window is transferred -/
structure Write where
  win : Window
  storage : ℕ
  done : ℕ
deriving DecidableEq, Repr

/-- the two parties that fill the buffer -/
inductive Party where
  | strand
  | backend
deriving DecidableEq, Repr

structure St where
  conn : Connection
  storage : ℕ
  writes : List Write
  /-- who has filled and not yet called `do_write` -/
  strand : Bool
  backend : Bool
  received : Str
  replies : Str
  refilled : Bool
  moved : Bool
  aborted : Bool
deriving DecidableEq, Repr

inductive Op where
  /-- a read handler on the strand calls `fill_for_http(str, status)` -/
  | handlerFill (date str status : Str)
  /-- `push_front` calls `fill_for_http(dat, len, ok)` -/
  | pushFill (date mem : Str) (len : ℕ)
  | doWrite (p : Party) (now : ℕ)
  /-- n more bytes of the i-th write are transferred -/
  | xfer (i n : ℕ)
  /-- the handler of the i-th write runs, its window transferred -/
  | complete (i now : ℕ)
  /-- the i-th write fails and its handler runs -/
  | fail (i now : ℕ) (ec : Ec)
deriving DecidableEq, Repr

def init (now : ℕ) : St :=
  ⟨{ Connection.create now with stats := .connWorking }, 0, [], false, false, [], [], false, false, false⟩

/-- some reply is not completely sent -/
def pending (s : St) : Bool := !s.writes.isEmpty || s.strand || s.backend

def fillBy (s : St) (p : Party) (enc : Str) : St :=
  { s with
    conn := s.conn.fillEnc enc
    storage := if s.conn.grows (enc.length + 1) then s.storage + 1 else s.storage
    strand := s.strand || p = .strand
    backend := s.backend || p = .backend
    replies := s.replies ++ enc
    refilled := s.refilled || pending s }

def perform (s : St) : List Ev → St
  | [] => s
  | .assertion b :: evs => if b then perform s evs else { s with aborted := true }
  | .asyncWrite w :: evs => perform { s with writes := s.writes ++ [⟨w, s.storage, 0⟩] } evs
  | _ :: evs => perform s evs

def flag (s : St) : Party → Bool
  | .strand => s.strand
  | .backend => s.backend

def clear (s : St) : Party → St
  | .strand => { s with strand := false }
  | .backend => { s with backend := false }

def step (s : St) (o : Op) : St :=
  if s.aborted then s else
  match o with
  | .handlerFill date str status =>
    if s.strand then s else fillBy s .strand (replyGenerate date str status)
  | .pushFill date mem len =>
    if s.backend ∨ len = 0 then s
    else match replyGenerateData date mem len Status.ok with
      | none => s
      | some enc => fillBy s .backend enc
  | .doWrite p now =>
    if flag s p then
      let (c, evs) := FrontConn.doWrite s.conn now
      perform (clear { s with conn := c } p) evs
    else s
  | .xfer i n =>
    match s.writes[i]? with
    | none => s
    | some w =>
      if 0 < n ∧ w.done + n ≤ w.win.len then
        { s with
          writes := s.writes.set i { w with done := w.done + n }
          received := s.received ++ (s.conn.pWrite.drop (w.win.off + w.done)).take n
          moved := s.moved || w.storage != s.storage }
      else s
  | .complete i now =>
    match s.writes[i]? with
    | none => s
    | some w =>
      if s.strand = false ∧ w.done = w.win.len then
        let (c, evs) := FrontConn.writeHandler s.conn now .success w.win.len
        perform { s with conn := c, writes := s.writes.eraseIdx i } evs
      else s
  | .fail i now ec =>
    match s.writes[i]? with
    | none => s
    | some w =>
      if s.strand = false ∧ ec ≠ .success then
        { s with conn := (FrontConn.writeHandler s.conn now ec w.done).1, writes := s.writes.eraseIdx i }
      else s

/-- a run of a connection that never errs; what `push_front` is given is a C string, with its `strlen + 1` -/
def legal : Op → Prop
  | .pushFill _ mem len => 0 < len ∧ 0 ∈ mem
  | .fail _ _ _ => False
  | _ => True

instance (o : Op) : Decidable (legal o) := by
  cases o <;> unfold legal <;> infer_instance

structure Intact (s : St) : Prop where
  isPrefix : s.received <+: s.replies
  whole : pending s = false → s.received = s.replies
  notRefilled : s.refilled = false
  notMoved : s.moved = false
  notAborted : s.aborted = false

/-- a fill finds no write in flight and no reply waiting for its `do_write` -/
def Alone (s : St) : Op → Prop
  | .handlerFill _ _ _ => s.strand = false → pending s = false
  | .pushFill _ _ _ => s.backend = false → pending s = false
  | _ => True

instance (s : St) (o : Op) : Decidable (Alone s o) := by
  cases o <;> unfold Alone <;> infer_instance

/-! ## Invariant of the runs whose fills are alone -/

/-- nothing to send; one reply filled in and not yet started; or one reply being sent -/
inductive Phase (s : St) : Prop where
  | quiet (hw : s.writes = []) (hs : s.strand = false) (hb : s.backend = false) (hr : s.received = s.replies)
  | filled (enc : Str) (hw : s.writes = []) (hf : s.strand = !s.backend) (he : enc ≠ [])
      (hr : s.replies = s.received ++ enc) (hsz : s.conn.wSize = enc.length) (hpos : s.conn.wPos = 0)
      (hp : enc <+: s.conn.pWrite)
  | sending (enc : Str) (k : ℕ) (hw : s.writes = [⟨⟨0, enc.length⟩, s.storage, k⟩]) (hs : s.strand = false)
      (hb : s.backend = false) (he : enc ≠ []) (hk : k ≤ enc.length) (hr : s.replies = s.received ++ enc.drop k)
      (hsz : s.conn.wSize = enc.length) (hpos : s.conn.wPos = 0) (hp : enc <+: s.conn.pWrite)

structure Inv (s : St) : Prop where
  working : s.conn.stats = .connWorking
  notRefilled : s.refilled = false
  notMoved : s.moved = false
  notAborted : s.aborted = false
  phase : Phase s

theorem Inv.intact {s : St} (h : Inv s) : Intact s := by
  refine ⟨?_, fun hp => ?_, h.notRefilled, h.notMoved, h.notAborted⟩
  · cases h.phase with
    | quiet _ _ _ hr => rw [hr]
    | filled enc _ _ _ hr => rw [hr]; exact List.prefix_append _ _
    | sending enc k _ _ _ _ _ hr => rw [hr]; exact List.prefix_append _ _
  · cases h.phase with
    | quiet _ _ _ hr => exact hr
    | filled enc hw hf => simp [pending, hw, hf] at hp
    | sending enc k hw => simp [pending, hw] at hp

theorem inv_init (now : ℕ) : Inv (init now) := ⟨rfl, rfl, rfl, rfl, .quiet rfl rfl rfl rfl⟩

theorem replyGenerate_ne_nil (date content stat : Str) : replyGenerate date content stat ≠ [] := by
  rw [replyGenerate_eq]; simp [HttpText.crlf]

theorem replyGenerateData_ne_nil {date mem stat enc : Str} {len : ℕ}
    (h : replyGenerateData date mem len stat = some enc) : enc ≠ [] := by
  rw [replyGenerateData_eq] at h
  obtain ⟨d, -, rfl⟩ := Option.map_eq_some_iff.1 h
  simp [HttpText.crlf]

theorem quiet_of_not_pending {s : St} (h : pending s = false) :
    s.writes = [] ∧ s.strand = false ∧ s.backend = false := by
  simpa [pending, and_assoc] using h

/-- a fill that is alone puts its reply, and nothing else, at the start of `p_write_` -/
theorem fillBy_inv {s : St} (h : Inv s) (hq : pending s = false) (p : Party) {enc : Str} (he : enc ≠ []) :
    Inv (fillBy s p enc) := by
  obtain ⟨hw, hs, hb⟩ := quiet_of_not_pending hq
  have hr := h.intact.whole hq
  refine ⟨by simp [fillBy, h.working], by simp [fillBy, h.notRefilled, hq], h.notMoved, h.notAborted, ?_⟩
  refine .filled enc hw ?_ he (by simp [fillBy, hr]) rfl rfl ?_
  · cases p <;> simp [fillBy, hs, hb]
  · rw [List.prefix_iff_eq_take]
    exact (Connection.fillEnc_pWrite s.conn enc).symm

/-- the party that filled starts the write of its reply -/
theorem doWrite_inv {s : St} (h : Inv s) (p : Party) (now : ℕ) (hf : flag s p = true) :
    Inv (step s (.doWrite p now)) := by
  cases h.phase with
  | quiet _ hs hb => cases p <;> simp [flag, hs, hb] at hf
  | sending _ _ _ hs hb => cases p <;> simp [flag, hs, hb] at hf
  | filled enc hw hfl he hr hsz hpos hp =>
    have hlen : 0 < enc.length := List.length_pos_iff.2 he
    have hdw := FrontConn.doWrite_working h.working (by omega) (by omega : s.conn.wPos < s.conn.wSize) now
    have hstep : step s (.doWrite p now) = { s with
        conn := { s.conn with touchTime := now }
        writes := [⟨⟨0, enc.length⟩, s.storage, 0⟩]
        strand := false
        backend := false } := by
      simp only [step, h.notAborted, hf, hdw, Bool.false_eq_true, if_false, if_true]
      cases p <;> cases hb : s.backend <;> simp_all [flag, clear, perform]
    rw [hstep]
    exact ⟨h.working, h.notRefilled, h.notMoved, h.notAborted,
      .sending enc 0 rfl rfl rfl he (Nat.zero_le _) (by simpa using hr) hsz hpos hp⟩

theorem only_write {writes : List Write} {v w : Write} {i : ℕ} (hw : writes = [v]) (hi : writes[i]? = some w) :
    i = 0 ∧ w = v := by
  rw [hw, List.getElem?_singleton] at hi
  split_ifs at hi with h0
  exact ⟨h0, (Option.some.inj hi).symm⟩

theorem xfer_inv {s : St} (h : Inv s) (i n : ℕ) : Inv (step s (.xfer i n)) := by
  cases hi : s.writes[i]? with
  | none => simpa [step, h.notAborted, hi] using h
  | some w =>
    by_cases hn : 0 < n ∧ w.done + n ≤ w.win.len
    · cases h.phase with
      | quiet hw => simp [hw] at hi
      | filled _ hw => simp [hw] at hi
      | sending enc k hw hs hb he hk hr hsz hpos hp =>
        obtain ⟨rfl, rfl⟩ := only_write hw hi
        have hle : k + n ≤ enc.length := hn.2
        obtain ⟨t, ht⟩ := hp
        have htake : (s.conn.pWrite.drop k).take n = (enc.drop k).take n := by
          rw [← ht, List.drop_append_of_le_length hk, List.take_append_of_le_length (by simp; omega)]
        have hstep : step s (.xfer 0 n) = { s with
            writes := [⟨⟨0, enc.length⟩, s.storage, k + n⟩]
            received := s.received ++ (enc.drop k).take n } := by
          simp [step, h.notAborted, hw, hn.1, hle, htake, h.notMoved]
        rw [hstep]
        refine ⟨h.working, h.notRefilled, h.notMoved, h.notAborted,
          .sending enc (k + n) rfl hs hb he hle ?_ hsz hpos ⟨t, ht⟩⟩
        rw [hr, List.append_assoc, ← List.drop_drop, List.take_append_drop]
    · simpa [step, h.notAborted, hi, hn] using h

/-- the completion of the only write in flight leaves nothing to send -/
theorem complete_inv {s : St} (h : Inv s) (i now : ℕ) : Inv (step s (.complete i now)) := by
  cases hi : s.writes[i]? with
  | none => simpa [step, h.notAborted, hi] using h
  | some w =>
    by_cases hd : s.strand = false ∧ w.done = w.win.len
    · cases h.phase with
      | quiet hw => simp [hw] at hi
      | filled _ hw => simp [hw] at hi
      | sending enc k hw hs hb he hk hr hsz hpos hp =>
        obtain ⟨rfl, rfl⟩ := only_write hw hi
        obtain rfl : k = enc.length := hd.2
        have hne : enc.length ≠ 0 := Nat.pos_iff_ne_zero.1 (List.length_pos_iff.2 he)
        have hh : FrontConn.writeHandler s.conn now .success enc.length =
            ({ s.conn with wPos := 0, wSize := 0 }, []) := by
          simp [FrontConn.writeHandler, hne, hpos, hsz]
        have hstep : step s (.complete 0 now) =
            { s with conn := { s.conn with wPos := 0, wSize := 0 }, writes := [] } := by
          simp [step, h.notAborted, hw, hs, hh, perform]
        rw [hstep]
        exact ⟨h.working, h.notRefilled, h.notMoved, h.notAborted, .quiet rfl hs hb (by simpa using hr.symm)⟩
    · simpa [step, h.notAborted, hi, hd] using h

theorem step_inv {s : St} {o : Op} (ho : legal o) (ha : Alone s o) (h : Inv s) : Inv (step s o) := by
  cases o with
  | handlerFill date str status =>
    cases hs : s.strand with
    | true => simpa [step, h.notAborted, hs] using h
    | false =>
      have := fillBy_inv h (ha hs) .strand (replyGenerate_ne_nil date str status)
      simpa [step, h.notAborted, hs] using this
  | pushFill date mem len =>
    cases hb : s.backend with
    | true => simpa [step, h.notAborted, hb] using h
    | false =>
      have hlen : len ≠ 0 := Nat.pos_iff_ne_zero.1 ho.1
      cases he : replyGenerateData date mem len Status.ok with
      | none => simpa [step, h.notAborted, hb, hlen, he] using h
      | some enc =>
        have := fillBy_inv h (ha hb) .backend (replyGenerateData_ne_nil he)
        simpa [step, h.notAborted, hb, hlen, he] using this
  | doWrite p now =>
    cases hf : flag s p with
    | true => exact doWrite_inv h p now hf
    | false => simpa [step, h.notAborted, hf] using h
  | xfer i n => exact xfer_inv h i n
  | complete i now => exact complete_inv h i now
  | fail i now ec => exact absurd ho id

/-- a fill that is not alone marks the buffer as refilled -/
theorem alone_of_intact {s : St} {o : Op} (ho : legal o) (h : Inv s) (hg : Intact (step s o)) : Alone s o := by
  cases o with
  | handlerFill date str status =>
    intro hs
    have := hg.notRefilled
    simp only [step, h.notAborted, hs, Bool.false_eq_true, if_false, fillBy, Bool.or_eq_false_iff] at this
    exact this.2
  | pushFill date mem len =>
    intro hb
    have hlen : len ≠ 0 := Nat.pos_iff_ne_zero.1 ho.1
    obtain ⟨enc, he⟩ : ∃ enc, replyGenerateData date mem len Status.ok = some enc := by
      simp [replyGenerateData_eq, cstr, ho.2]
    have := hg.notRefilled
    simp only [step, h.notAborted, hb, hlen, he, Bool.false_eq_true, or_self, if_false, fillBy,
      Bool.or_eq_false_iff] at this
    exact this.2
  | _ => trivial

/-! ## Results -/

/-- **Exactly when the wire is intact.** In every run of a connection that never errs, the client receives the encoded
replies in the order of their fills, each exactly once, with no buffer refilled too early and no assertion failed, if
and only if every `fill_for_http` finds no write in flight and no reply that still waits for its `do_write`. -/
theorem intact_iff_alone (now : ℕ) (ops : List Op) (hops : ∀ o ∈ ops, legal o) :
    Always step Intact (init now) ops ↔ Meets step Alone (init now) ops :=
  always_iff_meets (L := fun _ => legal) (fun _ => Inv.intact) (fun _ _ => step_inv) (fun _ _ => alone_of_intact)
    (meets_of_forall fun o ho _ => hops o ho) (inv_init now)

def someDate : Str := ascii "2024-Jan-01 00:00:00"

/-- the whole reply of `/aa` -/
def replyAa : Str := replyGenerate someDate (ascii "aa") Status.ok

theorem intact_iff_alone_push :
    Always step Intact (init 0) [.pushFill someDate [104, 105, 0] 3, .doWrite .backend 0, .xfer 0 20, .xfer 0 148] ↔
      Meets step Alone (init 0) [.pushFill someDate [104, 105, 0] 3, .doWrite .backend 0, .xfer 0 20, .xfer 0 148] :=
  intact_iff_alone 0 _ (by decide)

/-- the reply to `/aa` is started, and the next request, already there, is answered with 404 -/
def pipelined : List Op :=
  [.handlerFill someDate (ascii "aa") Status.ok, .doWrite .strand 0,
    .handlerFill someDate contentNotFound Status.notFound, .xfer 0 replyAa.length]

/-- **The reply to a pipelined request overwrites the one being sent.** `do_read_head` is called right after
`do_write`; the client gets the first bytes of the second reply in place of the first. -/
theorem pipelined_reply_corrupts :
    (∀ o ∈ pipelined, legal o) ∧ (run step (init 0) pipelined).refilled = true ∧
      ¬ (run step (init 0) pipelined).received <+: (run step (init 0) pipelined).replies ∧
      ¬ Always step Intact (init 0) pipelined := by
  have hp : ¬ (run step (init 0) pipelined).received <+: (run step (init 0) pipelined).replies := by decide +kernel
  exact ⟨by decide, by decide +kernel, hp, fun h => hp h.last.isPrefix⟩

/-- a push fills its reply in after the transfer of `/aa`'s reply and before its completion -/
def pushBeforeCompletion : List Op :=
  [.handlerFill someDate (ascii "aa") Status.ok, .doWrite .strand 0, .xfer 0 replyAa.length,
    .pushFill someDate [104, 105, 0] 3, .complete 0 0, .doWrite .backend 0]

-- a push can fail the assertion of `do_write`: the completion of the earlier reply sets `w_size_` to 0
example :
    (∀ o ∈ pushBeforeCompletion, legal o) ∧ (run step (init 0) pushBeforeCompletion).aborted = true := by
  exact ⟨by decide, by decide +kernel⟩

end FrontWire

end AirobotMsgd
