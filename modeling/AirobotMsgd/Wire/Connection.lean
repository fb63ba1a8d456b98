/-
`connection`, the base class of both kinds of connections (source/connection.cpp): the state word, the two buffers and
the write bookkeeping that `fill_and_send`, `fill_for_http` and the base `do_write` keep.

`p_buffer_` and `p_write_` are vectors of 16 KiB that are resized, never cleared. A window is what an asynchronous
operation is given: a part of a buffer. The buffer is read when the operation runs, not when it is started, and a
`resize` that grows `p_write_` moves its storage; `grows` says when.

- `fill_pWrite`, `fillEnc_pWrite`: after a fill the first `w_size_` bytes of `p_write_` are the message, `w_pos_` is 0.
-/
import AirobotMsgd.Wire.Reply

namespace AirobotMsgd

open AirobotMsgd.Bytes AirobotMsgd.Reply

inductive ConnStats where
  | connWorking
  | connPending
  | connError
deriving DecidableEq, Repr

/-- the error code of a completion: none, `operation_aborted`, any other -/
inductive Ec where
  | success
  | operationAborted
  | failure
deriving DecidableEq, Repr

/-- the part of a buffer an operation is given -/
structure Window where
  off : ℕ
  len : ℕ
deriving DecidableEq, Repr

structure Connection where
  stats : ConnStats
  touchTime : ℕ
  rSize : ℕ
  wSize : ℕ
  wPos : ℕ
  pBuffer : Str
  pWrite : Str
deriving DecidableEq, Repr

namespace Connection

/-- the constructor, at clock time `now` -/
def create (now : ℕ) : Connection :=
  { stats := .connPending, touchTime := now, rSize := 0, wSize := 0, wPos := 0,
    pBuffer := List.replicate (16 * 1024) 0, pWrite := List.replicate (16 * 1024) 0 }

/-- `if (n > p_write_->size()) p_write_->resize(n)` resizes -/
def grows (c : Connection) (n : ℕ) : Bool := c.pWrite.length < n

def growWrite (c : Connection) (n : ℕ) : Connection :=
  if c.grows n then { c with pWrite := resize c.pWrite n } else c

/-- the base `do_write`: the window is all of `p_write_` -/
def doWrite (c : Connection) (now : ℕ) : Connection × Option Window :=
  if c.stats ≠ .connWorking then (c, none)
  else ({ c with touchTime := now }, some ⟨0, c.pWrite.length⟩)

/-- `fill_and_send` up to its `do_write`; `data` is the `len` bytes at the pointer -/
def fill (c : Connection) (data : Str) : Connection :=
  let c := c.growWrite data.length
  { c with pWrite := overwrite c.pWrite 0 data, wSize := data.length, wPos := 0 }

def fillAndSend (c : Connection) (now : ℕ) (data : Str) : Connection × Option Window := (c.fill data).doWrite now

/-- the tail both `fill_for_http` share: `enc` and its '\0' are copied, the '\0' is not counted -/
def fillEnc (c : Connection) (enc : Str) : Connection :=
  let c := c.growWrite (enc.length + 1)
  { c with pWrite := overwrite c.pWrite 0 (enc ++ [0]), wSize := enc.length, wPos := 0 }

/-- `fill_for_http(const string& str, const string& status)` -/
def fillForHttp (c : Connection) (date str status : Str) : Connection := c.fillEnc (replyGenerate date str status)

/-- `fill_for_http(const char* data, size_t len, const string& status)` -/
def fillForHttpData (c : Connection) (date mem : Str) (len : ℕ) (status : Str) : Option Connection :=
  (replyGenerateData date mem len status).map c.fillEnc

@[simp] theorem length_create_pBuffer (now : ℕ) : (create now).pBuffer.length = 16 * 1024 := List.length_replicate

theorem doWrite_working {c : Connection} (h : c.stats = .connWorking) (now : ℕ) :
    c.doWrite now = ({ c with touchTime := now }, some ⟨0, c.pWrite.length⟩) := by
  simp [doWrite, h]

@[simp] theorem growWrite_stats (c : Connection) (n : ℕ) : (c.growWrite n).stats = c.stats := by
  unfold growWrite; split <;> rfl

@[simp] theorem fill_stats (c : Connection) (data : Str) : (c.fill data).stats = c.stats := growWrite_stats c _
@[simp] theorem fill_wSize (c : Connection) (data : Str) : (c.fill data).wSize = data.length := rfl
@[simp] theorem fillEnc_stats (c : Connection) (enc : Str) : (c.fillEnc enc).stats = c.stats := growWrite_stats c _
@[simp] theorem fillEnc_wSize (c : Connection) (enc : Str) : (c.fillEnc enc).wSize = enc.length := rfl
@[simp] theorem fillEnc_wPos (c : Connection) (enc : Str) : (c.fillEnc enc).wPos = 0 := rfl

@[simp] theorem growWrite_rSize (c : Connection) (n : ℕ) : (c.growWrite n).rSize = c.rSize := by
  unfold growWrite; split <;> rfl

@[simp] theorem growWrite_pBuffer (c : Connection) (n : ℕ) : (c.growWrite n).pBuffer = c.pBuffer := by
  unfold growWrite; split <;> rfl

@[simp] theorem fillEnc_rSize (c : Connection) (enc : Str) : (c.fillEnc enc).rSize = c.rSize := growWrite_rSize c _
@[simp] theorem fillEnc_pBuffer (c : Connection) (enc : Str) : (c.fillEnc enc).pBuffer = c.pBuffer :=
  growWrite_pBuffer c _

theorem fill_pWrite (c : Connection) (data : Str) : (c.fill data).pWrite.take data.length = data :=
  take_overwrite_zero _ _

theorem fillEnc_pWrite (c : Connection) (enc : Str) : (c.fillEnc enc).pWrite.take enc.length = enc := by
  simp [fillEnc, overwrite]

end Connection

end AirobotMsgd
