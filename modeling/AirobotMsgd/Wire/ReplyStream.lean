/-
What a client reads of a keep-alive connection (include/reply.hpp, source/backend_server.cpp, front_conn.cpp).

A client finds the end of a message by its Content-Length. The server sends replies of its own, encoded by the string
overload of `reply_generate`, and messages of the backends, which `push_front` passes to the other overload with a length
that counts their NUL. The messages are taken to arrive one behind the other.

Results:
- `stream_iff`: **a client reads back exactly the streams without a backend's message.**
- `replies_so_far`: at any moment a client has read the replies that have arrived whole, and nothing else.
-/
import AirobotMsgd.Core.HttpStream
import AirobotMsgd.Wire.Reply

namespace AirobotMsgd.Reply

open AirobotMsgd.Bytes AirobotMsgd.HttpText AirobotMsgd.HttpProto

/-! ## Messages -/

/-- a reply of the server, or a backend's message -/
inductive Sent where
  | reply (date content stat : Str)
  | push (date text stat : Str)

namespace Sent

/-- what `fill_for_http` encodes; a push is the C string in the read buffer, and its length is counted with the NUL -/
def encoded : Sent → Option Str
  | reply date content stat => some (replyGenerate date content stat)
  | push date text stat => replyGenerateData date (text ++ [0]) (text.length + 1) stat

def content : Sent → Str
  | reply _ content _ => content
  | push _ text _ => text

def isReply : Sent → Bool
  | reply .. => true
  | push .. => false

/-- a status line, a date without CR, and in a push no NUL but its own -/
def Ok : Sent → Prop
  | reply date _ stat => StatusLine stat ∧ 13 ∉ date
  | push date text stat => StatusLine stat ∧ 13 ∉ date ∧ 0 ∉ text

end Sent

/-- the stream of these messages -/
def stream (ms : List Sent) : Str := ms.flatMap fun m => m.encoded.getD []

/-- the head and the body of a message, and what the head announces -/
def Sent.message : Sent → Message
  | .reply date content stat => ⟨stat ++ joinLines (replyLines date content.length) ++ crlf, content.length, content⟩
  | .push date text stat => ⟨stat ++ joinLines (replyLines date (text.length + 1)) ++ crlf, text.length + 1, text⟩

theorem announces {date stat : Str} (hs : StatusLine stat) (hd : 13 ∉ date) (n : ℕ) :
    Announces (stat ++ joinLines (replyLines date n) ++ crlf) n where
  body t := (reply_read hs hd n t).2
  length t := ⟨toDec n, (reply_read hs hd n t).1, decValue_toDec n⟩

theorem Sent.Ok.announces {m : Sent} (h : m.Ok) : Announces m.message.head m.message.announced := by
  cases m with
  | reply date content stat => exact Reply.announces h.1 h.2 _
  | push date text stat => exact Reply.announces h.1 h.2.1 _

theorem encoded_push {text : Str} (h : 0 ∉ text) (date stat : Str) :
    (Sent.push date text stat).encoded = some (Sent.push date text stat).message.text := by
  have hcstr : cstr (text ++ [0]) = some text := cstr_eq_some.2 ⟨h, [], rfl⟩
  rw [Sent.encoded, replyGenerateData_eq, hcstr]
  rfl

theorem Sent.Ok.encoded {m : Sent} (h : m.Ok) : m.encoded = some m.message.text := by
  cases m with
  | reply date content stat => rw [Sent.encoded, replyGenerate_eq]; rfl
  | push date text stat => exact encoded_push h.2.2 date stat

theorem stream_eq {ms : List Sent} (h : ∀ m ∈ ms, m.Ok) : stream ms = (ms.map Sent.message).flatMap Message.text := by
  rw [stream, List.flatMap_map]
  exact List.flatMap_congr fun m hm => by rw [(h m hm).encoded, Option.getD_some]

theorem announced_iff (m : Sent) : m.message.announced = m.message.body.length ↔ m.isReply = true := by
  cases m <;> simp [Sent.message, Sent.isReply]

theorem map_body (ms : List Sent) : (ms.map Sent.message).map Message.body = ms.map Sent.content := by
  rw [List.map_map]
  exact List.map_congr_left fun m _ => by cases m <;> rfl

/-! ## Results -/

/-- **Exactly the streams without a backend's message are read back.** A push announces one byte more than it carries. -/
theorem stream_iff {ms : List Sent} (h : ∀ m ∈ ms, m.Ok) :
    readStream (stream ms) = (ms.map Sent.content, []) ↔ ∀ m ∈ ms, m.isReply = true := by
  have hall : ∀ m ∈ ms.map Sent.message, Announces m.head m.announced := by
    rw [List.forall_mem_map]
    exact fun m hm => (h m hm).announces
  rw [stream_eq h, ← map_body, readStream_iff hall, List.forall_mem_map]
  exact forall₂_congr fun m _ => announced_iff m

theorem status_ok : StatusLine Status.ok := statuses_lines _ (by decide)

/-- a reply, a backend's message, and another reply -/
theorem stream_iff_three : ¬ (readStream (stream [.reply (ascii "now") (ascii "aa") Status.ok,
    .push (ascii "now") (ascii "hi") Status.ok, .reply (ascii "now") (ascii "cc") Status.ok]) =
      ([ascii "aa", ascii "hi", ascii "cc"], [])) := by
  have h := @stream_iff [.reply (ascii "now") (ascii "aa") Status.ok, .push (ascii "now") (ascii "hi") Status.ok,
    .reply (ascii "now") (ascii "cc") Status.ok] (by
      simp only [List.forall_mem_cons]
      exact ⟨⟨status_ok, by decide⟩, ⟨status_ok, by decide, by decide⟩, ⟨status_ok, by decide⟩,
        fun _ hm => absurd hm List.not_mem_nil⟩)
  exact fun hread => absurd (h.1 hread) (by decide)

/-- **The replies so far.** Wherever the stream breaks off, the client has read the contents of the replies that are there
as a whole, and what is left is the beginning of the next one. -/
theorem replies_so_far {ms : List Sent} (h : ∀ m ∈ ms, m.Ok ∧ m.isReply = true) {m : Sent} (hm : m.Ok ∧ m.isReply = true)
    {p q : Str} (hpq : some (p ++ q) = m.encoded) (hq : q ≠ []) :
    readStream (stream ms ++ p) = (ms.map Sent.content, p) := by
  have hall : ∀ m ∈ ms.map Sent.message, Announces m.head m.announced ∧ m.announced = m.body.length := by
    rw [List.forall_mem_map]
    exact fun m hm => ⟨(h m hm).1.announces, (announced_iff m).2 (h m hm).2⟩
  have hlast : Announces m.message.head m.message.body.length := (announced_iff m).2 hm.2 ▸ hm.1.announces
  rw [hm.1.encoded, Option.some_inj] at hpq
  rw [stream_eq fun m hm => (h m hm).1, ← map_body]
  exact readStream_part hall hlast hpq hq

/-- the last byte of the second reply is still to come -/
theorem replies_so_far_two :
    readStream (stream [.reply (ascii "now") (ascii "aa") Status.ok] ++
        (replyGenerate (ascii "now") (ascii "cc") Status.ok).dropLast) =
      ([ascii "aa"], (replyGenerate (ascii "now") (ascii "cc") Status.ok).dropLast) :=
  @replies_so_far [.reply (ascii "now") (ascii "aa") Status.ok]
    (by simpa [Sent.Ok, Sent.isReply] using ⟨status_ok, by decide⟩) (.reply (ascii "now") (ascii "cc") Status.ok)
    ⟨⟨status_ok, by decide⟩, rfl⟩ _ (ascii "c") (by decide +kernel) (by decide)

end AirobotMsgd.Reply
