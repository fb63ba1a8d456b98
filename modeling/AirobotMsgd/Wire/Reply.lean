/-
The reply encoder: `http_proto` and `reply::reply_generate` in both overloads.

The two overloads write the same six headers and differ in two places: the string overload announces `content.size()`
and appends the content; the (pointer, length) overload announces `len` and appends `data` as a C string, so it stops at
the first NUL and runs off the end of memory that has none. The Date value, the text of the current time, is a
parameter; it holds no CR.

Results:
- `statuses_lines`: every status line of `http_proto::status` is one line, not empty.
- `replyGenerate_framed`: the string overload's reply is framed, for any content.
- `replyGenerateData_framed_iff`: the other overload's reply is framed exactly when `len` is the length of the C string.
- `agree_iff`: on data of at least `len` bytes the two overloads agree exactly when the first NUL of the data stands at
  index `len`. What `push_front` relays has another length (`Backend/BackendConn.lean`).
-/
import AirobotMsgd.Core.HttpText

namespace AirobotMsgd.HttpProto

open AirobotMsgd.Bytes AirobotMsgd.HttpText

/-! ## http_proto.hpp -/

def contentError : Str := ascii ("<html><head><title>Internal Server Error</title></head>" ++
  "<body><h1>500 Internal Server Error</h1></body></html>")
def contentBadRequest : Str := ascii ("<html><head><title>Bad Request</title></head>" ++
  "<body><h1>400 Bad Request</h1></body></html>")
def contentNotFound : Str := ascii ("<html><head><title>Not Found</title></head>" ++
  "<body><h1>404 Not Found</h1></body></html>")

namespace HeaderOptions

def requestMethod : Str := ascii "request_method_"
def requestUri : Str := ascii "request_uri_"
def httpVersion : Str := ascii "http_version_"
def requestBody : Str := ascii "request_body_"
def contentLength : Str := ascii "Content-Length"

end HeaderOptions

namespace Status

def ok : Str := ascii "HTTP/1.1 200 OK\r\n"
def created : Str := ascii "HTTP/1.1 201 Created\r\n"
def accepted : Str := ascii "HTTP/1.1 202 Accepted\r\n"
def noContent : Str := ascii "HTTP/1.1 204 No Content\r\n"
def multipleChoices : Str := ascii "HTTP/1.1 300 Multiple Choices\r\n"
def movedPermanently : Str := ascii "HTTP/1.1 301 Moved Permanently\r\n"
def movedTemporarily : Str := ascii "HTTP/1.1 302 Moved Temporarily\r\n"
def notModified : Str := ascii "HTTP/1.1 304 Not Modified\r\n"
def badRequest : Str := ascii "HTTP/1.1 400 Bad Request\r\n"
def unauthorized : Str := ascii "HTTP/1.1 401 Unauthorized\r\n"
def forbidden : Str := ascii "HTTP/1.1 403 Forbidden\r\n"
def notFound : Str := ascii "HTTP/1.1 404 Not Found\r\n"
def internalServerError : Str := ascii "HTTP/1.1 500 Internal Server Error\r\n"
def notImplemented : Str := ascii "HTTP/1.1 501 Not Implemented\r\n"
def badGateway : Str := ascii "HTTP/1.1 502 Bad Gateway\r\n"
def serviceUnavailable : Str := ascii "HTTP/1.1 503 Service Unavailable\r\n"

def all : List Str :=
  [ok, created, accepted, noContent, multipleChoices, movedPermanently, movedTemporarily, notModified, badRequest,
    unauthorized, forbidden, notFound, internalServerError, notImplemented, badGateway, serviceUnavailable]

end Status

/-- one line, not empty, with its CRLF -/
def StatusLine (stat : Str) : Prop := ∃ l, stat = l ++ crlf ∧ 13 ∉ l ∧ l ≠ []

theorem statuses_lines : ∀ s ∈ Status.all, StatusLine s := by
  have h : ∀ s ∈ Status.all, s = s.take (s.length - 2) ++ crlf ∧ 13 ∉ s.take (s.length - 2) ∧
      s.take (s.length - 2) ≠ [] := by decide +kernel
  exact fun s hs => ⟨_, h s hs⟩

end AirobotMsgd.HttpProto

namespace AirobotMsgd.Reply

open AirobotMsgd.Bytes AirobotMsgd.HttpText AirobotMsgd.HttpProto

/-! ## reply.hpp -/

structure Header where
  name : Str
  value : Str
deriving DecidableEq, Repr

def headerNameValueSeparatorStr : Str := ascii ": "
def headerCrlfStr : Str := ascii "\r\n"

/-- the loop over the headers -/
def appendHeaders (str : Str) : List Header → Str
  | [] => str
  | h :: hs => appendHeaders (str ++ h.name ++ headerNameValueSeparatorStr ++ h.value ++ headerCrlfStr) hs

/-- `reply_generate(const string& content, const string& stat_str)` -/
def replyGenerate (date content statStr : Str) : Str :=
  let headers : List Header :=
    [⟨ascii "Server", ascii "airobot_msgd/1.0"⟩, ⟨ascii "Date", date⟩, ⟨ascii "Content-Length", toDec content.length⟩,
      ⟨ascii "Content-Type", ascii "text/html"⟩, ⟨ascii "Connection", ascii "keep-alive"⟩,
      ⟨ascii "Access-Control-Allow-Origin", ascii "*"⟩]
  let str := appendHeaders statStr headers
  let str := str ++ headerCrlfStr
  str ++ content

/-- `reply_generate(const char* data, size_t len, const string& stat_str)`; `mem` is the memory from `data` on, and
`none` is a read past its end -/
def replyGenerateData (date mem : Str) (len : ℕ) (statStr : Str) : Option Str :=
  let headers : List Header :=
    [⟨ascii "Server", ascii "airobot_msgd/1.0"⟩, ⟨ascii "Date", date⟩, ⟨ascii "Content-Length", toDec len⟩,
      ⟨ascii "Content-Type", ascii "text/html"⟩, ⟨ascii "Connection", ascii "keep-alive"⟩,
      ⟨ascii "Access-Control-Allow-Origin", ascii "*"⟩]
  let str := appendHeaders statStr headers
  let str := str ++ headerCrlfStr
  (cstr mem).map fun data => str ++ data

/-! ## The head both overloads write -/

def headerLine (h : Header) : Str := h.name ++ ascii ": " ++ h.value

/-- the header lines of a reply that announces n bytes -/
def replyLines (date : Str) (n : ℕ) : List Str :=
  [ascii "Server: airobot_msgd/1.0", ascii "Date: " ++ date, ascii "Content-Length: " ++ toDec n,
    ascii "Content-Type: text/html", ascii "Connection: keep-alive", ascii "Access-Control-Allow-Origin: *"]

theorem appendHeaders_eq (str : Str) (hs : List Header) :
    appendHeaders str hs = str ++ joinLines (hs.map headerLine) := by
  induction hs generalizing str with
  | nil => simp [appendHeaders]
  | cons h hs ih =>
    rw [appendHeaders, ih, List.map_cons, joinLines_cons]
    simp only [headerLine, headerNameValueSeparatorStr, List.append_assoc]
    rfl

theorem replyGenerate_eq (date content stat : Str) :
    replyGenerate date content stat = stat ++ joinLines (replyLines date content.length) ++ crlf ++ content := by
  simp only [replyGenerate, appendHeaders_eq]
  rfl

theorem replyGenerateData_eq (date mem : Str) (len : ℕ) (stat : Str) :
    replyGenerateData date mem len stat =
      (cstr mem).map fun data => stat ++ joinLines (replyLines date len) ++ crlf ++ data := by
  simp only [replyGenerateData, appendHeaders_eq]
  rfl

theorem toDec_no_cr (n : ℕ) : (13 : UInt8) ∉ toDec n := by
  intro h
  exact absurd (isDigit_toDec n 13 h) (by decide)

theorem replyLines_clean {date : Str} (hd : 13 ∉ date) (n : ℕ) : ∀ l ∈ replyLines date n, 13 ∉ l ∧ l ≠ [] := by
  have h1 : (13 : UInt8) ∉ ascii "Date: " := by decide
  have h2 : (13 : UInt8) ∉ ascii "Content-Length: " := by decide
  have hn := toDec_no_cr n
  simp only [replyLines, List.mem_cons, List.not_mem_nil, or_false, forall_eq_or_imp, forall_eq, List.mem_append,
    not_or, ne_eq, List.append_eq_nil_iff, not_and]
  refine ⟨by decide, ⟨⟨h1, hd⟩, fun h => absurd h (by decide)⟩, ⟨⟨h2, hn⟩, fun h => absurd h (by decide)⟩, by decide,
    by decide, by decide⟩

/-! ## Framing -/

/-- what a receiver reads in a reply that announces n bytes and carries `body` -/
theorem reply_read {date stat : Str} (hs : StatusLine stat) (hd : 13 ∉ date) (n : ℕ) (body : Str) :
    headerValue (ascii "Content-Length") (stat ++ joinLines (replyLines date n) ++ crlf ++ body) = some (toDec n) ∧
      bodyOf (stat ++ joinLines (replyLines date n) ++ crlf ++ body) = some body := by
  obtain ⟨l, rfl, hl, hl0⟩ := hs
  have hall : ∀ x ∈ l :: replyLines date n, 13 ∉ x ∧ x ≠ [] := by
    intro x hx
    rcases List.mem_cons.1 hx with rfl | hx
    · exact ⟨hl, hl0⟩
    · exact replyLines_clean hd n x hx
  have hjoin : l ++ crlf ++ joinLines (replyLines date n) = joinLines (l :: replyLines date n) := by simp
  rw [hjoin]
  refine ⟨?_, bodyOf_head hall (by simp) body⟩
  rw [headerValue, headerLines_head hall body, Option.bind_some]
  -- the third line is the first one with this name
  have e1 : (ascii "Content-Length" ++ ascii ": ").isPrefixOf (ascii "Server: airobot_msgd/1.0") = false := by decide
  have e2 : (ascii "Content-Length" ++ ascii ": ").isPrefixOf (ascii "Date: " ++ date) = false := rfl
  have e3 : (ascii "Content-Length" ++ ascii ": ").isPrefixOf (ascii "Content-Length: " ++ toDec n) = true :=
    List.isPrefixOf_iff_prefix.2 (List.prefix_append _ _)
  simp only [replyLines, List.cons_append, List.find?_cons, e1, e2, e3, Option.map_some, Option.some.injEq]
  exact List.drop_left' (by decide)

theorem framed_iff {date stat : Str} (hs : StatusLine stat) (hd : 13 ∉ date) (n : ℕ) (body : Str) :
    Framed (stat ++ joinLines (replyLines date n) ++ crlf ++ body) ↔ n = body.length := by
  obtain ⟨hv, hb⟩ := reply_read hs hd n body
  constructor
  · rintro ⟨v, b, hv', hb', -, -, hlen⟩
    rw [hv, Option.some.injEq] at hv'
    rw [hb, Option.some.injEq] at hb'
    subst hv' hb'
    rw [decValue_toDec] at hlen
    exact hlen
  · rintro rfl
    exact ⟨_, _, hv, hb, toDec_ne_nil _, isDigit_toDec _, decValue_toDec _⟩

/-- **The string overload is framed**, for every content and every status line. -/
theorem replyGenerate_framed {date stat : Str} (hs : StatusLine stat) (hd : 13 ∉ date) (content : Str) :
    Framed (replyGenerate date content stat) := by
  rw [replyGenerate_eq]
  exact (framed_iff hs hd _ _).2 rfl

/-- the (pointer, length) overload is framed exactly when the length is the C string's -/
theorem replyGenerateData_framed_iff {date stat : Str} (hs : StatusLine stat) (hd : 13 ∉ date) (mem : Str) (len : ℕ) :
    (∃ r, replyGenerateData date mem len stat = some r ∧ Framed r) ↔ strlen mem = some len := by
  rw [replyGenerateData_eq, strlen]
  constructor
  · rintro ⟨r, hr, hf⟩
    obtain ⟨s, hs', rfl⟩ := Option.map_eq_some_iff.1 hr
    rw [hs', Option.map_some, (framed_iff hs hd _ _).1 hf]
  · intro h
    obtain ⟨s, hs', hlen⟩ := Option.map_eq_some_iff.1 h
    exact ⟨_, by rw [hs', Option.map_some], (framed_iff hs hd _ _).2 hlen.symm⟩

/-- the two overloads agree on the first `len` bytes of the data -/
def Agree (date mem : Str) (len : ℕ) (stat : Str) : Prop :=
  replyGenerateData date mem len stat = some (replyGenerate date (mem.take len) stat)

theorem agree_iff {mem : Str} {len : ℕ} (hlen : len ≤ mem.length) (date stat : Str) :
    Agree date mem len stat ↔ strlen mem = some len := by
  have htake : (mem.take len).length = len := by simp [hlen]
  rw [Agree, replyGenerateData_eq, replyGenerate_eq, htake, strlen]
  constructor
  · intro h
    obtain ⟨s, hs, hr⟩ := Option.map_eq_some_iff.1 h
    rw [List.append_cancel_left hr] at hs
    rw [hs, Option.map_some, htake]
  · intro h
    obtain ⟨s, hs, hl⟩ := Option.map_eq_some_iff.1 h
    obtain ⟨-, t, rfl⟩ := cstr_eq_some.1 hs
    rw [hs, Option.map_some, ← hl, List.take_left]

end AirobotMsgd.Reply
