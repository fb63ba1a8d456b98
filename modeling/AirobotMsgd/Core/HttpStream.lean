/-
A stream of HTTP/1 messages, and the receiver that takes it apart by their Content-Length.

`Announces head n` says that the head of a message, with its blank line, announces n bytes, whatever stands behind it.

- `readStream_iff`: a stream is read back exactly if every head announces what its message carries.
- `readStream_part`: then, of a stream that breaks off, the whole messages are read, and the unfinished one is left.
-/
import AirobotMsgd.Core.HttpText

namespace AirobotMsgd.HttpText

open AirobotMsgd.Bytes

/-! ## The receiver -/

/-- the body of the first message and what is behind it, if all of it has arrived -/
def readMessage (s : Str) : Option (Str × Str) :=
  (headerValue (ascii "Content-Length") s).bind fun v =>
    (bodyOf s).bind fun rest =>
      if decValue v ≤ rest.length then some (rest.take (decValue v), rest.drop (decValue v)) else none

/-- the bodies of at most n messages, and what is left -/
def readMessages : ℕ → Str → List Str × Str
  | 0, s => ([], s)
  | n + 1, s =>
    match readMessage s with
    | none => ([], s)
    | some (body, rest) => (body :: (readMessages n rest).1, (readMessages n rest).2)

/-- a message has at least one byte -/
def readStream (s : Str) : List Str × Str := readMessages (s.length + 1) s

/-! ## Messages -/

structure Announces (head : Str) (n : ℕ) : Prop where
  body : ∀ t, bodyOf (head ++ t) = some t
  length : ∀ t, ∃ v, headerValue (ascii "Content-Length") (head ++ t) = some v ∧ decValue v = n

structure Message where
  head : Str
  announced : ℕ
  body : Str

def Message.text (m : Message) : Str := m.head ++ m.body

variable {head : Str} {n : ℕ}

theorem Announces.readMessage (h : Announces head n) (t : Str) :
    readMessage (head ++ t) = if n ≤ t.length then some (t.take n, t.drop n) else none := by
  obtain ⟨v, hv, rfl⟩ := h.length t
  rw [HttpText.readMessage, hv, h.body]
  rfl

theorem Announces.ne_nil (h : Announces head n) : head ≠ [] := by
  rintro rfl
  have hbody := h.body []
  simp [bodyOf, find, blankLine] at hbody

/-- the blank line ends the head -/
theorem Announces.bodyOf_part (h : Announces head n) {p q : Str} (hpq : p ++ q = head) (hq : q ≠ []) : bodyOf p = none := by
  have hwhole := h.body []
  rw [List.append_nil, bodyOf] at hwhole
  obtain ⟨i, hi, hend⟩ := Option.map_eq_some_iff.1 hwhole
  rw [bodyOf, Option.map_eq_none_iff, ← Option.not_isSome_iff_eq_none, Option.isSome_iff_exists]
  rintro ⟨j, hj⟩
  have hsame : find blankLine head = some j := hpq ▸ find_append hj q
  obtain rfl : i = j := Option.some.inj (hi.symm.trans hsame)
  obtain ⟨-, hprefix, -⟩ := find_eq_some.1 hj
  have hlen := hprefix.length_le
  have hdrop := List.drop_eq_nil_iff.1 hend
  have hqpos := List.length_pos_iff.2 hq
  rw [← hpq, List.length_append] at hdrop
  simp [blankLine] at hlen
  omega

theorem Announces.readMessage_part (h : Announces head n) {p q : Str} (hpq : p ++ q = head) (hq : q ≠ []) :
    HttpText.readMessage p = none := by
  rw [HttpText.readMessage, h.bodyOf_part hpq hq]
  cases headerValue (ascii "Content-Length") p <;> rfl

/-! ## Streams -/

theorem length_stream {ms : List Message} (h : ∀ m ∈ ms, Announces m.head m.announced) :
    ms.length ≤ (ms.flatMap Message.text).length := by
  induction ms with
  | nil => exact Nat.zero_le _
  | cons m ms ih =>
    have hpos := List.length_pos_iff.2 (h m List.mem_cons_self).ne_nil
    have hrest := ih fun m hm => h m (List.mem_cons_of_mem _ hm)
    rw [List.flatMap_cons, List.length_append, Message.text, List.length_append, List.length_cons]
    omega

theorem readMessages_nil (k : ℕ) : readMessages k [] = ([], []) := by
  cases k <;> rfl

theorem readMessages_iff {ms : List Message} (h : ∀ m ∈ ms, Announces m.head m.announced) {k : ℕ} (hk : ms.length ≤ k) :
    readMessages k (ms.flatMap Message.text) = (ms.map Message.body, []) ↔ ∀ m ∈ ms, m.announced = m.body.length := by
  induction ms generalizing k with
  | nil => exact iff_of_true (readMessages_nil k) (by simp)
  | cons m ms ih =>
    obtain ⟨hm, hms⟩ := List.forall_mem_cons.1 h
    cases k with
    | zero => simp at hk
    | succ k =>
      rw [List.length_cons, Nat.succ_le_succ_iff] at hk
      rw [List.forall_mem_cons, ← ih hms hk, List.flatMap_cons, Message.text, List.append_assoc, readMessages,
        hm.readMessage]
      generalize ms.flatMap Message.text = rest
      by_cases heq : m.announced = m.body.length
      · rw [heq, if_pos (by simp), List.take_left, List.drop_left]
        simp [Prod.ext_iff]
      · refine iff_of_false (fun hread => ?_) fun hall => heq hall.1
        split_ifs at hread with hle
        · -- the body that is read is as long as announced
          obtain ⟨hbody, -⟩ := List.cons.inj (Prod.ext_iff.1 hread).1
          have hlen := congrArg List.length hbody
          rw [List.length_take, min_eq_left hle] at hlen
          exact heq hlen
        · simp at hread

theorem readMessages_part {ms : List Message} (h : ∀ m ∈ ms, Announces m.head m.body.length) {m : Message}
    (hm : Announces m.head m.body.length) {p q : Str} (hpq : p ++ q = m.text) (hq : q ≠ []) {k : ℕ} (hk : ms.length < k) :
    readMessages k (ms.flatMap Message.text ++ p) = (ms.map Message.body, p) := by
  induction ms generalizing k with
  | nil =>
    have hnone : readMessage p = none := by
      rcases List.append_eq_append_iff.1 hpq with ⟨rest, hhead, hbody⟩ | ⟨part, rfl, hbody⟩
      · by_cases hrest : rest = []
        · -- all of the head, and nothing of the body
          subst hrest
          have hlt : ¬ m.body.length ≤ ([] : Str).length := by
            rwa [← List.nil_append m.body, ← hbody, List.length_nil, Nat.le_zero, List.length_eq_zero_iff]
          rw [← List.append_nil p, ← hhead, ← List.append_nil m.head, hm.readMessage, if_neg hlt]
        · exact hm.readMessage_part hhead.symm hrest
      · have hlt : ¬ m.body.length ≤ part.length := by
          have hqpos := List.length_pos_iff.2 hq
          rw [hbody, List.length_append]
          omega
        rw [hm.readMessage, if_neg hlt]
    cases k with
    | zero => simp at hk
    | succ k =>
      rw [List.flatMap_nil, List.nil_append, readMessages, hnone]
      rfl
  | cons m' ms ih =>
    obtain ⟨hm', hms⟩ := List.forall_mem_cons.1 h
    cases k with
    | zero => simp at hk
    | succ k =>
      rw [List.length_cons, Nat.succ_lt_succ_iff] at hk
      have hrest := ih hms hk
      rw [List.flatMap_cons, Message.text, List.append_assoc, List.append_assoc, readMessages, hm'.readMessage,
        if_pos (by simp), List.take_left, List.drop_left]
      dsimp only
      rw [hrest]
      rfl

/-- **Exactly when a stream is read back.** The receiver reads the bodies, and all of the stream, if and only if every
head announces the length of its body. -/
theorem readStream_iff {ms : List Message} (h : ∀ m ∈ ms, Announces m.head m.announced) :
    readStream (ms.flatMap Message.text) = (ms.map Message.body, []) ↔ ∀ m ∈ ms, m.announced = m.body.length :=
  readMessages_iff h ((length_stream h).trans (Nat.le_succ _))

/-- **A stream that breaks off.** The whole messages are read, and the unfinished one is left. -/
theorem readStream_part {ms : List Message} (h : ∀ m ∈ ms, Announces m.head m.announced ∧ m.announced = m.body.length)
    {m : Message} (hm : Announces m.head m.body.length) {p q : Str} (hpq : p ++ q = m.text) (hq : q ≠ []) :
    readStream (ms.flatMap Message.text ++ p) = (ms.map Message.body, p) := by
  have hms : ∀ m ∈ ms, Announces m.head m.body.length := fun m hm => (h m hm).2 ▸ (h m hm).1
  have hlen := length_stream fun m hm => (h m hm).1
  refine readMessages_part hms hm hpq hq ?_
  rw [List.length_append]
  omega

end AirobotMsgd.HttpText
