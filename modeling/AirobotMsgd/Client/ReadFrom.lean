/-
`sync_read_from` of `client_ops` (source/client_ops.cpp): a message is the decimal length of its payload, a ':' and the
payload, read with blocking `read_some` calls into a vector.

The peer's bytes are a stream, all that will arrive before the connection fails or ends, and the sizes of the chunks the
calls are offered: the k-th call gives as many bytes as the k-th size, or fewer if its window or the rest of the stream
is shorter. Behind the stream every call is an error. A call with an empty window returns at once, with 0 and no error.
`size_t` subtractions, additions, erases and windows are events; past a window that begins behind the vector the run is
undefined.
-/
import AirobotMsgd.Front.FrontConn

namespace AirobotMsgd.ClientOps

open AirobotMsgd.Bytes AirobotMsgd.FrontConn

/-! ## The socket -/

structure Sock where
  stream : Str
  sizes : ℕ → ℕ+

/-- `read_some` into a window of this length; `none` is an error code -/
def readSome (sock : Sock) (win : ℕ) : Option Str × Sock :=
  if win = 0 then (some [], sock)
  else if sock.stream = [] then (none, sock)
  else
    let n := min (sock.sizes 0 : ℕ) win
    (some (sock.stream.take n), ⟨sock.stream.drop n, fun k => sock.sizes (k + 1)⟩)

theorem readSome_some (sock : Sock) {win : ℕ} (hwin : win ≠ 0) (hstream : sock.stream ≠ []) :
    readSome sock win =
      (some (sock.stream.take (min (sock.sizes 0 : ℕ) win)),
        ⟨sock.stream.drop (min (sock.sizes 0 : ℕ) win), fun k => sock.sizes (k + 1)⟩) := by
  rw [readSome, if_neg hwin, if_neg hstream]

theorem readSome_data {sock sock' : Sock} {win : ℕ} {data : Str} (h : readSome sock win = (some data, sock')) :
    data.length ≤ win ∧ (data ≠ [] → sock'.stream.length < sock.stream.length) := by
  by_cases hwin : win = 0
  · rw [readSome, if_pos hwin, Prod.mk.injEq, Option.some.injEq] at h
    obtain ⟨rfl, rfl⟩ := h
    simp
  by_cases hstream : sock.stream = []
  · rw [readSome, if_neg hwin, if_pos hstream] at h
    exact absurd (congrArg Prod.fst h) (by simp)
  · rw [readSome_some sock hwin hstream, Prod.mk.injEq, Option.some.injEq] at h
    obtain ⟨rfl, rfl⟩ := h
    have hpos := (sock.sizes 0).pos
    have hlen := List.length_pos_iff.2 hstream
    simp only [List.length_take, List.length_drop]
    omega

/-! ## The decoder -/

inductive Ev where
  /-- `a - b` in `size_t` -/
  | minus (a b : ℕ)
  /-- `a + b` in `size_t` -/
  | plus (a b : ℕ)
  /-- `n` bytes of a vector of `size` bytes are read from its start -/
  | peek (n size : ℕ)
  /-- the first n of `size` elements are erased -/
  | erase (n size : ℕ)
  /-- a call is given `len` bytes from `off` on, in a vector of `size` bytes -/
  | window (off len size : ℕ)
deriving DecidableEq, Repr

inductive Outcome where
  | ret (len : ℕ) (readBuff : Str)
  /-- `resize` throws -/
  | lengthError
  | undefined
deriving DecidableEq, Repr

/-- `a - b` in `size_t` -/
def minus (a b : ℕ) : ℕ := if b ≤ a then a - b else 2 ^ 64 - (b - a)

/-- `a + b` in `size_t` -/
def plus (a b : ℕ) : ℕ := (a + b) % 2 ^ 64

def emit (evs : List Ev) (r : Outcome × List Ev) : Outcome × List Ev := (r.1, evs ++ r.2)

/-- `while (actual_len < real_len)` -/
def readRest (sock : Sock) (readBuff : Str) (actualLen realLen : ℕ) : Outcome × List Ev :=
  if actualLen < realLen then
    emit [.minus readBuff.length actualLen, .window actualLen (minus readBuff.length actualLen) readBuff.length] <|
      if readBuff.length < actualLen then (.undefined, [])
      else
        match _h : readSome sock (readBuff.length - actualLen) with
        | (none, _) => (.ret actualLen readBuff, [])
        | (some data, sock') =>
          if _hdata : data = [] then (.ret actualLen readBuff, [])
          else readRest sock' (overwrite readBuff actualLen data) (actualLen + data.length) realLen
  else (.ret actualLen readBuff, [])
termination_by sock.stream.length
decreasing_by exact (readSome_data _h).2 _hdata

/-- what follows the first call, which has given `len` bytes -/
def decode (sock : Sock) (readBuff : Str) (len : ℕ) : Outcome × List Ev :=
  let lenStr := cut (readBuff.take 20)
  emit [.peek 20 readBuff.length] <|
    match find [58] lenStr with
    | none => (.ret 0 readBuff, [])
    | some pos =>
      let realLen := toSizeT (atoi (lenStr.take pos))
      if realLen = 0 then (.ret 0 readBuff, [])
      else
        emit [.erase (pos + 1) readBuff.length] <|
          let readBuff := readBuff.drop (pos + 1)
          let grow := readBuff.length < realLen
          emit (if grow then [.plus realLen 256] else []) <|
            if grow ∧ maxSize < plus realLen 256 then (.lengthError, [])
            else
              let readBuff := if grow then resize readBuff (plus realLen 256) else readBuff
              emit [.minus len (pos + 1)] <| readRest sock readBuff (minus len (pos + 1)) realLen

def syncReadFrom (sock : Sock) (readBuff : Str) : Outcome × List Ev :=
  emit [.window 0 readBuff.length readBuff.length] <|
    match readSome sock readBuff.length with
    | (none, _) => (.ret 0 readBuff, [])
    | (some data, sock) => decode sock (overwrite readBuff 0 data) data.length

@[simp] theorem emit_fst (evs : List Ev) (r : Outcome × List Ev) : (emit evs r).1 = r.1 := rfl

@[simp] theorem emit_snd (evs : List Ev) (r : Outcome × List Ev) : (emit evs r).2 = evs ++ r.2 := rfl

/-! ## Rounds of the loop -/

/-- the events of a round -/
def roundEvs (size actualLen : ℕ) : List Ev := [.minus size actualLen, .window actualLen (minus size actualLen) size]

theorem readRest_done (sock : Sock) (readBuff : Str) {actualLen realLen : ℕ} (h : realLen ≤ actualLen) :
    readRest sock readBuff actualLen realLen = (.ret actualLen readBuff, []) := by
  rw [readRest, if_neg (Nat.not_lt.2 h)]

/-- the vector is full, or the stream has ended -/
theorem readRest_end (sock : Sock) {readBuff : Str} {actualLen realLen : ℕ} (hlt : actualLen < realLen)
    (hle : actualLen ≤ readBuff.length) (hend : actualLen = readBuff.length ∨ sock.stream = []) :
    readRest sock readBuff actualLen realLen =
      emit (roundEvs readBuff.length actualLen) (.ret actualLen readBuff, []) := by
  rw [readRest, if_pos hlt, if_neg (Nat.not_lt.2 hle)]
  congr 1
  split
  · rfl
  · rename_i data sock' hread
    rw [dif_pos]
    rcases hend with hfull | hstream
    · have := (readSome_data hread).1
      exact List.length_eq_zero_iff.1 (by omega)
    · by_cases hwin : readBuff.length - actualLen = 0
      · rw [hwin] at hread
        exact List.length_eq_zero_iff.1 (Nat.le_zero.1 (readSome_data hread).1)
      · rw [readSome, if_neg hwin, if_pos hstream] at hread
        exact absurd (congrArg Prod.fst hread) (by simp)

/-- a chunk is read -/
theorem readRest_round {sock : Sock} {readBuff : Str} {actualLen realLen : ℕ} (hlt : actualLen < realLen)
    (hin : actualLen < readBuff.length) (hstream : sock.stream ≠ []) :
    readRest sock readBuff actualLen realLen =
      let n := min (sock.sizes 0 : ℕ) (readBuff.length - actualLen)
      emit (roundEvs readBuff.length actualLen)
        (readRest ⟨sock.stream.drop n, fun k => sock.sizes (k + 1)⟩ (overwrite readBuff actualLen (sock.stream.take n))
          (actualLen + (sock.stream.take n).length) realLen) := by
  have hread := readSome_some sock (Nat.sub_ne_zero_of_lt hin) hstream
  have hdata : sock.stream.take (min (sock.sizes 0 : ℕ) (readBuff.length - actualLen)) ≠ [] := by
    have hpos := (sock.sizes 0).pos
    simp only [ne_eq, List.take_eq_nil_iff, hstream, or_false]
    omega
  rw [readRest, if_pos hlt, if_neg (Nat.not_lt.2 hin.le)]
  dsimp only
  congr 1
  split
  · rename_i sock' hnone
    rw [hread] at hnone
    exact absurd (congrArg Prod.fst hnone) (by simp)
  · rename_i data sock' hsome
    rw [hread, Prod.mk.injEq, Option.some.injEq] at hsome
    obtain ⟨rfl, rfl⟩ := hsome
    rw [dif_neg hdata]

/-! ## Decoding within the buffer -/

def Ev.ok : Ev → Prop
  | .minus a b => b ≤ a
  | .plus a b => a + b < 2 ^ 64
  | .peek n size => n ≤ size
  | .erase n size => n ≤ size
  | .window off len size => off + len ≤ size

instance (e : Ev) : Decidable e.ok := by
  cases e <;> unfold Ev.ok <;> infer_instance

/-- no event is out of range, and neither is the length that is returned -/
def Safe (r : Outcome × List Ev) : Prop :=
  (∀ e ∈ r.2, e.ok) ∧ ∀ len readBuff, r.1 = .ret len readBuff → len ≤ readBuff.length

theorem safe_emit {evs : List Ev} {r : Outcome × List Ev} : Safe (emit evs r) ↔ (∀ e ∈ evs, e.ok) ∧ Safe r := by
  simp only [Safe, emit_fst, emit_snd, List.forall_mem_append, and_assoc]

theorem safe_emit_of {evs : List Ev} (h : ∀ e ∈ evs, e.ok) {r : Outcome × List Ev} : Safe (emit evs r) ↔ Safe r := by
  rw [safe_emit, and_iff_right h]

theorem safe_ret {len : ℕ} {readBuff : Str} : Safe (.ret len readBuff, []) ↔ len ≤ readBuff.length := by
  simp [Safe]

theorem roundEvs_ok {size actualLen : ℕ} (h : actualLen ≤ size) : ∀ e ∈ roundEvs size actualLen, e.ok := by
  simp [roundEvs, Ev.ok, minus, h]

/-- the loop stays within the buffer -/
theorem readRest_safe {sock : Sock} {readBuff : Str} {actualLen : ℕ} (h : actualLen ≤ readBuff.length) (realLen : ℕ) :
    Safe (readRest sock readBuff actualLen realLen) := by
  induction hn : sock.stream.length using Nat.strong_induction_on generalizing sock readBuff actualLen with
  | _ n ih =>
    by_cases hlt : actualLen < realLen
    · by_cases hend : actualLen = readBuff.length ∨ sock.stream = []
      · rw [readRest_end sock hlt h hend, safe_emit, safe_ret]
        exact ⟨roundEvs_ok h, h⟩
      · rw [not_or] at hend
        have hin : actualLen < readBuff.length := by omega
        rw [readRest_round hlt hin hend.2]
        refine safe_emit.2 ⟨roundEvs_ok h, ?_⟩
        have hpos := (sock.sizes 0).pos
        have hlen := List.length_pos_iff.2 hend.2
        have hfit : actualLen + (sock.stream.take (min (sock.sizes 0 : ℕ) (readBuff.length - actualLen))).length ≤
            readBuff.length := by
          simp only [List.length_take]
          omega
        refine ih _ ?_ ?_ rfl
        · simp only [List.length_drop]
          omega
        · rw [length_overwrite hfit]
          exact hfit
    · rw [readRest_done _ _ (Nat.not_lt.1 hlt), safe_ret]
      exact h

theorem toSizeT_of_nonneg {i : ℤ} (h : 0 ≤ i) (hlt : i < 2 ^ 31) : (toSizeT i : ℤ) = i := by
  unfold toSizeT
  omega

theorem toSizeT_of_neg {i : ℤ} (h : i < 0) (hge : -2 ^ 31 ≤ i) : (toSizeT i : ℤ) = 2 ^ 64 + i := by
  unfold toSizeT
  omega

/-- where a colon is found, it is one of the first 20 bytes -/
theorem find_colon_lt {s : Str} {pos : ℕ} (h : find [58] s = some pos) : pos < s.length := by
  obtain ⟨-, hp, -⟩ := find_eq_some.1 h
  have := hp.length_le
  simp only [List.length_singleton, List.length_drop] at this
  omega

theorem length_cut_take (v : Str) (n : ℕ) : (cut (v.take n)).length ≤ n :=
  ((List.takeWhile_prefix _).length_le).trans (List.length_take_le n v)

/-- the number before the colon is 0, or too negative for a `resize`, or positive and the colon one of the bytes that
were read -/
def Numbered (readBuff : Str) (len : ℕ) : Prop :=
  ∀ pos, find [58] (cut (readBuff.take 20)) = some pos →
    atoi ((cut (readBuff.take 20)).take pos) = 0 ∨ atoi ((cut (readBuff.take 20)).take pos) < -256 ∨
      (0 < atoi ((cut (readBuff.take 20)).take pos) ∧ pos < len)

theorem decode_safe_iff (sock : Sock) {readBuff : Str} {len : ℕ} (h20 : 20 ≤ readBuff.length)
    (hmax : readBuff.length ≤ maxSize) (hlen : len ≤ readBuff.length) :
    Safe (decode sock readBuff len) ↔ Numbered readBuff len := by
  have hpeek : ∀ e ∈ [Ev.peek 20 readBuff.length], e.ok := by simpa [Ev.ok] using h20
  simp only [decode, Numbered]
  rw [safe_emit_of hpeek]
  generalize hstr : cut (readBuff.take 20) = lenStr
  cases hfind : find [58] lenStr with
  | none => simp [safe_ret]
  | some pos =>
    have hpos : pos + 1 ≤ readBuff.length := by
      have h1 := find_colon_lt hfind
      have h2 := length_cut_take readBuff 20
      rw [hstr] at h2
      omega
    have herase : ∀ e ∈ [Ev.erase (pos + 1) readBuff.length], e.ok := by simpa [Ev.ok] using hpos
    have hdrop : (readBuff.drop (pos + 1)).length = readBuff.length - (pos + 1) := List.length_drop
    obtain ⟨hlow, hhigh⟩ := atoi_range (lenStr.take pos)
    simp only [Option.some.injEq, forall_eq']
    generalize atoi (lenStr.take pos) = number at hlow hhigh
    rcases lt_trichotomy number 0 with hneg | rfl | hposi
    · -- a negative number is a huge size
      have hsize := toSizeT_of_neg hneg hlow
      generalize toSizeT number = realLen at hsize
      have hgrow : (readBuff.drop (pos + 1)).length < realLen := by
        unfold maxSize at hmax
        omega
      rw [if_neg (by omega), safe_emit_of herase, if_pos hgrow]
      have hplus : (∀ e ∈ [Ev.plus realLen 256], e.ok) ↔ number < -256 := by
        simp only [List.forall_mem_singleton, Ev.ok]
        omega
      rw [safe_emit, hplus]
      constructor
      · intro h
        exact .inr (.inl h.1)
      · intro h
        have hlt : number < -256 := by omega
        refine ⟨hlt, ?_⟩
        rw [if_pos ⟨hgrow, by unfold maxSize plus; omega⟩]
        simp [Safe]
    · rw [if_pos (show toSizeT 0 = 0 from rfl), safe_ret]
      exact iff_of_true (Nat.zero_le _) (.inl rfl)
    · have hsize := toSizeT_of_nonneg hposi.le hhigh
      generalize toSizeT number = realLen at hsize
      have hplus : ∀ e ∈ (if (readBuff.drop (pos + 1)).length < realLen then [Ev.plus realLen 256] else []), e.ok := by
        split_ifs
        · simp only [List.forall_mem_singleton, Ev.ok]
          omega
        · simp
      have hthrow : ¬ ((readBuff.drop (pos + 1)).length < realLen ∧ maxSize < plus realLen 256) := by
        unfold maxSize plus
        omega
      rw [if_neg (by omega), safe_emit_of herase, safe_emit_of hplus, if_neg hthrow, safe_emit]
      have hminus : (∀ e ∈ [Ev.minus len (pos + 1)], e.ok) ↔ pos < len := by
        simp only [List.forall_mem_singleton, Ev.ok]
        omega
      rw [hminus]
      constructor
      · intro h
        exact .inr (.inr ⟨hposi, h.1⟩)
      · intro h
        have hlt : pos < len := by omega
        refine ⟨hlt, readRest_safe ?_ realLen⟩
        rw [minus, if_pos (Nat.succ_le_of_lt hlt)]
        -- what is left of the vector holds what is left of the bytes
        split_ifs
        · rw [length_resize, plus]
          omega
        · omega

/-- the condition, of the first chunk and the vector -/
def Prefixed (sock : Sock) (readBuff : Str) : Prop :=
  ∀ data sock', readSome sock readBuff.length = (some data, sock') → Numbered (overwrite readBuff 0 data) data.length

/-- **When the decoding stays within the buffer.** -/
theorem safe_iff_prefixed (sock : Sock) {readBuff : Str} (h20 : 20 ≤ readBuff.length) (hmax : readBuff.length ≤ maxSize) :
    Safe (syncReadFrom sock readBuff) ↔ Prefixed sock readBuff := by
  have hwindow : ∀ e ∈ [Ev.window 0 readBuff.length readBuff.length], e.ok := by simp [Ev.ok]
  rw [syncReadFrom, safe_emit_of hwindow, Prefixed]
  rcases hread : readSome sock readBuff.length with ⟨_ | data, sock'⟩
  · simp [safe_ret]
  · have hdata := (readSome_data hread).1
    have hlength : (overwrite readBuff 0 data).length = readBuff.length := length_overwrite (by omega)
    dsimp only
    rw [decode_safe_iff sock' (by omega) (by omega) (by omega)]
    simp

theorem safe_iff_prefixed_two :
    Safe (syncReadFrom ⟨ascii "2:ab", fun _ => 3⟩ (List.replicate 20 0)) ↔
      Prefixed ⟨ascii "2:ab", fun _ => 3⟩ (List.replicate 20 0) :=
  safe_iff_prefixed _ (by decide) (by decide)

/-- **A negative length.** The vector is resized to 2^64 - 5 + 256, that is to 251 bytes. -/
theorem negative_number_wraps : ¬ Safe (syncReadFrom ⟨ascii "-5:", fun _ => 3⟩ (List.replicate 32 0)) := by
  intro h
  have hdecode : Safe (decode ⟨[], fun _ => 3⟩ (ascii "-5:" ++ List.replicate 29 0) 3) := (safe_emit.1 h).2
  have hnumbered := (decode_safe_iff _ (by decide) (by decide) (by decide)).1 hdecode
  exact absurd (hnumbered 2 (by decide +kernel)) (by decide +kernel)

end AirobotMsgd.ClientOps
