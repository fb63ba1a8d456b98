/-
The numbers of a text, and the thread's errno (source/json11.cpp, `parse_number`).

`parse_number` converts an integer of at most 20 bytes exactly, but returns it only if errno is not ERANGE afterwards; it
never sets errno before the conversion. So a number out of range leaves its mark for every number behind it on the
thread, in the same text or in a later one: from then on each integer is a rounded double.

Which numbers a parse converts does not depend on errno: those where a value is due (`Due`), also of a text that breaks
off or goes on with something else.

Results:
- `parse_range`: errno after a parse is set if and only if it was before, or a number of the text is out of range.
- `history_eq`: the same for a history of parses.
- `survives_iff_inRange`: an id survives exactly if no number before it is out of range, in its text and in those parsed
  before.
- `rounded_after_overflow`: it does not survive 2^64.
-/
import AirobotMsgd.Core.StringMap
import AirobotMsgd.Json.Accepts

namespace AirobotMsgd.Json11

open AirobotMsgd.Bytes AirobotMsgd.JsonText AirobotMsgd.StringMap

namespace JsonParser

/-! ## errno is never cleared -/

@[simp] theorem parseStringLoop_errno (p : JsonParser) (s out : Str) (last : ℤ) :
    (parseStringLoop p s out last).2.errno = p.errno := by
  fun_induction parseStringLoop p s out last <;> simp_all

@[simp] theorem parseString_errno (p : JsonParser) : p.parseString.2.errno = p.errno :=
  parseStringLoop_errno p _ _ _

@[simp] theorem expect_errno (p : JsonParser) (ch : UInt8) (expected : Str) (res : Json) :
    (p.expect ch expected res).2.errno = p.errno := by
  simp only [expect]
  split_ifs <;> rfl

theorem parseDecimal_errno {p : JsonParser} (h : p.errno = true) (start rest : Str) :
    (parseDecimal p start rest).2.errno = true := by
  simp only [parseDecimal]
  split_ifs <;> simp [h]

theorem parseInteger_errno (text : Str) : (parseInteger text true).2 = true := by
  simp only [parseInteger]
  split_ifs <;> simp

theorem parseNumber_errno {p : JsonParser} (h : p.errno = true) : p.parseNumber.2.errno = true := by
  simp only [parseNumber]
  generalize (if cur p.rest = 45 then p.rest.tail else p.rest) = s
  have hint := parseInteger_errno (upTo p.rest (s.dropWhile isDigit))
  rw [h]
  generalize parseInteger (upTo p.rest (s.dropWhile isDigit)) true = r at hint
  obtain ⟨value, errno⟩ := r
  split_ifs
  · rfl
  · rfl
  · cases value with
    | some value => exact hint
    | none => exact parseDecimal_errno hint _ _
  · exact parseDecimal_errno h _ _

section
variable {parseValue : JsonParser → Json × JsonParser}

theorem parseMembers_errno (hv : ∀ p, p.errno = true → (parseValue p).2.errno = true) (n : ℕ) (ch : UInt8)
    {p : JsonParser} (h : p.errno = true) (data : List (Str × Json)) :
    (parseMembers parseValue n ch p data).2.errno = true := by
  induction n generalizing ch p data with
  | zero => exact h
  | succ n ih =>
    have hvalue := hv p.parseString.2.getNextToken.2 (by simp [h])
    simp only [parseMembers]
    split_ifs
    all_goals first | exact ih _ (by simp [hvalue]) _ | simp [h, hvalue]

theorem parseElements_errno (hv : ∀ p, p.errno = true → (parseValue p).2.errno = true) (n : ℕ) (ch : UInt8)
    {p : JsonParser} (h : p.errno = true) (data : List Json) :
    (parseElements parseValue n ch p data).2.errno = true := by
  induction n generalizing ch p data with
  | zero => exact h
  | succ n ih =>
    generalize hq : ({ p with rest := ch :: p.rest } : JsonParser) = q
    have hvalue := hv q (by rw [← hq]; exact h)
    simp only [parseElements, hq]
    split_ifs
    all_goals first | exact ih _ (by simp [hvalue]) _ | simp [h, hvalue]

end

/-- **errno is never cleared.** -/
theorem parseJson_errno (levels : ℕ) {p : JsonParser} (h : p.errno = true) : (parseJson levels p).2.errno = true := by
  induction levels generalizing p with
  | zero => exact h
  | succ levels ih =>
    have htok : p.getNextToken.2.errno = true := by simp [h]
    simp only [parseJson]
    split_ifs
    all_goals first
      | exact parseNumber_errno htok
      | exact parseMembers_errno (fun q hq => ih hq) _ _ (by simp [h]) _
      | exact parseElements_errno (fun q hq => ih hq) _ _ (by simp [h]) _
      | simp [h]

end JsonParser

/-! ## Out of range -/

/-- the conversion of the number sets errno: of an integer of at most 20 bytes `strtoull` or `atoll`, of any other number
`strtod` -/
def OutOfRange (n : Number) : Prop :=
  if n.isInteger ∧ n.text.length ≤ 20 then ¬ InRange (intValue n) else (Double.ofRat n.neg n.mag).2 = true

/-- where a value of at most so many levels is due, the text has a number out of range -/
def RangeErrorAt (levels : ℕ) (text : Str) : Prop :=
  ∃ w t n tail, Blank w ∧ text = w ++ (t ++ (n.text ++ tail)) ∧ Due sem levels t ∧ Stops n tail ∧ OutOfRange n

theorem RangeErrorAt.blank {levels : ℕ} {w text : Str} (hw : Blank w) (h : RangeErrorAt levels text) :
    RangeErrorAt levels (w ++ text) := by
  obtain ⟨w', t, n, tail, hw', rfl, hdue, hstop, hout⟩ := h
  exact ⟨w ++ w', t, n, tail, hw.append hw', by rw [List.append_assoc], hdue, hstop, hout⟩

theorem readWith_errno {n : Number} {tail : Str} (h : Stops n tail) (errno : Bool) :
    (readWith n (JsonParser.strtod (n.text ++ tail)) errno).2 = true ↔ errno = true ∨ OutOfRange n := by
  unfold readWith OutOfRange
  by_cases hshort : n.isInteger = true ∧ n.text.length ≤ 20
  · rw [if_pos hshort, if_pos hshort]
    cases errno <;> by_cases hin : InRange (intValue n) <;> simp [hin]
  · rw [JsonParser.strtod_text n h fun hint hlen => absurd ⟨hint, hlen⟩ hshort, if_neg hshort, if_neg hshort,
      Bool.or_eq_true]

namespace JsonParser

/-! ## Where errno is set -/

theorem parseDecimal_failed_errno {p : JsonParser} (hp : p.failed = false) (start rest : Str)
    (h : (parseDecimal p start rest).2.failed = true) : (parseDecimal p start rest).2.errno = p.errno := by
  simp only [parseDecimal] at h ⊢
  split_ifs at h ⊢ <;> simp_all

/-- `parse_number` sets errno at a number out of range only -/
theorem parseNumber_range {p : JsonParser} (hf : p.failed = false) (hp : p.errno = false)
    (h : p.parseNumber.2.errno = true) : ∃ n tail, p.rest = n.text ++ tail ∧ Stops n tail ∧ OutOfRange n := by
  have hok : p.parseNumber.2.failed = false := by
    simp only [parseNumber] at h ⊢
    generalize (if cur p.rest = 45 then p.rest.tail else p.rest) = s at h ⊢
    generalize parseInteger (upTo p.rest (s.dropWhile isDigit)) p.errno = r at h ⊢
    obtain ⟨_ | value, errno⟩ := r
    · split_ifs at h ⊢ with _ _ hint
      · simp [hp] at h
      · simp [hp] at h
      · simp [parseDecimal, hint.1, hint.2.1, hint.2.2, hf]
      · by_contra hfail
        rw [parseDecimal_failed_errno hf _ _ (by simpa using hfail), hp] at h
        cases h
    · split_ifs at h ⊢ with _ _ hint
      · simp [hp] at h
      · simp [hp] at h
      · exact hf
      · by_contra hfail
        rw [parseDecimal_failed_errno hf _ _ (by simpa using hfail), hp] at h
        cases h
  obtain ⟨n, tail, htext, hstop⟩ := parseNumber_inv hok
  rw [parseNumber_scan n hstop htext, htext] at h
  have hout := (readWith_errno hstop p.errno).1 h
  rw [hp] at hout
  exact ⟨n, tail, htext, hstop, hout.resolve_left (by simp)⟩

/-- where the token is not a failure, blanks are before it -/
theorem token_split {p : JsonParser} (h : p.getNextToken.2.failed = false) :
    ∃ w, Blank w ∧ p.rest = w ++ p.getNextToken.1 :: p.getNextToken.2.rest := by
  obtain ⟨w, ch, rest, hw, -, hp, heq⟩ := getNextToken_inv h
  exact ⟨w, hw, by rw [hp, heq]⟩

section
variable {parseValue : JsonParser → Json × JsonParser} {D : Denotation Json Bool} {R : Str → Prop}

/-- the loop over the elements sets errno inside an element only -/
theorem parseElements_range (hr : Reads parseValue D) (hR : ∀ {w x}, Blank w → R x → R (w ++ x))
    (hv : ∀ {p}, p.errno = false → (parseValue p).2.errno = true → R p.rest) {n : ℕ} {p : JsonParser}
    {data : List Json} (hp : p.errno = false)
    (h : (parseElements parseValue n p.getNextToken.1 p.getNextToken.2 data).2.errno = true) :
    ∃ u x vs s', p.rest = u ++ x ∧ Before (Padded D) p.errno u vs s' ∧ R x := by
  induction n generalizing p data with
  | zero => simp [parseElements, hp] at h
  | succ n ih =>
    by_cases htoken : p.getNextToken.2.failed = true
    · rw [parseElements_failed _ _ _ _ htoken] at h
      simp [hp] at h
    obtain ⟨w, hw, hsplit⟩ := token_split (by simpa using htoken)
    generalize hq : ({ p.getNextToken.2 with rest := p.getNextToken.1 :: p.getNextToken.2.rest } : JsonParser) = q
    have hqr : q.rest = p.getNextToken.1 :: p.getNextToken.2.rest := by rw [← hq]
    have hqe : q.errno = p.errno := by rw [← hq, getNextToken_errno]
    rw [← hqr] at hsplit
    by_cases hset : (parseValue q).2.errno = true
    · exact ⟨[], p.rest, [], p.errno, rfl, .nil _, hsplit ▸ hR hw (hv (hqe.trans hp) hset)⟩
    have hsound := @Reads.sound _ _ hr q
    rw [Bool.not_eq_true] at hset
    simp only [parseElements, hq, if_neg htoken] at h
    generalize parseValue q = r at h hset hsound
    obtain ⟨v, r⟩ := r
    simp only at hset hsound h
    split_ifs at h with hvf hclose hcomma
    any_goals simp [hset] at h
    -- a comma: errno is still clear, and the loop goes on
    rw [not_not] at hcomma
    obtain ⟨w1, t, a, e, hw1, hrest, hD, hsame⟩ := hsound (by simpa using hvf)
    obtain ⟨w2, hw2, hsplit2⟩ := token_split (p := r)
      (by rw [getNextToken_read (by rw [hcomma]; decide)]; simpa using hvf)
    rw [hcomma] at hsplit2
    obtain ⟨rfl, rfl⟩ := hsame (by rw [hsplit2]; exact (ends_blank hw2 (by decide) _).noHex)
    obtain ⟨u, x, vs, s', hu, hbefore, hx⟩ := ih (by simp [hset]) h
    rw [getNextToken_errno] at hbefore
    refine ⟨w ++ w1 ++ t ++ w2 ++ 44 :: u, x, a :: vs, s', ?_, .cons ⟨hw.append hw1, hqe ▸ hD, hw2⟩ hbefore, hx⟩
    rw [hsplit, hrest, hsplit2, hu]
    simp

/-- the loop over the members sets errno inside a value only -/
theorem parseMembers_range (hr : Reads parseValue D)
    (hv : ∀ {p}, p.errno = false → (parseValue p).2.errno = true → R p.rest) {n : ℕ} {p : JsonParser}
    {data : List (Str × Json)} (hf : p.failed = false) (hp : p.errno = false)
    (h : (parseMembers parseValue n p.getNextToken.1 p.getNextToken.2 data).2.errno = true) :
    ∃ u w items w' x ms s', p.rest = u ++ (Opening w items w' [] ++ x) ∧ Blank w ∧ Blank w' ∧
      Before (Member D) p.errno u ms s' ∧ R x := by
  induction n generalizing p data with
  | zero => simp [parseMembers, hp] at h
  | succ n ih =>
    simp only [parseMembers] at h
    by_cases hopen : p.getNextToken.1 = 34
    swap
    · rw [if_pos hopen] at h
      simp [hp] at h
    rw [if_neg (not_not.2 hopen)] at h
    have htoken : p.getNextToken.2.failed = false := by rw [getNextToken_read (by rw [hopen]; decide), hf]
    obtain ⟨w, hw, hsplit⟩ := token_split htoken
    -- the name and the colon
    by_cases hkf : p.getNextToken.2.parseString.2.failed = true
    · rw [if_pos hkf] at h
      simp [hp] at h
    rw [if_neg hkf] at h
    obtain ⟨items, tail, htext⟩ := parseString_inv (by simpa using hkf)
    simp only [parseString_items items htext] at h
    generalize hq : ({ p.getNextToken.2 with rest := tail } : JsonParser) = q at h
    have hqr : q.rest = tail := by rw [← hq]
    have hqe : q.errno = p.errno := by rw [← hq, getNextToken_errno]
    have hqf : q.failed = false := by rw [← hq, htoken]
    by_cases hcolon : q.getNextToken.1 = 58
    swap
    · rw [if_pos hcolon] at h
      simp [hqe, hp] at h
    rw [if_neg (not_not.2 hcolon)] at h
    obtain ⟨w', hw', hsplit'⟩ := token_split (p := q) (by rw [getNextToken_read (by rw [hcolon]; decide), hqf])
    have hname : p.rest = Opening w items w' [] ++ q.getNextToken.2.rest := by
      rw [hsplit, hopen, htext, ← hqr, hsplit', hcolon]
      simp [Opening, quote]
    by_cases hset : (parseValue q.getNextToken.2).2.errno = true
    · exact ⟨[], w, items, w', _, [], p.errno, hname, hw, hw', .nil _, hv (by simp [hqe, hp]) hset⟩
    have hsound := @Reads.sound _ _ hr q.getNextToken.2
    rw [Bool.not_eq_true] at hset
    generalize parseValue q.getNextToken.2 = r at h hset hsound
    obtain ⟨v, r⟩ := r
    simp only at hset hsound h
    split_ifs at h with hvf hclose hcomma
    any_goals simp [hset] at h
    -- a comma: errno is still clear, and the loop goes on
    rw [not_not] at hcomma
    obtain ⟨w1, t, a, e, hw1, hrest, hD, hsame⟩ := hsound (by simpa using hvf)
    have hcf : r.getNextToken.2.failed = false := by
      rw [getNextToken_read (by rw [hcomma]; decide)]
      simpa using hvf
    obtain ⟨w2, hw2, hsplit2⟩ := token_split hcf
    rw [hcomma] at hsplit2
    obtain ⟨rfl, rfl⟩ := hsame (by rw [hsplit2]; exact (ends_blank hw2 (by decide) _).noHex)
    obtain ⟨u, w3, items', w4, x, ms, s', hu, hw3, hw4, hbefore, hx⟩ := ih hcf (by simp [hset]) h
    rw [getNextToken_errno] at hbefore
    rw [getNextToken_errno, hqe] at hD
    refine ⟨w ++ quote items ++ w' ++ 58 :: (w1 ++ t ++ w2) ++ 44 :: u, w3, items', w4, x, _, s', ?_, hw3, hw4,
      .cons ⟨hw, items, hw', hw1, hD, hw2⟩ hbefore, hx⟩
    rw [hname, hrest, hsplit2, hu]
    simp [Opening]

end

/-- **Where errno is set**, a number is out of range. -/
theorem parseJson_range {levels : ℕ} {p : JsonParser} (hp : p.errno = false) (h : (parseJson levels p).2.errno = true) :
    RangeErrorAt levels p.rest := by
  induction levels generalizing p with
  | zero => simp [parseJson, hp] at h
  | succ levels ih =>
    have hr := reads_parseJson levels
    have htoken : p.getNextToken.2.failed = false := by
      by_contra hf
      simp only [parseJson, if_pos (by simpa using hf : p.getNextToken.2.failed = true)] at h
      simp [hp] at h
    obtain ⟨w, ch, rest, hw, -, hrest, heq⟩ := getNextToken_inv htoken
    obtain ⟨text, err, failed, errno⟩ := p
    simp only at hp hrest
    subst hp hrest
    rw [heq] at htoken
    simp only at htoken
    subst htoken
    simp only [parseJson, heq] at h
    refine RangeErrorAt.blank hw ?_
    rw [if_neg (by simp)] at h
    -- by the first byte
    by_cases hnum : ch = 45 ∨ isDigit ch = true
    · rw [if_pos hnum] at h
      obtain ⟨n, tail, htext, hstop, hout⟩ := parseNumber_range rfl rfl h
      exact ⟨[], [], n, tail, Blank.nil, htext, .here levels, hstop, hout⟩
    rw [if_neg hnum] at h
    by_cases ht : ch = 116
    · rw [if_pos ht, expect_errno] at h
      cases h
    rw [if_neg ht] at h
    by_cases hf : ch = 102
    · rw [if_pos hf, expect_errno] at h
      cases h
    rw [if_neg hf] at h
    by_cases hn : ch = 110
    · rw [if_pos hn, expect_errno] at h
      cases h
    rw [if_neg hn] at h
    by_cases hs : ch = 34
    · rw [if_pos hs, parseString_errno] at h
      cases h
    rw [if_neg hs] at h
    by_cases ho : ch = 123
    · rw [if_pos ho] at h
      by_cases hc : (getNextToken ⟨rest, err, false, false⟩).1 = 125
      · rw [if_pos hc, getNextToken_errno] at h
        cases h
      rw [if_neg hc] at h
      obtain ⟨u, w1, items, w2, x, ms, s', hu, hw1, hw2, hbefore, w3, t, n, tail, hw3, hx, hdue, hstop, hout⟩ :=
        parseMembers_range hr ih rfl rfl h
      refine ⟨[], 123 :: u ++ Opening w1 items w2 w3 ++ t, n, tail, Blank.nil, ?_,
        .member hbefore hw1 items hw2 hw3 hdue, hstop, hout⟩
      simp only at hu
      rw [ho, hu, hx]
      simp [Opening]
    rw [if_neg ho] at h
    by_cases ha : ch = 91
    · rw [if_pos ha] at h
      by_cases hc : (getNextToken ⟨rest, err, false, false⟩).1 = 93
      · rw [if_pos hc, getNextToken_errno] at h
        cases h
      rw [if_neg hc] at h
      obtain ⟨u, x, vs, s', hu, hbefore, w1, t, n, tail, hw1, hx, hdue, hstop, hout⟩ :=
        parseElements_range hr RangeErrorAt.blank ih rfl h
      refine ⟨[], 91 :: u ++ w1 ++ t, n, tail, Blank.nil, ?_, .element hbefore hw1 hdue, hstop, hout⟩
      simp only at hu
      rw [ha, hu, hx]
      simp
    rw [if_neg ha, fail_errno] at h
    cases h

/-! ## A number out of range sets errno -/

section
variable {parseValue : JsonParser → Json × JsonParser} {D : Denotation Json Bool}

/-- the loop over the elements, past those with a comma behind them -/
theorem parseElements_before (hr : Reads parseValue D) {errno errno' : Bool} {u x : Str} {vs : List Json}
    (h : Before (Padded D) errno u vs errno') {n : ℕ} (hn : vs.length < n) {p : JsonParser} (herrno : p.errno = errno)
    (hf : p.failed = false) (hp : p.rest = u ++ x) (data : List Json) :
    ∃ m, parseElements parseValue n p.getNextToken.1 p.getNextToken.2 data =
      parseElements parseValue (m + 1) (getNextToken { p with rest := x, errno := errno' }).1
        (getNextToken { p with rest := x, errno := errno' }).2 (data ++ vs) := by
  induction h generalizing n p data with
  | nil =>
    obtain ⟨n, rfl⟩ := Nat.exists_eq_add_of_le' (show 1 ≤ n from hn)
    obtain ⟨rest, err, failed, errno⟩ := p
    subst herrno
    rw [List.nil_append] at hp
    subst hp
    exact ⟨n, by rw [List.append_nil]⟩
  | @cons t u _ _ _ a as h hs ih =>
    obtain ⟨n, rfl⟩ := Nat.exists_eq_add_of_le' (Nat.le_trans (Nat.le_add_left 1 _) hn.le)
    subst herrno
    obtain ⟨m, hloop⟩ := ih (n := n) (by simpa using hn) (p := { p with rest := u ++ x, errno := _ }) rfl hf rfl
      (data ++ [a])
    refine ⟨m, ?_⟩
    rw [@element_complete _ _ hr t (u ++ x) _ _ _ h _ (.inl rfl) hf (by simp [hp]) n data, if_neg (by decide), hloop,
      List.append_assoc, List.singleton_append]

theorem parseMembers_before (hr : Reads parseValue D) {errno errno' : Bool} {u x : Str} {ms : List (Str × Json)}
    (h : Before (Member D) errno u ms errno') {n : ℕ} (hn : ms.length < n) {p : JsonParser} (herrno : p.errno = errno)
    (hf : p.failed = false) (hp : p.rest = u ++ x) (data : List (Str × Json)) :
    ∃ m, parseMembers parseValue n p.getNextToken.1 p.getNextToken.2 data =
      parseMembers parseValue (m + 1) (getNextToken { p with rest := x, errno := errno' }).1
        (getNextToken { p with rest := x, errno := errno' }).2 (assignMembers data ms) := by
  induction h generalizing n p data with
  | nil =>
    obtain ⟨n, rfl⟩ := Nat.exists_eq_add_of_le' (show 1 ≤ n from hn)
    obtain ⟨rest, err, failed, errno⟩ := p
    subst herrno
    rw [List.nil_append] at hp
    subst hp
    exact ⟨n, rfl⟩
  | @cons t u _ _ _ m ms h hs ih =>
    obtain ⟨n, rfl⟩ := Nat.exists_eq_add_of_le' (Nat.le_trans (Nat.le_add_left 1 _) hn.le)
    subst herrno
    obtain ⟨k, hloop⟩ := ih (n := n) (by simpa using hn) (p := { p with rest := u ++ x, errno := _ }) rfl hf rfl
      (mapAssign m.1 m.2 data)
    refine ⟨k, ?_⟩
    rw [@member_complete _ _ hr t (u ++ x) _ _ _ h _ (.inl rfl) hf (by simp [hp]) n data, if_neg (by decide), hloop]
    rfl

/-- a round of the loop over the members, up to the value -/
theorem parseMembers_opening {w w' : Str} (hw : Blank w) (items : List Item) (hw' : Blank w') {x : Str} {p : JsonParser}
    (hf : p.failed = false) (hp : p.rest = Opening w items w' [] ++ x) (n : ℕ) (data : List (Str × Json)) :
    parseMembers parseValue (n + 1) p.getNextToken.1 p.getNextToken.2 data =
      let (value, q) := parseValue { p with rest := x }
      if q.failed then (.null, q)
      else
        let (ch, q) := q.getNextToken
        if ch = 125 then (.object (mapAssign (decode items) value data), q)
        else if ch ≠ 44 then (.null, q.fail (ascii "expected ',' in object, got " ++ esc ch))
        else
          let (ch, q) := q.getNextToken
          parseMembers parseValue n ch q (mapAssign (decode items) value data) := by
  obtain ⟨rest, err, failed, errno⟩ := p
  simp only at hf hp
  subst hf hp
  have hopen : getNextToken ⟨Opening w items w' [] ++ x, err, false, errno⟩ =
      (34, ⟨items.flatMap Item.text ++ 34 :: (w' ++ 58 :: x), err, false, errno⟩) :=
    getNextToken_blank hw (by simp [Opening, quote]) rfl
  have hkey : parseString ⟨items.flatMap Item.text ++ 34 :: (w' ++ 58 :: x), err, false, errno⟩ =
      (decode items, ⟨w' ++ 58 :: x, err, false, errno⟩) := parseString_items items rfl
  have hcolon : getNextToken ⟨w' ++ 58 :: x, err, false, errno⟩ = (58, ⟨x, err, false, errno⟩) :=
    getNextToken_blank hw' rfl rfl
  simp only [hopen, parseMembers, hkey, hcolon]
  rfl

/-- where the value that comes next sets errno, the loop leaves it set -/
theorem parseElements_sets (hv : ∀ p, p.errno = true → (parseValue p).2.errno = true) (n : ℕ) {ch : UInt8}
    {p : JsonParser} (hf : p.failed = false) (h : (parseValue { p with rest := ch :: p.rest }).2.errno = true)
    (data : List Json) : (parseElements parseValue (n + 1) ch p data).2.errno = true := by
  simp only [parseElements, if_neg (show ¬ p.failed = true by simp [hf])]
  generalize parseValue { p with rest := ch :: p.rest } = r at h ⊢
  split_ifs
  all_goals first | exact parseElements_errno hv _ _ (by simp [h]) _ | simp [h]

theorem parseMembers_sets (hv : ∀ p, p.errno = true → (parseValue p).2.errno = true) (n : ℕ) {w w' x : Str}
    (hw : Blank w) (items : List Item) (hw' : Blank w') {p : JsonParser} (hf : p.failed = false)
    (hp : p.rest = Opening w items w' [] ++ x) (h : (parseValue { p with rest := x }).2.errno = true)
    (data : List (Str × Json)) :
    (parseMembers parseValue (n + 1) p.getNextToken.1 p.getNextToken.2 data).2.errno = true := by
  rw [parseMembers_opening hw items hw' hf hp]
  generalize parseValue { p with rest := x } = r at h ⊢
  simp only
  split_ifs
  all_goals first | exact parseMembers_errno hv _ _ (by simp [h]) _ | simp [h]

end

/-- **A number out of range sets errno**, wherever its value is due. -/
theorem parseJson_sets {n : Number} {tail : Str} (hstop : Stops n tail) (hout : OutOfRange n) {levels : ℕ} {t : Str}
    (hdue : Due sem levels t) {p : JsonParser} {w : Str} (hw : Blank w) (hf : p.failed = false)
    (hp : p.rest = w ++ (t ++ (n.text ++ tail))) : (parseJson levels p).2.errno = true := by
  induction hdue generalizing p w with
  | here levels =>
    obtain ⟨ch, rest, htext, hch⟩ := n.starts
    have htoken : p.getNextToken = (ch, { p with rest := rest ++ tail }) :=
      getNextToken_blank hw (by simp [hp, htext]) (not_blank_of_number hch).1
    have hnumber := parseNumber_scan n hstop (p := { p with rest := ch :: (rest ++ tail) }) (by simp [htext])
    simp only [parseJson, htoken]
    rw [if_neg (by simp [hf]), if_pos hch, hnumber, ← List.cons_append, ← htext]
    exact (readWith_errno hstop _).2 (.inr hout)
  | @element levels u w' t vs s s' hu hw' hdue ih =>
    obtain ⟨rest, err, failed, errno⟩ := p
    simp only at hf hp
    subst hf hp
    have htoken : getNextToken ⟨w ++ (91 :: u ++ w' ++ t ++ (n.text ++ tail)), err, false, errno⟩ =
        (91, ⟨u ++ (w' ++ (t ++ (n.text ++ tail))), err, false, errno⟩) := getNextToken_blank hw (by simp) rfl
    -- the elements before it
    obtain ⟨vs', errno', hu', -⟩ := (stateFree_value levels).padded.before _ _ _ _ hu errno
    obtain ⟨ch, rest, hstart, hch, h93⟩ := hdue.starts n tail
    obtain ⟨w0, c, rest0, hw0, hsplit, hc, hc93, hlen⟩ :=
      hu'.begins (Padded.begins Value.starts) ⟨w', ch, rest, hw', congrArg (w' ++ ·) hstart, hch, h93⟩
    have hfirst : getNextToken ⟨u ++ (w' ++ (t ++ (n.text ++ tail))), err, false, errno⟩ =
        (c, ⟨rest0, err, false, errno⟩) := getNextToken_blank hw0 hsplit hc
    obtain ⟨m, hloop⟩ := parseElements_before (reads_parseJson levels) hu' (n := rest0.length + 1)
      (Nat.lt_succ_of_le hlen) (p := ⟨u ++ (w' ++ (t ++ (n.text ++ tail))), err, false, errno⟩) rfl rfl rfl []
    have hnext : getNextToken ⟨w' ++ (t ++ (n.text ++ tail)), err, false, errno'⟩ = (ch, ⟨rest, err, false, errno'⟩) :=
      getNextToken_blank hw' (congrArg (w' ++ ·) hstart) hch
    rw [hfirst] at hloop
    simp only [hnext] at hloop
    simp only [parseJson, htoken, hfirst, if_neg hc93]
    have hset := @parseElements_sets _ (fun q hq => parseJson_errno levels hq) m ch ⟨rest, err, false, errno'⟩ rfl
      (ih Blank.nil rfl hstart.symm) ([] ++ vs')
    rw [← hloop] at hset
    exact hset
  | @member levels u w1 w2 w3 t ms s s' hu hw1 items hw2 hw3 hdue ih =>
    obtain ⟨rest, err, failed, errno⟩ := p
    simp only at hf hp
    subst hf hp
    have htoken :
        getNextToken ⟨w ++ (123 :: u ++ Opening w1 items w2 w3 ++ t ++ (n.text ++ tail)), err, false, errno⟩ =
        (123, ⟨u ++ (Opening w1 items w2 [] ++ (w3 ++ (t ++ (n.text ++ tail)))), err, false, errno⟩) :=
      getNextToken_blank hw (by simp [Opening]) rfl
    -- the members before it
    obtain ⟨ms', errno', hu', -⟩ := (stateFree_value levels).member.before _ _ _ _ hu errno
    obtain ⟨w0, c, rest0, hw0, hsplit, hc, rfl, hlen⟩ := hu'.begins Member.begins (Opening.begins hw1 items w2 [] _)
    have hfirst :
        getNextToken ⟨u ++ (Opening w1 items w2 [] ++ (w3 ++ (t ++ (n.text ++ tail)))), err, false, errno⟩ =
        (34, ⟨rest0, err, false, errno⟩) := getNextToken_blank hw0 hsplit hc
    obtain ⟨m, hloop⟩ := parseMembers_before (reads_parseJson levels) hu' (n := rest0.length + 1)
      (Nat.lt_succ_of_le hlen)
      (p := ⟨u ++ (Opening w1 items w2 [] ++ (w3 ++ (t ++ (n.text ++ tail)))), err, false, errno⟩) rfl rfl rfl []
    rw [hfirst] at hloop
    simp only [parseJson, htoken, hfirst]
    have hset := parseMembers_sets (fun q hq => parseJson_errno levels hq) m hw1 items hw2
      (p := ⟨Opening w1 items w2 [] ++ (w3 ++ (t ++ (n.text ++ tail))), err, false, errno'⟩) rfl rfl
      (ih hw3 rfl rfl) (assignMembers [] ms')
    rw [← hloop] at hset
    exact hset

end JsonParser

/-! ## A history of parses -/

/-- a number of the text is out of range: one that stands where a value of a text of at most 201 levels is due -/
def RangeError (text : Str) : Prop := RangeErrorAt (maxDepth + 1) text

theorem errno_parse (text : Str) (errno : Bool) :
    (parse text errno).errno = (JsonParser.parseJson (maxDepth + 1) ⟨text, [], false, errno⟩).2.errno := by
  simp only [parse]
  split <;> rfl

/-- **What a parse leaves in errno**, of any text. -/
theorem parse_range (text : Str) (errno : Bool) : (parse text errno).errno = true ↔ errno = true ∨ RangeError text := by
  rw [errno_parse]
  constructor
  · intro h
    cases errno with
    | true => exact .inl rfl
    | false => exact .inr (JsonParser.parseJson_range rfl h)
  · rintro (rfl | ⟨w, t, n, tail, hw, htext, hdue, hstop, hout⟩)
    · exact JsonParser.parseJson_errno _ rfl
    · exact JsonParser.parseJson_sets hstop hout hdue hw rfl htext

-- the least normal double is next to it, but not above it
example : (parse (ascii "2.2250738585072013e-308") false).errno = false := by decide +kernel

/-- errno after the parses of these texts, on a thread where it was clear -/
def history (texts : List Str) : Bool := texts.foldl (fun errno text => (parse text errno).errno) false

/-- **What a history leaves.** -/
theorem history_eq (texts : List Str) : history texts = true ↔ ∃ text ∈ texts, RangeError text := by
  have hfrom : ∀ errno, texts.foldl (fun errno text => (parse text errno).errno) errno = true ↔
      errno = true ∨ ∃ text ∈ texts, RangeError text := by
    induction texts with
    | nil => simp
    | cons text texts ih =>
      intro errno
      rw [List.foldl_cons, ih, parse_range, List.exists_mem_cons_iff, or_assoc]
  simpa [history] using hfrom false

/-! ## Where an id stands -/

/-- the value of one of the two integer classes that holds v -/
def Holds (j : Json) (v : ℤ) : Prop := j = .int64 v ∨ ∃ n : ℕ, j = .uint64 n ∧ (n : ℤ) = v

/-- where a literal stands in a text: what is before it, what is behind it, and how it is asked for -/
inductive Place : Str → Str → (Json → Json) → Prop
  | alone {w w' : Str} (hw : Blank w) (hw' : Blank w') : Place w w' id
  /-- as a member of the object, the last one of its name -/
  | member {w u w1 w2 w3 w4 u' w5 : Str} {ms ms' : List (Str × Json)} {s s' r r' : Bool} (hw : Blank w)
      (hu : Before (Member (Value sem maxDepth)) s u ms s') (hw1 : Blank w1) (items : List Item) (hw2 : Blank w2)
      (hw3 : Blank w3) (hw4 : Blank w4) (hu' : Behind (Member (Value sem maxDepth)) r u' ms' r')
      (hlast : decode items ∉ ms'.map Prod.fst) (hw5 : Blank w5) :
      Place (w ++ 123 :: u ++ Opening w1 items w2 w3) (w4 ++ u' ++ 125 :: w5) (Json.get (decode items))

theorem length_le_of_lt {digits : Str} (hd : Digits digits) (hzero : digits.head? = some 48 → digits = [48]) {n : ℕ}
    (hlt : decValue digits < 10 ^ n) (hn : 1 ≤ n) : digits.length ≤ n := by
  obtain ⟨b, t, rfl⟩ := List.exists_cons_of_ne_nil hd.1
  by_cases h0 : b = 48
  · subst h0
    rw [hzero rfl]
    exact hn
  · have hpow := (pow_le_decValue (hd.2 b List.mem_cons_self) h0 t).trans_lt hlt
    exact (Nat.pow_lt_pow_iff_right (by norm_num)).1 hpow

/-- an integer in range has at most 20 bytes -/
theorem length_text_le {n : Number} (hint : n.isInteger = true) (hv : InRange (intValue n)) : n.text.length ≤ 20 := by
  simp only [Number.isInteger, Bool.and_eq_true, Option.isNone_iff_eq_none] at hint
  obtain ⟨hd, hzero⟩ := n.int_ok
  cases hneg : n.neg with
  | true =>
    have hlt : decValue n.int < 10 ^ 19 := by
      have hlow := hv.1
      simp only [intValue, hneg, if_true] at hlow
      omega
    have hlen := length_le_of_lt hd hzero hlt (by norm_num)
    simp only [Number.text, Number.signText, Number.fracText, Number.expText, hneg, hint.1, hint.2, if_true,
      Option.elim_none, List.append_nil, List.length_append, List.length_singleton]
    omega
  | false =>
    have hlt : decValue n.int < 10 ^ 20 := by
      have hhigh := hv.2
      simp only [intValue, hneg, Bool.false_eq_true, if_false] at hhigh
      omega
    have hlen := length_le_of_lt hd hzero hlt (by norm_num)
    simpa [Number.text, Number.signText, Number.fracText, Number.expText, hneg, hint.1, hint.2] using hlen

/-- an integer in range is read exactly if errno is clear -/
theorem holds_readNumber {n : Number} (hint : n.isInteger = true) (hv : InRange (intValue n)) (errno : Bool) :
    Holds (readNumber n errno).1 (intValue n) ↔ errno = false := by
  rw [readNumber, readWith, if_pos ⟨hint, length_text_le hint hv⟩]
  cases errno with
  | true => simp [Holds]
  | false =>
    rw [if_pos ⟨rfl, hv⟩]
    cases hneg : n.neg <;> simp [Holds, intValue, hneg]

theorem mapFind_assignMembers {key : Str} {ms : List (Str × Json)} (h : key ∉ ms.map Prod.fst)
    (data : List (Str × Json)) : mapFind key (assignMembers data ms) = mapFind key data := by
  induction ms generalizing data with
  | nil => rfl
  | cons m ms ih =>
    simp only [List.map_cons, List.mem_cons, not_or] at h
    have hrest := ih h.2 (mapAssign m.1 m.2 data)
    rwa [mapFind_mapAssign, if_neg (Ne.symm h.1)] at hrest

/-- the last member of a name is the one that is read -/
theorem get_assignMembers {key : Str} {ms ms' : List (Str × Json)} (h : key ∉ ms'.map Prod.fst) (j : Json) :
    (Json.object (assignMembers [] (ms ++ (key, j) :: ms'))).get key = j := by
  have hassign : assignMembers [] (ms ++ (key, j) :: ms') =
      assignMembers (mapAssign key j (assignMembers [] ms)) ms' := by
    rw [assignMembers, List.foldl_append, List.foldl_cons]
    rfl
  rw [Json.get, hassign, mapFind_assignMembers h, mapFind_mapAssign, if_pos rfl]
  rfl

/-- at the end of the text a value fails -/
theorem parseJson_end {w : Str} (hw : Blank w) (levels : ℕ) (err : Str) (errno : Bool) :
    (JsonParser.parseJson levels ⟨w, err, false, errno⟩).2.failed = true ∧
      (JsonParser.parseJson levels ⟨w, err, false, errno⟩).2.errno = errno := by
  cases levels with
  | zero => exact ⟨rfl, rfl⟩
  | succ levels =>
    have hdrop : w.dropWhile JsonParser.isWhitespace = [] := List.dropWhile_eq_nil_iff.2 hw
    simp [JsonParser.parseJson, JsonParser.getNextToken, JsonParser.consumeGarbage, JsonParser.fail, hdrop]

/-- a parse of what is before the literal converts the numbers of the members before it, and fails behind the colon -/
theorem parse_before {w u w1 w2 w3 : Str} {ms : List (Str × Json)} {errno errno' : Bool} (hw : Blank w)
    (hu : Before (Member (Value sem maxDepth)) errno u ms errno') (hw1 : Blank w1) (items : List Item) (hw2 : Blank w2)
    (hw3 : Blank w3) : (parse (w ++ 123 :: u ++ Opening w1 items w2 w3) errno).errno = errno' := by
  have htoken : JsonParser.getNextToken ⟨w ++ 123 :: u ++ Opening w1 items w2 w3, [], false, errno⟩ =
      (123, ⟨u ++ (Opening w1 items w2 [] ++ w3), [], false, errno⟩) :=
    JsonParser.getNextToken_blank hw (by simp [Opening]) rfl
  obtain ⟨w0, c, rest, hw0, hsplit, hc, rfl, hlen⟩ := hu.begins Member.begins (Opening.begins hw1 items w2 [] w3)
  have hfirst : JsonParser.getNextToken ⟨u ++ (Opening w1 items w2 [] ++ w3), [], false, errno⟩ =
      (34, ⟨rest, [], false, errno⟩) := JsonParser.getNextToken_blank hw0 hsplit hc
  obtain ⟨m, hloop⟩ := JsonParser.parseMembers_before (JsonParser.reads_parseJson maxDepth) hu (n := rest.length + 1)
    (Nat.lt_succ_of_le hlen) (p := ⟨u ++ (Opening w1 items w2 [] ++ w3), [], false, errno⟩) rfl rfl rfl []
  have hopening := @JsonParser.parseMembers_opening (JsonParser.parseJson maxDepth) _ _ hw1 items hw2 _
    ⟨Opening w1 items w2 [] ++ w3, [], false, errno'⟩ rfl rfl m (assignMembers [] ms)
  obtain ⟨hfailed, herrno⟩ := parseJson_end hw3 maxDepth [] errno'
  simp only [hfailed, if_true] at hopening
  rw [hfirst, hopening] at hloop
  rw [errno_parse]
  simp only [JsonParser.parseJson, htoken, hfirst]
  exact (congrArg (fun r => r.2.errno) hloop).trans herrno

/-- **What is read at a place**: the literal, with the errno that the text before it leaves. -/
theorem Place.read {before behind : Str} {get : Json → Json} (h : Place before behind get) (n : Number) (errno : Bool) :
    get (parse (before ++ n.text ++ behind) errno).json = (readNumber n (parse before errno).errno).1 := by
  cases h with
  | alone hw hw' =>
    have hread := (parse_iff _ errno _ _).2 ⟨hw, Node.number n errno, hw'⟩
    rw [id, hread, errno_parse, (parseJson_end hw _ _ _).2]
    rfl
  | @member w u w1 w2 w3 w4 u' w5 ms ms' _ _ _ _ hw hu hw1 items hw2 hw3 hw4 hu' hlast hw5 =>
    obtain ⟨before, errno1, hbefore, -⟩ := (stateFree_value maxDepth).member.before _ _ _ _ hu errno
    rw [parse_before hw hbefore hw1 items hw2 hw3]
    have hvalue : Padded (Value sem maxDepth) errno1 (w3 ++ n.text ++ w4) (readNumber n errno1).1
        (readNumber n errno1).2 := ⟨hw3, Node.number n errno1, hw4⟩
    obtain ⟨behind, errno2, hbehind, hnames⟩ :=
      (stateFree_value maxDepth).member.behind _ _ _ _ hu' (readNumber n errno1).2
    have hobject := @Node.object Json Bool sem _ _ _ _ _ (hbefore.commas (.intro hw1 items hw2 hvalue) hbehind)
    have hdoc := Padded.intro hw hobject hw5
    have htext : w ++ (123 :: (u ++ (w1 ++ quote items ++ w2 ++ 58 :: (w3 ++ n.text ++ w4) ++ u')) ++ [125]) ++ w5 =
        w ++ 123 :: u ++ Opening w1 items w2 w3 ++ n.text ++ (w4 ++ u' ++ 125 :: w5) := by
      simp [Opening]
    rw [htext] at hdoc
    rw [(parse_iff _ errno _ _).2 hdoc]
    exact get_assignMembers (by rw [hnames]; exact hlast) _

/-! ## Results -/

/-- the value read is the literal's, and so is what the handlers take from it -/
def Survives (n : Number) (j : Json) : Prop :=
  Holds j (intValue n) ∧ ∀ cast, j.uint64Value cast = (intValue n % 2 ^ 64).toNat

theorem uint64Value_of_holds {j : Json} {v : ℤ} (h : Holds j v) (hv : InRange v) (cast : Double.Value → ℕ) :
    j.uint64Value cast = (v % 2 ^ 64).toNat := by
  rcases h with rfl | ⟨n, rfl, rfl⟩
  · rfl
  · rw [Json.uint64Value, Int.emod_eq_of_lt (Int.natCast_nonneg n) hv.2, Int.toNat_natCast]

theorem survives_iff {n : Number} (hint : n.isInteger = true) (hv : InRange (intValue n)) {before behind : Str}
    {get : Json → Json} (h : Place before behind get) (errno : Bool) :
    Survives n (get (parse (before ++ n.text ++ behind) errno).json) ↔ (parse before errno).errno = false := by
  rw [h.read, ← holds_readNumber hint hv]
  exact ⟨And.left, fun hholds => ⟨hholds, uint64Value_of_holds hholds hv⟩⟩

/-- **When ids survive.** After any texts parsed on the thread, an integer literal in range, as a whole text or as a member
of an object, is read exactly if and only if no number before it is out of range, neither in those texts nor in its own. -/
theorem survives_iff_inRange {n : Number} (hint : n.isInteger = true) (hv : InRange (intValue n)) {before behind : Str}
    {get : Json → Json} (h : Place before behind get) (texts : List Str) :
    Survives n (get (parse (before ++ n.text ++ behind) (history texts)).json) ↔
      ∀ text ∈ texts ++ [before], ¬ RangeError text := by
  have hhistory : history (texts ++ [before]) = (parse before (history texts)).errno := by
    rw [history, List.foldl_append]
    rfl
  rw [survives_iff hint hv h, ← hhistory, ← Bool.not_eq_true, history_eq]
  simp only [not_exists, not_and]

theorem not_rangeError {text : Str} (h : (parse text false).errno = false) : ¬ RangeError text := fun hr => by
  rw [(parse_range text false).2 (.inr hr)] at h
  cases h

def idNumber : Number where
  neg := false
  int := ascii "9007199254740993"
  frac := none
  exp := none
  int_ok := ⟨⟨by decide, by decide +kernel⟩, by decide⟩
  frac_ok := by simp
  exp_ok := by simp

def sessionId : List Item :=
  [.raw 115 (by decide), .raw 101 (by decide), .raw 115 (by decide), .raw 115 (by decide), .raw 105 (by decide),
    .raw 111 (by decide), .raw 110 (by decide), .raw 95 (by decide), .raw 105 (by decide), .raw 100 (by decide)]

theorem inRange_idNumber : InRange (intValue idNumber) := by decide +kernel

theorem survives_iff_inRange_id :
    Survives idNumber ((parse (ascii "\x7b\"session_id\":9007199254740993\x7d") (history [ascii "[1.5]"])).json.get
      (ascii "session_id")) := by
  have hplace : Place (ascii "\x7b\"session_id\":") (ascii "\x7d") (Json.get (decode sessionId)) :=
    .member Blank.nil (.nil false) Blank.nil sessionId Blank.nil Blank.nil Blank.nil (.nil false) (by simp) Blank.nil
  refine (survives_iff_inRange rfl inRange_idNumber hplace [ascii "[1.5]"]).2 ?_
  rw [List.cons_append, List.nil_append, List.forall_mem_cons, List.forall_mem_singleton]
  exact ⟨not_rangeError (by decide +kernel), not_rangeError (by decide +kernel)⟩

/-- **One overflow rounds every later id.** 2^64 is out of range, and 2^53 + 1 is not a double. -/
theorem rounded_after_overflow :
    ¬ Survives idNumber (parse (ascii "9007199254740993") (history [ascii "18446744073709551616"])).json := by
  intro h
  have hplace : Place [] [] id := .alone Blank.nil Blank.nil
  have hclear := (survives_iff rfl inRange_idNumber hplace _).1 h
  exact absurd hclear (by decide +kernel)

end AirobotMsgd.Json11
