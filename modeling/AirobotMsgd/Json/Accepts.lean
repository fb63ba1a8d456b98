/-
What the parser of `json11` accepts, against the JSON texts of `Core/JsonText.lean` (source/json11.cpp).

`sem` is the meaning the values of `json11` give a text: of two members with one name the later one counts, and a
number is read as `readNumber` says, with the thread's errno as the state. `Reads parseValue D` says that a parser reads
exactly the texts of D, each to its end; the two loops are correct for any such parser, and a level of `parse_json`
keeps it.

Results:
- `parseElements_complete`, `parseElements_sound`, `parseMembers_complete`, `parseMembers_sound`: the loops.
- `reads_parseJson`: every level.
- `parse_iff`, `rejected`: `parse` gives the values of exactly the documents of at most `max_depth` + 1 levels, and
  what it gives for any other text; `parse_decides` is both.
-/
import AirobotMsgd.Json.Tokens

namespace AirobotMsgd.Json11

open AirobotMsgd.Bytes AirobotMsgd.JsonText

/-- `data[key] = value`, one member after the other -/
def assignMembers (data : List (Str × Json)) (ms : List (Str × Json)) : List (Str × Json) :=
  ms.foldl (fun data m => mapAssign m.1 m.2 data) data

/-- what a text says to `json11` -/
def sem : Sem Json Bool where
  null := .null
  bool := .bool
  string := .string
  number := readNumber
  array := .array
  object ms := .object (assignMembers [] ms)

namespace JsonParser

/-! ## The first message stays -/

structure Advances (p q : JsonParser) : Prop where
  failed : p.failed = true → q.failed = true ∧ q.err = p.err
  ok : q.failed = false → q.err = p.err
  message : p.failed = false → q.failed = true → q.err ≠ []

theorem Advances.of_eq {p q : JsonParser} (hfailed : q.failed = p.failed) (herr : q.err = p.err) : Advances p q :=
  ⟨fun h => ⟨hfailed.trans h, herr⟩, fun _ => herr, fun h h' => by rw [hfailed, h] at h'; cases h'⟩

theorem Advances.refl (p : JsonParser) : Advances p p := .of_eq rfl rfl

theorem Advances.trans {p q r : JsonParser} (h : Advances p q) (h' : Advances q r) : Advances p r := by
  refine ⟨fun hp => ?_, fun hr => ?_, fun hp hr => ?_⟩
  · obtain ⟨hq, hqe⟩ := h.failed hp
    obtain ⟨hr, hre⟩ := h'.failed hq
    exact ⟨hr, hre.trans hqe⟩
  · have hq : q.failed = false := by
      by_contra hq
      rw [(h'.failed (by simpa using hq)).1] at hr
      cases hr
    exact (h'.ok hr).trans (h.ok hq)
  · cases hq : q.failed with
    | true => rw [(h'.failed hq).2]; exact h.message hp hq
    | false => exact h'.message hq hr

theorem Advances.not_failed {p q : JsonParser} (h : Advances p q) (hq : q.failed = false) : p.failed = false := by
  by_contra hp
  rw [(h.failed (by simpa using hp)).1] at hq
  cases hq

theorem Advances.fail {p q : JsonParser} (h : Advances p q) {msg : Str} (hmsg : msg ≠ []) :
    Advances p (q.fail msg) := by
  refine h.trans ⟨fun hq => ⟨rfl, by simp [JsonParser.fail, hq]⟩, fun hq => by simp [JsonParser.fail] at hq, ?_⟩
  intro hq _
  simpa [JsonParser.fail, hq] using hmsg

theorem Advances.congr_left {p q r : JsonParser} (h : Advances q r) (hfailed : q.failed = p.failed)
    (herr : q.err = p.err) : Advances p r := (Advances.of_eq hfailed herr).trans h

theorem advances_fail {p q : JsonParser} {msg : Str} (hfailed : q.failed = p.failed) (herr : q.err = p.err)
    (hmsg : msg ≠ []) : Advances p (q.fail msg) := (Advances.of_eq hfailed herr).fail hmsg

theorem getNextToken_advances (p : JsonParser) : Advances p p.getNextToken.2 := by
  simp only [getNextToken, consumeGarbage]
  split
  · refine advances_fail ?_ ?_ ?_ <;> simp [ascii]
  · exact .of_eq rfl rfl

theorem parseStringLoop_advances (p : JsonParser) (s out : Str) (last : ℤ) :
    Advances p (parseStringLoop p s out last).2 := by
  fun_induction parseStringLoop p s out last with
  | case2 => exact .of_eq rfl rfl
  | case4 _ _ _ _ _ _ _ ih => exact ih
  | case6 _ _ _ _ _ _ _ _ _ _ _ _ _ _ ih => exact ih
  | case7 _ _ _ _ _ _ _ _ _ _ _ _ _ _ ih => exact ih
  | case10 _ _ _ _ _ _ _ _ _ _ _ _ ih => exact ih
  | case1 | case3 | case5 | case8 | case9 | case11 =>
    refine advances_fail ?_ ?_ ?_ <;> simp [ascii]

theorem parseString_advances (p : JsonParser) : Advances p p.parseString.2 := parseStringLoop_advances p _ _ _

theorem parseDecimal_advances (p : JsonParser) (start rest : Str) : Advances p (parseDecimal p start rest).2 := by
  simp only [parseDecimal]
  split_ifs
  any_goals exact .of_eq rfl rfl
  all_goals
    refine advances_fail ?_ ?_ ?_ <;> simp [ascii]

theorem parseNumber_advances (p : JsonParser) : Advances p p.parseNumber.2 := by
  simp only [parseNumber]
  generalize (if cur p.rest = 45 then p.rest.tail else p.rest) = s
  split_ifs
  · refine advances_fail ?_ ?_ ?_ <;> simp [ascii]
  · refine advances_fail ?_ ?_ ?_ <;> simp [ascii]
  · split
    · exact .of_eq rfl rfl
    · exact (parseDecimal_advances _ _ _).congr_left rfl rfl
  · exact parseDecimal_advances _ _ _

theorem expect_advances (p : JsonParser) (ch : UInt8) (expected : Str) (res : Json) :
    Advances p (p.expect ch expected res).2 := by
  simp only [expect]
  split_ifs
  · exact .of_eq rfl rfl
  · refine advances_fail ?_ ?_ ?_ <;> simp [ascii]

section
variable {parseValue : JsonParser → Json × JsonParser}

theorem parseMembers_advances (hv : ∀ p, Advances p (parseValue p).2) (n : ℕ) (ch : UInt8) (p : JsonParser)
    (data : List (Str × Json)) : Advances p (parseMembers parseValue n ch p data).2 := by
  induction n generalizing ch p data with
  | zero => exact .refl p
  | succ n ih =>
    have h1 := parseString_advances p
    have h2 := h1.trans (getNextToken_advances p.parseString.2)
    have h3 := h2.trans (hv p.parseString.2.getNextToken.2)
    have h4 := h3.trans (getNextToken_advances _)
    simp only [parseMembers]
    split_ifs
    · exact (advances_fail rfl rfl (by simp [ascii]))
    · exact h1
    · exact h2.fail (by simp [ascii])
    · exact h3
    · exact h4
    · exact h4.fail (by simp [ascii])
    · exact (h4.trans (getNextToken_advances _)).trans (ih _ _ _)

theorem parseElements_advances (hv : ∀ p, Advances p (parseValue p).2) (n : ℕ) (ch : UInt8) (p : JsonParser)
    (data : List Json) : Advances p (parseElements parseValue n ch p data).2 := by
  induction n generalizing ch p data with
  | zero => exact .refl p
  | succ n ih =>
    have h1 : Advances p (parseValue { p with rest := ch :: p.rest }).2 := (hv _).congr_left rfl rfl
    have h2 := h1.trans (getNextToken_advances _)
    simp only [parseElements]
    split_ifs
    · exact .refl p
    · exact h1
    · exact h2
    · exact h2.fail (by simp [ascii])
    · exact (h2.trans (getNextToken_advances _)).trans (ih _ _ _)

end

theorem parseJson_advances (levels : ℕ) (p : JsonParser) : Advances p (parseJson levels p).2 := by
  induction levels generalizing p with
  | zero => exact advances_fail rfl rfl (by decide)
  | succ levels ih =>
    have h1 := getNextToken_advances p
    have h2 := h1.trans (getNextToken_advances p.getNextToken.2)
    simp only [parseJson]
    split_ifs
    · exact h1
    · exact h1.trans ((parseNumber_advances _).congr_left rfl rfl)
    · exact h1.trans (expect_advances _ _ _ _)
    · exact h1.trans (expect_advances _ _ _ _)
    · exact h1.trans (expect_advances _ _ _ _)
    · exact h1.trans (parseString_advances _)
    · exact h2
    · exact h2.trans (parseMembers_advances ih _ _ _ _)
    · exact h2
    · exact h2.trans (parseElements_advances ih _ _ _ _)
    · exact h1.fail (by simp [ascii])

/-! ## The loops -/

theorem ends_blank {w : Str} (hw : Blank w) {b : UInt8}
    (hb : isDigit b = false ∧ b ≠ 46 ∧ b ≠ 101 ∧ b ≠ 69 ∧ b ≠ 120 ∧ b ≠ 88) (tail : Str) : Ends (w ++ b :: tail) := by
  intro c hc
  cases w with
  | nil =>
    obtain rfl : b = c := by simpa using hc
    exact hb
  | cons d w =>
    obtain rfl : d = c := by simpa using hc
    have hd := hw d List.mem_cons_self
    simp only [isBlank, Bool.or_eq_true, beq_iff_eq] at hd
    rcases hd with ((rfl | rfl) | rfl) | rfl <;> decide

theorem ends_of_blank {w : Str} (hw : Blank w) : Ends w := by
  cases w with
  | nil => exact fun b hb => by simp at hb
  | cons b w =>
    have hb := hw b List.mem_cons_self
    intro c hc
    obtain rfl : b = c := by simpa using hc
    simp only [isBlank, Bool.or_eq_true, beq_iff_eq] at hb
    rcases hb with ((rfl | rfl) | rfl) | rfl <;> decide

/-- `parseValue` reads the texts of D, each to its end, and nothing else; an x behind a text may change its value -/
structure Reads (parseValue : JsonParser → Json × JsonParser) (D : Denotation Json Bool) : Prop where
  complete : ∀ {w t tail : Str} {v : Json} {errno' : Bool} {p : JsonParser}, Blank w → D p.errno t v errno' →
    Ends tail → p.failed = false → p.rest = w ++ (t ++ tail) →
    parseValue p = (v, { p with rest := tail, errno := errno' })
  sound : ∀ {p : JsonParser}, (parseValue p).2.failed = false →
    ∃ w t v errno', Blank w ∧ p.rest = w ++ (t ++ (parseValue p).2.rest) ∧ D p.errno t v errno' ∧
      (NoHex (parseValue p).2.rest → v = (parseValue p).1 ∧ errno' = (parseValue p).2.errno)
  starts : ∀ {errno errno' : Bool} {t : Str} {v : Json}, D errno t v errno' → Starts t
  advances : ∀ p, Advances p (parseValue p).2
  rest : ∀ p, (parseValue p).2.rest.length ≤ p.rest.length

section
variable {parseValue : JsonParser → Json × JsonParser} {D : Denotation Json Bool}

/-- one round of the loop over the elements: up to the byte behind the element -/
theorem element_complete (hr : Reads parseValue D) {t tail : Str} {v : Json} {errno' : Bool} {p : JsonParser}
    (h : Padded D p.errno t v errno') {b : UInt8} (hb : b = 44 ∨ b = 93) (hfailed : p.failed = false)
    (hp : p.rest = t ++ b :: tail) (n : ℕ) (data : List Json) :
    parseElements parseValue (n + 1) p.getNextToken.1 p.getNextToken.2 data =
      if b = 93 then (.array (data ++ [v]), { p with rest := tail, errno := errno' })
      else parseElements parseValue n (getNextToken { p with rest := tail, errno := errno' }).1
        (getNextToken { p with rest := tail, errno := errno' }).2 (data ++ [v]) := by
  have hbe : isDigit b = false ∧ b ≠ 46 ∧ b ≠ 101 ∧ b ≠ 69 ∧ b ≠ 120 ∧ b ≠ 88 := by rcases hb with rfl | rfl <;> decide
  have hbb : isBlank b = false := by rcases hb with rfl | rfl <;> rfl
  obtain @⟨w, t, w', _, _, _, hw, hD, hw'⟩ := h
  obtain ⟨ch, rest, rfl, hch, -⟩ := hr.starts hD
  obtain ⟨prest, err, pfailed, errno⟩ := p
  simp only at hfailed hp
  subst hfailed hp
  have htoken : getNextToken ⟨w ++ ch :: rest ++ w' ++ b :: tail, err, false, errno⟩ =
      (ch, ⟨rest ++ (w' ++ b :: tail), err, false, errno⟩) := getNextToken_blank hw (by simp) hch
  have hvalue : parseValue ⟨ch :: (rest ++ (w' ++ b :: tail)), err, false, errno⟩ =
      (v, ⟨w' ++ b :: tail, err, false, errno'⟩) :=
    hr.complete (p := ⟨_, _, _, _⟩) Blank.nil hD (ends_blank hw' hbe tail) rfl rfl
  have hnext : getNextToken ⟨w' ++ b :: tail, err, false, errno'⟩ = (b, ⟨tail, err, false, errno'⟩) :=
    getNextToken_blank hw' rfl hbb
  simp only [htoken, parseElements, hvalue, hnext]
  rcases hb with rfl | rfl <;> rfl

/-- **The loop over the elements** reads one or more elements and a ']'. -/
theorem parseElements_complete (hr : Reads parseValue D) {errno errno' : Bool} {t : Str} {vs : List Json}
    (h : Commas (Padded D) errno t vs errno') {n : ℕ} (hn : vs.length ≤ n) {p : JsonParser} {tail : Str}
    (herrno : p.errno = errno) (hfailed : p.failed = false) (hp : p.rest = t ++ 93 :: tail) (data : List Json) :
    parseElements parseValue n p.getNextToken.1 p.getNextToken.2 data =
      (.array (data ++ vs), { p with rest := tail, errno := errno' }) := by
  induction h generalizing n p data with
  | one h =>
    obtain ⟨n, rfl⟩ := Nat.exists_eq_add_of_le' (show 1 ≤ n from hn)
    subst herrno
    exact element_complete hr h (.inr rfl) hfailed hp n data
  | @cons t u _ _ _ v vs h hs ih =>
    obtain ⟨n, rfl⟩ := Nat.exists_eq_add_of_le' (Nat.le_trans (Nat.le_add_left 1 _) hn)
    subst herrno
    have hround := @element_complete _ _ hr t (u ++ 93 :: tail) _ _ _ h _ (.inl rfl) hfailed (by simp [hp]) n data
    have hrest := ih (n := n) (by simpa using hn) (p := { p with rest := u ++ 93 :: tail, errno := _ }) rfl hfailed rfl
      (data ++ [v])
    rw [hround, if_neg (by decide), hrest]
    simp

/-- what the loop over the elements has read -/
theorem parseElements_sound (hr : Reads parseValue D) {n : ℕ} {ch : UInt8} {p : JsonParser} {data : List Json}
    (hn : p.rest.length < n) (h : (parseElements parseValue n ch p data).2.failed = false) :
    ∃ t vs, ch :: p.rest = t ++ 93 :: (parseElements parseValue n ch p data).2.rest ∧
      (parseElements parseValue n ch p data).1 = .array (data ++ vs) ∧
      Commas (Padded D) p.errno t vs (parseElements parseValue n ch p data).2.errno := by
  induction n generalizing ch p data with
  | zero => omega
  | succ n ih =>
    generalize hq : ({ p with rest := ch :: p.rest } : JsonParser) = q at *
    have hqr : q.rest = ch :: p.rest := by rw [← hq]
    have hqe : q.errno = p.errno := by rw [← hq]
    have hlen := hr.rest q
    rw [hqr, List.length_cons] at hlen
    have hsound := @Reads.sound _ _ hr q
    simp only [parseElements, hq] at h ⊢
    generalize parseValue q = r at *
    obtain ⟨v, r⟩ := r
    simp only at h hlen hsound ⊢
    by_cases hpf : p.failed = true
    · rw [if_pos hpf] at h
      rw [h] at hpf
      cases hpf
    rw [if_neg hpf] at h ⊢
    by_cases hvf : r.failed = true
    · rw [if_pos hvf] at h
      rw [h] at hvf
      cases hvf
    rw [if_neg hvf] at h ⊢
    obtain ⟨w, t, u, e, hw, hrest, hD, hsame⟩ := hsound (by simpa using hvf)
    -- the token behind the element
    have htoken := getNextToken_cases r
    by_cases hclose : r.getNextToken.1 = 93
    · rw [if_pos hclose] at h ⊢
      obtain ⟨w', c, rest, hw', -, hsplit, heq⟩ := getNextToken_inv h
      obtain rfl : c = 93 := by rw [← hclose, heq]
      obtain ⟨rfl, rfl⟩ := hsame (by rw [hsplit]; exact (ends_blank hw' (by decide) rest).noHex)
      refine ⟨w ++ t ++ w', [u], ?_, rfl, ?_⟩
      · rw [← hqr, hrest, hsplit, heq]
        simp
      · rw [heq, ← hqe]
        exact .one ⟨hw, hD, hw'⟩
    rw [if_neg hclose] at h ⊢
    by_cases hcomma : r.getNextToken.1 = 44
    · rw [if_neg (not_not.2 hcomma)] at h ⊢
      have hlt : r.getNextToken.2.rest.length < r.rest.length := getNextToken_lt (by rw [hcomma]; decide)
      obtain ⟨w', c, rest, hw', -, hsplit, heq⟩ := getNextToken_inv (p := r)
        (((getNextToken_advances _).trans (parseElements_advances hr.advances _ _ _ _)).not_failed h)
      obtain rfl : c = 44 := by rw [← hcomma, heq]
      obtain ⟨rfl, rfl⟩ := hsame (by rw [hsplit]; exact (ends_blank hw' (by decide) rest).noHex)
      -- the next token
      obtain ⟨w2, c2, rest2, hw2, -, hsplit2, heq2⟩ := getNextToken_inv (p := r.getNextToken.2)
        ((parseElements_advances hr.advances _ _ _ _).not_failed h)
      have hlt2 : r.getNextToken.2.getNextToken.2.rest.length < n := by
        have h2 := congrArg List.length hsplit2
        simp only [List.length_append, List.length_cons] at h2
        rw [heq2]
        simp only
        omega
      obtain ⟨more, vs, hu, hval, hs⟩ := ih hlt2 h
      refine ⟨w ++ t ++ w' ++ 44 :: (w2 ++ more), u :: vs, ?_, by rw [hval]; simp, ?_⟩
      · rw [heq2] at hu
        simp only at hu
        rw [← hqr, hrest, hsplit]
        have hnext : rest = r.getNextToken.2.rest := by rw [heq]
        rw [hnext, hsplit2, hu, heq2]
        simp
      · refine .cons ⟨hw, by rwa [hqe] at hD, hw'⟩ (Commas.blank (Padded.blank hw2) ?_)
        simpa using hs
    · rw [if_pos hcomma] at h
      simp [fail] at h

/-- one round of the loop over the members: up to the byte behind the member -/
theorem member_complete (hr : Reads parseValue D) {t tail : Str} {m : Str × Json} {errno' : Bool} {p : JsonParser}
    (h : Member D p.errno t m errno') {b : UInt8} (hb : b = 44 ∨ b = 125) (hfailed : p.failed = false)
    (hp : p.rest = t ++ b :: tail) (n : ℕ) (data : List (Str × Json)) :
    parseMembers parseValue (n + 1) p.getNextToken.1 p.getNextToken.2 data =
      if b = 125 then (.object (mapAssign m.1 m.2 data), { p with rest := tail, errno := errno' })
      else parseMembers parseValue n (getNextToken { p with rest := tail, errno := errno' }).1
        (getNextToken { p with rest := tail, errno := errno' }).2 (mapAssign m.1 m.2 data) := by
  have hbe : isDigit b = false ∧ b ≠ 46 ∧ b ≠ 101 ∧ b ≠ 69 ∧ b ≠ 120 ∧ b ≠ 88 := by rcases hb with rfl | rfl <;> decide
  have hbb : isBlank b = false := by rcases hb with rfl | rfl <;> rfl
  obtain @⟨w, w', u, _, _, v, hw, items, hw', hpad⟩ := h
  obtain @⟨w1, t, w2, _, _, _, hw1, hD, hw2⟩ := hpad
  obtain ⟨prest, err, pfailed, errno⟩ := p
  simp only at hfailed hp
  subst hfailed hp
  have hopen : getNextToken ⟨w ++ quote items ++ w' ++ 58 :: (w1 ++ t ++ w2) ++ b :: tail, err, false, errno⟩ =
      (34, ⟨items.flatMap Item.text ++ 34 :: (w' ++ 58 :: (w1 ++ t ++ w2) ++ b :: tail), err, false, errno⟩) :=
    getNextToken_blank hw (by simp [quote]) rfl
  have hkey : parseString
      ⟨items.flatMap Item.text ++ 34 :: (w' ++ 58 :: (w1 ++ t ++ w2) ++ b :: tail), err, false, errno⟩ =
      (decode items, ⟨w' ++ 58 :: (w1 ++ t ++ w2) ++ b :: tail, err, false, errno⟩) := parseString_items items rfl
  have hcolon : getNextToken ⟨w' ++ 58 :: (w1 ++ t ++ w2) ++ b :: tail, err, false, errno⟩ =
      (58, ⟨w1 ++ t ++ w2 ++ b :: tail, err, false, errno⟩) := getNextToken_blank hw' (by simp) rfl
  have hvalue : parseValue ⟨w1 ++ t ++ w2 ++ b :: tail, err, false, errno⟩ =
      (v, ⟨w2 ++ b :: tail, err, false, errno'⟩) :=
    hr.complete (p := ⟨_, _, _, _⟩) hw1 hD (ends_blank hw2 hbe tail) rfl (by simp)
  have hnext : getNextToken ⟨w2 ++ b :: tail, err, false, errno'⟩ = (b, ⟨tail, err, false, errno'⟩) :=
    getNextToken_blank hw2 rfl hbb
  simp only [hopen, parseMembers, hkey, hcolon, hvalue, hnext]
  rcases hb with rfl | rfl <;> rfl

/-- **The loop over the members** reads one or more members and a '}'. -/
theorem parseMembers_complete (hr : Reads parseValue D) {errno errno' : Bool} {t : Str} {ms : List (Str × Json)}
    (h : Commas (Member D) errno t ms errno') {n : ℕ} (hn : ms.length ≤ n) {p : JsonParser} {tail : Str}
    (herrno : p.errno = errno) (hfailed : p.failed = false) (hp : p.rest = t ++ 125 :: tail)
    (data : List (Str × Json)) :
    parseMembers parseValue n p.getNextToken.1 p.getNextToken.2 data =
      (.object (assignMembers data ms), { p with rest := tail, errno := errno' }) := by
  induction h generalizing n p data with
  | one h =>
    obtain ⟨n, rfl⟩ := Nat.exists_eq_add_of_le' (show 1 ≤ n from hn)
    subst herrno
    exact member_complete hr h (.inr rfl) hfailed hp n data
  | @cons t u _ _ _ m ms h hs ih =>
    obtain ⟨n, rfl⟩ := Nat.exists_eq_add_of_le' (Nat.le_trans (Nat.le_add_left 1 _) hn)
    subst herrno
    have hround := @member_complete _ _ hr t (u ++ 125 :: tail) _ _ _ h _ (.inl rfl) hfailed (by simp [hp]) n data
    have hrest := ih (n := n) (by simpa using hn) (p := { p with rest := u ++ 125 :: tail, errno := _ }) rfl hfailed rfl
      (mapAssign m.1 m.2 data)
    rw [hround, if_neg (by decide), hrest]
    rfl

/-- what the loop over the members has read -/
theorem parseMembers_sound (hr : Reads parseValue D) {n : ℕ} {ch : UInt8} {p : JsonParser} {data : List (Str × Json)}
    (hn : p.rest.length < n) (h : (parseMembers parseValue n ch p data).2.failed = false) :
    ∃ t ms, ch :: p.rest = t ++ 125 :: (parseMembers parseValue n ch p data).2.rest ∧
      (parseMembers parseValue n ch p data).1 = .object (assignMembers data ms) ∧
      Commas (Member D) p.errno t ms (parseMembers parseValue n ch p data).2.errno := by
  induction n generalizing ch p data with
  | zero => omega
  | succ n ih =>
    simp only [parseMembers] at h ⊢
    by_cases hopen : ch = 34
    swap
    · rw [if_pos hopen] at h
      simp [fail] at h
    rw [if_neg (not_not.2 hopen)] at h ⊢
    subst hopen
    -- the key
    by_cases hkf : p.parseString.2.failed = true
    · rw [if_pos hkf] at h
      rw [h] at hkf
      cases hkf
    rw [if_neg hkf] at h ⊢
    obtain ⟨items, tail, hp⟩ := parseString_inv (by simpa using hkf)
    have hkey := parseString_items items hp
    have hlen := congrArg List.length hp
    simp only [List.length_append, List.length_cons] at hlen
    simp only [hkey] at h ⊢
    -- the colon
    generalize hq : ({ p with rest := tail } : JsonParser) = q at h ⊢
    have hqr : q.rest = tail := by rw [← hq]
    have hqe : q.errno = p.errno := by rw [← hq]
    by_cases hcolon : q.getNextToken.1 = 58
    swap
    · rw [if_pos hcolon] at h
      simp [fail] at h
    rw [if_neg (not_not.2 hcolon)] at h ⊢
    have hlen2 : q.getNextToken.2.rest.length < q.rest.length := getNextToken_lt (by rw [hcolon]; decide)
    have hvlen := hr.rest q.getNextToken.2
    have hsound := @Reads.sound _ _ hr q.getNextToken.2
    have hadv := hr.advances q.getNextToken.2
    generalize parseValue q.getNextToken.2 = r at *
    obtain ⟨v, r⟩ := r
    simp only at h hvlen hsound hadv ⊢
    by_cases hvf : r.failed = true
    · rw [if_pos hvf] at h
      rw [h] at hvf
      cases hvf
    rw [if_neg hvf] at h ⊢
    obtain ⟨w, c, rest, hw, -, hsplit, heq⟩ := getNextToken_inv (hadv.not_failed (by simpa using hvf))
    obtain rfl : c = 58 := by rw [← hcolon, heq]
    obtain ⟨w1, t, u, e, hw1, hrest, hD, hsame⟩ := hsound (by simpa using hvf)
    rw [heq] at hrest hD
    simp only at hrest hD
    -- the token behind the member
    by_cases hclose : r.getNextToken.1 = 125
    · rw [if_pos hclose] at h ⊢
      obtain ⟨w2, c, rest2, hw2, -, hsplit2, heq2⟩ := getNextToken_inv h
      obtain rfl : c = 125 := by rw [← hclose, heq2]
      obtain ⟨rfl, rfl⟩ := hsame (by rw [hsplit2]; exact (ends_blank hw2 (by decide) rest2).noHex)
      refine ⟨quote items ++ w ++ 58 :: (w1 ++ t ++ w2), [(decode items, u)], ?_, rfl, ?_⟩
      · rw [hp, ← hqr, hsplit, hrest, hsplit2, heq2]
        simp [quote]
      · rw [heq2, ← hqe]
        exact .one (.intro Blank.nil items hw ⟨hw1, hD, hw2⟩)
    rw [if_neg hclose] at h ⊢
    by_cases hcomma : r.getNextToken.1 = 44
    swap
    · rw [if_pos hcomma] at h
      simp [fail] at h
    rw [if_neg (not_not.2 hcomma)] at h ⊢
    obtain ⟨w2, c, rest2, hw2, -, hsplit2, heq2⟩ := getNextToken_inv (p := r)
      (((getNextToken_advances _).trans (parseMembers_advances hr.advances _ _ _ _)).not_failed h)
    obtain rfl : c = 44 := by rw [← hcomma, heq2]
    obtain ⟨rfl, rfl⟩ := hsame (by rw [hsplit2]; exact (ends_blank hw2 (by decide) rest2).noHex)
    obtain ⟨w3, c3, rest3, hw3, -, hsplit3, heq3⟩ := getNextToken_inv (p := r.getNextToken.2)
      ((parseMembers_advances hr.advances _ _ _ _).not_failed h)
    have hlt : r.getNextToken.2.getNextToken.2.rest.length < n := by
      have h2 := congrArg List.length hsplit2
      have h3 := congrArg List.length hsplit3
      rw [heq2] at h3
      simp only [List.length_append, List.length_cons] at h2 h3
      rw [heq3]
      simp only
      rw [hqr] at hlen2
      omega
    obtain ⟨more, ms, hu, hval, hs⟩ := ih hlt h
    refine ⟨quote items ++ w ++ 58 :: (w1 ++ t ++ w2) ++ 44 :: (w3 ++ more), (decode items, u) :: ms, ?_,
      by rw [hval]; rfl, ?_⟩
    · rw [heq3] at hu
      simp only at hu
      rw [hp, ← hqr, hsplit, hrest, hsplit2]
      have hnext : rest2 = r.getNextToken.2.rest := by rw [heq2]
      rw [hnext, hsplit3, hu, heq3]
      simp [quote]
    · refine .cons (.intro Blank.nil items hw ⟨hw1, by rwa [hqe] at hD, hw2⟩) (Commas.blank (Member.blank hw3) ?_)
      simpa using hs

end

/-! ## The levels -/

theorem expect_append {p : JsonParser} {ch : UInt8} {expected tail : Str} (hp : ch :: p.rest = expected ++ tail)
    (res : Json) : p.expect ch expected res = (res, { p with rest := tail }) := by
  simp only [expect, hp, List.take_left, if_true, List.drop_left]

theorem expect_inv {p : JsonParser} {ch : UInt8} {expected : Str} {res : Json}
    (h : (p.expect ch expected res).2.failed = false) : ∃ tail, ch :: p.rest = expected ++ tail := by
  simp only [expect] at h
  split_ifs at h with heq
  · refine ⟨(ch :: p.rest).drop expected.length, ?_⟩
    conv_lhs => rw [← List.take_append_drop expected.length (ch :: p.rest), heq]
  · simp [fail] at h

/-- what a level reads, from the first byte of its text on; a number has to end there -/
theorem parseJson_complete {levels : ℕ} (hr : Reads (parseJson levels) (Value sem levels)) {t tail : Str} {v : Json}
    {errno errno' : Bool} {err : Str} (h : Node sem (Value sem levels) errno t v errno')
    (htail : ∀ n : Number, t = n.text → Stops n tail ∧ NoHex tail) :
    parseJson (levels + 1) ⟨t ++ tail, err, false, errno⟩ = (v, ⟨tail, err, false, errno'⟩) := by
  have hopen : ∀ {ch : UInt8} {rest : Str}, isBlank ch = false →
      getNextToken ⟨ch :: rest, err, false, errno⟩ = (ch, ⟨rest, err, false, errno⟩) := fun hch =>
    getNextToken_blank Blank.nil rfl hch
  cases h with
  | null =>
    have htoken : getNextToken ⟨ascii "null" ++ tail, err, false, errno⟩ =
        (110, ⟨ascii "ull" ++ tail, err, false, errno⟩) := hopen rfl
    simp only [parseJson, htoken]
    exact @expect_append ⟨ascii "ull" ++ tail, err, false, errno⟩ 110 (ascii "null") tail rfl _
  | true =>
    have htoken : getNextToken ⟨ascii "true" ++ tail, err, false, errno⟩ =
        (116, ⟨ascii "rue" ++ tail, err, false, errno⟩) := hopen rfl
    simp only [parseJson, htoken]
    exact @expect_append ⟨ascii "rue" ++ tail, err, false, errno⟩ 116 (ascii "true") tail rfl _
  | false =>
    have htoken : getNextToken ⟨ascii "false" ++ tail, err, false, errno⟩ =
        (102, ⟨ascii "alse" ++ tail, err, false, errno⟩) := hopen rfl
    simp only [parseJson, htoken]
    exact @expect_append ⟨ascii "alse" ++ tail, err, false, errno⟩ 102 (ascii "false") tail rfl _
  | string items =>
    have htoken : getNextToken ⟨quote items ++ tail, err, false, errno⟩ =
        (34, ⟨items.flatMap Item.text ++ 34 :: tail, err, false, errno⟩) := by
      rw [← hopen rfl]
      simp [quote]
    have hstring : parseString ⟨items.flatMap Item.text ++ 34 :: tail, err, false, errno⟩ =
        (decode items, ⟨tail, err, false, errno⟩) := parseString_items items rfl
    simp only [parseJson, htoken, hstring]
    rfl
  | number n =>
    obtain ⟨ch, rest, htext, hch⟩ := n.starts
    have htoken : getNextToken ⟨n.text ++ tail, err, false, errno⟩ = (ch, ⟨rest ++ tail, err, false, errno⟩) := by
      rw [htext]
      exact hopen (not_blank_of_number hch).1
    obtain ⟨hstop, hx⟩ := htail n rfl
    have hnumber := parseNumber_text n hstop hx (p := ⟨ch :: (rest ++ tail), err, false, errno⟩)
      (by simp [htext])
    simp only [parseJson, htoken]
    rw [if_neg (by simp), if_pos hch, hnumber]
    rfl
  | @emptyArray w hw =>
    have htoken : getNextToken ⟨91 :: w ++ [93] ++ tail, err, false, errno⟩ =
        (91, ⟨w ++ 93 :: tail, err, false, errno⟩) := by
      rw [← hopen rfl]
      simp
    have hclose : getNextToken ⟨w ++ 93 :: tail, err, false, errno⟩ = (93, ⟨tail, err, false, errno⟩) :=
      getNextToken_blank hw rfl rfl
    simp only [parseJson, htoken, hclose]
    rfl
  | @array t vs _ _ h =>
    have htoken : getNextToken ⟨91 :: t ++ [93] ++ tail, err, false, errno⟩ =
        (91, ⟨t ++ 93 :: tail, err, false, errno⟩) := by
      rw [← hopen rfl]
      simp
    obtain ⟨w, ch, rest, hw, ht, hch, h93, hlen⟩ := h.begins (Padded.begins hr.starts)
    have hfirst : getNextToken ⟨t ++ 93 :: tail, err, false, errno⟩ = (ch, ⟨rest ++ 93 :: tail, err, false, errno⟩) :=
      getNextToken_blank hw (by simp [ht]) hch
    have hloop := parseElements_complete hr h (n := (rest ++ 93 :: tail).length + 1)
      (by simp only [List.length_append, List.length_cons]; omega)
      (p := ⟨t ++ 93 :: tail, err, false, errno⟩) rfl rfl rfl []
    rw [hfirst] at hloop
    simp only [parseJson, htoken, hfirst, if_neg h93]
    exact hloop
  | @emptyObject w hw =>
    have htoken : getNextToken ⟨123 :: w ++ [125] ++ tail, err, false, errno⟩ =
        (123, ⟨w ++ 125 :: tail, err, false, errno⟩) := by
      rw [← hopen rfl]
      simp
    have hclose : getNextToken ⟨w ++ 125 :: tail, err, false, errno⟩ = (125, ⟨tail, err, false, errno⟩) :=
      getNextToken_blank hw rfl rfl
    simp only [parseJson, htoken, hclose]
    rfl
  | @object t ms _ _ h =>
    have htoken : getNextToken ⟨123 :: t ++ [125] ++ tail, err, false, errno⟩ =
        (123, ⟨t ++ 125 :: tail, err, false, errno⟩) := by
      rw [← hopen rfl]
      simp
    obtain ⟨w, ch, rest, hw, ht, hch, rfl, hlen⟩ := h.begins Member.begins
    have hfirst : getNextToken ⟨t ++ 125 :: tail, err, false, errno⟩ = (34, ⟨rest ++ 125 :: tail, err, false, errno⟩) :=
      getNextToken_blank hw (by simp [ht]) hch
    have hloop := parseMembers_complete hr h (n := (rest ++ 125 :: tail).length + 1)
      (by simp only [List.length_append, List.length_cons]; omega)
      (p := ⟨t ++ 125 :: tail, err, false, errno⟩) rfl rfl rfl []
    rw [hfirst] at hloop
    simp only [parseJson, htoken, hfirst]
    exact hloop

/-- where a level does not fail it has read a text of its own -/
theorem parseJson_sound {levels : ℕ} (hr : Reads (parseJson levels) (Value sem levels)) {p : JsonParser}
    (h : (parseJson (levels + 1) p).2.failed = false) :
    ∃ w t v errno', Blank w ∧ p.rest = w ++ (t ++ (parseJson (levels + 1) p).2.rest) ∧
      Node sem (Value sem levels) p.errno t v errno' ∧
      (NoHex (parseJson (levels + 1) p).2.rest →
        v = (parseJson (levels + 1) p).1 ∧ errno' = (parseJson (levels + 1) p).2.errno) := by
  have htoken : p.getNextToken.2.failed = false := by
    by_contra hf
    simp only [parseJson, if_pos (by simpa using hf : p.getNextToken.2.failed = true)] at h
    exact hf h
  obtain ⟨w, ch, rest, hw, -, hp, heq⟩ := getNextToken_inv htoken
  rw [heq] at htoken
  simp only [parseJson, heq] at h ⊢
  simp only at htoken
  rw [if_neg (by simp [htoken])] at h ⊢
  refine ⟨w, ?_⟩
  rw [hp]
  clear heq
  -- by the first byte
  by_cases hnum : ch = 45 ∨ isDigit ch = true
  · rw [if_pos hnum] at h ⊢
    obtain ⟨n, tail, htext, hstop⟩ := parseNumber_inv h
    have hscan := parseNumber_scan n hstop htext
    refine ⟨n.text, _, _, hw, ?_, .number n _, ?_⟩
    · rw [hscan]
      exact congrArg _ htext
    · intro hx
      rw [hscan] at hx
      rw [parseNumber_text n hstop hx htext]
      exact ⟨rfl, rfl⟩
  rw [if_neg hnum] at h ⊢
  by_cases ht : ch = 116
  · rw [if_pos ht] at h ⊢
    obtain ⟨tail, htail⟩ := expect_inv h
    rw [expect_append htail]
    exact ⟨ascii "true", _, _, hw, congrArg _ htail, .true _, fun _ => ⟨rfl, rfl⟩⟩
  rw [if_neg ht] at h ⊢
  by_cases hf : ch = 102
  · rw [if_pos hf] at h ⊢
    obtain ⟨tail, htail⟩ := expect_inv h
    rw [expect_append htail]
    exact ⟨ascii "false", _, _, hw, congrArg _ htail, .false _, fun _ => ⟨rfl, rfl⟩⟩
  rw [if_neg hf] at h ⊢
  by_cases hn : ch = 110
  · rw [if_pos hn] at h ⊢
    obtain ⟨tail, htail⟩ := expect_inv h
    rw [expect_append htail]
    exact ⟨ascii "null", _, _, hw, congrArg _ htail, .null _, fun _ => ⟨rfl, rfl⟩⟩
  rw [if_neg hn] at h ⊢
  by_cases hs : ch = 34
  · rw [if_pos hs] at h ⊢
    obtain ⟨items, tail, htail⟩ := parseString_inv h
    rw [parseString_items items htail]
    simp only at htail
    exact ⟨quote items, _, _, hw, by simp [hs, htail, quote], .string items _, fun _ => ⟨rfl, rfl⟩⟩
  rw [if_neg hs] at h ⊢
  by_cases ho : ch = 123
  · rw [if_pos ho] at h ⊢
    by_cases hc : (getNextToken { p with rest }).1 = 125
    · rw [if_pos hc] at h ⊢
      obtain ⟨w', c, rest', hw', -, hsplit, heq⟩ := getNextToken_inv h
      obtain rfl : c = 125 := by rw [← hc, heq]
      simp only at hsplit
      rw [heq]
      exact ⟨123 :: w' ++ [125], _, _, hw, by simp [ho, hsplit], .emptyObject hw' _, fun _ => ⟨rfl, rfl⟩⟩
    · rw [if_neg hc] at h ⊢
      obtain ⟨w', c, rest', hw', -, hsplit, heq⟩ := getNextToken_inv
        ((parseMembers_advances hr.advances _ _ _ _).not_failed h)
      obtain ⟨t, ms, hrest, hval, hms⟩ := parseMembers_sound hr (Nat.lt_succ_self _) h
      simp only [heq] at hsplit hrest hval hms ⊢
      rw [hval]
      exact ⟨123 :: (w' ++ t) ++ [125], _, _, hw, by simp [ho, hsplit, hrest],
        .object (Commas.blank (Member.blank hw') hms), fun _ => ⟨rfl, rfl⟩⟩
  rw [if_neg ho] at h ⊢
  by_cases ha : ch = 91
  · rw [if_pos ha] at h ⊢
    by_cases hc : (getNextToken { p with rest }).1 = 93
    · rw [if_pos hc] at h ⊢
      obtain ⟨w', c, rest', hw', -, hsplit, heq⟩ := getNextToken_inv h
      obtain rfl : c = 93 := by rw [← hc, heq]
      simp only at hsplit
      rw [heq]
      exact ⟨91 :: w' ++ [93], _, _, hw, by simp [ha, hsplit], .emptyArray hw' _, fun _ => ⟨rfl, rfl⟩⟩
    · rw [if_neg hc] at h ⊢
      obtain ⟨w', c, rest', hw', -, hsplit, heq⟩ := getNextToken_inv
        ((parseElements_advances hr.advances _ _ _ _).not_failed h)
      obtain ⟨t, vs, hrest, hval, hvs⟩ := parseElements_sound hr (Nat.lt_succ_self _) h
      simp only [heq] at hsplit hrest hval hvs ⊢
      rw [hval]
      exact ⟨91 :: (w' ++ t) ++ [93], _, _, hw, by simp [ha, hsplit, hrest],
        .array (Commas.blank (Padded.blank hw') hvs), fun _ => ⟨rfl, rfl⟩⟩
  rw [if_neg ha] at h
  simp [fail] at h

theorem parseJson_blank {levels : ℕ} (hr : Reads (parseJson levels) (Value sem levels)) {w t tail : Str} {v : Json}
    {errno' : Bool} {p : JsonParser} (hw : Blank w) (h : Node sem (Value sem levels) p.errno t v errno')
    (htail : ∀ n : Number, t = n.text → Stops n tail ∧ NoHex tail) (hfailed : p.failed = false)
    (hp : p.rest = w ++ (t ++ tail)) :
    parseJson (levels + 1) p = (v, { p with rest := tail, errno := errno' }) := by
  obtain ⟨prest, err, pfailed, errno⟩ := p
  simp only at hfailed hp
  subst hfailed hp
  obtain ⟨ch, rest, rfl, hch, -⟩ := Node.starts h
  -- the blanks are skipped with the first token
  have h1 : getNextToken ⟨w ++ (ch :: rest ++ tail), err, false, errno⟩ = (ch, ⟨rest ++ tail, err, false, errno⟩) :=
    getNextToken_blank hw rfl hch
  have h2 : getNextToken ⟨ch :: rest ++ tail, err, false, errno⟩ = (ch, ⟨rest ++ tail, err, false, errno⟩) :=
    getNextToken_blank Blank.nil rfl hch
  have hread := @parseJson_complete _ hr _ _ _ _ _ err h htail
  rw [← hread]
  simp only [parseJson, h1, h2]

/-- **Every level** reads the texts of its nesting, and nothing else. -/
theorem reads_parseJson (levels : ℕ) : Reads (parseJson levels) (Value sem levels) := by
  induction levels with
  | zero =>
    exact ⟨fun _ h => h.elim, fun h => by simp [parseJson, fail] at h, fun h => h.elim, parseJson_advances 0,
      parseJson_rest 0⟩
  | succ levels ih =>
    refine ⟨?_, parseJson_sound ih, Value.starts, parseJson_advances _, parseJson_rest _⟩
    intro w t tail v errno' p hw h htail hfailed hp
    exact parseJson_blank ih hw h (fun n _ => ⟨htail.stops n, htail.noHex⟩) hfailed hp

/-! ## What a failed parse gives -/

theorem parseStringLoop_failed (p : JsonParser) (s out : Str) (last : ℤ) (hp : p.failed = false)
    (h : (parseStringLoop p s out last).2.failed = true) : (parseStringLoop p s out last).1 = [] := by
  fun_induction parseStringLoop p s out last with
  | case2 => simp [hp] at h
  | case4 _ _ _ _ _ _ _ ih => exact ih h
  | case6 _ _ _ _ _ _ _ _ _ _ _ _ _ _ ih => exact ih h
  | case7 _ _ _ _ _ _ _ _ _ _ _ _ _ _ ih => exact ih h
  | case10 _ _ _ _ _ _ _ _ _ _ _ _ ih => exact ih h
  | case1 | case3 | case5 | case8 | case9 | case11 => rfl

theorem parseDecimal_failed {p : JsonParser} (hp : p.failed = false) (start rest : Str)
    (h : (parseDecimal p start rest).2.failed = true) : (parseDecimal p start rest).1 = .null := by
  simp only [parseDecimal] at h ⊢
  split_ifs at h ⊢ <;> simp_all

theorem parseNumber_failed {p : JsonParser} (hp : p.failed = false) (h : p.parseNumber.2.failed = true) :
    p.parseNumber.1 = .null := by
  simp only [parseNumber] at h ⊢
  generalize (if cur p.rest = 45 then p.rest.tail else p.rest) = s at h ⊢
  generalize parseInteger (upTo p.rest (s.dropWhile isDigit)) p.errno = r at h ⊢
  obtain ⟨_ | value, errno⟩ := r
  · split_ifs at h ⊢
    · rfl
    · rfl
    · exact parseDecimal_failed (by exact hp) _ _ h
    · exact parseDecimal_failed hp _ _ h
  · split_ifs at h ⊢
    · rfl
    · rfl
    · simp [hp] at h
    · exact parseDecimal_failed hp _ _ h

theorem expect_failed {p : JsonParser} (hp : p.failed = false) {ch : UInt8} {expected : Str} {res : Json}
    (h : (p.expect ch expected res).2.failed = true) : (p.expect ch expected res).1 = .null := by
  simp only [expect] at h ⊢
  split_ifs at h ⊢
  · simp [hp] at h
  · rfl

theorem getNextToken_read {p : JsonParser} (h : p.getNextToken.1 ≠ 0) : p.getNextToken.2.failed = p.failed := by
  simp only [getNextToken] at h ⊢
  split at h
  · exact absurd rfl h
  · rfl

section
variable {parseValue : JsonParser → Json × JsonParser}

theorem parseMembers_failed (n : ℕ) (ch : UInt8) (p : JsonParser) (data : List (Str × Json))
    (h : (parseMembers parseValue n ch p data).2.failed = true) : (parseMembers parseValue n ch p data).1 = .null := by
  induction n generalizing ch p data with
  | zero => rfl
  | succ n ih =>
    simp only [parseMembers] at h ⊢
    split_ifs at h ⊢ with _ _ _ hv hc
    any_goals rfl
    · rw [getNextToken_read (by rw [hc]; decide)] at h
      exact absurd h hv
    · exact ih _ _ _ h

theorem parseElements_failed_null (n : ℕ) (ch : UInt8) (p : JsonParser) (data : List Json)
    (h : (parseElements parseValue n ch p data).2.failed = true) :
    (parseElements parseValue n ch p data).1 = .null := by
  induction n generalizing ch p data with
  | zero => rfl
  | succ n ih =>
    simp only [parseElements] at h ⊢
    split_ifs at h ⊢ with _ hv hc
    any_goals rfl
    · rw [getNextToken_read (by rw [hc]; decide)] at h
      exact absurd h hv
    · exact ih _ _ _ h

end

/-- null, or the empty string -/
def Blankish (v : Json) : Prop := v = .null ∨ v = .string []

theorem parseJson_failed (levels : ℕ) (p : JsonParser) (h : (parseJson levels p).2.failed = true) :
    Blankish (parseJson levels p).1 := by
  cases levels with
  | zero => exact .inl rfl
  | succ levels =>
    simp only [parseJson] at h ⊢
    by_cases htoken : p.getNextToken.2.failed = true
    · rw [if_pos htoken]
      exact .inl rfl
    rw [if_neg htoken] at h ⊢
    rw [Bool.not_eq_true] at htoken
    split_ifs at h ⊢ with _ _ _ _ _ _ hc _ hc
    · exact .inl (parseNumber_failed (by exact htoken) h)
    · exact .inl (expect_failed htoken h)
    · exact .inl (expect_failed htoken h)
    · exact .inl (expect_failed htoken h)
    · exact .inr (congrArg _ (parseStringLoop_failed _ _ _ _ htoken h))
    · rw [getNextToken_read (by rw [hc]; decide), htoken] at h
      cases h
    · exact .inl (parseMembers_failed _ _ _ _ h)
    · rw [getNextToken_read (by rw [hc]; decide), htoken] at h
      cases h
    · exact .inl (parseElements_failed_null _ _ _ _ h)
    · exact .inl rfl

end JsonParser

/-! ## Results -/

theorem parse_iff (text : Str) (errno : Bool) (v : Json) (errno' : Bool) :
    parse text errno = ⟨v, [], errno'⟩ ↔ Document sem (maxDepth + 1) errno text v errno' := by
  have hr := JsonParser.reads_parseJson (maxDepth + 1)
  constructor
  · intro h
    have hadv := hr.advances ⟨text, [], false, errno⟩
    have hsound := @JsonParser.Reads.sound _ _ hr ⟨text, [], false, errno⟩
    simp only [parse] at h
    generalize JsonParser.parseJson (maxDepth + 1) ⟨text, [], false, errno⟩ = r at h hadv hsound
    obtain ⟨result, p⟩ := r
    simp only [JsonParser.consumeGarbage] at h hadv hsound
    have hsplit : p.rest.takeWhile JsonParser.isWhitespace ++ p.rest.dropWhile JsonParser.isWhitespace = p.rest :=
      List.takeWhile_append_dropWhile
    cases hd : p.rest.dropWhile JsonParser.isWhitespace with
    | cons ch rest =>
      -- something is left: there is a message
      exfalso
      simp only [hd, Parsed.mk.injEq] at h
      have hmsg := @JsonParser.Advances.fail _ _ hadv (ascii "unexpected trailing " ++ esc ch) (by simp [ascii])
      exact hmsg.message rfl rfl (by simpa [JsonParser.fail] using h.2.1)
    | nil =>
      simp only [hd, Parsed.mk.injEq] at h
      obtain ⟨rfl, herr, rfl⟩ := h
      have hfailed : p.failed = false := by
        by_contra hf
        exact hadv.message rfl (by simpa using hf) herr
      obtain ⟨w, t, v, errno', hw, htext, hD, hsame⟩ := hsound hfailed
      rw [hd, List.append_nil] at hsplit
      have hblank : Blank p.rest := by
        rw [← hsplit]
        exact fun b hb => List.mem_takeWhile_imp hb
      obtain ⟨rfl, rfl⟩ := hsame (JsonParser.ends_of_blank hblank).noHex
      rw [htext, ← List.append_assoc]
      exact ⟨hw, hD, hblank⟩
  · rintro @⟨w, t, w', _, _, _, hw, hD, hw'⟩
    have hread := hr.complete (p := ⟨w ++ t ++ w', [], false, errno⟩) hw hD (JsonParser.ends_of_blank hw') rfl
      (List.append_assoc _ _ _)
    have hdrop : w'.dropWhile JsonParser.isWhitespace = [] := List.dropWhile_eq_nil_iff.2 hw'
    simp only [parse, hread, JsonParser.consumeGarbage, hdrop]

theorem accepted {text : Str} {errno : Bool} (h : (parse text errno).err = []) :
    Document sem (maxDepth + 1) errno text (parse text errno).json (parse text errno).errno :=
  (parse_iff text errno _ _).1 (by rw [← h])

/-- for any other text there is a message, and the value is null, or an empty string where the text is a string that
does not end -/
theorem rejected {text : Str} {errno : Bool} (h : ¬ ∃ v errno', Document sem (maxDepth + 1) errno text v errno') :
    (parse text errno).err ≠ [] ∧ JsonParser.Blankish (parse text errno).json := by
  have herr : (parse text errno).err ≠ [] := fun herr => h ⟨_, _, accepted herr⟩
  refine ⟨herr, ?_⟩
  have hfailed := JsonParser.parseJson_failed (maxDepth + 1) ⟨text, [], false, errno⟩
  have hadv := JsonParser.parseJson_advances (maxDepth + 1) ⟨text, [], false, errno⟩
  simp only [parse] at herr ⊢
  generalize JsonParser.parseJson (maxDepth + 1) ⟨text, [], false, errno⟩ = r at herr hfailed hadv ⊢
  obtain ⟨result, p⟩ := r
  simp only [JsonParser.consumeGarbage] at herr hfailed hadv ⊢
  cases hd : p.rest.dropWhile JsonParser.isWhitespace with
  | cons ch rest => exact .inl rfl
  | nil =>
    simp only [hd] at herr ⊢
    refine hfailed ?_
    by_contra hf
    exact herr (hadv.ok (by simpa using hf))

/-- **The parser decides the grammar.** A parse gives a value and no message exactly if the text is a document of at
most 201 nested levels that says this value. For any other text there is a message, and the value is null or empty. -/
theorem parse_decides (text : Str) (errno : Bool) :
    (∀ v errno', parse text errno = ⟨v, [], errno'⟩ ↔ Document sem (maxDepth + 1) errno text v errno') ∧
    ((¬ ∃ v errno', Document sem (maxDepth + 1) errno text v errno') →
      (parse text errno).err ≠ [] ∧ JsonParser.Blankish (parse text errno).json) :=
  ⟨parse_iff text errno, rejected⟩

end AirobotMsgd.Json11
