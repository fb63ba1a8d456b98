/-
Blanks, strings and numbers of a JSON text, as the parser of `json11` reads them (source/json11.cpp), against what they
say by `Core/JsonText.lean`.

`parse_string` decodes as it reads: it holds back the last code unit, since the next one may be the other half of its
pair. `parse_number` reads as far as a number can go, so what is behind a number must not continue it (`Stops`).

Results:
- `parseStringLoop_items`, `parseStringLoop_inv`: the loop of `parse_string` reads exactly the items up to a quote, and
  gives their bytes.
- `parseNumber_text`, `parseNumber_inv`: `parse_number` reads exactly the numbers, and gives their values.
-/
import AirobotMsgd.Core.JsonText
import AirobotMsgd.Json.Json11

namespace AirobotMsgd.Json11

open AirobotMsgd.Bytes AirobotMsgd.JsonText

namespace JsonParser

/-! ## Blanks -/

@[simp] theorem fail_errno (p : JsonParser) (msg : Str) : (p.fail msg).errno = p.errno := rfl

@[simp] theorem getNextToken_errno (p : JsonParser) : p.getNextToken.2.errno = p.errno := by
  simp only [getNextToken, consumeGarbage]
  split <;> rfl

theorem isWhitespace_eq (b : UInt8) : isWhitespace b = isBlank b := rfl

theorem dropWhile_blank {w : Str} (hw : Blank w) (s : Str) :
    (w ++ s).dropWhile isWhitespace = s.dropWhile isWhitespace :=
  List.dropWhile_append_of_pos fun b hb => by rw [isWhitespace_eq]; exact hw b hb

/-- blanks, and then a token -/
theorem getNextToken_blank {w : Str} (hw : Blank w) {p : JsonParser} {ch : UInt8} {rest : Str}
    (hp : p.rest = w ++ ch :: rest) (hch : isBlank ch = false) : p.getNextToken = (ch, { p with rest }) := by
  have hdrop : p.rest.dropWhile isWhitespace = ch :: rest := by
    rw [hp, dropWhile_blank hw, List.dropWhile_cons_of_neg (by rw [isWhitespace_eq, hch]; simp)]
  simp [getNextToken, consumeGarbage, hdrop]

/-- where a token is read, blanks are before it -/
theorem getNextToken_inv {p : JsonParser} (h : p.getNextToken.2.failed = false) :
    ∃ w ch rest, Blank w ∧ isBlank ch = false ∧ p.rest = w ++ ch :: rest ∧ p.getNextToken = (ch, { p with rest }) := by
  have hsplit : p.rest.takeWhile isWhitespace ++ p.rest.dropWhile isWhitespace = p.rest :=
    List.takeWhile_append_dropWhile
  have hw : Blank (p.rest.takeWhile isWhitespace) := fun b hb => List.mem_takeWhile_imp hb
  cases hd : p.rest.dropWhile isWhitespace with
  | nil => simp [getNextToken, consumeGarbage, hd, fail] at h
  | cons ch rest =>
    rw [hd] at hsplit
    have hch : isBlank ch = false := by
      have hhead := List.head_dropWhile_not isWhitespace (l := p.rest) (by rw [hd]; simp)
      rw [← isWhitespace_eq]
      simpa only [hd, List.head_cons] using hhead
    exact ⟨_, ch, rest, hw, hch, hsplit.symm, getNextToken_blank hw hsplit.symm hch⟩

/-! ## Strings -/

theorem or_of_lt {n k a : ℕ} (h : n < 2 ^ k) : n ||| 2 ^ k * a = 2 ^ k * a + n := by
  rw [Nat.or_comm, Nat.two_pow_add_eq_or_of_lt h]

theorem and_63 (n : ℕ) : n &&& 0x3F = n % 64 := Nat.and_two_pow_sub_one_eq_mod n 6

theorem encodeUtf8_nonneg {n : ℕ} (h : n < 0x200000) (out : Str) : encodeUtf8 n out = out ++ utf8 n := by
  have h80 : ∀ m, m % 64 ||| 0x80 = 0x80 + m % 64 := fun m => or_of_lt (k := 7) (a := 1) (by omega)
  simp only [encodeUtf8, utf8, Int.toNat_natCast, and_63, Nat.shiftRight_eq_div_pow, h80]
  rw [if_neg (by omega)]
  by_cases h1 : n < 0x80
  · rw [if_pos (by exact_mod_cast h1), if_pos h1]
  rw [if_neg (by exact_mod_cast h1), if_neg h1]
  by_cases h2 : n < 0x800
  · have hor : n / 2 ^ 6 ||| 0xC0 = 0xC0 + n / 64 := or_of_lt (k := 6) (a := 3) (by omega)
    rw [if_pos (by exact_mod_cast h2), if_pos h2, hor]
  rw [if_neg (by exact_mod_cast h2), if_neg h2]
  by_cases h3 : n < 0x10000
  · have hor : n / 2 ^ 12 ||| 0xE0 = 0xE0 + n / 4096 := or_of_lt (k := 5) (a := 7) (by omega)
    rw [if_pos (by exact_mod_cast h3), if_pos h3, hor]
  · have hor : n / 2 ^ 18 ||| 0xF0 = 0xF0 + n / 262144 := or_of_lt (k := 4) (a := 15) (by omega)
    rw [if_neg (by exact_mod_cast h3), if_neg h3, hor]

/-- the code unit that is held back -/
def heldBack (last : ℤ) : List Piece := if last < 0 then [] else [.unit last.toNat]

theorem heldBack_natCast (n : ℕ) : heldBack n = [.unit n] := by
  rw [heldBack, if_neg (by omega)]
  rfl

theorem encodeUtf8_eq {last : ℤ} (h : last < 0x10000) (out : Str) :
    encodeUtf8 last out = out ++ decodePieces (heldBack last) := by
  rcases lt_or_ge last 0 with hneg | hpos
  · simp [encodeUtf8, heldBack, hneg, decodePieces]
  · obtain ⟨n, rfl⟩ := Int.eq_ofNat_of_zero_le hpos
    have hn : n < 0x10000 := by exact_mod_cast h
    rw [encodeUtf8_nonneg (by omega), heldBack_natCast]
    simp [decodePieces]

theorem decodePieces_byte (last : ℤ) (b : UInt8) (ps : List Piece) :
    decodePieces (heldBack last ++ .byte b :: ps) = decodePieces (heldBack last) ++ b :: decodePieces ps := by
  unfold heldBack
  split_ifs
  · rfl
  · simp [decodePieces]

theorem hexValue_lt {a b c d : UInt8} : hexValue [a, b, c, d] < 0x10000 ∨ [a, b, c, d].all isHexDigit = false := by
  have hdigit : ∀ x : UInt8, isHexDigit x = true → hexDigit x < 16 := by
    intro x hx
    simp [isHexDigit, isDigit, UInt8.le_iff_toNat_le] at hx
    simp only [hexDigit, isDigit, Bool.and_eq_true, decide_eq_true_eq, UInt8.le_iff_toNat_le, UInt8.lt_iff_toNat_lt,
      UInt8.reduceToNat]
    split_ifs <;> omega
  cases h : [a, b, c, d].all isHexDigit with
  | false => exact .inr rfl
  | true =>
    simp only [List.all_cons, List.all_nil, Bool.and_true, Bool.and_eq_true] at h
    obtain ⟨ha, hb, hc, hd⟩ := h
    have h1 := hdigit a ha
    have h2 := hdigit b hb
    have h3 := hdigit c hc
    have h4 := hdigit d hd
    left
    simp only [hexValue, List.foldl_cons, List.foldl_nil]
    omega

/-- a byte as it is -/
theorem parseStringLoop_quote (p : JsonParser) (rest out : Str) (last : ℤ) :
    parseStringLoop p (34 :: rest) out last = (encodeUtf8 last out, { p with rest }) := by
  rw [parseStringLoop.eq_def]
  rfl

theorem parseStringLoop_char {ch : UInt8} (h : ch ≠ 34 ∧ ch ≠ 92 ∧ 0x1f < ch) (p : JsonParser) (rest out : Str)
    (last : ℤ) :
    parseStringLoop p (ch :: rest) out last = parseStringLoop p rest (encodeUtf8 last out ++ [ch]) (-1) := by
  have hlow : ¬ ch ≤ 0x1f := by simpa using h.2.2
  rw [parseStringLoop.eq_def]
  simp only [if_neg h.1, if_neg hlow, if_pos h.2.1]

theorem parseStringLoop_raw {b : UInt8} (h : b ≠ 34 ∧ b ≠ 92 ∧ 0x1f < b) (p : JsonParser) (rest out : Str)
    (last : ℤ) :
    parseStringLoop p (b :: rest) out last = parseStringLoop p rest (encodeUtf8 last out ++ [b]) (-1) :=
  parseStringLoop_char h p rest out last

theorem parseStringLoop_escape {ch b : UInt8} (h : unescape ch = some b) (p : JsonParser) (rest out : Str)
    (last : ℤ) :
    parseStringLoop p (92 :: ch :: rest) out last = parseStringLoop p rest (encodeUtf8 last out ++ [b]) (-1) := by
  have h117 : ch ≠ 117 := by
    rintro rfl
    rw [show unescape 117 = none by decide] at h
    cases h
  have h' : escapeChar ch = some b := h
  rw [parseStringLoop.eq_def]
  simp only [show ¬ ((92 : UInt8) = 34) by decide, show ¬ ((92 : UInt8) ≤ 0x1f) by decide, if_false, ne_eq,
    not_true_eq_false]
  split
  · rename_i heq; simp at heq
  · rename_i heq; simp only [List.cons.injEq] at heq; exact absurd heq.1 h117
  · rename_i heq; simp only [List.cons.injEq] at heq; exact absurd heq.1 h117
  · rename_i heq
    simp only [List.cons.injEq] at heq
    obtain ⟨rfl, rfl⟩ := heq
    rw [h']

/-- a code unit: the other half of the one held back, or held back in its place -/
theorem parseStringLoop_unit {a b c d : UInt8} (h : [a, b, c, d].all isHex = true) (p : JsonParser) (rest out : Str)
    (last : ℤ) :
    parseStringLoop p (92 :: 117 :: a :: b :: c :: d :: rest) out last =
      if inRange last 0xD800 0xDBFF && inRange (hexValue [a, b, c, d]) 0xDC00 0xDFFF then
        parseStringLoop p rest
          (encodeUtf8 ((last - 0xD800) * 1024 + (hexValue [a, b, c, d] - 0xDC00) + 0x10000) out) (-1)
      else parseStringLoop p rest (encodeUtf8 last out) (hexValue [a, b, c, d]) := by
  have h' : [a, b, c, d].all isHexDigit = true := h
  rw [parseStringLoop.eq_def]
  simp only [show ¬ ((92 : UInt8) = 34) by decide, show ¬ ((92 : UInt8) ≤ 0x1f) by decide, if_false, ne_eq,
    not_true_eq_false, h', if_true]

/-- **Decoding as it reads.** The loop of `parse_string` on items and a quote. -/
theorem parseStringLoop_items (items : List Item) (p : JsonParser) (tail out : Str) {last : ℤ}
    (hlast : last < 0x10000) :
    parseStringLoop p (items.flatMap Item.text ++ 34 :: tail) out last =
      (out ++ decodePieces (heldBack last ++ items.map Item.piece), { p with rest := tail }) := by
  induction items generalizing out last with
  | nil => simp [parseStringLoop_quote, encodeUtf8_eq hlast]
  | cons item items ih =>
    rw [List.flatMap_cons, List.append_assoc, List.map_cons]
    cases item with
    | raw b h =>
      simp only [Item.text, List.cons_append, List.nil_append]
      rw [parseStringLoop_raw h, ih _ (by norm_num), encodeUtf8_eq hlast, Item.piece, decodePieces_byte]
      simp [heldBack]
    | escape ch b h =>
      simp only [Item.text, List.cons_append, List.nil_append]
      rw [parseStringLoop_escape h, ih _ (by norm_num), encodeUtf8_eq hlast, Item.piece, decodePieces_byte]
      simp [heldBack]
    | unit a b c d h =>
      have hn : hexValue [a, b, c, d] < 0x10000 := hexValue_lt.resolve_right (by
        rw [show [a, b, c, d].all isHexDigit = true from h]; simp)
      simp only [Item.text, List.cons_append, List.nil_append]
      rw [parseStringLoop_unit h]
      have hpiece : (Item.unit a b c d h).piece = .unit (hexValue [a, b, c, d]) := rfl
      rw [hpiece]
      generalize hexValue [a, b, c, d] = n at hn ⊢
      rcases lt_or_ge last 0 with hneg | hpos
      · -- nothing is held back
        have hout : inRange last 0xD800 0xDBFF = false := by simp [inRange]; omega
        rw [hout, Bool.false_and, if_neg (by simp), ih _ (by exact_mod_cast hn), encodeUtf8_eq hlast,
          heldBack_natCast]
        simp [heldBack, hneg, decodePieces]
      · obtain ⟨m, rfl⟩ := Int.eq_ofNat_of_zero_le hpos
        have hm : m < 0x10000 := by exact_mod_cast hlast
        have hlead : inRange (m : ℤ) 0xD800 0xDBFF = isLead m := by simp [inRange, isLead]
        have htrail : inRange (n : ℤ) 0xDC00 0xDFFF = isTrail n := by simp [inRange, isTrail]
        rw [hlead, htrail, heldBack_natCast, List.singleton_append, decodePieces]
        split_ifs with hpair
        · simp only [isLead, isTrail, Bool.and_eq_true, decide_eq_true_eq] at hpair
          have hpoint : ((m : ℤ) - 0xD800) * 1024 + (n - 0xDC00) + 0x10000 = (pairPoint m n : ℕ) := by
            unfold pairPoint; omega
          rw [ih _ (by norm_num), hpoint, encodeUtf8_nonneg (by unfold pairPoint; omega)]
          simp [heldBack]
        · rw [ih _ (by exact_mod_cast hn), encodeUtf8_nonneg (by omega), heldBack_natCast]
          simp

/-- where the loop does not fail it reads items and a quote -/
theorem parseStringLoop_inv (p : JsonParser) (s out : Str) (last : ℤ)
    (h : (parseStringLoop p s out last).2.failed = false) :
    ∃ (items : List Item) (tail : Str), s = items.flatMap Item.text ++ 34 :: tail := by
  fun_induction parseStringLoop p s out last with
  | case2 rest => exact ⟨[], rest, rfl⟩
  | case4 ch rest out last h34 hlow h92 ih =>
    obtain ⟨items, tail, rfl⟩ := ih h
    exact ⟨.raw ch ⟨h34, h92, by simpa using hlow⟩ :: items, tail, by simp [Item.text]⟩
  | case6 ch out last h34 hlow h92 a b c d rest hhex codepoint hpair ih =>
    obtain ⟨items, tail, rfl⟩ := ih h
    exact ⟨.unit a b c d hhex :: items, tail, by simp [Item.text, not_not.1 h92]⟩
  | case7 ch out last h34 hlow h92 a b c d rest hhex codepoint hpair ih =>
    obtain ⟨items, tail, rfl⟩ := ih h
    exact ⟨.unit a b c d hhex :: items, tail, by simp [Item.text, not_not.1 h92]⟩
  | case10 ch out last h34 hlow h92 e rest _ _ b hb ih =>
    obtain ⟨items, tail, rfl⟩ := ih h
    exact ⟨.escape e b hb :: items, tail, by simp [Item.text, not_not.1 h92]⟩
  | case1 | case3 | case5 | case8 | case9 | case11 => simp [fail] at h

theorem parseString_items (items : List Item) {p : JsonParser} {tail : Str}
    (hp : p.rest = items.flatMap Item.text ++ 34 :: tail) :
    p.parseString = (decode items, { p with rest := tail }) := by
  rw [parseString, hp, parseStringLoop_items items p tail [] (by norm_num)]
  simp [heldBack, decode]

theorem parseString_inv {p : JsonParser} (h : p.parseString.2.failed = false) :
    ∃ (items : List Item) (tail : Str), p.rest = items.flatMap Item.text ++ 34 :: tail :=
  parseStringLoop_inv p p.rest [] (-1) h

end JsonParser

/-! ## Numbers -/

/-- a value of the two integer types -/
def InRange (v : ℤ) : Prop := -2 ^ 63 ≤ v ∧ v < 2 ^ 64

instance (v : ℤ) : Decidable (InRange v) := inferInstanceAs (Decidable (_ ∧ _))

def intValue (n : Number) : ℤ := if n.neg then -(decValue n.int : ℤ) else decValue n.int

/-- what a number reads as, with what `strtod` makes of it: exactly, if it is an integer of at most 20 bytes, in the
range of its type, and errno is clear; else as the double. An integer of at most 20 bytes that is not exact leaves errno
set. -/
def readWith (n : Number) (double : Double.Value × Bool) (errno : Bool) : Json × Bool :=
  if n.isInteger ∧ n.text.length ≤ 20 then
    if errno = false ∧ InRange (intValue n) then
      (if n.neg then .int64 (intValue n) else .uint64 (decValue n.int), false)
    else (.double double.1, true)
  else (.double double.1, errno || double.2)

/-- with the double next to it -/
def readNumber (n : Number) (errno : Bool) : Json × Bool := readWith n (Double.ofRat n.neg n.mag) errno

/-- a number ends here -/
def Ends (tail : Str) : Prop :=
  ∀ b ∈ tail.head?, isDigit b = false ∧ b ≠ 46 ∧ b ≠ 101 ∧ b ≠ 69 ∧ b ≠ 120 ∧ b ≠ 88

theorem digit_ne {b : UInt8} (h : isDigit b = true) : b ≠ 45 ∧ b ≠ 46 ∧ b ≠ 101 ∧ b ≠ 69 := by
  refine ⟨?_, ?_, ?_, ?_⟩ <;> rintro rfl <;> exact absurd h (by decide)

/-- what is behind a number does not continue it -/
def Stops (n : Number) (tail : Str) : Prop :=
  isDigit (cur tail) = false ∧ (n.exp = none → cur tail ≠ 101 ∧ cur tail ≠ 69 ∧ (n.frac = none → cur tail ≠ 46))

/-- nor makes a hexadecimal number of a 0 -/
def NoHex (tail : Str) : Prop := cur tail ≠ 120 ∧ cur tail ≠ 88

theorem Ends.stops {tail : Str} (h : Ends tail) (n : Number) : Stops n tail := by
  cases tail with
  | nil => exact ⟨rfl, fun _ => ⟨by decide, by decide, fun _ => by decide⟩⟩
  | cons b tail =>
    obtain ⟨h1, h2, h3, h4, -⟩ := h b rfl
    exact ⟨h1, fun _ => ⟨h3, h4, fun _ => h2⟩⟩

theorem Ends.noHex {tail : Str} (h : Ends tail) : NoHex tail := by
  cases tail with
  | nil => exact ⟨by decide, by decide⟩
  | cons b tail =>
    obtain ⟨-, -, -, -, h5, h6⟩ := h b rfl
    exact ⟨h5, h6⟩

theorem dropWhile_digits {ds tail : Str} (hd : ∀ b ∈ ds, isDigit b = true) (ht : isDigit (cur tail) = false) :
    (ds ++ tail).dropWhile isDigit = tail := by
  rw [List.dropWhile_append_of_pos hd]
  cases tail with
  | nil => rfl
  | cons b tail => rw [List.dropWhile_cons_of_neg (by simpa [cur] using ht)]

theorem takeWhile_digits {ds tail : Str} (hd : ∀ b ∈ ds, isDigit b = true) (ht : isDigit (cur tail) = false) :
    (ds ++ tail).takeWhile isDigit = ds := by
  rw [List.takeWhile_append_of_pos hd]
  cases tail with
  | nil => simp
  | cons b tail => rw [List.takeWhile_cons_of_neg (by simpa [cur] using ht), List.append_nil]

theorem cur_append_digits {ds : Str} (h : Digits ds) (tail : Str) : isDigit (cur (ds ++ tail)) = true := by
  obtain ⟨b, t, rfl⟩ := List.exists_cons_of_ne_nil h.1
  exact h.2 b List.mem_cons_self

/-- the letter of an exponent, or what is behind the number -/
theorem cur_expText (n : Number) {tail : Str} (h : Stops n tail) :
    isDigit (cur (n.expText ++ tail)) = false ∧ (n.frac = none → cur (n.expText ++ tail) ≠ 46) ∧
      ((cur (n.expText ++ tail) = 101 ∨ cur (n.expText ++ tail) = 69) ↔ n.exp.isSome = true) := by
  cases hexp : n.exp with
  | none =>
    obtain ⟨h1, h2, h3⟩ := h.2 hexp
    simp [Number.expText, hexp, h.1, h1, h2]
    exact h3
  | some e =>
    obtain ⟨he, -, -⟩ := n.exp_ok e hexp
    have hcur : cur (n.expText ++ tail) = e.1 := by simp [Number.expText, hexp, cur]
    rw [hcur]
    rcases he with he | he <;> rw [he] <;> simp <;> decide

/-- a '.', or what is behind the fraction -/
theorem cur_fracText (n : Number) {tail : Str} (h : Stops n tail) :
    isDigit (cur (n.fracText ++ (n.expText ++ tail))) = false ∧
      (cur (n.fracText ++ (n.expText ++ tail)) = 46 ↔ n.frac.isSome = true) := by
  obtain ⟨h1, h2, -⟩ := cur_expText n h
  cases hfrac : n.frac with
  | none => simp [Number.fracText, hfrac, h1, h2 hfrac]
  | some ds => simp [Number.fracText, hfrac, cur]; decide

theorem cur_sign (n : Number) (tail : Str) : cur (n.text ++ tail) = 45 ↔ n.neg = true := by
  cases hneg : n.neg with
  | true => simp [Number.text, Number.signText, hneg, cur]
  | false =>
    have hd := cur_append_digits n.int_ok.1 (n.fracText ++ n.expText ++ tail)
    have heq : n.text ++ tail = n.int ++ (n.fracText ++ n.expText ++ tail) := by
      simp [Number.text, Number.signText, hneg]
    rw [heq]
    simpa only [Bool.false_eq_true, iff_false] using (digit_ne hd).1

/-- past the sign -/
theorem drop_sign (n : Number) (tail : Str) :
    (if cur (n.text ++ tail) = 45 then (n.text ++ tail).tail else n.text ++ tail) =
      n.int ++ (n.fracText ++ (n.expText ++ tail)) := by
  cases hneg : n.neg with
  | true =>
    rw [if_pos ((cur_sign n tail).2 hneg)]
    simp [Number.text, Number.signText, hneg]
  | false =>
    rw [if_neg fun h => by simp [(cur_sign n tail).1 h] at hneg]
    simp [Number.text, Number.signText, hneg]

/-- past the fraction -/
theorem drop_frac (n : Number) {tail : Str} (h : Stops n tail) :
    (if cur (n.fracText ++ (n.expText ++ tail)) = 46 then
      (n.fracText ++ (n.expText ++ tail)).tail.takeWhile isDigit else []) = n.frac.getD [] ∧
    (if cur (n.fracText ++ (n.expText ++ tail)) = 46 then
      (n.fracText ++ (n.expText ++ tail)).tail.dropWhile isDigit else n.fracText ++ (n.expText ++ tail)) =
        n.expText ++ tail := by
  have h1 := (cur_expText n h).1
  have hiff := (cur_fracText n h).2
  cases hfrac : n.frac with
  | none =>
    rw [hfrac] at hiff
    rw [if_neg (by simpa using hiff), if_neg (by simpa using hiff)]
    simp [Number.fracText, hfrac]
  | some ds =>
    rw [hfrac] at hiff
    have hd := (n.frac_ok ds hfrac).2
    rw [if_pos (hiff.2 rfl), if_pos (hiff.2 rfl)]
    simp only [Number.fracText, hfrac, Option.elim_some, List.cons_append, List.tail_cons, Option.getD_some]
    exact ⟨takeWhile_digits hd h1, dropWhile_digits hd h1⟩

namespace JsonParser

theorem startsHex_digits (n : Number) {tail : Str} (h : Stops n tail)
    (hx : n.isInteger = true → n.text.length ≤ 20 → NoHex tail) :
    startsHex (n.int ++ (n.fracText ++ (n.expText ++ tail))) = false := by
  obtain ⟨⟨hne, -⟩, hzero⟩ := n.int_ok
  obtain ⟨b, t, hint⟩ := List.exists_cons_of_ne_nil hne
  by_cases hb : b = 48
  · -- a 0 is the whole integer part
    have hall : n.int = [48] := hzero (by simp [hint, hb])
    have hnext : cur (n.fracText ++ (n.expText ++ tail)) ≠ 120 ∧ cur (n.fracText ++ (n.expText ++ tail)) ≠ 88 := by
      cases hfrac : n.frac with
      | some ds => simp [Number.fracText, hfrac, cur]
      | none =>
        cases hexp : n.exp with
        | some e =>
          have hletter := (cur_expText n h).2.2.2 (by simp [hexp])
          simp only [Number.fracText, hfrac, Option.elim_none, List.nil_append]
          rcases hletter with hletter | hletter <;> simp [hletter]
        | none =>
          have hlen : n.text.length ≤ 20 := by
            cases hneg : n.neg <;>
              simp [Number.text, Number.signText, Number.fracText, Number.expText, hfrac, hexp, hall, hneg]
          simpa [Number.fracText, hfrac, Number.expText, hexp, NoHex] using
            hx (by simp [Number.isInteger, hfrac, hexp]) hlen
    simp [startsHex, hall, hnext]
  · simp [startsHex, hint, cur, hb]

theorem readExponent_text {sign : Option UInt8} {ds tail : Str} (hsign : ∀ b ∈ sign, b = 43 ∨ b = 45) (hds : Digits ds)
    (ht : isDigit (cur tail) = false) :
    readExponent (sign.toList ++ ds ++ tail) = if sign = some 45 then -(decValue ds : ℤ) else decValue ds := by
  have htake : (ds ++ tail).takeWhile isDigit = ds := takeWhile_digits hds.2 ht
  have hcur := cur_append_digits hds tail
  cases sign with
  | none =>
    have h43 : cur (ds ++ tail) ≠ 43 := fun h43 => by
      rw [h43] at hcur
      exact absurd hcur (by decide)
    simp [readExponent, (digit_ne hcur).1, h43, htake]
  | some b =>
    rcases hsign b rfl with rfl | rfl
    · simp [readExponent, cur, htake]
    · simp [readExponent, cur, htake]

/-- **`strtod` of a number** is the double next to it; it reads on behind a 0. -/
theorem strtod_text (n : Number) {tail : Str} (h : Stops n tail)
    (hx : n.isInteger = true → n.text.length ≤ 20 → NoHex tail) :
    strtod (n.text ++ tail) = Double.ofRat n.neg n.mag := by
  have hneg : (cur (n.text ++ tail) == 45) = n.neg := by
    rw [Bool.eq_iff_iff, beq_iff_eq, cur_sign n tail]
  have hbody : (if (cur (n.text ++ tail) == 45) = true then (n.text ++ tail).tail else n.text ++ tail) =
      n.int ++ (n.fracText ++ (n.expText ++ tail)) := by
    simpa using drop_sign n tail
  have hletter := (cur_expText n h).2.2
  obtain ⟨hfrac1, hfrac2⟩ := drop_frac n h
  have hcur := (cur_fracText n h).1
  simp only [strtod, hbody, startsHex_digits n h hx, Bool.false_eq_true, if_false, decMag,
    takeWhile_digits n.int_ok.1.2 hcur, dropWhile_digits n.int_ok.1.2 hcur, hfrac1, hfrac2]
  rw [hneg]
  congr 1
  rw [Number.mag]
  congr 3
  rw [Number.expValue]
  cases hexp : n.exp with
  | none =>
    rw [hexp] at hletter
    rw [if_neg (by simpa using hletter)]
    rfl
  | some e =>
    obtain ⟨ch, sign, ds⟩ := e
    obtain ⟨-, hsign, hds⟩ := n.exp_ok _ hexp
    rw [hexp] at hletter
    have htail : (n.expText ++ tail).tail = sign.toList ++ ds ++ tail := by simp [Number.expText, hexp]
    rw [if_pos (hletter.2 rfl), htail, readExponent_text hsign hds h.1]
    rfl

/-- the exponent part of `parse_number`, from `rest` on -/
def parseExponent (p : JsonParser) (start rest : Str) : Json × JsonParser :=
  let exp := cur rest == 101 || cur rest == 69
  let rest := if exp then rest.tail else rest
  let rest := if exp && (cur rest == 43 || cur rest == 45) then rest.tail else rest
  if exp && !isDigit (cur rest) then
    (.null, { p with rest }.fail (ascii "at least one digit required in exponent"))
  else
    let rest := if exp then rest.dropWhile isDigit else rest
    let (value, range) := strtod start
    (.double value, { p with rest, errno := p.errno || range })

/-- the decimal part, and then the exponent part -/
theorem parseDecimal_eq (p : JsonParser) (start rest : Str) :
    parseDecimal p start rest =
      if cur rest == 46 then
        if isDigit (cur rest.tail) then parseExponent p start (rest.tail.dropWhile isDigit)
        else (.null, { p with rest := rest.tail }.fail (ascii "at least one digit required in fractional part"))
      else parseExponent p start rest := by
  unfold parseDecimal
  cases cur rest == 46 with
  | false => rfl
  | true => cases hd : isDigit (cur rest.tail) <;> simp [hd, parseExponent]

theorem upTo_append (t tail : Str) : upTo (t ++ tail) tail = t := by
  simp [upTo]

theorem parseExponent_text (n : Number) {tail : Str} (h : Stops n tail) (p : JsonParser) (start : Str) :
    parseExponent p start (n.expText ++ tail) =
      (.double (strtod start).1, { p with rest := tail, errno := p.errno || (strtod start).2 }) := by
  have hiff := (cur_expText n h).2.2
  have hend : (if (cur (n.expText ++ tail) == 101 || cur (n.expText ++ tail) == 69) = true
      then (n.expText ++ tail).tail else n.expText ++ tail) =
        (n.exp.elim [] fun e => e.2.1.toList ++ e.2.2) ++ tail := by
    cases hexp : n.exp with
    | none =>
      rw [hexp] at hiff
      rw [if_neg (by simpa using hiff)]
      simp [Number.expText, hexp]
    | some e =>
      rw [hexp] at hiff
      rw [if_pos (by simpa using hiff)]
      simp [Number.expText, hexp]
  have hexp' : (cur (n.expText ++ tail) == 101 || cur (n.expText ++ tail) == 69) = n.exp.isSome := by
    rw [Bool.eq_iff_iff, ← hiff]
    simp
  simp only [parseExponent, hend]
  rw [hexp']
  cases hexp : n.exp with
  | none => simp
  | some e =>
    obtain ⟨ch, sign, ds⟩ := e
    obtain ⟨-, hsign, hds⟩ := n.exp_ok _ hexp
    have hcur := cur_append_digits hds tail
    have hne := (digit_ne hcur).1
    have h43 : cur (ds ++ tail) ≠ 43 := fun h43 => by
      rw [h43] at hcur
      exact absurd hcur (by decide)
    have hsign' : (if (cur (sign.toList ++ ds ++ tail) == 43 || cur (sign.toList ++ ds ++ tail) == 45) = true
        then (sign.toList ++ ds ++ tail).tail else sign.toList ++ ds ++ tail) = ds ++ tail := by
      cases sign with
      | none => simp [h43, hne]
      | some b => rcases hsign b rfl with rfl | rfl <;> simp [cur]
    simp only [Option.isSome_some, Option.elim_some, Bool.true_and, hsign', hcur, Bool.not_true, Bool.false_eq_true,
      if_false, if_true, dropWhile_digits hds.2 h.1]

/-- past its integer part, a number is read to its end -/
theorem parseDecimal_text (n : Number) {tail : Str} (h : Stops n tail) (p : JsonParser) (start : Str) :
    parseDecimal p start (n.fracText ++ (n.expText ++ tail)) =
      (.double (strtod start).1, { p with rest := tail, errno := p.errno || (strtod start).2 }) := by
  have hiff := (cur_fracText n h).2
  have hstop := (cur_expText n h).1
  rw [parseDecimal_eq]
  cases hfrac : n.frac with
  | none =>
    rw [hfrac] at hiff
    rw [if_neg (by simpa using hiff)]
    have hnil : n.fracText = [] := by simp [Number.fracText, hfrac]
    rw [hnil, List.nil_append, parseExponent_text n h]
  | some ds =>
    rw [hfrac] at hiff
    have hds := n.frac_ok ds hfrac
    rw [if_pos (by simpa using hiff)]
    have htail : (n.fracText ++ (n.expText ++ tail)).tail = ds ++ (n.expText ++ tail) := by
      simp [Number.fracText, hfrac]
    rw [htail, if_pos (cur_append_digits hds _), dropWhile_digits hds.2 hstop, parseExponent_text n h]

theorem parseInteger_text {n : Number} (hn : n.isInteger = true) (errno : Bool) :
    parseInteger n.text errno =
      if 20 < n.text.length then (none, errno)
      else if errno = false ∧ InRange (intValue n) then
        (some (if n.neg then .int64 (intValue n) else .uint64 (decValue n.int)), false)
      else (none, true) := by
  simp only [Number.isInteger, Bool.and_eq_true, Option.isNone_iff_eq_none] at hn
  have htext : n.text = n.signText ++ n.int := by
    simp [Number.text, Number.fracText, Number.expText, hn.1, hn.2]
  have hsign := cur_sign n []
  rw [List.append_nil] at hsign
  by_cases hlen : 20 < n.text.length
  · rw [parseInteger, if_pos hlen, if_pos hlen]
  rw [parseInteger, if_neg hlen, if_neg hlen]
  cases hneg : n.neg with
  | true =>
    have htail : n.text.tail = n.int := by simp [htext, Number.signText, hneg]
    have hval : intValue n = -(decValue n.int : ℤ) := by simp [intValue, hneg]
    rw [if_pos (hsign.2 hneg), htail, hval]
    by_cases hr : 2 ^ 63 < decValue n.int
    · have hout : ¬ InRange (-(decValue n.int : ℤ)) := fun h => by have := h.1; omega
      cases errno <;> simp only [atoll, hr, hout] <;> rfl
    · have hin : InRange (-(decValue n.int : ℤ)) := ⟨by omega, by omega⟩
      have hmax : max (-(decValue n.int : ℤ)) (-2 ^ 63) = -(decValue n.int : ℤ) := by omega
      cases errno <;> simp only [atoll, hr, hmax, hin] <;> rfl
  | false =>
    have htext' : n.text = n.int := by simp [htext, Number.signText, hneg]
    have hval : intValue n = decValue n.int := by simp [intValue, hneg]
    rw [if_neg fun h => by simp [hsign.1 h] at hneg, htext', hval]
    by_cases hr : 2 ^ 64 ≤ decValue n.int
    · have hout : ¬ InRange (decValue n.int : ℤ) := fun h => by have := h.2; omega
      cases errno <;> simp only [strtoull, hr, hout] <;> rfl
    · have hin : InRange (decValue n.int : ℤ) := ⟨by omega, by omega⟩
      have hmin : min (decValue n.int) (2 ^ 64 - 1) = decValue n.int := by omega
      cases errno <;> simp only [strtoull, hr, hmin, hin] <;> rfl

/-- `parse_number` on a number, with something behind it that does not continue it; `strtod` may read on -/
theorem parseNumber_scan (n : Number) {tail : Str} (h : Stops n tail) {p : JsonParser} (hp : p.rest = n.text ++ tail) :
    p.parseNumber = ((readWith n (strtod p.rest) p.errno).1,
      { p with rest := tail, errno := (readWith n (strtod p.rest) p.errno).2 }) := by
  obtain ⟨hcur, hiff⟩ := cur_fracText n h
  have hbody : (if cur p.rest = 45 then p.rest.tail else p.rest) = n.int ++ (n.fracText ++ (n.expText ++ tail)) := by
    rw [hp]
    exact drop_sign n tail
  have hlead : ¬ (cur (n.int ++ (n.fracText ++ (n.expText ++ tail))) = 48 ∧
      isDigit (cur (n.int ++ (n.fracText ++ (n.expText ++ tail))).tail) = true) := by
    rintro ⟨h48, hnext⟩
    obtain ⟨⟨hne, -⟩, hzero⟩ := n.int_ok
    obtain ⟨b, t, hint⟩ := List.exists_cons_of_ne_nil hne
    have hb : b = 48 := by simpa [hint, cur] using h48
    have hall : n.int = [48] := hzero (by simp [hint, hb])
    rw [hall] at hnext
    simp only [List.cons_append, List.nil_append, List.tail_cons] at hnext
    rw [hcur] at hnext
    cases hnext
  simp only [parseNumber, hbody]
  rw [if_neg hlead, if_neg (by simp [cur_append_digits n.int_ok.1]), dropWhile_digits n.int_ok.1.2 hcur]
  have hdec := fun q => parseDecimal_text n h q p.rest
  cases hint : n.isInteger with
  | false =>
    have hcont : ¬ (cur (n.fracText ++ (n.expText ++ tail)) ≠ 46 ∧ cur (n.fracText ++ (n.expText ++ tail)) ≠ 101 ∧
        cur (n.fracText ++ (n.expText ++ tail)) ≠ 69) := by
      rintro ⟨h46, h101, h69⟩
      have hfrac : n.frac = none := by simpa [h46] using hiff
      have hexp : n.exp.isSome = true := by simpa [Number.isInteger, hfrac] using hint
      simp only [Number.fracText, hfrac, Option.elim_none, List.nil_append] at h101 h69
      rcases (cur_expText n h).2.2.2 hexp with h' | h'
      · exact h101 h'
      · exact h69 h'
    rw [if_neg hcont, hdec, readWith, if_neg (by simp [hint])]
  | true =>
    have hboth := hint
    simp only [Number.isInteger, Bool.and_eq_true, Option.isNone_iff_eq_none] at hboth
    have hrest : n.fracText ++ (n.expText ++ tail) = tail := by
      simp [Number.fracText, Number.expText, hboth.1, hboth.2]
    obtain ⟨h101, h69, h46⟩ := h.2 hboth.2
    have hupto : upTo p.rest tail = n.text := by rw [hp, upTo_append]
    rw [hrest] at hdec ⊢
    rw [if_pos ⟨h46 hboth.1, h101, h69⟩, hupto, parseInteger_text hint]
    by_cases hlen : 20 < n.text.length
    · rw [if_pos hlen]
      simp only [hdec]
      rw [readWith, if_neg fun hshort => absurd hshort.2 (by omega)]
    · have hread : readWith n (strtod p.rest) p.errno = if p.errno = false ∧ InRange (intValue n) then
          (if n.neg then .int64 (intValue n) else .uint64 (decValue n.int), false)
        else (.double (strtod p.rest).1, true) := by
        rw [readWith, if_pos ⟨hint, by omega⟩]
      rw [if_neg hlen]
      by_cases hclear : p.errno = false ∧ InRange (intValue n)
      · rw [if_pos hclear] at hread ⊢
        simp only [hread]
      · rw [if_neg hclear] at hread ⊢
        simp only [hread, hdec, Bool.true_or]

/-- **`parse_number` on a number** whose value `strtod` does not read on from -/
theorem parseNumber_text (n : Number) {tail : Str} (h : Stops n tail) (hx : NoHex tail) {p : JsonParser}
    (hp : p.rest = n.text ++ tail) :
    p.parseNumber = ((readNumber n p.errno).1, { p with rest := tail, errno := (readNumber n p.errno).2 }) := by
  have hscan := parseNumber_scan n h hp
  rwa [hp, strtod_text n h fun _ _ => hx] at hscan

/-! What is read is a number -/

theorem cur_dropWhile (s : Str) : isDigit (cur (s.dropWhile isDigit)) = false := by
  cases hd : s.dropWhile isDigit with
  | nil => rfl
  | cons b t =>
    have hhead := List.head_dropWhile_not isDigit (l := s) (by rw [hd]; simp)
    simpa only [hd, List.head_cons, cur, List.headD_cons] using hhead

theorem digits_takeWhile {s : Str} (h : isDigit (cur s) = true) : Digits (s.takeWhile isDigit) := by
  refine ⟨?_, fun b hb => List.mem_takeWhile_imp hb⟩
  cases s with
  | nil => cases h
  | cons b t => rw [List.takeWhile_cons_of_pos (by simpa [cur] using h)]; exact List.cons_ne_nil _ _

theorem eq_cons_of_cur {s : Str} {b : UInt8} (h : cur s = b) (hb : b ≠ 0) : s = b :: s.tail := by
  cases s with
  | nil => exact absurd h.symm hb
  | cons c t => rw [← h]; rfl

/-- the exponent that is read where the exponent part does not fail -/
theorem parseExponent_inv {p : JsonParser} {start rest : Str} (h : (parseExponent p start rest).2.failed = false)
    (hrest : isDigit (cur rest) = false) :
    ∃ (exp : Option (UInt8 × Option UInt8 × Str)) (tail : Str),
      (∀ e ∈ exp, (e.1 = 101 ∨ e.1 = 69) ∧ (∀ b ∈ e.2.1, b = 43 ∨ b = 45) ∧ Digits e.2.2) ∧
      rest = (exp.elim [] fun e => e.1 :: e.2.1.toList ++ e.2.2) ++ tail ∧
      isDigit (cur tail) = false ∧ (exp = none → cur tail ≠ 101 ∧ cur tail ≠ 69) := by
  by_cases hexp : cur rest = 101 ∨ cur rest = 69
  · have hb : (cur rest == 101 || cur rest == 69) = true := by simpa using hexp
    have hne : cur rest ≠ 0 := by rcases hexp with h | h <;> rw [h] <;> decide
    have hsplit : rest = cur rest :: rest.tail := eq_cons_of_cur rfl hne
    simp only [parseExponent, hb, Bool.true_and, if_true] at h
    by_cases hs : cur rest.tail = 43 ∨ cur rest.tail = 45
    · have hsb : (cur rest.tail == 43 || cur rest.tail == 45) = true := by simpa using hs
      have hne' : cur rest.tail ≠ 0 := by rcases hs with h | h <;> rw [h] <;> decide
      have hsplit' : rest.tail = cur rest.tail :: rest.tail.tail := eq_cons_of_cur rfl hne'
      simp only [hsb, if_true] at h
      cases hd : isDigit (cur rest.tail.tail) with
      | false => simp [hd, fail] at h
      | true =>
        refine ⟨some (cur rest, some (cur rest.tail), rest.tail.tail.takeWhile isDigit),
          rest.tail.tail.dropWhile isDigit, ?_, ?_, cur_dropWhile _, by simp⟩
        · rintro e ⟨⟩
          exact ⟨hexp, by simpa using hs, digits_takeWhile hd⟩
        · simp only [Option.elim_some, Option.toList_some, List.cons_append, List.nil_append,
            List.takeWhile_append_dropWhile]
          rw [← hsplit', ← hsplit]
    · have hsb : (cur rest.tail == 43 || cur rest.tail == 45) = false := by simpa using hs
      simp only [hsb, Bool.false_eq_true, if_false] at h
      cases hd : isDigit (cur rest.tail) with
      | false => simp [hd, fail] at h
      | true =>
        refine ⟨some (cur rest, none, rest.tail.takeWhile isDigit), rest.tail.dropWhile isDigit, ?_, ?_,
          cur_dropWhile _, by simp⟩
        · rintro e ⟨⟩
          exact ⟨hexp, by simp, digits_takeWhile hd⟩
        · simp only [Option.elim_some, Option.toList_none, List.cons_append, List.nil_append,
            List.takeWhile_append_dropWhile]
          rw [← hsplit]
  · exact ⟨none, rest, by simp, rfl, hrest, fun _ => not_or.1 hexp⟩

/-- where `parse_number` does not fail there is a number -/
theorem parseNumber_inv {p : JsonParser} (h : p.parseNumber.2.failed = false) :
    ∃ (n : Number) (tail : Str), p.rest = n.text ++ tail ∧ Stops n tail := by
  simp only [parseNumber] at h
  generalize hs : (if cur p.rest = 45 then p.rest.tail else p.rest) = s at h
  -- the sign
  obtain ⟨neg, hneg⟩ : ∃ neg : Bool, p.rest = (if neg then [45] else []) ++ s := by
    by_cases h45 : cur p.rest = 45
    · rw [if_pos h45] at hs
      exact ⟨true, by rw [← hs]; exact eq_cons_of_cur h45 (by decide)⟩
    · rw [if_neg h45] at hs
      exact ⟨false, by simpa using hs⟩
  by_cases hlead : cur s = 48 ∧ isDigit (cur s.tail) = true
  · simp [if_pos hlead, fail] at h
  rw [if_neg hlead] at h
  cases hd : isDigit (cur s) with
  | false => simp [hd, fail] at h
  | true =>
    -- the integer part
    have hint : Digits (s.takeWhile isDigit) ∧
        ((s.takeWhile isDigit).head? = some 48 → s.takeWhile isDigit = [48]) := by
      refine ⟨digits_takeWhile hd, fun h48 => ?_⟩
      cases s with
      | nil => cases hd
      | cons b t =>
        rw [List.takeWhile_cons_of_pos (by simpa [cur] using hd)] at h48 ⊢
        obtain rfl : b = 48 := by simpa using h48
        have hnext : isDigit (cur t) = false := by simpa [cur] using hlead
        have := @takeWhile_digits [] t (by simp) hnext
        simpa using this
    have hbody : s = s.takeWhile isDigit ++ s.dropWhile isDigit := List.takeWhile_append_dropWhile.symm
    have hr := cur_dropWhile s
    simp only [hd, Bool.not_true, Bool.false_eq_true, if_false] at h
    generalize s.takeWhile isDigit = int at hint hbody
    generalize s.dropWhile isDigit = r at h hbody hr
    by_cases hcont : cur r ≠ 46 ∧ cur r ≠ 101 ∧ cur r ≠ 69
    · refine ⟨⟨neg, int, none, none, hint, by simp, by simp⟩, r, ?_, hr,
        fun _ => ⟨hcont.2.1, hcont.2.2, fun _ => hcont.1⟩⟩
      rw [hneg, hbody]
      simp [Number.text, Number.signText, Number.fracText, Number.expText]
    · rw [if_neg hcont, parseDecimal_eq] at h
      by_cases h46 : cur r = 46
      · rw [if_pos (by simpa using h46)] at h
        cases hfrac : isDigit (cur r.tail) with
        | false => simp [hfrac, fail] at h
        | true =>
          rw [if_pos hfrac] at h
          have hsplit : r = 46 :: r.tail := eq_cons_of_cur h46 (by decide)
          have hfrac' := digits_takeWhile hfrac
          have htail : r.tail = r.tail.takeWhile isDigit ++ r.tail.dropWhile isDigit :=
            List.takeWhile_append_dropWhile.symm
          generalize r.tail.takeWhile isDigit = frac at hfrac' htail
          obtain ⟨exp, tail, hexp, hrest, hstop, hnone⟩ := parseExponent_inv h (cur_dropWhile _)
          refine ⟨⟨neg, int, some frac, exp, hint, ?_, hexp⟩, tail, ?_, hstop, ?_⟩
          · rintro ds ⟨⟩
            exact hfrac'
          · rw [hneg, hbody, hsplit, htail, hrest]
            simp [Number.text, Number.signText, Number.fracText, Number.expText]
          · intro he
            exact ⟨(hnone he).1, (hnone he).2, by simp⟩
      · rw [if_neg (by simpa using h46)] at h
        obtain ⟨exp, tail, hexp, hrest, hstop, hnone⟩ := parseExponent_inv h hr
        refine ⟨⟨neg, int, none, exp, hint, by simp, hexp⟩, tail, ?_, hstop, ?_⟩
        · rw [hneg, hbody, hrest]
          simp [Number.text, Number.signText, Number.fracText, Number.expText]
        · intro he
          simp only at he
          subst he
          refine ⟨(hnone rfl).1, (hnone rfl).2, fun _ => ?_⟩
          simpa [hrest] using h46

end JsonParser

end AirobotMsgd.Json11
