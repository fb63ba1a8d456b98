/-
The parser of `json11` (source/json11.cpp) with its values, as `Json::parse(in, err)` runs it: strategy STANDARD, so no
comments. The integer branch of `parse_number` and the two integer value classes are the repository's own.

The position `i` is held as the suffix of the text that begins there; `str[i]` at the end of the text is its terminating
NUL. `errno` is true when the thread's errno is ERANGE: the conversions set it and nothing clears it. A parse on a
nesting level counts the levels left, from `max_depth` + 1 down. Each round of the two loops reads at least one byte, so
the length of the text bounds them (`parseMembers_bound`, `parseElements_bound`).

A conversion of a double outside the range of `uint64_t` is undefined in C++; its result is a parameter.
-/
import AirobotMsgd.Core.Bytes
import AirobotMsgd.Core.Double

namespace AirobotMsgd.Json11

open AirobotMsgd.Bytes

/-! ## Values -/

inductive Json where
  | null
  | bool (value : Bool)
  | string (value : Str)
  | array (values : List Json)
  | object (values : List (Str × Json))
  | int64 (value : ℤ)
  | uint64 (value : ℕ)
  | double (value : Double.Value)

namespace Json

/-- `operator[](const string& key)` -/
def get (key : Str) : Json → Json
  | .object values => (mapFind key values).getD .null
  | _ => .null

/-- `uint64_value()`; `cast` gives what an undefined conversion of a double gives -/
def uint64Value (cast : Double.Value → ℕ) : Json → ℕ
  | .int64 value => (value % 2 ^ 64).toNat
  | .uint64 value => value
  | .double value => value.toUInt64.getD (cast value % 2 ^ 64)
  | _ => 0

end Json

/-! ## The parser -/

structure JsonParser where
  rest : Str
  err : Str
  failed : Bool
  errno : Bool
deriving DecidableEq, Repr

def maxDepth : ℕ := 200

/-- `str[i]` -/
def cur (rest : Str) : UInt8 := rest.headD 0

/-- a char, in an error message -/
def esc (c : UInt8) : Str :=
  let code := if c < 128 then toDec c.toNat else 45 :: toDec (256 - c.toNat)
  if 0x20 ≤ c ∧ c ≤ 0x7f then [39, c, 39] ++ ascii " (" ++ code ++ ascii ")"
  else ascii "(" ++ code ++ ascii ")"

namespace JsonParser

/-- `fail`: the first message stays -/
def fail (p : JsonParser) (msg : Str) : JsonParser :=
  { p with err := if p.failed then p.err else msg, failed := true }

def isWhitespace (b : UInt8) : Bool := b == 32 || b == 13 || b == 10 || b == 9

/-- `consume_garbage` -/
def consumeGarbage (p : JsonParser) : JsonParser := { p with rest := p.rest.dropWhile isWhitespace }

def getNextToken (p : JsonParser) : UInt8 × JsonParser :=
  let p := p.consumeGarbage
  match p.rest with
  | [] => (0, p.fail (ascii "unexpected end of input"))
  | ch :: rest => (ch, { p with rest })

/-- `encode_utf8(pt, out)` -/
def encodeUtf8 (pt : ℤ) (out : Str) : Str :=
  let n := pt.toNat
  if pt < 0 then out
  else if pt < 0x80 then out ++ [UInt8.ofNat n]
  else if pt < 0x800 then out ++ [UInt8.ofNat (n >>> 6 ||| 0xC0), UInt8.ofNat (n &&& 0x3F ||| 0x80)]
  else if pt < 0x10000 then
    out ++ [UInt8.ofNat (n >>> 12 ||| 0xE0), UInt8.ofNat (n >>> 6 &&& 0x3F ||| 0x80), UInt8.ofNat (n &&& 0x3F ||| 0x80)]
  else
    out ++ [UInt8.ofNat (n >>> 18 ||| 0xF0), UInt8.ofNat (n >>> 12 &&& 0x3F ||| 0x80),
      UInt8.ofNat (n >>> 6 &&& 0x3F ||| 0x80), UInt8.ofNat (n &&& 0x3F ||| 0x80)]

def isHexDigit (b : UInt8) : Bool := (97 ≤ b && b ≤ 102) || (65 ≤ b && b ≤ 70) || isDigit b

def hexDigit (b : UInt8) : ℕ := if isDigit b then b.toNat - 48 else if b < 97 then b.toNat - 55 else b.toNat - 87

/-- `strtol(esc, nullptr, 16)` of hexadecimal digits -/
def hexValue (s : Str) : ℕ := s.foldl (fun v b => v * 16 + hexDigit b) 0

def inRange (x lower upper : ℤ) : Bool := lower ≤ x && x ≤ upper

/-- the char an escape other than `\u` stands for -/
def escapeChar (ch : UInt8) : Option UInt8 :=
  if ch = 98 then some 8
  else if ch = 102 then some 12
  else if ch = 110 then some 10
  else if ch = 114 then some 13
  else if ch = 116 then some 9
  else if ch = 34 ∨ ch = 92 ∨ ch = 47 then some ch
  else none

/-- the loop of `parse_string`: the text left, what is read so far, and the last escaped code point -/
def parseStringLoop (p : JsonParser) : Str → Str → ℤ → Str × JsonParser
  | [], _, _ => ([], { p with rest := [] }.fail (ascii "unexpected end of input in string"))
  | ch :: rest, out, last =>
    if ch = 34 then (encodeUtf8 last out, { p with rest })
    else if ch ≤ 0x1f then ([], { p with rest }.fail (ascii "unescaped " ++ esc ch ++ ascii " in string"))
    else if ch ≠ 92 then parseStringLoop p rest (encodeUtf8 last out ++ [ch]) (-1)
    else match rest with
      | [] => ([], { p with rest := [] }.fail (ascii "unexpected end of input in string"))
      | 117 :: a :: b :: c :: d :: rest =>
        if [a, b, c, d].all isHexDigit then
          let codepoint : ℤ := hexValue [a, b, c, d]
          if inRange last 0xD800 0xDBFF && inRange codepoint 0xDC00 0xDFFF then
            parseStringLoop p rest (encodeUtf8 ((last - 0xD800) * 1024 + (codepoint - 0xDC00) + 0x10000) out) (-1)
          else parseStringLoop p rest (encodeUtf8 last out) codepoint
        else ([], { p with rest := a :: b :: c :: d :: rest }.fail (ascii "bad \\u escape: " ++ [a, b, c, d]))
      | 117 :: short => ([], { p with rest := short }.fail (ascii "bad \\u escape: " ++ short))
      | ch :: rest =>
        match escapeChar ch with
        | some b => parseStringLoop p rest (encodeUtf8 last out ++ [b]) (-1)
        | none => ([], { p with rest }.fail (ascii "invalid escape character " ++ esc ch))

def parseString (p : JsonParser) : Str × JsonParser := parseStringLoop p p.rest [] (-1)

/-- `atoll` of a '-' and digits, and whether it is out of range -/
def atoll (digits : Str) : ℤ × Bool :=
  (max (-(decValue digits : ℤ)) (-2 ^ 63), 2 ^ 63 < decValue digits)

/-- `strtoull` of digits, and whether it is out of range -/
def strtoull (digits : Str) : ℕ × Bool := (min (decValue digits) (2 ^ 64 - 1), 2 ^ 64 ≤ decValue digits)

/-- the sign and the digits of an exponent -/
def readExponent (text : Str) : ℤ :=
  if cur text = 45 then -(decValue (text.tail.takeWhile isDigit) : ℤ)
  else if cur text = 43 then decValue (text.tail.takeWhile isDigit)
  else decValue (text.takeWhile isDigit)

/-- "0x" and a hexadecimal digit, or a '.' and one -/
def startsHex (text : Str) : Bool :=
  cur text == 48 && (cur text.tail == 120 || cur text.tail == 88) &&
    (isHexDigit (cur text.tail.tail) || cur text.tail.tail == 46 && isHexDigit (cur text.tail.tail.tail))

/-- hexadecimal digits with a fraction, and a binary exponent -/
def hexMag (text : Str) : ℚ :=
  let int := text.takeWhile isHexDigit
  let text := text.dropWhile isHexDigit
  let frac := if cur text = 46 then text.tail.takeWhile isHexDigit else []
  let text := if cur text = 46 then text.tail.dropWhile isHexDigit else text
  let exponent := if cur text = 112 ∨ cur text = 80 then readExponent text.tail else 0
  hexValue (int ++ frac) * 2 ^ (exponent - 4 * frac.length)

/-- decimal digits with a fraction and an exponent -/
def decMag (text : Str) : ℚ :=
  let int := text.takeWhile isDigit
  let text := text.dropWhile isDigit
  let frac := if cur text = 46 then text.tail.takeWhile isDigit else []
  let text := if cur text = 46 then text.tail.dropWhile isDigit else text
  let exponent := if cur text = 101 ∨ cur text = 69 then readExponent text.tail else 0
  decValue (int ++ frac) * 10 ^ (exponent - frac.length)

/-- `strtod` where a digit, or a '-' and a digit, begins: as far as a number goes, and whether it is out of range -/
def strtod (text : Str) : Double.Value × Bool :=
  let neg := cur text == 45
  let text := if neg then text.tail else text
  Double.ofRat neg (if startsHex text then hexMag text.tail.tail else decMag text)

/-- the integer branch of `parse_number`, on the text of an integer: at most 20 bytes are converted, and the result
counts if errno is not ERANGE after it -/
def parseInteger (text : Str) (errno : Bool) : Option Json × Bool :=
  if 20 < text.length then (none, errno)
  else if cur text = 45 then
    let (convVal, range) := atoll text.tail
    (if errno || range then none else some (.int64 convVal), errno || range)
  else
    let (convVal, range) := strtoull text
    (if errno || range then none else some (.uint64 convVal), errno || range)

/-- the part of the text from `start` that ends where `rest` begins -/
def upTo (start rest : Str) : Str := start.take (start.length - rest.length)

/-- the decimal and the exponent part of `parse_number`, from `rest` on; `strtod` is given the text from the number's
start, and may read past what has been scanned -/
def parseDecimal (p : JsonParser) (start rest : Str) : Json × JsonParser :=
  let frac := cur rest == 46
  let rest := if frac then rest.tail else rest
  if frac && !isDigit (cur rest) then
    (.null, { p with rest }.fail (ascii "at least one digit required in fractional part"))
  else
    let rest := if frac then rest.dropWhile isDigit else rest
    let exp := cur rest == 101 || cur rest == 69
    let rest := if exp then rest.tail else rest
    let rest := if exp && (cur rest == 43 || cur rest == 45) then rest.tail else rest
    if exp && !isDigit (cur rest) then
      (.null, { p with rest }.fail (ascii "at least one digit required in exponent"))
    else
      let rest := if exp then rest.dropWhile isDigit else rest
      let (value, range) := strtod start
      (.double value, { p with rest, errno := p.errno || range })

def parseNumber (p : JsonParser) : Json × JsonParser :=
  let start := p.rest
  let rest := if cur start = 45 then start.tail else start
  if cur rest = 48 ∧ isDigit (cur rest.tail) then
    (.null, { p with rest := rest.tail }.fail (ascii "leading 0s not permitted in numbers"))
  else if !isDigit (cur rest) then
    (.null, { p with rest }.fail (ascii "invalid " ++ esc (cur rest) ++ ascii " in number"))
  else
    let rest := rest.dropWhile isDigit
    if cur rest ≠ 46 ∧ cur rest ≠ 101 ∧ cur rest ≠ 69 then
      match parseInteger (upTo start rest) p.errno with
      | (some value, errno) => (value, { p with rest, errno })
      | (none, errno) => parseDecimal { p with errno } start rest
    else parseDecimal p start rest

/-- `expect(expected, res)`, from the char that was just read -/
def expect (p : JsonParser) (ch : UInt8) (expected : Str) (res : Json) : Json × JsonParser :=
  let p := { p with rest := ch :: p.rest }
  if p.rest.take expected.length = expected then (res, { p with rest := p.rest.drop expected.length })
  else (.null, p.fail (ascii "parse error: expected " ++ expected ++ ascii ", got " ++ p.rest.take expected.length))

/-- the loop over the members of an object, from the token `ch` on; `parseValue` is `parse_json(depth + 1)` -/
def parseMembers (parseValue : JsonParser → Json × JsonParser) :
    ℕ → UInt8 → JsonParser → List (Str × Json) → Json × JsonParser
  | 0, _, p, _ => (.null, p)
  | n + 1, ch, p, data =>
    if ch ≠ 34 then (.null, p.fail (ascii "expected '\"' in object, got " ++ esc ch))
    else
      let (key, p) := p.parseString
      if p.failed then (.null, p)
      else
        let (ch, p) := p.getNextToken
        if ch ≠ 58 then (.null, p.fail (ascii "expected ':' in object, got " ++ esc ch))
        else
          let (value, p) := parseValue p
          let data := mapAssign key value data
          if p.failed then (.null, p)
          else
            let (ch, p) := p.getNextToken
            if ch = 125 then (.object data, p)
            else if ch ≠ 44 then (.null, p.fail (ascii "expected ',' in object, got " ++ esc ch))
            else
              let (ch, p) := p.getNextToken
              parseMembers parseValue n ch p data

/-- the loop over the elements of an array, from the token `ch` on; without a token the parse has failed, and
`parse_json` returns at once -/
def parseElements (parseValue : JsonParser → Json × JsonParser) :
    ℕ → UInt8 → JsonParser → List Json → Json × JsonParser
  | 0, _, p, _ => (.null, p)
  | n + 1, ch, p, data =>
    if p.failed then (.null, p)
    else
      let (value, p) := parseValue { p with rest := ch :: p.rest }
      let data := data ++ [value]
      if p.failed then (.null, p)
      else
        let (ch, p) := p.getNextToken
        if ch = 93 then (.array data, p)
        else if ch ≠ 44 then (.null, p.fail (ascii "expected ',' in list, got " ++ esc ch))
        else
          let (ch, p) := p.getNextToken
          parseElements parseValue n ch p data

/-- `parse_json`, with the number of nesting levels left -/
def parseJson : ℕ → JsonParser → Json × JsonParser
  | 0, p => (.null, p.fail (ascii "exceeded maximum nesting depth"))
  | levels + 1, p =>
    let (ch, p) := p.getNextToken
    if p.failed then (.null, p)
    else if ch = 45 ∨ isDigit ch then parseNumber { p with rest := ch :: p.rest }
    else if ch = 116 then p.expect ch (ascii "true") (.bool true)
    else if ch = 102 then p.expect ch (ascii "false") (.bool false)
    else if ch = 110 then p.expect ch (ascii "null") .null
    else if ch = 34 then
      let (value, p) := p.parseString
      (.string value, p)
    else if ch = 123 then
      let (ch, p) := p.getNextToken
      if ch = 125 then (.object [], p)
      else parseMembers (parseJson levels) (p.rest.length + 1) ch p []
    else if ch = 91 then
      let (ch, p) := p.getNextToken
      if ch = 93 then (.array [], p)
      else parseElements (parseJson levels) (p.rest.length + 1) ch p []
    else (.null, p.fail (ascii "expected value, got " ++ esc ch))

/-! ## The parser moves forward -/

@[simp] theorem fail_rest (p : JsonParser) (msg : Str) : (p.fail msg).rest = p.rest := rfl

theorem getNextToken_rest (p : JsonParser) : p.getNextToken.2.rest.length ≤ p.rest.length := by
  have h := (List.dropWhile_suffix isWhitespace (l := p.rest)).length_le
  simp only [getNextToken, consumeGarbage]
  split
  · rename_i hr; simp [hr]
  · rename_i ch rest hr; rw [hr] at h; simp at h ⊢; omega

/-- a token is read, or the parse has failed at the end of the text -/
theorem getNextToken_cases (p : JsonParser) :
    p.getNextToken.2.rest.length < p.rest.length ∨ (p.getNextToken.1 = 0 ∧ p.getNextToken.2.failed = true) := by
  have hd := (List.dropWhile_suffix isWhitespace (l := p.rest)).length_le
  simp only [getNextToken, consumeGarbage]
  split
  · exact .inr ⟨rfl, rfl⟩
  · rename_i ch rest hr; rw [hr] at hd; simp at hd ⊢; omega

theorem getNextToken_lt {p : JsonParser} (h : p.getNextToken.1 ≠ 0) :
    p.getNextToken.2.rest.length < p.rest.length :=
  (getNextToken_cases p).resolve_right fun h' => h h'.1

theorem parseStringLoop_rest (p : JsonParser) (s out : Str) (last : ℤ) :
    (parseStringLoop p s out last).2.rest.length ≤ s.length := by
  fun_induction parseStringLoop p s out last <;> simp_all <;> omega

theorem parseString_rest (p : JsonParser) : p.parseString.2.rest.length ≤ p.rest.length :=
  parseStringLoop_rest p _ _ _

theorem length_dropWhile_le (q : UInt8 → Bool) (s : Str) : (s.dropWhile q).length ≤ s.length :=
  (List.dropWhile_suffix q).length_le

theorem parseDecimal_rest (p : JsonParser) (start rest : Str) :
    (parseDecimal p start rest).2.rest.length ≤ rest.length := by
  have hd := length_dropWhile_le isDigit
  have ht : ∀ s : Str, s.tail.length ≤ s.length := fun s => by simp
  have hif : ∀ (b : Bool) (s t : Str), t.length ≤ s.length → (if b then t else s).length ≤ s.length := by
    intro b s t h
    cases b <;> simp [h]
  simp only [parseDecimal]
  split_ifs <;> simp only [fail_rest] <;> grind

theorem parseNumber_rest (p : JsonParser) : p.parseNumber.2.rest.length ≤ p.rest.length := by
  have hd := length_dropWhile_le isDigit
  simp only [parseNumber]
  generalize hs : (if cur p.rest = 45 then p.rest.tail else p.rest) = s
  have hle : s.length ≤ p.rest.length := by
    rw [← hs]; split_ifs <;> simp
  have hdec := fun q => parseDecimal_rest q p.rest (s.dropWhile isDigit)
  split_ifs
  · simp; omega
  · simpa using hle
  · split
    · exact (hd s).trans hle
    · exact (hdec _).trans ((hd s).trans hle)
  · exact (hdec _).trans ((hd s).trans hle)

theorem expect_rest (p : JsonParser) (ch : UInt8) (expected : Str) (res : Json) :
    (p.expect ch expected res).2.rest.length ≤ p.rest.length + 1 := by
  simp only [expect]
  split_ifs <;> simp

section
variable {parseValue : JsonParser → Json × JsonParser}

theorem parseMembers_rest (hv : ∀ p, (parseValue p).2.rest.length ≤ p.rest.length) (n : ℕ) (ch : UInt8)
    (p : JsonParser) (data : List (Str × Json)) :
    (parseMembers parseValue n ch p data).2.rest.length ≤ p.rest.length := by
  induction n generalizing ch p data with
  | zero => exact le_rfl
  | succ n ih =>
    have h1 := parseString_rest p
    have h2 := getNextToken_rest p.parseString.2
    have h3 := hv p.parseString.2.getNextToken.2
    have h4 := getNextToken_rest (parseValue p.parseString.2.getNextToken.2).2
    have h5 := getNextToken_rest (parseValue p.parseString.2.getNextToken.2).2.getNextToken.2
    simp only [parseMembers]
    split_ifs
    · exact le_rfl
    · exact h1
    · exact h2.trans h1
    · exact h3.trans (h2.trans h1)
    · simp only; omega
    · simp only [fail_rest]; omega
    · exact (ih _ _ _).trans (by omega)

theorem parseElements_rest (hv : ∀ p, (parseValue p).2.rest.length ≤ p.rest.length) (n : ℕ) (ch : UInt8)
    (p : JsonParser) (data : List Json) :
    (parseElements parseValue n ch p data).2.rest.length ≤ p.rest.length + 1 := by
  induction n generalizing ch p data with
  | zero => exact Nat.le_succ _
  | succ n ih =>
    generalize hq : ({ p with rest := ch :: p.rest } : JsonParser) = q
    have hlen : q.rest.length = p.rest.length + 1 := by rw [← hq]; rfl
    have h1 := hv q
    have h2 := getNextToken_rest (parseValue q).2
    have h3 := getNextToken_rest (parseValue q).2.getNextToken.2
    simp only [parseElements, hq]
    split_ifs with _ _ _ hc
    · exact Nat.le_succ _
    · exact h1.trans hlen.le
    · simp only; omega
    · simp only [fail_rest]; omega
    · -- the comma is read
      have h4 : (parseValue q).2.getNextToken.2.rest.length < (parseValue q).2.rest.length :=
        getNextToken_lt (by rw [not_not.1 hc]; decide)
      exact (ih _ _ _).trans (by omega)

end

/-- **The parser moves forward**: what is left after a value is no longer than what was there before it -/
theorem parseJson_rest (levels : ℕ) (p : JsonParser) : (parseJson levels p).2.rest.length ≤ p.rest.length := by
  induction levels generalizing p with
  | zero => exact le_rfl
  | succ levels ih =>
    generalize ht : p.getNextToken = t
    obtain ⟨ch, q⟩ := t
    have hle : q.rest.length ≤ p.rest.length := by simpa [ht] using getNextToken_rest p
    have hlt : ch ≠ 0 → q.rest.length + 1 ≤ p.rest.length := fun h => by
      have := getNextToken_lt (p := p) (by rw [ht]; exact h)
      rwa [ht] at this
    have hnum := parseNumber_rest { q with rest := ch :: q.rest }
    have hexp := fun e r => expect_rest q ch e r
    have hstr := parseString_rest q
    have htok := getNextToken_rest q
    simp only [parseJson, ht]
    split_ifs with _ hd hc hc hc hc hc _ hc
    · exact hle
    · refine hnum.trans (hlt ?_)
      rintro rfl
      exact absurd hd (by decide)
    · exact (hexp _ _).trans (hlt (by rw [hc]; decide))
    · exact (hexp _ _).trans (hlt (by rw [hc]; decide))
    · exact (hexp _ _).trans (hlt (by rw [hc]; decide))
    · exact hstr.trans hle
    · exact htok.trans hle
    · exact (parseMembers_rest ih _ _ _ _).trans (htok.trans hle)
    · exact htok.trans hle
    · refine (parseElements_rest ih _ _ _ _).trans ((Nat.succ_le_succ htok).trans (hlt ?_))
      rw [hc]; decide
    · exact hle

/-- the bound of the loop over the members is never reached -/
theorem parseMembers_bound (levels : ℕ) {n m : ℕ} {p : JsonParser} (hn : p.rest.length < n) (hm : p.rest.length < m)
    (ch : UInt8) (data : List (Str × Json)) :
    parseMembers (parseJson levels) n ch p data = parseMembers (parseJson levels) m ch p data := by
  induction n generalizing m p ch data with
  | zero => omega
  | succ n ih =>
    cases m with
    | zero => omega
    | succ m =>
      have h1 := parseString_rest p
      have h2 := getNextToken_rest p.parseString.2
      have h3 := parseJson_rest levels p.parseString.2.getNextToken.2
      generalize hv : (parseJson levels p.parseString.2.getNextToken.2).2 = q at h3
      have h4 := getNextToken_rest q.getNextToken.2
      simp only [parseMembers, hv]
      split_ifs with _ _ _ _ _ hc <;> try rfl
      -- the comma is read, so the next round has less text
      have h5 : q.getNextToken.2.rest.length < q.rest.length :=
        getNextToken_lt (by rw [not_not.1 hc]; decide)
      exact ih (by omega) (by omega) _ _

theorem parseElements_failed (parseValue : JsonParser → Json × JsonParser) (n : ℕ) (ch : UInt8) {p : JsonParser}
    (data : List Json) (h : p.failed = true) : parseElements parseValue n ch p data = (.null, p) := by
  cases n with
  | zero => rfl
  | succ n => simp [parseElements, h]

theorem parseElements_bound (levels : ℕ) {n m : ℕ} {p : JsonParser} (hn : p.rest.length < n) (hm : p.rest.length < m)
    (ch : UInt8) (data : List Json) :
    parseElements (parseJson levels) n ch p data = parseElements (parseJson levels) m ch p data := by
  induction n generalizing m p ch data with
  | zero => omega
  | succ n ih =>
    cases m with
    | zero => omega
    | succ m =>
      have h1 := parseJson_rest levels { p with rest := ch :: p.rest }
      generalize hv : (parseJson levels { p with rest := ch :: p.rest }).2 = q at h1
      simp only [List.length_cons] at h1
      simp only [parseElements, hv]
      split_ifs with _ _ _ hc <;> try rfl
      have h2 : q.getNextToken.2.rest.length < q.rest.length := getNextToken_lt (by rw [not_not.1 hc]; decide)
      -- at the end of the text the next round returns at once, else it has less text
      rcases getNextToken_cases q.getNextToken.2 with h3 | ⟨-, h3⟩
      · exact ih (by omega) (by omega) _ _
      · rw [parseElements_failed _ _ _ _ h3, parseElements_failed _ _ _ _ h3]

end JsonParser

structure Parsed where
  json : Json
  err : Str
  errno : Bool

/-- `Json::parse(in, err)`, called with an empty `err` -/
def parse (text : Str) (errno : Bool) : Parsed :=
  let (result, p) := JsonParser.parseJson (maxDepth + 1) { rest := text, err := [], failed := false, errno }
  let p := p.consumeGarbage
  match p.rest with
  | [] => ⟨result, p.err, p.errno⟩
  | ch :: _ => ⟨.null, (p.fail (ascii "unexpected trailing " ++ esc ch)).err, p.errno⟩

end AirobotMsgd.Json11
