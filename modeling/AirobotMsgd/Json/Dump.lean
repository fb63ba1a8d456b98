/-
`Json::dump` (source/json11.cpp), and reading back what it writes.

The bytes of a string are written as they are, apart from the quote, the backslash, the control characters and the
UTF-8 of U+2028 and U+2029. The last two take three bytes at once (`i += 2`). A double is printed with `%.17g`, an
infinite one as null. NaN is no `Double.Value`.

- `value_dump`: what is written is a JSON text of `levels j` levels, and says `canon j`.
- `stored_of_value`: what a parse gives is `Stored`.
- `parse_dump`: **a parse reads the value back exactly if it has at most 201 levels.**
-/
import AirobotMsgd.Core.Decimal
import AirobotMsgd.Core.StringMap
import AirobotMsgd.Json.Accepts

namespace AirobotMsgd.Json11

open AirobotMsgd.Bytes AirobotMsgd.JsonText AirobotMsgd.Double AirobotMsgd.StringMap

/-! ## The text -/

def hexChar (d : ℕ) : UInt8 := UInt8.ofNat (if d < 10 then 48 + d else 87 + d)

/-- `"\\u%04x"` -/
def dumpUnit (n : ℕ) : Str :=
  [92, 117, hexChar (n / 4096), hexChar (n / 256 % 16), hexChar (n / 16 % 16), hexChar (n % 16)]

/-- the loop over the bytes of a string -/
def dumpChars : Str → Str
  | [] => []
  | ch :: rest =>
    if ch = 92 then [92, 92] ++ dumpChars rest
    else if ch = 34 then [92, 34] ++ dumpChars rest
    else if ch = 8 then [92, 98] ++ dumpChars rest
    else if ch = 12 then [92, 102] ++ dumpChars rest
    else if ch = 10 then [92, 110] ++ dumpChars rest
    else if ch = 13 then [92, 114] ++ dumpChars rest
    else if ch = 9 then [92, 116] ++ dumpChars rest
    else if ch ≤ 0x1f then dumpUnit ch.toNat ++ dumpChars rest
    else match rest with
      | b :: c :: more =>
        if ch = 0xe2 ∧ b = 0x80 ∧ c = 0xa8 then ascii "\\u2028" ++ dumpChars more
        else if ch = 0xe2 ∧ b = 0x80 ∧ c = 0xa9 then ascii "\\u2029" ++ dumpChars more
        else ch :: dumpChars (b :: c :: more)
      | short => ch :: dumpChars short

def dumpString (value : Str) : Str := 34 :: dumpChars value ++ [34]

def dumpInt (value : ℤ) : Str := (if value < 0 then [45] else []) ++ toDec value.natAbs

def dumpDouble : Double.Value → Str
  | .finite neg mag => (if neg then [45] else []) ++ formatG mag
  | .inf _ => ascii "null"

/-- the separator before all but the first -/
def separate (first : Bool) : Str := if first then [] else ascii ", "

namespace Json

mutual

def dump : Json → Str
  | .null => ascii "null"
  | .bool value => if value then ascii "true" else ascii "false"
  | .string value => dumpString value
  | .array values => 91 :: dumpItems true values ++ [93]
  | .object values => 123 :: dumpMembers true values ++ [125]
  | .int64 value => dumpInt value
  | .uint64 value => toDec value
  | .double value => dumpDouble value

def dumpItems (first : Bool) : List Json → Str
  | [] => []
  | value :: values => separate first ++ value.dump ++ dumpItems false values

def dumpMembers (first : Bool) : List (Str × Json) → Str
  | [] => []
  | (key, value) :: values =>
    separate first ++ dumpString key ++ ascii ": " ++ value.dump ++ dumpMembers false values

end

/-! ## What it says -/

/-- an integer as it is read back -/
def canonInt (neg : Bool) (n : ℕ) : Json := if neg then .int64 (-n) else .uint64 n

mutual

/-- how the value is read back -/
def canon : Json → Json
  | .int64 value => canonInt (value < 0) value.natAbs
  | .double (.finite neg q) => if q.den = 1 ∧ q < 10 ^ 17 then canonInt neg q.num.natAbs else .double (.finite neg q)
  | .double (.inf _) => .null
  | .array values => .array (canonItems values)
  | .object values => .object (canonMembers values)
  | j => j

def canonItems : List Json → List Json
  | [] => []
  | value :: values => value.canon :: canonItems values

def canonMembers : List (Str × Json) → List (Str × Json)
  | [] => []
  | (key, value) :: values => (key, value.canon) :: canonMembers values

end

mutual

/-- the nested levels -/
def levels : Json → ℕ
  | .array values => levelsItems values + 1
  | .object values => levelsMembers values + 1
  | _ => 1

def levelsItems : List Json → ℕ
  | [] => 0
  | value :: values => max value.levels (levelsItems values)

def levelsMembers : List (Str × Json) → ℕ
  | [] => 0
  | (_, value) :: values => max value.levels (levelsMembers values)

end

end Json

/-! ## Strings -/

theorem dumpUnit_hex : ∀ n < 32, ([hexChar (n / 4096), hexChar (n / 256 % 16), hexChar (n / 16 % 16),
    hexChar (n % 16)].all isHex = true) ∧ ([hexChar (n / 4096), hexChar (n / 256 % 16), hexChar (n / 16 % 16),
    hexChar (n % 16)].foldl (fun v b => v * 16 + hexVal b) 0 = n) ∧ utf8 n = [UInt8.ofNat n] ∧ isLead n = false := by
  decide

/-- an item in front of the others -/
theorem exists_item {s text rest : Str} (item : Item) (htext : item.text = text)
    (hpiece : ∀ ps, decodePieces (item.piece :: ps) = s ++ decodePieces ps)
    (ih : ∃ items : List Item, dumpChars rest = items.flatMap Item.text ∧ decode items = rest) :
    ∃ items : List Item, text ++ dumpChars rest = items.flatMap Item.text ∧ decode items = s ++ rest := by
  obtain ⟨items, h1, h2⟩ := ih
  refine ⟨item :: items, by rw [List.flatMap_cons, htext, h1], ?_⟩
  rw [decode, List.map_cons, hpiece, ← decode, h2]

theorem exists_byte {b : UInt8} {text rest : Str} (item : Item) (htext : item.text = text)
    (hpiece : item.piece = .byte b)
    (ih : ∃ items : List Item, dumpChars rest = items.flatMap Item.text ∧ decode items = rest) :
    ∃ items : List Item, text ++ dumpChars rest = items.flatMap Item.text ∧ decode items = b :: rest :=
  exists_item (s := [b]) item htext (fun _ => by rw [hpiece]; rfl) ih

theorem exists_items (s : Str) : ∃ items : List Item, dumpChars s = items.flatMap Item.text ∧ decode items = s := by
  fun_induction dumpChars s with
  | case1 => exact ⟨[], rfl, rfl⟩
  | case2 rest ih => exact exists_byte (.escape 92 92 rfl) rfl rfl ih
  | case3 rest _ ih => exact exists_byte (.escape 34 34 rfl) rfl rfl ih
  | case4 rest _ _ ih => exact exists_byte (.escape 98 8 rfl) rfl rfl ih
  | case5 rest _ _ _ ih => exact exists_byte (.escape 102 12 rfl) rfl rfl ih
  | case6 rest _ _ _ _ ih => exact exists_byte (.escape 110 10 rfl) rfl rfl ih
  | case7 rest _ _ _ _ _ ih => exact exists_byte (.escape 114 13 rfl) rfl rfl ih
  | case8 rest _ _ _ _ _ _ ih => exact exists_byte (.escape 116 9 rfl) rfl rfl ih
  | case9 ch rest _ _ _ _ _ _ _ hctl ih =>
    -- a control character, as a code unit
    have hlt : ch.toNat < 32 := Nat.lt_succ_iff.2 (UInt8.le_iff_toNat_le.1 hctl)
    obtain ⟨hhex, hval, hutf8, hlead⟩ := dumpUnit_hex ch.toNat hlt
    refine exists_item (s := [ch]) (.unit _ _ _ _ hhex) rfl (fun ps => ?_) ih
    rw [Item.piece, hval, decodePieces_unit hlead, hutf8, UInt8.ofNat_toNat]
  | case10 ch _ _ _ _ _ _ _ _ b c more h ih =>
    obtain ⟨rfl, rfl, rfl⟩ := h
    exact exists_item (s := [0xe2, 0x80, 0xa8]) (.unit 50 48 50 56 rfl) rfl (fun ps => decodePieces_unit rfl ps) ih
  | case11 ch _ _ _ _ _ _ _ _ b c more _ h ih =>
    obtain ⟨rfl, rfl, rfl⟩ := h
    exact exists_item (s := [0xe2, 0x80, 0xa9]) (.unit 50 48 50 57 rfl) rfl (fun ps => decodePieces_unit rfl ps) ih
  | case12 ch h92 h34 _ _ _ _ _ hctl b c more _ _ ih =>
    exact exists_byte (.raw ch ⟨h34, h92, UInt8.not_le.1 hctl⟩) rfl rfl ih
  | case13 ch h92 h34 _ _ _ _ _ hctl short _ ih => exact exists_byte (.raw ch ⟨h34, h92, UInt8.not_le.1 hctl⟩) rfl rfl ih

theorem exists_quote (s : Str) : ∃ items : List Item, quote items = dumpString s ∧ decode items = s := by
  obtain ⟨items, h1, h2⟩ := exists_items s
  exact ⟨items, by rw [quote, dumpString, h1], h2⟩

/-! ## Numbers -/

theorem toDec_ok (n : ℕ) : Digits (toDec n) ∧ ((toDec n).head? = some 48 → toDec n = [48]) := by
  refine ⟨⟨toDec_ne_nil n, isDigit_toDec n⟩, fun h => ?_⟩
  rcases Nat.eq_zero_or_pos n with rfl | hn
  · rfl
  · exact absurd h (toDec_head hn)

/-- an integer in the range of its type -/
theorem readNumber_integer {n : Number} (hint : n.isInteger = true) (hlen : n.text.length ≤ 20)
    (hneg : n.neg = true → decValue n.int ≤ 2 ^ 63) (hpos : n.neg = false → decValue n.int < 2 ^ 64) :
    readNumber n false = (Json.canonInt n.neg (decValue n.int), false) := by
  have hrange : InRange (intValue n) := by
    unfold InRange intValue
    cases hn : n.neg with
    | true => have := hneg hn; simp only [if_true]; omega
    | false => have := hpos hn; simp only [Bool.false_eq_true, if_false]; omega
  rw [readNumber, readWith, if_pos ⟨hint, hlen⟩, if_pos ⟨rfl, hrange⟩]
  unfold Json.canonInt intValue
  split_ifs <;> rfl

theorem length_text {n : Number} (hint : n.isInteger = true) :
    n.text.length = (if n.neg then 1 else 0) + n.int.length := by
  simp only [Number.isInteger, Bool.and_eq_true, Option.isNone_iff_eq_none] at hint
  simp only [Number.text, Number.signText, Number.fracText, Number.expText, hint.1, hint.2, Option.elim_none,
    List.append_nil, List.length_append]
  split_ifs <;> rfl

section
variable {n : ℕ}

/-- an integer that the parser keeps -/
theorem value_integer (neg : Bool) {m : ℕ} (hneg : neg = true → m ≤ 2 ^ 63) (hpos : neg = false → m < 2 ^ 64) :
    Value sem (n + 1) false ((if neg then [45] else []) ++ toDec m) (Json.canonInt neg m) false := by
  generalize hnum : numeral neg (toDec m) [] none (toDec_ok m) (by simp) (by simp) = num
  have hint : num.isInteger = true := by rw [← hnum]; exact numeral_isInteger.2 ⟨rfl, rfl⟩
  have htext : num.text = (if neg then [45] else []) ++ toDec m := by
    rw [← hnum, numeral_text]
    simp [fraction, stripZeros]
  have hnneg : num.neg = neg := by rw [← hnum]; rfl
  have hval : decValue num.int = m := by rw [← hnum]; exact decValue_toDec m
  have hlen : num.text.length ≤ 20 := by
    rw [length_text hint, hnneg, show num.int = toDec m by rw [← hnum]; rfl]
    cases neg with
    | true =>
      have := length_toDec_le (k := 19) (n := m) (by norm_num) (by have := hneg rfl; omega)
      simp only [if_true]
      omega
    | false =>
      have := length_toDec_le (k := 20) (n := m) (by norm_num) (by have := hpos rfl; omega)
      simp only [Bool.false_eq_true, if_false]
      omega
  have hread := readNumber_integer hint hlen (by rwa [hnneg, hval]) (by rwa [hnneg, hval])
  have hnode := @Node.number _ _ sem (Value sem n) num false
  rw [show sem.number = readNumber from rfl, hread, htext, hnneg, hval] at hnode
  exact hnode

end

/-! ## Values that a parse gives, and values that are read back -/

/-- a double -/
def IsValue : Double.Value → Prop
  | .finite _ q => 0 ≤ q ∧ IsDouble q ∧ q < 2 ^ 1024
  | .inf _ => True

/-- one that is not subnormal -/
def IsNormal : Double.Value → Prop
  | .finite neg q => IsValue (.finite neg q) ∧ (q = 0 ∨ 2 ^ (-1022 : ℤ) ≤ q)
  | .inf _ => True

/-- integers are in the range of their types, maps are in order, and the doubles are as P says -/
inductive Stored (P : Double.Value → Prop) : Json → Prop
  | null : Stored P .null
  | bool (b : Bool) : Stored P (.bool b)
  | string (s : Str) : Stored P (.string s)
  | array {values : List Json} (h : ∀ v ∈ values, Stored P v) : Stored P (.array values)
  | object {values : List (Str × Json)} (hs : Sorted values) (h : ∀ e ∈ values, Stored P e.2) :
      Stored P (.object values)
  | int64 {v : ℤ} (h : -2 ^ 63 ≤ v ∧ v < 2 ^ 63) : Stored P (.int64 v)
  | uint64 {n : ℕ} (h : n < 2 ^ 64) : Stored P (.uint64 n)
  | double {v : Double.Value} (h : P v) : Stored P (.double v)

section
variable {n : ℕ}

/-- a double, by the number that its text is -/
theorem value_double {neg : Bool} {q : ℚ} (h : IsNormal (.finite neg q)) :
    Value sem (n + 1) false (dumpDouble (.finite neg q)) (Json.canon (.double (.finite neg q))) false := by
  obtain ⟨⟨h0, hd, hmax⟩, hnormal⟩ := h
  obtain ⟨num, hprints, hint, hlen⟩ := exists_prints neg h0 hd
  have hnode := @Node.number _ _ sem (Value sem n) num false
  rw [show sem.number = readNumber from rfl, hprints.text] at hnode
  suffices hread : readNumber num false = (Json.canon (.double (.finite neg q)), false) by
    rw [hread] at hnode
    exact hnode
  cases hi : num.isInteger with
  | true =>
    obtain ⟨m, hm, rfl⟩ := hint.1 hi
    have hval : decValue num.int = m := by
      have hmag := mag_of_isInteger hi
      rw [hprints.mag] at hmag
      rcases Nat.eq_zero_or_pos m with rfl | hm0
      · have hzero : shown ((0 : ℕ) : ℚ) = 0 := by simp [shown, decimal17, roundHalfEven]
        rw [hzero] at hmag
        exact_mod_cast hmag.symm
      · rw [shown_natCast hm0 hm] at hmag
        exact_mod_cast hmag.symm
    have htext : num.text.length ≤ 20 := by
      rw [length_text hi]
      have := hlen hi
      split_ifs <;> omega
    have hread := readNumber_integer hi htext (fun _ => by omega) (fun _ => by omega)
    have hlt : (m : ℚ) < 10 ^ 17 := by exact_mod_cast hm
    rw [hread, hval, hprints.neg, Json.canon, if_pos ⟨Rat.den_natCast m, hlt⟩, Rat.num_natCast, Int.natAbs_natCast]
  | false =>
    have hnot : ¬ (q.den = 1 ∧ q < 10 ^ 17) := by
      rintro ⟨hden, hlt⟩
      have hq : q = q.num.toNat := by
        have hnum : (q.num.toNat : ℤ) = q.num := Int.toNat_of_nonneg (Rat.num_nonneg.2 h0)
        conv_lhs => rw [← Rat.den_eq_one_iff q |>.1 hden, ← hnum]
        push_cast
        rfl
      have hm : q.num.toNat < 10 ^ 17 := by
        rw [hq] at hlt
        exact_mod_cast hlt
      rw [hint.2 ⟨_, hm, hq⟩] at hi
      cases hi
    rw [readNumber, readWith, if_neg (by simp [hi]), hprints.neg, hprints.mag, ofRat_shown hd hnormal hmax, Json.canon, if_neg hnot]
    rfl

theorem dumpItems_cons (value : Json) (values : List Json) :
    Json.dumpItems false (value :: values) = 44 :: 32 :: Json.dumpItems true (value :: values) := by
  simp [Json.dumpItems, separate, ascii]

theorem dumpMembers_cons (m : Str × Json) (values : List (Str × Json)) :
    Json.dumpMembers false (m :: values) = 44 :: 32 :: Json.dumpMembers true (m :: values) := by
  simp [Json.dumpMembers, separate, ascii]

theorem blank_space : Blank [32] := by
  simp [Blank, isBlank]

theorem padded {D : Denotation Json Bool} {s s' : Bool} {t : Str} {v : Json} (h : D s t v s') : Padded D s t v s' := by
  have hpadded := @Padded.intro _ _ D [] t [] s s' v Blank.nil h Blank.nil
  simpa using hpadded

theorem commas_items {values : List Json} (hne : values ≠ [])
    (h : ∀ v ∈ values, Value sem n false v.dump v.canon false) :
    Commas (Padded (Value sem n)) false (Json.dumpItems true values) (Json.canonItems values) false := by
  induction values with
  | nil => exact absurd rfl hne
  | cons v values ih =>
    have hv := padded (h v List.mem_cons_self)
    have htext : Json.dumpItems true (v :: values) = v.dump ++ Json.dumpItems false values := by
      simp [Json.dumpItems, separate]
    rw [htext, Json.canonItems]
    cases values with
    | nil =>
      rw [Json.dumpItems, List.append_nil]
      exact .one hv
    | cons v' values =>
      rw [dumpItems_cons]
      have hrest := ih (List.cons_ne_nil _ _) fun v hv => h v (List.mem_cons_of_mem _ hv)
      exact .cons hv (hrest.blank (w := [32]) (Padded.blank blank_space))

theorem commas_members {values : List (Str × Json)} (hne : values ≠ [])
    (h : ∀ e ∈ values, Value sem n false e.2.dump e.2.canon false) :
    Commas (Member (Value sem n)) false (Json.dumpMembers true values) (Json.canonMembers values) false := by
  induction values with
  | nil => exact absurd rfl hne
  | cons e values ih =>
    obtain ⟨key, v⟩ := e
    obtain ⟨items, hquote, hkey⟩ := exists_quote key
    have hv : Member (Value sem n) false (dumpString key ++ ascii ": " ++ v.dump) (key, v.canon) false := by
      have hpad := (padded (h (key, v) List.mem_cons_self)).blank blank_space
      have hm := Member.intro Blank.nil items Blank.nil hpad
      rw [hquote, hkey] at hm
      simpa [ascii] using hm
    have htext : Json.dumpMembers true ((key, v) :: values) =
        dumpString key ++ ascii ": " ++ v.dump ++ Json.dumpMembers false values := by
      simp [Json.dumpMembers, separate]
    rw [htext, Json.canonMembers]
    cases values with
    | nil =>
      rw [Json.dumpMembers, List.append_nil]
      exact .one hv
    | cons m values =>
      rw [dumpMembers_cons]
      have hrest := ih (List.cons_ne_nil _ _) fun e he => h e (List.mem_cons_of_mem _ he)
      exact .cons hv (hrest.blank (w := [32]) (Member.blank blank_space))

end

/-! ## Maps -/

theorem mapAssign_last {data : List (Str × Json)} {k : Str} {v : Json} (h : ∀ e ∈ data, e.1 < k) :
    mapAssign k v data = data ++ [(k, v)] := by
  induction data with
  | nil => rfl
  | cons e data ih =>
    have he := h e List.mem_cons_self
    have hne : k ≠ e.1 := fun heq => List.lt_irrefl _ (heq ▸ he)
    rw [mapAssign, if_neg hne, if_neg (List.lt_asymm he), ih fun e' he' => h e' (List.mem_cons_of_mem _ he')]
    rfl

/-- members in order are put behind each other -/
theorem assignMembers_sorted {data ms : List (Str × Json)} (h : Sorted (data ++ ms)) :
    assignMembers data ms = data ++ ms := by
  induction ms generalizing data with
  | nil => simp [assignMembers]
  | cons m ms ih =>
    have hlast : ∀ e ∈ data, e.1 < m.1 := fun e he => (List.pairwise_append.1 h).2.2 e he m List.mem_cons_self
    have hsplit : data ++ m :: ms = (data ++ [m]) ++ ms := by simp
    rw [hsplit] at h ⊢
    rw [← ih h, assignMembers, List.foldl_cons, mapAssign_last hlast]
    rfl

theorem canonMembers_sorted {values : List (Str × Json)} (h : Sorted values) : Sorted (Json.canonMembers values) := by
  have hmem : ∀ {values : List (Str × Json)} {e}, e ∈ Json.canonMembers values → ∃ d ∈ values, d.1 = e.1 := by
    intro values
    induction values with
    | nil => exact fun he => absurd he List.not_mem_nil
    | cons d values ih =>
      intro e he
      rcases List.mem_cons.1 he with rfl | he
      · exact ⟨d, List.mem_cons_self, rfl⟩
      · obtain ⟨d', hd', heq⟩ := ih he
        exact ⟨d', List.mem_cons_of_mem _ hd', heq⟩
  induction values with
  | nil => exact h
  | cons d values ih =>
    obtain ⟨hd, hrest⟩ := List.pairwise_cons.1 h
    refine List.pairwise_cons.2 ⟨?_, ih hrest⟩
    intro e he
    obtain ⟨d', hd', heq⟩ := hmem he
    exact heq ▸ hd d' hd'

/-! ## What is written is a text that says the value -/

theorem levels_le_items {v : Json} {values : List Json} (h : v ∈ values) : v.levels ≤ Json.levelsItems values := by
  induction values with
  | nil => exact absurd h List.not_mem_nil
  | cons v' values ih =>
    rw [Json.levelsItems]
    rcases List.mem_cons.1 h with rfl | h
    · exact le_max_left _ _
    · exact (ih h).trans (le_max_right _ _)

theorem levels_le_members {e : Str × Json} {values : List (Str × Json)} (h : e ∈ values) :
    e.2.levels ≤ Json.levelsMembers values := by
  induction values with
  | nil => exact absurd h List.not_mem_nil
  | cons e' values ih =>
    obtain ⟨key, value⟩ := e'
    rw [Json.levelsMembers]
    rcases List.mem_cons.1 h with rfl | h
    · exact le_max_left _ _
    · exact (ih h).trans (le_max_right _ _)

/-- **What is written says the value**, one level below another as it is nested. -/
theorem value_dump {j : Json} (h : Stored IsNormal j) : Value sem j.levels false j.dump j.canon false := by
  induction h with
  | null => exact Node.null false
  | bool b =>
    cases b with
    | true => exact Node.true false
    | false => exact Node.false false
  | string s =>
    obtain ⟨items, hquote, hs⟩ := exists_quote s
    have hnode := @Node.string _ _ sem (Value sem 0) items false
    rw [hquote, hs] at hnode
    exact hnode
  | int64 hv =>
    rename_i v
    have hint := @value_integer 0 (decide (v < 0)) v.natAbs (fun hneg => by omega) (fun hpos => by omega)
    rw [Json.dump, dumpInt, Json.canon]
    simp only [decide_eq_true_eq] at hint
    exact hint
  | uint64 hn => exact @value_integer 0 false _ (fun hneg => absurd hneg (by decide)) fun _ => hn
  | double hv =>
    rename_i v
    cases v with
    | inf neg => exact Node.null false
    | finite neg q => exact value_double hv
  | @array values _ ih =>
    rw [Json.levels, Json.dump, Json.canon]
    by_cases hne : values = []
    · subst hne
      exact Node.emptyArray Blank.nil false
    · exact Node.array (commas_items hne fun v hv => (ih v hv).mono (levels_le_items hv))
  | @object values hs _ ih =>
    rw [Json.levels, Json.dump, Json.canon]
    by_cases hne : values = []
    · subst hne
      exact Node.emptyObject Blank.nil false
    · have hnode := @Node.object _ _ sem _ _ _ _ _ (commas_members hne fun e he => (ih e he).mono (levels_le_members he))
      have hsorted : assignMembers [] (Json.canonMembers values) = Json.canonMembers values :=
        @assignMembers_sorted [] _ (canonMembers_sorted hs)
      rw [show sem.object (Json.canonMembers values) = .object (assignMembers [] (Json.canonMembers values)) from rfl,
        hsorted] at hnode
      exact hnode

/-! ## What a parse gives -/

theorem mem_mapAssign {k : Str} {v : Json} {m : List (Str × Json)} {e : Str × Json} (h : e ∈ mapAssign k v m) :
    e = (k, v) ∨ e ∈ m := by
  induction m with
  | nil => exact .inl (List.mem_singleton.1 h)
  | cons d m ih =>
    unfold mapAssign at h
    split_ifs at h
    · exact (List.mem_cons.1 h).imp_right (List.mem_cons_of_mem d)
    · exact List.mem_cons.1 h
    · rcases List.mem_cons.1 h with rfl | h
      · exact .inr List.mem_cons_self
      · exact (ih h).imp_right (List.mem_cons_of_mem d)

theorem mapAssign_sorted {m : List (Str × Json)} (h : Sorted m) (k : Str) (v : Json) : Sorted (mapAssign k v m) := by
  induction m with
  | nil => exact List.pairwise_singleton _ _
  | cons d m ih =>
    obtain ⟨hd, hm⟩ := List.pairwise_cons.1 h
    unfold mapAssign
    split_ifs with heq hlt
    · subst heq
      exact List.pairwise_cons.2 ⟨hd, hm⟩
    · refine List.pairwise_cons.2 ⟨?_, h⟩
      intro e he
      rcases List.mem_cons.1 he with rfl | he
      · exact hlt
      · exact List.lt_trans hlt (hd e he)
    · refine List.pairwise_cons.2 ⟨?_, ih hm⟩
      intro e he
      rcases mem_mapAssign he with rfl | he
      · grind
      · exact hd e he

/-- the map of the members: in order, and each of its values is a member's -/
theorem assignMembers_spec {ms data : List (Str × Json)} (h : Sorted data) :
    Sorted (assignMembers data ms) ∧ ∀ e ∈ assignMembers data ms, e ∈ data ∨ e ∈ ms := by
  induction ms generalizing data with
  | nil => exact ⟨h, fun e he => .inl he⟩
  | cons m ms ih =>
    obtain ⟨hs, hmem⟩ := ih (mapAssign_sorted h m.1 m.2)
    refine ⟨hs, fun e he => ?_⟩
    rcases hmem e he with he | he
    · exact (mem_mapAssign he).symm.imp_right fun heq => by rw [heq]; exact List.mem_cons_self
    · exact .inr (List.mem_cons_of_mem m he)

theorem isValue_ofRat (neg : Bool) {q : ℚ} (hq : 0 ≤ q) : IsValue (ofRat neg q).1 := by
  unfold ofRat
  dsimp only
  split_ifs with h
  · trivial
  · exact ⟨roundQ_nonneg hq, isDouble_roundQ hq, not_le.1 h⟩

theorem stored_readNumber (n : Number) (errno : Bool) : Stored IsValue (readNumber n errno).1 := by
  have hmag : 0 ≤ n.mag := by
    unfold Number.mag
    positivity
  unfold readNumber readWith
  split_ifs with hint hrange hneg
  · obtain ⟨hlow, -⟩ := hrange.2
    refine .int64 ⟨hlow, ?_⟩
    simp only [intValue, hneg, if_true]
    omega
  · obtain ⟨-, hhigh⟩ := hrange.2
    rw [intValue, if_neg hneg] at hhigh
    exact .uint64 (by exact_mod_cast hhigh)
  · exact .double (isValue_ofRat n.neg hmag)
  · exact .double (isValue_ofRat n.neg hmag)

theorem levelsItems_le {k : ℕ} {values : List Json} (h : ∀ v ∈ values, v.levels ≤ k) : Json.levelsItems values ≤ k := by
  induction values with
  | nil => exact Nat.zero_le k
  | cons v values ih =>
    exact max_le (h v List.mem_cons_self) (ih fun v hv => h v (List.mem_cons_of_mem _ hv))

theorem levelsMembers_le {k : ℕ} {values : List (Str × Json)} (h : ∀ e ∈ values, e.2.levels ≤ k) :
    Json.levelsMembers values ≤ k := by
  induction values with
  | nil => exact Nat.zero_le k
  | cons e values ih =>
    exact max_le (h e List.mem_cons_self) (ih fun e he => h e (List.mem_cons_of_mem _ he))

theorem levels_readNumber (n : Number) (errno : Bool) : (readNumber n errno).1.levels = 1 := by
  unfold readNumber readWith
  split_ifs <;> rfl

/-- **What a parse gives** is well formed, and nested no deeper than its text. -/
theorem stored_of_value {n : ℕ} {s s' : Bool} {t : Str} {v : Json} (h : Value sem n s t v s') :
    Stored IsValue v ∧ v.levels ≤ n := by
  induction n generalizing s t v s' with
  | zero => exact h.elim
  | succ n ih =>
    have hpad : ∀ {s t v s'}, Padded (Value sem n) s t v s' → Stored IsValue v ∧ v.levels ≤ n := by
      rintro s _ v s' ⟨-, h, -⟩
      exact ih h
    have hmember : ∀ {s t m s'}, Member (Value sem n) s t m s' → Stored IsValue m.2 ∧ m.2.levels ≤ n := by
      rintro s _ m s' ⟨-, items, -, h⟩
      exact hpad h
    cases h with
    | null => exact ⟨.null, Nat.succ_pos n⟩
    | true => exact ⟨.bool true, Nat.succ_pos n⟩
    | false => exact ⟨.bool false, Nat.succ_pos n⟩
    | string items => exact ⟨.string _, Nat.succ_pos n⟩
    | number num =>
      refine ⟨stored_readNumber num s, ?_⟩
      rw [show sem.number num s = readNumber num s from rfl, levels_readNumber]
      exact Nat.succ_pos n
    | emptyArray _ => exact ⟨.array (by simp), Nat.succ_pos n⟩
    | array h =>
      have hall := h.forall hpad
      exact ⟨.array fun v hv => (hall v hv).1, Nat.succ_le_succ (levelsItems_le fun v hv => (hall v hv).2)⟩
    | emptyObject _ => exact ⟨.object List.Pairwise.nil (by simp [assignMembers]), Nat.succ_pos n⟩
    | @object t ms _ _ h =>
      have hall := h.forall hmember
      obtain ⟨hs, hmem⟩ := @assignMembers_spec ms [] List.Pairwise.nil
      have hin : ∀ e ∈ assignMembers [] ms, e ∈ ms := fun e he => (hmem e he).resolve_left List.not_mem_nil
      exact ⟨.object hs fun e he => (hall e (hin e he)).1,
        Nat.succ_le_succ (levelsMembers_le fun e he => (hall e (hin e he)).2)⟩

theorem levels_canonInt (neg : Bool) (n : ℕ) : (Json.canonInt neg n).levels = 1 := by
  unfold Json.canonInt
  split_ifs <;> rfl

theorem levels_canonItems {values : List Json} (h : ∀ v ∈ values, v.canon.levels = v.levels) :
    Json.levelsItems (Json.canonItems values) = Json.levelsItems values := by
  induction values with
  | nil => rfl
  | cons v values ih =>
    rw [Json.canonItems, Json.levelsItems, Json.levelsItems, h v List.mem_cons_self,
      ih fun v hv => h v (List.mem_cons_of_mem _ hv)]

theorem levels_canonMembers {values : List (Str × Json)} (h : ∀ e ∈ values, e.2.canon.levels = e.2.levels) :
    Json.levelsMembers (Json.canonMembers values) = Json.levelsMembers values := by
  induction values with
  | nil => rfl
  | cons e values ih =>
    rw [Json.canonMembers, Json.levelsMembers, Json.levelsMembers, h e List.mem_cons_self,
      ih fun e he => h e (List.mem_cons_of_mem _ he)]

theorem levels_canon {P : Double.Value → Prop} {j : Json} (h : Stored P j) : j.canon.levels = j.levels := by
  induction h with
  | null | bool | string | uint64 => rfl
  | int64 => exact levels_canonInt _ _
  | @double v =>
    cases v with
    | inf => rfl
    | finite neg q =>
      rw [Json.canon]
      split_ifs
      · exact levels_canonInt _ _
      · rfl
  | array _ ih => rw [Json.canon, Json.levels, Json.levels, levels_canonItems ih]
  | object _ _ ih => rw [Json.canon, Json.levels, Json.levels, levels_canonMembers ih]

theorem parse_dump {j : Json} (h : Stored IsNormal j) :
    parse j.dump false = ⟨j.canon, [], false⟩ ↔ j.levels ≤ maxDepth + 1 := by
  rw [parse_iff]
  constructor
  · intro hdoc
    generalize j.dump = t at hdoc
    obtain ⟨-, hvalue, -⟩ := hdoc
    rw [← levels_canon h]
    exact (stored_of_value hvalue).2
  · exact fun hle => padded ((value_dump h).mono hle)

/-! ## The text has no control characters -/

def Clean (s : Str) : Prop := ∀ b ∈ s, 0x1f < b

instance (s : Str) : Decidable (Clean s) := List.decidableBAll _ s

theorem Clean.append {s t : Str} (hs : Clean s) (ht : Clean t) : Clean (s ++ t) := fun b hb =>
  (List.mem_append.1 hb).elim (hs b) (ht b)

theorem Clean.cons {b : UInt8} (hb : 0x1f < b) {s : Str} (hs : Clean s) : Clean (b :: s) :=
  List.forall_mem_cons.2 ⟨hb, hs⟩

theorem Clean.nil : Clean [] := fun _ h => absurd h List.not_mem_nil

theorem clean_hexChar : ∀ d < 16, 0x1f < hexChar d := by
  decide

theorem clean_dumpUnit {n : ℕ} (h : n < 65536) : Clean (dumpUnit n) :=
  .cons (by decide) (.cons (by decide) (.cons (clean_hexChar _ (by omega)) (.cons (clean_hexChar _ (by omega))
    (.cons (clean_hexChar _ (by omega)) (.cons (clean_hexChar _ (by omega)) .nil)))))

theorem clean_dumpChars (s : Str) : Clean (dumpChars s) := by
  have hpair : ∀ {b : UInt8}, 0x1f < b → Clean [92, b] := fun hb => .cons (by decide) (.cons hb .nil)
  fun_induction dumpChars s with
  | case1 => exact .nil
  | case2 rest ih | case3 rest _ ih | case4 rest _ _ ih | case5 rest _ _ _ ih | case6 rest _ _ _ _ ih
  | case7 rest _ _ _ _ _ ih | case8 rest _ _ _ _ _ _ ih => exact (hpair (by decide)).append ih
  | case9 ch rest _ _ _ _ _ _ _ _ ih => exact (clean_dumpUnit (by have := ch.toNat_lt; omega)).append ih
  | case10 _ _ _ _ _ _ _ _ _ _ _ _ _ ih | case11 _ _ _ _ _ _ _ _ _ _ _ _ _ _ ih =>
    exact Clean.append (by decide) ih
  | case12 ch _ _ _ _ _ _ _ hctl _ _ _ _ _ ih | case13 ch _ _ _ _ _ _ _ hctl _ _ ih =>
    exact .cons (UInt8.not_le.1 hctl) ih

theorem clean_digits {s : Str} (h : ∀ b ∈ s, isDigit b = true) : Clean s := by
  intro b hb
  have hd := h b hb
  simp only [isDigit, Bool.and_eq_true, decide_eq_true_eq] at hd
  exact UInt8.lt_of_lt_of_le (by decide) hd.1

theorem clean_fraction {ds : Str} (h : ∀ b ∈ ds, isDigit b = true) : Clean (fraction ds) := by
  unfold fraction
  split_ifs
  · exact .nil
  · exact .cons (by decide) (clean_digits fun b hb => h b ((List.rdropWhile_prefix _ _).subset hb))

theorem clean_formatG (q : ℚ) : Clean (formatG q) := by
  have hd := isDigit_toDec (decimal17 q).1
  have htake : ∀ k, Clean ((toDec (decimal17 q).1).take k) := fun k =>
    clean_digits fun b hb => hd b (List.mem_of_mem_take hb)
  have hdrop : ∀ k, Clean (fraction ((toDec (decimal17 q).1).drop k)) := fun k =>
    clean_fraction fun b hb => hd b (List.mem_of_mem_drop hb)
  simp only [formatG]
  split_ifs
  · exact .cons (by decide) .nil
  · exact ((htake 1).append (hdrop 1)).append
      (.cons (by decide) (.cons (by decide) (clean_digits (digits_toDec2 _).2)))
  · exact ((htake 1).append (hdrop 1)).append
      (.cons (by decide) (.cons (by decide) (clean_digits (digits_toDec2 _).2)))
  · refine .cons (by decide) (clean_fraction fun b hb => ?_)
    rcases List.mem_append.1 hb with hb | hb
    · rw [List.eq_of_mem_replicate hb]
      rfl
    · exact hd b hb
  · exact (htake _).append (hdrop _)

theorem clean_sign (neg : Bool) : Clean (if neg then [45] else []) := by
  cases neg with
  | true => exact .cons (by decide) .nil
  | false => exact .nil

theorem clean_separate (first : Bool) : Clean (separate first) := by
  cases first <;> decide

theorem clean_dumpString (s : Str) : Clean (dumpString s) :=
  .cons (by decide) ((clean_dumpChars s).append (.cons (by decide) .nil))

mutual

theorem clean_dump : ∀ j : Json, Clean j.dump
  | .null => by decide
  | .bool true => by decide
  | .bool false => by decide
  | .string value => clean_dumpString value
  | .array values => .cons (by decide) ((clean_dumpItems true values).append (.cons (by decide) .nil))
  | .object values => .cons (by decide) ((clean_dumpMembers true values).append (.cons (by decide) .nil))
  | .int64 value => by
    have h := (clean_sign (decide (value < 0))).append (clean_digits (isDigit_toDec value.natAbs))
    rw [Json.dump, dumpInt]
    simpa only [decide_eq_true_eq] using h
  | .uint64 value => clean_digits (isDigit_toDec value)
  | .double (.finite neg mag) => (clean_sign neg).append (clean_formatG mag)
  | .double (.inf _) => by
    show Clean (ascii "null")
    decide

theorem clean_dumpItems (first : Bool) : ∀ values : List Json, Clean (Json.dumpItems first values)
  | [] => .nil
  | value :: values => ((clean_separate first).append (clean_dump value)).append (clean_dumpItems false values)

theorem clean_dumpMembers (first : Bool) : ∀ values : List (Str × Json), Clean (Json.dumpMembers first values)
  | [] => .nil
  | (key, value) :: values =>
    ((((clean_separate first).append (clean_dumpString key)).append (by decide)).append
      (clean_dump value)).append (clean_dumpMembers false values)

end

/-! ## Results -/

/-- **A value and its text.** No control character is written, so the text is one line and a C string. With a clear errno
a parse reads it back, as `canon`, exactly if it has at most 201 levels. -/
theorem dump_reads_back {j : Json} (h : Stored IsNormal j) :
    Clean j.dump ∧ (parse j.dump false = ⟨j.canon, [], false⟩ ↔ j.levels ≤ maxDepth + 1) :=
  ⟨clean_dump j, parse_dump h⟩

/-- a double, an integer below zero and a string with a line end -/
def sample : Json :=
  .object [(ascii "a", .array [.double (.finite true (3 / 2)), .int64 (-7)]), (ascii "s", .string [10])]

theorem stored_sample : Stored IsNormal sample := by
  have hdouble : IsDouble (3 / 2) := by
    have h := @isDouble_mul_zpow 3 (-1) (by norm_num) (by norm_num)
    norm_num at h
    exact h
  have hnormal : IsNormal (.finite true (3 / 2)) := by
    have hmax : (3 / 2 : ℚ) < 2 ^ 1024 := by
      calc (3 / 2 : ℚ) < 2 ^ 1 := by norm_num
        _ ≤ 2 ^ 1024 := pow_le_pow_right₀ (by norm_num) (by norm_num)
    refine ⟨⟨by norm_num, hdouble, hmax⟩, .inr ?_⟩
    calc (2 : ℚ) ^ (-1022 : ℤ) ≤ 2 ^ (0 : ℤ) := zpow_le_zpow_right₀ (by norm_num) (by norm_num)
      _ ≤ 3 / 2 := by norm_num
  refine .object (by unfold Sorted; decide) fun e he => ?_
  rcases List.mem_cons.1 he with rfl | he
  · refine .array fun v hv => ?_
    rcases List.mem_cons.1 hv with rfl | hv
    · exact .double hnormal
    · rw [List.mem_singleton.1 hv]
      exact .int64 (by norm_num)
  · rw [List.mem_singleton.1 he]
    exact .string _

theorem dump_reads_back_sample :
    Clean sample.dump ∧ parse sample.dump false = ⟨sample.canon, [], false⟩ :=
  ⟨(dump_reads_back stored_sample).1, (dump_reads_back stored_sample).2.2 (by decide)⟩

/-- **What was parsed is read back.** Any value that a parse gives is well formed. If none of its doubles is subnormal,
and errno is still clear behind that parse, the next one on the thread, of what is written for the value, gives it back,
as `canon`, and leaves errno clear. -/
theorem parsed_reads_back {text : Str} {errno errno' : Bool} {j : Json} (h : parse text errno = ⟨j, [], errno'⟩) :
    Stored IsValue j ∧ (errno' = false → Stored IsNormal j → parse j.dump errno' = ⟨j.canon, [], errno'⟩) := by
  obtain ⟨-, hvalue, -⟩ := (parse_iff _ _ _ _).1 h
  obtain ⟨hstored, hlevels⟩ := stored_of_value hvalue
  refine ⟨hstored, ?_⟩
  rintro rfl hnormal
  exact (parse_dump hnormal).2 hlevels

theorem canon_sample : sample.canon = sample := by
  have hden : (3 / 2 : ℚ).den ≠ 1 := by decide +kernel
  simp [sample, Json.canon, Json.canonMembers, Json.canonItems, Json.canonInt, hden]

theorem parsed_reads_back_sample :
    Stored IsValue sample ∧ parse sample.dump false = ⟨sample.canon, [], false⟩ := by
  have hread : parse sample.dump false = ⟨sample, [], false⟩ := by
    have h := (parse_dump stored_sample).2 (by decide)
    rwa [canon_sample] at h
  exact ⟨(parsed_reads_back hread).1, (parsed_reads_back hread).2 rfl stored_sample⟩

end AirobotMsgd.Json11
