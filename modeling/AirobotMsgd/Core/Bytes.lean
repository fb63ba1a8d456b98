/-
Byte strings, and the few functions of the C and C++ standard libraries that programs apply to them: C strings in a
buffer (`cstr`, `strlen`), the first occurrence of a pattern (`find`, the index `std::string::find` returns), vector
`resize`, `memcpy` into a buffer (`overwrite`), decimal numerals in both directions (`toDec`, `decValue`), `atoi`, and
the character classes of the "C" locale with `trim` and case-insensitive comparison over them.

Memory is a list of bytes from a pointer on. Reading a C string in memory without a NUL runs off its end: `cstr` is
`none` there.

- `cstr_eq_some`: a C string is the bytes before the first NUL.
- `find_eq_some`: `find` returns the least index at which the pattern occurs; `find_append` keeps it when bytes are
  appended.
- `decValue_toDec`: the numeral of n reads back as n. `atoi_range`: `atoi` returns an int; `atoi_digits`: on a numeral
  below 2^31 it returns its number, and `atoi_le` never a larger one.
- `mapInsert` / `mapAssign`: `insert` and `operator[] =` of a `std::map` with string keys, as a list of entries in the
  order of their keys.
-/
import Mathlib.Data.List.TakeWhile
import Mathlib.Data.List.Infix
import Mathlib.Data.List.DropRight
import Mathlib.Tactic

namespace AirobotMsgd.Bytes

/-- a `std::string`, a `std::vector<char>` or a stretch of memory -/
abbrev Str := List UInt8

/-- the bytes of an ASCII literal -/
def ascii (s : String) : Str := s.toList.map fun c => UInt8.ofNat c.toNat

/-! ## C strings -/

/-- the C string at the start of memory m: the bytes before the first NUL -/
def cstr (m : Str) : Option Str := if 0 ∈ m then some (m.takeWhile (· ≠ 0)) else none

def strlen (m : Str) : Option ℕ := (cstr m).map List.length

/-- `string(s.c_str())`: a string cut at its first NUL -/
def cut (s : Str) : Str := s.takeWhile (· ≠ 0)

theorem cstr_eq_none {m : Str} : cstr m = none ↔ 0 ∉ m := by
  unfold cstr; split_ifs with h <;> simp [h]

theorem cstr_terminated {s : Str} (h : 0 ∉ s) (t : Str) : cstr (s ++ 0 :: t) = some s := by
  have hs : ∀ b ∈ s, decide (b ≠ 0) = true := fun b hb => by
    simp only [decide_eq_true_eq]; rintro rfl; exact h hb
  unfold cstr
  rw [if_pos (by simp), List.takeWhile_append_of_pos hs]
  simp

theorem zero_notMem_takeWhile (m : Str) : 0 ∉ m.takeWhile (· ≠ 0) := by
  intro h
  have := List.mem_takeWhile_imp h
  simp at this

theorem cstr_eq_some {m s : Str} : cstr m = some s ↔ 0 ∉ s ∧ ∃ t, m = s ++ 0 :: t := by
  constructor
  · intro h
    unfold cstr at h
    split_ifs at h with hm
    rw [Option.some.injEq] at h
    subst h
    refine ⟨zero_notMem_takeWhile m, ?_⟩
    cases hd : m.dropWhile (· ≠ 0) with
    | nil =>
      have := List.dropWhile_eq_nil_iff.1 hd 0 hm
      simp at this
    | cons b t =>
      have hb : b = 0 := by
        have := List.head_dropWhile_not (fun b : UInt8 => decide (b ≠ 0)) (l := m) (by rw [hd]; simp)
        simpa only [hd, List.head_cons, decide_eq_false_iff_not, not_not] using this
      refine ⟨t, ?_⟩
      conv_lhs => rw [← List.takeWhile_append_dropWhile (p := fun b : UInt8 => decide (b ≠ 0)) (l := m), hd, hb]
  · rintro ⟨h, t, rfl⟩
    exact cstr_terminated h t

/-- a C string does not change when memory behind it does -/
theorem cstr_append {m s : Str} (h : cstr m = some s) (t : Str) : cstr (m ++ t) = some s := by
  obtain ⟨h0, u, rfl⟩ := cstr_eq_some.1 h
  rw [List.append_assoc, List.cons_append]
  exact cstr_terminated h0 _

/-! ## Vectors of bytes -/

/-- `v.resize(n)`: cut, or filled up with NULs -/
def resize (v : Str) (n : ℕ) : Str := v.take n ++ List.replicate (n - v.length) 0

/-- `memcpy(v.data() + off, d, d.size())` -/
def overwrite (v : Str) (off : ℕ) (d : Str) : Str := v.take off ++ d ++ v.drop (off + d.length)

@[simp] theorem length_resize (v : Str) (n : ℕ) : (resize v n).length = n := by
  simp [resize]; omega

theorem length_overwrite {v d : Str} {off : ℕ} (h : off + d.length ≤ v.length) :
    (overwrite v off d).length = v.length := by
  simp [overwrite]; omega

theorem take_overwrite_zero (v d : Str) : (overwrite v 0 d).take d.length = d := by
  simp [overwrite]

theorem take_overwrite {v d : Str} {off : ℕ} (h : off ≤ v.length) :
    (overwrite v off d).take (off + d.length) = v.take off ++ d := by
  unfold overwrite
  rw [List.take_append_of_le_length (by simp [h])]
  exact List.take_of_length_le (by simp [h])

/-! ## The first occurrence of a pattern -/

def find (pat : Str) : Str → Option ℕ
  | [] => if pat = [] then some 0 else none
  | b :: s => if pat <+: b :: s then some 0 else (find pat s).map (· + 1)

theorem find_eq_some {pat s : Str} {i : ℕ} :
    find pat s = some i ↔ i ≤ s.length ∧ pat <+: s.drop i ∧ ∀ j < i, ¬ pat <+: s.drop j := by
  induction s generalizing i with
  | nil =>
    unfold find
    split_ifs with h
    · subst h
      refine ⟨?_, fun ⟨hi, _, _⟩ => by rw [Nat.le_zero.1 hi]⟩
      intro hi
      obtain rfl : 0 = i := by simpa using hi
      exact ⟨le_rfl, List.nil_prefix, by simp⟩
    · refine ⟨fun hi => absurd hi (by simp), fun ⟨_, hp, _⟩ => absurd ?_ h⟩
      exact List.prefix_nil.1 (by simpa using hp)
  | cons b s ih =>
    unfold find
    split_ifs with h
    · refine ⟨fun hi => ?_, fun ⟨_, _, hmin⟩ => ?_⟩
      · obtain rfl : 0 = i := by simpa using hi
        exact ⟨by simp, by simpa using h, by simp⟩
      · cases i with
        | zero => rfl
        | succ i => exact absurd h (hmin 0 (Nat.succ_pos i))
    · rw [Option.map_eq_some_iff]
      constructor
      · rintro ⟨k, hk, rfl⟩
        obtain ⟨h1, h2, h3⟩ := ih.1 hk
        refine ⟨by simpa using h1, by simpa using h2, ?_⟩
        intro j hj
        cases j with
        | zero => simpa using h
        | succ j => simpa using h3 j (by omega)
      · rintro ⟨h1, h2, h3⟩
        cases i with
        | zero => exact absurd (by simpa using h2) h
        | succ i =>
          refine ⟨i, ih.2 ⟨by simpa using h1, by simpa using h2, ?_⟩, rfl⟩
          intro j hj
          simpa using h3 (j + 1) (by omega)

/-- the bytes up to the end of the first occurrence decide where it is -/
theorem find_append {pat s : Str} {i : ℕ} (h : find pat s = some i) (t : Str) : find pat (s ++ t) = some i := by
  obtain ⟨h1, h2, h3⟩ := find_eq_some.1 h
  refine find_eq_some.2 ⟨by simp; omega, ?_, fun j hj hp => h3 j hj ?_⟩
  · rw [List.drop_append_of_le_length h1]; exact h2.trans (List.prefix_append _ _)
  · -- an occurrence before i ends before the one at i does, so inside s
    have hlen : i + pat.length ≤ s.length := by
      have := h2.length_le; rw [List.length_drop] at this; omega
    rw [List.drop_append_of_le_length (by omega)] at hp
    exact List.prefix_of_prefix_length_le hp (List.prefix_append _ _) (by simp; omega)

/-- skip a part in which the pattern does not begin -/
theorem find_skip {pat l s : Str} {i : ℕ} (hl : ∀ j < l.length, ¬ pat <+: (l ++ s).drop j)
    (h : find pat s = some i) : find pat (l ++ s) = some (l.length + i) := by
  obtain ⟨h1, h2, h3⟩ := find_eq_some.1 h
  refine find_eq_some.2 ⟨by simp; omega, by simpa [List.drop_length_add_append] using h2, ?_⟩
  intro j hj
  by_cases hjl : j < l.length
  · exact hl j hjl
  · have := h3 (j - l.length) (by omega)
    rw [List.drop_append, List.drop_eq_nil_of_le (by omega), List.nil_append]
    exact this

theorem find_byte {b : UInt8} {s : Str} (h : b ∉ s) (t : Str) : find [b] (s ++ b :: t) = some s.length := by
  induction s with
  | nil => simp [find]
  | cons c s ih =>
    simp only [List.mem_cons, not_or] at h
    rw [List.cons_append, find, if_neg (by simpa using h.1), ih h.2]
    rfl

theorem find_byte_none {b : UInt8} {s : Str} (h : b ∉ s) : find [b] s = none := by
  induction s with
  | nil => simp [find]
  | cons c s ih =>
    simp only [List.mem_cons, not_or] at h
    rw [find, if_neg (by simpa using h.1), ih h.2]
    rfl

/-! ## Decimal numerals -/

/-- `std::to_string` of an unsigned value -/
def toDec (n : ℕ) : Str := (Nat.toDigits 10 n).map fun c => UInt8.ofNat c.toNat

def isDigit (b : UInt8) : Bool := 48 ≤ b && b ≤ 57

/-- the number a string of digits denotes -/
def decValue (s : Str) : ℕ := s.foldl (fun v b => v * 10 + (b.toNat - 48)) 0

theorem decValue_snoc (s : Str) (b : UInt8) : decValue (s ++ [b]) = decValue s * 10 + (b.toNat - 48) := by
  simp [decValue]

theorem decValue_cons (b : UInt8) (s : Str) : decValue (b :: s) = (b.toNat - 48) * 10 ^ s.length + decValue s := by
  induction s using List.reverseRecOn with
  | nil => simp [decValue]
  | append_singleton s c ih =>
    rw [← List.cons_append, decValue_snoc, ih, decValue_snoc, List.length_append, List.length_singleton, pow_succ]
    ring

/-- a numeral without a leading zero is at least the power of ten of its length -/
theorem pow_le_decValue {b : UInt8} (hb : isDigit b = true) (h0 : b ≠ 48) (s : Str) :
    10 ^ s.length ≤ decValue (b :: s) := by
  have h1 : 1 ≤ b.toNat - 48 := by
    simp only [isDigit, Bool.and_eq_true, decide_eq_true_eq] at hb
    have hle : 48 ≤ b.toNat := UInt8.le_iff_toNat_le.1 hb.1
    have hne : b.toNat ≠ 48 := fun h => h0 (UInt8.toNat_inj.1 h)
    omega
  calc 10 ^ s.length ≤ (b.toNat - 48) * 10 ^ s.length := Nat.le_mul_of_pos_left _ h1
    _ ≤ decValue (b :: s) := by rw [decValue_cons]; exact Nat.le_add_right _ _

theorem digit_byte : ∀ d < 10, isDigit (UInt8.ofNat (Nat.digitChar d).toNat) = true ∧
    (UInt8.ofNat (Nat.digitChar d).toNat).toNat - 48 = d := by
  decide

theorem toDec_lt {n : ℕ} (h : n < 10) : toDec n = [UInt8.ofNat (Nat.digitChar n).toNat] := by
  simp [toDec, Nat.toDigits_of_lt_base h]

theorem toDec_ge {n : ℕ} (h : 10 ≤ n) : toDec n = toDec (n / 10) ++ [UInt8.ofNat (Nat.digitChar (n % 10)).toNat] := by
  simp [toDec, Nat.toDigits_of_base_le (by norm_num) h]

theorem isDigit_toDec (n : ℕ) : ∀ b ∈ toDec n, isDigit b = true := by
  induction n using Nat.strong_induction_on with
  | _ n ih =>
    intro b hb
    by_cases h : n < 10
    · rw [toDec_lt h, List.mem_singleton] at hb
      subst hb; exact (digit_byte n h).1
    · rw [toDec_ge (by omega), List.mem_append, List.mem_singleton] at hb
      rcases hb with hb | rfl
      · exact ih (n / 10) (by omega) b hb
      · exact (digit_byte _ (by omega)).1

theorem not_mem_toDec {b : UInt8} (hb : isDigit b = false) (n : ℕ) : b ∉ toDec n := by
  intro h
  rw [isDigit_toDec n b h] at hb
  exact absurd hb (by simp)

theorem length_toDec_le {k n : ℕ} (hk : 1 ≤ k) (hn : n < 10 ^ k) : (toDec n).length ≤ k := by
  induction k, hk using Nat.le_induction generalizing n with
  | base => simp [toDec_lt (by simpa using hn : n < 10)]
  | succ k hk ih =>
    by_cases h : n < 10
    · simp [toDec_lt h]
    · have hdiv : n / 10 < 10 ^ k := by
        rw [pow_succ] at hn
        omega
      rw [toDec_ge (by omega), List.length_append, List.length_singleton]
      exact Nat.succ_le_succ (ih hdiv)

theorem toDec_ne_nil (n : ℕ) : toDec n ≠ [] := by
  simp [toDec, Nat.toDigits_ne_nil]

/-- **A numeral reads back as its number.** -/
theorem decValue_toDec (n : ℕ) : decValue (toDec n) = n := by
  induction n using Nat.strong_induction_on with
  | _ n ih =>
    by_cases h : n < 10
    · rw [toDec_lt h, ← List.nil_append [_], decValue_snoc, (digit_byte n h).2]
      simp [decValue]
    · rw [toDec_ge (by omega), decValue_snoc, ih (n / 10) (by omega), (digit_byte _ (by omega)).2]
      omega

/-! ## Character classes of the "C" locale -/

def isSpace (b : UInt8) : Bool := b == 32 || (9 ≤ b && b ≤ 13)

def isUpper (b : UInt8) : Bool := 65 ≤ b && b ≤ 90

def isLower (b : UInt8) : Bool := 97 ≤ b && b ≤ 122

def isAlpha (b : UInt8) : Bool := isUpper b || isLower b

def toUpper (b : UInt8) : UInt8 := if isLower b then b - 32 else b

/-- `boost::algorithm::trim_copy` -/
def trim (s : Str) : Str := (s.dropWhile isSpace).rdropWhile isSpace

/-- `boost::to_upper_copy` -/
def toUpperCopy (s : Str) : Str := s.map toUpper

/-- `boost::iequals` -/
def iequals (a b : Str) : Bool := a.map toUpper == b.map toUpper

theorem iequals_iff {a b : Str} : iequals a b = true ↔ a.map toUpper = b.map toUpper := by
  simp [iequals]

/-! ## `atoi` -/

def LONG_MAX : ℤ := 2 ^ 63 - 1
def LONG_MIN : ℤ := -2 ^ 63

/-- `strtol(s, nullptr, 10)`: blanks, a sign, digits; clamped to `long` -/
def strtol (s : Str) : ℤ :=
  match s.dropWhile isSpace with
  | [] => 0
  | b :: t =>
    if b = 45 then max (-(decValue (t.takeWhile isDigit) : ℤ)) LONG_MIN
    else if b = 43 then min (decValue (t.takeWhile isDigit) : ℤ) LONG_MAX
    else min (decValue ((b :: t).takeWhile isDigit) : ℤ) LONG_MAX

/-- `atoi`: the low 32 bits of `strtol`, as an int -/
def atoi (s : Str) : ℤ := (strtol s + 2 ^ 31) % 2 ^ 32 - 2 ^ 31

theorem atoi_range (s : Str) : -2 ^ 31 ≤ atoi s ∧ atoi s < 2 ^ 31 := by
  unfold atoi
  omega

theorem isSpace_of_isDigit {b : UInt8} (h : isDigit b = true) : isSpace b = false := by
  simp only [isDigit, Bool.and_eq_true, decide_eq_true_eq] at h
  have h1 : 48 ≤ b.toNat := UInt8.le_iff_toNat_le.1 h.1
  have h2 : ¬ b ≤ 13 := fun h' => by
    have : b.toNat ≤ 13 := UInt8.le_iff_toNat_le.1 h'
    omega
  have h3 : b ≠ 32 := by rintro rfl; exact absurd h1 (by decide)
  simp [isSpace, h2, h3]

theorem strtol_digits {s : Str} (hne : s ≠ []) (hs : ∀ b ∈ s, isDigit b = true) :
    strtol s = min (decValue s : ℤ) LONG_MAX := by
  obtain ⟨b, t, rfl⟩ := List.exists_cons_of_ne_nil hne
  have hb := hs b List.mem_cons_self
  have hall : (b :: t).takeWhile isDigit = b :: t := List.takeWhile_eq_self_iff.2 hs
  have hd : (b :: t).dropWhile isSpace = b :: t := by
    rw [List.dropWhile_cons, isSpace_of_isDigit hb]; rfl
  have h45 : b ≠ 45 := by rintro rfl; exact absurd hb (by decide)
  have h43 : b ≠ 43 := by rintro rfl; exact absurd hb (by decide)
  simp only [strtol, hd, if_neg h45, if_neg h43, hall]

theorem atoi_digits {s : Str} (hne : s ≠ []) (hs : ∀ b ∈ s, isDigit b = true) (hlt : decValue s < 2 ^ 31) :
    atoi s = decValue s := by
  rw [atoi, strtol_digits hne hs]
  unfold LONG_MAX
  omega

variable {β : Type*}

/-- `m.insert({k, v})`: an entry that is there stays -/
def mapInsert (k : Str) (v : β) : List (Str × β) → List (Str × β)
  | [] => [(k, v)]
  | e :: m =>
    if k = e.1 then e :: m
    else if k < e.1 then (k, v) :: e :: m
    else e :: mapInsert k v m

/-- `m[k] = v` -/
def mapAssign (k : Str) (v : β) : List (Str × β) → List (Str × β)
  | [] => [(k, v)]
  | e :: m =>
    if k = e.1 then (k, v) :: m
    else if k < e.1 then (k, v) :: e :: m
    else e :: mapAssign k v m

/-- `m.find(k)` -/
def mapFind (k : Str) (m : List (Str × β)) : Option β := (m.find? fun e => e.1 = k).map (·.2)

/-- two maps with the same keys that agree on every key that satisfies p -/
def AgreeOn (p : Str → Prop) (m m' : List (Str × β)) : Prop :=
  List.Forall₂ (fun e e' => e.1 = e'.1 ∧ (p e.1 → e.2 = e'.2)) m m'

theorem AgreeOn.refl (p : Str → Prop) (m : List (Str × β)) : AgreeOn p m m :=
  List.forall₂_same.2 fun _ _ => ⟨rfl, fun _ => rfl⟩

theorem AgreeOn.mapInsert {p : Str → Prop} {m m' : List (Str × β)} (h : AgreeOn p m m') (k : Str) (v : β) :
    AgreeOn p (mapInsert k v m) (mapInsert k v m') := by
  induction h with
  | nil => exact .cons ⟨rfl, fun _ => rfl⟩ .nil
  | @cons e e' m m' he hm ih =>
    simp only [Bytes.mapInsert, ← he.1]
    split_ifs
    · exact .cons he hm
    · exact .cons ⟨rfl, fun _ => rfl⟩ (.cons he hm)
    · exact .cons he ih

/-- a look-up by a predicate on the keys finds the same value where the maps agree -/
theorem AgreeOn.find {p : Str → Prop} {m m' : List (Str × β)} (h : AgreeOn p m m') {q : Str → Bool}
    (hq : ∀ k, q k = true → p k) : (m.find? fun e => q e.1).map (·.2) = (m'.find? fun e => q e.1).map (·.2) := by
  induction h with
  | nil => rfl
  | @cons e e' m m' he hm ih =>
    simp only [List.find?_cons, ← he.1]
    cases hk : q e.1 with
    | true => simpa using he.2 (hq _ hk)
    | false => exact ih

end AirobotMsgd.Bytes
