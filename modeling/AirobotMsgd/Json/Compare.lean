/-
The comparison operators of `Json` (source/json11.cpp, include/json11.hpp).

Values of different types compare as their types. Two numbers compare as doubles whatever they are stored as, so two
ids that round to the same double are equal. Arrays and objects compare as `std::vector` and `std::map` do, by the
elements. `Json(double)` takes a NaN too, which is neither less than, equal to nor greater than any number; it is no
`Double.Value`, so all of this is about values without one.

`code` writes a value as a list of tokens.

- `compare_code`: the operators compare values as their codes.
- `operators_ordered`: **the operators are those of one linear order**, with `==` as its equality.
- `reads_back_equal`: what is written and parsed compares equal, exactly if it has no infinite double.
-/
import AirobotMsgd.Core.Lexicographic
import AirobotMsgd.Json.Dump
import Mathlib.Data.Sum.Order
import Mathlib.Order.WithBot

namespace AirobotMsgd

open AirobotMsgd.Bytes AirobotMsgd.Double AirobotMsgd.Lexicographic

/-- the extended number a double stands for; both zeros stand for 0 -/
def Double.Value.ext : Double.Value → WithBot (WithTop ℚ)
  | .finite neg mag => (((if neg then -mag else mag : ℚ) : WithTop ℚ) : WithBot (WithTop ℚ))
  | .inf false => ((⊤ : WithTop ℚ) : WithBot (WithTop ℚ))
  | .inf true => ⊥

namespace Json11

/-! ## Accessors -/

/-- `Json::Type`, in its order -/
inductive Kind where
  | nul
  | number
  | bool
  | string
  | array
  | object
deriving DecidableEq, Repr

def Kind.index : Kind → ℕ
  | .nul => 0
  | .number => 1
  | .bool => 2
  | .string => 3
  | .array => 4
  | .object => 5

namespace Json

def kind : Json → Kind
  | .null => .nul
  | .bool _ => .bool
  | .string _ => .string
  | .array _ => .array
  | .object _ => .object
  | .int64 _ | .uint64 _ | .double _ => .number

/-- `number_value()`: an integer is rounded to a double -/
def numberValue : Json → Double.Value
  | .int64 value => .finite (value < 0) (roundQ value.natAbs)
  | .uint64 value => .finite false (roundQ value)
  | .double value => value
  | _ => .finite false 0

def boolValue : Json → Bool
  | .bool value => value
  | _ => false

def stringValue : Json → Str
  | .string value => value
  | _ => []

def arrayItems : Json → List Json
  | .array values => values
  | _ => []

def objectItems : Json → List (Str × Json)
  | .object values => values
  | _ => []

theorem arrayItems_size (j : Json) : sizeOf j.arrayItems ≤ sizeOf j := by
  cases j <;> simp [arrayItems]

theorem objectItems_size (j : Json) : sizeOf j.objectItems ≤ sizeOf j := by
  cases j <;> simp [objectItems]

/-! ## Operators -/

mutual

/-- `operator==`, and `equals` of the classes -/
def eq (a b : Json) : Bool :=
  if a.kind ≠ b.kind then false
  else match a with
    | .null => true
    | .bool value => value == b.boolValue
    | .string value => value == b.stringValue
    | .array values => eqItems values b.arrayItems
    | .object values => eqMembers values b.objectItems
    | .int64 value => decide ((Json.int64 value).numberValue.ext = b.numberValue.ext)
    | .uint64 value => decide ((Json.uint64 value).numberValue.ext = b.numberValue.ext)
    | .double value => decide (value.ext = b.numberValue.ext)
termination_by sizeOf a + sizeOf b
decreasing_by
  · have := arrayItems_size b
    simp only [array.sizeOf_spec]
    omega
  · have := objectItems_size b
    simp only [object.sizeOf_spec]
    omega

def eqItems : List Json → List Json → Bool
  | [], [] => true
  | v :: vs, w :: ws => v.eq w && eqItems vs ws
  | _, _ => false
termination_by vs ws => sizeOf vs + sizeOf ws

def eqMembers : List (Str × Json) → List (Str × Json) → Bool
  | [], [] => true
  | (k, v) :: vs, (l, w) :: ws => (k == l && v.eq w) && eqMembers vs ws
  | _, _ => false
termination_by vs ws => sizeOf vs + sizeOf ws

end

mutual

/-- `operator<`, and `less` of the classes -/
def lt (a b : Json) : Bool :=
  if a.kind ≠ b.kind then decide (a.kind.index < b.kind.index)
  else match a with
    | .null => false
    | .bool value => !value && b.boolValue
    | .string value => decide (value < b.stringValue)
    | .array values => ltItems values b.arrayItems
    | .object values => ltMembers values b.objectItems
    | .int64 value => decide ((Json.int64 value).numberValue.ext < b.numberValue.ext)
    | .uint64 value => decide ((Json.uint64 value).numberValue.ext < b.numberValue.ext)
    | .double value => decide (value.ext < b.numberValue.ext)
termination_by sizeOf a + sizeOf b
decreasing_by
  · have := arrayItems_size b
    simp only [array.sizeOf_spec]
    omega
  · have := objectItems_size b
    simp only [object.sizeOf_spec]
    omega

def ltItems : List Json → List Json → Bool
  | _, [] => false
  | [], _ :: _ => true
  | v :: vs, w :: ws => v.lt w || (!w.lt v && ltItems vs ws)
termination_by vs ws => sizeOf vs + sizeOf ws

/-- `operator<` of pairs, at every element -/
def ltMembers : List (Str × Json) → List (Str × Json) → Bool
  | _, [] => false
  | [], _ :: _ => true
  | (k, v) :: vs, (l, w) :: ws =>
    (decide (k < l) || (!decide (l < k) && v.lt w)) ||
      (!(decide (l < k) || (!decide (k < l) && w.lt v)) && ltMembers vs ws)
termination_by vs ws => sizeOf vs + sizeOf ws

end

def ne (a b : Json) : Bool := !a.eq b

def le (a b : Json) : Bool := !b.lt a

def gt (a b : Json) : Bool := b.lt a

def ge (a b : Json) : Bool := !a.lt b

end Json

/-! ## Codes -/

/-- a mark, or a number -/
abbrev Token := ℕ ⊕ₗ WithBot (WithTop ℚ)

def mark (n : ℕ) : Token := toLex (.inl n)

def number (v : Double.Value) : Token := toLex (.inr v.ext)

def stringCode (s : Str) : List Token := listCode (mark 0) (mark 1) (fun b => [mark b.toNat]) s

namespace Json

mutual

def code : Json → List Token
  | .null => [mark 0]
  | .bool value => [mark 2, mark value.toNat]
  | .string value => mark 3 :: stringCode value
  | .array values => mark 4 :: codeItems values
  | .object values => mark 5 :: codeMembers values
  | .int64 value => [mark 1, number (Json.int64 value).numberValue]
  | .uint64 value => [mark 1, number (Json.uint64 value).numberValue]
  | .double value => [mark 1, number value]

def codeItems : List Json → List Token
  | [] => [mark 0]
  | v :: vs => mark 1 :: v.code ++ codeItems vs

def codeMembers : List (Str × Json) → List Token
  | [] => [mark 0]
  | (k, v) :: vs => mark 1 :: (stringCode k ++ v.code) ++ codeMembers vs

end

def memberCode (e : Str × Json) : List Token := stringCode e.1 ++ e.2.code

/-- `operator==` of pairs -/
def memberEq (e f : Str × Json) : Bool := e.1 == f.1 && e.2.eq f.2

/-- `operator<` of pairs -/
def memberLt (e f : Str × Json) : Bool := decide (e.1 < f.1) || (!decide (f.1 < e.1) && e.2.lt f.2)

theorem codeItems_eq (vs : List Json) : codeItems vs = listCode (mark 0) (mark 1) code vs := by
  induction vs with
  | nil => rfl
  | cons v vs ih => rw [codeItems, listCode, ih]

theorem codeMembers_eq (vs : List (Str × Json)) : codeMembers vs = listCode (mark 0) (mark 1) memberCode vs := by
  induction vs with
  | nil => rfl
  | cons v vs ih => rw [codeMembers, listCode, ih, memberCode]

theorem eqItems_eq (vs ws : List Json) : eqItems vs ws = listSame eq vs ws := by
  induction vs generalizing ws with
  | nil => cases ws <;> simp [eqItems, listSame]
  | cons v vs ih => cases ws <;> simp [eqItems, listSame, ih]

theorem eqMembers_eq (vs ws : List (Str × Json)) : eqMembers vs ws = listSame memberEq vs ws := by
  induction vs generalizing ws with
  | nil => cases ws <;> simp [eqMembers, listSame]
  | cons v vs ih =>
    obtain ⟨k, v⟩ := v
    rcases ws with _ | ⟨⟨l, w⟩, ws⟩ <;> simp [eqMembers, listSame, memberEq, ih]

theorem ltItems_eq (vs ws : List Json) : ltItems vs ws = listLess lt vs ws := by
  induction vs generalizing ws with
  | nil => cases ws <;> simp [ltItems, listLess]
  | cons v vs ih => cases ws <;> simp [ltItems, listLess, ih]

theorem ltMembers_eq (vs ws : List (Str × Json)) : ltMembers vs ws = listLess memberLt vs ws := by
  induction vs generalizing ws with
  | nil => cases ws <;> simp [ltMembers, listLess]
  | cons v vs ih =>
    obtain ⟨k, v⟩ := v
    rcases ws with _ | ⟨⟨l, w⟩, ws⟩ <;> simp [ltMembers, listLess, memberLt, ih]

/-- the code of a value begins with its type -/
theorem code_kind (j : Json) : ∃ body, j.code = mark j.kind.index :: body := by
  cases j <;> exact ⟨_, by rw [code]; rfl⟩

/-- induction over the values in a value -/
theorem induct {P : Json → Prop} (array : ∀ vs, (∀ v ∈ vs, P v) → P (.array vs))
    (object : ∀ vs : List (Str × Json), (∀ e ∈ vs, P e.2) → P (.object vs))
    (leaf : ∀ j, j.kind ≠ .array → j.kind ≠ .object → P j) : ∀ j, P j
  | .array vs => array vs fun v _ => induct array object leaf v
  | .object vs => object vs fun e _ => induct array object leaf e.2
  | .null => leaf _ nofun nofun
  | .bool _ => leaf _ nofun nofun
  | .string _ => leaf _ nofun nofun
  | .int64 _ => leaf _ nofun nofun
  | .uint64 _ => leaf _ nofun nofun
  | .double _ => leaf _ nofun nofun
termination_by j => sizeOf j
decreasing_by
  · have := List.sizeOf_lt_of_mem ‹v ∈ vs›
    simp only [Json.array.sizeOf_spec]
    omega
  · have := List.sizeOf_lt_of_mem ‹e ∈ vs›
    obtain ⟨k, v⟩ := e
    simp only [Prod.mk.sizeOf_spec] at this
    simp only [Json.object.sizeOf_spec]
    omega

end Json

/-! ## Comparison by codes -/

theorem mark_lt {m n : ℕ} : mark m < mark n ↔ m < n := Sum.Lex.inl_lt_inl_iff

theorem mark_inj {m n : ℕ} : mark m = mark n ↔ m = n := by
  simp [mark]

theorem number_lt {v w : Double.Value} : number v < number w ↔ v.ext < w.ext := Sum.Lex.inr_lt_inr_iff

theorem number_inj {v w : Double.Value} : number v = number w ↔ v.ext = w.ext := by
  simp [number]

theorem codes_string (s t : Str) : Codes (stringCode s) (stringCode t) (s < t) (s = t) (t < s) := by
  have hbytes : ∀ a b : UInt8, Codes [mark a.toNat] [mark b.toNat] (decide (a < b) = true) (decide (a = b) = true)
      (decide (b < a) = true) := by
    intro a b
    refine (Codes.token _ _).congr ?_ ?_ ?_
    · rw [mark_lt, decide_eq_true_eq, UInt8.lt_iff_toNat_lt]
    · rw [mark_inj, decide_eq_true_eq, UInt8.toNat_inj]
    · rw [mark_lt, decide_eq_true_eq, UInt8.lt_iff_toNat_lt]
  have hless : ∀ s t : Str, listLess (fun a b : UInt8 => decide (a < b)) s t = true ↔ s < t := fun s t =>
    listLess_iff (fun _ _ => UInt8.lt_asymm) fun a b hab hba =>
      UInt8.le_antisymm (UInt8.not_lt.1 hba) (UInt8.not_lt.1 hab)
  exact (Codes.list (mark_lt.2 zero_lt_one) fun a _ b _ => hbytes a b).congr (hless s t).symm listSame_iff.symm
    (hless t s).symm

theorem codes_number (v w : Double.Value) :
    Codes [mark 1, number v] [mark 1, number w] (v.ext < w.ext) (v.ext = w.ext) (w.ext < v.ext) :=
  ((Codes.token (number v) (number w)).cons (mark 1)).congr number_lt.symm number_inj.symm number_lt.symm

namespace Json

theorem codes_of_kind_ne {a b : Json} (h : a.kind ≠ b.kind) :
    Codes a.code b.code (a.lt b = true) (a.eq b = true) (b.lt a = true) := by
  obtain ⟨x, hx⟩ := code_kind a
  obtain ⟨y, hy⟩ := code_kind b
  have heq : ¬ a.eq b = true := by rw [eq.eq_def, if_pos h]; simp
  have hlt : a.lt b = true ↔ a.kind.index < b.kind.index := by rw [lt.eq_def, if_pos h]; simp
  have hgt : b.lt a = true ↔ b.kind.index < a.kind.index := by rw [lt.eq_def, if_pos h.symm]; simp
  have hne : a.kind.index ≠ b.kind.index := by
    intro hidx
    refine h ?_
    cases ha : a.kind <;> cases hb : b.kind <;> simp_all [Kind.index]
  rw [hx, hy]
  rcases lt_or_gt_of_ne hne with hk | hk
  · exact (Codes.of_lt (mark_lt.2 hk) x y).congr (by simp [hlt, hk]) (by simp [heq]) (by simp [hgt, hk.not_gt])
  · exact (Codes.of_gt (mark_lt.2 hk) x y).congr (by simp [hlt, hk.not_gt]) (by simp [heq]) (by simp [hgt, hk])

theorem codes_member {e f : Str × Json}
    (h : Codes e.2.code f.2.code (e.2.lt f.2 = true) (e.2.eq f.2 = true) (f.2.lt e.2 = true)) :
    Codes (memberCode e) (memberCode f) (memberLt e f = true) (memberEq e f = true) (memberLt f e = true) := by
  have hkey := codes_string e.1 f.1
  have hnot := hkey.not_more
  have hnot' := hkey.not_less
  refine (hkey.append h).congr ?_ ?_ ?_
  · simp only [memberLt, Bool.or_eq_true, Bool.and_eq_true, Bool.not_eq_true', decide_eq_true_eq, decide_eq_false_iff_not]
    tauto
  · simp [memberEq]
  · simp only [memberLt, Bool.or_eq_true, Bool.and_eq_true, Bool.not_eq_true', decide_eq_true_eq, decide_eq_false_iff_not]
    tauto

/-- **Values compare as their codes.** -/
theorem compare_code (a b : Json) : Codes a.code b.code (a.lt b = true) (a.eq b = true) (b.lt a = true) := by
  induction a using induct generalizing b with
  | array vs ih =>
    by_cases hk : (Json.array vs).kind = b.kind
    · cases b <;> simp only [kind, reduceCtorEq] at hk
      rename_i ws
      have hlist := Codes.list (mark_lt.2 zero_lt_one) fun v hv w (_ : w ∈ ws) => ih v hv w
      rw [code, code, codeItems_eq, codeItems_eq]
      refine (hlist.cons (mark 4)).congr ?_ ?_ ?_
      · simp [lt.eq_def (.array vs), kind, arrayItems, ltItems_eq]
      · simp [eq.eq_def (.array vs), kind, arrayItems, eqItems_eq]
      · simp [lt.eq_def (.array ws), kind, arrayItems, ltItems_eq]
    · exact codes_of_kind_ne hk
  | object vs ih =>
    by_cases hk : (Json.object vs).kind = b.kind
    · cases b <;> simp only [kind, reduceCtorEq] at hk
      rename_i ws
      have hlist := Codes.list (mark_lt.2 zero_lt_one) fun e he f (_ : f ∈ ws) => codes_member (ih e he f.2)
      rw [code, code, codeMembers_eq, codeMembers_eq]
      refine (hlist.cons (mark 5)).congr ?_ ?_ ?_
      · simp [lt.eq_def (.object vs), kind, objectItems, ltMembers_eq]
      · simp [eq.eq_def (.object vs), kind, objectItems, eqMembers_eq]
      · simp [lt.eq_def (.object ws), kind, objectItems, ltMembers_eq]
    · exact codes_of_kind_ne hk
  | leaf a harr hobj =>
    by_cases hk : a.kind = b.kind
    · cases a <;> cases b <;> simp only [kind, reduceCtorEq, ne_eq, not_true_eq_false] at hk harr hobj
      case null.null => exact (Codes.nil.cons (mark 0)).congr (by simp [lt]) (by simp [eq]) (by simp [lt])
      case bool.bool v w =>
        refine ((Codes.token (mark v.toNat) (mark w.toNat)).cons (mark 2)).congr ?_ ?_ ?_
        · simp only [lt, kind, boolValue, mark_lt]
          cases v <;> cases w <;> simp
        · simp only [eq, kind, boolValue, mark_inj]
          cases v <;> cases w <;> simp
        · simp only [lt, kind, boolValue, mark_lt]
          cases v <;> cases w <;> simp
      case string.string v w =>
        refine ((codes_string v w).cons (mark 3)).congr ?_ ?_ ?_
        · rw [lt, if_neg (by simp [kind])]
          exact decide_eq_true_iff
        · simp [eq, kind, stringValue]
        · rw [lt, if_neg (by simp [kind])]
          exact decide_eq_true_iff
      all_goals
        simp only [code]
        refine (codes_number _ _).congr ?_ ?_ ?_
        · rw [lt.eq_def, if_neg (by simp [kind])]
          exact decide_eq_true_iff
        · rw [eq.eq_def, if_neg (by simp [kind])]
          exact decide_eq_true_iff
        · rw [lt.eq_def, if_neg (by simp [kind])]
          exact decide_eq_true_iff
    · exact codes_of_kind_ne hk

theorem eq_refl (a : Json) : a.eq a = true := (compare_code a a).eq_iff.2 rfl

end Json

/-! ## What is read back -/

/-- not infinite -/
def IsFinite : Double.Value → Prop
  | .finite _ _ => True
  | .inf _ => False

namespace Json

theorem eq_number {a b : Json} (ha : a.kind = .number) (hb : b.kind = .number) :
    a.eq b = true ↔ a.numberValue.ext = b.numberValue.ext := by
  cases a <;> simp only [kind, reduceCtorEq] at ha
  all_goals
    rw [eq.eq_def, if_neg (by rw [hb]; simp [kind])]
    exact decide_eq_true_iff

theorem kind_canonInt (neg : Bool) (n : ℕ) : (canonInt neg n).kind = .number := by
  unfold canonInt
  split_ifs <;> rfl

theorem ext_canonInt (neg : Bool) (n : ℕ) :
    (canonInt neg n).numberValue.ext = (Double.Value.finite neg (roundQ n)).ext := by
  cases neg with
  | false => rfl
  | true =>
    rcases Nat.eq_zero_or_pos n with rfl | hn
    · simp [canonInt, numberValue, Double.Value.ext, roundQ, roundHalfEven]
    · simp [canonInt, numberValue, hn]

theorem eq_int {v : ℤ} : (canonInt (v < 0) v.natAbs).eq (.int64 v) = true := by
  rw [eq_number (kind_canonInt _ _) rfl, ext_canonInt]
  rfl

theorem eq_double {neg : Bool} {q : ℚ} (h0 : 0 ≤ q) (hd : IsDouble q) :
    (canon (.double (.finite neg q))).eq (.double (.finite neg q)) = true := by
  rw [canon]
  split_ifs with hint
  · have hq : (q.num.natAbs : ℚ) = q := by
      have hnum : (q.num.natAbs : ℤ) = q.num := Int.natAbs_of_nonneg (Rat.num_nonneg.2 h0)
      calc (q.num.natAbs : ℚ) = ((q.num.natAbs : ℤ) : ℚ) := (Int.cast_natCast _).symm
        _ = q.num := by rw [hnum]
        _ = q := Rat.den_eq_one_iff q |>.1 hint.1
    rw [eq_number (kind_canonInt _ _) rfl, ext_canonInt, hq, hd]
    rfl
  · exact eq_refl _

theorem eq_canonItems {vs : List Json} (h : ∀ v ∈ vs, v.canon.eq v = true ↔ Stored IsFinite v) :
    eqItems (canonItems vs) vs = true ↔ ∀ v ∈ vs, Stored IsFinite v := by
  induction vs with
  | nil => simp [canonItems, eqItems]
  | cons v vs ih =>
    simp only [canonItems, eqItems, Bool.and_eq_true, List.forall_mem_cons]
    rw [h v List.mem_cons_self, ih fun w hw => h w (List.mem_cons_of_mem v hw)]

theorem eq_canonMembers {vs : List (Str × Json)} (h : ∀ e ∈ vs, e.2.canon.eq e.2 = true ↔ Stored IsFinite e.2) :
    eqMembers (canonMembers vs) vs = true ↔ ∀ e ∈ vs, Stored IsFinite e.2 := by
  induction vs with
  | nil => simp [canonMembers, eqMembers]
  | cons e vs ih =>
    obtain ⟨k, v⟩ := e
    simp only [canonMembers, eqMembers, beq_self_eq_true, Bool.true_and, Bool.and_eq_true, List.forall_mem_cons]
    rw [h (k, v) List.mem_cons_self, ih fun w hw => h w (List.mem_cons_of_mem _ hw)]

/-- the values that compare equal to what they are read back as -/
theorem eq_canon {j : Json} (h : Stored IsNormal j) : j.canon.eq j = true ↔ Stored IsFinite j := by
  induction h with
  | null => exact ⟨fun _ => .null, fun _ => eq_refl _⟩
  | bool b => exact ⟨fun _ => .bool b, fun _ => eq_refl _⟩
  | string s => exact ⟨fun _ => .string s, fun _ => eq_refl _⟩
  | int64 h => exact ⟨fun _ => .int64 h, fun _ => eq_int⟩
  | uint64 h => exact ⟨fun _ => .uint64 h, fun _ => eq_refl _⟩
  | @double v h =>
    cases v with
    | finite neg q => exact ⟨fun _ => .double trivial, fun _ => eq_double h.1.1 h.1.2.1⟩
    | inf neg =>
      -- null is no number
      have hnull : (canon (.double (.inf neg))).eq (.double (.inf neg)) = false := by simp [canon, eq.eq_def, kind]
      rw [hnull]
      constructor
      · exact fun heq => absurd heq (by decide)
      · intro hstored
        cases hstored with
        | double h => exact h.elim
  | @array vs h ih =>
    rw [canon, eq.eq_def, if_neg (by simp [kind])]
    refine (eq_canonItems ih).trans ⟨.array, ?_⟩
    intro hstored
    cases hstored with
    | array h => exact h
  | @object vs hs h ih =>
    rw [canon, eq.eq_def, if_neg (by simp [kind])]
    refine (eq_canonMembers ih).trans ⟨.object hs, ?_⟩
    intro hstored
    cases hstored with
    | object _ h => exact h

end Json

/-! ## Results -/

/-- **The operators are those of one linear order**, on values without NaN. Any two of them are equal, or one is less;
less is transitive; equality is an equivalence that the others respect; and `!=`, `<=`, `>`, `>=` are what they are in
that order. So a `Json` can be sorted and be the key of a map. -/
theorem operators_ordered (a b c : Json) :
    ((a.lt b = true ∧ a.eq b = false ∧ b.lt a = false) ∨ (a.lt b = false ∧ a.eq b = true ∧ b.lt a = false) ∨
      (a.lt b = false ∧ a.eq b = false ∧ b.lt a = true)) ∧
    (a.lt b = true → b.lt c = true → a.lt c = true) ∧
    (a.eq a = true ∧ a.eq b = b.eq a ∧
      (a.eq b = true → a.eq c = b.eq c ∧ a.lt c = b.lt c ∧ c.lt a = c.lt b)) ∧
    (a.le b = (a.lt b || a.eq b) ∧ a.ge b = (a.gt b || a.eq b) ∧ a.ne b = (a.lt b || a.gt b)) := by
  have hlt : ∀ x y : Json, x.lt y = decide (x.code < y.code) := fun x y => by
    rw [Bool.eq_iff_iff, (Json.compare_code x y).lt_iff, decide_eq_true_iff]
  have heq : ∀ x y : Json, x.eq y = decide (x.code = y.code) := fun x y => by
    rw [Bool.eq_iff_iff, (Json.compare_code x y).eq_iff, decide_eq_true_iff]
  refine ⟨?_, ?_, ⟨a.eq_refl, ?_, ?_⟩, ?_, ?_, ?_⟩
  · simp only [hlt, heq, decide_eq_true_iff, decide_eq_false_iff_not]
    rcases lt_trichotomy a.code b.code with h | h | h
    · exact .inl ⟨h, h.ne, h.not_gt⟩
    · exact .inr (.inl ⟨h.not_lt, h, h.not_gt⟩)
    · exact .inr (.inr ⟨h.not_gt, h.ne', h⟩)
  · simp only [hlt, decide_eq_true_iff]
    exact lt_trans
  · simp only [heq, eq_comm]
  · intro hab
    rw [heq, decide_eq_true_iff] at hab
    simp only [hlt, heq, hab, and_self]
  · simp only [Json.le, hlt, heq, ← decide_not, ← Bool.decide_or, decide_eq_decide]
    rw [not_lt, le_iff_lt_or_eq]
  · simp only [Json.ge, Json.gt, hlt, heq, ← decide_not, ← Bool.decide_or, decide_eq_decide]
    rw [not_lt, le_iff_lt_or_eq, eq_comm (a := a.code)]
  · simp only [Json.ne, Json.gt, hlt, heq, ← decide_not, ← Bool.decide_or, decide_eq_decide]
    exact lt_or_lt_iff_ne.symm

/-- **What is written and parsed compares equal**, exactly if it has no infinite double; one is read back as null. The
parse is one with a clear errno. -/
theorem reads_back_equal {j : Json} (h : Stored IsNormal j) (hlevels : j.levels ≤ maxDepth + 1) :
    (parse j.dump false).json.eq j = true ↔ Stored IsFinite j := by
  rw [(parse_dump h).2 hlevels]
  exact Json.eq_canon h

theorem reads_back_equal_sample : (parse sample.dump false).json.eq sample = true ↔ Stored IsFinite sample :=
  reads_back_equal stored_sample (by decide)

end Json11

end AirobotMsgd
