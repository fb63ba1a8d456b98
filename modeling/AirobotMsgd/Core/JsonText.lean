/-
JSON texts and what they say, over any type of values and any state that reading a number uses and changes.

A `Sem` gives each form of text its value. `Value sem n` relates the texts of at most n nested levels to their values,
with the state before and after. Members keep the order of the text, and a name may occur twice; what that means is the
`Sem`'s.

A string is a list of items: a byte as it is, an escaped byte, or a UTF-16 code unit in hexadecimal. `decode` gives its
bytes: a lead surrogate and a trail surrogate behind it are one code point, any other code unit is one by itself. The
bytes that stand there as they are need not be UTF-8.

`Due sem n` are the beginnings of texts behind which a value of a text of at most n levels is due.

- `Value.mono`: a text of at most n levels is one of at most m ≥ n levels.
- `stateFree_value`: whether a text is one does not depend on the state.
- `Value.starts`: a text begins with a byte that is neither blank nor a closing bracket.
-/
import AirobotMsgd.Core.Bytes

namespace AirobotMsgd.JsonText

open AirobotMsgd.Bytes

def isBlank (b : UInt8) : Bool := b == 32 || b == 13 || b == 10 || b == 9

def Blank (s : Str) : Prop := ∀ b ∈ s, isBlank b = true

instance (s : Str) : Decidable (Blank s) := List.decidableBAll _ s

theorem Blank.nil : Blank [] := fun _ h => absurd h List.not_mem_nil

/-! ## Strings -/

def isHex (b : UInt8) : Bool := (97 ≤ b && b ≤ 102) || (65 ≤ b && b ≤ 70) || isDigit b

def hexVal (b : UInt8) : ℕ := if isDigit b then b.toNat - 48 else if b < 97 then b.toNat - 55 else b.toNat - 87

/-- the byte that an escape other than `\u` stands for -/
def unescape (ch : UInt8) : Option UInt8 :=
  if ch = 98 then some 8
  else if ch = 102 then some 12
  else if ch = 110 then some 10
  else if ch = 114 then some 13
  else if ch = 116 then some 9
  else if ch = 34 ∨ ch = 92 ∨ ch = 47 then some ch
  else none

inductive Item where
  | raw (b : UInt8) (h : b ≠ 34 ∧ b ≠ 92 ∧ 0x1f < b)
  | escape (ch b : UInt8) (h : unescape ch = some b)
  | unit (a b c d : UInt8) (h : [a, b, c, d].all isHex = true)

/-- what an item stands for: a byte, or a code unit -/
inductive Piece where
  | byte (b : UInt8)
  | unit (n : ℕ)
deriving DecidableEq, Repr

namespace Item

def text : Item → Str
  | raw b _ => [b]
  | escape ch _ _ => [92, ch]
  | unit a b c d _ => [92, 117, a, b, c, d]

def piece : Item → Piece
  | raw b _ => .byte b
  | escape _ b _ => .byte b
  | unit a b c d _ => .unit ([a, b, c, d].foldl (fun v b => v * 16 + hexVal b) 0)

end Item

/-- UTF-8 of a code point; of a surrogate, the three bytes it would have -/
def utf8 (n : ℕ) : Str :=
  if n < 0x80 then [UInt8.ofNat n]
  else if n < 0x800 then [UInt8.ofNat (0xC0 + n / 64), UInt8.ofNat (0x80 + n % 64)]
  else if n < 0x10000 then
    [UInt8.ofNat (0xE0 + n / 4096), UInt8.ofNat (0x80 + n / 64 % 64), UInt8.ofNat (0x80 + n % 64)]
  else
    [UInt8.ofNat (0xF0 + n / 262144), UInt8.ofNat (0x80 + n / 4096 % 64), UInt8.ofNat (0x80 + n / 64 % 64),
      UInt8.ofNat (0x80 + n % 64)]

def isLead (n : ℕ) : Bool := 0xD800 ≤ n && n ≤ 0xDBFF

def isTrail (n : ℕ) : Bool := 0xDC00 ≤ n && n ≤ 0xDFFF

/-- the code point of a surrogate pair -/
def pairPoint (lead trail : ℕ) : ℕ := (lead - 0xD800) * 1024 + (trail - 0xDC00) + 0x10000

def decodePieces : List Piece → Str
  | [] => []
  | .byte b :: ps => b :: decodePieces ps
  | .unit n :: .unit m :: ps =>
    if isLead n && isTrail m then utf8 (pairPoint n m) ++ decodePieces ps
    else utf8 n ++ decodePieces (.unit m :: ps)
  | .unit n :: ps => utf8 n ++ decodePieces ps

theorem decodePieces_unit {n : ℕ} (h : isLead n = false) (ps : List Piece) :
    decodePieces (.unit n :: ps) = utf8 n ++ decodePieces ps := by
  cases ps with
  | nil => rfl
  | cons p ps => cases p <;> simp [decodePieces, h]

theorem decodePieces_pair {n m : ℕ} (h : isLead n = true) (h' : isTrail m = true) (ps : List Piece) :
    decodePieces (.unit n :: .unit m :: ps) = utf8 (pairPoint n m) ++ decodePieces ps := by
  simp [decodePieces, h, h']

/-- the bytes of a string -/
def decode (items : List Item) : Str := decodePieces (items.map Item.piece)

def quote (items : List Item) : Str := 34 :: items.flatMap Item.text ++ [34]

/-! ## Numbers -/

def Digits (ds : Str) : Prop := ds ≠ [] ∧ ∀ b ∈ ds, isDigit b = true

structure Number where
  neg : Bool
  int : Str
  frac : Option Str
  /-- the letter, the sign and the digits -/
  exp : Option (UInt8 × Option UInt8 × Str)
  int_ok : Digits int ∧ (int.head? = some 48 → int = [48])
  frac_ok : ∀ ds ∈ frac, Digits ds
  exp_ok : ∀ e ∈ exp, (e.1 = 101 ∨ e.1 = 69) ∧ (∀ b ∈ e.2.1, b = 43 ∨ b = 45) ∧ Digits e.2.2

namespace Number

def signText (n : Number) : Str := if n.neg then [45] else []

def fracText (n : Number) : Str := n.frac.elim [] fun ds => 46 :: ds

def expText (n : Number) : Str := n.exp.elim [] fun e => e.1 :: e.2.1.toList ++ e.2.2

def text (n : Number) : Str := n.signText ++ n.int ++ n.fracText ++ n.expText

def isInteger (n : Number) : Bool := n.frac.isNone && n.exp.isNone

def expValue (n : Number) : ℤ :=
  n.exp.elim 0 fun e => if e.2.1 = some 45 then -(decValue e.2.2 : ℤ) else decValue e.2.2

/-- the number without its sign -/
def mag (n : Number) : ℚ :=
  decValue (n.int ++ n.frac.getD []) * (10 : ℚ) ^ (n.expValue - (n.frac.getD []).length)

end Number

/-! ## Values -/

variable {A V σ : Type*}

/-- what each form of text means; reading a number may use the state and change it -/
structure Sem (V σ : Type*) where
  null : V
  bool : Bool → V
  string : Str → V
  number : Number → σ → V × σ
  array : List V → V
  object : List (Str × V) → V

/-- the state before, a text, what it says, the state after -/
abbrev Denotation (A σ : Type*) := σ → Str → A → σ → Prop

/-- between blanks -/
inductive Padded (D : Denotation A σ) : Denotation A σ
  | intro {w t w' : Str} {s s' : σ} {a : A} (hw : Blank w) (h : D s t a s') (hw' : Blank w') :
      Padded D s (w ++ t ++ w') a s'

/-- one or more, with commas between them -/
inductive Commas (D : Denotation A σ) : Denotation (List A) σ
  | one {t : Str} {s s' : σ} {a : A} (h : D s t a s') : Commas D s t [a] s'
  | cons {t u : Str} {s s' s'' : σ} {a : A} {as : List A} (h : D s t a s') (hs : Commas D s' u as s'') :
      Commas D s (t ++ 44 :: u) (a :: as) s''

/-- a name, a colon and a value -/
inductive Member (D : Denotation V σ) : Denotation (Str × V) σ
  | intro {w w' u : Str} {s s' : σ} {v : V} (hw : Blank w) (items : List Item) (hw' : Blank w')
      (h : Padded D s u v s') :
      Member D s (w ++ quote items ++ w' ++ 58 :: u) (decode items, v) s'

/-- a value, whose elements or members are values of D -/
inductive Node (sem : Sem V σ) (D : Denotation V σ) : Denotation V σ
  | null (s : σ) : Node sem D s (ascii "null") sem.null s
  | true (s : σ) : Node sem D s (ascii "true") (sem.bool Bool.true) s
  | false (s : σ) : Node sem D s (ascii "false") (sem.bool Bool.false) s
  | string (items : List Item) (s : σ) : Node sem D s (quote items) (sem.string (decode items)) s
  | number (n : Number) (s : σ) : Node sem D s n.text (sem.number n s).1 (sem.number n s).2
  | emptyArray {w : Str} (hw : Blank w) (s : σ) : Node sem D s (91 :: w ++ [93]) (sem.array []) s
  | array {t : Str} {vs : List V} {s s' : σ} (h : Commas (Padded D) s t vs s') :
      Node sem D s (91 :: t ++ [93]) (sem.array vs) s'
  | emptyObject {w : Str} (hw : Blank w) (s : σ) : Node sem D s (123 :: w ++ [125]) (sem.object []) s
  | object {t : Str} {ms : List (Str × V)} {s s' : σ} (h : Commas (Member D) s t ms s') :
      Node sem D s (123 :: t ++ [125]) (sem.object ms) s'

/-- values of at most n nested levels -/
def Value (sem : Sem V σ) : ℕ → Denotation V σ
  | 0 => fun _ _ _ _ => False
  | n + 1 => Node sem (Value sem n)

/-- items with a comma behind each -/
inductive Before (D : Denotation A σ) : Denotation (List A) σ
  | nil (s : σ) : Before D s [] [] s
  | cons {t u : Str} {s s' s'' : σ} {a : A} {as : List A} (h : D s t a s') (hs : Before D s' u as s'') :
      Before D s (t ++ 44 :: u) (a :: as) s''

/-- items with a comma before each -/
inductive Behind (D : Denotation A σ) : Denotation (List A) σ
  | nil (s : σ) : Behind D s [] [] s
  | cons {t u : Str} {s s' s'' : σ} {a : A} {as : List A} (h : D s t a s') (hs : Behind D s' u as s'') :
      Behind D s (44 :: t ++ u) (a :: as) s''

/-- what stands before the value of a member: the members before it, its name and the colon -/
def Opening (w : Str) (items : List Item) (w' w'' : Str) : Str := w ++ quote items ++ w' ++ 58 :: w''

/-- a text that breaks off where a value is due -/
inductive Due (sem : Sem V σ) : ℕ → Str → Prop
  | here (n : ℕ) : Due sem (n + 1) []
  | element {n : ℕ} {u w t : Str} {vs : List V} {s s' : σ} (hu : Before (Padded (Value sem n)) s u vs s')
      (hw : Blank w) (h : Due sem n t) : Due sem (n + 1) (91 :: u ++ w ++ t)
  | member {n : ℕ} {u w w' w'' t : Str} {ms : List (Str × V)} {s s' : σ} (hu : Before (Member (Value sem n)) s u ms s')
      (hw : Blank w) (items : List Item) (hw' : Blank w') (hw'' : Blank w'') (h : Due sem n t) :
      Due sem (n + 1) (123 :: u ++ Opening w items w' w'' ++ t)

/-- a document: a value between blanks -/
def Document (sem : Sem V σ) (n : ℕ) : Denotation V σ := Padded (Value sem n)

/-! ## More blanks -/

theorem Blank.append {w w' : Str} (h : Blank w) (h' : Blank w') : Blank (w ++ w') := fun b hb =>
  (List.mem_append.1 hb).elim (h b) (h' b)

theorem Padded.blank {D : Denotation A σ} {w : Str} (hw : Blank w) {s s' : σ} {t : Str} {a : A}
    (h : Padded D s t a s') : Padded D s (w ++ t) a s' := by
  obtain ⟨hw1, h, hw2⟩ := h
  rw [← List.append_assoc, ← List.append_assoc]
  exact ⟨hw.append hw1, h, hw2⟩

theorem Member.blank {D : Denotation V σ} {w : Str} (hw : Blank w) {s s' : σ} {t : Str} {m : Str × V}
    (h : Member D s t m s') : Member D s (w ++ t) m s' := by
  obtain ⟨hw1, items, hw2, h⟩ := h
  rw [← List.append_assoc, ← List.append_assoc, ← List.append_assoc]
  exact ⟨hw.append hw1, items, hw2, h⟩

theorem Commas.blank {D : Denotation A σ} {w : Str} (hD : ∀ {s t a s'}, D s t a s' → D s (w ++ t) a s') {s s' : σ}
    {t : Str} {as : List A} (h : Commas D s t as s') : Commas D s (w ++ t) as s' := by
  cases h with
  | one h => exact .one (hD h)
  | cons h hs =>
    rw [← List.append_assoc]
    exact .cons (hD h) hs

/-! ## More levels -/

section
variable {sem : Sem V σ}

theorem Padded.mono {D D' : Denotation A σ} (hD : ∀ s t a s', D s t a s' → D' s t a s') {s s' : σ} {t : Str} {a : A}
    (h : Padded D s t a s') : Padded D' s t a s' := by
  obtain ⟨hw, h, hw'⟩ := h
  exact ⟨hw, hD _ _ _ _ h, hw'⟩

theorem Commas.mono {D D' : Denotation A σ} (hD : ∀ s t a s', D s t a s' → D' s t a s') {s s' : σ} {t : Str}
    {as : List A} (h : Commas D s t as s') : Commas D' s t as s' := by
  induction h with
  | one h => exact .one (hD _ _ _ _ h)
  | cons h _ ih => exact .cons (hD _ _ _ _ h) ih

theorem Member.mono {D D' : Denotation V σ} (hD : ∀ s t v s', D s t v s' → D' s t v s') {s s' : σ} {t : Str}
    {m : Str × V} (h : Member D s t m s') : Member D' s t m s' := by
  obtain ⟨hw, items, hw', h⟩ := h
  exact ⟨hw, items, hw', h.mono hD⟩

theorem Node.mono {D D' : Denotation V σ} (hD : ∀ s t v s', D s t v s' → D' s t v s') {s s' : σ} {t : Str} {v : V}
    (h : Node sem D s t v s') : Node sem D' s t v s' := by
  cases h with
  | null => exact .null s
  | true => exact .true s
  | false => exact .false s
  | string items => exact .string items s
  | number n => exact .number n s
  | emptyArray hw => exact .emptyArray hw s
  | array h => exact .array (h.mono fun _ _ _ _ => Padded.mono hD)
  | emptyObject hw => exact .emptyObject hw s
  | object h => exact .object (h.mono fun _ _ _ _ => Member.mono hD)

theorem Value.mono {n m : ℕ} (hnm : n ≤ m) {s s' : σ} {t : Str} {v : V} (h : Value sem n s t v s') :
    Value sem m s t v s' := by
  induction n generalizing m s t v s' with
  | zero => exact h.elim
  | succ n ih =>
    obtain ⟨m, rfl⟩ := Nat.exists_eq_add_of_le' (Nat.le_trans (Nat.succ_le_succ (Nat.zero_le n)) hnm)
    exact Node.mono (fun _ _ _ _ => ih (Nat.le_of_succ_le_succ hnm)) h

/-! ## Any state -/

/-- whether a text is one of D does not depend on the state, nor does f of what it says -/
def StateFree {B : Type*} (f : A → B) (D : Denotation A σ) : Prop :=
  ∀ s t a s', D s t a s' → ∀ r, ∃ a' r', D r t a' r' ∧ f a' = f a

section
variable {B : Type*} {f : A → B} {D : Denotation A σ}

theorem StateFree.padded (hD : StateFree f D) : StateFree f (Padded D) := by
  rintro s t a s' ⟨hw, h, hw'⟩ r
  obtain ⟨a', r', h', heq⟩ := hD _ _ _ _ h r
  exact ⟨a', r', ⟨hw, h', hw'⟩, heq⟩

/-- a member keeps its name -/
theorem StateFree.member (hD : StateFree f D) : StateFree Prod.fst (Member D) := by
  rintro s t m s' ⟨hw, items, hw', h⟩ r
  obtain ⟨v', r', h', -⟩ := hD.padded _ _ _ _ h r
  exact ⟨_, r', ⟨hw, items, hw', h'⟩, rfl⟩

theorem StateFree.commas (hD : StateFree f D) : StateFree (List.map f) (Commas D) := by
  intro s t as s' h
  induction h with
  | one h =>
    intro r
    obtain ⟨a', r', h', heq⟩ := hD _ _ _ _ h r
    exact ⟨[a'], r', .one h', by simp [heq]⟩
  | cons h _ ih =>
    intro r
    obtain ⟨a', r', h', heq⟩ := hD _ _ _ _ h r
    obtain ⟨as', r'', hs', heqs⟩ := ih r'
    exact ⟨a' :: as', r'', .cons h' hs', by simp [heq, heqs]⟩

theorem StateFree.before (hD : StateFree f D) : StateFree (List.map f) (Before D) := by
  intro s t as s' h
  induction h with
  | nil => exact fun r => ⟨[], r, .nil r, rfl⟩
  | cons h _ ih =>
    intro r
    obtain ⟨a', r', h', heq⟩ := hD _ _ _ _ h r
    obtain ⟨as', r'', hs', heqs⟩ := ih r'
    exact ⟨a' :: as', r'', .cons h' hs', by simp [heq, heqs]⟩

theorem StateFree.behind (hD : StateFree f D) : StateFree (List.map f) (Behind D) := by
  intro s t as s' h
  induction h with
  | nil => exact fun r => ⟨[], r, .nil r, rfl⟩
  | cons h _ ih =>
    intro r
    obtain ⟨a', r', h', heq⟩ := hD _ _ _ _ h r
    obtain ⟨as', r'', hs', heqs⟩ := ih r'
    exact ⟨a' :: as', r'', .cons h' hs', by simp [heq, heqs]⟩

end

theorem stateFree_node {D : Denotation V σ} (hD : StateFree (fun _ => ()) D) :
    StateFree (fun _ => ()) (Node sem D) := by
  intro s t v s' h r
  cases h with
  | null => exact ⟨_, _, .null r, rfl⟩
  | true => exact ⟨_, _, .true r, rfl⟩
  | false => exact ⟨_, _, .false r, rfl⟩
  | string items => exact ⟨_, _, .string items r, rfl⟩
  | number n => exact ⟨_, _, .number n r, rfl⟩
  | emptyArray hw => exact ⟨_, _, .emptyArray hw r, rfl⟩
  | array h =>
    obtain ⟨vs, r', h', -⟩ := hD.padded.commas _ _ _ _ h r
    exact ⟨_, _, .array h', rfl⟩
  | emptyObject hw => exact ⟨_, _, .emptyObject hw r, rfl⟩
  | object h =>
    obtain ⟨ms, r', h', -⟩ := hD.member.commas _ _ _ _ h r
    exact ⟨_, _, .object h', rfl⟩

/-- **Whether a text is one** does not depend on the state. -/
theorem stateFree_value (n : ℕ) : StateFree (fun _ => ()) (Value sem n) := by
  induction n with
  | zero => exact fun _ _ _ _ h => h.elim
  | succ n ih => exact stateFree_node ih

/-! ## An item between others -/

theorem Behind.commas {D : Denotation A σ} {s s' s'' : σ} {t u : Str} {a : A} {as : List A}
    (h : Behind D s' u as s'') (ht : D s t a s') : Commas D s (t ++ u) (a :: as) s'' := by
  induction h generalizing s t a with
  | nil =>
    rw [List.append_nil]
    exact .one ht
  | cons h _ ih => exact .cons ht (ih h)

theorem Before.commas {D : Denotation A σ} {s s1 s2 s' : σ} {u t u' : Str} {as bs : List A} {a : A}
    (h : Before D s u as s1) (ht : D s1 t a s2) (h' : Behind D s2 u' bs s') :
    Commas D s (u ++ (t ++ u')) (as ++ a :: bs) s' := by
  induction h with
  | nil =>
    rw [List.nil_append, List.nil_append]
    exact h'.commas ht
  | cons h _ ih =>
    rw [List.append_assoc]
    exact .cons h (ih ht)

/-! ## How a text begins -/

/-- neither blank nor a closing bracket -/
def Starts (t : Str) : Prop := ∃ ch rest, t = ch :: rest ∧ isBlank ch = false ∧ ch ≠ 93

theorem Number.starts (n : Number) : ∃ ch rest, n.text = ch :: rest ∧ (ch = 45 ∨ isDigit ch = true) := by
  obtain ⟨⟨hne, hd⟩, -⟩ := n.int_ok
  obtain ⟨b, ds, hint⟩ := List.exists_cons_of_ne_nil hne
  cases hneg : n.neg with
  | true => exact ⟨45, n.int ++ n.fracText ++ n.expText, by simp [text, signText, hneg], .inl rfl⟩
  | false =>
    exact ⟨b, ds ++ n.fracText ++ n.expText, by simp [text, signText, hneg, hint], .inr (hd b (by simp [hint]))⟩

theorem not_blank_of_number {ch : UInt8} (h : ch = 45 ∨ isDigit ch = true) : isBlank ch = false ∧ ch ≠ 93 := by
  rcases h with rfl | h
  · decide
  · have hne : ch ≠ 32 ∧ ch ≠ 13 ∧ ch ≠ 10 ∧ ch ≠ 9 ∧ ch ≠ 93 := by
      refine ⟨?_, ?_, ?_, ?_, ?_⟩ <;> rintro rfl <;> exact absurd h (by decide)
    simp [isBlank, hne]

theorem Node.starts {D : Denotation V σ} {s s' : σ} {t : Str} {v : V} (h : Node sem D s t v s') : Starts t := by
  cases h with
  | null => exact ⟨110, ascii "ull", rfl, rfl, by decide⟩
  | true => exact ⟨116, ascii "rue", rfl, rfl, by decide⟩
  | false => exact ⟨102, ascii "alse", rfl, rfl, by decide⟩
  | string items => exact ⟨34, _, rfl, rfl, by decide⟩
  | number n =>
    obtain ⟨ch, rest, htext, hch⟩ := n.starts
    exact ⟨ch, rest, htext, not_blank_of_number hch⟩
  | emptyArray | array => exact ⟨91, _, rfl, rfl, by decide⟩
  | emptyObject | object => exact ⟨123, _, rfl, rfl, by decide⟩

theorem Value.starts {n : ℕ} {s s' : σ} {t : Str} {v : V} (h : Value sem n s t v s') : Starts t := by
  cases n with
  | zero => exact h.elim
  | succ n => exact Node.starts h

/-- behind blanks, a byte with P -/
def Begins (P : UInt8 → Prop) (t : Str) : Prop := ∃ w ch rest, Blank w ∧ t = w ++ ch :: rest ∧ isBlank ch = false ∧ P ch

theorem Padded.begins {D : Denotation A σ} (hD : ∀ {s t a s'}, D s t a s' → Starts t) {s s' : σ} {t : Str} {a : A}
    (h : Padded D s t a s') : Begins (· ≠ 93) t := by
  obtain @⟨w, t, w', _, _, _, hw, h, -⟩ := h
  obtain ⟨ch, rest, rfl, hch, h93⟩ := hD h
  exact ⟨w, ch, rest ++ w', hw, by simp, hch, h93⟩

theorem Member.begins {D : Denotation V σ} {s s' : σ} {t : Str} {m : Str × V} (h : Member D s t m s') :
    Begins (· = 34) t := by
  obtain @⟨w, w', u, _, _, _, hw, items, -, -⟩ := h
  exact ⟨w, 34, items.flatMap Item.text ++ 34 :: (w' ++ 58 :: u), hw, by simp [quote], rfl, rfl⟩

theorem Commas.length_le {D : Denotation A σ} {s s' : σ} {t : Str} {as : List A} (h : Commas D s t as s') :
    as.length ≤ t.length + 1 := by
  induction h with
  | one => simp
  | cons _ _ ih => simp only [List.length_cons, List.length_append]; omega

theorem Commas.forall {D : Denotation A σ} {P : A → Prop} {s s' : σ} {t : Str} {as : List A} (h : Commas D s t as s')
    (hD : ∀ {s t a s'}, D s t a s' → P a) : ∀ a ∈ as, P a := by
  induction h with
  | one h => exact fun a ha => List.mem_singleton.1 ha ▸ hD h
  | cons h _ ih => exact List.forall_mem_cons.2 ⟨hD h, ih⟩

/-- how a list begins, and how many it has -/
theorem Commas.begins {D : Denotation A σ} {P : UInt8 → Prop} (hD : ∀ {s t a s'}, D s t a s' → Begins P t) {s s' : σ}
    {t : Str} {as : List A} (h : Commas D s t as s') :
    ∃ w ch rest, Blank w ∧ t = w ++ ch :: rest ∧ isBlank ch = false ∧ P ch ∧ as.length ≤ rest.length + 1 := by
  cases h with
  | one h =>
    obtain ⟨w, ch, rest, hw, rfl, hch, hP⟩ := hD h
    exact ⟨w, ch, rest, hw, rfl, hch, hP, by simp⟩
  | @cons _ u _ _ _ _ as h hs =>
    obtain ⟨w, ch, rest, hw, rfl, hch, hP⟩ := hD h
    refine ⟨w, ch, rest ++ 44 :: u, hw, by simp, hch, hP, ?_⟩
    have hlen := hs.length_le
    simp only [List.length_cons, List.length_append]
    omega

theorem Before.length_le {D : Denotation A σ} {s s' : σ} {u : Str} {as : List A} (h : Before D s u as s') :
    as.length ≤ u.length := by
  induction h with
  | nil => exact le_rfl
  | cons _ _ ih => simp only [List.length_cons, List.length_append]; omega

/-- how the items before something begin, and how many they are -/
theorem Before.begins {D : Denotation A σ} {P : UInt8 → Prop} (hD : ∀ {s t a s'}, D s t a s' → Begins P t) {s s' : σ}
    {u x : Str} {as : List A} (h : Before D s u as s') (hx : Begins P x) :
    ∃ w ch rest, Blank w ∧ u ++ x = w ++ ch :: rest ∧ isBlank ch = false ∧ P ch ∧ as.length ≤ rest.length := by
  cases h with
  | nil =>
    obtain ⟨w, ch, rest, hw, rfl, hch, hP⟩ := hx
    exact ⟨w, ch, rest, hw, rfl, hch, hP, Nat.zero_le _⟩
  | @cons t u _ _ _ _ as h hs =>
    obtain ⟨w, ch, rest, hw, rfl, hch, hP⟩ := hD h
    refine ⟨w, ch, rest ++ 44 :: (u ++ x), hw, by simp, hch, hP, ?_⟩
    have hlen := hs.length_le
    simp only [List.length_cons, List.length_append]
    omega

/-- a value that is due begins as one -/
theorem Due.starts {n : ℕ} {t : Str} (h : Due sem n t) (num : Number) (tail : Str) :
    Starts (t ++ (num.text ++ tail)) := by
  cases h with
  | here =>
    obtain ⟨ch, rest, htext, hch⟩ := num.starts
    exact ⟨ch, rest ++ tail, by simp [htext], not_blank_of_number hch⟩
  | element => exact ⟨91, _, rfl, rfl, by decide⟩
  | member => exact ⟨123, _, rfl, rfl, by decide⟩

theorem Opening.begins {w : Str} (hw : Blank w) (items : List Item) (w' w'' x : Str) :
    Begins (· = 34) (Opening w items w' w'' ++ x) :=
  ⟨w, 34, items.flatMap Item.text ++ 34 :: (w' ++ 58 :: (w'' ++ x)), hw, by simp [Opening, quote], rfl, rfl⟩

end

end AirobotMsgd.JsonText
