/-
Lexicographic comparison of nested values, by their codes.

A value is written as a list of tokens. `Codes x y less same more`: whatever stands behind them, the codes x and y compare
as the values do. Codes of parts are put behind one another (`Codes.append`, `Codes.list`), so the comparison of a whole
is followed from that of its parts; and the tokens being in a linear order, so are the values (`Codes.lt_iff`,
`Codes.eq_iff`).
-/
import Mathlib.Data.List.Lex
import Mathlib.Tactic

namespace AirobotMsgd.Lexicographic

variable {κ : Type*} [LinearOrder κ]

structure Codes (x y : List κ) (less same more : Prop) : Prop where
  lt : ∀ s t, x ++ s < y ++ t ↔ less ∨ same ∧ s < t
  gt : ∀ s t, y ++ t < x ++ s ↔ more ∨ same ∧ t < s
  eq : ∀ s t, x ++ s = y ++ t ↔ same ∧ s = t

section
variable {x y x' y' : List κ} {less same more less' same' more' : Prop}

theorem Codes.lt_iff (h : Codes x y less same more) : less ↔ x < y := by
  simpa using (h.lt [] []).symm

theorem Codes.gt_iff (h : Codes x y less same more) : more ↔ y < x := by
  simpa using (h.gt [] []).symm

theorem Codes.eq_iff (h : Codes x y less same more) : same ↔ x = y := by
  simpa using (h.eq [] []).symm

/-- not less and not more is the same -/
theorem Codes.not_more (h : Codes x y less same more) : ¬ more ↔ less ∨ same := by
  rw [h.gt_iff, h.lt_iff, h.eq_iff, not_lt, le_iff_lt_or_eq]

theorem Codes.not_less (h : Codes x y less same more) : ¬ less ↔ more ∨ same := by
  rw [h.gt_iff, h.lt_iff, h.eq_iff, not_lt, le_iff_lt_or_eq, eq_comm (a := y)]

/-- a test that is the same as one of the three -/
theorem Codes.congr (h : Codes x y less same more) (hl : less' ↔ less) (hs : same' ↔ same) (hm : more' ↔ more) :
    Codes x y less' same' more' := by
  rwa [propext hl, propext hs, propext hm]

theorem Codes.token (a b : κ) : Codes [a] [b] (a < b) (a = b) (b < a) where
  lt s t := by simp [List.cons_lt_cons_iff]
  gt s t := by simp [List.cons_lt_cons_iff, eq_comm]
  eq s t := by simp

theorem Codes.nil : Codes ([] : List κ) [] False True False where
  lt s t := by simp
  gt s t := by simp
  eq s t := by simp

theorem Codes.cons (h : Codes x y less same more) (a : κ) : Codes (a :: x) (a :: y) less same more where
  lt s t := by simpa [List.cons_lt_cons_iff] using h.lt s t
  gt s t := by simpa [List.cons_lt_cons_iff] using h.gt s t
  eq s t := by simpa using h.eq s t

/-- the second parts decide where the first ones are the same -/
theorem Codes.append (h : Codes x y less same more) (h' : Codes x' y' less' same' more') :
    Codes (x ++ x') (y ++ y') (less ∨ same ∧ less') (same ∧ same') (more ∨ same ∧ more') where
  lt s t := by
    rw [List.append_assoc, List.append_assoc, h.lt, h'.lt]
    tauto
  gt s t := by
    rw [List.append_assoc, List.append_assoc, h.gt, h'.gt]
    tauto
  eq s t := by
    rw [List.append_assoc, List.append_assoc, h.eq, h'.eq]
    tauto

/-- behind different tokens nothing counts -/
theorem Codes.of_lt {a b : κ} (h : a < b) (x y : List κ) : Codes (a :: x) (b :: y) True False False where
  lt s t := by simp [List.cons_lt_cons_iff, h]
  gt s t := by simp [List.cons_lt_cons_iff, h.not_gt, h.ne']
  eq s t := by simp [h.ne]

theorem Codes.of_gt {a b : κ} (h : b < a) (x y : List κ) : Codes (a :: x) (b :: y) False False True where
  lt s t := by simp [List.cons_lt_cons_iff, h.not_gt, h.ne']
  gt s t := by simp [List.cons_lt_cons_iff, h]
  eq s t := by simp [h.ne']

end

/-! ## Lists -/

section
variable {α : Type*}

/-- `std::lexicographical_compare` -/
def listLess (less : α → α → Bool) : List α → List α → Bool
  | _, [] => false
  | [], _ :: _ => true
  | a :: l, b :: m => less a b || (!less b a && listLess less l m)

/-- `operator==` of containers -/
def listSame (same : α → α → Bool) : List α → List α → Bool
  | [], [] => true
  | a :: l, b :: m => same a b && listSame same l m
  | _, _ => false

/-- every element behind a token that says that there is one -/
def listCode (stop go : κ) (code : α → List κ) : List α → List κ
  | [] => [stop]
  | a :: l => go :: code a ++ listCode stop go code l

theorem Codes.list {stop go : κ} (hgo : stop < go) {code : α → List κ} {less same : α → α → Bool} {l m : List α}
    (h : ∀ a ∈ l, ∀ b ∈ m, Codes (code a) (code b) (less a b = true) (same a b = true) (less b a = true)) :
    Codes (listCode stop go code l) (listCode stop go code m) (listLess less l m = true) (listSame same l m = true)
      (listLess less m l = true) := by
  induction l generalizing m with
  | nil =>
    cases m with
    | nil => exact (Codes.nil.cons stop).congr (by simp [listLess]) (by simp [listSame]) (by simp [listLess])
    | cons b m => exact (Codes.of_lt hgo _ _).congr (by simp [listLess]) (by simp [listSame]) (by simp [listLess])
  | cons a l ih =>
    cases m with
    | nil => exact (Codes.of_gt hgo _ _).congr (by simp [listLess]) (by simp [listSame]) (by simp [listLess])
    | cons b m =>
      have hhead := h a List.mem_cons_self b List.mem_cons_self
      have htail := ih (m := m) fun a' ha b' hb => h a' (List.mem_cons_of_mem a ha) b' (List.mem_cons_of_mem b hb)
      have hnot := hhead.not_more
      have hnot' := hhead.not_less
      refine ((hhead.append htail).cons go).congr ?_ ?_ ?_
      · simp only [listLess, Bool.or_eq_true, Bool.and_eq_true, Bool.not_eq_true', ← Bool.not_eq_true]
        tauto
      · simp only [listSame, Bool.and_eq_true]
      · simp only [listLess, Bool.or_eq_true, Bool.and_eq_true, Bool.not_eq_true', ← Bool.not_eq_true]
        tauto

/-- the order of lists is `std::lexicographical_compare` of their elements -/
theorem listLess_iff [LT α] [DecidableLT α] (hasymm : ∀ a b : α, a < b → ¬ b < a)
    (htri : ∀ a b : α, ¬ a < b → ¬ b < a → a = b) {l m : List α} :
    listLess (fun a b => decide (a < b)) l m = true ↔ l < m := by
  induction l generalizing m with
  | nil => cases m <;> simp [listLess]
  | cons a l ih =>
    cases m with
    | nil => simp [listLess]
    | cons b m =>
      simp only [listLess, Bool.or_eq_true, Bool.and_eq_true, Bool.not_eq_true', decide_eq_true_eq,
        decide_eq_false_iff_not, List.cons_lt_cons_iff, ih]
      constructor
      · rintro (hlt | ⟨hle, hlt⟩)
        · exact .inl hlt
        · by_cases hab : a < b
          · exact .inl hab
          · exact .inr ⟨htri a b hab hle, hlt⟩
      · rintro (hlt | ⟨rfl, hlt⟩)
        · exact .inl hlt
        · exact .inr ⟨fun h => hasymm a a h h, hlt⟩

theorem listSame_iff [DecidableEq α] {l m : List α} : listSame (fun a b => decide (a = b)) l m = true ↔ l = m := by
  induction l generalizing m with
  | nil => cases m <;> simp [listSame]
  | cons a l ih => cases m <;> simp [listSame, ih]

end

end AirobotMsgd.Lexicographic
