/-
A list read as a ring, from an index on.

- `Nearest l p i a`: a is the first entry with the property p from index i on, once around.
- `find?_rotate_iff`, `find?_rotate_eq_none`: it is what a search of the rotated list finds; nothing is found where no
  entry has the property.
- `drop_rotate`: what is left of a turn begins with the next index.
-/
import Mathlib.Data.List.Rotate
import Mathlib.Tactic

namespace AirobotMsgd.Ring

variable {α : Type*}

/-- of the entries with the property, a is the one the fewest steps ahead of index i -/
def Nearest (l : List α) (p : α → Bool) (i : ℕ) (a : α) : Prop :=
  ∃ d < l.length, l[(i + d) % l.length]? = some a ∧ p a = true ∧
    ∀ e < d, ∀ b, l[(i + e) % l.length]? = some b → p b = false

theorem find?_rotate_iff {l : List α} {p : α → Bool} {i : ℕ} {a : α} :
    (l.rotate i).find? p = some a ↔ Nearest l p i a := by
  have hget : ∀ d < l.length, (l.rotate i)[d]? = l[(i + d) % l.length]? := by
    intro d hd
    rw [List.getElem?_rotate hd, add_comm]
  rw [List.find?_eq_some_iff_getElem]
  constructor
  · rintro ⟨hp, d, hd, ha, hbefore⟩
    rw [List.length_rotate] at hd
    refine ⟨d, hd, ?_, hp, ?_⟩
    · rw [← hget d hd, List.getElem?_eq_getElem (by rw [List.length_rotate]; exact hd), ha]
    · intro e he b hb
      have hlt : e < (l.rotate i).length := by
        rw [List.length_rotate]
        exact he.trans hd
      rw [← hget e (he.trans hd), List.getElem?_eq_getElem hlt, Option.some.injEq] at hb
      have hno := hbefore e he
      rw [hb] at hno
      simpa using hno
  · rintro ⟨d, hd, ha, hp, hbefore⟩
    have hlt : d < (l.rotate i).length := by rwa [List.length_rotate]
    rw [← hget d hd, List.getElem?_eq_getElem hlt, Option.some.injEq] at ha
    refine ⟨hp, d, hlt, ha, ?_⟩
    intro e he
    have hlt' : e < l.length := he.trans hd
    have hno := hbefore e he (l.rotate i)[e] (by
      rw [← hget e hlt']
      exact List.getElem?_eq_getElem _)
    simpa using hno

theorem find?_rotate_eq_none {l : List α} {p : α → Bool} {i : ℕ} :
    (l.rotate i).find? p = none ↔ ∀ a ∈ l, p a = false := by
  simp only [List.find?_eq_none, List.mem_rotate, Bool.not_eq_true]

/-- the rest of a turn after k of its entries -/
theorem drop_rotate {l : List α} {i k : ℕ} (hk : k < l.length) :
    ∃ a, l[(i + k) % l.length]? = some a ∧ (l.rotate i).drop k = a :: (l.rotate i).drop (k + 1) := by
  have hlt : k < (l.rotate i).length := by rwa [List.length_rotate]
  refine ⟨(l.rotate i)[k], ?_, List.drop_eq_getElem_cons hlt⟩
  rw [add_comm, ← List.getElem?_rotate hk]
  exact List.getElem?_eq_getElem hlt

end AirobotMsgd.Ring
