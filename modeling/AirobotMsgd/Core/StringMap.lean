/-
A `std::map` with string keys that is filled by `insert` and read by a scan for the first key with a property. `insert`
keeps the value a key has, so a key has its first value; the scan runs in the order of the keys, so it finds the least
key with the property.

- `insertAll m es`: the map after the insertions es, in this order.
- `scan p es`: the entry such a read finds, read off the insertions. `find_insertAll`: so it is.
- `scan_eq_some`: among the entries whose keys have the property it is the first one with the least key (`FirstLeast`).
- `reads_iff`: when the read of a map gives a certain value (`Reads`).
-/
import AirobotMsgd.Core.Bytes

namespace AirobotMsgd.StringMap

open AirobotMsgd.Bytes

variable {β : Type*}

def insertAll (m es : List (Str × β)) : List (Str × β) := es.foldl (fun m e => mapInsert e.1 e.2 m) m

/-- the entries are in the order of their keys, and no two have one key -/
def Sorted (m : List (Str × β)) : Prop := m.Pairwise fun e e' => e.1 < e'.1

/-- the entry with the lesser key, and of two with one key the left one -/
def lesser : Option (Str × β) → Option (Str × β) → Option (Str × β)
  | none, w => w
  | some e, none => some e
  | some e, some w => if w.1 < e.1 then some w else some e

def scan (p : Str → Bool) : List (Str × β) → Option (Str × β)
  | [] => none
  | e :: es => if p e.1 then lesser (some e) (scan p es) else scan p es

@[simp] theorem lesser_none (w : Option (Str × β)) : lesser w none = w := by
  cases w <;> rfl

@[simp] theorem none_lesser (w : Option (Str × β)) : lesser none w = w := rfl

theorem lesser_some (e w : Str × β) : lesser (some e) (some w) = if w.1 < e.1 then some w else some e := rfl

theorem lesser_assoc (a b c : Option (Str × β)) : lesser (lesser a b) c = lesser a (lesser b c) := by
  cases a <;> cases b <;> cases c <;> simp only [lesser]
  · split_ifs <;> rfl
  · grind [lesser]

/-! ## The map -/

theorem mem_mapInsert {k : Str} {v : β} {m : List (Str × β)} {e : Str × β} (h : e ∈ mapInsert k v m) :
    e = (k, v) ∨ e ∈ m := by
  induction m with
  | nil => exact .inl (List.mem_singleton.1 h)
  | cons d m ih =>
    unfold mapInsert at h
    split_ifs at h
    · exact .inr h
    · exact List.mem_cons.1 h
    · rcases List.mem_cons.1 h with rfl | h
      · exact .inr List.mem_cons_self
      · exact (ih h).imp_right (List.mem_cons_of_mem d)

theorem mapInsert_sorted {m : List (Str × β)} (h : Sorted m) (k : Str) (v : β) : Sorted (mapInsert k v m) := by
  induction m with
  | nil => exact List.pairwise_singleton _ _
  | cons d m ih =>
    obtain ⟨hd, hm⟩ := List.pairwise_cons.1 h
    unfold mapInsert
    split_ifs with heq hlt
    · exact h
    · refine List.pairwise_cons.2 ⟨?_, h⟩
      intro e he
      rcases List.mem_cons.1 he with rfl | he
      · exact hlt
      · exact List.lt_trans hlt (hd e he)
    · refine List.pairwise_cons.2 ⟨?_, ih hm⟩
      intro e he
      rcases mem_mapInsert he with rfl | he
      · -- the new key is neither this one nor less
        grind
      · exact hd e he

theorem find_cons (p : Str → Bool) (e : Str × β) (m : List (Str × β)) :
    (e :: m).find? (fun e => p e.1) = if p e.1 then some e else m.find? fun e => p e.1 := by
  cases h : p e.1 <;> simp [h]

/-- an insertion, seen by a scan -/
theorem find_mapInsert {m : List (Str × β)} (h : Sorted m) (p : Str → Bool) (k : Str) (v : β) :
    (mapInsert k v m).find? (fun e => p e.1) =
      if p k then lesser (m.find? fun e => p e.1) (some (k, v)) else m.find? fun e => p e.1 := by
  induction m with
  | nil => cases hp : p k <;> simp [mapInsert, hp]
  | cons d m ih =>
    obtain ⟨hd, hm⟩ := List.pairwise_cons.1 h
    by_cases heq : k = d.1
    · -- the key is there, and the entry stays
      rw [mapInsert, if_pos heq]
      subst heq
      split_ifs with hk
      · rw [find_cons, if_pos hk, lesser_some, if_neg (List.lt_irrefl _)]
      · rfl
    by_cases hlt : k < d.1
    · rw [mapInsert, if_neg heq, if_pos hlt]
      split_ifs with hk
      · rw [find_cons, if_pos hk]
        cases hf : (d :: m).find? fun e => p e.1 with
        | none => rfl
        | some w =>
          -- every other key is greater
          have hw : k < w.1 := by
            rcases List.mem_cons.1 (List.mem_of_find?_eq_some hf) with rfl | hw
            · exact hlt
            · exact List.lt_trans hlt (hd w hw)
          rw [lesser_some, if_pos hw]
      · rw [find_cons p (k, v), if_neg hk]
    · rw [mapInsert, if_neg heq, if_neg hlt]
      cases hpd : p d.1 with
      | true =>
        rw [find_cons, find_cons, if_pos hpd, if_pos hpd, lesser_some, if_neg hlt, ite_self]
      | false =>
        have hneg : ¬ p d.1 = true := by simp [hpd]
        rw [find_cons, find_cons, if_neg hneg, if_neg hneg, ih hm]

theorem mapFind_cons (k : Str) (e : Str × β) (m : List (Str × β)) :
    mapFind k (e :: m) = if e.1 = k then some e.2 else mapFind k m := by
  unfold mapFind
  rw [List.find?_cons]
  by_cases h : e.1 = k <;> simp [h]

/-- an assignment, seen by a look-up -/
theorem mapFind_mapAssign (k k' : Str) (v : β) (m : List (Str × β)) :
    mapFind k (mapAssign k' v m) = if k' = k then some v else mapFind k m := by
  induction m with
  | nil => exact mapFind_cons k (k', v) []
  | cons e m ih =>
    by_cases heq : k' = e.1
    · rw [mapAssign, if_pos heq, mapFind_cons, mapFind_cons, ← heq]
      by_cases hk : k' = k
      · rw [if_pos hk, if_pos hk]
      · rw [if_neg hk, if_neg hk, if_neg hk]
    by_cases hlt : k' < e.1
    · rw [mapAssign, if_neg heq, if_pos hlt, mapFind_cons]
    · rw [mapAssign, if_neg heq, if_neg hlt, mapFind_cons, mapFind_cons k e, ih]
      by_cases hk : k' = k
      · rw [if_pos hk, if_pos hk, if_neg fun h => heq (hk.trans h.symm)]
      · rw [if_neg hk, if_neg hk]

/-- **What a scan of the map finds**, read off the insertions. -/
theorem find_insertAll {m : List (Str × β)} (h : Sorted m) (p : Str → Bool) (es : List (Str × β)) :
    (insertAll m es).find? (fun e => p e.1) = lesser (m.find? fun e => p e.1) (scan p es) := by
  induction es generalizing m with
  | nil => simp [insertAll, scan]
  | cons e es ih =>
    have hih := ih (mapInsert_sorted h e.1 e.2)
    rw [find_mapInsert h] at hih
    rw [insertAll, List.foldl_cons, ← insertAll, hih, scan]
    split_ifs
    · rw [lesser_assoc]
    · rfl

theorem insertAll_append (m as bs : List (Str × β)) : insertAll m (as ++ bs) = insertAll (insertAll m as) bs :=
  List.foldl_append

/-! ## The entry that is read -/

theorem scan_append (p : Str → Bool) (as bs : List (Str × β)) :
    scan p (as ++ bs) = lesser (scan p as) (scan p bs) := by
  induction as with
  | nil => rfl
  | cons e as ih =>
    rw [List.cons_append, scan, scan, ih]
    split_ifs
    · rw [lesser_assoc]
    · rfl

theorem scan_congr {p : Str → Bool} {as bs : List (Str × β)}
    (h : as.filter (fun e => p e.1) = bs.filter fun e => p e.1) : scan p as = scan p bs := by
  have hfilter : ∀ es : List (Str × β), scan p es = scan p (es.filter fun e => p e.1) := by
    intro es
    induction es with
    | nil => rfl
    | cons e es ih => cases hp : p e.1 <;> simp [scan, hp, ih]
  rw [hfilter, h, ← hfilter]

theorem scan_eq_none {p : Str → Bool} {es : List (Str × β)} : scan p es = none ↔ ∀ e ∈ es, p e.1 = false := by
  induction es with
  | nil => simp [scan]
  | cons e es ih =>
    rw [scan, List.forall_mem_cons, ← ih]
    cases hp : p e.1 with
    | false => simp
    | true =>
      cases scan p es with
      | none => simp [lesser]
      | some w => simp [lesser]; split_ifs <;> simp

/-- e is the first of the entries with the least key that has the property -/
def FirstLeast (p : Str → Bool) (es : List (Str × β)) (e : Str × β) : Prop :=
  ∃ before after, es = before ++ e :: after ∧ p e.1 = true ∧ (∀ d ∈ before, p d.1 = true → e.1 < d.1) ∧
    ∀ d ∈ after, p d.1 = true → e.1 ≤ d.1

theorem firstLeast_of_scan {p : Str → Bool} {es : List (Str × β)} {e : Str × β} (h : scan p es = some e) :
    FirstLeast p es e := by
  induction es generalizing e with
  | nil => exact absurd h (by simp [scan])
  | cons d es ih =>
    rw [scan] at h
    split_ifs at h with hd
    · cases hs : scan p es with
      | none =>
        obtain rfl : d = e := by simpa [hs] using h
        refine ⟨[], es, rfl, hd, by simp, ?_⟩
        intro a ha hpa
        exact absurd hpa (by simp [scan_eq_none.1 hs a ha])
      | some w =>
        obtain ⟨before, after, rfl, hw, hbefore, hafter⟩ := ih hs
        rw [hs, lesser_some] at h
        split_ifs at h with hlt
        · -- a later key is less
          obtain rfl : w = e := by simpa using h
          refine ⟨d :: before, after, rfl, hw, ?_, hafter⟩
          intro a ha hpa
          rcases List.mem_cons.1 ha with rfl | ha
          · exact hlt
          · exact hbefore a ha hpa
        · obtain rfl : d = e := by simpa using h
          refine ⟨[], before ++ w :: after, rfl, hd, by simp, ?_⟩
          intro a ha hpa
          rcases List.mem_append.1 ha with ha | ha
          · exact List.le_trans hlt (List.le_of_lt (hbefore a ha hpa))
          · rcases List.mem_cons.1 ha with rfl | ha
            · exact hlt
            · exact List.le_trans hlt (hafter a ha hpa)
    · obtain ⟨before, after, rfl, he, hbefore, hafter⟩ := ih h
      refine ⟨d :: before, after, rfl, he, ?_, hafter⟩
      intro a ha hpa
      rcases List.mem_cons.1 ha with rfl | ha
      · exact absurd hpa hd
      · exact hbefore a ha hpa

/-- **The entry that is read.** -/
theorem scan_eq_some {p : Str → Bool} {es : List (Str × β)} {e : Str × β} :
    scan p es = some e ↔ FirstLeast p es e := by
  refine ⟨firstLeast_of_scan, ?_⟩
  rintro ⟨before, after, rfl, he, hbefore, hafter⟩
  have htail : scan p (e :: after) = some e := by
    rw [scan, if_pos he]
    cases hs : scan p after with
    | none => rfl
    | some w =>
      obtain ⟨as, bs, rfl, hw, -⟩ := firstLeast_of_scan hs
      rw [lesser_some, if_neg (hafter w (by simp) hw)]
  rw [scan_append, htail]
  cases hs : scan p before with
  | none => rfl
  | some w =>
    obtain ⟨as, bs, rfl, hw, -⟩ := firstLeast_of_scan hs
    rw [lesser_some, if_pos (hbefore w (by simp) hw)]

/-- the entries of which a read by p gives the value v, `dflt` being given where there is none -/
def Reads (p : Str → Bool) (es : List (Str × β)) (dflt v : β) : Prop :=
  (∀ e, FirstLeast p es e → e.2 = v) ∧ ((∀ e ∈ es, p e.1 = false) → v = dflt)

theorem reads_iff {p : Str → Bool} {es : List (Str × β)} {dflt v : β} :
    ((scan p es).map (·.2)).getD dflt = v ↔ Reads p es dflt v := by
  unfold Reads
  rw [← scan_eq_none]
  simp only [← scan_eq_some]
  cases scan p es with
  | none => simp [eq_comm]
  | some w => simp

/-- with one spelling of the key, the first entry that has it is read -/
theorem scan_eq_find {p : Str → Bool} {es : List (Str × β)} {k : Str} (h : ∀ e ∈ es, p e.1 = true → e.1 = k) :
    scan p es = es.find? fun e => p e.1 := by
  induction es with
  | nil => rfl
  | cons d es ih =>
    obtain ⟨hd, hes⟩ := List.forall_mem_cons.1 h
    rw [scan]
    split_ifs with hpd
    · rw [find_cons, if_pos hpd]
      cases hs : scan p es with
      | none => rfl
      | some w =>
        obtain ⟨as, bs, rfl, hw, -⟩ := firstLeast_of_scan hs
        rw [lesser_some, hd hpd, hes w (by simp) hw, if_neg (List.lt_irrefl _)]
    · rw [find_cons, if_neg hpd, ih hes]

end AirobotMsgd.StringMap
