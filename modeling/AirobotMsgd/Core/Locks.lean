/-
Threads that lock and unlock, over any type of threads and any ordered type of locks.

A thread is the list of what it has still to do. An `acquire` waits while the lock has an owner. `Climbs held todo`: with
the locks `held`, every lock is taken above all those held, only held ones are released, and none is held at the end.

- `step_inv`: the locks a thread holds are those it is the owner of.
- `progress`: **threads that climb do not block each other for ever**: where one of them has still to do, one can go on.
- `can_finish`: from every state that is reached the threads can all get to their ends.
-/
import AirobotMsgd.Core.Runs
import Mathlib.Tactic

namespace AirobotMsgd.Locks

open AirobotMsgd.Runs

inductive Instr (L : Type*) where
  | acquire (l : L)
  | release (l : L)
  /-- anything else -/
  | work
deriving DecidableEq, Repr

structure St (ι L : Type*) where
  owner : L → Option ι
  todo : ι → List (Instr L)

variable {ι L : Type*} [DecidableEq ι] [LinearOrder L]

def init (todo : ι → List (Instr L)) : St ι L := ⟨fun _ => none, todo⟩

/-- thread i goes on, if it can -/
def step (s : St ι L) (i : ι) : St ι L :=
  match s.todo i with
  | [] => s
  | .acquire l :: rest =>
    if s.owner l = none then ⟨Function.update s.owner l (some i), Function.update s.todo i rest⟩ else s
  | .release l :: rest =>
    if s.owner l = some i then ⟨Function.update s.owner l none, Function.update s.todo i rest⟩ else s
  | .work :: rest => ⟨s.owner, Function.update s.todo i rest⟩

/-- it can -/
def Goes (s : St ι L) (i : ι) : Prop := s.todo i ≠ [] ∧ (step s i).todo = Function.update s.todo i (s.todo i).tail

def Climbs : List L → List (Instr L) → Prop
  | held, [] => held = []
  | held, .acquire l :: rest => (∀ h ∈ held, h < l) ∧ Climbs (l :: held) rest
  | held, .release l :: rest => l ∈ held ∧ Climbs (held.filter (· ≠ l)) rest
  | held, .work :: rest => Climbs held rest

/-- calls one after the other -/
theorem Climbs.append {a b : List (Instr L)} {held : List L} (ha : Climbs held a) (hb : Climbs [] b) :
    Climbs held (a ++ b) := by
  induction a generalizing held with
  | nil =>
    rw [Climbs] at ha
    rwa [ha, List.nil_append]
  | cons x a ih =>
    cases x with
    | acquire l => exact ⟨ha.1, ih ha.2⟩
    | release l => exact ⟨ha.1, ih ha.2⟩
    | work =>
      have ha' : Climbs held a := ha
      exact ih ha'

theorem climbs_flatMap {α : Type*} {f : α → List (Instr L)} (h : ∀ a, Climbs [] (f a)) (as : List α) :
    Climbs [] (as.flatMap f) := by
  induction as with
  | nil => rfl
  | cons a as ih => exact (h a).append ih

/-! ## Invariant -/

/-- every thread climbs, from the locks it owns -/
def Inv (s : St ι L) : Prop :=
  ∀ i, ∃ held, Climbs held (s.todo i) ∧ ∀ l, l ∈ held ↔ s.owner l = some i

omit [DecidableEq ι] in
theorem inv_init {todo : ι → List (Instr L)} (h : ∀ i, Climbs [] (todo i)) : Inv (init todo) := fun i =>
  ⟨[], h i, fun l => by simp [init]⟩

theorem step_inv {s : St ι L} (h : Inv s) (i : ι) : Inv (step s i) := by
  obtain ⟨held, hclimbs, hheld⟩ := h i
  unfold step
  split
  · exact h
  · rename_i l rest htodo
    rw [htodo] at hclimbs
    split_ifs with hfree
    · intro j
      by_cases hj : j = i
      · subst hj
        refine ⟨l :: held, by simpa using hclimbs.2, fun l' => ?_⟩
        by_cases hl : l' = l
        · simp [hl]
        · simp [hl, hheld]
      · obtain ⟨held', hclimbs', hheld'⟩ := h j
        refine ⟨held', by simpa [Function.update_of_ne hj] using hclimbs', fun l' => ?_⟩
        by_cases hl : l' = l
        · subst hl
          simp [hheld', hfree, Ne.symm hj]
        · simp [hl, hheld']
    · exact h
  · rename_i l rest htodo
    rw [htodo] at hclimbs
    split_ifs with howner
    · intro j
      by_cases hj : j = i
      · subst hj
        refine ⟨held.filter (· ≠ l), by simpa using hclimbs.2, fun l' => ?_⟩
        by_cases hl : l' = l
        · simp [hl]
        · simp [hl, hheld]
      · obtain ⟨held', hclimbs', hheld'⟩ := h j
        refine ⟨held', by simpa [Function.update_of_ne hj] using hclimbs', fun l' => ?_⟩
        by_cases hl : l' = l
        · subst hl
          simp [hheld', howner, Ne.symm hj]
        · simp [hl, hheld']
    · exact h
  · rename_i rest htodo
    rw [htodo] at hclimbs
    intro j
    by_cases hj : j = i
    · subst hj
      exact ⟨held, by simpa [Climbs] using hclimbs, hheld⟩
    · simpa [Function.update_of_ne hj] using h j

omit [DecidableEq ι] in
/-- at the end nothing is locked -/
theorem Inv.unlocked {s : St ι L} (h : Inv s) (hdone : ∀ i, s.todo i = []) (l : L) : s.owner l = none := by
  cases howner : s.owner l with
  | none => rfl
  | some i =>
    obtain ⟨held, hclimbs, hheld⟩ := h i
    rw [hdone i, Climbs] at hclimbs
    have hmem := (hheld l).2 howner
    simp [hclimbs] at hmem

/-! ## Progress -/

/-- the thread that owns a lock goes on, or waits for a greater one -/
theorem progress_of [WellFoundedGT L] {s : St ι L} (h : Inv s) (l : L) :
    ∀ i rest, s.todo i = .acquire l :: rest → ∃ j, Goes s j := by
  induction l using WellFoundedGT.induction with
  | ind l ih =>
    intro i rest htodo
    cases howner : s.owner l with
    | none => exact ⟨i, by simp [htodo], by simp [step, htodo, howner]⟩
    | some j =>
      obtain ⟨held, hclimbs, hheld⟩ := h j
      have hmem : l ∈ held := (hheld l).2 howner
      match hj : s.todo j with
      | [] =>
        rw [hj, Climbs] at hclimbs
        simp [hclimbs] at hmem
      | .acquire l' :: rest' =>
        rw [hj] at hclimbs
        exact ih l' (hclimbs.1 l hmem) j rest' hj
      | .release l' :: rest' =>
        rw [hj] at hclimbs
        exact ⟨j, by simp [hj], by simp [step, hj, (hheld l').1 hclimbs.1]⟩
      | .work :: rest' => exact ⟨j, by simp [hj], by simp [step, hj]⟩

/-- **No deadlock.** -/
theorem progress [WellFoundedGT L] {s : St ι L} (h : Inv s) {i : ι} (hi : s.todo i ≠ []) : ∃ j, Goes s j := by
  obtain ⟨held, hclimbs, hheld⟩ := h i
  match hrest : s.todo i with
  | [] => exact absurd hrest hi
  | .acquire l :: rest => exact progress_of h l i rest hrest
  | .release l :: rest =>
    rw [hrest] at hclimbs
    exact ⟨i, hi, by simp [step, hrest, (hheld l).1 hclimbs.1]⟩
  | .work :: rest => exact ⟨i, hi, by simp [step, hrest]⟩

theorem can_finish [Fintype ι] [WellFoundedGT L] {s : St ι L} (h : Inv s) :
    ∃ order : List ι, ∀ i, (run step s order).todo i = [] := by
  induction hn : ∑ i, (s.todo i).length using Nat.strong_induction_on generalizing s with
  | h n ih =>
    by_cases hdone : ∀ i, s.todo i = []
    · exact ⟨[], hdone⟩
    · obtain ⟨i, hi⟩ := not_forall.1 hdone
      obtain ⟨j, hne, hstep⟩ := progress h hi
      have hless : ∑ i, ((step s j).todo i).length < n := by
        rw [← hn, hstep]
        refine Finset.sum_lt_sum (fun k _ => ?_) ⟨j, Finset.mem_univ j, ?_⟩
        · by_cases hk : k = j
          · subst hk
            simp
          · simp [Function.update_of_ne hk]
        · have := List.length_pos_iff.2 hne
          simp only [Function.update_self, List.length_tail]
          omega
      obtain ⟨order, hall⟩ := ih _ hless (step_inv h j) rfl
      exact ⟨j :: order, hall⟩

end AirobotMsgd.Locks
