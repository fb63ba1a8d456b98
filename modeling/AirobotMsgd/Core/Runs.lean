/-
Runs of a machine, over any state type and any type of operations. A machine is a total step function; an operation
that cannot happen in a state leaves the state as it is, so a run is a fold and every list of operations is a run.

- `Always P`: P holds in every state a run passes through, its first and last state included (`always_iff`).
- `Meets C`: every step of a run meets the condition C, read in the state the step starts from.

Rules:
- `always_meets`: an invariant of the steps that meet a condition holds throughout the runs whose steps all meet it;
  `always_run`: an invariant of every step throughout every run.
- `meets_iff_meets`: conditions that agree under an invariant are met by the same runs.
- `always_project`: where a machine moves a part of its state as another machine does, what holds throughout the runs of
  that one holds of the part.
- `run_related`: two machines that keep a relation in every step keep it throughout.
- `run_service`: a machine that does with each input what a service answers, does so over all of them.
- `always_iff_meets`: where a step leads to a good state exactly when it meets the condition, a run is good throughout
  exactly when all of its steps meet the condition.
-/
import Mathlib.Tactic.Common

namespace AirobotMsgd.Runs

variable {σ α : Type*}

def run (step : σ → α → σ) (s : σ) (ops : List α) : σ := ops.foldl step s

@[simp] theorem run_nil (step : σ → α → σ) (s : σ) : run step s [] = s := rfl

@[simp] theorem run_cons (step : σ → α → σ) (s : σ) (o : α) (ops : List α) :
    run step s (o :: ops) = run step (step s o) ops := rfl

theorem run_append (step : σ → α → σ) (s : σ) (a b : List α) :
    run step s (a ++ b) = run step (run step s a) b := by
  simp [run, List.foldl_append]

/-- P holds in every state of the run -/
def Always (step : σ → α → σ) (P : σ → Prop) : σ → List α → Prop
  | s, [] => P s
  | s, o :: ops => P s ∧ Always step P (step s o) ops

/-- every step of the run meets C in the state it starts from -/
def Meets (step : σ → α → σ) (C : σ → α → Prop) : σ → List α → Prop
  | _, [] => True
  | s, o :: ops => C s o ∧ Meets step C (step s o) ops

instance decidableAlways (step : σ → α → σ) (P : σ → Prop) [DecidablePred P] :
    (s : σ) → (ops : List α) → Decidable (Always step P s ops)
  | s, [] => inferInstanceAs (Decidable (P s))
  | s, o :: ops => @instDecidableAnd _ _ _ (decidableAlways step P (step s o) ops)

instance decidableMeets (step : σ → α → σ) (C : σ → α → Prop) [∀ s o, Decidable (C s o)] :
    (s : σ) → (ops : List α) → Decidable (Meets step C s ops)
  | _, [] => inferInstanceAs (Decidable True)
  | s, o :: ops => @instDecidableAnd _ _ _ (decidableMeets step C (step s o) ops)

section
variable {step : σ → α → σ} {P Q I : σ → Prop} {C D : σ → α → Prop}

/-- the states of a run are the ends of its prefixes -/
theorem always_iff {s : σ} {ops : List α} : Always step P s ops ↔ ∀ k, P (run step s (ops.take k)) := by
  induction ops generalizing s with
  | nil => simp [Always]
  | cons o ops ih =>
    refine ⟨?_, fun h => ⟨h 0, ih.2 fun k => h (k + 1)⟩⟩
    intro h k
    cases k with
    | zero => exact h.1
    | succ k => exact ih.1 h.2 k

theorem Always.first {s : σ} {ops : List α} (h : Always step P s ops) : P s := always_iff.1 h 0

theorem Always.last {s : σ} {ops : List α} (h : Always step P s ops) : P (run step s ops) := by
  have hlast := always_iff.1 h ops.length
  rwa [List.take_length] at hlast

theorem Always.mono (hPQ : ∀ s, P s → Q s) {s : σ} {ops : List α} (h : Always step P s ops) :
    Always step Q s ops := by
  induction ops generalizing s with
  | nil => exact hPQ s h
  | cons o ops ih => exact ⟨hPQ s h.1, ih h.2⟩

theorem Meets.mono (hCD : ∀ s o, C s o → D s o) {s : σ} {ops : List α} (h : Meets step C s ops) :
    Meets step D s ops := by
  induction ops generalizing s with
  | nil => trivial
  | cons o ops ih => exact ⟨hCD s o h.1, ih h.2⟩

theorem Meets.and {s : σ} {ops : List α} (hC : Meets step C s ops) (hD : Meets step D s ops) :
    Meets step (fun s o => C s o ∧ D s o) s ops := by
  induction ops generalizing s with
  | nil => trivial
  | cons o ops ih => exact ⟨⟨hC.1, hD.1⟩, ih hC.2 hD.2⟩

theorem meets_of_forall {s : σ} {ops : List α} (h : ∀ o ∈ ops, ∀ s, C s o) : Meets step C s ops := by
  induction ops generalizing s with
  | nil => trivial
  | cons o ops ih => exact ⟨h o List.mem_cons_self s, ih fun o' ho' => h o' (List.mem_cons_of_mem o ho')⟩

/-- a step from a state with P meets what P implies of it -/
theorem Always.meets (hPC : ∀ s o, P s → C s o) {s : σ} {ops : List α} (h : Always step P s ops) :
    Meets step C s ops := by
  induction ops generalizing s with
  | nil => trivial
  | cons o ops ih => exact ⟨hPC s o h.1, ih h.2⟩

/-- an invariant of the steps that meet C holds in every state of a run whose steps all meet C -/
theorem always_meets (hstep : ∀ s o, C s o → I s → I (step s o)) {s : σ} {ops : List α} (h0 : I s)
    (hm : Meets step C s ops) : Always step I s ops := by
  induction ops generalizing s with
  | nil => exact h0
  | cons o ops ih => exact ⟨h0, ih (hstep s o hm.1 h0) hm.2⟩

theorem always_run (hstep : ∀ s o, I s → I (step s o)) {s : σ} {ops : List α} (h0 : I s) :
    Always step I s ops :=
  always_meets (C := fun _ _ => True) (fun s o _ => hstep s o) h0 (meets_of_forall fun _ _ _ => trivial)

/-- two conditions that agree in the states with the invariant -/
theorem meets_iff_meets {L : σ → α → Prop} (hiff : ∀ s o, L s o → I s → (D s o ↔ C s o))
    (hstep : ∀ s o, L s o → C s o → I s → I (step s o)) {s : σ} {ops : List α} (hops : Meets step L s ops) (h0 : I s) :
    Meets step D s ops ↔ Meets step C s ops := by
  induction ops generalizing s with
  | nil => exact Iff.rfl
  | cons o ops ih =>
    obtain ⟨ho, hrest⟩ := hops
    constructor
    · rintro ⟨hd, hm⟩
      have hc : C s o := (hiff s o ho h0).1 hd
      exact ⟨hc, (ih hrest (hstep s o ho hc h0)).1 hm⟩
    · rintro ⟨hc, hm⟩
      exact ⟨(hiff s o ho h0).2 hc, (ih hrest (hstep s o ho hc h0)).2 hm⟩

/-- **When a condition on the steps is exact.** Let the legal steps that meet C keep the invariant, let the invariant
imply P, and let a legal step from a state with the invariant lead to P only if it meets C. Then the legal runs whose
steps all meet C are exactly the legal runs with P in every state. -/
theorem always_iff_meets {L : σ → α → Prop} (hgood : ∀ s, I s → P s)
    (hstep : ∀ s o, L s o → C s o → I s → I (step s o)) (hexact : ∀ s o, L s o → I s → P (step s o) → C s o)
    {s : σ} {ops : List α} (hops : Meets step L s ops) (h0 : I s) : Always step P s ops ↔ Meets step C s ops := by
  induction ops generalizing s with
  | nil => exact ⟨fun _ => trivial, fun _ => hgood s h0⟩
  | cons o ops ih =>
    obtain ⟨ho, hrest⟩ := hops
    constructor
    · rintro ⟨_, h⟩
      have hc : C s o := hexact s o ho h0 h.first
      have h1 : I (step s o) := hstep s o ho hc h0
      exact ⟨hc, (ih hrest h1).1 h⟩
    · rintro ⟨hc, hm⟩
      have h1 : I (step s o) := hstep s o ho hc h0
      exact ⟨hgood s h0, (ih hrest h1).2 hm⟩

end

section
variable {τ β : Type*} {step : σ → α → σ} {step' : τ → β → τ} {p : σ → τ}

/-- a part of the state that moves as another machine does, while an invariant holds, is where a run of that one ends -/
theorem run_project {I : σ → Prop} (h : ∀ s o, I s → I (step s o) ∧ ∃ ops', p (step s o) = run step' (p s) ops') {s : σ}
    (h0 : I s) (ops : List α) : ∃ ops', p (run step s ops) = run step' (p s) ops' := by
  induction ops generalizing s with
  | nil => exact ⟨[], rfl⟩
  | cons o ops ih =>
    obtain ⟨hkeep, first, hfirst⟩ := h s o h0
    obtain ⟨rest, hrest⟩ := ih hkeep
    refine ⟨first ++ rest, ?_⟩
    rw [run_cons, hrest, hfirst, run_append]

theorem always_project {I : σ → Prop} {P : τ → Prop} {s : σ}
    (h : ∀ s o, I s → I (step s o) ∧ ∃ ops', p (step s o) = run step' (p s) ops') (h0 : I s)
    (hP : ∀ ops', Always step' P (p s) ops') (ops : List α) : Always step (fun s => P (p s)) s ops := by
  rw [always_iff]
  intro k
  obtain ⟨ops', heq⟩ := run_project h h0 (ops.take k)
  rw [heq]
  exact (hP ops').last

end

/-- two machines, side by side -/
theorem run_related {τ : Type*} {step : σ → α → σ} {step' : τ → α → τ} {R : σ → τ → Prop}
    (h : ∀ s t o, R s t → R (step s o) (step' t o)) {s : σ} {t : τ} (hR : R s t) (ops : List α) :
    R (run step s ops) (run step' t ops) := by
  induction ops generalizing s t with
  | nil => exact hR
  | cons o ops ih => exact ih (h s t o hR)

/-! ## Services -/

section
variable {β γ : Type*}

/-- one input is answered after the other, up to the first one after which the service does not go on -/
def service (respond : β → List γ × Bool) : List β → List γ × Bool
  | [] => ([], true)
  | b :: bs =>
    if (respond b).2 then ((respond b).1 ++ (service respond bs).1, (service respond bs).2) else ((respond b).1, false)

variable {step : σ → α → σ} {Ready Halted : σ → Prop} {seen : σ → List γ} {ops : β → List α}

/-- from s on these answers were seen, and the machine is ready again, or halted -/
def Responds (seen : σ → List γ) (Ready Halted : σ → Prop) (s s' : σ) (r : List γ × Bool) : Prop :=
  seen s' = seen s ++ r.1 ∧ if r.2 then Ready s' else Halted s'

theorem run_service {respond : β → List γ × Bool} {Valid : β → Prop}
    (hready : ∀ s b, Ready s → Valid b → Responds seen Ready Halted s (run step s (ops b)) (respond b))
    (hhalted : ∀ s b, Halted s → seen (run step s (ops b)) = seen s ∧ Halted (run step s (ops b)))
    {s : σ} (hs : Ready s) {bs : List β} (hbs : ∀ b ∈ bs, Valid b) :
    Responds seen Ready Halted s (run step s (bs.flatMap ops)) (service respond bs) := by
  have hrest : ∀ {s : σ} (bs : List β), Halted s →
      seen (run step s (bs.flatMap ops)) = seen s ∧ Halted (run step s (bs.flatMap ops)) := by
    intro s bs hs
    induction bs generalizing s with
    | nil => exact ⟨rfl, hs⟩
    | cons b bs ih =>
      obtain ⟨hseen, hb⟩ := hhalted s b hs
      obtain ⟨hseen', hbs⟩ := ih hb
      rw [List.flatMap_cons, run_append]
      exact ⟨hseen'.trans hseen, hbs⟩
  induction bs generalizing s with
  | nil => exact ⟨(List.append_nil _).symm, hs⟩
  | cons b bs ih =>
    obtain ⟨hseen, hnext⟩ := hready s b hs (hbs b List.mem_cons_self)
    rw [List.flatMap_cons, run_append, service]
    cases hgo : (respond b).2 with
    | true =>
      rw [hgo, if_pos rfl] at hnext
      obtain ⟨hseen', hnext'⟩ := ih hnext fun b' hb' => hbs b' (List.mem_cons_of_mem b hb')
      exact ⟨by rw [hseen', hseen, List.append_assoc]; rfl, hnext'⟩
    | false =>
      rw [hgo, if_neg Bool.false_ne_true] at hnext
      obtain ⟨hseen', hnext'⟩ := hrest bs hnext
      exact ⟨hseen'.trans hseen, hnext'⟩

end

end AirobotMsgd.Runs
