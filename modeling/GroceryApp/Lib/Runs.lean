import Mathlib.Data.List.Basic
import Mathlib.Tactic.Cases
import Mathlib.Tactic.Set

/-!
# Runs of a step function

A system is a total step function `step : σ → ε → σ`; an event that is not possible in a state
leaves it as it is, so every list of events is a run. `Along P` says that every step of a run
meets `P` in the state it is taken in. The rules are the invariant rule (`run_invariant`), its form
for a property that is lost for good (`run_iff_along`), the rule
that replaces the property of the steps (`along_congr`), the rule that finds the step at which a
property is lost (`exists_step_of_lost`), and simulation (`foldlM_related`,
`run_calls_related_along`, `run_calls_related`, `run_calls`).
-/

namespace Runs

variable {σ τ ε δ : Type*}

/-- The state after the events, in order. -/
def run (step : σ → ε → σ) (s : σ) (es : List ε) : σ := es.foldl step s

section Basic

variable (step : σ → ε → σ) (s : σ)

@[simp] theorem run_nil : run step s [] = s := rfl

@[simp] theorem run_cons (e : ε) (es : List ε) :
    run step s (e :: es) = run step (step s e) es := rfl

@[simp] theorem run_append (es fs : List ε) :
    run step s (es ++ fs) = run step (run step s es) fs := List.foldl_append

theorem run_concat (es : List ε) (e : ε) :
    run step s (es ++ [e]) = step (run step s es) e := by
  rw [run_append, run_cons, run_nil]

end Basic

/-- `P` holds of every step of the run, in the state the step is taken in. -/
def Along (step : σ → ε → σ) (P : σ → ε → Prop) : σ → List ε → Prop
  | _, [] => True
  | s, e :: es => P s e ∧ Along step P (step s e) es

variable {step : σ → ε → σ} {P Q : σ → ε → Prop} {s : σ}

@[simp] theorem along_nil : Along step P s [] := trivial

@[simp] theorem along_cons {e : ε} {es : List ε} :
    Along step P s (e :: es) ↔ P s e ∧ Along step P (step s e) es := Iff.rfl

/-- Along a given run a property that can be decided can be checked. -/
instance decidableAlong [∀ s e, Decidable (P s e)] :
    (s : σ) → (es : List ε) → Decidable (Along step P s es)
  | _, [] => .isTrue trivial
  | s, e :: es => @instDecidableAnd _ _ _ (decidableAlong (step s e) es)

theorem along_append {es fs : List ε} :
    Along step P s (es ++ fs) ↔ Along step P s es ∧ Along step P (run step s es) fs := by
  induction es generalizing s with
  | nil => simp
  | cons e es ih => simp only [List.cons_append, along_cons, run_cons, ih, and_assoc]

theorem along_of_forall {es : List ε} (h : ∀ e ∈ es, ∀ s, P s e) : Along step P s es := by
  induction es generalizing s with
  | nil => trivial
  | cons e es ih =>
    exact ⟨h e List.mem_cons_self s, ih fun e' he' => h e' (List.mem_cons_of_mem e he')⟩

/-! ## Invariants -/

variable {I : σ → Prop}

/-- An invariant kept by every step holds after every run. -/
theorem run_invariant (hI : ∀ s e, I s → I (step s e)) (h0 : I s) (es : List ε) :
    I (run step s es) := by
  induction es generalizing s with
  | nil => exact h0
  | cons e es ih => exact ih (hI s e h0)

/-- What a step keeps exactly if it meets `P`, and never brings back, holds after exactly the runs
that meet `P` at every step. -/
theorem run_iff_along (hI : ∀ s e, I (step s e) ↔ I s ∧ P s e) (s : σ) (es : List ε) :
    I (run step s es) ↔ I s ∧ Along step P s es := by
  induction es generalizing s with
  | nil => simp
  | cons e es ih => rw [run_cons, ih, hI, along_cons, and_assoc]

/-- Steps with `Q`, which keep `I`, have `P` in the states of `I`. -/
theorem along_mono {es : List ε} (hI : ∀ s e, I s → Q s e → I (step s e))
    (hQP : ∀ s e, I s → Q s e → P s e) (h0 : I s) (h : Along step Q s es) : Along step P s es := by
  induction es generalizing s with
  | nil => trivial
  | cons e es ih => exact ⟨hQP s e h0 h.1, ih (hI s e h0 h.1) h.2⟩

/-- An invariant kept by the steps with `Q` holds after the runs of such steps. -/
theorem run_invariant_along {es : List ε} (hI : ∀ s e, I s → Q s e → I (step s e)) (h0 : I s)
    (h : Along step Q s es) : I (run step s es) := by
  induction es generalizing s with
  | nil => exact h0
  | cons e es ih => exact ih (hI s e h0 h.1) h.2

/-- Two properties of steps that agree in the states of `I`, which steps with the first keep, hold
along the same runs. -/
theorem along_congr {es : List ε} (hI : ∀ s e, I s → Q s e → I (step s e))
    (hQP : ∀ s e, I s → (Q s e ↔ P s e)) (h0 : I s) : Along step Q s es ↔ Along step P s es := by
  induction es generalizing s with
  | nil => exact Iff.rfl
  | cons e es ih =>
    rw [along_cons, along_cons, ← hQP s e h0]
    exact and_congr_right fun hQ => ih (hI s e h0 hQ)

/-- Between a state with `I` and a later one without it there is a first step that loses it. -/
theorem exists_step_of_lost {es : List ε} (h0 : I s) (h : ¬ I (run step s es)) :
    ∃ es₁ e es₂, es = es₁ ++ e :: es₂ ∧ (∀ fs, fs <+: es₁ → I (run step s fs)) ∧
      ¬ I (run step s (es₁ ++ [e])) := by
  induction es generalizing s with
  | nil => exact absurd h0 h
  | cons e es ih =>
    by_cases h1 : I (step s e)
    · obtain ⟨es₁, e', es₂, rfl, hpre, hlost⟩ := ih h1 h
      refine ⟨e :: es₁, e', es₂, rfl, fun fs hfs => ?_, hlost⟩
      cases fs with
      | nil => exact h0
      | cons f fs =>
        obtain ⟨rfl, hfs'⟩ := List.cons_prefix_cons.mp hfs
        exact hpre fs hfs'
    · refine ⟨[], e, es, rfl, fun fs hfs => ?_, h1⟩
      rw [List.prefix_nil.mp hfs]
      exact h0

/-! ## Simulation -/

/-- Simulation of a total system by one whose steps can fail: if every step succeeds from related
states, so does every run. -/
theorem foldlM_related {κ : Type} {stepE : σ → ε → Except κ σ} {stepB : τ → ε → τ}
    {R : σ → τ → Prop} (hstep : ∀ s t e, R s t → ∃ s', stepE s e = .ok s' ∧ R s' (stepB t e))
    {s : σ} {t : τ} (h : R s t) (es : List ε) :
    ∃ s', es.foldlM stepE s = .ok s' ∧ R s' (run stepB t es) := by
  induction es generalizing s t with
  | nil => exact ⟨s, rfl, h⟩
  | cons e es ih =>
    obtain ⟨s₁, hs₁, h₁⟩ := hstep s t e h
    obtain ⟨s', hs', h'⟩ := ih h₁
    refine ⟨s', ?_, h'⟩
    rw [List.foldlM_cons, hs₁]
    exact hs'

/-- The lower-level events a run of the upper system performs, when each upper event performs at
most one of them. -/
def calls (step : σ → ε → σ) (call : σ → ε → Option δ) : σ → List ε → List δ
  | _, [] => []
  | s, e :: es => (call s e).toList ++ calls step call (step s e) es

theorem mem_calls {call : σ → ε → Option δ} {d : δ} {es : List ε} (h : d ∈ calls step call s es) :
    ∃ es₁ e es₂, es = es₁ ++ e :: es₂ ∧ call (run step s es₁) e = some d := by
  induction es generalizing s with
  | nil => cases h
  | cons e es ih =>
    rcases List.mem_append.mp h with hd | hd
    · exact ⟨[], e, es, rfl, Option.mem_toList.mp hd⟩
    · obtain ⟨es₁, e', es₂, rfl, hcall⟩ := ih hd
      exact ⟨e :: es₁, e', es₂, rfl, hcall⟩

/-- Simulation with stuttering: as long as the calls of the upper system meet `Q`, they meet `P`,
and related states stay related when the lower system takes them. -/
theorem run_calls_related_along {R : σ → τ → Prop} {P Q : τ → δ → Prop} {stepB : τ → δ → τ}
    {call : σ → ε → Option δ}
    (hstep : ∀ s t e, R s t → (∀ d ∈ call s e, Q t d) →
      (∀ d ∈ call s e, P t d) ∧ R (step s e) (run stepB t (call s e).toList))
    {s : σ} {t : τ} (h : R s t) {es : List ε} (hQ : Along stepB Q t (calls step call s es)) :
    Along stepB P t (calls step call s es) ∧
      R (run step s es) (run stepB t (calls step call s es)) := by
  have halong : ∀ (P' : τ → δ → Prop) (t : τ) (o : Option δ),
      Along stepB P' t o.toList ↔ ∀ d ∈ o, P' t d := by
    intro P' t o
    cases o <;> simp
  induction es generalizing s t with
  | nil => exact ⟨trivial, h⟩
  | cons e es ih =>
    rw [calls, along_append, halong] at hQ
    obtain ⟨hP, hR⟩ := hstep s t e h hQ.1
    obtain ⟨hPs, hRs⟩ := ih hR hQ.2
    rw [calls, along_append, halong, run_append]
    exact ⟨⟨hP, hPs⟩, hRs⟩

theorem run_calls_related {R : σ → τ → Prop} {stepB : τ → δ → τ} {call : σ → ε → Option δ}
    (hstep : ∀ s t e, R s t → R (step s e) (run stepB t (call s e).toList)) {s : σ} {t : τ}
    (h : R s t) (es : List ε) : R (run step s es) (run stepB t (calls step call s es)) :=
  (run_calls_related_along (P := fun _ _ => True) (Q := fun _ _ => True)
    (fun s t e h _ => ⟨fun _ _ => trivial, hstep s t e h⟩) h
    (along_of_forall fun _ _ _ => trivial)).2

/-- Refinement: when every step acts on the component `π` as its call does, a run acts on it as
the run of its calls. -/
theorem run_calls {π : σ → τ} {stepB : τ → δ → τ} {call : σ → ε → Option δ}
    (hstep : ∀ s e, π (step s e) = run stepB (π s) (call s e).toList) (s : σ) (es : List ε) :
    π (run step s es) = run stepB (π s) (calls step call s es) := by
  refine run_calls_related (R := fun s t => π s = t) ?_ rfl es
  rintro s t e rfl
  exact hstep s e

end Runs
