import Mathlib.Data.List.Basic
import Mathlib.Tactic.Cases

/-!
# Runs of a machine that can fail

A step takes a state and an input to the next state and an output, or fails; a run stops at the
first step that fails. The rules: if no possible step fails, no run of possible steps does, and what
every step keeps holds after it (`exec_safe`); what goes into the machine waits in it until it comes
out, in order, if every step does so (`exec_conserves`); who learns from outputs that tell of every
change knows what there is to know (`exec_tracks`, `exec_folds`); and a machine that answers step
for step as a simpler one that cannot fail answers as that one over every run (`exec_simulates`).
-/

namespace Transducers

variable {σ τ ι κ ο π ε α : Type*}

/-- A step of a run: the state it is taken in, its input and its output. -/
structure Turn (σ ι ο : Type*) where
  state : σ
  input : ι
  output : ο

def exec (step : σ → ι → Except ε (σ × ο)) : σ → List ι → Except ε (σ × List (Turn σ ι ο))
  | s, [] => .ok (s, [])
  | s, i :: is =>
    match step s i with
    | .error e => .error e
    | .ok (s', o) =>
      match exec step s' is with
      | .error e => .error e
      | .ok (s'', turns) => .ok (s'', ⟨s, i, o⟩ :: turns)

/-- `P` holds of every input of the run, in the state it comes in. -/
def Along (step : σ → ι → Except ε (σ × ο)) (P : σ → ι → Prop) : σ → List ι → Prop
  | _, [] => True
  | s, i :: is => P s i ∧
    match step s i with
    | .error _ => True
    | .ok (s', _) => Along step P s' is

instance decidableAlong {step : σ → ι → Except ε (σ × ο)} {P : σ → ι → Prop}
    [∀ s i, Decidable (P s i)] : (s : σ) → (is : List ι) → Decidable (Along step P s is)
  | _, [] => .isTrue trivial
  | s, i :: is =>
    have : Decidable (match step s i with
        | .error _ => True
        | .ok (s', _) => Along step P s' is) :=
      match step s i with
      | .error _ => .isTrue trivial
      | .ok (s', _) => decidableAlong s' is
    inferInstanceAs (Decidable (_ ∧ _))

variable {step : σ → ι → Except ε (σ × ο)} {P : σ → ι → Prop} {s s' s'' : σ} {i : ι} {is : List ι}
  {o : ο} {turns : List (Turn σ ι ο)}

theorem exec_cons (h : step s i = .ok (s', o)) (hrun : exec step s' is = .ok (s'', turns)) :
    exec step s (i :: is) = .ok (s'', ⟨s, i, o⟩ :: turns) := by
  unfold exec
  simp only [h, hrun]

theorem exec_cons_ok (h : exec step s (i :: is) = .ok (s'', turns)) :
    ∃ s' o rest, step s i = .ok (s', o) ∧ exec step s' is = .ok (s'', rest) ∧
      turns = ⟨s, i, o⟩ :: rest := by
  unfold exec at h
  cases hstep : step s i with
  | error e =>
    rw [hstep] at h
    cases h
  | ok r =>
    simp only [hstep] at h
    cases hrun : exec step r.1 is with
    | error e =>
      simp only [hrun] at h
      cases h
    | ok r' =>
      simp only [hrun] at h
      cases h
      exact ⟨r.1, r.2, r'.2, rfl, hrun, rfl⟩

theorem along_cons (h : step s i = .ok (s', o)) :
    Along step P s (i :: is) ↔ P s i ∧ Along step P s' is := by
  conv_lhs => unfold Along
  simp only [h]

theorem Along.head (h : Along step P s (i :: is)) : P s i := by
  unfold Along at h
  exact h.1

theorem Along.imp {Q : σ → ι → Prop} (hPQ : ∀ s i, P s i → Q s i) (h : Along step P s is) :
    Along step Q s is := by
  induction is generalizing s with
  | nil => trivial
  | cons i is ih =>
    unfold Along at h ⊢
    refine ⟨hPQ s i h.1, ?_⟩
    cases hstep : step s i with
    | error e => trivial
    | ok r =>
      rw [hstep] at h
      exact ih h.2

/-- The inputs of the steps of a run are its inputs. -/
theorem map_input_exec (h : exec step s is = .ok (s', turns)) : turns.map (·.input) = is := by
  induction is generalizing s turns with
  | nil =>
    cases h
    rfl
  | cons i is ih =>
    obtain ⟨s₁, o, rest, -, hrun, rfl⟩ := exec_cons_ok h
    rw [List.map_cons, ih hrun]

/-! ## Rules -/

variable {I : σ → Prop}

/-- What every possible step keeps holds after a run that does not fail. -/
theorem exec_invariant
    (hstep : ∀ s i s' o, I s → P s i → step s i = .ok (s', o) → I s') (hs : I s)
    (hP : Along step P s is) (h : exec step s is = .ok (s', turns)) : I s' := by
  induction is generalizing s turns with
  | nil =>
    cases h
    exact hs
  | cons i is ih =>
    obtain ⟨s₁, o, rest, hone, hrun, rfl⟩ := exec_cons_ok h
    exact ih (hstep s i s₁ o hs hP.head hone) ((along_cons hone).mp hP).2 hrun

/-- Who learns from each output what each step changes knows after the run what there is to know. -/
theorem exec_tracks {ν : Type*} {K : σ → ν → Prop} {learn : ν → Turn σ ι ο → ν}
    (hstep : ∀ s i s' o, I s → P s i → step s i = .ok (s', o) →
      I s' ∧ ∀ n, K s n → K s' (learn n ⟨s, i, o⟩))
    (hs : I s) (hP : Along step P s is) (h : exec step s is = .ok (s', turns)) {n : ν} (hn : K s n) :
    K s' (turns.foldl learn n) := by
  induction is generalizing s turns n with
  | nil =>
    cases h
    exact hn
  | cons i is ih =>
    obtain ⟨s₁, o, rest, hone, hrun, rfl⟩ := exec_cons_ok h
    obtain ⟨hs₁, hlearn⟩ := hstep s i s₁ o hs hP.head hone
    exact ih hs₁ ((along_cons hone).mp hP).2 hrun (hlearn n hn)

/-- What each output says of a change adds up to what can be seen after the run. -/
theorem exec_folds {ν : Type*} {view : σ → ν} {learn : ν → Turn σ ι ο → ν}
    (hstep : ∀ s i s' o, I s → P s i → step s i = .ok (s', o) →
      I s' ∧ learn (view s) ⟨s, i, o⟩ = view s')
    (hs : I s) (hP : Along step P s is) (h : exec step s is = .ok (s', turns)) :
    turns.foldl learn (view s) = view s' :=
  exec_tracks (K := fun s n => n = view s) (fun s i s' o hs hp hone =>
    ⟨(hstep s i s' o hs hp hone).1, fun _ hn => hn ▸ (hstep s i s' o hs hp hone).2⟩) hs hP h rfl

/-- If no possible step fails and each keeps the invariant, no run of possible steps fails, and each
keeps it. -/
theorem exec_safe (hstep : ∀ s i, I s → P s i → ∃ s' o, step s i = .ok (s', o) ∧ I s') (hs : I s)
    (hP : Along step P s is) : ∃ s' turns, exec step s is = .ok (s', turns) ∧ I s' := by
  induction is generalizing s with
  | nil => exact ⟨s, [], rfl, hs⟩
  | cons i is ih =>
    obtain ⟨s₁, o, h, hs₁⟩ := hstep s i hs hP.head
    obtain ⟨s', turns, hrun, hs'⟩ := ih hs₁ ((along_cons h).mp hP).2
    exact ⟨s', _, exec_cons h hrun, hs'⟩

/-- Nothing is lost, doubled or overtaken over a run in which no step loses, doubles or overtakes. -/
theorem exec_conserves {waiting : σ → List α} {incoming outgoing : Turn σ ι ο → List α}
    (hstep : ∀ s i s' o, I s → P s i → step s i = .ok (s', o) →
      I s' ∧ waiting s ++ incoming ⟨s, i, o⟩ = outgoing ⟨s, i, o⟩ ++ waiting s')
    (hs : I s) (hP : Along step P s is) (h : exec step s is = .ok (s', turns)) :
    waiting s ++ turns.flatMap incoming = turns.flatMap outgoing ++ waiting s' := by
  induction is generalizing s turns with
  | nil =>
    cases h
    simp
  | cons i is ih =>
    obtain ⟨s₁, o, rest, hone, hrun, rfl⟩ := exec_cons_ok h
    obtain ⟨hs₁, hwaiting⟩ := hstep s i s₁ o hs hP.head hone
    rw [List.flatMap_cons, List.flatMap_cons, ← List.append_assoc, hwaiting, List.append_assoc,
      ih hs₁ ((along_cons hone).mp hP).2 hrun, List.append_assoc]

/-! ## Simulation -/

/-- A machine that cannot fail. -/
def mealy (step : τ → κ → τ × π) : τ → List κ → τ × List (Turn τ κ π)
  | t, [] => (t, [])
  | t, k :: ks =>
    ((mealy step (step t k).1 ks).1, ⟨t, k, (step t k).2⟩ :: (mealy step (step t k).1 ks).2)

variable {astep : τ → κ → τ × π}

theorem mealy_cons (t : τ) (k : κ) (ks : List κ) : mealy astep t (k :: ks) =
    ((mealy astep (astep t k).1 ks).1,
      ⟨t, k, (astep t k).2⟩ :: (mealy astep (astep t k).1 ks).2) := rfl

/-- A machine that never fails over possible inputs, and does step for step what a simpler one does,
as far as can be seen of their outputs, does so over every run. -/
theorem exec_simulates {ω : Type*} {abs : σ → τ} {input : σ → ι → κ} {seen : ο → ω} {seen' : π → ω}
    (hstep : ∀ s i, I s → P s i → ∃ s' o, step s i = .ok (s', o) ∧ I s' ∧
      (astep (abs s) (input s i)).1 = abs s' ∧ seen' (astep (abs s) (input s i)).2 = seen o)
    (hs : I s) (hP : Along step P s is) :
    ∃ s' turns, exec step s is = .ok (s', turns) ∧ I s' ∧
      (mealy astep (abs s) (turns.map fun turn => input turn.state turn.input)).1 = abs s' ∧
      (mealy astep (abs s) (turns.map fun turn => input turn.state turn.input)).2.map
          (fun turn => seen' turn.output) = turns.map fun turn => seen turn.output := by
  induction is generalizing s with
  | nil => exact ⟨s, [], rfl, hs, rfl, rfl⟩
  | cons i is ih =>
    obtain ⟨s₁, o, hone, hs₁, habs, hseen⟩ := hstep s i hs hP.head
    obtain ⟨s', turns, hrun, hs', habs', hseen'⟩ := ih hs₁ ((along_cons hone).mp hP).2
    refine ⟨s', _, exec_cons hone hrun, hs', ?_⟩
    rw [List.map_cons, List.map_cons, mealy_cons, habs, List.map_cons, hseen, hseen']
    exact ⟨habs', rfl⟩

end Transducers
