import GroceryApp.Lib.Transducers
import Mathlib.Logic.Function.Basic

/-!
# Outboxes

Each owner has a line of items; one owner at a time is served. An item joins the line of the owner
who is served, and an answer is to the first one in that line. Somebody who waits for the line to be
answered is told at once if it is empty, else with the answer to the item that is last now; when
another owner is served, those who wait are sent away.

What joins an owner's line is answered once and in order (`step_line`). Who waits is told with the
answer to the item that was last when he asked, if his owner is served until then
(`wait_reached_once`), else he is sent away with the change of the owner, and after either he is not
told again (`serve_cancels_once`).
-/

open Transducers

structure Outbox (U W C : Type*) where
  owner : U
  waiting : U → List W
  /-- Who waits, and for how many answers. -/
  waits : List (ℕ × C)

namespace Outbox

variable {U W C S : Type*} [DecidableEq U]

inductive Input (U W C S : Type*) where
  | write (item : W)
  | answer (status : S)
  | serve (owner : U)
  | wait (caller : C)
  | nothing

structure Output (W C S : Type*) where
  answered : List (W × S)
  reached : List C
  cancelled : List C

def Output.none : Output W C S := ⟨[], [], []⟩

def line (box : Outbox U W C) : List W := box.waiting box.owner

def step (box : Outbox U W C) : Input U W C S → Outbox U W C × Output W C S
  | .write item =>
    ({ box with waiting := Function.update box.waiting box.owner (box.line ++ [item]) }, .none)
  | .answer status =>
    match box.line with
    | [] => (box, .none)
    | item :: rest =>
      ({ box with
          waiting := Function.update box.waiting box.owner rest
          waits := (box.waits.filter fun w => decide (w.1 ≠ 1)).map fun w => (w.1 - 1, w.2) },
        ⟨[(item, status)], (box.waits.filter fun w => decide (w.1 = 1)).map (·.2), []⟩)
  | .serve owner =>
    if owner = box.owner then (box, .none)
    else ({ box with owner := owner, waits := [] }, ⟨[], [], box.waits.map (·.2)⟩)
  | .wait caller =>
    if box.line.isEmpty then (box, ⟨[], [caller], []⟩)
    else ({ box with waits := box.waits ++ [(box.line.length, caller)] }, .none)
  | .nothing => (box, .none)

abbrev Turn (U W C S : Type*) := Transducers.Turn (Outbox U W C) (Input U W C S) (Output W C S)

section Lines

variable (owner : U)

/-- What joins the owner's line in a turn. -/
def written (turn : Turn U W C S) : List W :=
  match turn.input with
  | .write item => if turn.state.owner = owner then [item] else []
  | _ => []

/-- What is answered from the owner's line in a turn. -/
def answered (turn : Turn U W C S) : List W :=
  if turn.state.owner = owner then turn.output.answered.map (·.1) else []

theorem step_line (box : Outbox U W C) (input : Input U W C S) :
    box.waiting owner ++ written owner ⟨box, input, (step box input).2⟩ =
      answered owner ⟨box, input, (step box input).2⟩ ++ (step box input).1.waiting owner := by
  unfold written answered
  cases input with
  | write item =>
    by_cases h : box.owner = owner
    · subst h
      simp [step, Output.none, line]
    · simp [step, h, Function.update_of_ne (Ne.symm h)]
  | answer status =>
    simp only [step]
    cases hline : box.line with
    | nil => simp [Output.none]
    | cons item rest =>
      by_cases h : box.owner = owner
      · subst h
        unfold line at hline
        simp [hline]
      · simp [h, Function.update_of_ne (Ne.symm h)]
  | serve o =>
    simp only [step]
    split_ifs <;> simp [Output.none]
  | wait caller =>
    simp only [step]
    split_ifs <;> simp [Output.none]
  | nothing => simp [step, Output.none]

end Lines

/-- Nobody is sent away while the same owner is served. -/
theorem step_cancelled {box : Outbox U W C} {input : Input U W C S}
    (hserve : ∀ owner, input = .serve owner → owner = box.owner) :
    (step box input).2.cancelled = [] := by
  cases input with
  | write item => rfl
  | nothing => rfl
  | serve owner =>
    have hstep : step box (.serve owner : Input U W C S) = (box, .none) :=
      if_pos (hserve owner rfl)
    rw [hstep]
    rfl
  | wait caller =>
    simp only [step]
    split_ifs <;> rfl
  | answer status =>
    simp only [step]
    cases box.line <;> rfl

section Waits

variable [DecidableEq C] (caller : C)

/-- For how many answers the caller waits, each time he does. -/
def counts (box : Outbox U W C) : List ℕ :=
  (box.waits.filter fun w => decide (w.2 = caller)).map (·.1)

/-- Some numbers from which `k` has been taken off, without those it uses up. -/
def countDown (k : ℕ) (ns : List ℕ) : List ℕ := (ns.filter fun n => decide (k < n)).map (· - k)

/-- How many of the numbers `k` uses up. -/
def used (k : ℕ) (ns : List ℕ) : ℕ := ns.countP fun n => decide (n ≤ k)

theorem used_zero {ns : List ℕ} (h : ∀ n ∈ ns, 1 ≤ n) : used 0 ns = 0 := by
  unfold used
  rw [List.countP_eq_zero]
  intro n hn
  have := h n hn
  simp
  omega

theorem countDown_zero {ns : List ℕ} (h : ∀ n ∈ ns, 1 ≤ n) : countDown 0 ns = ns := by
  unfold countDown
  simp only [Nat.sub_zero, List.map_id', List.filter_eq_self, decide_eq_true_eq]
  exact h

theorem used_add (k k' : ℕ) (ns : List ℕ) :
    used (k + k') ns = used k ns + used k' (countDown k ns) := by
  unfold used countDown
  induction ns with
  | nil => rfl
  | cons n ns ih =>
    rw [List.countP_cons, List.countP_cons, List.filter_cons]
    by_cases hk : k < n
    · simp only [hk, decide_true, if_true, List.map_cons, List.countP_cons, ih, decide_eq_true_eq]
      split_ifs <;> omega
    · simp only [hk, decide_false, ih, decide_eq_true_eq]
      split_ifs <;> simp at * <;> omega

theorem countDown_add (k k' : ℕ) (ns : List ℕ) :
    countDown (k + k') ns = countDown k' (countDown k ns) := by
  unfold countDown
  rw [List.filter_map, List.map_map, List.filter_filter]
  have hfilter : (ns.filter fun n => decide (k + k' < n)) =
      ns.filter fun n => ((fun n => decide (k' < n)) ∘ (· - k)) n && decide (k < n) := by
    refine List.filter_congr fun n _ => ?_
    rw [Function.comp_apply, ← Bool.decide_and, decide_eq_decide]
    omega
  rw [hfilter]
  refine List.map_congr_left fun n _ => ?_
  exact Nat.sub_add_eq n k k'

theorem used_once (k n : ℕ) :
    (if n = 0 then 1 else 0) + used k (if n = 0 then [] else [n]) = if n ≤ k then 1 else 0 := by
  unfold used
  by_cases hzero : n = 0
  · simp [hzero]
  · simp [hzero, List.countP_cons]

theorem length_countDown_once (k n : ℕ) :
    (countDown k (if n = 0 then [] else [n])).length = if n ≤ k then 0 else 1 := by
  unfold countDown
  by_cases hzero : n = 0
  · simp [hzero]
  · by_cases hle : n ≤ k
    · simp [hzero, hle, Nat.not_lt.mpr hle]
    · simp [hzero, hle, Nat.not_le.mp hle]

theorem pos_of_mem_countDown {k n : ℕ} {ns : List ℕ} (h : n ∈ countDown k ns) : 1 ≤ n := by
  unfold countDown at h
  obtain ⟨m, hm, rfl⟩ := List.mem_map.mp h
  have := (List.mem_filter.mp hm).2
  simp at this
  omega

variable {caller} {box : Outbox U W C}

/-- Of those who wait, an answer reaches the caller as often as he waits for one answer. -/
theorem count_reached_one {ws : List (ℕ × C)} (hpos : ∀ w ∈ ws, w.2 = caller → 1 ≤ w.1) :
    ((ws.filter fun w => decide (w.1 = 1)).map (·.2)).count caller =
      used 1 ((ws.filter fun w => decide (w.2 = caller)).map (·.1)) := by
  unfold used
  rw [List.count_eq_countP, List.countP_map, List.countP_filter, List.countP_map,
    List.countP_filter]
  refine List.countP_congr fun w hw => ?_
  simp only [Function.comp_apply, Bool.and_eq_true, beq_iff_eq, decide_eq_true_eq]
  constructor
  · rintro ⟨hcaller, hone⟩
    exact ⟨Nat.le_of_eq hone, hcaller⟩
  · rintro ⟨hle, hcaller⟩
    exact ⟨hcaller, Nat.le_antisymm hle (hpos w hw hcaller)⟩

/-- An answer takes one off what the caller still waits for. -/
theorem counts_countDown_one {ws : List (ℕ × C)} (hpos : ∀ w ∈ ws, w.2 = caller → 1 ≤ w.1) :
    ((((ws.filter fun w => decide (w.1 ≠ 1)).map fun w => (w.1 - 1, w.2)).filter
        fun w => decide (w.2 = caller)).map (·.1)) =
      countDown 1 ((ws.filter fun w => decide (w.2 = caller)).map (·.1)) := by
  unfold countDown
  rw [List.filter_map, List.map_map, List.filter_map, List.map_map, List.filter_filter,
    List.filter_filter]
  refine congrArg _ (List.filter_congr fun w hw => ?_)
  simp only [Function.comp_apply]
  by_cases hcaller : w.2 = caller
  · have := hpos w hw hcaller
    simp only [hcaller, decide_true, Bool.true_and, Bool.and_true, decide_eq_decide]
    omega
  · simp only [hcaller, decide_false, Bool.false_and, Bool.and_false]

/-- An answer brings everybody who waits one closer, and those who waited for it are told. -/
theorem step_counts (hpos : ∀ n ∈ box.counts caller, 1 ≤ n) {input : Input U W C S}
    (hserve : ∀ owner, input = .serve owner → owner = box.owner) (hwait : input ≠ .wait caller) :
    (step box input).2.reached.count caller =
        used (step box input).2.answered.length (box.counts caller) ∧
      (step box input).1.counts caller =
        countDown (step box input).2.answered.length (box.counts caller) ∧
      (step box input).1.owner = box.owner := by
  cases input with
  | write item => exact ⟨(used_zero hpos).symm, (countDown_zero hpos).symm, rfl⟩
  | nothing => exact ⟨(used_zero hpos).symm, (countDown_zero hpos).symm, rfl⟩
  | serve owner =>
    have hstep : step box (.serve owner : Input U W C S) = (box, .none) :=
      if_pos (hserve owner rfl)
    rw [hstep]
    exact ⟨(used_zero hpos).symm, (countDown_zero hpos).symm, rfl⟩
  | wait caller' =>
    have hne : caller' ≠ caller := fun h => hwait (h ▸ rfl)
    simp only [step]
    split_ifs with h
    · refine ⟨?_, (countDown_zero hpos).symm, rfl⟩
      simp only [List.length_nil, used_zero hpos]
      exact List.count_eq_zero.mpr fun h => hne (List.mem_singleton.mp h).symm
    · refine ⟨(used_zero hpos).symm, ?_, rfl⟩
      simp only [Output.none, List.length_nil, countDown_zero hpos]
      unfold counts
      simp [List.filter_append, hne]
  | answer status =>
    simp only [step]
    cases hline : box.line with
    | nil => exact ⟨(used_zero hpos).symm, (countDown_zero hpos).symm, rfl⟩
    | cons item rest =>
      have hwaits : ∀ w ∈ box.waits, w.2 = caller → 1 ≤ w.1 := fun w hw hcaller =>
        hpos w.1 (List.mem_map_of_mem (List.mem_filter.mpr ⟨hw, decide_eq_true hcaller⟩))
      exact ⟨count_reached_one hwaits, counts_countDown_one hwaits, rfl⟩

/-- A caller who did not wait is told at once if the line is empty, and else waits for it. -/
theorem step_wait (hnew : box.counts caller = []) :
    (step box (.wait caller : Input U W C S)).2.reached.count caller =
        (if box.line.length = 0 then 1 else 0) ∧
      (step box (.wait caller : Input U W C S)).1.counts caller =
        (if box.line.length = 0 then [] else [box.line.length]) ∧
      (step box (.wait caller : Input U W C S)).2.answered = [] ∧
      (step box (.wait caller : Input U W C S)).1.owner = box.owner := by
  simp only [step]
  cases hline : box.line with
  | nil => exact ⟨List.count_singleton_self, hnew, rfl, rfl⟩
  | cons item rest =>
    refine ⟨rfl, ?_, rfl, rfl⟩
    unfold counts at hnew ⊢
    rw [if_neg (by simp), List.filter_append, List.map_append, hnew]
    simp

/-- While one owner is served, a caller is told, once for each time he waits, with the answer to the
item that was last when he asked, and nobody is sent away. -/
theorem count_reached (hpos : ∀ n ∈ box.counts caller, 1 ≤ n) {inputs : List (Input U W C S)}
    (hserve : ∀ owner, .serve owner ∈ inputs → owner = box.owner) (hwait : .wait caller ∉ inputs) :
    ((mealy step box inputs).2.flatMap (·.output.reached)).count caller =
        used ((mealy step box inputs).2.flatMap (·.output.answered)).length (box.counts caller) ∧
      (mealy step box inputs).1.counts caller =
        countDown ((mealy step box inputs).2.flatMap (·.output.answered)).length
          (box.counts caller) ∧
      (mealy step box inputs).2.flatMap (·.output.cancelled) = [] ∧
      (mealy step box inputs).1.owner = box.owner := by
  induction inputs generalizing box with
  | nil => exact ⟨(used_zero hpos).symm, (countDown_zero hpos).symm, rfl, rfl⟩
  | cons input inputs ih =>
    obtain ⟨hreached, hcounts, howner⟩ := step_counts hpos
      (fun owner h => hserve owner (h ▸ List.mem_cons_self))
      (fun h => hwait (h ▸ List.mem_cons_self))
    obtain ⟨ihreached, ihcounts, ihcancelled, ihowner⟩ := ih
      (fun n hn => pos_of_mem_countDown (hcounts ▸ hn))
      (fun owner h => (hserve owner (List.mem_cons_of_mem _ h)).trans howner.symm)
      (fun h => hwait (List.mem_cons_of_mem _ h))
    rw [mealy_cons, List.flatMap_cons, List.flatMap_cons, List.flatMap_cons, List.count_append,
      List.length_append]
    refine ⟨?_, ?_, ?_, ihowner.trans howner⟩
    · rw [ihreached, hreached, hcounts, used_add]
    · rw [ihcounts, hcounts, countDown_add]
    · rw [ihcancelled, step_cancelled fun owner h => hserve owner (h ▸ List.mem_cons_self)]
      rfl

/-- A caller who did not wait is told once, with the answer to the item that is last when he asks,
if his owner is served until then, and nobody is sent away. -/
theorem wait_reached_once (hnew : box.counts caller = []) {inputs : List (Input U W C S)}
    (hserve : ∀ owner, .serve owner ∈ inputs → owner = box.owner) (hwait : .wait caller ∉ inputs) :
    ((mealy step box (.wait caller :: inputs)).2.flatMap (·.output.reached)).count caller =
        (if box.line.length ≤
          ((mealy step box (.wait caller :: inputs)).2.flatMap (·.output.answered)).length
          then 1 else 0) ∧
      ((mealy step box (.wait caller :: inputs)).1.counts caller).length =
        (if box.line.length ≤
          ((mealy step box (.wait caller :: inputs)).2.flatMap (·.output.answered)).length
          then 0 else 1) ∧
      (mealy step box (.wait caller :: inputs)).2.flatMap (·.output.cancelled) = [] ∧
      (mealy step box (.wait caller :: inputs)).1.owner = box.owner := by
  obtain ⟨hreached, hcounts, hanswered, howner⟩ := step_wait (S := S) hnew
  have hpos : ∀ n ∈ (step box (.wait caller : Input U W C S)).1.counts caller, 1 ≤ n := by
    intro n hn
    rw [hcounts] at hn
    split_ifs at hn with hzero
    · cases hn
    · rw [List.mem_singleton.mp hn]
      omega
  obtain ⟨htold, hleft, hcancelled, howner'⟩ := count_reached hpos
    (fun owner h => (hserve owner h).trans howner.symm) hwait
  rw [mealy_cons, List.flatMap_cons, List.flatMap_cons, List.flatMap_cons, List.count_append,
    hreached, hanswered, hcancelled, step_cancelled (fun _ h => by cases h), List.nil_append]
  rw [hcounts] at htold hleft
  exact ⟨htold ▸ used_once _ _, hleft ▸ length_countDown_once _ _, rfl, howner'.trans howner⟩

/-- Who still waits when another owner is served is sent away. -/
theorem count_cancelled (box : Outbox U W C) (caller : C) {owner : U} (h : owner ≠ box.owner) :
    (step box (.serve owner : Input U W C S)).2.cancelled.count caller =
      (box.counts caller).length := by
  have hstep : step box (.serve owner : Input U W C S) =
      ({ box with owner := owner, waits := [] }, ⟨[], [], box.waits.map (·.2)⟩) := if_neg h
  unfold counts
  rw [hstep, List.length_map, List.count_eq_countP, List.countP_map, List.countP_eq_length_filter]
  rfl

/-- Who does not wait is not told. -/
theorem step_untold (hnone : box.counts caller = []) {input : Input U W C S}
    (hwait : input ≠ .wait caller) :
    (step box input).2.reached.count caller = 0 ∧ (step box input).2.cancelled.count caller = 0 ∧
      (step box input).1.counts caller = [] := by
  by_cases hserve : ∀ owner, input = .serve owner → owner = box.owner
  · obtain ⟨hreached, hcounts, -⟩ := step_counts (by rw [hnone]; simp) hserve hwait
    rw [hnone] at hreached hcounts
    exact ⟨hreached, by rw [step_cancelled hserve]; rfl, hcounts⟩
  · simp only [not_forall] at hserve
    obtain ⟨owner, rfl, hne⟩ := hserve
    have hcancelled := count_cancelled (S := S) box caller hne
    rw [hnone] at hcancelled
    refine ⟨?_, hcancelled, ?_⟩
    · rw [show step box (.serve owner : Input U W C S) = _ from if_neg hne]
      rfl
    · rw [show step box (.serve owner : Input U W C S) = _ from if_neg hne]
      rfl

/-- Over a run, who does not wait and does not ask is not told, whoever is served. -/
theorem untold (hnone : box.counts caller = []) {inputs : List (Input U W C S)}
    (hwait : .wait caller ∉ inputs) :
    ((mealy step box inputs).2.flatMap (·.output.reached)).count caller = 0 ∧
      ((mealy step box inputs).2.flatMap (·.output.cancelled)).count caller = 0 := by
  induction inputs generalizing box with
  | nil => exact ⟨rfl, rfl⟩
  | cons input inputs ih =>
    obtain ⟨hreached, hcancelled, hcounts⟩ := step_untold hnone
      fun h => hwait (h ▸ List.mem_cons_self)
    obtain ⟨ihreached, ihcancelled⟩ := ih hcounts fun h => hwait (List.mem_cons_of_mem _ h)
    rw [mealy_cons, List.flatMap_cons, List.flatMap_cons, List.count_append, List.count_append]
    exact ⟨by rw [hreached, ihreached], by rw [hcancelled, ihcancelled]⟩

/-- Who still waits when another owner is served is sent away once, and not told again. -/
theorem serve_cancels_once {owner : U} (h : owner ≠ box.owner) {inputs : List (Input U W C S)}
    (hwait : .wait caller ∉ inputs) :
    ((mealy step box (.serve owner :: inputs)).2.flatMap (·.output.reached)).count caller = 0 ∧
      ((mealy step box (.serve owner :: inputs)).2.flatMap (·.output.cancelled)).count caller =
        (box.counts caller).length := by
  have hstep : step box (.serve owner : Input U W C S) =
      ({ box with owner := owner, waits := [] }, ⟨[], [], box.waits.map (·.2)⟩) := if_neg h
  have hcancelled := count_cancelled (S := S) box caller h
  rw [hstep] at hcancelled
  have hnone : ({ box with owner := owner, waits := [] } : Outbox U W C).counts caller = [] := rfl
  obtain ⟨hreached, hlater⟩ := untold hnone hwait
  rw [mealy_cons, List.flatMap_cons, List.flatMap_cons, List.count_append, List.count_append, hstep,
    hreached, hcancelled, hlater]
  exact ⟨rfl, rfl⟩

end Waits

end Outbox
