import GroceryApp.ViewModels.AuthWorld

/-!
# Login attempts on one screen

The success closure of `onTapLogin` changes the view model in its callback, the failure closure in a
block that it queues once more, and neither knows its attempt. So a failure can be applied after
the success of a later attempt. On the main queue this happens exactly when the callback of the
failure runs while a later attempt has been answered with success, and then the screen does not
report the latest attempt (`latestReported_iff`).
-/

namespace GroceryApp

open Runs

/-- The blocks that an attempt puts on the main queue. -/
inductive LoginBlock where
  | callback (attempt : ℕ) (error : Option String)
  | showError (attempt : ℕ) (message : String)
  deriving DecidableEq

/-- The answer to its attempt that a block carries. -/
def LoginBlock.answer : LoginBlock → ℕ × Option String
  | callback attempt error => (attempt, error)
  | showError attempt message => (attempt, some message)

/-- Attempts are numbered in the order of the taps. -/
inductive LoginEvent where
  | tapLogin (attempt : ℕ)
  | completed (attempt : ℕ) (error : Option String)
  | runBlock

/-- The attempts, their answers in the order in which they came, the main queue, the answers that
the view model has been changed for, and the view model. -/
structure LoginScreen where
  attempts : List ℕ := []
  answers : List (ℕ × Option String) := []
  mainQueue : List LoginBlock := []
  applied : List (ℕ × Option String) := []
  viewModel : LoginViewModel := {}

namespace LoginScreen

/-- The attempt has been tapped and not yet answered. -/
def Open (s : LoginScreen) (attempt : ℕ) : Prop :=
  attempt ∈ s.attempts ∧ attempt ∉ s.answers.map Prod.fst

instance (s : LoginScreen) (attempt : ℕ) : Decidable (s.Open attempt) :=
  inferInstanceAs (Decidable (attempt ∈ s.attempts ∧ attempt ∉ s.answers.map Prod.fst))

/-- `login` hands the error to `onFailure`, or calls `onSuccess`. -/
def runBlock (s : LoginScreen) : LoginBlock → LoginScreen
  | .callback attempt none => { s with
      applied := s.applied ++ [(attempt, none)]
      viewModel := { s.viewModel with isError := false, isNavigateToHomeScreen := true } }
  | .callback attempt (some error) =>
    { s with mainQueue := s.mainQueue ++ [.showError attempt error] }
  | .showError attempt error => { s with
      applied := s.applied ++ [(attempt, some error)]
      viewModel := { s.viewModel with errorMessage := error, isError := true } }

def step (s : LoginScreen) : LoginEvent → LoginScreen
  | .tapLogin attempt =>
    if ∀ earlier ∈ s.attempts, earlier < attempt then
      { s with attempts := s.attempts ++ [attempt] }
    else s
  | .completed attempt error =>
    if s.Open attempt then
      { s with
        answers := s.answers ++ [(attempt, error)]
        mainQueue := s.mainQueue ++ [.callback attempt error] }
    else s
  | .runBlock =>
    match s.mainQueue with
    | [] => s
    | block :: mainQueue => { s with mainQueue }.runBlock block

/-- All a step can do. -/
inductive Effect (s : LoginScreen) : LoginEvent → LoginScreen → Prop where
  | nothing (e : LoginEvent) (h : e = .runBlock → s.mainQueue = [])
      (hopen : ∀ a error, e = .completed a error → ¬ s.Open a) : Effect s e s
  | tapped (a : ℕ) (h : ∀ b ∈ s.attempts, b < a) :
      Effect s (.tapLogin a) { s with attempts := s.attempts ++ [a] }
  | completed (a : ℕ) (error : Option String) (h : a ∈ s.attempts)
      (hnew : a ∉ s.answers.map Prod.fst) :
      Effect s (.completed a error) { s with
        answers := s.answers ++ [(a, error)], mainQueue := s.mainQueue ++ [.callback a error] }
  | succeeded (a : ℕ) (rest : List LoginBlock) (h : s.mainQueue = .callback a none :: rest) :
      Effect s .runBlock { s with
        mainQueue := rest, applied := s.applied ++ [(a, none)],
        viewModel := { s.viewModel with isError := false, isNavigateToHomeScreen := true } }
  | failed (a : ℕ) (error : String) (rest : List LoginBlock)
      (h : s.mainQueue = .callback a (some error) :: rest) :
      Effect s .runBlock { s with mainQueue := rest ++ [.showError a error] }
  | shown (a : ℕ) (error : String) (rest : List LoginBlock)
      (h : s.mainQueue = .showError a error :: rest) :
      Effect s .runBlock { s with
        mainQueue := rest, applied := s.applied ++ [(a, some error)],
        viewModel := { s.viewModel with errorMessage := error, isError := true } }

variable {s s' : LoginScreen} {e : LoginEvent}

theorem step_effect (s : LoginScreen) (e : LoginEvent) : Effect s e (s.step e) := by
  cases e with
  | tapLogin a =>
    unfold step
    dsimp only
    split_ifs with h
    · exact .tapped a h
    · exact .nothing _ (by simp) (by simp)
  | completed a error =>
    unfold step
    dsimp only
    split_ifs with h
    · exact .completed a error h.1 h.2
    · refine .nothing _ (by simp) fun a' error' he => ?_
      obtain ⟨rfl, -⟩ := LoginEvent.completed.inj he
      exact h
  | runBlock =>
    unfold step
    dsimp only
    split
    · rename_i hqueue
      exact .nothing _ (fun _ => hqueue) (by simp)
    · rename_i block rest hqueue
      rcases block with ⟨a, _ | error⟩ | ⟨a, error⟩
      · exact .succeeded a rest hqueue
      · exact .failed a error rest hqueue
      · exact .shown a error rest hqueue

/-! ## What every run keeps -/

/-- The view model shows the answer applied last. -/
def Shows (viewModel : LoginViewModel) : Option (ℕ × Option String) → Prop
  | some (_, some error) => viewModel.isError = true ∧ viewModel.errorMessage = error
  | _ => viewModel.isError = false

/-- Every attempt has one answer at most, which is applied or waits in the queue. -/
structure Good (s : LoginScreen) : Prop where
  ascending : s.attempts.Pairwise (· < ·)
  attempted : ∀ x ∈ s.answers, x.1 ∈ s.attempts
  nodup : (s.answers.map Prod.fst).Nodup
  conserved : s.answers.Perm (s.applied ++ s.mainQueue.map LoginBlock.answer)
  shows : Shows s.viewModel s.applied.getLast?

theorem good_init : Good {} where
  ascending := .nil
  attempted := by simp
  nodup := .nil
  conserved := .nil
  shows := rfl

theorem Good.effect (hs : Good s) (h : Effect s e s') : Good s' := by
  obtain ⟨hascending, hattempted, hnodup, hconserved, hshows⟩ := hs
  cases h with
  | nothing => exact ⟨hascending, hattempted, hnodup, hconserved, hshows⟩
  | tapped a hlt =>
    refine ⟨?_, fun x hx => List.mem_append_left _ (hattempted x hx), hnodup, hconserved, hshows⟩
    refine List.pairwise_append.mpr ⟨hascending, List.pairwise_singleton _ _, fun b hb c hc => ?_⟩
    rw [List.mem_singleton.mp hc]
    exact hlt b hb
  | completed a error ha hnew =>
    refine ⟨hascending, fun x hx => ?_, ?_, ?_, hshows⟩
    · rcases List.mem_append.mp hx with hx | hx
      · exact hattempted x hx
      · rw [List.mem_singleton.mp hx]
        exact ha
    · rw [List.map_append, List.nodup_append_comm]
      exact List.nodup_cons.mpr ⟨hnew, hnodup⟩
    · rw [List.map_append, ← List.append_assoc]
      exact hconserved.append_right _
  | succeeded a rest hqueue =>
    refine ⟨hascending, hattempted, hnodup, ?_, ?_⟩
    · rw [List.append_assoc]
      rwa [hqueue] at hconserved
    · rw [List.getLast?_concat]
      rfl
  | failed a error rest hqueue =>
    refine ⟨hascending, hattempted, hnodup, ?_, hshows⟩
    rw [hqueue] at hconserved
    refine hconserved.trans (List.Perm.append_left _ ?_)
    rw [List.map_append]
    exact (List.perm_append_singleton _ _).symm
  | shown a error rest hqueue =>
    refine ⟨hascending, hattempted, hnodup, ?_, ?_⟩
    · rw [List.append_assoc]
      rwa [hqueue] at hconserved
    · rw [List.getLast?_concat]
      exact ⟨rfl, rfl⟩

theorem Good.step (hs : Good s) (e : LoginEvent) : Good (s.step e) := hs.effect (step_effect s e)

/-- Two answers of one attempt are one. -/
theorem Good.answer_unique (hs : Good s) {a : ℕ} {error error' : Option String}
    (h : (a, error) ∈ s.answers) (h' : (a, error') ∈ s.answers) : error = error' :=
  (Prod.mk.inj (List.inj_on_of_nodup_map hs.nodup h h' rfl)).2

/-- A success that has been answered is applied or its callback is queued. -/
theorem Good.answered_success_iff (hs : Good s) {b : ℕ} :
    (b, none) ∈ s.answers ↔ (b, none) ∈ s.applied ∨ .callback b none ∈ s.mainQueue := by
  rw [hs.conserved.mem_iff, List.mem_append, List.mem_map]
  refine or_congr_right ⟨?_, fun h => ⟨_, h, rfl⟩⟩
  rintro ⟨⟨a, error⟩ | ⟨a, error⟩, hmem, hanswer⟩
  · obtain ⟨rfl, rfl⟩ := Prod.mk.inj hanswer
    exact hmem
  · cases hanswer

/-! ## Failures that are applied too late -/

/-- No failure of an earlier attempt raises the alert after the success of a later one. -/
def AlertInTime (s : LoginScreen) (e : LoginEvent) : Prop :=
  ∀ a error rest, e = .runBlock → s.mainQueue = .showError a error :: rest →
    ∀ b, a < b → (b, none) ∉ s.applied

/-- When the callback of a failed attempt runs, no later attempt has been answered with success. -/
def NoLaterSuccess (s : LoginScreen) (e : LoginEvent) : Prop :=
  ∀ a error rest, e = .runBlock → s.mainQueue = .callback a (some error) :: rest →
    ∀ b, a < b → (b, none) ∉ s.answers

/-- The success of a later attempt is neither applied nor queued before a failure that is queued. -/
structure Timely (s : LoginScreen) : Prop where
  applied : ∀ a error, .showError a error ∈ s.mainQueue → ∀ b, a < b → (b, none) ∉ s.applied
  queued : s.mainQueue.Pairwise fun x y =>
    ∀ b a error, x = .callback b none → y = .showError a error → ¬ a < b

theorem Timely.effect (hs : Good s) (ht : Timely s) (hsuccess : NoLaterSuccess s e)
    (h : Effect s e s') : Timely s' := by
  obtain ⟨happlied, hqueued⟩ := ht
  cases h with
  | nothing => exact ⟨happlied, hqueued⟩
  | tapped => exact ⟨happlied, hqueued⟩
  | completed a' error' =>
    refine ⟨fun a error hmem => happlied a error (by simpa using hmem), ?_⟩
    refine List.pairwise_append.mpr ⟨hqueued, List.pairwise_singleton _ _, ?_⟩
    rintro x - y hy b a error - rfl
    cases List.mem_singleton.mp hy
  | succeeded a' rest hhead =>
    rw [hhead] at happlied hqueued
    obtain ⟨hfirst, hrest⟩ := List.pairwise_cons.mp hqueued
    refine ⟨fun a error hmem b hab hb => ?_, hrest⟩
    rcases List.mem_append.mp hb with hb | hb
    · exact happlied a error (List.mem_cons_of_mem _ hmem) b hab hb
    · obtain ⟨rfl, -⟩ := Prod.mk.inj (List.mem_singleton.mp hb)
      exact hfirst _ hmem b a error rfl rfl hab
  | failed a' error' rest hhead =>
    -- what can come before the new block has been answered
    have hlater : ∀ b, a' < b → (b, none) ∉ s.answers := hsuccess a' error' rest rfl hhead
    rw [hhead] at happlied hqueued
    refine ⟨fun a error hmem b hab hb => ?_, ?_⟩
    · rcases List.mem_append.mp hmem with hmem | hmem
      · exact happlied a error (List.mem_cons_of_mem _ hmem) b hab hb
      · obtain ⟨rfl, -⟩ := LoginBlock.showError.inj (List.mem_singleton.mp hmem)
        exact hlater b hab (hs.answered_success_iff.mpr (.inl hb))
    · refine List.pairwise_append.mpr
        ⟨(List.pairwise_cons.mp hqueued).2, List.pairwise_singleton _ _, ?_⟩
      rintro x hx y hy b a error rfl rfl hab
      obtain ⟨rfl, -⟩ := LoginBlock.showError.inj (List.mem_singleton.mp hy)
      refine hlater b hab (hs.answered_success_iff.mpr (.inr ?_))
      rw [hhead]
      exact List.mem_cons_of_mem _ hx
  | shown a' error' rest hhead =>
    rw [hhead] at happlied hqueued
    refine ⟨fun a error hmem b hab hb => ?_, (List.pairwise_cons.mp hqueued).2⟩
    rcases List.mem_append.mp hb with hb | hb
    · exact happlied a error (List.mem_cons_of_mem _ hmem) b hab hb
    · cases List.mem_singleton.mp hb

/-- The failure of `a` is queued, and the success of `b` is applied or queued before it. -/
def Late (a b : ℕ) (s : LoginScreen) : Prop :=
  ∃ error, .showError a error ∈ s.mainQueue ∧
    ((b, none) ∈ s.applied ∨ List.Sublist [.callback b none, .showError a error] s.mainQueue)

/-- A late failure stays late until it raises the alert. -/
theorem Late.effect {a b : ℕ} (hlate : Late a b s) (hab : a < b) (htime : AlertInTime s e)
    (h : Effect s e s') : Late a b s' := by
  obtain ⟨error, hmem, horder⟩ := hlate
  cases h with
  | nothing => exact ⟨error, hmem, horder⟩
  | tapped => exact ⟨error, hmem, horder⟩
  | completed a' error' =>
    exact ⟨error, List.mem_append_left _ hmem,
      horder.imp_right fun hsub => hsub.trans (List.sublist_append_left _ _)⟩
  | succeeded a' rest hhead =>
    rw [hhead] at hmem horder
    have hmem' : .showError a error ∈ rest := by simpa using hmem
    refine ⟨error, hmem', ?_⟩
    rcases horder with hb | hsub
    · exact .inl (List.mem_append_left _ hb)
    · rcases List.sublist_cons_iff.mp hsub with hsub | ⟨r, hr, -⟩
      · exact .inr hsub
      · obtain ⟨heq, -⟩ := List.cons.inj hr
        obtain ⟨rfl, -⟩ := LoginBlock.callback.inj heq
        exact .inl (by simp)
  | failed a' error' rest hhead =>
    rw [hhead] at hmem horder
    have hmem' : .showError a error ∈ rest := by simpa using hmem
    refine ⟨error, List.mem_append_left _ hmem', horder.imp_right fun hsub => ?_⟩
    rcases List.sublist_cons_iff.mp hsub with hsub | ⟨r, hr, -⟩
    · exact hsub.trans (List.sublist_append_left _ _)
    · cases (List.cons.inj hr).1
  | shown a' error' rest hhead =>
    rcases horder with hb | hsub
    · refine ⟨error, ?_, .inl (List.mem_append_left _ hb)⟩
      rw [hhead] at hmem
      rcases List.mem_cons.mp hmem with heq | hmem
      · obtain ⟨rfl, rfl⟩ := LoginBlock.showError.inj heq
        exact absurd hb (htime a error rest rfl hhead b hab)
      · exact hmem
    · rw [hhead] at hsub
      rcases List.sublist_cons_iff.mp hsub with hsub | ⟨r, hr, -⟩
      · exact ⟨error, hsub.subset (by simp), .inr hsub⟩
      · cases (List.cons.inj hr).1

/-- Along a run that empties the queue, the alert is in time exactly if no callback of a failure
runs after a later attempt was answered with success. -/
theorem alertInTime_iff {es : List LoginEvent} (hs : Good s) (ht : Timely s)
    (hempty : (run step s es).mainQueue = []) :
    Along step AlertInTime s es ↔ Along step NoLaterSuccess s es := by
  constructor
  · intro htime
    clear ht
    induction es generalizing s with
    | nil => trivial
    | cons e es ih =>
      refine ⟨?_, ih (hs.step e) hempty htime.2⟩
      rintro a error rest rfl hhead b hab hb
      -- otherwise the failure is late from now on, and its block never runs
      have hlate : Late a b (s.step .runBlock) := by
        have hstep : s.step .runBlock =
            { s with mainQueue := rest ++ [.showError a error] } := by
          simp only [step, hhead, runBlock]
        rw [hstep]
        refine ⟨error, by simp, ?_⟩
        rcases hs.answered_success_iff.mp hb with hb | hb
        · exact .inl hb
        · rw [hhead] at hb
          have hrest : .callback b none ∈ rest := by simpa using hb
          exact .inr ((List.singleton_sublist.mpr hrest).append (List.Sublist.refl [_]))
      obtain ⟨error', hmem, -⟩ := run_invariant_along (I := Late a b)
        (fun s e hlate htime => hlate.effect hab htime (step_effect s e)) hlate htime.2
      rw [run_cons] at hempty
      rw [hempty] at hmem
      cases hmem
  · intro hsuccess
    refine along_mono (I := fun s => Good s ∧ Timely s) ?_ ?_ ⟨hs, ht⟩ hsuccess
    · exact fun s e hI hQ => ⟨hI.1.step e, hI.2.effect hI.1 hQ (step_effect s e)⟩
    · rintro s e ⟨-, ht⟩ - a error rest rfl hhead b hab
      exact ht.applied a error (by rw [hhead]; exact List.mem_cons_self) b hab

/-! ## What the screen shows in the end -/

/-- Every attempt is answered and every block has run. -/
def Quiet (s : LoginScreen) : Prop :=
  s.mainQueue = [] ∧ ∀ a ∈ s.attempts, ∃ error, (a, error) ∈ s.answers

/-- The alert is raised exactly if the attempt tapped last failed, and then with its message. -/
structure ShowsLatest (s : LoginScreen) : Prop where
  isError_iff : s.viewModel.isError = true ↔
    ∃ a error, s.attempts.getLast? = some a ∧ (a, some error) ∈ s.answers
  errorMessage : ∀ a error, s.attempts.getLast? = some a → (a, some error) ∈ s.answers →
    s.viewModel.errorMessage = error

/-- If the attempt tapped last failed, the answer applied last is a failure with its message. -/
def FailureApplied (s : LoginScreen) : Prop :=
  ∀ a error, s.attempts.getLast? = some a → (a, some error) ∈ s.answers →
    ∃ b, s.applied.getLast? = some (b, some error)

/-- An answer after the failure of `b` is a success and comes before the callback of `b` has run. -/
def FailurePending (b : ℕ) (error : String) (s : LoginScreen) (e : LoginEvent) : Prop :=
  ∀ c answer, e = .completed c answer → s.Open c →
    answer = none ∧ .callback b (some error) ∈ s.mainQueue

/-- Of the failures that of `b` is answered last, and no success is answered after its callback has
run. -/
def LastFailure (b : ℕ) (error : String) (es : List LoginEvent) : Prop :=
  ∃ es₁ es₂, es = es₁ ++ .completed b (some error) :: es₂ ∧ (run step {} es₁).Open b ∧
    Along step (FailurePending b error) (run step {} (es₁ ++ [.completed b (some error)])) es₂

/-- If the attempt tapped last is answered with a failure, the failure answered last has the same
message, and no success is answered after its callback has run. -/
def FailureStays (es : List LoginEvent) : Prop :=
  ∀ a error, (run step {} es).attempts.getLast? = some a →
    (a, some error) ∈ (run step {} es).answers → ∃ b, LastFailure b error es

/-- No failure was applied after the success of a later attempt. -/
def AppliedInTime (s : LoginScreen) : Prop :=
  s.applied.Pairwise fun x y => ∀ error, x.2 = none → y.2 = some error → ¬ y.1 < x.1

theorem AppliedInTime.effect (happlied : AppliedInTime s) (htime : AlertInTime s e)
    (h : Effect s e s') : AppliedInTime s' := by
  cases h with
  | succeeded a rest hhead =>
    refine List.pairwise_append.mpr ⟨happlied, List.pairwise_singleton _ _, ?_⟩
    rintro x - y hy error - hfailed
    rw [List.mem_singleton.mp hy] at hfailed
    cases hfailed
  | shown a error rest hhead =>
    refine List.pairwise_append.mpr ⟨happlied, List.pairwise_singleton _ _, ?_⟩
    rintro ⟨b, error'⟩ hx y hy error'' rfl - hab
    rw [List.mem_singleton.mp hy] at hab
    exact htime a error rest rfl hhead b hab hx
  | _ => exact happlied

/-- If the answer applied last is a failure, the attempt tapped last failed. -/
theorem Good.latest_failed (hs : Good s) (hquiet : Quiet s) (happlied : AppliedInTime s) {b : ℕ}
    {error : String} (hlast : s.applied.getLast? = some (b, some error)) :
    ∃ a error, s.attempts.getLast? = some a ∧ (a, some error) ∈ s.answers := by
  have hperm : s.answers.Perm s.applied := by simpa [hquiet.1] using hs.conserved
  obtain ⟨front, hfront⟩ := List.getLast?_eq_some_iff.mp hlast
  have hb : (b, some error) ∈ s.answers := hperm.mem_iff.mpr (by simp [hfront])
  obtain ⟨a, ha⟩ : ∃ a, s.attempts.getLast? = some a :=
    ⟨_, List.getLast?_eq_some_getLast (List.ne_nil_of_mem (hs.attempted _ hb))⟩
  obtain ⟨earlier, hearlier⟩ := List.getLast?_eq_some_iff.mp ha
  obtain ⟨answer, hanswer⟩ := hquiet.2 a (by simp [hearlier])
  rcases answer with _ | error'
  · exfalso
    -- the latest attempt succeeded, so a failure of another was applied after its success
    have hlt : b < a := by
      have hb' := hs.attempted _ hb
      have hascending := hs.ascending
      rw [hearlier] at hb' hascending
      rcases List.mem_append.mp hb' with hb' | hb'
      · exact (List.pairwise_append.mp hascending).2.2 b hb' a (List.mem_singleton_self a)
      · obtain rfl : b = a := List.mem_singleton.mp hb'
        cases hs.answer_unique hb hanswer
    have hmem := hperm.mem_iff.mp hanswer
    unfold AppliedInTime at happlied
    rw [hfront] at hmem happlied
    rcases List.mem_append.mp hmem with hmem | hmem
    · exact (List.pairwise_append.mp happlied).2.2 _ hmem _ (List.mem_singleton_self _) error rfl
        rfl hlt
    · cases List.mem_singleton.mp hmem
  · exact ⟨a, error', ha, hanswer⟩

/-- The alert is raised exactly while the answer applied last is a failure, and with its message. -/
theorem Good.isError_iff (hs : Good s) : s.viewModel.isError = true ↔
    ∃ b, s.applied.getLast? = some (b, some s.viewModel.errorMessage) := by
  have hshows := hs.shows
  rcases hget : s.applied.getLast? with _ | ⟨b, _ | error⟩
  · rw [hget] at hshows
    have hlowered : s.viewModel.isError = false := hshows
    simp [hlowered]
  · rw [hget] at hshows
    have hlowered : s.viewModel.isError = false := hshows
    simp [hlowered]
  · rw [hget] at hshows
    obtain ⟨hraised, rfl⟩ := hshows
    exact iff_of_true hraised ⟨b, rfl⟩

theorem Good.showsLatest_iff (hs : Good s) (hquiet : Quiet s) (happlied : AppliedInTime s) :
    ShowsLatest s ↔ FailureApplied s := by
  constructor
  · rintro ⟨hisError, hmessage⟩ a error hlast hanswer
    obtain ⟨b, hb⟩ := hs.isError_iff.mp (hisError.mpr ⟨a, error, hlast, hanswer⟩)
    rw [hmessage a error hlast hanswer] at hb
    exact ⟨b, hb⟩
  · intro hstays
    have hshown : ∀ a error, s.attempts.getLast? = some a → (a, some error) ∈ s.answers →
        s.viewModel.isError = true ∧ s.viewModel.errorMessage = error := by
      intro a error hlast hanswer
      obtain ⟨b, hb⟩ := hstays a error hlast hanswer
      have hshows := hs.shows
      rwa [hb] at hshows
    refine ⟨⟨fun hraised => ?_, ?_⟩, fun a error hlast hanswer => (hshown a error hlast hanswer).2⟩
    · obtain ⟨b, hb⟩ := hs.isError_iff.mp hraised
      exact hs.latest_failed hquiet happlied hb
    · rintro ⟨a, error, hlast, hanswer⟩
      exact (hshown a error hlast hanswer).1

/-! ### The answer applied last -/

/-- The answer for which a block changes the view model when it runs. -/
def LoginBlock.now : LoginBlock → Option (ℕ × Option String)
  | .callback attempt none => some (attempt, none)
  | .callback _ (some _) => none
  | .showError attempt message => some (attempt, some message)

/-- The answer that a block queues once more. -/
def LoginBlock.later : LoginBlock → Option (ℕ × Option String)
  | .callback attempt (some message) => some (attempt, some message)
  | _ => none

/-- What is applied in the end if no more answers come. -/
def toApply (s : LoginScreen) : List (ℕ × Option String) :=
  s.applied ++ s.mainQueue.filterMap LoginBlock.now ++ s.mainQueue.filterMap LoginBlock.later

/-- Only answers change what is applied in the end: a failure comes last, a success before the
failures whose callbacks have not run. -/
theorem toApply_effect (h : Effect s e s') :
    (s'.toApply = s.toApply ∧ ∀ a error, e = .completed a error → ¬ s.Open a) ∨
    (∃ a, e = .completed a none ∧ s.Open a ∧
      s'.toApply = s.applied ++ s.mainQueue.filterMap LoginBlock.now ++ [(a, none)] ++
        s.mainQueue.filterMap LoginBlock.later) ∨
    ∃ a message, e = .completed a (some message) ∧ s.Open a ∧
      s'.toApply = s.toApply ++ [(a, some message)] := by
  cases h with
  | nothing _ _ hopen => exact .inl ⟨rfl, hopen⟩
  | tapped => exact .inl ⟨rfl, by simp⟩
  | completed a error ha hnew =>
    cases error with
    | none =>
      exact .inr (.inl ⟨a, rfl, ⟨ha, hnew⟩, by simp [toApply, LoginBlock.now, LoginBlock.later]⟩)
    | some message =>
      exact .inr (.inr ⟨a, message, rfl, ⟨ha, hnew⟩,
        by simp [toApply, LoginBlock.now, LoginBlock.later]⟩)
  | succeeded a rest hhead =>
    exact .inl ⟨by simp [toApply, hhead, List.filterMap_cons, LoginBlock.now, LoginBlock.later],
      by simp⟩
  | failed a error rest hhead =>
    exact .inl ⟨by simp [toApply, hhead, List.filterMap_cons, LoginBlock.now, LoginBlock.later],
      by simp⟩
  | shown a error rest hhead =>
    exact .inl ⟨by simp [toApply, hhead, List.filterMap_cons, LoginBlock.now, LoginBlock.later],
      by simp⟩

/-- The failure answered last is the one before, or the answer that has just come. -/
theorem lastFailure_concat {b : ℕ} {error : String} {es : List LoginEvent} :
    LastFailure b error (es ++ [e]) ↔
      (e = .completed b (some error) ∧ (run step {} es).Open b) ∨
        LastFailure b error es ∧ FailurePending b error (run step {} es) e := by
  constructor
  · rintro ⟨es₁, es₂, hes, hopen, halong⟩
    rcases List.eq_nil_or_concat es₂ with rfl | ⟨es₂, e', rfl⟩
    · obtain ⟨rfl, he⟩ := List.append_inj' hes rfl
      exact .inl ⟨List.singleton_inj.mp he, hopen⟩
    · rw [List.concat_eq_append, ← List.cons_append, ← List.append_assoc] at hes
      obtain ⟨rfl, he⟩ := List.append_inj' hes rfl
      obtain rfl := List.singleton_inj.mp he
      rw [List.concat_eq_append, along_append, ← run_append] at halong
      refine .inr ⟨⟨es₁, es₂, rfl, hopen, halong.1⟩, ?_⟩
      have hlast := halong.2.1
      rwa [List.append_assoc, List.singleton_append] at hlast
  · rintro (⟨rfl, hopen⟩ | ⟨⟨es₁, es₂, rfl, hopen, halong⟩, hpending⟩)
    · exact ⟨es, [], rfl, hopen, trivial⟩
    · refine ⟨es₁, es₂ ++ [e], by simp, hopen, ?_⟩
      rw [along_append, ← run_append, List.append_assoc, List.singleton_append]
      exact ⟨halong, hpending, trivial⟩

theorem mem_later_iff {queue : List LoginBlock} {b : ℕ} {error : String} :
    (b, some error) ∈ queue.filterMap LoginBlock.later ↔ .callback b (some error) ∈ queue := by
  rw [List.mem_filterMap]
  constructor
  · rintro ⟨⟨a, _ | message⟩ | ⟨a, message⟩, hmem, hlater⟩
    · cases hlater
    · cases hlater
      exact hmem
    · cases hlater
  · exact fun hmem => ⟨_, hmem, rfl⟩

/-- The answer applied in the end is the failure answered last, unless a success is answered after
its callback has run. -/
theorem lastFailure_iff {b : ℕ} {error : String} {es : List LoginEvent} :
    LastFailure b error es ↔ (run step {} es).toApply.getLast? = some (b, some error) := by
  induction es using List.reverseRecOn with
  | nil =>
    refine iff_of_false ?_ (by simp [toApply])
    rintro ⟨es₁, es₂, hes, -⟩
    simp at hes
  | append_singleton es e ih =>
    rw [lastFailure_concat, ih, run_concat]
    set s := run step {} es
    rcases toApply_effect (step_effect s e) with
      ⟨happly, hopen⟩ | ⟨a, rfl, hopen, happly⟩ | ⟨a, message, rfl, hopen, happly⟩
    · -- nothing is answered
      have hpending : FailurePending b error s e :=
        fun c answer he hc => absurd hc (hopen c answer he)
      rw [happly, and_iff_left hpending, or_iff_right]
      rintro ⟨he, hb⟩
      exact hopen _ _ he hb
    · -- a success is applied after the failure, unless the failure has not been queued once more
      have hpending : FailurePending b error s (.completed a none) ↔
          .callback b (some error) ∈ s.mainQueue := by
        constructor
        · exact fun h => (h a none rfl hopen).2
        · rintro h c answer he -
          obtain ⟨-, rfl⟩ := LoginEvent.completed.inj he
          exact ⟨rfl, h⟩
      rw [happly, hpending, ← mem_later_iff, or_iff_right (by simp), toApply, List.getLast?_append,
        List.getLast?_append]
      cases hlast : (s.mainQueue.filterMap LoginBlock.later).getLast? with
      | none =>
        rw [List.getLast?_eq_none_iff.mp hlast]
        simp
      | some x =>
        rw [List.getLast?_append, hlast, Option.some_or, Option.some_or, and_iff_left_iff_imp]
        rintro ⟨⟩
        exact List.mem_of_getLast? hlast
    · -- a failure is applied last
      have hpending : ¬ FailurePending b error s (.completed a (some message)) :=
        fun h => by cases (h a (some message) rfl hopen).1
      simp only [happly, List.getLast?_concat, hpending, and_false, or_false,
        LoginEvent.completed.injEq, Option.some.injEq, Prod.mk.injEq]
      exact and_iff_left_of_imp fun h => h.1 ▸ hopen

theorem failureStays_iff {es : List LoginEvent} (hquiet : Quiet (run step {} es)) :
    FailureStays es ↔ FailureApplied (run step {} es) := by
  have happlied : (run step {} es).toApply = (run step {} es).applied := by
    simp [toApply, hquiet.1]
  simp only [FailureStays, FailureApplied, lastFailure_iff, happlied]

/-- For every number of attempts, all answers and every order of their completions and of the
blocks on the main queue: once all blocks have run, the screen reports the latest attempt and no
alert was raised by an earlier attempt after the success of a later one, exactly if no callback of
a failed attempt ran after a later attempt had been answered with success, and, should the latest
attempt be answered with a failure, the failure answered last has the same message and no success
was answered after its callback had run. -/
theorem latestReported_iff (es : List LoginEvent) (hquiet : Quiet (run step {} es)) :
    (ShowsLatest (run step {} es) ∧ Along step AlertInTime {} es) ↔
      (Along step NoLaterSuccess {} es ∧ FailureStays es) := by
  have hs : Good (run step {} es) := run_invariant (fun _ e h => h.step e) good_init es
  have htimely : Timely {} := ⟨by simp, .nil⟩
  have hiff := alertInTime_iff good_init htimely hquiet.1
  have happlied : Along step AlertInTime {} es → AppliedInTime (run step {} es) :=
    run_invariant_along (I := AppliedInTime)
      (fun s e h htime => h.effect htime (step_effect s e)) List.Pairwise.nil
  rw [failureStays_iff hquiet]
  constructor
  · rintro ⟨hshows, htime⟩
    exact ⟨hiff.mp htime, (hs.showsLatest_iff hquiet (happlied htime)).mp hshows⟩
  · rintro ⟨hsuccess, hstays⟩
    have htime := hiff.mpr hsuccess
    exact ⟨(hs.showsLatest_iff hquiet (happlied htime)).mpr hstays, htime⟩

/-- The first attempt fails, the second succeeds, and both are answered before the callback of the
first runs. -/
def failureRequeued : List LoginEvent :=
  [.tapLogin 0, .completed 0 (some "The password is invalid."), .tapLogin 1, .completed 1 none,
    .runBlock, .runBlock, .runBlock]

theorem quiet_failureRequeued : Quiet (run step {} failureRequeued) := by
  refine ⟨by decide, fun a ha => ?_⟩
  have hattempts : (run step {} failureRequeued).attempts = [0, 1] := by decide
  rw [hattempts] at ha
  rcases List.mem_cons.mp ha with rfl | ha
  · exact ⟨some "The password is invalid.", by decide⟩
  · obtain rfl := List.mem_singleton.mp ha
    exact ⟨none, by decide⟩

theorem latestReported_failureRequeued :
    (ShowsLatest (run step {} failureRequeued) ∧ Along step AlertInTime {} failureRequeued) ↔
      (Along step NoLaterSuccess {} failureRequeued ∧
        FailureStays failureRequeued) :=
  latestReported_iff failureRequeued quiet_failureRequeued

/-- The alert of the first attempt is raised over the home screen of the second. -/
theorem latestReported_fails : ¬ ∀ es : List LoginEvent, Quiet (run step {} es) →
    ShowsLatest (run step {} es) ∧ Along step AlertInTime {} es := by
  intro h
  have hshows := (h failureRequeued quiet_failureRequeued).1
  obtain ⟨a, error, hlast, hanswer⟩ := hshows.isError_iff.mp (by decide)
  have hattempts : (run step {} failureRequeued).attempts.getLast? = some 1 := by decide
  have hanswers : (run step {} failureRequeued).answers =
      [(0, some "The password is invalid."), (1, none)] := by decide
  obtain rfl := Option.some.inj (hattempts.symm.trans hlast)
  rw [hanswers] at hanswer
  simp at hanswer

end LoginScreen

end GroceryApp
