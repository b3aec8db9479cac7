import GroceryApp.ViewModels.AuthWorld

/-!
# Who reaches the home screen

The login view model shows the home screen after a login that succeeded. The app shows it also for
every opened URL with `home` in it, and asks nobody who is signed in (`home_screen_only_after`).
-/

namespace GroceryApp

open Runs

namespace AuthWorld

variable {w w' : AuthWorld} {e : AuthEvent}

theorem Effect.reports_mono (h : Effect w e w') : w.reports <+: w'.reports := by
  cases h with
  | loginFailure | loginSuccess | registerFailure | registerSuccess =>
    exact List.prefix_append _ _
  | _ => exact List.prefix_rfl

/-- A login of the run has reported success. -/
def LoggedIn (w : AuthWorld) : Prop :=
  ∃ id email password, w.calls[id]? = some (.login email password) ∧ (id, .onSuccess) ∈ w.reports

theorem LoggedIn.effect (hw : w.LoggedIn) (h : Effect w e w') : w'.LoggedIn := by
  obtain ⟨id, email, password, hcall, hreport⟩ := hw
  obtain ⟨hid, hget⟩ := List.getElem?_eq_some_iff.mp hcall
  have hcall' := List.prefix_iff_getElem?.mp h.calls_mono id hid
  exact ⟨id, email, password, hget ▸ hcall', h.reports_mono.subset hreport⟩

/-- The login view model shows the home screen only with a current user. -/
structure HomeSignedIn (w : AuthWorld) : Prop where
  queued : w.SignedInIfQueued
  currentUser : w.loginViewModel.isNavigateToHomeScreen = true → w.currentUser.isSome

theorem homeSignedIn_init : HomeSignedIn {} where
  queued := by
    intro id hid
    cases hid
  currentUser := by
    intro h
    cases h

/-- Only the success of a login sets the flag of the login view model. -/
theorem Effect.flag_cases (h : Effect w e w')
    (hflag : w'.loginViewModel.isNavigateToHomeScreen = true) :
    w.loginViewModel.isNavigateToHomeScreen = true ∨
      ((∃ id, .completion id none ∈ w.mainQueue) ∧ w'.LoggedIn) := by
  cases h with
  | loginSuccess id email password stage hqueue hrequest =>
    refine .inr ⟨⟨id, hqueue⟩, id, email, password, ?_, by simp [report]⟩
    show (w.requests.map (·.call))[id]? = _
    rw [List.getElem?_map, hrequest]
    rfl
  | _ => exact .inl hflag

theorem HomeSignedIn.step (hw : w.HomeSignedIn) (he : ¬ e.SignsOut) :
    (w.step e).HomeSignedIn := by
  have h := step_effect w e
  refine ⟨h.signedInIfQueued he hw.queued, fun hflag => ?_⟩
  rcases h.flag_cases hflag with hold | ⟨⟨id, hqueued⟩, -⟩
  · exact h.currentUser_isSome he (hw.currentUser hold)
  · exact h.currentUser_isSome he (hw.queued id hqueued)

/-- The flag of the login view model means that a login has succeeded. -/
theorem loggedIn_of_flag (es : List AuthEvent)
    (hflag : (run step {} es).loginViewModel.isNavigateToHomeScreen = true) :
    (run step {} es).LoggedIn := by
  have hkept : ∀ (w : AuthWorld) (e : AuthEvent),
      (w.loginViewModel.isNavigateToHomeScreen = true → w.LoggedIn) →
        (w.step e).loginViewModel.isNavigateToHomeScreen = true → (w.step e).LoggedIn := by
    intro w e hw hflag
    rcases (step_effect w e).flag_cases hflag with hold | ⟨-, hlogin⟩
    · exact (hw hold).effect (step_effect w e)
    · exact hlogin
  refine run_invariant
    (I := fun w : AuthWorld => w.loginViewModel.isNavigateToHomeScreen = true → w.LoggedIn)
    hkept (fun h => ?_) es hflag
  cases h

/-- Only an opened URL with `home` in it sets the flag of the app. -/
theorem Effect.appFlag_cases (h : Effect w e w') (hflag : w'.isNavigateToHomeScreen = true) :
    w.isNavigateToHomeScreen = true ∨ ∃ url, e = .openURL url ∧ containsHome url = true := by
  cases h with
  | openURL url hurl => exact .inr ⟨url, rfl, hurl⟩
  | _ => exact .inl hflag

/-- **Who reaches the home screen.** In every reached state: the flag of the login view model means
that a login of the run has succeeded, and that there is a current user unless a profile change has
failed in a way that signs out; the flag of the app means that a URL with `home` in it was
opened. -/
theorem home_screen_only_after (es : List AuthEvent) :
    let w := run step {} es
    (w.loginViewModel.isNavigateToHomeScreen = true →
      w.LoggedIn ∧ ((∀ e ∈ es, ¬ e.SignsOut) → w.currentUser.isSome)) ∧
      (w.isNavigateToHomeScreen = true → ∃ url, .openURL url ∈ es ∧ containsHome url = true) := by
  intro w
  constructor
  · intro hflag
    refine ⟨loggedIn_of_flag es hflag, fun hstay => ?_⟩
    have hw : w.HomeSignedIn := run_invariant_along (fun _ e h he => h.step he) homeSignedIn_init
      (along_of_forall (P := fun _ e => ¬ AuthEvent.SignsOut e) fun e he _ => hstay e he)
    exact hw.currentUser hflag
  · intro hflag
    have hlast : ¬ (run AuthWorld.step {} es).isNavigateToHomeScreen = false := by simpa using hflag
    obtain ⟨es₁, e, es₂, rfl, hpre, hlost⟩ := exists_step_of_lost
      (I := fun w : AuthWorld => w.isNavigateToHomeScreen = false) rfl hlast
    have hlost' : ((run AuthWorld.step {} es₁).step e).isNavigateToHomeScreen = true := by
      rw [run_concat] at hlost
      simpa using hlost
    rcases (step_effect _ e).appFlag_cases hlost' with hold | ⟨url, rfl, hurl⟩
    · rw [hpre es₁ List.prefix_rfl] at hold
      cases hold
    · exact ⟨url, by simp, hurl⟩

/-- The app is opened by a link before anybody has logged in. -/
theorem home_screen_without_login : ¬ ∀ es : List AuthEvent, let w := run step {} es
    (w.isNavigateToHomeScreen = true ∨ w.loginViewModel.isNavigateToHomeScreen = true) →
      w.currentUser.isSome ∧ w.LoggedIn := by
  intro h
  have huser := (h [.openURL "grocery://home"] (.inl (by decide))).1
  cases huser

end AuthWorld

end GroceryApp
