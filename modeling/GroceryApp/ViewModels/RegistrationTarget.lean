import GroceryApp.ViewModels.AuthWorld

/-!
# Whose account a registration names

A registration commits its user name to the user that is current when its callback runs, which is
the user of the sign-in or sign-up that completed last, if he is still signed in. Every change goes
to the account of its own registration along exactly the runs in which no callback finds another
user (`namesOwnAccount_iff`). A login that completes before the callback redirects the change.
-/

namespace GroceryApp

open Runs

/-- The user a change was requested for. -/
def AuthStage.user? : AuthStage → Option String
  | .committing user => some user
  | .committed user => some user
  | _ => none

namespace AuthWorld

/-- Every requested change is for the account of its own registration, and every display name was
given by a registration of its account. -/
structure NamesOwnAccount (w : AuthWorld) : Prop where
  requests : ∀ (id : ℕ) (r : AuthRequest) (user : String), w.requests[id]? = some r →
    r.stage.user? = some user → user = r.call.email
  names : ∀ email account userName, w.accounts.lookup email = some account →
    account.displayName = some userName → ∃ password, .register email password userName ∈ w.calls

/-- The success callback of a registration, if it is the block to run, finds no other current user
than that of its own account. -/
def FindsOwnUser (w : AuthWorld) (e : AuthEvent) : Prop :=
  e = .runBlock → ∀ (id : ℕ) (email password userName : String) (stage : AuthStage),
    w.mainQueue.head? = some (.completion id none) →
    w.requests[id]? = some ⟨.register email password userName, stage⟩ →
    ∀ user ∈ w.currentUser, user = email

variable {w w' : AuthWorld} {e : AuthEvent}

/-- A request has the new stage if it is the one that goes on, and is as it was otherwise. -/
theorem setStage_cases {v : AuthWorld} {id id' : ℕ} {stage : AuthStage} {r' : AuthRequest}
    (hv : v.requests = w.requests) (hget : (v.setStage id' stage).requests[id]? = some r') :
    (id' = id ∧ ∃ r, w.requests[id]? = some r ∧ r' = { r with stage }) ∨
      w.requests[id]? = some r' := by
  rw [getElem?_setStage, hv, Option.map_eq_some_iff] at hget
  obtain ⟨r, hr, rfl⟩ := hget
  split_ifs with he
  · exact .inl ⟨he, r, hr, rfl⟩
  · exact .inr hr

/-- A request keeps its user, or has none, or is that of the callback that runs. -/
theorem Effect.request_cases (h : Effect w e w') {id : ℕ} {r' : AuthRequest}
    (hr' : w'.requests[id]? = some r') :
    r'.stage.user? = none ∨
    (∃ r, w.requests[id]? = some r ∧ r.call = r'.call ∧ r.stage.user? = r'.stage.user?) ∨
    ∃ email password userName user stage, e = .runBlock ∧
      w.mainQueue.head? = some (.completion id none) ∧
      w.requests[id]? = some ⟨.register email password userName, stage⟩ ∧
      w.currentUser = some user ∧
      r' = ⟨.register email password userName, .committing user⟩ := by
  have hsame : w.requests[id]? = some r' → ∃ r, w.requests[id]? = some r ∧ r.call = r'.call ∧
      r.stage.user? = r'.stage.user? := fun hr => ⟨r', hr, rfl, rfl⟩
  cases h with
  | start e call =>
    rw [AuthWorld.start, List.getElem?_append] at hr'
    split_ifs at hr' with hlt
    · exact .inr (.inl (hsame hr'))
    · obtain rfl : r' = ⟨call, .remote⟩ := by simpa using List.mem_of_getElem? hr'
      exact .inl rfl
  | refused id' error message =>
    rcases setStage_cases rfl hr' with ⟨-, r, -, rfl⟩ | hr
    · exact .inl rfl
    · exact .inr (.inl (hsame hr))
  | signedIn id' error call accounts =>
    rcases setStage_cases (w := w) rfl hr' with ⟨-, r, -, rfl⟩ | hr
    · exact .inl rfl
    · exact .inr (.inl (hsame hr))
  | commitFailed id' call user message hrequest =>
    rcases setStage_cases rfl hr' with ⟨rfl, r, hr, rfl⟩ | hr
    · obtain rfl := Option.some.inj (hrequest.symm.trans hr)
      exact .inr (.inl ⟨_, hrequest, rfl, rfl⟩)
    · exact .inr (.inl (hsame hr))
  | signedOut id' call user message hrequest =>
    rcases setStage_cases (w := w) rfl hr' with ⟨rfl, r, hr, rfl⟩ | hr
    · obtain rfl := Option.some.inj (hrequest.symm.trans hr)
      exact .inr (.inl ⟨_, hrequest, rfl, rfl⟩)
    · exact .inr (.inl (hsame hr))
  | committed id' email password userName user invalidUser hrequest =>
    rcases setStage_cases (w := w) rfl hr' with ⟨rfl, r, hr, rfl⟩ | hr
    · obtain rfl := Option.some.inj (hrequest.symm.trans hr)
      exact .inr (.inl ⟨_, hrequest, rfl, rfl⟩)
    · exact .inr (.inl (hsame hr))
  | changeRequested id' email password userName user stage hqueue hrequest huser =>
    rcases setStage_cases (w := w) rfl hr' with ⟨rfl, r, hr, rfl⟩ | hr
    · obtain rfl := Option.some.inj (hrequest.symm.trans hr)
      exact .inr (.inr ⟨email, password, userName, user, stage, rfl, hqueue, hrequest, huser, rfl⟩)
    · exact .inr (.inl (hsame hr))
  | _ => exact .inr (.inl (hsame hr'))

/-- A step changes no account, or creates one without a name, or commits a change. -/
theorem Effect.accounts_cases (h : Effect w e w') :
    w'.accounts = w.accounts ∨
    (∃ email password : String, w'.accounts = w.accounts.insert email { password }) ∨
    ∃ (id : ℕ) (email password userName user : String),
      w.requests[id]? = some ⟨.register email password userName, .committing user⟩ ∧
      w'.accounts = w.accounts.setDisplayName user userName := by
  cases h with
  | signedIn id error call accounts hrequest hremote =>
    rcases AuthCall.remote_eq_ok hremote with hsame | ⟨email, password, userName, -, -, hnew⟩
    · exact .inl hsame
    · exact .inr (.inl ⟨email, password, hnew⟩)
  | committed id email password userName user invalidUser hrequest =>
    exact .inr (.inr ⟨id, email, password, userName, user, hrequest, rfl⟩)
  | _ => exact .inl rfl

/-- A step whose callback finds its own user keeps changes and names where they belong. -/
theorem NamesOwnAccount.step (hw : w.NamesOwnAccount) (hown : w.FindsOwnUser e) :
    (w.step e).NamesOwnAccount where
  requests := by
    intro id r' user hr' huser
    rcases (step_effect w e).request_cases hr' with hnone | ⟨r, hr, hcall, hsame⟩ |
      ⟨email, password, userName, user', stage, he, hqueue, hrequest, huser', rfl⟩
    · cases hnone.symm.trans huser
    · exact hcall ▸ hw.requests id r user hr (hsame.trans huser)
    · obtain rfl : user' = user := Option.some.inj huser
      exact hown he id email password userName stage hqueue hrequest user' huser'
  names := by
    intro email account userName hlookup hname
    have hkeep : ∀ {call}, call ∈ w.calls → call ∈ (w.step e).calls :=
      fun hcall => (step_effect w e).calls_mono.subset hcall
    have hold : w.accounts.lookup email = some account →
        ∃ password, .register email password userName ∈ (w.step e).calls := by
      intro hlookup
      obtain ⟨password, hcall⟩ := hw.names email account userName hlookup hname
      exact ⟨password, hkeep hcall⟩
    rcases (step_effect w e).accounts_cases with hsame | ⟨email', password, hnew⟩ |
      ⟨id, email', password, userName', user, hrequest, hset⟩
    · exact hold (hsame ▸ hlookup)
    · by_cases he : email = email'
      · rw [hnew, he, AList.lookup_insert] at hlookup
        obtain rfl := Option.some.inj hlookup
        cases hname
      · rw [hnew, AList.lookup_insert_ne he] at hlookup
        exact hold hlookup
    · obtain rfl : user = email' := hw.requests id _ user hrequest rfl
      rw [hset, Accounts.lookup_setDisplayName] at hlookup
      split_ifs at hlookup with he
      · obtain ⟨account', -, rfl⟩ := Option.map_eq_some_iff.mp hlookup
        obtain rfl : userName' = userName := Option.some.inj hname
        refine ⟨password, hkeep (List.mem_map.mpr ⟨_, List.mem_of_getElem? hrequest, ?_⟩)⟩
        rw [he]
      · exact hold hlookup

theorem step_changeRequested {id : ℕ} {email password userName user : String} {stage : AuthStage}
    (hqueue : w.mainQueue.head? = some (.completion id none))
    (hrequest : w.requests[id]? = some ⟨.register email password userName, stage⟩)
    (huser : w.currentUser = some user) :
    w.step .runBlock = w.pop.setStage id (.committing user) := by
  obtain ⟨blocks, hblocks⟩ := List.head?_eq_some_iff.mp hqueue
  have hpop : w.pop.requests[id]? = w.requests[id]? := rfl
  have huser' : w.pop.currentUser = some user := huser
  simp only [step, hblocks, runBlock, hpop, hrequest, registerCallback, huser']

theorem NamesOwnAccount.step_iff (hw : w.NamesOwnAccount) (e : AuthEvent) :
    (w.step e).NamesOwnAccount ↔ w.FindsOwnUser e := by
  refine ⟨?_, hw.step⟩
  rintro hstep rfl id email password userName stage hqueue hrequest user huser
  rw [step_changeRequested hqueue hrequest huser] at hstep
  exact hstep.requests id ⟨.register email password userName, .committing user⟩ user
    (by rw [getElem?_setStage]; simp [pop, hrequest]) rfl

/-- For every interleaving of logins and registrations: every change and every display name
belongs to the account of its own registration throughout the run, exactly if no success callback
of a registration finds the user of another account as the current user. -/
theorem namesOwnAccount_iff (es : List AuthEvent) :
    Along step (fun w e => (w.step e).NamesOwnAccount) {} es ↔ Along step FindsOwnUser {} es := by
  refine along_congr (I := NamesOwnAccount) ?_ ?_ ?_
  · exact fun w e _ hstep => hstep
  · exact fun w e hw => hw.step_iff e
  · refine ⟨fun id r user hr => ?_, fun email account userName hlookup => ?_⟩
    · cases hr
    · cases hlookup

/-- A login of an old account is under way while a new account is registered. -/
def loginDuringRegistration : List AuthEvent :=
  [.tapRegister "bob@mail" "bobpw" "Bob", .completed 0 none, .runBlock, .commitCompleted 0 none,
    .runBlock, .tapLogin "bob@mail" "bobpw", .tapRegister "ann@mail" "annpw" "Ann",
    .completed 2 none, .completed 1 none]

/-- The login completes before the callback of the registration runs: the change goes to the old
account. -/
theorem namesOwnAccount_fails :
    ¬ ∀ es : List AuthEvent, Along step (fun w e => (w.step e).NamesOwnAccount) {} es := by
  intro h
  have hrun := (along_append.mp (h (loginDuringRegistration ++ [.runBlock]))).2.1
  have hown := hrun.requests 2 ⟨.register "ann@mail" "annpw" "Ann", .committing "bob@mail"⟩
    "bob@mail" (by decide) rfl
  revert hown
  decide

end AuthWorld

end GroceryApp
