import Mathlib.Data.List.AList

/-!
# `FirebaseAuthManagerImpl` and the accounts behind it

The authentication service keeps one account for each email. `remote` is what the service does
with a `login` or `register` call of the manager; any call can also fail with an error of the
service. A profile change is committed to the user it was created from.
-/

namespace GroceryApp

structure Account where
  password : String
  displayName : Option String := none
  deriving DecidableEq, Repr

/-- The accounts by email. -/
abbrev Accounts := AList fun _ : String => Account

namespace Accounts

def signIn (accounts : Accounts) (email password : String) : Except String Accounts :=
  match accounts.lookup email with
  | none => .error ("There is no user record corresponding " ++
      "to this identifier. The user may have been deleted.")
  | some account =>
    if account.password = password then .ok accounts
    else .error "The password is invalid or the user does not have a password."

def createUser (accounts : Accounts) (email password : String) : Except String Accounts :=
  match accounts.lookup email with
  | some _ => .error "The email address is already in use by another account."
  | none => .ok (accounts.insert email { password })

/-- `commitChanges` of a change request of `user`. -/
def setDisplayName (accounts : Accounts) (user userName : String) : Accounts :=
  match accounts.lookup user with
  | none => accounts
  | some account => accounts.insert user { account with displayName := some userName }

variable {accounts accounts' : Accounts} {email password user userName : String}

theorem createUser_eq_ok_iff : accounts.createUser email password = .ok accounts' ↔
    accounts.lookup email = none ∧ accounts' = accounts.insert email { password } := by
  unfold createUser
  cases h : accounts.lookup email <;> simp [eq_comm]

theorem lookup_setDisplayName (email : String) :
    (accounts.setDisplayName user userName).lookup email =
      if email = user then
        (accounts.lookup email).map fun account => { account with displayName := some userName }
      else accounts.lookup email := by
  unfold setDisplayName
  cases h : accounts.lookup user with
  | none =>
    split_ifs with he
    · rw [he, h, Option.map_none]
    · rfl
  | some account =>
    split_ifs with he
    · rw [he, h, AList.lookup_insert, Option.map_some]
    · rw [AList.lookup_insert_ne he]

end Accounts

/-- The calls of the protocol `AuthManager` that go to the service. -/
inductive AuthCall where
  | login (email password : String)
  | register (email password userName : String)
  deriving DecidableEq, Repr

namespace AuthCall

def email : AuthCall → String
  | login email _ => email
  | register email _ _ => email

/-- The remote step of the call: it fails with the error of the service, if there is one. -/
def remote (call : AuthCall) (accounts : Accounts) (error : Option String) :
    Except String Accounts :=
  match error with
  | some message => .error message
  | none =>
    match call with
    | login email password => accounts.signIn email password
    | register email password _ => accounts.createUser email password

/-- The remote step creates the account of a registration or changes no account. -/
theorem remote_eq_ok {call : AuthCall} {accounts accounts' : Accounts} {error : Option String}
    (h : call.remote accounts error = .ok accounts') :
    accounts' = accounts ∨ ∃ email password userName, call = register email password userName ∧
      accounts.lookup email = none ∧ accounts' = accounts.insert email { password } := by
  unfold remote at h
  rcases error with _ | message
  · rcases call with ⟨email, password⟩ | ⟨email, password, userName⟩
    · left
      simp only [Accounts.signIn] at h
      split at h
      · cases h
      · split_ifs at h
        exact (Except.ok.inj h).symm
    · obtain ⟨hnone, rfl⟩ := Accounts.createUser_eq_ok_iff.mp h
      exact .inr ⟨email, password, userName, rfl, hnone, rfl⟩
  · cases h

end AuthCall

/-- What a call has reported through the closures it was given. -/
inductive Report where
  | onSuccess
  | onFailure (message : String)
  deriving DecidableEq, Repr

/-- How far a call has come; a committed change remembers the user it was created from. -/
inductive AuthStage where
  | remote
  | answered
  | committing (user : String)
  | committed (user : String)
  deriving DecidableEq, Repr

structure AuthRequest where
  call : AuthCall
  stage : AuthStage
  deriving DecidableEq, Repr

/-- The blocks on the main queue. -/
inductive Block where
  | completion (request : ℕ) (error : Option String)
  | committed (request : ℕ) (error : Option String)
  | showLoginError (message : String)
  | showRegisterError (message : String)
  deriving DecidableEq, Repr

end GroceryApp
