import GroceryApp.ViewModels.AuthWorld

/-!
# Registrations one after the other

A registration creates the account and then names it, and each step can fail on its own. If the
second one fails the call reports a failure but the account stays, without a name; nothing takes it
back. `registration_outcomes` says what a sequence of registrations reports and leaves behind: the
account of an email is made by the first call for it whose `createUser` meets no error.
-/

namespace GroceryApp

open Runs

/-- A registration with the errors the service answers its two steps with. -/
structure Attempt where
  email : String
  password : String
  userName : String
  createUserError : Option String := none
  commitChangesError : Option String := none
  invalidUser : Bool := false

namespace Attempt

def call (a : Attempt) : AuthCall := .register a.email a.password a.userName

/-- The service has no error for `createUser` of the email. -/
def creates (a : Attempt) (email : String) : Bool := a.email = email ∧ a.createUserError = none

/-- The account the attempt leaves when it creates one. -/
def account (a : Attempt) : Account where
  password := a.password
  displayName := if a.commitChangesError = none then some a.userName else none

/-- After the attempts `pre`, `createUser` of the attempt succeeds. -/
def GetsThrough (pre : List Attempt) (a : Attempt) : Prop :=
  a.createUserError = none ∧ pre.find? (·.creates a.email) = none

end Attempt

namespace AuthWorld

/-- A call of `register` until all its callbacks and blocks have run. -/
def register (w : AuthWorld) (a : Attempt) : AuthWorld :=
  run step w [.tapRegister a.email a.password a.userName,
    .completed w.requests.length a.createUserError, .runBlock,
    .commitCompleted w.requests.length a.commitChangesError a.invalidUser, .runBlock, .runBlock]

variable {w : AuthWorld} {a : Attempt}

/-! ## One registration -/

theorem modify_concat {α : Type} (l : List α) (x : α) (f : α → α) :
    (l ++ [x]).modify l.length f = l ++ [f x] := by
  simp [List.modify_eq_take_drop]

theorem register_refused {message : String} (hqueue : w.mainQueue = [])
    (h : a.call.remote w.accounts a.createUserError = .error message) :
    w.register a = { w with
      requests := w.requests ++ [⟨a.call, .answered⟩]
      reports := w.reports ++ [(w.requests.length, .onFailure message)]
      registerViewModel := { errorMessage := message, isError := true } } := by
  unfold Attempt.call at h ⊢
  simp [register, step, start, complete, h, hqueue, async, setStage, runBlock, registerCallback,
    registerFailure, report, pop, modify_concat]

theorem register_created {accounts : Accounts} (hqueue : w.mainQueue = [])
    (h : a.call.remote w.accounts a.createUserError = .ok accounts)
    (hcommit : a.commitChangesError = none) :
    w.register a = { w with
      accounts := accounts.setDisplayName a.email a.userName
      currentUser := some a.email
      requests := w.requests ++ [⟨a.call, .committed a.email⟩]
      reports := w.reports ++ [(w.requests.length, .onSuccess)] } := by
  unfold Attempt.call at h ⊢
  simp [register, step, start, complete, h, hcommit, hqueue, async, setStage, runBlock,
    registerCallback, report, pop, commit, commitCallback, AuthCall.email, modify_concat]

theorem register_not_named {accounts : Accounts} {message : String} (hqueue : w.mainQueue = [])
    (h : a.call.remote w.accounts a.createUserError = .ok accounts)
    (hcommit : a.commitChangesError = some message) :
    w.register a = { w with
      accounts
      currentUser := if a.invalidUser then none else some a.email
      requests := w.requests ++ [⟨a.call, .committed a.email⟩]
      reports := w.reports ++ [(w.requests.length, .onFailure message)]
      registerViewModel := { errorMessage := message, isError := true } } := by
  unfold Attempt.call at h ⊢
  cases hinvalid : a.invalidUser <;>
    simp [register, step, start, complete, h, hcommit, hqueue, hinvalid, async, setStage, runBlock,
      registerCallback, registerFailure, report, pop, commit, signOutByForce, commitCallback,
      AuthCall.email, modify_concat]

/-- A registration that finds the queue empty leaves it empty and reports once. If `createUser`
succeeds the account is there afterwards, and success is reported if the change is committed too;
otherwise no account changes. -/
theorem register_cases (hqueue : w.mainQueue = []) (a : Attempt) :
    ∃ r, (w.register a).mainQueue = [] ∧
      (w.register a).requests.length = w.requests.length + 1 ∧
      (w.register a).reports = w.reports ++ [(w.requests.length, r)] ∧
      ((a.createUserError = none ∧ w.accounts.lookup a.email = none ∧
          (∀ email, (w.register a).accounts.lookup email =
            if email = a.email then some a.account else w.accounts.lookup email) ∧
          (r = .onSuccess ↔ a.commitChangesError = none)) ∨
        (¬ (a.createUserError = none ∧ w.accounts.lookup a.email = none) ∧
          (w.register a).accounts = w.accounts ∧ r ≠ .onSuccess)) := by
  cases hremote : a.call.remote w.accounts a.createUserError with
  | error message =>
    refine ⟨.onFailure message, ?_⟩
    rw [register_refused hqueue hremote]
    refine ⟨hqueue, by simp, rfl, .inr ⟨?_, rfl, by simp⟩⟩
    rintro ⟨herror, hnone⟩
    simp [AuthCall.remote, Attempt.call, herror, Accounts.createUser, hnone] at hremote
  | ok accounts =>
    have hok : a.createUserError = none ∧ w.accounts.lookup a.email = none ∧
        accounts = w.accounts.insert a.email { password := a.password } := by
      cases herror : a.createUserError with
      | some message => simp [AuthCall.remote, herror] at hremote
      | none =>
        rw [herror] at hremote
        exact ⟨rfl, Accounts.createUser_eq_ok_iff.mp hremote⟩
    obtain ⟨herror, hnone, rfl⟩ := hok
    cases hcommit : a.commitChangesError with
    | none =>
      refine ⟨.onSuccess, ?_⟩
      rw [register_created hqueue hremote hcommit]
      refine ⟨hqueue, by simp, rfl, .inl ⟨herror, hnone, fun email => ?_, by simp⟩⟩
      rw [Accounts.lookup_setDisplayName]
      split_ifs with he
      · rw [he, AList.lookup_insert, Option.map_some, Attempt.account, if_pos hcommit]
      · exact AList.lookup_insert_ne he
    | some message =>
      refine ⟨.onFailure message, ?_⟩
      rw [register_not_named hqueue hremote hcommit]
      refine ⟨hqueue, by simp, rfl, .inl ⟨herror, hnone, fun email => ?_, by simp⟩⟩
      show (w.accounts.insert a.email { password := a.password }).lookup email = _
      split_ifs with he
      · rw [he, AList.lookup_insert, Attempt.account, hcommit, if_neg (by simp)]
      · exact AList.lookup_insert_ne he

/-! ## Sequences of registrations -/

/-- What holds after the attempts: nothing is left to run, each call has reported once, it has
reported success if it got through both steps, and the accounts are those of the first attempt for
each email without an error of `createUser`. -/
structure Settled (attempts : List Attempt) (w : AuthWorld) : Prop where
  mainQueue : w.mainQueue = []
  length_requests : w.requests.length = attempts.length
  reports_once : w.reports.map Prod.fst = List.range attempts.length
  accounts : ∀ email, w.accounts.lookup email =
    (attempts.find? (·.creates email)).map Attempt.account
  success : ∀ (pre : List Attempt) (a : Attempt) (post : List Attempt),
    attempts = pre ++ a :: post → ((pre.length, .onSuccess) ∈ w.reports ↔
      Attempt.GetsThrough pre a ∧ a.commitChangesError = none)

theorem settled_init : Settled [] {} where
  mainQueue := rfl
  length_requests := rfl
  reports_once := rfl
  accounts := fun _ => rfl
  success := by
    intro pre a post h
    simp at h

variable {attempts : List Attempt}

theorem Settled.getsThrough_iff (h : Settled attempts w) (a : Attempt) :
    Attempt.GetsThrough attempts a ↔
      a.createUserError = none ∧ w.accounts.lookup a.email = none := by
  rw [Attempt.GetsThrough, h.accounts, Option.map_eq_none_iff]

/-- No call has reported under a number that is still to come. -/
theorem Settled.lt_of_mem_reports (h : Settled attempts w) {id : ℕ} {r : Report}
    (hr : (id, r) ∈ w.reports) : id < attempts.length := by
  have hid : id ∈ w.reports.map Prod.fst := List.mem_map.mpr ⟨_, hr, rfl⟩
  rwa [h.reports_once, List.mem_range] at hid

theorem Settled.register (h : Settled attempts w) (a : Attempt) :
    Settled (attempts ++ [a]) (w.register a) := by
  obtain ⟨r, hqueue, hlength, hreports, hcases⟩ := register_cases h.mainQueue a
  have hsuccess : r = .onSuccess ↔
      Attempt.GetsThrough attempts a ∧ a.commitChangesError = none := by
    rw [h.getsThrough_iff]
    rcases hcases with ⟨herror, hnone, -, hr⟩ | ⟨hnot, -, hr⟩
    · rw [hr]
      exact (and_iff_right ⟨herror, hnone⟩).symm
    · exact iff_of_false hr fun hthrough => hnot hthrough.1
  refine ⟨hqueue, ?_, ?_, fun email => ?_, fun pre b post heq => ?_⟩
  · rw [hlength, h.length_requests, List.length_append, List.length_singleton]
  · rw [hreports, List.map_append, h.reports_once, h.length_requests, List.length_append,
      List.length_singleton, List.range_succ]
    rfl
  · rw [List.find?_append, List.find?_singleton]
    rcases hcases with ⟨herror, hnone, hlookup, -⟩ | ⟨hnot, hsame, -⟩
    · rw [hlookup]
      rw [h.accounts, Option.map_eq_none_iff] at hnone
      split_ifs with he hc hc
      · rw [he, hnone, Option.none_or, Option.map_some]
      · exact absurd (by simp [Attempt.creates, he, herror]) hc
      · exact absurd (by simpa [Attempt.creates, herror] using hc) (Ne.symm he)
      · rw [Option.or_none, h.accounts]
    · rw [hsame, h.accounts]
      split_ifs with hc
      · -- the attempt has no error, so there already is an account for its email
        obtain ⟨rfl, herror⟩ : a.email = email ∧ a.createUserError = none := by
          simpa [Attempt.creates] using hc
        rw [h.accounts, Option.map_eq_none_iff] at hnot
        obtain ⟨b, hb⟩ := Option.ne_none_iff_exists'.mp fun hnone => hnot ⟨herror, hnone⟩
        rw [hb, Option.some_or]
      · rw [Option.or_none]
  · rw [hreports, h.length_requests, List.mem_append, List.mem_singleton, Prod.mk.injEq]
    rcases List.eq_nil_or_concat post with rfl | ⟨post, c, rfl⟩
    · obtain ⟨rfl, hb⟩ := List.append_inj' heq rfl
      obtain rfl : a = b := by simpa using hb
      rw [← hsuccess, eq_comm (a := Report.onSuccess)]
      constructor
      · rintro (hold | ⟨-, hr⟩)
        · exact absurd (h.lt_of_mem_reports hold) (lt_irrefl _)
        · exact hr
      · exact fun hr => .inr ⟨rfl, hr⟩
    · rw [List.concat_eq_append, ← List.cons_append, ← List.append_assoc] at heq
      obtain ⟨rfl, -⟩ := List.append_inj' heq rfl
      rw [← h.success pre b post rfl]
      refine or_iff_left fun hnew => ?_
      have hlt : pre.length < (pre ++ b :: post).length := by simp
      omega

theorem settled_run (attempts : List Attempt) :
    Settled attempts (run register {} attempts) := by
  induction attempts using List.reverseRecOn with
  | nil => exact settled_init
  | append_singleton attempts a ih =>
    rw [run_concat]
    exact ih.register a

/-- **What registrations leave behind.** For every sequence of registrations and all errors of
their steps: each call reports exactly once; the account of an email is that of the first call for
it whose `createUser` met no error, with its user name if the change was committed and without a
name otherwise; a call reports success exactly if it got through both steps; and a call that does
not get through `createUser` changes no account. -/
theorem registration_outcomes (attempts : List Attempt) :
    let w := run register {} attempts
    w.reports.map Prod.fst = List.range attempts.length ∧
    (∀ email, w.accounts.lookup email =
      (attempts.find? (·.creates email)).map Attempt.account) ∧
    ∀ (pre : List Attempt) (a : Attempt) (post : List Attempt), attempts = pre ++ a :: post →
      ((pre.length, .onSuccess) ∈ w.reports ↔
        Attempt.GetsThrough pre a ∧ a.commitChangesError = none) ∧
      (¬ Attempt.GetsThrough pre a →
        (run register {} (pre ++ [a])).accounts = (run register {} pre).accounts) := by
  intro w
  have h := settled_run attempts
  refine ⟨h.reports_once, h.accounts, fun pre a post heq => ⟨h.success pre a post heq, ?_⟩⟩
  intro hnot
  have hpre := settled_run pre
  rw [hpre.getsThrough_iff] at hnot
  obtain ⟨r, -, -, -, ⟨herror, hnone, -⟩ | ⟨-, hsame, -⟩⟩ := register_cases hpre.mainQueue a
  · exact absurd ⟨herror, hnone⟩ hnot
  · rw [run_concat, hsame]

/-- Registration as all or nothing: each call reports once, an account exists exactly if some call
for its email reported success, and it has the name of that call. -/
def AllOrNothing (attempts : List Attempt) : Prop :=
  let w := run register {} attempts
  w.reports.map Prod.fst = List.range attempts.length ∧
  (∀ email, (w.accounts.lookup email).isSome ↔ ∃ pre a post, attempts = pre ++ a :: post ∧
    a.email = email ∧ (pre.length, .onSuccess) ∈ w.reports) ∧
  ∀ (pre : List Attempt) (a : Attempt) (post : List Attempt), attempts = pre ++ a :: post →
    (pre.length, .onSuccess) ∈ w.reports →
    (w.accounts.lookup a.email).bind (·.displayName) = some a.userName

def notNamed : Attempt where
  email := "ann@mail"
  password := "annpw"
  userName := "Ann"
  commitChangesError := some "Network error"

/-- The only registration gets through `createUser`, but its name is not committed. -/
theorem allOrNothing_fails : ¬ ∀ attempts : List Attempt, AllOrNothing attempts := by
  intro h
  obtain ⟨-, hexists, -⟩ := h [notNamed]
  obtain ⟨pre, a, post, -, -, hreport⟩ := (hexists "ann@mail").mp (by decide)
  have hnone : ∀ r ∈ (run register {} [notNamed]).reports, r.2 ≠ .onSuccess := by decide
  exact hnone _ hreport rfl

end AuthWorld

end GroceryApp
