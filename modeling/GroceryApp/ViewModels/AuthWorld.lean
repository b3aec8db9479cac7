import GroceryApp.Lib.Runs
import GroceryApp.Network.FirebaseAuth
import Mathlib.Data.List.Infix

/-!
# The login and register screens

`AuthWorld` is the app before its home screen: the accounts and the current user, the calls that
have been made, the main queue, and the two view models. The completion of a sign-in or sign-up
sets the current user and then queues the callback; queued blocks run one at a time, in order. The
callback of a registration reads the current user again. A profile change that fails because its
user or token is not valid any more signs that user out.
-/

namespace GroceryApp

open Runs

structure LoginViewModel where
  isError : Bool := false
  errorMessage : String := ""
  isNavigateToHomeScreen : Bool := false

structure RegisterViewModel where
  isError : Bool := false
  errorMessage : String := ""

inductive AuthEvent where
  | openURL (url : String)
  | tapLogin (email password : String)
  | tapRegister (email password userName : String)
  | completed (request : ℕ) (error : Option String)
  /-- An error can say that the user or the token is not valid any more. -/
  | commitCompleted (request : ℕ) (error : Option String) (invalidUser : Bool := false)
  | runBlock
  deriving DecidableEq

structure AuthWorld where
  accounts : Accounts := ∅
  currentUser : Option String := none
  requests : List AuthRequest := []
  mainQueue : List Block := []
  reports : List (ℕ × Report) := []
  loginViewModel : LoginViewModel := {}
  registerViewModel : RegisterViewModel := {}
  /-- The flag of `GroceryApp`, beside the one of the login view model. -/
  isNavigateToHomeScreen : Bool := false

/-- The user of a change of which the service says that he or his token is not valid any more is
signed out. -/
def AuthEvent.SignsOut : AuthEvent → Prop
  | .commitCompleted _ (some _) true => True
  | _ => False

instance : DecidablePred AuthEvent.SignsOut
  | .commitCompleted _ (some _) true => .isTrue trivial
  | .commitCompleted _ (some _) false | .commitCompleted _ none _ | .openURL _ | .tapLogin _ _
  | .tapRegister _ _ _ | .completed _ _ | .runBlock => .isFalse id

/-- `url.absoluteString.contains("home")`. -/
def containsHome (url : String) : Bool := decide ("home".toList <:+: url.toList)

namespace AuthWorld

def onOpenURL (w : AuthWorld) (url : String) : AuthWorld :=
  if containsHome url then { w with isNavigateToHomeScreen := true } else w

def start (w : AuthWorld) (call : AuthCall) : AuthWorld :=
  { w with requests := w.requests ++ [⟨call, .remote⟩] }

def setStage (w : AuthWorld) (id : ℕ) (stage : AuthStage) : AuthWorld :=
  { w with requests := w.requests.modify id fun r => { r with stage } }

def async (w : AuthWorld) (block : Block) : AuthWorld :=
  { w with mainQueue := w.mainQueue ++ [block] }

def pop (w : AuthWorld) : AuthWorld := { w with mainQueue := w.mainQueue.tail }

def report (w : AuthWorld) (id : ℕ) (r : Report) : AuthWorld :=
  { w with reports := w.reports ++ [(id, r)] }

/-- The callback the service was given, decorated: the current user is set first. -/
def complete (w : AuthWorld) (id : ℕ) (call : AuthCall) (error : Option String) : AuthWorld :=
  match call.remote w.accounts error with
  | .error message => (w.setStage id .answered).async (.completion id (some message))
  | .ok accounts =>
    ({ w with accounts, currentUser := some call.email }.setStage id .answered).async
      (.completion id none)

/-- `signOutByForceWithUserID`, which lets another user be. -/
def signOutByForce (w : AuthWorld) (user : String) : AuthWorld :=
  { w with currentUser := if w.currentUser = some user then none else w.currentUser }

/-- The remote step of `commitChanges`; after an error, `signOutIfTokenIsInvalidWithError`. -/
def commit (w : AuthWorld) (id : ℕ) (user userName : String) (error : Option String)
    (invalidUser : Bool) : AuthWorld :=
  match error with
  | some message =>
    ((if invalidUser then w.signOutByForce user else w).setStage id (.committed user)).async
      (.committed id (some message))
  | none =>
    ({ w with accounts := w.accounts.setDisplayName user userName }.setStage id
      (.committed user)).async (.committed id none)

/-- The closure `login` hands to `signIn`, with the closures of `onTapLogin`. -/
def loginCallback (w : AuthWorld) (id : ℕ) (error : Option String) : AuthWorld :=
  match error with
  | some message => (w.report id (.onFailure message)).async (.showLoginError message)
  | none =>
    { w.report id .onSuccess with
      loginViewModel :=
        { w.loginViewModel with isError := false, isNavigateToHomeScreen := true } }

/-- The failure closure of `onTapRegister`. -/
def registerFailure (w : AuthWorld) (id : ℕ) (message : String) : AuthWorld :=
  (w.report id (.onFailure message)).async (.showRegisterError message)

/-- The closure `register` hands to `createUser`: it ignores the user it is given. -/
def registerCallback (w : AuthWorld) (id : ℕ) (error : Option String) : AuthWorld :=
  match error with
  | some message => w.registerFailure id message
  | none =>
    match w.currentUser with
    | none => w
    | some user => w.setStage id (.committing user)

/-- The closure `register` hands to `commitChanges`. -/
def commitCallback (w : AuthWorld) (id : ℕ) (error : Option String) : AuthWorld :=
  match error with
  | some message => w.registerFailure id message
  | none => w.report id .onSuccess

def runBlock (w : AuthWorld) : Block → AuthWorld
  | .completion id error =>
    match w.requests[id]? with
    | some ⟨.login _ _, _⟩ => w.loginCallback id error
    | some ⟨.register _ _ _, _⟩ => w.registerCallback id error
    | none => w
  | .committed id error => w.commitCallback id error
  | .showLoginError message =>
    { w with loginViewModel := { w.loginViewModel with errorMessage := message, isError := true } }
  | .showRegisterError message =>
    { w with registerViewModel := { errorMessage := message, isError := true } }

def step (w : AuthWorld) : AuthEvent → AuthWorld
  | .openURL url => w.onOpenURL url
  | .tapLogin email password => w.start (.login email password)
  | .tapRegister email password userName => w.start (.register email password userName)
  | .completed id error =>
    match w.requests[id]? with
    | some ⟨call, .remote⟩ => w.complete id call error
    | _ => w
  | .commitCompleted id error invalidUser =>
    match w.requests[id]? with
    | some ⟨.register _ _ userName, .committing user⟩ => w.commit id user userName error invalidUser
    | _ => w
  | .runBlock =>
    match w.mainQueue with
    | [] => w
    | block :: _ => w.pop.runBlock block

variable {w : AuthWorld} {e : AuthEvent}

/-! ## What a step does -/

/-- All a step can do, with what it depends on. -/
inductive Effect (w : AuthWorld) : AuthEvent → AuthWorld → Prop where
  | nothing (e : AuthEvent) : Effect w e w
  | openURL (url : String) (h : containsHome url = true) :
      Effect w (.openURL url) { w with isNavigateToHomeScreen := true }
  | start (e : AuthEvent) (call : AuthCall) : Effect w e (w.start call)
  | refused (id : ℕ) (error : Option String) (message : String) :
      Effect w (.completed id error)
        ((w.setStage id .answered).async (.completion id (some message)))
  | signedIn (id : ℕ) (error : Option String) (call : AuthCall) (accounts : Accounts)
      (hrequest : w.requests[id]? = some ⟨call, .remote⟩)
      (hremote : call.remote w.accounts error = .ok accounts) :
      Effect w (.completed id error)
        (({ w with accounts, currentUser := some call.email }.setStage id .answered).async
          (.completion id none))
  | commitFailed (id : ℕ) (call : AuthCall) (user message : String)
      (hrequest : w.requests[id]? = some ⟨call, .committing user⟩) :
      Effect w (.commitCompleted id (some message) false)
        ((w.setStage id (.committed user)).async (.committed id (some message)))
  | signedOut (id : ℕ) (call : AuthCall) (user message : String)
      (hrequest : w.requests[id]? = some ⟨call, .committing user⟩) :
      Effect w (.commitCompleted id (some message) true)
        (((w.signOutByForce user).setStage id (.committed user)).async
          (.committed id (some message)))
  | committed (id : ℕ) (email password userName user : String) (invalidUser : Bool)
      (hrequest : w.requests[id]? = some ⟨.register email password userName, .committing user⟩) :
      Effect w (.commitCompleted id none invalidUser)
        (({ w with accounts := w.accounts.setDisplayName user userName }.setStage id
          (.committed user)).async (.committed id none))
  | dropped : Effect w .runBlock w.pop
  | loginFailure (id : ℕ) (message : String) :
      Effect w .runBlock
        ((w.pop.report id (.onFailure message)).async (.showLoginError message))
  | loginSuccess (id : ℕ) (email password : String) (stage : AuthStage)
      (hqueue : .completion id none ∈ w.mainQueue)
      (hrequest : w.requests[id]? = some ⟨.login email password, stage⟩) :
      Effect w .runBlock { w.pop.report id .onSuccess with
        loginViewModel :=
          { w.loginViewModel with isError := false, isNavigateToHomeScreen := true } }
  | changeRequested (id : ℕ) (email password userName user : String) (stage : AuthStage)
      (hqueue : w.mainQueue.head? = some (.completion id none))
      (hrequest : w.requests[id]? = some ⟨.register email password userName, stage⟩)
      (huser : w.currentUser = some user) :
      Effect w .runBlock (w.pop.setStage id (.committing user))
  | registerFailure (id : ℕ) (message : String) :
      Effect w .runBlock (w.pop.registerFailure id message)
  | registerSuccess (id : ℕ) : Effect w .runBlock (w.pop.report id .onSuccess)
  | showLoginError (message : String) :
      Effect w .runBlock { w.pop with
        loginViewModel := { w.loginViewModel with errorMessage := message, isError := true } }
  | showRegisterError (message : String) :
      Effect w .runBlock { w.pop with
        registerViewModel := { errorMessage := message, isError := true } }

theorem effect_runBlock (w : AuthWorld) : Effect w .runBlock (w.step .runBlock) := by
  unfold step
  rcases hqueue : w.mainQueue with _ | ⟨block, blocks⟩
  · exact .nothing _
  have hmem : block ∈ w.mainQueue := by simp [hqueue]
  rcases block with ⟨id, error⟩ | ⟨id, error⟩ | message | message
  · have hpop : w.pop.requests = w.requests := rfl
    simp only [runBlock, hpop]
    rcases hrequest : w.requests[id]? with
      _ | ⟨⟨email, password⟩ | ⟨email, password, userName⟩, stage⟩
    · exact .dropped
    · rcases error with _ | message
      · exact .loginSuccess id email password stage hmem hrequest
      · exact .loginFailure id message
    · rcases error with _ | message
      · have hpop : w.pop.currentUser = w.currentUser := rfl
        simp only [registerCallback, hpop]
        cases huser : w.currentUser with
        | none => exact .dropped
        | some user =>
          exact .changeRequested id email password userName user stage (by simp [hqueue]) hrequest
            huser
      · exact .registerFailure id message
  · rcases error with _ | message
    · exact .registerSuccess id
    · exact .registerFailure id message
  · exact .showLoginError message
  · exact .showRegisterError message

theorem step_effect (w : AuthWorld) (e : AuthEvent) : Effect w e (w.step e) := by
  rcases e with url | ⟨email, password⟩ | ⟨email, password, userName⟩ | ⟨id, error⟩ |
    ⟨id, error, invalidUser⟩ | _
  · simp only [step, onOpenURL]
    split_ifs with h
    · exact .openURL url h
    · exact .nothing _
  · exact .start _ _
  · exact .start _ _
  · simp only [step, complete]
    split
    · rename_i call hrequest
      split
      · exact .refused id error _
      · exact .signedIn id error call _ hrequest (by assumption)
    · exact .nothing _
  · simp only [step, commit]
    split
    · rename_i email password userName user hrequest
      rcases error with _ | message
      · exact .committed id email password userName user invalidUser hrequest
      · cases invalidUser with
        | false => exact .commitFailed id _ user message hrequest
        | true => exact .signedOut id _ user message hrequest
    · exact .nothing _
  · exact effect_runBlock w

theorem getElem?_setStage (w : AuthWorld) (id : ℕ) (stage : AuthStage) (i : ℕ) :
    (w.setStage id stage).requests[i]? =
      w.requests[i]?.map fun r => if id = i then { r with stage } else r := by
  simp only [setStage, List.getElem?_modify]
  split_ifs <;> simp

/-- The calls that have been made, in order. -/
def calls (w : AuthWorld) : List AuthCall := w.requests.map (·.call)

theorem calls_setStage (w : AuthWorld) (id : ℕ) (stage : AuthStage) :
    (w.setStage id stage).calls = w.calls := by
  refine List.ext_getElem? fun i => ?_
  rw [calls, calls, List.getElem?_map, List.getElem?_map, getElem?_setStage, Option.map_map]
  congr 1
  funext r
  show (if id = i then { r with stage } else r).call = r.call
  split_ifs <;> rfl

/-- The calls that have been made stay. -/
theorem Effect.calls_mono {w' : AuthWorld} (h : Effect w e w') : w.calls <+: w'.calls := by
  cases h with
  | start e call => simp [calls, AuthWorld.start]
  | refused id error message => exact (calls_setStage w id .answered).symm ▸ List.prefix_rfl
  | signedIn id error call accounts => exact (calls_setStage w id .answered).symm ▸ List.prefix_rfl
  | commitFailed id call user message =>
    exact (calls_setStage w id (.committed user)).symm ▸ List.prefix_rfl
  | signedOut id call user message =>
    exact (calls_setStage (w.signOutByForce user) id (.committed user)).symm ▸ List.prefix_rfl
  | committed id email password userName user =>
    exact (calls_setStage w id (.committed user)).symm ▸ List.prefix_rfl
  | changeRequested id email password userName user =>
    exact (calls_setStage w id (.committing user)).symm ▸ List.prefix_rfl
  | _ => exact List.prefix_rfl

/-- Once there is a current user there is one until he is signed out. -/
theorem Effect.currentUser_isSome {w' : AuthWorld} (h : Effect w e w') (he : ¬ e.SignsOut)
    (huser : w.currentUser.isSome) : w'.currentUser.isSome := by
  cases h with
  | signedIn id error call accounts => rfl
  | signedOut id call user message => exact absurd trivial he
  | _ => exact huser

/-- A queued success means that there is a current user, as long as nobody is signed out. -/
def SignedInIfQueued (w : AuthWorld) : Prop :=
  ∀ id, .completion id none ∈ w.mainQueue → w.currentUser.isSome

theorem Effect.signedInIfQueued {w' : AuthWorld} (h : Effect w e w') (he : ¬ e.SignsOut)
    (hw : w.SignedInIfQueued) : w'.SignedInIfQueued := by
  intro id hid
  have hold : .completion id none ∈ w.mainQueue → w'.currentUser.isSome :=
    fun hid => h.currentUser_isSome he (hw id hid)
  have htail : .completion id none ∈ w.mainQueue.tail → w'.currentUser.isSome :=
    fun hid => hold (List.mem_of_mem_tail hid)
  cases h with
  | signedIn id' error call accounts => rfl
  | refused id' error message => exact hold (by simpa [async, setStage] using hid)
  | commitFailed id' call user message => exact hold (by simpa [async, setStage] using hid)
  | signedOut id' call user message => exact absurd trivial he
  | committed id' email password userName user => exact hold (by simpa [async, setStage] using hid)
  | loginFailure id' message => exact htail (by simpa [async, report, pop] using hid)
  | registerFailure id' message =>
    exact htail (by simpa [AuthWorld.registerFailure, async, report, pop] using hid)
  | nothing => exact hold hid
  | openURL => exact hold hid
  | start => exact hold hid
  | _ => exact htail hid

end AuthWorld

end GroceryApp
