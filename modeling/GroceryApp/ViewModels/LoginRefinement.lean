import GroceryApp.ViewModels.LoginScreen

/-!
# The login screen inside the app

In a run of the app the logins make the steps of a `LoginScreen`: an attempt is the request it
starts, and of the main queue the screen has the blocks of the logins, in their order. So what
`LoginScreen` says about the alert holds of the login view model of the app, whatever
registrations and opened links come in between (`loginScreen_run`).
-/

namespace GroceryApp

open Runs

def AuthCall.isLogin : AuthCall → Bool
  | login _ _ => true
  | register _ _ _ => false

/-- The block on the main queue. -/
def LoginBlock.block : LoginBlock → Block
  | callback attempt error => .completion attempt error
  | showError _ message => .showLoginError message

namespace AuthWorld

def isLogin (w : AuthWorld) (id : ℕ) : Bool := w.calls[id]?.any AuthCall.isLogin

def isLoginBlock (w : AuthWorld) : Block → Bool
  | .completion id _ => w.isLogin id
  | .showLoginError _ => true
  | .committed _ _ | .showRegisterError _ => false

/-- The error the closure of `signIn` is called with. -/
def answer (w : AuthWorld) (call : AuthCall) (error : Option String) : Option String :=
  match call.remote w.accounts error with
  | .error message => some message
  | .ok _ => none

/-- The step of the login screen that an event makes. -/
def loginEvent (w : AuthWorld) : AuthEvent → Option LoginEvent
  | .tapLogin _ _ => some (.tapLogin w.requests.length)
  | .completed id error =>
    match w.requests[id]? with
    | some ⟨.login email password, .remote⟩ =>
      some (.completed id (w.answer (.login email password) error))
    | _ => none
  | .runBlock =>
    match w.mainQueue with
    | [] => none
    | block :: _ => if w.isLoginBlock block then some .runBlock else none
  | _ => none

variable {w : AuthWorld} {s : LoginScreen} {id : ℕ} {call : AuthCall} {stage : AuthStage}

theorem isLogin_of_request (h : w.requests[id]? = some ⟨call, stage⟩) :
    w.isLogin id = call.isLogin := by
  unfold isLogin calls
  rw [List.getElem?_map, h]
  rfl

theorem isLogin_iff : w.isLogin id = true ↔
    ∃ email password stage, w.requests[id]? = some ⟨.login email password, stage⟩ := by
  unfold isLogin calls
  rw [List.getElem?_map]
  rcases w.requests[id]? with _ | ⟨⟨email, password⟩ | ⟨email, password, userName⟩, stage⟩
  · simp
  · simp [AuthCall.isLogin]
  · simp [AuthCall.isLogin]

theorem isLogin_setStage (w : AuthWorld) (id : ℕ) (stage : AuthStage) :
    (w.setStage id stage).isLogin = w.isLogin := by
  funext i
  unfold isLogin
  rw [calls_setStage]

theorem length_setStage (w : AuthWorld) (id : ℕ) (stage : AuthStage) :
    (w.setStage id stage).requests.length = w.requests.length := List.length_modify ..

theorem isLoginBlock_congr {w' : AuthWorld} (h : w'.isLogin = w.isLogin) :
    w'.isLoginBlock = w.isLoginBlock := by
  funext block
  cases block <;> simp [isLoginBlock, h]

theorem isLogin_start_self (w : AuthWorld) (call : AuthCall) :
    (w.start call).isLogin w.requests.length = call.isLogin :=
  isLogin_of_request List.getElem?_concat_length

theorem getElem?_start_of_ne (h : id ≠ w.requests.length) :
    (w.start call).requests[id]? = w.requests[id]? := by
  unfold start
  rw [List.getElem?_append]
  split_ifs with hlt
  · rfl
  · have hlast : [(⟨call, .remote⟩ : AuthRequest)].length ≤ id - w.requests.length := by
      show 1 ≤ _
      omega
    rw [List.getElem?_eq_none hlast, List.getElem?_eq_none (not_lt.mp hlt)]

theorem isLogin_start_of_ne (h : id ≠ w.requests.length) :
    (w.start call).isLogin id = w.isLogin id := by
  unfold isLogin calls
  rw [List.getElem?_map, List.getElem?_map, getElem?_start_of_ne h]

/-- The request of a queued completion has been made. -/
def Started (w : AuthWorld) : Block → Prop
  | .completion id _ => id < w.requests.length
  | .committed _ _ | .showLoginError _ | .showRegisterError _ => True

theorem Started.mono {w' : AuthWorld} {block : Block} (h : w.Started block)
    (hle : w.requests.length ≤ w'.requests.length) : w'.Started block := by
  cases block with
  | completion id error => exact lt_of_lt_of_le h hle
  | _ => trivial

/-! ## The screen follows the app -/

/-- The login screen and the part of the app that it is. -/
structure Follows (w : AuthWorld) (s : LoginScreen) : Prop where
  attempts : s.attempts = (List.range w.requests.length).filter w.isLogin
  answered : ∀ id, id ∈ s.answers.map Prod.fst ↔
    w.isLogin id ∧ ∃ call stage, w.requests[id]? = some ⟨call, stage⟩ ∧ stage ≠ .remote
  started : ∀ block ∈ w.mainQueue, w.Started block
  mainQueue : w.mainQueue.filter w.isLoginBlock = s.mainQueue.map LoginBlock.block
  viewModel : w.loginViewModel = s.viewModel

theorem follows_init : Follows {} {} where
  attempts := rfl
  answered := by simp
  started := by simp
  mainQueue := rfl
  viewModel := rfl

namespace Follows

/-! ### What the screen does not see -/

/-- A change of the accounts, the current user, the reports, the other view model or the flag of the
app is not seen. -/
theorem congr {w' : AuthWorld} (h : Follows w s) (hrequests : w'.requests = w.requests)
    (hqueue : w'.mainQueue = w.mainQueue) (hviewModel : w'.loginViewModel = w.loginViewModel) :
    Follows w' s := by
  have hlogin : w'.isLogin = w.isLogin := by
    funext id
    unfold isLogin calls
    rw [hrequests]
  refine ⟨?_, ?_, ?_, ?_, ?_⟩
  · rw [hlogin, hrequests]
    exact h.attempts
  · rw [hlogin, hrequests]
    exact h.answered
  · rw [hqueue]
    exact fun block hmem => (h.started block hmem).mono (by rw [hrequests])
  · rw [isLoginBlock_congr hlogin, hqueue]
    exact h.mainQueue
  · rw [hviewModel]
    exact h.viewModel

/-- A block of no login leaves the queue. -/
theorem pop (h : Follows w s) {block : Block} {rest : List Block}
    (hqueue : w.mainQueue = block :: rest) (hblock : w.isLoginBlock block = false) :
    Follows w.pop s where
  attempts := h.attempts
  answered := h.answered
  started := fun block hmem => h.started block (List.mem_of_mem_tail hmem)
  mainQueue := by
    have hfilter := h.mainQueue
    rw [hqueue, List.filter_cons_of_neg (by simp [hblock])] at hfilter
    show w.mainQueue.tail.filter w.isLoginBlock = _
    rw [hqueue]
    exact hfilter
  viewModel := h.viewModel

/-- A block of no login is queued. -/
theorem async (h : Follows w s) {block : Block} (hblock : w.isLoginBlock block = false)
    (hstarted : w.Started block) : Follows (w.async block) s where
  attempts := h.attempts
  answered := h.answered
  started := by
    intro block' hmem
    rcases List.mem_append.mp hmem with hmem | hmem
    · exact h.started block' hmem
    · rw [List.mem_singleton.mp hmem]
      exact hstarted
  mainQueue := by
    show (w.mainQueue ++ [block]).filter w.isLoginBlock = _
    rw [List.filter_append, List.filter_cons_of_neg (by simp [hblock]), List.filter_nil,
      List.append_nil]
    exact h.mainQueue
  viewModel := h.viewModel

/-- A registration goes on. -/
theorem setStage (h : Follows w s) (hother : w.isLogin id = false) (stage : AuthStage) :
    Follows (w.setStage id stage) s := by
  have hlogin := isLogin_setStage w id stage
  have hlength := length_setStage w id stage
  refine ⟨?_, fun i => ?_, ?_, ?_, h.viewModel⟩
  · rw [hlogin, hlength]
    exact h.attempts
  · rw [h.answered, hlogin, getElem?_setStage]
    refine and_congr_right fun hi => ?_
    have hne : id ≠ i := by
      rintro rfl
      rw [hother] at hi
      cases hi
    simp [hne]
  · exact fun block hmem => (h.started block hmem).mono hlength.ge
  · rw [isLoginBlock_congr hlogin]
    exact h.mainQueue

/-! ### What it does -/

theorem start (h : Follows w s) (call : AuthCall) (attempts : List ℕ)
    (hattempts : attempts = s.attempts ++ if call.isLogin then [w.requests.length] else []) :
    Follows (w.start call) { s with attempts } := by
  have hlength : (w.start call).requests.length = w.requests.length + 1 := List.length_append
  have hold : ∀ i < w.requests.length, (w.start call).isLogin i = w.isLogin i :=
    fun i hi => isLogin_start_of_ne hi.ne
  refine ⟨?_, fun i => ?_, ?_, ?_, h.viewModel⟩
  · show attempts = _
    rw [hattempts, h.attempts, hlength, List.range_succ, List.filter_append]
    congr 1
    · exact List.filter_congr fun i hi => (hold i (List.mem_range.mp hi)).symm
    · rw [List.filter_singleton, isLogin_start_self, Bool.cond_eq_ite]
  · show i ∈ s.answers.map Prod.fst ↔ _
    rw [h.answered]
    by_cases hi : i = w.requests.length
    · subst hi
      have hlast : (w.start call).requests[w.requests.length]? = some ⟨call, .remote⟩ :=
        List.getElem?_concat_length
      simp [hlast]
    · rw [isLogin_start_of_ne hi, getElem?_start_of_ne hi]
  · exact fun block hmem => (h.started block hmem).mono (hlength ▸ Nat.le_succ _)
  · refine Eq.trans (List.filter_congr fun block hblock => ?_) h.mainQueue
    cases block with
    | completion id error => exact hold id (h.started _ hblock)
    | _ => rfl

theorem tapLogin (h : Follows w s) (email password : String) :
    Follows (w.start (.login email password)) (s.step (.tapLogin w.requests.length)) := by
  have hlast : ∀ earlier ∈ s.attempts, earlier < w.requests.length := by
    intro earlier hmem
    rw [h.attempts, List.mem_filter, List.mem_range] at hmem
    exact hmem.1
  have hstep : s.step (.tapLogin w.requests.length) =
      { s with attempts := s.attempts ++ [w.requests.length] } := if_pos hlast
  rw [hstep]
  exact h.start _ _ rfl

/-- The block of a login is queued. -/
theorem asyncLogin (h : Follows w s) (block : LoginBlock)
    (hblock : w.isLoginBlock block.block = true) (hstarted : w.Started block.block) :
    Follows (w.async block.block) { s with mainQueue := s.mainQueue ++ [block] } where
  attempts := h.attempts
  answered := h.answered
  started := by
    intro block' hmem
    rcases List.mem_append.mp hmem with hmem | hmem
    · exact h.started block' hmem
    · rw [List.mem_singleton.mp hmem]
      exact hstarted
  mainQueue := by
    show (w.mainQueue ++ [block.block]).filter w.isLoginBlock = _
    rw [List.filter_append, List.filter_cons_of_pos hblock, h.mainQueue, List.map_append]
    rfl
  viewModel := h.viewModel

/-- The service answers a login. -/
theorem answer (h : Follows w s) {email password : String}
    (hrequest : w.requests[id]? = some ⟨.login email password, .remote⟩) (error : Option String) :
    Follows ((w.setStage id .answered).async (.completion id error))
      (s.step (.completed id error)) := by
  have hid : id < w.requests.length := (List.getElem?_eq_some_iff.mp hrequest).1
  have hlogin : w.isLogin id = true := isLogin_of_request hrequest
  have hnew : id ∉ s.answers.map Prod.fst := by
    rw [h.answered, hrequest]
    rintro ⟨-, call, stage, heq, hstage⟩
    exact hstage (AuthRequest.mk.inj (Option.some.inj heq)).2.symm
  have hattempted : id ∈ s.attempts := by
    rw [h.attempts]
    exact List.mem_filter.mpr ⟨List.mem_range.mpr hid, hlogin⟩
  have hstep : s.step (.completed id error) = { s with
      answers := s.answers ++ [(id, error)]
      mainQueue := s.mainQueue ++ [.callback id error] } := if_pos ⟨hattempted, hnew⟩
  have hsame := isLogin_setStage w id .answered
  have hlength := length_setStage w id .answered
  have hfollows : Follows (w.setStage id .answered)
      { s with answers := s.answers ++ [(id, error)] } := by
    refine ⟨?_, fun i => ?_, ?_, ?_, h.viewModel⟩
    · rw [hsame, hlength]
      exact h.attempts
    · rw [List.map_append, List.mem_append, h.answered, hsame, getElem?_setStage]
      by_cases hi : id = i
      · subst hi
        simp [hlogin, hrequest]
      · simp [hi, Ne.symm hi]
    · exact fun block hmem => (h.started block hmem).mono hlength.ge
    · rw [isLoginBlock_congr hsame]
      exact h.mainQueue
  rw [hstep]
  refine hfollows.asyncLogin (.callback id error) ?_ ?_
  · show (w.setStage id .answered).isLogin id = true
    rw [hsame, hlogin]
  · show id < (w.setStage id .answered).requests.length
    rw [hlength]
    exact hid

/-- The service answers a registration. -/
theorem answerOther (h : Follows w s) (hrequest : w.requests[id]? = some ⟨call, .remote⟩)
    (hcall : call.isLogin = false) (error : Option String) :
    Follows ((w.setStage id .answered).async (.completion id error)) s := by
  have hother : w.isLogin id = false := (isLogin_of_request hrequest).trans hcall
  refine (h.setStage hother .answered).async ?_ ?_
  · show (w.setStage id .answered).isLogin id = false
    rw [isLogin_setStage, hother]
  · show id < (w.setStage id .answered).requests.length
    rw [length_setStage]
    exact (List.getElem?_eq_some_iff.mp hrequest).1

/-- The first block of the queue is one of a login: it is the first block of the screen. -/
theorem popLogin (h : Follows w s) {block : Block} {rest : List Block}
    (hqueue : w.mainQueue = block :: rest) (hblock : w.isLoginBlock block = true) :
    ∃ first blocks, s.mainQueue = first :: blocks ∧ first.block = block ∧
      Follows w.pop { s with mainQueue := blocks } := by
  have hfilter := h.mainQueue
  rw [hqueue, List.filter_cons_of_pos hblock] at hfilter
  obtain ⟨first, blocks, hmain, hfirst, hrest⟩ := List.map_eq_cons_iff.mp hfilter.symm
  refine ⟨first, blocks, hmain, hfirst, h.attempts, h.answered, ?_, ?_, h.viewModel⟩
  · exact fun block hmem => h.started block (List.mem_of_mem_tail hmem)
  · show w.mainQueue.tail.filter w.isLoginBlock = _
    rw [hqueue]
    exact hrest.symm

/-- A block of a login changes the view model. -/
theorem setViewModel (h : Follows w s) (f : LoginViewModel → LoginViewModel)
    (applied : List (ℕ × Option String)) :
    Follows { w with loginViewModel := f w.loginViewModel }
      { s with applied, viewModel := f s.viewModel } :=
  ⟨h.attempts, h.answered, h.started, h.mainQueue, congrArg f h.viewModel⟩

theorem completed (h : Follows w s) (id : ℕ) (error : Option String) :
    Follows (w.step (.completed id error))
      (run LoginScreen.step s (w.loginEvent (.completed id error)).toList) := by
  by_cases hremote : ∃ call, w.requests[id]? = some ⟨call, .remote⟩
  · obtain ⟨call, hrequest⟩ := hremote
    have hstep : w.step (.completed id error) = w.complete id call error := by
      simp only [AuthWorld.step, hrequest]
    rw [hstep]
    cases call with
    | login email password =>
      have hevent : w.loginEvent (.completed id error) =
          some (.completed id (w.answer (.login email password) error)) := by
        simp only [loginEvent, hrequest]
      rw [hevent, Option.toList_some, run_cons, run_nil]
      unfold complete AuthWorld.answer
      cases (AuthCall.login email password).remote w.accounts error with
      | error message => exact h.answer hrequest (some message)
      | ok accounts =>
        have hsigned : Follows { w with accounts, currentUser := some email } s :=
          h.congr rfl rfl rfl
        exact hsigned.answer hrequest none
    | register email password userName =>
      have hevent : w.loginEvent (.completed id error) = none := by
        simp only [loginEvent, hrequest]
      rw [hevent]
      show Follows _ s
      unfold complete
      cases (AuthCall.register email password userName).remote w.accounts error with
      | error message => exact h.answerOther hrequest rfl (some message)
      | ok accounts =>
        have hsigned : Follows { w with accounts, currentUser := some email } s :=
          h.congr rfl rfl rfl
        exact hsigned.answerOther hrequest rfl none
  · have hstep : w.step (.completed id error) = w := by
      simp only [AuthWorld.step]
      split
      · exact absurd ⟨_, by assumption⟩ hremote
      · rfl
    have hevent : w.loginEvent (.completed id error) = none := by
      simp only [loginEvent]
      split
      · exact absurd ⟨_, by assumption⟩ hremote
      · rfl
    rw [hstep, hevent]
    exact h

theorem commitCompleted (h : Follows w s) (id : ℕ) (error : Option String)
    (invalidUser : Bool) : Follows (w.step (.commitCompleted id error invalidUser)) s := by
  simp only [AuthWorld.step]
  split
  · rename_i email password userName user hrequest
    have hother : w.isLogin id = false := isLogin_of_request hrequest
    cases error with
    | some message =>
      cases invalidUser with
      | false => exact (h.setStage hother (.committed user)).async rfl trivial
      | true =>
        have hsignedOut : Follows (w.signOutByForce user) s := h.congr rfl rfl rfl
        exact (hsignedOut.setStage hother (.committed user)).async rfl trivial
    | none =>
      have hnamed : Follows { w with accounts := w.accounts.setDisplayName user userName } s :=
        h.congr rfl rfl rfl
      exact (hnamed.setStage hother (.committed user)).async rfl trivial
  · exact h

/-- A block of a login runs. -/
theorem runLogin (h : Follows w s) {block : Block} {rest : List Block}
    (hqueue : w.mainQueue = block :: rest) (hblock : w.isLoginBlock block = true) :
    Follows (w.step .runBlock) (s.step .runBlock) := by
  have hstep : w.step .runBlock = w.pop.runBlock block := by simp only [AuthWorld.step, hqueue]
  obtain ⟨first, blocks, hmain, rfl, hpop⟩ := h.popLogin hqueue hblock
  have hstep' : s.step .runBlock = LoginScreen.runBlock { s with mainQueue := blocks } first := by
    simp only [LoginScreen.step, hmain]
  rw [hstep, hstep']
  cases first with
  | callback id error =>
    obtain ⟨email, password, stage, hrequest⟩ := isLogin_iff.mp hblock
    have hcallback : w.pop.runBlock (LoginBlock.callback id error).block =
        w.pop.loginCallback id error := by
      have hpop : w.pop.requests[id]? = some ⟨.login email password, stage⟩ := hrequest
      simp only [LoginBlock.block, AuthWorld.runBlock, hpop]
    rw [hcallback]
    cases error with
    | none =>
      exact Follows.setViewModel (w := w.pop.report id .onSuccess) (hpop.congr rfl rfl rfl)
        (fun viewModel => { viewModel with isError := false, isNavigateToHomeScreen := true }) _
    | some message =>
      exact Follows.asyncLogin (w := w.pop.report id (.onFailure message))
        (hpop.congr rfl rfl rfl) (.showError id message) rfl trivial
  | showError id message =>
    exact hpop.setViewModel
      (fun viewModel => { viewModel with errorMessage := message, isError := true }) _

/-- A block of no login runs. -/
theorem runOther (h : Follows w s) {block : Block} {rest : List Block}
    (hqueue : w.mainQueue = block :: rest) (hblock : w.isLoginBlock block = false) :
    Follows (w.step .runBlock) s := by
  have hstep : w.step .runBlock = w.pop.runBlock block := by simp only [AuthWorld.step, hqueue]
  have hpop := h.pop hqueue hblock
  have hfailure : ∀ id message, Follows (w.pop.registerFailure id message) s := by
    intro id message
    have hreport : Follows (w.pop.report id (.onFailure message)) s := hpop.congr rfl rfl rfl
    exact hreport.async rfl trivial
  rw [hstep]
  cases block with
  | completion id error =>
    have hother : w.pop.isLogin id = false := hblock
    unfold AuthWorld.runBlock
    dsimp only
    split
    · rename_i hrequest
      rw [isLogin_of_request hrequest] at hother
      cases hother
    · cases error with
      | some message => exact hfailure id message
      | none =>
        unfold registerCallback
        dsimp only
        split
        · exact hpop
        · exact hpop.setStage hother _
    · exact hpop
  | committed id error =>
    cases error with
    | some message => exact hfailure id message
    | none => exact hpop.congr rfl rfl rfl
  | showLoginError message => cases hblock
  | showRegisterError message => exact hpop.congr rfl rfl rfl

/-- A step of the app is the step of the screen it makes, or none. -/
theorem step (h : Follows w s) (e : AuthEvent) :
    Follows (w.step e) (run LoginScreen.step s (w.loginEvent e).toList) := by
  cases e with
  | openURL url =>
    show Follows (w.onOpenURL url) s
    unfold onOpenURL
    split_ifs
    · exact h.congr rfl rfl rfl
    · exact h
  | tapLogin email password => exact h.tapLogin email password
  | tapRegister email password userName => exact h.start _ _ (List.append_nil _).symm
  | completed id error => exact h.completed id error
  | commitCompleted id error invalidUser => exact h.commitCompleted id error invalidUser
  | runBlock =>
    rcases hqueue : w.mainQueue with _ | ⟨block, rest⟩
    · have hstep : w.step .runBlock = w := by simp only [AuthWorld.step, hqueue]
      rw [hstep]
      simp only [loginEvent, hqueue]
      exact h
    · simp only [loginEvent, hqueue]
      cases hblock : w.isLoginBlock block with
      | true => exact h.runLogin hqueue hblock
      | false => exact h.runOther hqueue hblock

end Follows

/-- Every login is answered and its blocks have run. -/
def LoginsDone (w : AuthWorld) : Prop :=
  (∀ block ∈ w.mainQueue, w.isLoginBlock block = false) ∧
    ∀ (id : ℕ) email password stage, w.requests[id]? = some ⟨.login email password, stage⟩ →
      stage ≠ .remote

theorem Follows.quiet_iff (h : Follows w s) : s.Quiet ↔ w.LoginsDone := by
  have hqueue : s.mainQueue = [] ↔ ∀ block ∈ w.mainQueue, w.isLoginBlock block = false := by
    rw [← List.map_eq_nil_iff (f := LoginBlock.block), ← h.mainQueue, List.filter_eq_nil_iff]
    simp only [Bool.not_eq_true]
  have hanswered : ∀ a, (∃ error, (a, error) ∈ s.answers) ↔ a ∈ s.answers.map Prod.fst := by
    simp
  refine and_congr hqueue ?_
  simp only [hanswered, h.answered, h.attempts, List.mem_filter, List.mem_range]
  constructor
  · intro hall id email password stage hrequest
    have hid : id < w.requests.length := (List.getElem?_eq_some_iff.mp hrequest).1
    obtain ⟨-, call, stage', hsame, hstage⟩ := hall id ⟨hid, isLogin_of_request hrequest⟩
    obtain rfl := (AuthRequest.mk.inj (Option.some.inj (hrequest.symm.trans hsame))).2
    exact hstage
  · rintro hall id ⟨-, hlogin⟩
    obtain ⟨email, password, stage, hrequest⟩ := isLogin_iff.mp hlogin
    exact ⟨hlogin, _, stage, hrequest, hall id email password stage hrequest⟩

/-- In every run of the app the login view model is that of the login screen, whose steps are those
of the logins in their order; the screen is quiet exactly if all logins are done. -/
theorem loginScreen_run (es : List AuthEvent) :
    let w := run AuthWorld.step {} es
    let s := run LoginScreen.step {} (Runs.calls AuthWorld.step loginEvent {} es)
    w.loginViewModel = s.viewModel ∧ s.attempts = (List.range w.requests.length).filter w.isLogin ∧
      (s.Quiet ↔ w.LoginsDone) := by
  intro w s
  have hfollows : Follows w s := run_calls_related (fun _ _ e h => h.step e) follows_init es
  exact ⟨hfollows.viewModel, hfollows.attempts, hfollows.quiet_iff⟩

end AuthWorld

end GroceryApp
