import GroceryApp.FirestoreCore.EngineSteps
import Mathlib.Data.List.Count

/-!
# Runs of the engine

What holds over every run of possible events, in whatever order they come: no assertion fails and
the pipeline follows the queue (`pipeline_follows_queue`), each user's writes are answered once each
and in order (`writes_answered_in_order`), who waits for pending writes is told exactly once
(`waits_told_once`), the reported changes add up to what is shown (`reports_add_up`), what is
remembered of a document never gets older (`versions_never_fall`), and what is shown of it is the
last pending write or what the backend had at the remembered version (`localView_truthful`). No
garbage of the local store is collected in these runs.
-/

namespace GroceryApp.FirestoreCore

open Transducers

namespace SyncEngine

/-- A step of a run of the engine. -/
abbrev EngineTurn := Turn SyncEngine EngineEvent Emission

instance decidablePossible (engine : SyncEngine) (event : EngineEvent) :
    Decidable (engine.Possible event) := by
  cases event <;> unfold Possible <;> infer_instance

variable {engine engine' : SyncEngine} {events : List EngineEvent} {turns : List EngineTurn}

/-- A step that is taken is the one that is possible. -/
theorem Valid.of_step (h : engine.Valid) {event : EngineEvent} (hp : engine.Possible event)
    {emission : Emission} (hstep : engine.step event = .ok (engine', emission)) :
    engine'.Valid ∧ Answers engine event engine' emission := by
  obtain ⟨engine₁, emission₁, hstep₁, hvalid, hanswers⟩ := h.step hp
  rw [hstep] at hstep₁
  cases hstep₁
  exact ⟨hvalid, hanswers⟩

theorem Valid.run (h : engine.Valid) (hP : Along SyncEngine.step Possible engine events) :
    ∃ engine' turns, exec SyncEngine.step engine events = .ok (engine', turns) ∧ engine'.Valid :=
  exec_safe (I := Valid) (fun engine event h hp => by
    obtain ⟨engine', emission, hstep, hvalid, -⟩ := h.step hp
    exact ⟨engine', emission, hstep, hvalid⟩) h hP

/-- No assertion fails, whatever happens in whatever order, and in every state the pipeline is the
first ten batches of the current user's queue, or empty without the network; the requests without a
response are exactly the pipeline's once the handshake is complete; and the stream runs only with
the network, and does if there is something to send. -/
theorem pipeline_follows_queue (user : User) (events : List EngineEvent)
    (h : Along step Possible (new user) events) :
    ∃ engine turns, exec step (new user) events = .ok (engine, turns) ∧
      engine.remoteStore.writePipeline = (if engine.remoteStore.isNetworkEnabled then
        engine.localStore.mutationQueue.queue.take maxPendingWrites else []) ∧
      engine.remoteStore.writeStream.unanswered =
        (if engine.remoteStore.writeStream.handshakeComplete then
          engine.remoteStore.writePipeline.map (·.mutations) else []) ∧
      (engine.remoteStore.writeStream.isStarted = true →
        engine.remoteStore.isNetworkEnabled = true) ∧
      (engine.remoteStore.isNetworkEnabled = true → engine.remoteStore.writePipeline ≠ [] →
        engine.remoteStore.writeStream.isStarted = true) := by
  obtain ⟨engine, turns, hrun, hvalid⟩ := (valid_new user).run h
  exact ⟨engine, turns, hrun, hvalid.remoteStore.pipeline, hvalid.remoteStore.unanswered,
    hvalid.remoteStore.connected, hvalid.remoteStore.running⟩

/-- A write that is made offline, sent when the network comes and acknowledged. -/
def offlineWrite : List EngineEvent :=
  [.writeMutations [⟨⟨["groceries", "Milk"], rfl⟩, .set [], .none⟩] 0, .enableNetwork, .streamOpened,
    .handshakeResponse [], .writeResponse 1 [⟨1⟩] []]

theorem pipeline_follows_queue_offlineWrite :
    ∃ engine turns, exec step (new none) offlineWrite = .ok (engine, turns) ∧
      engine.remoteStore.writePipeline = (if engine.remoteStore.isNetworkEnabled then
        engine.localStore.mutationQueue.queue.take maxPendingWrites else []) := by
  obtain ⟨engine, turns, hrun, hpipeline, -⟩ := pipeline_follows_queue none offlineWrite (by decide)
  exact ⟨engine, turns, hrun, hpipeline⟩

/-! ## Answers in order -/

section Order

variable (user : User)

/-- The callback of the write the user makes in a turn. -/
def writesOf (turn : EngineTurn) : List CallbackId :=
  match turn.input with
  | .writeMutations _ callback => if turn.state.currentUser = user then [callback] else []
  | _ => []

/-- The callbacks of writes that are called in a turn of the user. -/
def notifiedOf (turn : EngineTurn) : List CallbackId :=
  if turn.state.currentUser = user then turn.output.notified.map Prod.fst else []

/-- The callbacks that are still to be called. -/
def uncalled (engine : SyncEngine) : List CallbackId :=
  (engine.mutationCallbacks user).entries.map Prod.snd

theorem Valid.map_callback_waiting (h : engine.Valid) :
    (engine.pendingWrites.waiting user).map (·.callback) = engine.uncalled user := by
  have hlength := h.length_entries user
  unfold pendingWrites uncalled
  rw [List.map_map]
  show ((engine.mutationCallbacks user).entries.zip _).map (Prod.snd ∘ Prod.fst) = _
  rw [← List.map_map, List.map_fst_zip hlength.le]

theorem map_callback_written (engine : SyncEngine) (event : EngineEvent) (emission : Emission)
    (output : Outbox.Output PendingWrite CallbackId Status) :
    (Outbox.written user ⟨engine.pendingWrites, engine.input event, output⟩).map (·.callback) =
      writesOf user ⟨engine, event, emission⟩ := by
  unfold Outbox.written writesOf
  cases event with
  | writeMutations mutations callback =>
    simp only [input]
    show List.map _ (if engine.currentUser = user then _ else _) = _
    split_ifs <;> rfl
  | streamError code =>
    simp only [input]
    split_ifs <;> rfl
  | _ => rfl

theorem Valid.step_order (h : engine.Valid) {event : EngineEvent} (hp : engine.Possible event)
    {emission : Emission} (hstep : engine.step event = .ok (engine', emission)) :
    engine'.Valid ∧ engine.uncalled user ++ writesOf user ⟨engine, event, emission⟩ =
      notifiedOf user ⟨engine, event, emission⟩ ++ engine'.uncalled user := by
  obtain ⟨hvalid, hanswers⟩ := h.of_step hp hstep
  refine ⟨hvalid, ?_⟩
  have hline := congrArg (List.map (·.callback))
    (Outbox.step_line user engine.pendingWrites (engine.input event))
  rw [List.map_append, List.map_append, hanswers.pendingWrites, h.map_callback_waiting,
    hvalid.map_callback_waiting, map_callback_written user engine event emission] at hline
  rw [hline]
  congr 1
  have hcalled := congrArg Prod.fst hanswers.called
  unfold Outbox.answered notifiedOf
  show List.map _ (if engine.currentUser = user then _ else _) = if engine.currentUser = user then _
    else _
  split_ifs
  · rw [show emission.notified = _ from hcalled.symm, List.map_map]
    unfold called
    simp only [List.map_map]
    rfl
  · rfl

/-- Over every run, the callbacks of each user's writes are called once each and in the order of the
writes, and those that are not called yet wait, one for each batch in the user's queue. -/
theorem writes_answered_in_order (user₀ : User) (events : List EngineEvent)
    (h : Along step Possible (new user₀) events) :
    ∃ engine turns, exec step (new user₀) events = .ok (engine, turns) ∧
      turns.flatMap (writesOf user) = turns.flatMap (notifiedOf user) ++ engine.uncalled user ∧
      (engine.uncalled user).length = (engine.localStore.mutationQueues user).queue.length := by
  obtain ⟨engine, turns, hrun, hvalid⟩ := (valid_new user₀).run h
  have horder := exec_conserves (I := Valid)
    (fun _ _ _ _ hs hp hstep => hs.step_order user hp hstep) (valid_new user₀) h hrun
  refine ⟨engine, turns, hrun, horder, ?_⟩
  unfold uncalled
  rw [List.length_map]
  exact hvalid.length_entries user

theorem writes_answered_in_order_offlineWrite :
    ∃ engine turns, exec step (new none) offlineWrite = .ok (engine, turns) ∧
      turns.flatMap (writesOf none) = turns.flatMap (notifiedOf none) ++ engine.uncalled none := by
  obtain ⟨engine, turns, hrun, horder, -⟩ :=
    writes_answered_in_order none none offlineWrite (by decide)
  exact ⟨engine, turns, hrun, horder⟩

end Order

/-! ## Waits for pending writes -/

section Waits

variable {callback : CallbackId}

/-- The engine can be reached. -/
def Reachable (engine : SyncEngine) : Prop :=
  ∃ user events turns, Along step Possible (new user) events ∧
    exec step (new user) events = .ok (engine, turns)

theorem Reachable.valid (h : engine.Reachable) : engine.Valid := by
  obtain ⟨user, events, turns, hP, hrun⟩ := h
  exact exec_invariant (fun _ _ _ _ hs hp hstep => (hs.of_step hp hstep).1) (valid_new user) hP hrun

theorem counts_pendingWrites (h : ∀ e ∈ engine.pendingWritesCallbacks.entries, callback ∉ e.2) :
    engine.pendingWrites.counts callback = [] := by
  unfold Outbox.counts pendingWrites awaited
  rw [List.map_eq_nil_iff, List.filter_eq_nil_iff]
  intro w hw
  obtain ⟨e, he, hw⟩ := List.mem_flatMap.mp hw
  obtain ⟨c, hc, rfl⟩ := List.mem_map.mp hw
  have hne : c ≠ callback := fun heq => h e he (heq ▸ hc)
  simpa using hne

/-- What a callback that waits is told in a turn. -/
def toldOf (callback : CallbackId) (turn : EngineTurn) : List (CallbackId × Status) :=
  turn.output.triggered.filter fun t => decide (t.1 = callback)

/-- Who is only told one thing is told it as often as he is told. -/
theorem filter_eq_replicate {told : List (CallbackId × Status)} (callback : CallbackId)
    (status : Status) (h : ∀ t ∈ told, t.1 = callback → t.2 = status) :
    told.filter (fun t => decide (t.1 = callback)) =
      List.replicate (told.count (callback, status)) (callback, status) := by
  rw [List.eq_replicate_iff]
  constructor
  · rw [List.count_eq_countP, ← List.countP_eq_length_filter]
    refine List.countP_congr fun t ht => ?_
    rw [decide_eq_true_eq, beq_iff_eq]
    exact ⟨fun hcallback => Prod.ext hcallback (h t ht hcallback), fun heq => heq ▸ rfl⟩
  · intro t ht
    obtain ⟨hmem, hcallback⟩ := List.mem_filter.mp ht
    have hcallback := of_decide_eq_true hcallback
    exact Prod.ext hcallback (h t hmem hcallback)

variable {outputs : List (Outbox.Output PendingWrite CallbackId Status)}

theorem mem_told {t : CallbackId × Status} (h : t ∈ (outputs.map called).flatMap Prod.snd) :
    t.1 ∈ outputs.flatMap (·.reached) ∧ t.2 = .ok ∨
      t.1 ∈ outputs.flatMap (·.cancelled) ∧ t.2 = .error .cancelled := by
  rw [List.flatMap_map] at h
  obtain ⟨output, houtput, ht⟩ := List.mem_flatMap.mp h
  rcases List.mem_append.mp ht with ht | ht
  · obtain ⟨c, hc, rfl⟩ := List.mem_map.mp ht
    exact .inl ⟨List.mem_flatMap.mpr ⟨output, houtput, hc⟩, rfl⟩
  · obtain ⟨c, hc, rfl⟩ := List.mem_map.mp ht
    exact .inr ⟨List.mem_flatMap.mpr ⟨output, houtput, hc⟩, rfl⟩

/-- Who is called, with what and how often, is as the outbox says. -/
theorem count_told (callback : CallbackId)
    (outputs : List (Outbox.Output PendingWrite CallbackId Status)) :
    ((outputs.map called).flatMap Prod.snd).count (callback, .ok) =
        (outputs.flatMap (·.reached)).count callback ∧
      ((outputs.map called).flatMap Prod.snd).count (callback, .error .cancelled) =
        (outputs.flatMap (·.cancelled)).count callback := by
  have hinj : ∀ status : Status, Function.Injective fun c : CallbackId => (c, status) :=
    fun _ _ _ h => (Prod.mk.inj h).1
  induction outputs with
  | nil => exact ⟨rfl, rfl⟩
  | cons output outputs ih =>
    obtain ⟨hok, hcancelled⟩ := ih
    have hno : ∀ (status status' : Status) (cs : List CallbackId), status ≠ status' →
        (cs.map fun c => (c, status)).count (callback, status') = 0 := by
      intro status status' cs hne
      rw [List.count_eq_zero]
      intro hmem
      obtain ⟨c, -, hc⟩ := List.mem_map.mp hmem
      exact hne (Prod.mk.inj hc).2
    simp only [List.map_cons, List.flatMap_cons, List.count_append, hok, hcancelled]
    unfold called
    constructor
    · rw [List.count_append, List.count_map_of_injective _ _ (hinj .ok),
        hno (.error .cancelled) .ok _ (by decide), Nat.add_zero]
    · rw [List.count_append, List.count_map_of_injective _ _ (hinj (.error .cancelled)),
        hno .ok (.error .cancelled) _ (by decide), Nat.zero_add]

/-- A callback that is not sent away is told well, as often as it is reached. -/
theorem told_ok (h : (outputs.flatMap (·.cancelled)).count callback = 0) :
    ((outputs.map called).flatMap Prod.snd).filter (fun t => decide (t.1 = callback)) =
      List.replicate ((outputs.flatMap (·.reached)).count callback) (callback, .ok) := by
  rw [filter_eq_replicate callback .ok, (count_told callback outputs).1]
  intro t ht hcallback
  rcases mem_told ht with ⟨-, hstatus⟩ | ⟨hmem, -⟩
  · exact hstatus
  · exact absurd (hcallback ▸ hmem) (List.count_eq_zero.mp h)

/-- A callback that is not reached is told of the cancellation, as often as it is sent away. -/
theorem told_cancelled (h : (outputs.flatMap (·.reached)).count callback = 0) :
    ((outputs.map called).flatMap Prod.snd).filter (fun t => decide (t.1 = callback)) =
      List.replicate ((outputs.flatMap (·.cancelled)).count callback)
        (callback, .error .cancelled) := by
  rw [filter_eq_replicate callback (.error .cancelled), (count_told callback outputs).2]
  intro t ht hcallback
  rcases mem_told ht with ⟨hmem, -⟩ | ⟨-, hstatus⟩
  · exact absurd (hcallback ▸ hmem) (List.count_eq_zero.mp h)
  · exact hstatus

theorem input_eq_serve {event : EngineEvent} {user : User}
    (h : engine.input event = .serve user) : event = .credentialChange user := by
  cases event with
  | credentialChange user' =>
    cases h
    rfl
  | streamError code =>
    simp only [input] at h
    split_ifs at h
  | _ => cases h

theorem input_eq_wait {event : EngineEvent} (h : engine.input event = .wait callback) :
    event = .registerPendingWritesCallback callback := by
  cases event with
  | registerPendingWritesCallback callback' =>
    cases h
    rfl
  | streamError code =>
    simp only [input] at h
    split_ifs at h
  | _ => cases h

/-- Over every run the callbacks are called as an outbox of the pending writes calls them. -/
theorem Valid.run_outbox (h : engine.Valid) {event : EngineEvent}
    (first : Outbox.Input User PendingWrite CallbackId Status) (hfirst : engine.input event = first)
    (hP : Along SyncEngine.step Possible engine (event :: events)) :
    ∃ engine' turns inputs, exec SyncEngine.step engine (event :: events) = .ok (engine', turns) ∧
      engine'.Valid ∧ (∀ i ∈ inputs, ∃ engine₁, ∃ event ∈ events, input engine₁ event = i) ∧
      (mealy Outbox.step engine.pendingWrites (first :: inputs)).1 = engine'.pendingWrites ∧
      ((mealy Outbox.step engine.pendingWrites (first :: inputs)).2.map (·.output)).map called =
        turns.map fun turn => (turn.output.notified, turn.output.triggered) := by
  subst hfirst
  obtain ⟨engine', turns, hrun, hvalid, hfinal, hseen⟩ := exec_simulates (I := Valid)
    (fun engine event hs hp => by
      obtain ⟨engine', emission, hstep, hvalid, hanswers⟩ := hs.step hp
      exact ⟨engine', emission, hstep, hvalid, hanswers.pendingWrites, hanswers.called⟩) h hP
  have hinputs := map_input_exec hrun
  obtain ⟨engine₁, emission, rest, -, -, rfl⟩ := exec_cons_ok hrun
  rw [List.map_cons] at hfinal hseen
  refine ⟨engine', _, _, hrun, hvalid, ?_, hfinal, ?_⟩
  · intro i hi
    obtain ⟨turn, hturn, rfl⟩ := List.mem_map.mp hi
    exact ⟨turn.state, turn.input, (List.cons.inj hinputs).2 ▸ List.mem_map_of_mem hturn, rfl⟩
  · rw [List.map_map]
    exact hseen

theorem flatMap_toldOf {turns : List EngineTurn}
    (h : outputs.map called = turns.map fun turn => (turn.output.notified, turn.output.triggered)) :
    turns.flatMap (toldOf callback) =
      ((outputs.map called).flatMap Prod.snd).filter fun t => decide (t.1 = callback) := by
  rw [h, List.flatMap_map, List.filter_flatMap]
  rfl

theorem length_notified {turns : List EngineTurn}
    (h : outputs.map called = turns.map fun turn => (turn.output.notified, turn.output.triggered)) :
    (turns.flatMap (·.output.notified)).length = (outputs.flatMap (·.answered)).length := by
  have hfst := congrArg (List.flatMap Prod.fst) h
  rw [List.flatMap_map, List.flatMap_map] at hfst
  rw [← hfst, List.length_flatMap, List.length_flatMap]
  unfold called
  simp only [List.length_map]

/-- While the user stays, who asks for the first time is told, once the writes that were pending
then are answered, and nobody is sent away. -/
theorem Valid.told (h : engine.Valid) (hnew : engine.pendingWrites.counts callback = [])
    (hP : Along SyncEngine.step Possible engine (.registerPendingWritesCallback callback :: events))
    (huser : ∀ user, .credentialChange user ∈ events → user = engine.currentUser)
    (honce : .registerPendingWritesCallback callback ∉ events) :
    ∃ engine' turns, exec SyncEngine.step engine
        (.registerPendingWritesCallback callback :: events) = .ok (engine', turns) ∧
      engine'.Valid ∧ engine'.currentUser = engine.currentUser ∧
      turns.flatMap (toldOf callback) = (if engine.localStore.mutationQueue.queue.length ≤
        (turns.flatMap (·.output.notified)).length then [(callback, .ok)] else []) ∧
      (engine'.pendingWrites.counts callback).length =
        if engine.localStore.mutationQueue.queue.length ≤
          (turns.flatMap (·.output.notified)).length then 0 else 1 := by
  obtain ⟨engine', turns, inputs, hrun, hvalid, hmem, hfinal, hseen⟩ :=
    h.run_outbox (.wait callback) rfl hP
  have hserve : ∀ owner, .serve owner ∈ inputs → owner = engine.pendingWrites.owner := by
    intro owner howner
    obtain ⟨engine₁, event, hevent, hinput⟩ := hmem _ howner
    exact huser owner (input_eq_serve hinput ▸ hevent)
  have hwait : .wait callback ∉ inputs := by
    intro hwait
    obtain ⟨engine₁, event, hevent, hinput⟩ := hmem _ hwait
    exact honce (input_eq_wait hinput ▸ hevent)
  obtain ⟨hreached, hleft, hcancelled, howner⟩ := Outbox.wait_reached_once hnew hserve hwait
  have hlength := length_notified hseen
  rw [List.flatMap_map] at hlength
  rw [← hlength, h.length_line] at hreached hleft
  rw [hfinal] at hleft howner
  refine ⟨engine', turns, hrun, hvalid, howner, ?_, hleft⟩
  rw [flatMap_toldOf hseen, told_ok (by rw [List.flatMap_map]; exact hcancelled ▸ rfl),
    List.flatMap_map]
  rw [show List.count callback _ = _ from hreached]
  split_ifs <;> rfl

/-- When the user changes, who still waits is told once that it is cancelled, and nothing after. -/
theorem Valid.cancelled (h : engine.Valid) {user : User} (hne : user ≠ engine.currentUser)
    (hP : Along SyncEngine.step Possible engine (.credentialChange user :: events))
    (honce : .registerPendingWritesCallback callback ∉ events) :
    ∃ engine' turns, exec SyncEngine.step engine (.credentialChange user :: events) =
        .ok (engine', turns) ∧
      turns.flatMap (toldOf callback) = List.replicate
        (engine.pendingWrites.counts callback).length (callback, .error .cancelled) := by
  obtain ⟨engine', turns, inputs, hrun, -, hmem, -, hseen⟩ :=
    h.run_outbox (.serve user) rfl hP
  have howner : user ≠ engine.pendingWrites.owner := hne
  have hwait : .wait callback ∉ inputs := by
    intro hwait
    obtain ⟨engine₁, event, hevent, hinput⟩ := hmem _ hwait
    exact honce (input_eq_wait hinput ▸ hevent)
  obtain ⟨hreached, hcancelled⟩ := Outbox.serve_cancels_once howner hwait
  refine ⟨engine', turns, hrun, ?_⟩
  rw [flatMap_toldOf hseen, told_cancelled (by rw [List.flatMap_map]; exact hreached),
    List.flatMap_map]
  rw [show List.count callback _ = _ from hcancelled]

/-- Who waits for pending writes is told exactly once: well, with the answer to the last write that
was pending when he asked, if the user stays until then (at once if none was), and else of the
cancellation, when the user changes. Whatever comes after either, he is not told again. -/
theorem waits_told_once (h : engine.Reachable)
    (hnew : ∀ e ∈ engine.pendingWritesCallbacks.entries, callback ∉ e.2)
    (hP : Along step Possible engine (.registerPendingWritesCallback callback :: events))
    (huser : ∀ user, .credentialChange user ∈ events → user = engine.currentUser)
    (honce : .registerPendingWritesCallback callback ∉ events) :
    ∃ engine' turns, exec step engine (.registerPendingWritesCallback callback :: events) =
        .ok (engine', turns) ∧
      turns.flatMap (toldOf callback) = (if engine.localStore.mutationQueue.queue.length ≤
        (turns.flatMap (·.output.notified)).length then [(callback, .ok)] else []) ∧
      ∀ user later, user ≠ engine.currentUser →
        Along step Possible engine' (.credentialChange user :: later) →
        .registerPendingWritesCallback callback ∉ later →
        ∃ engine'' turns', exec step engine' (.credentialChange user :: later) =
            .ok (engine'', turns') ∧
          turns'.flatMap (toldOf callback) = if engine.localStore.mutationQueue.queue.length ≤
            (turns.flatMap (·.output.notified)).length then []
            else [(callback, .error .cancelled)] := by
  obtain ⟨engine', turns, hrun, hvalid, hstays, htold, hleft⟩ :=
    h.valid.told (counts_pendingWrites hnew) hP huser honce
  refine ⟨engine', turns, hrun, htold, fun user later hne hlater honce' => ?_⟩
  obtain ⟨engine'', turns', hrun', hcancelled⟩ :=
    hvalid.cancelled (hstays ▸ hne) hlater honce'
  refine ⟨engine'', turns', hrun', ?_⟩
  rw [hcancelled, hleft]
  split_ifs <;> rfl

theorem waits_told_once_offlineWrite :
    ∃ engine engine' turns, engine.localStore.mutationQueue.queue.length = 1 ∧
      exec step engine (.registerPendingWritesCallback 7 :: offlineWrite.tail) = .ok (engine', turns) ∧
      turns.flatMap (toldOf 7) =
        if 1 ≤ (turns.flatMap (·.output.notified)).length then [(7, .ok)] else [] := by
  obtain ⟨engine, turns₀, hrun, hwaits, hlength, hP⟩ : ∃ engine turns,
      exec step (new none) [offlineWrite.head (by decide)] = .ok (engine, turns) ∧
      engine.pendingWritesCallbacks.entries = [] ∧
      engine.localStore.mutationQueue.queue.length = 1 ∧
      Along step Possible engine (.registerPendingWritesCallback 7 :: offlineWrite.tail) :=
    ⟨_, _, rfl, by decide, by decide, by decide⟩
  obtain ⟨engine', turns, hrun', htold, -⟩ := waits_told_once
    ⟨none, _, turns₀, by decide, hrun⟩ (by rw [hwaits]; exact fun e he => absurd he List.not_mem_nil)
    hP (fun user h => by simp [offlineWrite] at h) (by simp [offlineWrite])
  rw [hlength] at htold
  exact ⟨engine, engine', turns, hlength, hrun', htold⟩

end Waits

/-! ## Reads -/

section Reads

/-- In every state that is reached, the lookups by id and by the index of documents find in each
user's queue what a walk over it finds, and a document is in the index if a batch is about it. -/
theorem lookups_walk_queue (h : engine.Reachable) (user : User) :
    (∀ id, (engine.localStore.mutationQueues user).lookupMutationBatch id =
      .ok ((engine.localStore.mutationQueues user).queue.find? fun b => decide (b.batchId = id))) ∧
    (∀ id, (engine.localStore.mutationQueues user).nextMutationBatchAfterBatchId id =
      (engine.localStore.mutationQueues user).queue.find? fun b => decide (id < b.batchId)) ∧
    (∀ keys : DocumentKeySet,
      (engine.localStore.mutationQueues user).allMutationBatchesAffectingDocumentKeys keys =
        .ok ((engine.localStore.mutationQueues user).queue.filter fun batch =>
          keys.keys.any fun key => batch.affects key)) ∧
    (∀ key, (engine.localStore.mutationQueues user).allMutationBatchesAffectingDocumentKey key =
      .ok ((engine.localStore.mutationQueues user).queue.filter fun batch => batch.affects key)) ∧
    (∀ collection,
      (engine.localStore.mutationQueues user).allMutationBatchesAffectingQuery collection =
        .ok ((engine.localStore.mutationQueues user).queue.filter fun batch =>
          batch.mutations.any fun mutation =>
            Firestore.isImmediateParentOf collection mutation.key)) ∧
    ∀ key, (engine.localStore.mutationQueues user).containsKey key = true ↔
      ∃ batch ∈ (engine.localStore.mutationQueues user).queue, batch.affects key = true := by
  have hq := h.valid.localStore.queues user
  exact ⟨hq.lookup, hq.next, hq.affectingKeys, hq.affectingKey, hq.affectingQuery,
    hq.containsKey_iff⟩

/-- In every state that is reached, the query of a collection, which applies to the remembered
documents only the batches the index finds for it, and the reads of single documents answer alike. -/
theorem reads_agree (h : engine.Reachable) (collection : CollectionReference) :
    ∃ docs, engine.localStore.executeQuery (.ofCollection collection) = .ok docs ∧
      ∀ key, ∃ maybeDoc, engine.localStore.readDocument key = .ok maybeDoc ∧
        docs.find? key =
          if Firestore.isImmediateParentOf collection key = true then asDocument maybeDoc
          else none := by
  have hs := h.valid.localStore
  obtain ⟨docs, hquery, hfind⟩ := LocalDocumentsView.find?_getDocumentsMatchingCollectionQuery
    engine.localStore.localDocuments hs.mutationQueue hs.readTimes
    (Query.matchesAllDocuments_ofCollection collection)
  exact ⟨docs, hquery, fun key => ⟨_, LocalDocumentsView.getDocument_eq hs.mutationQueue key,
    hfind key⟩⟩

theorem lookups_walk_queue_offlineWrite :
    ∃ engine : SyncEngine, engine.localStore.mutationQueue.queue.length = 1 ∧
      ∀ key, engine.localStore.mutationQueue.allMutationBatchesAffectingDocumentKey key =
        .ok (engine.localStore.mutationQueue.queue.filter fun batch => batch.affects key) := by
  obtain ⟨engine, turns, hrun, huser, hlength⟩ : ∃ engine turns,
      exec step (new none) [offlineWrite.head (by decide)] = .ok (engine, turns) ∧
      engine.localStore.user = none ∧ engine.localStore.mutationQueue.queue.length = 1 :=
    ⟨_, _, rfl, rfl, rfl⟩
  obtain ⟨-, -, -, hkey, -⟩ := lookups_walk_queue ⟨none, _, turns, by decide, hrun⟩
    engine.localStore.user
  exact ⟨engine, hlength, hkey⟩

theorem reads_agree_offlineWrite :
    ∃ engine : SyncEngine, engine.localStore.mutationQueue.queue.length = 1 ∧ ∃ docs,
      engine.localStore.executeQuery (.ofCollection ⟨["groceries"], rfl⟩) = .ok docs ∧
      ∀ key, ∃ maybeDoc, engine.localStore.readDocument key = .ok maybeDoc ∧
        docs.find? key =
          if Firestore.isImmediateParentOf ⟨["groceries"], rfl⟩ key = true then asDocument maybeDoc
          else none := by
  obtain ⟨engine, turns, hrun, hlength⟩ : ∃ engine turns,
      exec step (new none) [offlineWrite.head (by decide)] = .ok (engine, turns) ∧
      engine.localStore.mutationQueue.queue.length = 1 := ⟨_, _, rfl, rfl⟩
  exact ⟨engine, hlength, reads_agree ⟨none, _, turns, by decide, hrun⟩ _⟩

end Reads

/-! ## Reports -/

/-- What is known of the documents that are shown after another report. -/
def learn (known : DocumentKey → Option Document) (turn : EngineTurn) (key : DocumentKey) :
    Option Document :=
  match turn.output.changes.bind (·.find? key) with
  | some doc => asDocument (some doc)
  | none => known key

/-- The document as the current user is shown it. -/
def shown (engine : SyncEngine) (key : DocumentKey) : Option Document :=
  asDocument (engine.localStore.localView key)

theorem Answers.learn_shown {event : EngineEvent} {emission : Emission}
    (h : Answers engine event engine' emission) :
    learn engine.shown ⟨engine, event, emission⟩ = engine'.shown := by
  funext key
  have hreported := h.reported
  unfold learn shown
  cases hchanges : emission.changes with
  | none =>
    rw [hchanges] at hreported
    exact congrArg asDocument (hreported key).symm
  | some changes =>
    rw [hchanges] at hreported
    simp only [Option.bind_some]
    cases hfind : changes.find? key with
    | none => exact congrArg asDocument (hreported.frame key hfind).symm
    | some doc => exact hreported.reported key doc hfind

/-- Who starts with nothing and learns from every report, and only from them, knows after every run
all documents as they are shown. -/
theorem reports_add_up (user : User) (events : List EngineEvent)
    (h : Along step Possible (new user) events) :
    ∃ engine turns, exec step (new user) events = .ok (engine, turns) ∧
      turns.foldl learn (fun _ => none) = engine.shown := by
  obtain ⟨engine, turns, hrun, -⟩ := (valid_new user).run h
  refine ⟨engine, turns, hrun, ?_⟩
  exact exec_folds (I := Valid)
    (fun _ _ _ _ hs hp hstep =>
      ⟨(hs.of_step hp hstep).1, (hs.of_step hp hstep).2.learn_shown⟩) (valid_new user) h hrun

theorem reports_add_up_offlineWrite :
    ∃ engine turns, exec step (new none) offlineWrite = .ok (engine, turns) ∧
      turns.foldl learn (fun _ => none) = engine.shown :=
  reports_add_up none offlineWrite (by decide)

/-! ## Versions -/

/-- The event is not a removal the client made up for the document. -/
def KeepsDocument (key : DocumentKey) : EngineEvent → Prop
  | .remoteEvent event => ∀ doc, event.documentUpdates.find? key = some doc →
      (asDocument (some doc)).isSome ∨ doc.version ≠ SnapshotVersion.none
  | _ => True

theorem version_applyToRemoteDocument (mutation : Mutation) (version : SnapshotVersion) :
    (mutation.applyToRemoteDocument version).version = version := by
  unfold Mutation.applyToRemoteDocument
  cases mutation.type <;> rfl

theorem Remembers.version_le {key : DocumentKey} {event : EngineEvent} {after : Option MaybeDocument}
    (h : Remembers engine key after event) (hkeeps : KeepsDocument key event) {doc : MaybeDocument}
    (hdoc : engine.localStore.remoteDocumentCache.get key = some doc) :
    ∃ doc', after = some doc' ∧ doc.version ≤ doc'.version := by
  cases event with
  | writeResponse commitVersion mutationResults streamToken =>
    obtain ⟨batch, rest, result, -, rfl, -, -, rfl⟩ := h
    by_cases hahead : result.batch.affects key = true ∧
        LocalStore.isAhead result engine.localStore.remoteDocumentCache key = true
    · obtain ⟨m, hm⟩ := Option.isSome_iff_exists.mp
        ((MutationBatchResult.lastOf_isSome key).trans hahead.1)
      have hversion := hahead.2
      unfold LocalStore.isAhead at hversion
      rw [MutationBatchResult.find?_docVersions, hm, hdoc] at hversion
      rw [if_pos hahead]
      unfold MutationBatchResult.remoteDocument
      rw [hm]
      refine ⟨_, rfl, ?_⟩
      rw [version_applyToRemoteDocument]
      simpa using (of_decide_eq_true hversion).le
    · rw [if_neg hahead]
      exact ⟨doc, hdoc, le_rfl⟩
  | remoteEvent event =>
    have h : after = _ := h
    rw [h]
    cases hfind : event.documentUpdates.find? key with
    | none => exact ⟨doc, hdoc, le_rfl⟩
    | some news =>
      simp only [hdoc]
      unfold LocalStore.updated
      rw [if_neg]
      · split_ifs with hnews
        · refine ⟨news, rfl, ?_⟩
          unfold LocalStore.isNews at hnews
          simp only [Option.all_some, Bool.or_eq_true, decide_eq_true_eq, Bool.and_eq_true] at hnews
          rcases hnews with hlt | ⟨heq, -⟩
          · exact hlt.le
          · exact heq.ge
        · exact ⟨doc, rfl, le_rfl⟩
      · rintro ⟨hmissing, hnone⟩
        rcases hkeeps news hfind with hsome | hversion
        · rw [Option.isNone_iff_eq_none] at hmissing
          rw [hmissing] at hsome
          cases hsome
        · exact hversion hnone
  | _ => exact ⟨doc, Eq.trans h hdoc, le_rfl⟩

/-- What is remembered of a document never gets older, whatever else happens, unless the client
itself makes up its removal. -/
theorem versions_never_fall (h : engine.Reachable) (key : DocumentKey)
    (hP : Along step Possible engine events) (hkeeps : ∀ event ∈ events, KeepsDocument key event)
    {doc : MaybeDocument} (hdoc : engine.localStore.remoteDocumentCache.get key = some doc) :
    ∃ engine' turns doc', exec step engine events = .ok (engine', turns) ∧
      engine'.localStore.remoteDocumentCache.get key = some doc' ∧ doc.version ≤ doc'.version := by
  have hvalid := h.valid
  clear h
  induction events generalizing engine doc with
  | nil => exact ⟨engine, [], doc, rfl, hdoc, le_rfl⟩
  | cons event events ih =>
    obtain ⟨engine₁, emission, hstep, hvalid₁, hanswers⟩ := hvalid.step hP.head
    obtain ⟨doc₁, hdoc₁, hle₁⟩ := (hanswers.remembered key).version_le
      (hkeeps event List.mem_cons_self) hdoc
    obtain ⟨engine', turns, doc', hrun, hdoc', hle⟩ := ih ((along_cons hstep).mp hP).2
      (fun e he => hkeeps e (List.mem_cons_of_mem event he)) hdoc₁ hvalid₁
    exact ⟨engine', _, doc', exec_cons hstep hrun, hdoc', hle₁.trans hle⟩

theorem versions_never_fall_offlineWrite :
    ∃ engine engine' turns doc', exec step engine [.disableNetwork] = .ok (engine', turns) ∧
      engine'.localStore.remoteDocumentCache.get ⟨["groceries", "Milk"], rfl⟩ = some doc' ∧
      1 ≤ doc'.version := by
  obtain ⟨engine, turns₀, doc, hrun, hdoc, hversion⟩ : ∃ engine turns doc,
      exec step (new none) offlineWrite = .ok (engine, turns) ∧
      engine.localStore.remoteDocumentCache.get ⟨["groceries", "Milk"], rfl⟩ = some doc ∧
      doc.version = 1 := ⟨_, _, _, rfl, rfl, rfl⟩
  have hP : Along step Possible engine [.disableNetwork] := ⟨trivial, by split <;> trivial⟩
  obtain ⟨engine', turns, doc', hrun', hdoc', hle⟩ := versions_never_fall
    ⟨none, _, turns₀, by decide, hrun⟩ _ hP
    (fun event he => by rw [List.mem_singleton.mp he]; trivial) hdoc
  exact ⟨engine, engine', turns, doc', hrun', hdoc', hversion ▸ hle⟩

/-! ## What the backend had -/

section Truth

variable (server : DocumentKey → SnapshotVersion → Option ObjectValue)

/-- News and results are of a backend that had each document, at each version, as `server` says: a
result is that of the last mutation of its document in the batch. -/
def Truthful (engine : SyncEngine) : EngineEvent → Prop
  | .remoteEvent event => ∀ u ∈ event.documentUpdates.entries,
      (asDocument (some u.2)).isSome ∨ u.2.version ≠ SnapshotVersion.none →
        visible (some u.2) = server u.1 u.2.version
  | .writeResponse _ mutationResults _ =>
      ∀ batch ∈ engine.localStore.mutationQueue.queue.head?, ∀ key ∈ batch.keys.keys,
        ∀ m ∈ ((batch.mutations.zip mutationResults).filter
          fun m => decide (m.1.key = key)).getLast?, m.1.value = server key m.2.version
  | _ => True

instance decidableTruthful (engine : SyncEngine) (event : EngineEvent) :
    Decidable (engine.Truthful server event) := by
  cases event <;> unfold Truthful <;> infer_instance

/-- What is remembered of a document is what the backend had at the version it is remembered at. -/
def RemembersTruth (engine : SyncEngine) : Prop :=
  ∀ key doc, engine.localStore.remoteDocumentCache.get key = some doc →
    visible (some doc) = server key doc.version

variable {server}

theorem RemembersTruth.step (h : engine.RemembersTruth server) {event : EngineEvent}
    (htrue : engine.Truthful server event) (hremembered : ∀ key,
      Remembers engine key (engine'.localStore.remoteDocumentCache.get key) event) :
    engine'.RemembersTruth server := by
  intro key doc hdoc
  have hkey := hremembered key
  rw [hdoc] at hkey
  cases event with
  | writeResponse commitVersion mutationResults streamToken =>
    obtain ⟨batch, rest, result, hqueue, rfl, -, rfl, hafter⟩ := hkey
    split_ifs at hafter with hahead
    · obtain ⟨m, hm⟩ := Option.isSome_iff_exists.mp
        ((MutationBatchResult.lastOf_isSome key).trans hahead.1)
      have hvalue := htrue result.batch (by rw [hqueue]; rfl) key
        (by rw [SortedMap.mem_keys, MutationBatch.contains_keys]; exact hahead.1) m hm
      unfold MutationBatchResult.remoteDocument at hafter
      rw [hm] at hafter
      rw [Option.some.inj hafter, Mutation.visible_applyToRemoteDocument,
        version_applyToRemoteDocument, hvalue]
    · exact h key doc hafter.symm
  | remoteEvent event =>
    have hafter : some doc = _ := hkey
    cases hfind : event.documentUpdates.find? key with
    | none =>
      rw [hfind] at hafter
      exact h key doc hafter.symm
    | some news =>
      rw [hfind] at hafter
      simp only at hafter
      unfold LocalStore.updated at hafter
      split_ifs at hafter with hremoved hnews
      · obtain rfl := Option.some.inj hafter
        refine htrue (key, doc) (SortedMap.mem_entries.mpr hfind) ?_
        by_cases hsome : (asDocument (some doc)).isSome
        · exact .inl hsome
        · refine .inr fun hversion => hremoved ⟨?_, hversion⟩
          simpa using hsome
      · exact h key doc hafter.symm
  | _ => exact h key doc (Eq.symm hkey)

theorem applyBatches_eq (batches : List MutationBatch) (maybeDoc : Option MaybeDocument)
    (key : DocumentKey) : LocalDocumentsView.applyBatches batches maybeDoc key =
      applyMutations (batches.flatMap (·.mutationsOf key)) maybeDoc := by
  induction batches generalizing maybeDoc with
  | nil => rfl
  | cons batch batches ih =>
    unfold LocalDocumentsView.applyBatches applyMutations at *
    rw [List.foldl_cons, List.flatMap_cons, List.foldl_append, ih,
      MutationBatch.applyToLocalDocument_eq]
    rfl

/-- The last pending mutation of a document. -/
def lastPending (engine : SyncEngine) (key : DocumentKey) : Option Mutation :=
  (engine.localStore.mutationQueue.queue.flatMap (·.mutationsOf key)).getLast?

theorem Valid.visible_localView (h : engine.Valid) (key : DocumentKey) :
    visible (engine.localStore.localView key) = ((engine.lastPending key).map Mutation.value).getD
      (visible (engine.localStore.remoteDocumentCache.get key)) := by
  rw [LocalStore.localView_eq, applyBatches_eq, visible_applyMutations]
  · rfl
  · intro m hm
    obtain ⟨batch, hbatch, hm⟩ := List.mem_flatMap.mp hm
    exact (h.localStore.unconditional _ batch hbatch).mutationsOf m hm

/-- With a truthful backend, after every run a document is shown as the current user's last pending
write of it leaves it, and without one as the backend had it at the version it is remembered at;
nothing else is ever shown. -/
theorem localView_truthful (user : User) (events : List EngineEvent)
    (h : Along step (fun engine event => engine.Possible event ∧ engine.Truthful server event)
      (new user) events) :
    ∃ engine turns, exec step (new user) events = .ok (engine, turns) ∧ ∀ key,
      visible (engine.localStore.localView key) =
        match engine.lastPending key with
        | some mutation => mutation.value
        | none => (engine.localStore.remoteDocumentCache.get key).bind fun doc =>
            server key doc.version := by
  obtain ⟨engine, turns, hrun, hvalid, htruth⟩ := exec_safe
    (I := fun engine => engine.Valid ∧ engine.RemembersTruth server)
    (fun engine event hs hp => by
      obtain ⟨engine', emission, hstep, hvalid, hanswers⟩ := hs.1.step hp.1
      exact ⟨engine', emission, hstep, hvalid, hs.2.step hp.2 hanswers.remembered⟩)
    ⟨valid_new user, fun key doc hdoc => by cases hdoc⟩ h
  refine ⟨engine, turns, hrun, fun key => ?_⟩
  rw [hvalid.visible_localView]
  cases engine.lastPending key with
  | some mutation => rfl
  | none =>
    cases hdoc : engine.localStore.remoteDocumentCache.get key with
    | none => rfl
    | some doc => exact htruth key doc hdoc

theorem localView_truthful_offlineWrite :
    ∃ engine turns, exec step (new none) offlineWrite = .ok (engine, turns) ∧ ∀ key,
      visible (engine.localStore.localView key) =
        match engine.lastPending key with
        | some mutation => mutation.value
        | none => (engine.localStore.remoteDocumentCache.get key).bind fun _ => some [] := by
  have h : Along step (fun engine event => engine.Possible event ∧
      engine.Truthful (fun _ _ => some []) event) (new none) offlineWrite := by decide
  exact localView_truthful none offlineWrite h

end Truth

end SyncEngine

end GroceryApp.FirestoreCore
