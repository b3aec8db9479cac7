import GroceryApp.FirestoreCore.WritePipeline
import GroceryApp.Lib.Outbox

/-!
# Pending writes

What the write path is for: each user has a line of writes, the line of the current user is answered
in order, and a wait for pending writes is told with the answer to the write that was last when it
began (`Outbox`). Which writes wait can be read off a state of the engine (`pendingWrites`), and what
an event means for them off the event and the state (`input`). In a valid state every possible event
succeeds, leads to a valid state, reports every document that is shown differently, and does to the
pending writes what the outbox does (`Valid.step`).
-/

namespace GroceryApp.FirestoreCore

/-- A write without an answer. -/
structure PendingWrite where
  callback : CallbackId
  mutations : List Mutation

/-- The writes that wait for an answer, as an outbox. -/
abbrev PendingWrites := Outbox User PendingWrite CallbackId

/-- What was reported makes up for all that is shown differently; without a report nothing is. -/
def LocalStore.Reported (store store' : LocalStore) : Option MaybeDocumentMap → Prop
  | none => ∀ key, store'.localView key = store.localView key
  | some changes => Reports store store' changes

theorem LocalStore.Valid.setLastStreamToken {store : LocalStore}
    (hs : store.Valid) (streamToken : ByteString) : (store.setLastStreamToken streamToken).Valid :=
  hs.setMutationQueue ⟨hs.mutationQueue.consecutive, hs.mutationQueue.positive,
    hs.mutationQueue.indexed⟩ (hs.unconditional store.user)

namespace SyncEngine

variable {engine engine' engine'' : SyncEngine}

/-- The id of the first batch of the queue, or of the next one if there is none. -/
def firstBatchId (engine : SyncEngine) : ℤ :=
  engine.localStore.mutationQueue.nextBatchId - engine.localStore.mutationQueue.queue.length

/-- For each callback the number of batches up to the one it waits for. -/
def awaited (first : ℤ) (entries : List (ℤ × List CallbackId)) : List (ℕ × CallbackId) :=
  entries.flatMap fun e => e.2.map fun callback => ((e.1 - first).toNat + 1, callback)

/-- Each user's callbacks with the batches they are for, and who waits for how many answers. -/
def pendingWrites (engine : SyncEngine) : PendingWrites where
  owner := engine.currentUser
  waiting user :=
    ((engine.mutationCallbacks user).entries.zip (engine.localStore.mutationQueues user).queue).map
      fun p => ⟨p.1.2, p.2.mutations⟩
  waits := awaited engine.firstBatchId engine.pendingWritesCallbacks.entries

/-- What an event means for the pending writes. -/
def input (engine : SyncEngine) : EngineEvent → Outbox.Input User PendingWrite CallbackId Status
  | .writeMutations mutations callback => .write ⟨callback, mutations⟩
  | .registerPendingWritesCallback callback => .wait callback
  | .credentialChange user => .serve user
  | .writeResponse _ _ _ => .answer .ok
  | .streamError code =>
    if engine.remoteStore.writeStream.handshakeComplete && !engine.remoteStore.writePipeline.isEmpty &&
        isPermanentWriteError code then .answer (.error code)
    else .nothing
  | _ => .nothing

/-- The callbacks that are called when the pending writes change, of writes and of waits. -/
def called (output : Outbox.Output PendingWrite CallbackId Status) :
    List (CallbackId × Status) × List (CallbackId × Status) :=
  (output.answered.map fun a => (a.1.callback, a.2),
    output.reached.map (fun callback => (callback, .ok)) ++
      output.cancelled.map fun callback => (callback, .error .cancelled))

/-- The remote store follows the queue of the current user, there is a callback for each batch of
each queue, and each wait is for a batch that is still in the queue. -/
structure Valid (engine : SyncEngine) : Prop where
  localStore : engine.localStore.Valid
  remoteStore : engine.remoteStore.Follows engine.localStore.mutationQueue.queue
  callbacks : ∀ user, (engine.mutationCallbacks user).keys =
    (engine.localStore.mutationQueues user).queue.map (·.batchId)
  waits : ∀ e ∈ engine.pendingWritesCallbacks.entries,
    engine.firstBatchId ≤ e.1 ∧ e.1 < engine.localStore.mutationQueue.nextBatchId

theorem valid_new (user : User) : (new user).Valid where
  localStore := LocalStore.valid_new user
  remoteStore := RemoteStore.follows_new
  callbacks _ := rfl
  waits _ h := by cases h

/-- What is remembered of a document after an event: an acknowledgment that is ahead of it and news
that are not outdated replace it. -/
def Remembers (engine : SyncEngine) (key : DocumentKey) (after : Option MaybeDocument) :
    EngineEvent → Prop
  | .writeResponse commitVersion mutationResults _ =>
      ∃ (batch : MutationBatch) (rest : List MutationBatch) (result : MutationBatchResult),
      engine.localStore.mutationQueue.queue = batch :: rest ∧ result.batch = batch ∧
      result.commitVersion = commitVersion ∧ result.mutationResults = mutationResults ∧
      after = if batch.affects key = true ∧
          LocalStore.isAhead result engine.localStore.remoteDocumentCache key = true then
        result.remoteDocument key else engine.localStore.remoteDocumentCache.get key
  | .remoteEvent event => after = match event.documentUpdates.find? key with
      | some doc => LocalStore.updated (engine.localStore.remoteDocumentCache.get key) doc
      | none => engine.localStore.remoteDocumentCache.get key
  | _ => after = engine.localStore.remoteDocumentCache.get key

/-- What a step does, seen from outside. -/
structure Answers (engine : SyncEngine) (event : EngineEvent) (engine' : SyncEngine)
    (emission : Emission) : Prop where
  pendingWrites : (Outbox.step engine.pendingWrites (engine.input event)).1 = engine'.pendingWrites
  called : called (Outbox.step engine.pendingWrites (engine.input event)).2 =
    (emission.notified, emission.triggered)
  reported : LocalStore.Reported engine.localStore engine'.localStore emission.changes
  remembered : ∀ key, Remembers engine key (engine'.localStore.remoteDocumentCache.get key) event

/-! ## What only the connection notices -/

/-- The queues, the remembered documents and the callbacks are the same. -/
structure Kept (engine engine' : SyncEngine) : Prop where
  user : engine'.localStore.user = engine.localStore.user
  queue : ∀ user, (engine'.localStore.mutationQueues user).queue =
    (engine.localStore.mutationQueues user).queue
  nextBatchId : ∀ user, (engine'.localStore.mutationQueues user).nextBatchId =
    (engine.localStore.mutationQueues user).nextBatchId
  cache : engine'.localStore.remoteDocumentCache = engine.localStore.remoteDocumentCache
  callbacks : engine'.mutationCallbacks = engine.mutationCallbacks
  waits : engine'.pendingWritesCallbacks = engine.pendingWritesCallbacks

theorem kept_setRemoteStore (engine : SyncEngine) (remote : RemoteStore) :
    Kept engine (engine.setRemoteStore remote) :=
  ⟨rfl, fun _ => rfl, fun _ => rfl, rfl, rfl, rfl⟩

theorem kept_setLastStreamToken (streamToken : ByteString) (remote : RemoteStore) :
    Kept engine { engine with
      localStore := engine.localStore.setLastStreamToken streamToken
      remoteStore := remote } := by
  refine ⟨rfl, fun user => ?_, fun user => ?_, rfl, rfl, rfl⟩ <;>
  · unfold LocalStore.setLastStreamToken LocalStore.setMutationQueue
    by_cases h : user = engine.localStore.user
    · subst h
      simp [LocalStore.mutationQueue]
    · simp [Function.update_of_ne h]

theorem Kept.mutationQueue (hk : Kept engine engine') :
    engine'.localStore.mutationQueue.queue = engine.localStore.mutationQueue.queue := by
  unfold LocalStore.mutationQueue
  rw [hk.user, hk.queue]

theorem Kept.firstBatchId (hk : Kept engine engine') :
    engine'.firstBatchId = engine.firstBatchId := by
  unfold SyncEngine.firstBatchId
  rw [hk.mutationQueue]
  unfold LocalStore.mutationQueue
  rw [hk.user, hk.nextBatchId]

theorem Kept.pendingWrites (hk : Kept engine engine') :
    engine'.pendingWrites = engine.pendingWrites := by
  unfold SyncEngine.pendingWrites currentUser
  rw [hk.user, hk.callbacks, hk.waits, hk.firstBatchId]
  simp only [hk.queue]

theorem Kept.localView (hk : Kept engine engine') (key : DocumentKey) :
    engine'.localStore.localView key = engine.localStore.localView key := by
  rw [LocalStore.localView_eq, LocalStore.localView_eq, hk.mutationQueue, hk.cache]

theorem Kept.valid (hk : Kept engine engine') (h : engine.Valid) (hs : engine'.localStore.Valid)
    (hr : engine'.remoteStore.Follows engine.localStore.mutationQueue.queue) : engine'.Valid where
  localStore := hs
  remoteStore := hk.mutationQueue ▸ hr
  callbacks user := by rw [hk.callbacks, hk.queue, h.callbacks]
  waits e he := by
    rw [hk.waits] at he
    rw [hk.firstBatchId]
    unfold LocalStore.mutationQueue
    rw [hk.user, hk.nextBatchId]
    exact h.waits e he

theorem Kept.answers (hk : Kept engine engine') {event : EngineEvent}
    (hinput : engine.input event = .nothing) (hremembers : ∀ key,
      Remembers engine key (engine.localStore.remoteDocumentCache.get key) event) :
    Answers engine event engine' .nothing where
  pendingWrites := by
    rw [hinput]
    exact hk.pendingWrites.symm
  called := by
    rw [hinput]
    rfl
  reported := hk.localView
  remembered key := hk.cache ▸ hremembers key

/-! ### Filling, stopping and restarting -/

theorem fillWritePipeline_eq {remote : RemoteStore}
    (h : engine.remoteStore.fillWritePipeline engine.localStore = .ok remote) :
    engine.fillWritePipeline = .ok (engine.setRemoteStore remote) := by
  unfold SyncEngine.fillWritePipeline
  rw [h]
  rfl

theorem fillWritePipeline_spec (engine : SyncEngine) (hs : engine.localStore.Valid)
    (hc : engine.remoteStore.Coherent)
    (hf : engine.remoteStore.Fits engine.localStore.mutationQueue.queue) :
    ∃ remote, engine.fillWritePipeline = .ok (engine.setRemoteStore remote) ∧
      remote.Follows engine.localStore.mutationQueue.queue := by
  obtain ⟨remote, hfill, hfollows⟩ := hc.fill hs hf
  exact ⟨remote, fillWritePipeline_eq hfill, hfollows⟩

/-- The stream of a remote store without a handshake that has been stopped. -/
structure Off (remote : RemoteStore) : Prop extends remote.Stopped where
  handshake : remote.writeStream.handshakeComplete = false
  empty : remote.writePipeline = []

theorem Off.coherent {remote : RemoteStore} (h : Off remote) : remote.Coherent := by
  have hforget : remote.forgetHandshake = remote := by
    unfold RemoteStore.forgetHandshake
    rw [← h.handshake]
  exact hforget ▸ h.toStopped.coherent

theorem Off.follows {remote : RemoteStore} (h : Off remote)
    (hnetwork : remote.isNetworkEnabled = false) (batches : List MutationBatch) :
    remote.Follows batches where
  toCoherent := h.coherent
  pipeline := by rw [h.empty, hnetwork, if_neg Bool.false_ne_true]
  running hn := by
    rw [hnetwork] at hn
    cases hn

/-- Without the network the stream is stopped and the pipeline emptied. -/
theorem disableNetwork_spec (hc : engine.remoteStore.Coherent) :
    ∃ remote, engine.disableNetwork = .ok (engine.setRemoteStore remote) ∧ Off remote ∧
      remote.isNetworkEnabled = false := by
  unfold disableNetwork disableNetworkInternal stopWriteStream
  by_cases hstarted : engine.remoteStore.writeStream.isStarted = true
  · refine ⟨{ isNetworkEnabled := false, writePipeline := [], writeStream :=
      { engine.remoteStore.writeStream with
        state := .initial
        handshakeComplete := false
        idlenessTimer := false
        unanswered := [] } }, ?_, ⟨⟨rfl, rfl, rfl⟩, rfl, rfl⟩, rfl⟩
    have hstart : ∀ pipeline stream, RemoteStore.shouldStartWriteStream
        ⟨false, pipeline, stream⟩ = false := fun _ _ => rfl
    simp only [setRemoteStore, hstarted, if_true, closeWriteStream, WriteStream.close,
      onWriteStreamClose, hstart, bind, Except.bind, pure, Except.pure, Bool.false_eq_true, if_false]
  · have hstopped : engine.remoteStore.writeStream.isStarted = false := Bool.not_eq_true _ ▸ hstarted
    have hhandshake : engine.remoteStore.writeStream.handshakeComplete = false := by
      rw [← Bool.not_eq_true]
      exact fun h => hstarted (RemoteStore.isStarted_of_open (hc.ready h))
    have hidle : engine.remoteStore.writeStream.idlenessTimer = false := by
      rw [← Bool.not_eq_true]
      intro h
      rw [(hc.idle h).1] at hhandshake
      cases hhandshake
    refine ⟨{ engine.remoteStore with isNetworkEnabled := false, writePipeline := [] }, ?_,
      ⟨⟨hstopped, ?_, hidle⟩, hhandshake, rfl⟩, rfl⟩
    · simp only [setRemoteStore, hstopped, bind, Except.bind, pure, Except.pure, Bool.false_eq_true,
        if_false]
    · show engine.remoteStore.writeStream.unanswered = []
      rw [hc.unanswered, hhandshake]
      rfl

theorem enableNetwork_spec (engine : SyncEngine) (hs : engine.localStore.Valid)
    (hc : engine.remoteStore.Coherent)
    (hf : engine.remoteStore.Fits engine.localStore.mutationQueue.queue) :
    ∃ remote, engine.enableNetwork = .ok (engine.setRemoteStore remote) ∧
      remote.Follows engine.localStore.mutationQueue.queue := by
  obtain ⟨remote, hfill, hfollows⟩ := fillWritePipeline_spec (engine.setRemoteStore
      { engine.remoteStore with
        isNetworkEnabled := true
        writeStream := { engine.remoteStore.writeStream with
          lastStreamToken := engine.localStore.getLastStreamToken } }) hs
    ⟨fun _ => rfl, hc.ready, hc.unanswered, hc.idle, hc.waiting⟩
    ⟨fun h => (by cases h), hf.isPrefix, hf.length⟩
  exact ⟨remote, hfill, hfollows⟩

/-- A restart needs nothing of the pipeline: it is filled anew. -/
theorem restartNetwork_spec (hs : engine.localStore.Valid) (hc : engine.remoteStore.Coherent) :
    ∃ remote, engine.restartNetwork = .ok (engine.setRemoteStore remote) ∧
      remote.Follows engine.localStore.mutationQueue.queue := by
  obtain ⟨remote, hdisable, hoff, -⟩ := disableNetwork_spec hc
  have hoff' : Off { remote with writeStream := { remote.writeStream with state := .initial } } :=
    ⟨⟨rfl, hoff.unanswered, hoff.idle⟩, hoff.handshake, hoff.empty⟩
  obtain ⟨remote', henable, hfollows⟩ := enableNetwork_spec (engine.setRemoteStore
    { remote with writeStream := { remote.writeStream with state := .initial } }) hs hoff'.coherent
    (.of_nil hoff.empty)
  refine ⟨remote', ?_, hfollows⟩
  have hdisable : ((engine.setRemoteStore
      { engine.remoteStore with isNetworkEnabled := false }).disableNetworkInternal) =
      .ok (engine.setRemoteStore remote) := hdisable
  have hinhibit : (engine.setRemoteStore remote).remoteStore.writeStream.inhibitBackoff =
      .ok { remote.writeStream with state := .initial } :=
    if_neg fun h => Bool.false_ne_true (hoff.stopped.symm.trans h)
  unfold restartNetwork
  simp only [hdisable, hinhibit, bind, Except.bind]
  exact henable

/-! ## Answers -/

/-- The first batch has left the queue of the current user. -/
structure StoreAnswered (store store' : LocalStore) (rest : List MutationBatch) : Prop where
  user : store'.user = store.user
  queue : store'.mutationQueue.queue = rest
  nextBatchId : store'.mutationQueue.nextBatchId = store.mutationQueue.nextBatchId
  others : ∀ user, user ≠ store.user → store'.mutationQueues user = store.mutationQueues user

/-- The callbacks of a batch have been called. -/
def answered (engine : SyncEngine) (store : LocalStore) (batchId : ℤ) : SyncEngine :=
  { engine with
    localStore := store
    mutationCallbacks := Function.update engine.mutationCallbacks engine.currentUser
      ((engine.mutationCallbacks engine.currentUser).erase batchId)
    pendingWritesCallbacks := engine.pendingWritesCallbacks.erase batchId }

variable {head : MutationBatch} {rest : List MutationBatch} {store : LocalStore}

theorem Valid.head_callback (h : engine.Valid)
    (hqueue : engine.localStore.mutationQueue.queue = head :: rest) :
    ∃ callback entries, (engine.mutationCallbacks engine.currentUser).entries =
      (head.batchId, callback) :: entries ∧ entries.map Prod.fst = rest.map (·.batchId) := by
  have hkeys : (engine.mutationCallbacks engine.currentUser).entries.map Prod.fst =
      head.batchId :: rest.map (·.batchId) := by
    have hkeys := h.callbacks engine.currentUser
    rwa [show (engine.localStore.mutationQueues engine.currentUser).queue = head :: rest from hqueue,
      List.map_cons] at hkeys
  obtain ⟨e, entries, heq, hid, hrest⟩ := List.map_eq_cons_iff.mp hkeys
  exact ⟨e.2, entries, by rw [heq, ← hid], hrest⟩

theorem notifyUser_eq (engine : SyncEngine) {batchId : ℤ} {callback : CallbackId}
    (h : (engine.mutationCallbacks engine.currentUser).find? batchId = some callback)
    (status : Status) : engine.notifyUser batchId status =
      ({ engine with
        mutationCallbacks := Function.update engine.mutationCallbacks engine.currentUser
          ((engine.mutationCallbacks engine.currentUser).erase batchId) }, [(callback, status)]) := by
  unfold notifyUser
  simp only [h]

theorem triggerPendingWriteCallbacks_eq (batchId : ℤ) :
    engine.triggerPendingWriteCallbacks batchId =
    ({ engine with pendingWritesCallbacks := engine.pendingWritesCallbacks.erase batchId },
      ((engine.pendingWritesCallbacks.find? batchId).getD []).map fun callback => (callback, .ok)) := by
  unfold triggerPendingWriteCallbacks
  cases h : engine.pendingWritesCallbacks.find? batchId with
  | some callbacks => rfl
  | none =>
    rw [SortedMap.erase_eq_self h]
    rfl

/-- Waits for later batches come one closer. -/
theorem awaited_succ {first : ℤ} {entries : List (ℤ × List CallbackId)}
    (h : ∀ e ∈ entries, first < e.1) :
    (awaited first entries).filter (fun w => decide (w.1 = 1)) = [] ∧
      ((awaited first entries).filter fun w => decide (w.1 ≠ 1)).map (fun w => (w.1 - 1, w.2)) =
        awaited (first + 1) entries := by
  have hone : ∀ w ∈ awaited first entries, w.1 ≠ 1 := by
    intro w hw
    obtain ⟨e, he, hw⟩ := List.mem_flatMap.mp hw
    obtain ⟨callback, -, rfl⟩ := List.mem_map.mp hw
    have := h e he
    simp only
    omega
  constructor
  · rw [List.filter_eq_nil_iff]
    intro w hw
    simpa using hone w hw
  · rw [List.filter_eq_self.mpr fun w hw => by simpa using hone w hw]
    unfold awaited
    rw [List.map_flatMap]
    refine List.flatMap_congr fun e he => ?_
    rw [List.map_map]
    refine List.map_congr_left fun callback _ => ?_
    have := h e he
    simp only [Function.comp_apply, Prod.mk.injEq, and_true]
    omega

/-- Waits for the first batch are over with it. -/
theorem awaited_answer {pending : SortedMap ℤ (List CallbackId)} {first : ℤ}
    (h : ∀ e ∈ pending.entries, first ≤ e.1) :
    ((awaited first pending.entries).filter fun w => decide (w.1 = 1)).map (·.2) =
        (pending.find? first).getD [] ∧
      ((awaited first pending.entries).filter fun w => decide (w.1 ≠ 1)).map
          (fun w => (w.1 - 1, w.2)) = awaited (first + 1) (pending.erase first).entries := by
  by_cases hfound : ∃ callbacks es, pending.entries = (first, callbacks) :: es
  · obtain ⟨callbacks, es, hes⟩ := hfound
    have hlater : ∀ e ∈ es, first < e.1 := by
      have hsorted := pending.sorted
      rw [hes] at hsorted
      exact (List.pairwise_cons.mp hsorted).1
    obtain ⟨hnone, hrest⟩ := awaited_succ hlater
    have hcons : awaited first pending.entries =
        callbacks.map (fun callback => (1, callback)) ++ awaited first es := by
      rw [hes]
      unfold awaited
      simp
    rw [SortedMap.find?_head hes, SortedMap.entries_erase_head hes, hcons, List.filter_append,
      List.filter_append, hnone, List.map_append, List.map_append, hrest]
    simp [List.filter_map, Function.comp_def]
  · have hlater : ∀ e ∈ pending.entries, first < e.1 := by
      intro e he
      refine lt_of_le_of_ne (h e he) fun heq => hfound ?_
      cases hes : pending.entries with
      | nil =>
        rw [hes] at he
        cases he
      | cons e' es =>
        have hsorted := pending.sorted
        rw [hes] at hsorted he
        rcases List.mem_cons.mp he with rfl | he
        · exact ⟨e.2, es, by rw [heq]⟩
        · have hlt := (List.pairwise_cons.mp hsorted).1 e he
          have hle := h e' (hes ▸ List.mem_cons_self)
          omega
    have hfind : pending.find? first = none :=
      SortedMap.findEntry_eq_none fun e he => (hlater e he).ne'
    obtain ⟨hnone, hrest⟩ := awaited_succ hlater
    rw [SortedMap.erase_eq_self hfind, hfind, hnone, hrest]
    exact ⟨rfl, rfl⟩

theorem Valid.batchId_head (h : engine.Valid)
    (hqueue : engine.localStore.mutationQueue.queue = head :: rest) :
    head.batchId = engine.firstBatchId := by
  have hid := h.localStore.mutationQueue.consecutive 0 (by rw [hqueue]; exact Nat.succ_pos _)
  unfold firstBatchId
  simp only [hqueue, List.getElem_cons_zero] at hid ⊢
  omega

/-- The answer to the first batch is the answer to the first write. -/
theorem Valid.step_answer (h : engine.Valid)
    (hqueue : engine.localStore.mutationQueue.queue = head :: rest)
    (hstore : StoreAnswered engine.localStore store rest) (status : Status) :
    ∃ callback, (engine.mutationCallbacks engine.currentUser).find? head.batchId = some callback ∧
      Outbox.step engine.pendingWrites (.answer status) =
        ((engine.answered store head.batchId).pendingWrites,
          ⟨[(⟨callback, head.mutations⟩, status)],
            (engine.pendingWritesCallbacks.find? head.batchId).getD [], []⟩) := by
  obtain ⟨callback, entries, hentries, -⟩ := h.head_callback hqueue
  refine ⟨callback, SortedMap.find?_head hentries, ?_⟩
  have hid := h.batchId_head hqueue
  have hqueue' : (engine.localStore.mutationQueues engine.currentUser).queue = head :: rest := hqueue
  have hline : engine.pendingWrites.line = ⟨callback, head.mutations⟩ ::
      (entries.zip rest).map fun p => ⟨p.1.2, p.2.mutations⟩ := by
    show ((engine.mutationCallbacks engine.currentUser).entries.zip
      (engine.localStore.mutationQueues engine.currentUser).queue).map _ = _
    rw [hentries, hqueue']
    rfl
  have hfirst : (engine.answered store head.batchId).firstBatchId = engine.firstBatchId + 1 := by
    show store.mutationQueue.nextBatchId - store.mutationQueue.queue.length = _
    unfold firstBatchId
    rw [hstore.queue, hstore.nextBatchId, hqueue, List.length_cons]
    push_cast
    omega
  obtain ⟨htold, hwaits⟩ := awaited_answer fun e he => (h.waits e he).1
  unfold Outbox.step
  simp only [hline]
  refine Prod.ext ?_ ?_
  · show Outbox.mk _ _ _ = Outbox.mk _ _ _
    congr 1
    · exact hstore.user.symm
    · funext user
      show Function.update engine.pendingWrites.waiting engine.currentUser _ user =
        ((Function.update engine.mutationCallbacks engine.currentUser _ user).entries.zip
          (store.mutationQueues user).queue).map _
      by_cases huser : user = engine.currentUser
      · subst huser
        have hrest : (store.mutationQueues engine.currentUser).queue = rest := by
          rw [show engine.currentUser = store.user from hstore.user.symm]
          exact hstore.queue
        rw [Function.update_self, Function.update_self, SortedMap.entries_erase_head hentries, hrest]
      · rw [Function.update_of_ne huser, Function.update_of_ne huser, hstore.others user huser]
        rfl
    · rw [hfirst]
      show _ = awaited _ (engine.pendingWritesCallbacks.erase head.batchId).entries
      rw [hid]
      exact hwaits
  · show Outbox.Output.mk _ _ _ = Outbox.Output.mk _ _ _
    congr 1
    rw [hid]
    exact htold

/-- What is left agrees again. -/
theorem Valid.answered (h : engine.Valid)
    (hqueue : engine.localStore.mutationQueue.queue = head :: rest)
    (hstore : StoreAnswered engine.localStore store rest) (hs : store.Valid) {remote : RemoteStore}
    (hr : remote.Follows rest) :
    ((engine.answered store head.batchId).setRemoteStore remote).Valid where
  localStore := hs
  remoteStore := hstore.queue.symm ▸ hr
  callbacks user := by
    show SortedMap.keys (Function.update engine.mutationCallbacks engine.currentUser _ user) =
      (store.mutationQueues user).queue.map _
    by_cases huser : user = engine.currentUser
    · subst huser
      obtain ⟨callback, entries, hentries, hkeys⟩ := h.head_callback hqueue
      rw [Function.update_self]
      show ((engine.mutationCallbacks engine.currentUser).erase head.batchId).entries.map Prod.fst =
        (store.mutationQueues engine.currentUser).queue.map _
      rw [SortedMap.entries_erase_head hentries, hkeys,
        show engine.currentUser = store.user from hstore.user.symm,
        show (store.mutationQueues store.user).queue = rest from hstore.queue]
    · rw [Function.update_of_ne huser, h.callbacks, hstore.others user huser]
  waits e he := by
    have hfirst := h.batchId_head hqueue
    have hmem : e ∈ engine.pendingWritesCallbacks.entries ∧ e.1 ≠ head.batchId := by
      have he := List.mem_filter.mp
        (show e ∈ engine.pendingWritesCallbacks.entries.filter _ from he)
      exact ⟨he.1, by simpa using he.2⟩
    obtain ⟨hle, hlt⟩ := h.waits e hmem.1
    have hne := hmem.2
    show store.mutationQueue.nextBatchId - store.mutationQueue.queue.length ≤ e.1 ∧
      e.1 < store.mutationQueue.nextBatchId
    rw [hstore.queue, hstore.nextBatchId]
    unfold firstBatchId at hle hfirst
    rw [hqueue, List.length_cons] at hle hfirst
    push_cast at hle hfirst
    omega

end SyncEngine

end GroceryApp.FirestoreCore
