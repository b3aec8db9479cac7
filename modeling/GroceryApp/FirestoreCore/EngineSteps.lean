import GroceryApp.FirestoreCore.PendingWrites

/-!
# The steps of the engine

Whatever the app, the network and the backend do, in a valid state the engine fails no assertion,
and does to the pending writes what the outbox does (`SyncEngine.Valid.step`).
-/

namespace GroceryApp.FirestoreCore

namespace SyncEngine

variable {engine engine' : SyncEngine} {head : MutationBatch} {rest : List MutationBatch}

/-- The event fails no assertion, leaves a valid state and is answered as the outbox answers. -/
def Succeeds (engine : SyncEngine) (event : EngineEvent) : Prop :=
  ∃ engine' emission, engine.step event = .ok (engine', emission) ∧ engine'.Valid ∧
    Answers engine event engine' emission

/-! ## What the app does -/

theorem entries_insertNew {callbacks : SortedMap ℤ CallbackId} {batchId : ℤ}
    (h : ∀ id ∈ callbacks.keys, id < batchId) (callback : CallbackId) :
    (insertNew callbacks batchId callback).entries = callbacks.entries ++ [(batchId, callback)] := by
  have hnew : callbacks.contains batchId = false := by
    rw [← Bool.not_eq_true]
    exact fun hc => lt_irrefl _ (h batchId (SortedMap.mem_keys.mpr hc))
  unfold insertNew
  rw [hnew, if_neg Bool.false_ne_true]
  exact SortedMap.entries_insert_of_lt fun e he => h e.1 (List.mem_map_of_mem he)

theorem Valid.length_entries (h : engine.Valid) (user : User) :
    (engine.mutationCallbacks user).entries.length =
      (engine.localStore.mutationQueues user).queue.length := by
  have hkeys := congrArg List.length (h.callbacks user)
  unfold SortedMap.keys at hkeys
  rwa [List.length_map, List.length_map] at hkeys

theorem Valid.writeMutations (h : engine.Valid) {mutations : List Mutation} (hne : mutations ≠ [])
    (hu : ∀ m ∈ mutations, m.Unconditional) (callback : CallbackId) :
    Succeeds engine (.writeMutations mutations callback) := by
  obtain ⟨changes, q, hwrite, hqueue, hnext, hs, hreports⟩ := h.localStore.writeLocally hne hu
  set batch : MutationBatch := ⟨engine.localStore.mutationQueue.nextBatchId, mutations, hne⟩
    with hbatch
  have hnew : ∀ id ∈ (engine.mutationCallbacks engine.currentUser).keys, id < batch.batchId := by
    intro id hid
    rw [h.callbacks] at hid
    obtain ⟨b, hb, rfl⟩ := List.mem_map.mp hid
    exact (h.localStore.mutationQueue.bounds hb).2
  have hentries := entries_insertNew hnew callback
  set engine₁ : SyncEngine := { engine with
    localStore := engine.localStore.setMutationQueue q
    mutationCallbacks := Function.update engine.mutationCallbacks engine.currentUser
      (insertNew (engine.mutationCallbacks engine.currentUser) batch.batchId callback) } with hengine₁
  have hqueue₁ : engine₁.localStore.mutationQueue.queue =
      engine.localStore.mutationQueue.queue ++ [batch] := by
    rw [hengine₁, LocalStore.mutationQueue_setMutationQueue]
    exact hqueue
  have hfirst : engine₁.firstBatchId = engine.firstBatchId := by
    unfold firstBatchId
    rw [hqueue₁, hengine₁, LocalStore.mutationQueue_setMutationQueue, hnext, List.length_append,
      List.length_singleton]
    push_cast
    omega
  have hother : ∀ user, user ≠ engine.currentUser →
      engine₁.localStore.mutationQueues user = engine.localStore.mutationQueues user :=
    fun user huser => Function.update_of_ne huser _ _
  have hlength : (engine.mutationCallbacks engine.currentUser).entries.length =
      engine.localStore.mutationQueue.queue.length := h.length_entries engine.currentUser
  obtain ⟨remote, hfill, hfollows⟩ := fillWritePipeline_spec engine₁ hs
    h.remoteStore.toCoherent (hqueue₁ ▸ h.remoteStore.fits.append [batch])
  refine ⟨engine₁.setRemoteStore remote, ⟨[], [], some changes⟩, ?_, ⟨hs, hfollows, fun user => ?_,
    fun e he => ?_⟩, ⟨?_, rfl, hreports, fun _ => rfl⟩⟩
  · unfold step SyncEngine.writeMutations
    simp only [hwrite, bind, Except.bind, pure, Except.pure]
    rw [show _ = _ from hfill]
  · show SortedMap.keys (Function.update engine.mutationCallbacks engine.currentUser _ user) = _
    by_cases huser : user = engine.currentUser
    · subst huser
      rw [Function.update_self]
      show (insertNew _ _ _).entries.map Prod.fst = engine₁.localStore.mutationQueue.queue.map _
      rw [hentries, hqueue₁, List.map_append, List.map_append]
      exact congrArg (· ++ [batch.batchId]) (h.callbacks engine.currentUser)
    · rw [Function.update_of_ne huser, h.callbacks]
      show _ = (engine₁.localStore.mutationQueues user).queue.map _
      rw [hother user huser]
  · obtain ⟨hle, hlt⟩ := h.waits e he
    refine ⟨hfirst.trans_le hle, ?_⟩
    show _ < engine₁.localStore.mutationQueue.nextBatchId
    rw [hengine₁, LocalStore.mutationQueue_setMutationQueue, hnext]
    omega
  · show Outbox.mk _ _ _ = Outbox.mk _ _ _
    congr 1
    · funext user
      show Function.update engine.pendingWrites.waiting engine.currentUser _ user =
        ((Function.update engine.mutationCallbacks engine.currentUser _ user).entries.zip
          (engine₁.localStore.mutationQueues user).queue).map _
      by_cases huser : user = engine.currentUser
      · subst huser
        rw [Function.update_self, Function.update_self, hentries,
          show (engine₁.localStore.mutationQueues engine.currentUser).queue = _ from hqueue₁,
          List.zip_append hlength, List.map_append]
        rfl
      · rw [Function.update_of_ne huser, Function.update_of_ne huser, hother user huser]
        rfl
    · show awaited engine.firstBatchId _ = awaited engine₁.firstBatchId _
      rw [hfirst]
      rfl

/-- A wait for the last batch comes after all that are there. -/
theorem awaited_insert {pending : SortedMap ℤ (List CallbackId)} {first id : ℤ}
    (h : ∀ e ∈ pending.entries, e.1 ≤ id) (callback : CallbackId) :
    awaited first (pending.insert id (((pending.find? id).getD []) ++ [callback])).entries =
      awaited first pending.entries ++ [((id - first).toNat + 1, callback)] := by
  cases hfind : pending.find? id with
  | none =>
    have hlt : ∀ e ∈ pending.entries, e.1 < id := by
      rintro ⟨id', callbacks⟩ he
      refine lt_of_le_of_ne (h _ he) ?_
      rintro rfl
      rw [SortedMap.mem_entries.mp he] at hfind
      cases hfind
    rw [SortedMap.entries_insert_of_lt hlt]
    unfold awaited
    rw [List.flatMap_append]
    rfl
  | some callbacks =>
    obtain ⟨es, later, hes⟩ := List.append_of_mem (SortedMap.mem_entries.mpr hfind)
    have hlater : later = [] := by
      rw [List.eq_nil_iff_forall_not_mem]
      intro e he
      have hsorted := pending.sorted
      rw [hes] at hsorted
      have hlt := (List.pairwise_cons.mp (List.pairwise_append.mp hsorted).2.1).1 e he
      have hle := h e (hes ▸ List.mem_append_right _ (List.mem_cons_of_mem _ he))
      exact absurd hle (not_le.mpr hlt)
    rw [hlater] at hes
    rw [SortedMap.entries_insert_last hes, hes]
    unfold awaited
    simp

theorem Valid.line_eq_nil (h : engine.Valid) :
    engine.pendingWrites.line = [] ↔ engine.localStore.mutationQueue.queue = [] := by
  have hlength : (engine.mutationCallbacks engine.currentUser).entries.length =
      engine.localStore.mutationQueue.queue.length := h.length_entries engine.currentUser
  show ((engine.mutationCallbacks engine.currentUser).entries.zip
    engine.localStore.mutationQueue.queue).map _ = [] ↔ _
  rw [List.map_eq_nil_iff, List.zip_eq_nil_iff]
  refine ⟨?_, .inr⟩
  rintro (hnil | hnil)
  · rw [hnil] at hlength
    exact List.length_eq_zero_iff.mp hlength.symm
  · exact hnil

theorem Valid.length_line (h : engine.Valid) :
    engine.pendingWrites.line.length = engine.localStore.mutationQueue.queue.length := by
  have hlength : (engine.mutationCallbacks engine.currentUser).entries.length =
      engine.localStore.mutationQueue.queue.length := h.length_entries engine.currentUser
  show (((engine.mutationCallbacks engine.currentUser).entries.zip
    engine.localStore.mutationQueue.queue).map _).length = _
  rw [List.length_map, List.length_zip, hlength, Nat.min_self]

theorem Valid.registerPendingWritesCallback (h : engine.Valid) (callback : CallbackId) :
    Succeeds engine (.registerPendingWritesCallback callback) := by
  have hhighest := h.localStore.mutationQueue.highest
  have hpositive := h.localStore.mutationQueue.positive
  have hnext : engine.localStore.mutationQueue.queue ≠ [] →
      engine.localStore.getHighestUnacknowledgedBatchId =
        engine.localStore.mutationQueue.nextBatchId - 1 := by
    intro hne
    show engine.localStore.mutationQueue.getHighestUnacknowledgedBatchId = _
    unfold MemoryMutationQueue.getHighestUnacknowledgedBatchId MemoryMutationQueue.isEmpty
    rw [if_neg (by simpa using hne)]
  by_cases hnil : engine.localStore.mutationQueue.queue = []
  · have hunknown : engine.localStore.getHighestUnacknowledgedBatchId = batchIdUnknown := by
      show engine.localStore.mutationQueue.getHighestUnacknowledgedBatchId = _
      rw [hhighest, hnil]
      rfl
    have houtbox : Outbox.step engine.pendingWrites
        (engine.input (.registerPendingWritesCallback callback)) =
          (engine.pendingWrites, ⟨[], [callback], []⟩) :=
      if_pos (List.isEmpty_iff.mpr (h.line_eq_nil.mpr hnil))
    refine ⟨engine, ⟨[], [(callback, .ok)], none⟩, ?_, h, ⟨congrArg Prod.fst houtbox, ?_,
      fun _ => rfl, fun _ => rfl⟩⟩
    · unfold step SyncEngine.registerPendingWritesCallback
      simp only [hunknown, if_true]
    · rw [houtbox]
      rfl
  · have hid := hnext hnil
    have hknown : engine.localStore.getHighestUnacknowledgedBatchId ≠ batchIdUnknown := by
      rw [hid]
      unfold batchIdUnknown
      omega
    have hlength : 0 < engine.localStore.mutationQueue.queue.length := List.length_pos_iff.mpr hnil
    have houtbox : Outbox.step engine.pendingWrites
        (engine.input (.registerPendingWritesCallback callback)) =
          ({ engine.pendingWrites with waits := engine.pendingWrites.waits ++
            [(engine.pendingWrites.line.length, callback)] }, .none) :=
      if_neg fun hempty => hnil (h.line_eq_nil.mp (List.isEmpty_iff.mp hempty))
    set engine' : SyncEngine := { engine with
      pendingWritesCallbacks := engine.pendingWritesCallbacks.insert
        engine.localStore.getHighestUnacknowledgedBatchId
        (((engine.pendingWritesCallbacks.find?
          engine.localStore.getHighestUnacknowledgedBatchId).getD []) ++ [callback]) } with hengine'
    have hwaits : engine'.pendingWrites.waits = engine.pendingWrites.waits ++
        [(engine.pendingWrites.line.length, callback)] := by
      show awaited engine.firstBatchId engine'.pendingWritesCallbacks.entries = _
      rw [hengine', awaited_insert, h.length_line]
      · show awaited _ _ ++ _ = awaited _ _ ++ _
        congr 3
        unfold firstBatchId
        rw [hid]
        omega
      · intro e he
        have := (h.waits e he).2
        rw [hid]
        omega
    refine ⟨engine', .nothing, ?_, ⟨h.localStore, h.remoteStore, h.callbacks, fun e he => ?_⟩, ?_⟩
    · unfold step SyncEngine.registerPendingWritesCallback
      simp only [if_neg hknown]
      rfl
    · rcases SortedMap.mem_insertEntry he with rfl | he
      · show engine.firstBatchId ≤ engine.localStore.getHighestUnacknowledgedBatchId ∧
          engine.localStore.getHighestUnacknowledgedBatchId <
            engine.localStore.mutationQueue.nextBatchId
        rw [hid]
        unfold firstBatchId
        omega
      · exact h.waits e he
    · refine ⟨?_, ?_, fun _ => rfl, fun _ => rfl⟩
      · rw [houtbox, ← hwaits]
        rfl
      · rw [houtbox]
        rfl

/-! ## What the connection does -/

theorem Valid.kept (h : engine.Valid) {event : EngineEvent}
    (hinput : engine.input event = .nothing) (hremembers : ∀ key,
      Remembers engine key (engine.localStore.remoteDocumentCache.get key) event)
    (remote : RemoteStore) (hr : remote.Follows engine.localStore.mutationQueue.queue)
    (hstep : engine.step event = .ok (engine.setRemoteStore remote, .nothing)) :
    Succeeds engine event :=
  ⟨_, _, hstep, (kept_setRemoteStore engine remote).valid h h.localStore hr,
    (kept_setRemoteStore engine remote).answers hinput hremembers⟩

theorem Valid.enableNetwork (h : engine.Valid) : Succeeds engine .enableNetwork := by
  obtain ⟨remote, henable, hfollows⟩ :=
    enableNetwork_spec engine h.localStore h.remoteStore.toCoherent h.remoteStore.fits
  refine h.kept rfl (fun _ => rfl) remote hfollows ?_
  unfold step
  rw [henable]
  rfl

theorem Valid.disableNetwork (h : engine.Valid) : Succeeds engine .disableNetwork := by
  obtain ⟨remote, hdisable, hoff, hnetwork⟩ := disableNetwork_spec h.remoteStore.toCoherent
  refine h.kept rfl (fun _ => rfl) remote (hoff.follows hnetwork _) ?_
  unfold step
  rw [hdisable]
  rfl

theorem Valid.connectivityChanged (h : engine.Valid) : Succeeds engine .connectivityChanged := by
  by_cases hnetwork : engine.remoteStore.canUseNetwork = true
  · obtain ⟨remote, hrestart, hfollows⟩ :=
      restartNetwork_spec h.localStore h.remoteStore.toCoherent
    refine h.kept rfl (fun _ => rfl) remote hfollows ?_
    unfold step
    rw [if_pos hnetwork, hrestart]
    rfl
  · refine h.kept rfl (fun _ => rfl) engine.remoteStore h.remoteStore ?_
    unfold step
    rw [if_neg hnetwork]
    rfl

theorem Valid.credentialChange (h : engine.Valid) (user : User) :
    Succeeds engine (.credentialChange user) := by
  -- Either way the network is restarted if it is on, whatever the pipeline was.
  have hrestart : ∀ engine' : SyncEngine, engine'.localStore.Valid →
      engine'.remoteStore = engine.remoteStore → ∃ remote,
        (if engine'.remoteStore.canUseNetwork then engine'.restartNetwork else .ok engine') =
            .ok (engine'.setRemoteStore remote) ∧
          remote.Follows engine'.localStore.mutationQueue.queue := by
    intro engine' hs hremote
    by_cases hnetwork : engine'.remoteStore.canUseNetwork = true
    · rw [if_pos hnetwork]
      exact restartNetwork_spec hs (hremote ▸ h.remoteStore.toCoherent)
    · rw [if_neg hnetwork]
      have hdisabled : engine'.remoteStore.isNetworkEnabled = false := Bool.not_eq_true _ ▸ hnetwork
      refine ⟨engine'.remoteStore, rfl, hremote ▸ h.remoteStore.toCoherent, ?_, fun hn => ?_⟩
      · rw [if_neg (by rw [hdisabled]; exact Bool.false_ne_true)]
        exact (hremote ▸ h.remoteStore).fits.disabled hdisabled
      · rw [hdisabled] at hn
        cases hn
  by_cases hsame : user = engine.currentUser
  · obtain ⟨remote, hnetwork, hfollows⟩ := hrestart engine h.localStore rfl
    have hkept := kept_setRemoteStore engine remote
    refine ⟨engine.setRemoteStore remote, .nothing, ?_, hkept.valid h h.localStore hfollows, ?_⟩
    · unfold step handleCredentialChange
      simp only [hsame, ne_eq, not_true_eq_false, if_false, bind, Except.bind, pure, Except.pure]
      split_ifs at hnetwork ⊢
      · rw [hnetwork]
      · rw [← Except.ok.inj hnetwork]
    · have houtbox : Outbox.step engine.pendingWrites (engine.input (.credentialChange user)) =
          (engine.pendingWrites, .none) := if_pos hsame
      exact ⟨by rw [houtbox]; exact hkept.pendingWrites.symm, by rw [houtbox]; rfl, hkept.localView,
        fun _ => rfl⟩
  · obtain ⟨changes, q, hchange, rfl, hs, hreports⟩ := h.localStore.handleUserChange user
    set store : LocalStore := ({ engine.localStore with user := user } : LocalStore).setMutationQueue
      (engine.localStore.mutationQueues user).start with hstore
    set engine' : SyncEngine := { engine with
      localStore := store, pendingWritesCallbacks := .empty } with hengine'
    obtain ⟨remote, hnetwork, hfollows⟩ := hrestart engine' hs rfl
    have hqueue : ∀ u,
        (store.mutationQueues u).queue = (engine.localStore.mutationQueues u).queue := by
      intro u
      show MemoryMutationQueue.queue (Function.update engine.localStore.mutationQueues user _ u) = _
      by_cases hu : u = user
      · rw [hu, Function.update_self, MemoryMutationQueue.queue_start]
      · rw [Function.update_of_ne hu]
    refine ⟨engine'.setRemoteStore remote,
      ⟨[], engine.failOutstandingPendingWriteCallbacks.2, some changes⟩, ?_,
      ⟨hs, hfollows, fun u => ?_, fun e he => ?_⟩, ?_⟩
    · unfold step handleCredentialChange
      simp only [failOutstandingPendingWriteCallbacks, ne_eq, Ne.symm hsame, not_false_eq_true,
        if_true, hchange, bind, Except.bind, pure, Except.pure]
      split_ifs at hnetwork ⊢
      · rw [hnetwork]
      · rw [← Except.ok.inj hnetwork]
    · exact (h.callbacks u).trans (congrArg _ (hqueue u).symm)
    · cases he
    · have houtbox : Outbox.step engine.pendingWrites (engine.input (.credentialChange user)) =
          ({ engine.pendingWrites with owner := user, waits := [] },
            ⟨[], [], engine.pendingWrites.waits.map (·.2)⟩) := if_neg hsame
      refine ⟨?_, ?_, hreports, fun _ => rfl⟩
      · rw [houtbox]
        show Outbox.mk _ _ _ = Outbox.mk _ _ _
        congr 1
        funext u
        show _ = ((engine.mutationCallbacks u).entries.zip (store.mutationQueues u).queue).map _
        rw [hqueue u]
        rfl
      · rw [houtbox]
        show Prod.mk [] _ = Prod.mk [] _
        congr 1
        show ((awaited _ _).map _).map _ = _
        unfold awaited failOutstandingPendingWriteCallbacks
        simp [List.map_flatMap, Function.comp_def]

theorem Valid.remoteEvent (h : engine.Valid) {event : RemoteEvent} (hwf : event.WellFormed)
    (hmono : event.snapshotVersion ≠ SnapshotVersion.none →
      engine.localStore.lastRemoteSnapshotVersion ≤ event.snapshotVersion) :
    Succeeds engine (.remoteEvent event) := by
  obtain ⟨changes, cache, happly, hget, htimes, hreports⟩ := h.localStore.applyRemoteEvent hwf hmono
  set store : LocalStore := { engine.localStore with
    remoteDocumentCache := cache
    lastRemoteSnapshotVersion :=
      if event.snapshotVersion = SnapshotVersion.none then
        engine.localStore.lastRemoteSnapshotVersion
      else event.snapshotVersion } with hstore
  refine ⟨{ engine with localStore := store }, ⟨[], [], some changes⟩, ?_,
    ⟨⟨h.localStore.queues, h.localStore.unconditional, htimes⟩, h.remoteStore, h.callbacks, h.waits⟩,
    ⟨rfl, rfl, ⟨hreports.reported, hreports.frame⟩, hget⟩⟩
  show engine.applyRemoteEvent event = _
  unfold SyncEngine.applyRemoteEvent
  rw [happly]
  rfl

/-! ## What the write stream does -/

theorem Valid.handshake_of_ne_open (h : engine.Valid)
    (hstate : engine.remoteStore.writeStream.state ≠ .open) :
    engine.remoteStore.writeStream.handshakeComplete = false := by
  rw [← Bool.not_eq_true]
  exact fun hhandshake => hstate (h.remoteStore.ready hhandshake)

theorem Valid.streamOpened (h : engine.Valid)
    (hstate : engine.remoteStore.writeStream.state = .starting) : Succeeds engine .streamOpened := by
  have hstarted : engine.remoteStore.writeStream.isStarted = true := by
    unfold WriteStream.isStarted
    rw [hstate]
    rfl
  have hhandshake := h.handshake_of_ne_open (by rw [hstate]; decide)
  refine h.kept rfl (fun _ => rfl) { engine.remoteStore with
    writeStream := { engine.remoteStore.writeStream with state := .open, idlenessTimer := false } }
    ⟨⟨fun _ => h.remoteStore.connected hstarted, fun _ => rfl, h.remoteStore.unanswered,
      fun hidle => (by cases hidle), fun _ => h.remoteStore.waiting hstarted⟩, h.remoteStore.pipeline,
      fun _ _ => rfl⟩ ?_
  unfold step onWriteStreamOpen WriteStream.writeHandshake setRemoteStore WriteStream.isOpen
  simp [hhandshake, bind, Except.bind, pure, Except.pure, Functor.map, Except.map]

theorem Valid.handshakeResponse (h : engine.Valid)
    (hstate : engine.remoteStore.writeStream.state = .open)
    (hhandshake : engine.remoteStore.writeStream.handshakeComplete = false) (streamToken : ByteString) :
    Succeeds engine (.handshakeResponse streamToken) := by
  set stream : WriteStream := { engine.remoteStore.writeStream with
    lastStreamToken := streamToken, handshakeComplete := true } with hstream
  have hidle : engine.remoteStore.writeStream.idlenessTimer = false := by
    rw [← Bool.not_eq_true]
    intro hidle
    rw [(h.remoteStore.idle hidle).1] at hhandshake
    cases hhandshake
  have hsent : RemoteStore.sent stream engine.remoteStore.writePipeline = { stream with
      idlenessTimer := false
      unanswered := engine.remoteStore.writePipeline.map (·.mutations) } := by
    have hunanswered := h.remoteStore.unanswered
    rw [hhandshake] at hunanswered
    unfold RemoteStore.sent WriteStream.isOpen
    simp [hstream, hstate, hidle, hunanswered]
  set engine' : SyncEngine := { engine with
    localStore := engine.localStore.setLastStreamToken streamToken
    remoteStore := { engine.remoteStore with
      writeStream := RemoteStore.sent stream engine.remoteStore.writePipeline } } with hengine'
  have hkept : Kept engine engine' := kept_setLastStreamToken streamToken _
  have hstarted := RemoteStore.isStarted_of_open hstate
  refine ⟨engine', .nothing, ?_, hkept.valid h (h.localStore.setLastStreamToken streamToken) ?_,
    hkept.answers rfl fun _ => rfl⟩
  · unfold step onWriteStreamHandshakeComplete
    simp only [setRemoteStore, ← hstream, RemoteStore.foldlM_writeMutations
      (show stream.state = .open from hstate) rfl, bind, Except.bind, pure, Except.pure, Functor.map,
      Except.map]
    rfl
  · show RemoteStore.Follows { engine.remoteStore with
      writeStream := RemoteStore.sent stream engine.remoteStore.writePipeline } _
    rw [hsent]
    exact ⟨⟨fun _ => h.remoteStore.connected hstarted, fun _ => hstate, rfl,
      fun hidle => (by cases hidle), fun _ hfalse => (by cases hfalse)⟩, h.remoteStore.pipeline,
      fun _ _ => RemoteStore.isStarted_of_open hstate⟩

theorem Valid.backoffElapsed (h : engine.Valid)
    (hstate : engine.remoteStore.writeStream.state = .backoff) : Succeeds engine .backoffElapsed := by
  have hstarted : engine.remoteStore.writeStream.isStarted = true := by
    unfold WriteStream.isStarted
    rw [hstate]
    rfl
  have hhandshake := h.handshake_of_ne_open (by rw [hstate]; decide)
  refine h.kept rfl (fun _ => rfl) { engine.remoteStore with
    writeStream := { engine.remoteStore.writeStream with state := .starting } }
    ⟨⟨fun _ => h.remoteStore.connected hstarted, fun hready => ?_, h.remoteStore.unanswered,
      h.remoteStore.idle, fun _ => h.remoteStore.waiting hstarted⟩, h.remoteStore.pipeline,
      fun _ _ => rfl⟩ rfl
  rw [show _ = true from hready] at hhandshake
  cases hhandshake

theorem Valid.idleTimeout (h : engine.Valid)
    (hidle : engine.remoteStore.writeStream.idlenessTimer = true) : Succeeds engine .idleTimeout := by
  obtain ⟨hhandshake, hnil⟩ := h.remoteStore.idle hidle
  have hstarted := RemoteStore.isStarted_of_open (h.remoteStore.ready hhandshake)
  refine h.kept rfl (fun _ => rfl) { engine.remoteStore with
    writeStream := { engine.remoteStore.writeStream with
      state := .initial
      handshakeComplete := false
      idlenessTimer := false
      unanswered := [] } }
    ⟨⟨fun hfalse => (by cases hfalse), fun hfalse => (by cases hfalse), rfl,
      fun hfalse => (by cases hfalse), fun hfalse => (by cases hfalse)⟩, h.remoteStore.pipeline,
      fun _ hne => absurd hnil hne⟩ ?_
  have hstart : ∀ stream, RemoteStore.shouldStartWriteStream
      ⟨engine.remoteStore.isNetworkEnabled, engine.remoteStore.writePipeline, stream⟩ = false := by
    intro stream
    unfold RemoteStore.shouldStartWriteStream
    simp [hnil]
  unfold step stopWriteStream
  simp only [setRemoteStore, hstarted, if_true, closeWriteStream, WriteStream.close,
    onWriteStreamClose, hstart, bind, Except.bind, pure, Except.pure, Bool.false_eq_true, if_false,
    Functor.map, Except.map]

/-! ## Answers -/

theorem StoreAnswered.of_setMutationQueue {store : LocalStore} {q : MemoryMutationQueue}
    (hq : q.queue = rest) (hnext : q.nextBatchId = store.mutationQueue.nextBatchId)
    (cache : RemoteDocumentCache) :
    StoreAnswered store { store.setMutationQueue q with remoteDocumentCache := cache } rest where
  user := rfl
  queue := by
    show (store.setMutationQueue q).mutationQueue.queue = rest
    rw [LocalStore.mutationQueue_setMutationQueue, hq]
  nextBatchId := by
    show (store.setMutationQueue q).mutationQueue.nextBatchId = _
    rw [LocalStore.mutationQueue_setMutationQueue, hnext]
  others user huser := Function.update_of_ne huser _ _

/-- The callbacks of waits for a batch. -/
def waiters (engine : SyncEngine) (batchId : ℤ) : List (CallbackId × Status) :=
  ((engine.pendingWritesCallbacks.find? batchId).getD []).map fun callback => (callback, .ok)

theorem handleSuccessfulWrite_spec (h : engine.Valid)
    (hqueue : engine.localStore.mutationQueue.queue = head :: rest) (result : MutationBatchResult)
    (hbatch : result.batch = head) (htime : SnapshotVersion.none < result.commitVersion)
    (remote : RemoteStore) :
    ∃ callback changes store,
      (engine.mutationCallbacks engine.currentUser).find? head.batchId = some callback ∧
      (engine.setRemoteStore remote).handleSuccessfulWrite result =
        .ok ((engine.answered store head.batchId).setRemoteStore remote,
          ⟨[(callback, .ok)], engine.waiters head.batchId, some changes⟩) ∧
      StoreAnswered engine.localStore store rest ∧ store.Valid ∧
      LocalStore.Reports engine.localStore store changes ∧
      ∀ key, store.remoteDocumentCache.get key = if head.affects key = true ∧
          LocalStore.isAhead result engine.localStore.remoteDocumentCache key = true then
        result.remoteDocument key else engine.localStore.remoteDocumentCache.get key := by
  obtain ⟨callback, entries, hentries, -⟩ := h.head_callback hqueue
  have hfind := SortedMap.find?_head hentries
  obtain ⟨changes, q, cache, hack, hq, hnext, hget, hs, hreports⟩ :=
    h.localStore.acknowledgeBatch hqueue hbatch htime
  refine ⟨callback, changes, _, hfind, ?_, .of_setMutationQueue hq hnext cache, hs, hreports, hget⟩
  unfold handleSuccessfulWrite
  rw [hbatch, (engine.setRemoteStore remote).notifyUser_eq hfind]
  simp only [triggerPendingWriteCallbacks_eq]
  rw [show (engine.setRemoteStore remote).localStore.acknowledgeBatch result = _ from hack]
  rfl

theorem handleRejectedWrite_spec (h : engine.Valid)
    (hqueue : engine.localStore.mutationQueue.queue = head :: rest) (status : Status)
    (remote : RemoteStore) :
    ∃ callback changes store,
      (engine.mutationCallbacks engine.currentUser).find? head.batchId = some callback ∧
      (engine.setRemoteStore remote).handleRejectedWrite head.batchId status =
        .ok ((engine.answered store head.batchId).setRemoteStore remote,
          ⟨[(callback, status)], engine.waiters head.batchId, some changes⟩) ∧
      StoreAnswered engine.localStore store rest ∧ store.Valid ∧
      LocalStore.Reports engine.localStore store changes ∧
      store.remoteDocumentCache = engine.localStore.remoteDocumentCache := by
  obtain ⟨callback, entries, hentries, -⟩ := h.head_callback hqueue
  have hfind := SortedMap.find?_head hentries
  obtain ⟨changes, q, hreject, hq, hnext, hs, hreports⟩ := h.localStore.rejectBatch hqueue
  refine ⟨callback, changes, _, hfind, ?_,
    .of_setMutationQueue hq hnext engine.localStore.remoteDocumentCache, hs, hreports, rfl⟩
  unfold handleRejectedWrite
  simp only [show (engine.setRemoteStore remote).localStore.rejectBatch head.batchId = _ from hreject,
    bind, Except.bind, pure, Except.pure]
  rw [notifyUser_eq]
  · simp only [triggerPendingWriteCallbacks_eq]
    rfl
  · exact hfind

theorem onWriteStreamMutationResult_cons (engine : SyncEngine) {engine₁ engine₂ : SyncEngine}
    {batch : MutationBatch} {pipeline : List MutationBatch}
    (hpipeline : engine.remoteStore.writePipeline = batch :: pipeline)
    {commitVersion : SnapshotVersion} {mutationResults : List MutationResult}
    {result : MutationBatchResult} {emission : Emission}
    (hnew : MutationBatchResult.new batch commitVersion mutationResults
      engine.remoteStore.writeStream.lastStreamToken = .ok result)
    (hwrite : (engine.setRemoteStore
      { engine.remoteStore with writePipeline := pipeline }).handleSuccessfulWrite result =
        .ok (engine₁, emission)) (hfill : engine₁.fillWritePipeline = .ok engine₂) :
    engine.onWriteStreamMutationResult commitVersion mutationResults = .ok (engine₂, emission) := by
  unfold onWriteStreamMutationResult
  simp only [hpipeline, hnew, hwrite, hfill, bind, Except.bind, pure, Except.pure]

theorem handleWriteError_cons (engine : SyncEngine) {engine₁ engine₂ : SyncEngine}
    {batch : MutationBatch}
    {pipeline : List MutationBatch} {code : ErrorCode} {stream : WriteStream} {emission : Emission}
    (hcode : isPermanentWriteError code = true)
    (hpipeline : engine.remoteStore.writePipeline = batch :: pipeline)
    (hinhibit : engine.remoteStore.writeStream.inhibitBackoff = .ok stream)
    (hreject : (engine.setRemoteStore { engine.remoteStore with
      writePipeline := pipeline, writeStream := stream }).handleRejectedWrite batch.batchId
        (.error code) = .ok (engine₁, emission))
    (hfill : engine₁.fillWritePipeline = .ok engine₂) :
    engine.handleWriteError code = .ok (engine₂, emission) := by
  unfold handleWriteError
  simp only [hcode, hpipeline, hinhibit, hreject, hfill, bind, Except.bind, pure, Except.pure,
    Bool.not_true, Bool.false_eq_true, if_false]

theorem Valid.writeResponse (h : engine.Valid) {commitVersion : SnapshotVersion}
    {mutationResults : List MutationResult} {streamToken : ByteString}
    (hstate : engine.remoteStore.writeStream.state = .open)
    (hhandshake : engine.remoteStore.writeStream.handshakeComplete = true)
    (htime : SnapshotVersion.none < commitVersion)
    (hrequest : engine.remoteStore.writeStream.unanswered.head?.map List.length =
      some mutationResults.length) :
    Succeeds engine (.writeResponse commitVersion mutationResults streamToken) := by
  have hunanswered := h.remoteStore.unanswered
  rw [hhandshake, if_pos rfl] at hunanswered
  rw [hunanswered] at hrequest
  -- The request answered is the one for the first batch of the queue.
  obtain ⟨batch, pipeline, hpipeline⟩ : ∃ batch pipeline,
      engine.remoteStore.writePipeline = batch :: pipeline := by
    cases hpipeline : engine.remoteStore.writePipeline with
    | nil =>
      rw [hpipeline] at hrequest
      cases hrequest
    | cons batch pipeline => exact ⟨batch, pipeline, rfl⟩
  obtain ⟨rest, hqueue, hnetwork, hprefix, hlength⟩ := h.remoteStore.tail hpipeline
  have hsame : mutationResults.length = batch.mutations.length := by
    rw [hpipeline] at hrequest
    simpa using hrequest.symm
  set stream : WriteStream := { engine.remoteStore.writeStream with
    lastStreamToken := streamToken
    unanswered := engine.remoteStore.writeStream.unanswered.tail } with hstream
  set remote : RemoteStore := { engine.remoteStore with
    writePipeline := pipeline, writeStream := stream } with hremote
  set result : MutationBatchResult :=
    ⟨batch, commitVersion, mutationResults, streamToken, hsame⟩ with hresult
  have hnew : MutationBatchResult.new batch commitVersion mutationResults streamToken = .ok result :=
    dif_pos hsame
  obtain ⟨callback, changes, store, hfind, hwrite, hstore, hs, hreports, hget⟩ :=
    handleSuccessfulWrite_spec h hqueue result rfl htime remote
  have hidle : engine.remoteStore.writeStream.idlenessTimer = false := by
    rw [← Bool.not_eq_true]
    intro hidle
    rw [(h.remoteStore.idle hidle).2] at hpipeline
    cases hpipeline
  have hcoherent : remote.Coherent := by
    refine ⟨fun _ => hnetwork, fun _ => hstate, ?_, fun hidle' => ?_, fun _ hfalse => ?_⟩
    · show engine.remoteStore.writeStream.unanswered.tail = _
      rw [hunanswered, hpipeline, show remote.writeStream.handshakeComplete = true from hhandshake]
      rfl
    · rw [show remote.writeStream.idlenessTimer = false from hidle] at hidle'
      cases hidle'
    · rw [show remote.writeStream.handshakeComplete = true from hhandshake] at hfalse
      cases hfalse
  obtain ⟨remote', hfill, hfollows⟩ := fillWritePipeline_spec
    ((engine.answered store batch.batchId).setRemoteStore remote) hs hcoherent
    (by
      show remote.Fits store.mutationQueue.queue
      rw [hstore.queue]
      exact ⟨fun hn => (by rw [show remote.isNetworkEnabled = true from hnetwork] at hn; cases hn),
        hprefix, hlength⟩)
  obtain ⟨callback', hfind', houtbox⟩ := h.step_answer hqueue hstore .ok
  obtain rfl : callback = callback' := Option.some.inj (hfind.symm.trans hfind')
  refine ⟨(engine.answered store batch.batchId).setRemoteStore remote',
    ⟨[(callback, .ok)], engine.waiters batch.batchId, some changes⟩, ?_,
    h.answered hqueue hstore hs (hstore.queue ▸ hfollows),
    ⟨?_, ?_, hreports, fun key => ⟨batch, rest, result, hqueue, rfl, rfl, rfl, hget key⟩⟩⟩
  · show (engine.setRemoteStore { engine.remoteStore with
      writeStream := stream }).onWriteStreamMutationResult commitVersion mutationResults = _
    exact onWriteStreamMutationResult_cons (engine.setRemoteStore
      { engine.remoteStore with writeStream := stream }) hpipeline hnew hwrite hfill
  · exact congrArg Prod.fst houtbox
  · rw [show Outbox.step engine.pendingWrites
      (engine.input (.writeResponse commitVersion mutationResults streamToken)) = _ from houtbox]
    unfold called
    simp only [List.map_nil, List.append_nil]
    rfl

/-- After the stream broke it is started again if there is something to send. -/
theorem onWriteStreamClose_restart {engine : SyncEngine} :
    (if engine.remoteStore.shouldStartWriteStream then do
        let remote ← engine.remoteStore.startWriteStream
        return (engine.setRemoteStore remote, Emission.nothing)
      else return (engine, Emission.nothing) : Except HardAssert (SyncEngine × Emission)) =
      .ok (engine.setRemoteStore engine.remoteStore.startedIfNeeded, .nothing) := by
  by_cases h : engine.remoteStore.shouldStartWriteStream = true
  · rw [if_pos h, RemoteStore.startWriteStream_eq h]
    rfl
  · rw [if_neg h]
    unfold RemoteStore.startedIfNeeded
    rw [if_neg h]
    rfl

/-- A permanent error once the handshake is complete is the answer to the first batch. -/
theorem Valid.permanentError (h : engine.Valid)
    (hstarted : engine.remoteStore.writeStream.isStarted = true)
    (hhandshake : engine.remoteStore.writeStream.handshakeComplete = true)
    (hnil : engine.remoteStore.writePipeline ≠ []) {code : ErrorCode}
    (hcode : isPermanentWriteError code = true) : Succeeds engine (.streamError code) := by
  obtain ⟨batch, pipeline, hpipeline⟩ := List.exists_cons_of_ne_nil hnil
  obtain ⟨rest, hqueue, hnetwork, hprefix, hlength⟩ := h.remoteStore.tail hpipeline
  set stream : WriteStream := { engine.remoteStore.writeStream with
    state := .error, idlenessTimer := false, unanswered := [] } with hstream
  have hclose : engine.remoteStore.writeStream.close (.error code) = .ok stream := if_pos hstarted
  set remote : RemoteStore := { engine.remoteStore with
    writePipeline := pipeline, writeStream := { stream with state := .initial } } with hremote
  obtain ⟨callback, changes, store, hfind, hreject, hstore, hs, hreports, hcache⟩ :=
    handleRejectedWrite_spec h hqueue (.error code) remote
  have hstopped : remote.Stopped := ⟨rfl, rfl, rfl⟩
  obtain ⟨remote', hfill, -, hfollows⟩ := hstopped.fill hs hnetwork
    (by
      rw [hstore.queue]
      exact ⟨fun hn => (by rw [show remote.isNetworkEnabled = true from hnetwork] at hn; cases hn),
        hprefix, hlength⟩)
  have hfill' : ((engine.answered store batch.batchId).setRemoteStore remote).fillWritePipeline =
      .ok ((engine.answered store batch.batchId).setRemoteStore remote') :=
    fillWritePipeline_eq hfill
  have herror := handleWriteError_cons (engine.setRemoteStore
    { engine.remoteStore with writeStream := stream }) hcode hpipeline rfl hreject hfill'
  obtain ⟨callback', hfind', houtbox⟩ := h.step_answer hqueue hstore (.error code)
  obtain rfl : callback = callback' := Option.some.inj (hfind.symm.trans hfind')
  have hinput : engine.input (.streamError code) = .answer (.error code) := by
    unfold input
    simp [hhandshake, hnil, hcode]
  refine ⟨(engine.answered store batch.batchId).setRemoteStore remote'.forgetHandshake,
    ⟨[(callback, .error code)], engine.waiters batch.batchId, some changes⟩, ?_,
    h.answered hqueue hstore hs (hstore.queue ▸ hfollows),
    ⟨?_, ?_, hreports, fun key => hcache ▸ rfl⟩⟩
  · have hcall : (engine.setRemoteStore
        { engine.remoteStore with writeStream := stream }).onWriteStreamClose (.error code) =
          .ok ((engine.answered store batch.batchId).setRemoteStore remote',
            ⟨[(callback, .error code)], engine.waiters batch.batchId, some changes⟩) := by
      unfold onWriteStreamClose
      simp only [herror, bind, Except.bind, pure, Except.pure]
      simp [setRemoteStore, hstream, hhandshake, hpipeline, hfollows.shouldStartWriteStream_eq]
    show engine.closeWriteStream (.error code) = _
    unfold closeWriteStream
    simp only [hclose, hcall, bind, Except.bind, pure, Except.pure]
    rfl
  · rw [hinput]
    exact congrArg Prod.fst houtbox
  · rw [hinput, houtbox]
    unfold called
    simp only [List.map_nil, List.append_nil]
    rfl

theorem Valid.streamError (h : engine.Valid)
    (hstarted : engine.remoteStore.writeStream.isStarted = true) (code : ErrorCode) :
    Succeeds engine (.streamError code) := by
  set stream : WriteStream := { engine.remoteStore.writeStream with
    state := .error, idlenessTimer := false, unanswered := [] } with hstream
  set remote : RemoteStore := { engine.remoteStore with writeStream := stream } with hremote
  have hclose : engine.remoteStore.writeStream.close (.error code) = .ok stream := if_pos hstarted
  have hstopped : remote.Stopped := ⟨rfl, rfl, rfl⟩
  -- The stream is started again with the same pipeline, maybe without its token.
  have hrestart : ∀ engine' : SyncEngine, Kept engine engine' → engine'.localStore.Valid →
      engine'.remoteStore.Stopped →
      engine'.remoteStore.isNetworkEnabled = engine.remoteStore.isNetworkEnabled →
      engine'.remoteStore.writePipeline = engine.remoteStore.writePipeline →
      engine.input (.streamError code) = .nothing →
      (engine.setRemoteStore remote).onWriteStreamClose (.error code) =
        .ok (engine'.setRemoteStore engine'.remoteStore.startedIfNeeded, .nothing) →
      Succeeds engine (.streamError code) := by
    intro engine' hkept hs hstopped' hnetwork hpipeline hinput hcall
    set engine'' := engine'.setRemoteStore
      engine'.remoteStore.startedIfNeeded.forgetHandshake with hengine''
    have hkept' : Kept engine engine'' :=
      ⟨hkept.user, hkept.queue, hkept.nextBatchId, hkept.cache, hkept.callbacks, hkept.waits⟩
    refine ⟨engine'', .nothing, ?_, hkept'.valid h hs ?_, hkept'.answers hinput fun _ => rfl⟩
    · show engine.closeWriteStream (.error code) = _
      unfold closeWriteStream
      simp only [hclose, ← hremote, hcall, bind, Except.bind, pure, Except.pure]
      rfl
    · refine hstopped'.restart ?_
      rw [hnetwork, hpipeline]
      exact h.remoteStore.pipeline
  by_cases hnil : engine.remoteStore.writePipeline = []
  · refine hrestart (engine.setRemoteStore remote) (kept_setRemoteStore engine remote) h.localStore
      hstopped rfl rfl ?_ ?_
    · unfold input
      simp [hnil]
    · unfold onWriteStreamClose
      rw [← onWriteStreamClose_restart]
      simp [setRemoteStore, hremote, hnil, bind, Except.bind, pure, Except.pure]
  have hne : engine.remoteStore.writePipeline.isEmpty = false := List.isEmpty_eq_false_iff.mpr hnil
  by_cases hhandshake : engine.remoteStore.writeStream.handshakeComplete = true
  · by_cases hcode : isPermanentWriteError code = true
    · exact h.permanentError hstarted hhandshake hnil hcode
    · refine hrestart (engine.setRemoteStore remote) (kept_setRemoteStore engine remote) h.localStore
        hstopped rfl rfl ?_ ?_
      · unfold input
        simp [hcode]
      · unfold onWriteStreamClose handleWriteError
        rw [← onWriteStreamClose_restart]
        simp [setRemoteStore, hremote, hstream, hne, hhandshake, hcode, bind, Except.bind, pure,
          Except.pure]
  · have hinput : engine.input (.streamError code) = .nothing := by
      unfold input
      simp [hhandshake]
    have hcall : (engine.setRemoteStore remote).onWriteStreamClose (.error code) =
        .ok (((engine.setRemoteStore remote).handleHandshakeError code).setRemoteStore
          ((engine.setRemoteStore remote).handleHandshakeError code).remoteStore.startedIfNeeded,
            .nothing) := by
      unfold onWriteStreamClose
      rw [← onWriteStreamClose_restart]
      simp [setRemoteStore, hremote, hstream, hne, hhandshake, bind, Except.bind, pure, Except.pure]
    by_cases hcode : isPermanentError code = true
    · have herror : (engine.setRemoteStore remote).handleHandshakeError code = { engine with
          localStore := engine.localStore.setLastStreamToken []
          remoteStore := { remote with writeStream := { stream with lastStreamToken := [] } } } := by
        unfold handleHandshakeError
        rw [if_pos hcode]
        rfl
      refine hrestart _ ?_ ?_ ?_ ?_ ?_ hinput hcall <;> rw [herror]
      · exact kept_setLastStreamToken [] _
      · exact h.localStore.setLastStreamToken []
      · exact ⟨rfl, rfl, rfl⟩
    · have herror : (engine.setRemoteStore remote).handleHandshakeError code =
          engine.setRemoteStore remote := by
        unfold handleHandshakeError
        rw [if_neg hcode]
      refine hrestart _ ?_ ?_ ?_ ?_ ?_ hinput hcall <;> rw [herror]
      · exact kept_setRemoteStore engine remote
      · exact h.localStore
      · exact hstopped
      · rfl
      · rfl

/-- Every possible event. -/
theorem Valid.step (h : engine.Valid) {event : EngineEvent} (hp : engine.Possible event) :
    Succeeds engine event := by
  cases event with
  | writeMutations mutations callback => exact h.writeMutations hp.1 hp.2 callback
  | registerPendingWritesCallback callback => exact h.registerPendingWritesCallback callback
  | enableNetwork => exact h.enableNetwork
  | disableNetwork => exact h.disableNetwork
  | connectivityChanged => exact h.connectivityChanged
  | credentialChange user => exact h.credentialChange user
  | streamOpened => exact h.streamOpened hp
  | handshakeResponse streamToken => exact h.handshakeResponse hp.1 hp.2 streamToken
  | writeResponse commitVersion mutationResults streamToken =>
    exact h.writeResponse hp.1 hp.2.1 hp.2.2.1 hp.2.2.2
  | streamError code => exact h.streamError hp code
  | backoffElapsed => exact h.backoffElapsed hp
  | idleTimeout => exact h.idleTimeout hp
  | remoteEvent event => exact h.remoteEvent hp.1 hp.2

end SyncEngine

end GroceryApp.FirestoreCore
