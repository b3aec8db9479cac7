import GroceryApp.FirestoreCore.EngineRuns

/-!
# A client alone with its writes

The app's `Firestore` is a map from references to documents that a call changes at once. The engine
keeps that promise with a queue, remembered documents and a connection that comes and goes: as long
as no write is rejected, the user stays and the backend tells of no other writes, a query sees the
documents of the map, in its order, whatever the network does (`own_writes_shown`). The local store
collects no garbage meanwhile.
-/

namespace GroceryApp.FirestoreCore

open Transducers

/-- The document of a grocery, by its name. -/
def grocery (name : String) : DocumentKey := ⟨["groceries", name], Nat.mod_self 2⟩

/-- `ParsedSetData::ToMutations`, of a whole document. -/
def setDataMutations (ref : DocumentReference) (data : ObjectValue) : List Mutation :=
  [⟨ref, .set data, .none⟩]

/-- The mutations of `DocumentReference::DeleteDocument`. -/
def deleteDocumentMutations (ref : DocumentReference) : List Mutation := [⟨ref, .delete, .none⟩]

/-- What a mutation means for the map of documents. -/
def Mutation.applyToDocuments (db : Firestore) (mutation : Mutation) : Firestore :=
  match mutation.type with
  | .set value => db.setData mutation.key value
  | .delete => db.delete mutation.key

theorem Mutation.lookup_applyToDocuments (db : Firestore) (mutation : Mutation) (key : DocumentKey) :
    (mutation.applyToDocuments db).lookup key =
      if mutation.key = key then mutation.value else db.lookup key := by
  unfold Mutation.applyToDocuments Mutation.value
  cases mutation.type with
  | set value => simp only [Firestore.lookup_setData, eq_comm]
  | delete => simp only [Firestore.lookup_delete, eq_comm]

theorem lookup_foldl_applyToDocuments (db : Firestore) (mutations : List Mutation)
    (key : DocumentKey) : (mutations.foldl Mutation.applyToDocuments db).lookup key =
      (((mutations.filter fun m => decide (m.key = key)).getLast?).map Mutation.value).getD
        (db.lookup key) := by
  induction mutations generalizing db with
  | nil => rfl
  | cons mutation mutations ih =>
    rw [List.foldl_cons, ih, Mutation.lookup_applyToDocuments]
    by_cases h : mutation.key = key
    · rw [if_pos h, List.filter_cons_of_pos (by simpa using h), List.getLast?_cons]
      cases (mutations.filter fun m => decide (m.key = key)).getLast? <;> rfl
    · rw [if_neg h, List.filter_cons_of_neg (by simpa using h)]

namespace SyncEngine

variable {engine engine' : SyncEngine} {events : List EngineEvent}

/-! ## What is shown, off the pending writes -/

/-- What can happen to the pending writes. -/
abbrev PendingInput := Outbox.Input User PendingWrite CallbackId Status

/-- The pending mutations of a document, in order. -/
def pendingMutations (box : PendingWrites) (key : DocumentKey) : List Mutation :=
  (box.line.flatMap (·.mutations)).filter fun m => decide (m.key = key)

theorem Valid.map_mutations_line (h : engine.Valid) :
    engine.pendingWrites.line.map (·.mutations) =
      engine.localStore.mutationQueue.queue.map (·.mutations) := by
  have hlength : (engine.mutationCallbacks engine.currentUser).entries.length =
      engine.localStore.mutationQueue.queue.length := h.length_entries engine.currentUser
  show (((engine.mutationCallbacks engine.currentUser).entries.zip
    engine.localStore.mutationQueue.queue).map _).map _ = _
  rw [List.map_map]
  show List.map (MutationBatch.mutations ∘ Prod.snd) _ = _
  rw [← List.map_map, List.map_snd_zip hlength.ge]

theorem Valid.pendingMutations_eq (h : engine.Valid) (key : DocumentKey) :
    pendingMutations engine.pendingWrites key =
      engine.localStore.mutationQueue.queue.flatMap (·.mutationsOf key) := by
  unfold pendingMutations
  rw [List.flatMap_def (f := PendingWrite.mutations), h.map_mutations_line, ← List.flatMap_def,
    List.filter_flatMap]
  rfl

theorem Valid.lastPending_eq (h : engine.Valid) (key : DocumentKey) :
    engine.lastPending key = (pendingMutations engine.pendingWrites key).getLast? := by
  rw [h.pendingMutations_eq]
  rfl

/-- A write comes after all that are pending. -/
theorem pendingMutations_write (box : PendingWrites) (write : PendingWrite) (key : DocumentKey) :
    pendingMutations (Outbox.step box
      (.write write : PendingInput)).1 key =
        pendingMutations box key ++ write.mutations.filter fun m => decide (m.key = key) := by
  unfold pendingMutations Outbox.line
  show (List.flatMap _ (Function.update box.waiting box.owner (box.line ++ [write])
    box.owner)).filter _ = _
  rw [Function.update_self, List.flatMap_append, List.filter_append]
  simp [Outbox.line]

/-- An answer takes the first one. -/
theorem pendingMutations_answer {box : PendingWrites} {write : PendingWrite}
    {rest : List PendingWrite} (hline : box.line = write :: rest) (status : Status)
    (key : DocumentKey) :
    pendingMutations box key = (write.mutations.filter fun m => decide (m.key = key)) ++
      pendingMutations (Outbox.step box
        (.answer status : PendingInput)).1 key := by
  have hstep : (Outbox.step box
      (.answer status : PendingInput)).1.line = rest := by
    unfold Outbox.step
    simp only [hline]
    unfold Outbox.line
    exact Function.update_self ..
  unfold pendingMutations
  rw [hline, hstep, List.flatMap_cons, List.filter_append]

/-- What is shown is the last pending mutation, or else what is remembered. -/
theorem Valid.visible_eq (h : engine.Valid) (key : DocumentKey) :
    visible (engine.localStore.localView key) =
      ((pendingMutations engine.pendingWrites key).getLast?.map Mutation.value).getD
        (visible (engine.localStore.remoteDocumentCache.get key)) := by
  rw [h.visible_localView, h.lastPending_eq]

/-! ## Answers, seen from outside -/

/-- The results are newer than what is remembered of the document. -/
def Ahead (engine : SyncEngine) (mutationResults : List MutationResult) (key : DocumentKey) : Prop :=
  ∀ batch ∈ engine.localStore.mutationQueue.queue.head?,
    ∀ doc ∈ engine.localStore.remoteDocumentCache.get key,
      ∀ m ∈ ((batch.mutations.zip mutationResults).filter
        fun m => decide (m.1.key = key)).getLast?, doc.version < m.2.version

instance (engine : SyncEngine) (mutationResults : List MutationResult) (key : DocumentKey) :
    Decidable (engine.Ahead mutationResults key) := by
  unfold Ahead
  infer_instance

theorem isAhead_iff {result : MutationBatchResult} {rest : List MutationBatch}
    (hqueue : engine.localStore.mutationQueue.queue = result.batch :: rest) {key : DocumentKey}
    (haffects : result.batch.affects key = true) :
    LocalStore.isAhead result engine.localStore.remoteDocumentCache key = true ↔
      engine.Ahead result.mutationResults key := by
  obtain ⟨last, hlast⟩ := Option.isSome_iff_exists.mp
    ((MutationBatchResult.lastOf_isSome key).trans haffects)
  unfold LocalStore.isAhead Ahead
  rw [MutationBatchResult.find?_docVersions, hlast, Option.all_eq_true, hqueue]
  constructor
  · intro hahead batch hbatch doc hdoc m hm
    obtain rfl : result.batch = batch := Option.some.inj hbatch
    obtain rfl : last = m := Option.some.inj (hlast.symm.trans hm)
    exact of_decide_eq_true (hahead doc hdoc)
  · exact fun hahead doc hdoc => decide_eq_true (hahead result.batch rfl doc hdoc last hlast)

/-- What the results of a batch leave of a document is what its last mutation leaves. -/
theorem visible_remoteDocument (result : MutationBatchResult) (key : DocumentKey) :
    visible (result.remoteDocument key) =
      ((result.batch.mutationsOf key).getLast?.map Mutation.value).getD none := by
  rw [← MutationBatchResult.map_fst_lastOf]
  unfold MutationBatchResult.remoteDocument
  cases result.lastOf key with
  | none => rfl
  | some m => exact Mutation.visible_applyToRemoteDocument m.1 m.2.version

theorem Valid.head_write (h : engine.Valid) {batch : MutationBatch} {rest : List MutationBatch}
    (hqueue : engine.localStore.mutationQueue.queue = batch :: rest) :
    ∃ write writes, engine.pendingWrites.line = write :: writes ∧
      write.mutations = batch.mutations := by
  have hline := h.map_mutations_line
  rw [hqueue, List.map_cons] at hline
  obtain ⟨write, writes, heq, hmutations, -⟩ := List.map_eq_cons_iff.mp hline
  exact ⟨write, writes, heq, hmutations⟩

/-- With the answer to the first batch what is remembered of the document comes to be shown as it
is: no later write of it is pending, and the results are not newer. -/
def Stands (engine : SyncEngine) (mutationResults : List MutationResult) (key : DocumentKey) : Prop :=
  (∀ batch ∈ engine.localStore.mutationQueue.queue.tail, batch.affects key = false) ∧
    ¬engine.Ahead mutationResults key

instance (engine : SyncEngine) (mutationResults : List MutationResult) (key : DocumentKey) :
    Decidable (engine.Stands mutationResults key) := by
  unfold Stands
  infer_instance

/-- With the answer to the first batch only its own mutations are not pending any more. -/
theorem Answers.pendingMutations_eq (h : engine.Valid) {commitVersion : SnapshotVersion}
    {mutationResults : List MutationResult} {streamToken : ByteString} {emission : Emission}
    (hanswers : Answers engine (.writeResponse commitVersion mutationResults streamToken) engine'
      emission) {batch : MutationBatch} {rest : List MutationBatch}
    (hqueue : engine.localStore.mutationQueue.queue = batch :: rest) (key : DocumentKey) :
    pendingMutations engine.pendingWrites key =
      batch.mutationsOf key ++ pendingMutations engine'.pendingWrites key := by
  obtain ⟨write, writes, hline, hwrite⟩ := h.head_write hqueue
  have hpending := pendingMutations_answer hline .ok key
  rwa [show (Outbox.step engine.pendingWrites (.answer .ok : PendingInput)).1 =
    engine'.pendingWrites from hanswers.pendingWrites, hwrite] at hpending

/-- What is pending after the first batch is in the later ones. -/
theorem Valid.not_affects_tail (h : engine.Valid) {batch : MutationBatch}
    {rest : List MutationBatch} (hqueue : engine.localStore.mutationQueue.queue = batch :: rest)
    {key : DocumentKey} (hpending : pendingMutations engine.pendingWrites key =
      batch.mutationsOf key) : ∀ later ∈ rest, later.affects key = false := by
  rw [h.pendingMutations_eq, hqueue, List.flatMap_cons, List.append_right_eq_self,
    List.flatMap_eq_nil_iff] at hpending
  exact fun later hlater => MutationBatch.mutationsOf_eq_nil_iff.mp (hpending later hlater)

/-- An acknowledgment changes nothing that is shown of a document, if what is remembered of it does
not come to stand in place of the results, or is what is shown. -/
theorem Answers.visible_acknowledged (h : engine.Valid) (h' : engine'.Valid)
    {commitVersion : SnapshotVersion} {mutationResults : List MutationResult}
    {streamToken : ByteString} {emission : Emission}
    (hanswers : Answers engine (.writeResponse commitVersion mutationResults streamToken) engine'
      emission) {key : DocumentKey}
    (hstands : ∀ batch ∈ engine.localStore.mutationQueue.queue.head?, batch.affects key = true →
      engine.Stands mutationResults key →
      visible (engine.localStore.remoteDocumentCache.get key) =
        visible (engine.localStore.localView key)) :
    visible (engine'.localStore.localView key) = visible (engine.localStore.localView key) := by
  obtain ⟨batch, rest, result, hqueue, rfl, -, rfl, hafter⟩ := hanswers.remembered key
  have hpending := hanswers.pendingMutations_eq h hqueue key
  have hshown := h.visible_eq key
  rw [hpending, List.getLast?_append] at hshown
  rw [h'.visible_eq, hafter]
  cases hrest : (pendingMutations engine'.pendingWrites key).getLast? with
  | some mutation =>
    rw [hshown, hrest]
    rfl
  | none =>
    rw [hrest, Option.none_or] at hshown
    rw [List.getLast?_eq_none_iff.mp hrest, List.append_nil] at hpending
    by_cases haffects : result.batch.affects key = true
    · by_cases hahead : engine.Ahead result.mutationResults key
      · rw [if_pos ⟨haffects, (isAhead_iff hqueue haffects).mpr hahead⟩, hshown]
        show visible (result.remoteDocument key) = _
        rw [visible_remoteDocument]
        cases hlast : (result.batch.mutationsOf key).getLast? with
        | some mutation => rfl
        | none =>
          have hnot := MutationBatch.mutationsOf_eq_nil_iff.mp (List.getLast?_eq_none_iff.mp hlast)
          rw [haffects] at hnot
          cases hnot
      · -- What is remembered stays, and nothing later hides it.
        rw [if_neg fun hc => hahead ((isAhead_iff hqueue haffects).mp hc.2)]
        exact hstands result.batch (by rw [hqueue]; rfl) haffects
          ⟨by rw [hqueue]; exact h.not_affects_tail hqueue hpending, hahead⟩
    · have hnil : result.batch.mutationsOf key = [] :=
        MutationBatch.mutationsOf_eq_nil_iff.mpr (Bool.not_eq_true _ ▸ haffects)
      rw [if_neg fun hc => haffects hc.1, hshown, hnil]
      rfl

/-- After a rejection a document is shown as if the batch had never been written. -/
theorem Answers.visible_rejected (h : engine.Valid) (h' : engine'.Valid) {batch : MutationBatch}
    {rest : List MutationBatch} (hqueue : engine.localStore.mutationQueue.queue = batch :: rest)
    {code : ErrorCode} (hinput : engine.input (.streamError code) = .answer (.error code))
    {emission : Emission} (hanswers : Answers engine (.streamError code) engine' emission)
    (key : DocumentKey) : visible (engine'.localStore.localView key) =
      visible (LocalDocumentsView.applyBatches rest
        (engine.localStore.remoteDocumentCache.get key) key) := by
  obtain ⟨write, writes, hline, -⟩ := h.head_write hqueue
  have hpending := hanswers.pendingWrites
  have hremembered : engine'.localStore.remoteDocumentCache.get key =
      engine.localStore.remoteDocumentCache.get key := hanswers.remembered key
  have hline' : engine'.pendingWrites.line = writes := by
    rw [← hpending, hinput]
    unfold Outbox.step
    simp only [hline]
    exact Function.update_self ..
  have hwrites : writes.map (·.mutations) = rest.map (·.mutations) := by
    have hmap := h.map_mutations_line
    rw [hline, hqueue, List.map_cons, List.map_cons] at hmap
    exact (List.cons.inj hmap).2
  rw [h'.visible_eq, hremembered, applyBatches_eq, visible_applyMutations]
  · unfold pendingMutations
    rw [hline', List.flatMap_def, hwrites, ← List.flatMap_def, List.filter_flatMap]
    rfl
  · intro m hm
    obtain ⟨b, hb, hm⟩ := List.mem_flatMap.mp hm
    refine (h.localStore.unconditional engine.currentUser b ?_).mutationsOf m hm
    show b ∈ engine.localStore.mutationQueue.queue
    rw [hqueue]
    exact List.mem_cons_of_mem batch hb

/-- What the answer to the first batch changes of what is shown: an acknowledgment nothing, unless
what is remembered of a document is at least as new as its result, by news of the backend or by an
earlier answer, and then this stays; a rejection takes the batch back and leaves the later ones. -/
theorem answers_shown (h : engine.Reachable) {batch : MutationBatch} {rest : List MutationBatch}
    (hqueue : engine.localStore.mutationQueue.queue = batch :: rest) :
    (∀ commitVersion mutationResults streamToken,
      engine.Possible (.writeResponse commitVersion mutationResults streamToken) →
      ∃ engine' emission, engine.step (.writeResponse commitVersion mutationResults streamToken) =
          .ok (engine', emission) ∧ ∀ key,
        if engine.Ahead mutationResults key then
          visible (engine'.localStore.localView key) = visible (engine.localStore.localView key)
        else engine'.localStore.remoteDocumentCache.get key =
          engine.localStore.remoteDocumentCache.get key) ∧
    ∀ code, engine.Possible (.streamError code) →
      engine.remoteStore.writeStream.handshakeComplete = true →
      engine.remoteStore.writePipeline ≠ [] → isPermanentWriteError code = true →
      ∃ engine' emission, engine.step (.streamError code) = .ok (engine', emission) ∧ ∀ key,
        visible (engine'.localStore.localView key) =
          visible (LocalDocumentsView.applyBatches rest
            (engine.localStore.remoteDocumentCache.get key) key) := by
  have hvalid := h.valid
  refine ⟨fun commitVersion mutationResults streamToken hp => ?_,
    fun code hp hhandshake hnil hcode => ?_⟩
  · obtain ⟨engine', emission, hstep, hvalid', hanswers⟩ := hvalid.step hp
    refine ⟨engine', emission, hstep, fun key => ?_⟩
    split_ifs with hahead
    · exact hanswers.visible_acknowledged hvalid hvalid' fun _ _ _ hstands =>
        absurd hahead hstands.2
    · obtain ⟨batch', rest', result, hqueue', rfl, -, rfl, hafter⟩ := hanswers.remembered key
      rw [hafter, if_neg fun hc => hahead ((isAhead_iff hqueue' hc.1).mp hc.2)]
  · obtain ⟨engine', emission, hstep, hvalid', hanswers⟩ := hvalid.step hp
    have hinput : engine.input (.streamError code) = .answer (.error code) := by
      unfold input
      simp [hhandshake, hnil, hcode]
    exact ⟨engine', emission, hstep, hanswers.visible_rejected hvalid hvalid' hqueue hinput⟩

theorem answers_shown_offlineWrite :
    ∃ (engine engine' : SyncEngine) (emission : Emission),
      engine.step (.writeResponse 1 [⟨1⟩] []) = .ok (engine', emission) ∧
      ∀ key, if engine.Ahead [⟨1⟩] key then
          visible (engine'.localStore.localView key) = visible (engine.localStore.localView key)
        else engine'.localStore.remoteDocumentCache.get key =
          engine.localStore.remoteDocumentCache.get key := by
  obtain ⟨engine, turns, batch, hrun, hqueue, hp⟩ : ∃ engine turns batch,
      exec step (new none) (offlineWrite.take 4) = .ok (engine, turns) ∧
      engine.localStore.mutationQueue.queue = [batch] ∧
      engine.Possible (.writeResponse 1 [⟨1⟩] []) := ⟨_, _, _, rfl, rfl, by decide⟩
  obtain ⟨engine', emission, hstep, hshown⟩ :=
    (answers_shown ⟨none, _, turns, by decide, hrun⟩ hqueue).1 1 [⟨1⟩] [] hp
  exact ⟨engine, engine', emission, hstep, hshown⟩

/-- What is shown is the same if the pending writes of the user and what is remembered are. -/
theorem Valid.visible_congr (h : engine.Valid) (h' : engine'.Valid)
    (hline : engine'.pendingWrites.line = engine.pendingWrites.line) {key : DocumentKey}
    (hcache : engine'.localStore.remoteDocumentCache.get key =
      engine.localStore.remoteDocumentCache.get key) :
    visible (engine'.localStore.localView key) = visible (engine.localStore.localView key) := by
  rw [h.visible_eq, h'.visible_eq, hcache]
  unfold pendingMutations
  rw [hline]

/-! ## Acknowledged data -/

theorem shown_eq_of_nil (h : engine.Valid) {key : DocumentKey}
    (hnil : pendingMutations engine.pendingWrites key = []) :
    engine.shown key = asDocument (engine.localStore.remoteDocumentCache.get key) := by
  unfold shown
  rw [LocalStore.localView_eq, applyBatches_eq, ← h.pendingMutations_eq, hnil]
  rfl

/-- A document with a pending write of the user is shown with local mutations. -/
theorem hasLocalMutations_of_pending (h : engine.Valid) {key : DocumentKey} {doc : Document}
    (hdoc : engine.shown key = some doc)
    (hpending : pendingMutations engine.pendingWrites key ≠ []) :
    doc.hasLocalMutations = true := by
  unfold shown at hdoc
  rw [LocalStore.localView_eq, applyBatches_eq, ← h.pendingMutations_eq] at hdoc
  rcases List.eq_nil_or_concat (pendingMutations engine.pendingWrites key) with hnil | ⟨ms, m, hms⟩
  · exact absurd hnil hpending
  have hm : m.Unconditional := by
    have hmem : m ∈ pendingMutations engine.pendingWrites key := by
      rw [hms]
      simp
    rw [h.pendingMutations_eq] at hmem
    obtain ⟨batch, hbatch, hm⟩ := List.mem_flatMap.mp hmem
    exact (h.localStore.unconditional _ batch hbatch).mutationsOf m hm
  rw [hms, List.concat_eq_append] at hdoc
  unfold applyMutations at hdoc
  rw [List.foldl_append, List.foldl_cons, List.foldl_nil,
    Mutation.applyToLocalView_of_unconditional hm] at hdoc
  cases htype : m.type with
  | set value =>
    rw [htype] at hdoc
    cases hdoc
    rfl
  | delete =>
    rw [htype] at hdoc
    cases hdoc

/-- What is remembered of the document is not an earlier answer with other data than are shown. -/
def AnsweredAlike (engine : SyncEngine) (key : DocumentKey) : Prop :=
  ∀ doc ∈ asDocument (engine.localStore.remoteDocumentCache.get key),
    doc.hasCommittedMutations = true → some doc.data = visible (engine.localStore.localView key)

instance (engine : SyncEngine) (key : DocumentKey) : Decidable (engine.AnsweredAlike key) := by
  unfold AnsweredAlike
  infer_instance

/-- The user stays, no write is rejected, and what the backend sends of documents is in sync; and
where an answer leaves in place what is remembered, because that is as new, this is news of the
backend or an earlier answer with the data that are shown. -/
def Undisturbed (engine : SyncEngine) : EngineEvent → Prop
  | .remoteEvent event => ∀ u ∈ event.documentUpdates.entries, ∀ doc ∈ asDocument (some u.2),
      doc.documentState = .synced
  | .credentialChange user => user = engine.currentUser
  | .streamError code => (engine.remoteStore.writeStream.handshakeComplete &&
      !engine.remoteStore.writePipeline.isEmpty && isPermanentWriteError code) = false
  | .writeResponse _ mutationResults _ => ∀ batch ∈ engine.localStore.mutationQueue.queue.head?,
      ∀ key ∈ batch.keys.keys, engine.Stands mutationResults key → engine.AnsweredAlike key
  | _ => True

instance decidableUndisturbed (engine : SyncEngine) : DecidablePred engine.Undisturbed
  | .remoteEvent event => inferInstanceAs (Decidable (∀ u ∈ event.documentUpdates.entries,
      ∀ doc ∈ asDocument (some u.2), doc.documentState = .synced))
  | .credentialChange user => inferInstanceAs (Decidable (user = engine.currentUser))
  | .streamError _ => inferInstanceAs (Decidable (_ = false))
  | .writeResponse _ mutationResults _ => inferInstanceAs
      (Decidable (∀ batch ∈ engine.localStore.mutationQueue.queue.head?, ∀ key ∈ batch.keys.keys,
        engine.Stands mutationResults key → engine.AnsweredAlike key))
  | .writeMutations .. | .registerPendingWritesCallback _ | .enableNetwork | .disableNetwork
  | .connectivityChanged | .streamOpened | .handshakeResponse _ | .backoffElapsed
  | .idleTimeout => .isTrue trivial

/-- Then only a write, the news of the backend and what stands in place of an answer change what is
shown. -/
theorem Answers.visible_kept (h : engine.Valid) (h' : engine'.Valid) {event : EngineEvent}
    (hu : engine.Undisturbed event) {emission : Emission}
    (hanswers : Answers engine event engine' emission) {key : DocumentKey}
    (hwrite : ∀ mutations callback, event ≠ .writeMutations mutations callback)
    (hremote : ∀ remoteEvent, event ≠ .remoteEvent remoteEvent)
    (hresponse : ∀ commitVersion mutationResults streamToken,
      event = .writeResponse commitVersion mutationResults streamToken →
      ∀ batch ∈ engine.localStore.mutationQueue.queue.head?, batch.affects key = true →
        engine.Stands mutationResults key →
        visible (engine.localStore.remoteDocumentCache.get key) =
          visible (engine.localStore.localView key)) :
    visible (engine'.localStore.localView key) = visible (engine.localStore.localView key) := by
  have hpending := hanswers.pendingWrites
  have hremembered := hanswers.remembered key
  cases event with
  | writeMutations mutations callback => exact absurd rfl (hwrite mutations callback)
  | remoteEvent remoteEvent => exact absurd rfl (hremote remoteEvent)
  | writeResponse commitVersion mutationResults streamToken =>
    exact hanswers.visible_acknowledged h h' (hresponse _ _ _ rfl)
  | credentialChange user =>
    refine h.visible_congr h' ?_ hremembered
    rw [← hpending, show (Outbox.step engine.pendingWrites
      (engine.input (.credentialChange user))).1 = engine.pendingWrites
        from congrArg Prod.fst (if_pos hu)]
  | registerPendingWritesCallback callback =>
    refine h.visible_congr h' ?_ hremembered
    rw [← hpending]
    show (Outbox.step engine.pendingWrites (.wait callback : PendingInput)).1.line = _
    unfold Outbox.step
    simp only
    split_ifs <;> rfl
  | streamError code =>
    have hinput : engine.input (.streamError code) = .nothing :=
      if_neg (by rw [show _ = false from hu]; exact Bool.false_ne_true)
    rw [hinput] at hpending
    exact h.visible_congr h' (congrArg Outbox.line hpending).symm hremembered
  | _ => exact h.visible_congr h' (congrArg Outbox.line hpending).symm hremembered

/-- News that do not mention a document change nothing that is shown of it. -/
theorem Answers.visible_unmentioned (h : engine.Valid) (h' : engine'.Valid) {event : RemoteEvent}
    {emission : Emission} (hanswers : Answers engine (.remoteEvent event) engine' emission)
    {key : DocumentKey} (hfind : event.documentUpdates.find? key = none) :
    visible (engine'.localStore.localView key) = visible (engine.localStore.localView key) := by
  have hremembered : engine'.localStore.remoteDocumentCache.get key = _ := hanswers.remembered key
  rw [hfind] at hremembered
  exact h.visible_congr h' (congrArg Outbox.line hanswers.pendingWrites).symm hremembered

/-- Then no document gets other data with an acknowledgment. -/
theorem Answers.steady (h : engine.Valid) (h' : engine'.Valid) {event : EngineEvent}
    (hu : engine.Undisturbed event) {emission : Emission}
    (hanswers : Answers engine event engine' emission) {key : DocumentKey} {old new : Document}
    (hold : engine.shown key = some old) (hnew : engine'.shown key = some new)
    (hcommitted : new.hasCommittedMutations = true) : old.data = new.data := by
  have hpending := hanswers.pendingWrites
  have hremembered := hanswers.remembered key
  have hvisible : visible (engine'.localStore.localView key) =
      visible (engine.localStore.localView key) → old.data = new.data := by
    intro hsame
    unfold visible at hsame
    rw [show asDocument (engine'.localStore.localView key) = _ from hnew,
      show asDocument (engine.localStore.localView key) = _ from hold] at hsame
    exact (Option.some.inj hsame).symm
  -- Without local mutations nothing is pending, and the document is the one that is remembered.
  have hnil : pendingMutations engine'.pendingWrites key = [] := by
    by_contra hne
    have hlocal := hasLocalMutations_of_pending h' hnew hne
    unfold Document.hasLocalMutations at hlocal
    unfold Document.hasCommittedMutations at hcommitted
    rw [beq_iff_eq] at hlocal hcommitted
    rw [hlocal] at hcommitted
    cases hcommitted
  have hcache := hnew
  rw [shown_eq_of_nil h' hnil] at hcache
  cases event with
  | writeMutations mutations callback =>
    have hwrite := pendingMutations_write engine.pendingWrites ⟨callback, mutations⟩ key
    rw [show (Outbox.step engine.pendingWrites (.write ⟨callback, mutations⟩ : PendingInput)).1 = _
      from hpending, hnil] at hwrite
    rw [shown_eq_of_nil h (List.append_eq_nil_iff.mp hwrite.symm).1,
      ← show engine'.localStore.remoteDocumentCache.get key = _ from hremembered, hcache] at hold
    rw [Option.some.inj hold]
  | remoteEvent event =>
    have hremembered : engine'.localStore.remoteDocumentCache.get key = _ := hremembered
    cases hfind : event.documentUpdates.find? key with
    | none => exact hvisible (hanswers.visible_unmentioned h h' hfind)
    | some doc =>
      rw [hfind] at hremembered
      unfold LocalStore.updated at hremembered
      simp only at hremembered
      split_ifs at hremembered
      · rw [hremembered] at hcache
        cases hcache
      · rw [hremembered] at hcache
        have hsynced := hu (key, doc) (SortedMap.mem_entries.mpr hfind) new hcache
        unfold Document.hasCommittedMutations at hcommitted
        rw [hsynced] at hcommitted
        cases hcommitted
      · exact hvisible
          (h.visible_congr h' (congrArg Outbox.line hpending).symm hremembered)
  | writeResponse commitVersion mutationResults streamToken =>
    refine hvisible (hanswers.visible_acknowledged h h' fun batch hbatch haffects hstands => ?_)
    have hafter : engine'.localStore.remoteDocumentCache.get key =
        engine.localStore.remoteDocumentCache.get key := by
      obtain ⟨batch, rest, result, hqueue, rfl, -, rfl, hafter⟩ := hremembered
      rw [hafter, if_neg fun hc => hstands.2 ((isAhead_iff hqueue hc.1).mp hc.2)]
    rw [hafter] at hcache
    have hkey : key ∈ batch.keys.keys := by
      rw [SortedMap.mem_keys, MutationBatch.contains_keys]
      exact haffects
    have hdata := hu batch hbatch key hkey hstands new hcache hcommitted
    unfold visible at hdata ⊢
    rw [hcache]
    exact hdata
  | _ =>
    exact hvisible (hanswers.visible_kept h h' hu (fun _ _ heq => by cases heq)
      (fun _ heq => by cases heq) (fun _ _ _ heq => by cases heq))

/-! ## A client alone -/

/-- The map of documents after an event. -/
def documentsAfter (db : Firestore) : EngineEvent → Firestore
  | .writeMutations mutations _ => mutations.foldl Mutation.applyToDocuments db
  | _ => db

@[simp] theorem documentsAfter_setData (db : Firestore) (ref : DocumentReference)
    (data : ObjectValue) (callback : CallbackId) :
    documentsAfter db (.writeMutations (setDataMutations ref data) callback) = db.setData ref data :=
  rfl

@[simp] theorem documentsAfter_deleteDocument (db : Firestore) (ref : DocumentReference)
    (callback : CallbackId) :
    documentsAfter db (.writeMutations (deleteDocumentMutations ref) callback) = db.delete ref := rfl

/-- The news of a document tell nothing that is not shown: they are older than what is remembered of
it, or have the data that are shown. -/
def Echoes (engine : SyncEngine) (key : DocumentKey) (doc : MaybeDocument) : Prop :=
  (doc.version ≠ SnapshotVersion.none ∧
    ∃ existing ∈ engine.localStore.remoteDocumentCache.get key, doc.version < existing.version) ∨
  visible (some doc) = visible (engine.localStore.localView key)

instance (engine : SyncEngine) (key : DocumentKey) (doc : MaybeDocument) :
    Decidable (engine.Echoes key doc) := by
  unfold Echoes
  infer_instance

/-- The user stays, no write is rejected, and the backend tells of no writes but the client's: its
news of a document without a pending write tell nothing that is not shown, and where an answer
leaves in place what is remembered, because that is as new, it has the data that are shown. -/
def Alone (engine : SyncEngine) : EngineEvent → Prop
  | .remoteEvent event => ∀ u ∈ event.documentUpdates.entries,
      (∀ doc ∈ asDocument (some u.2), doc.documentState = .synced) ∧
      ((∀ batch ∈ engine.localStore.mutationQueue.queue, batch.affects u.1 = false) →
        engine.Echoes u.1 u.2)
  | .credentialChange user => user = engine.currentUser
  | .streamError code => (engine.remoteStore.writeStream.handshakeComplete &&
      !engine.remoteStore.writePipeline.isEmpty && isPermanentWriteError code) = false
  | .writeResponse _ mutationResults _ => ∀ batch ∈ engine.localStore.mutationQueue.queue.head?,
      ∀ key ∈ batch.keys.keys, engine.Stands mutationResults key →
      visible (engine.localStore.remoteDocumentCache.get key) =
        visible (engine.localStore.localView key)
  | _ => True

instance decidableAlone (engine : SyncEngine) : DecidablePred engine.Alone
  | .remoteEvent event => inferInstanceAs (Decidable (∀ u ∈ event.documentUpdates.entries,
      (∀ doc ∈ asDocument (some u.2), doc.documentState = .synced) ∧
      ((∀ batch ∈ engine.localStore.mutationQueue.queue, batch.affects u.1 = false) →
        engine.Echoes u.1 u.2)))
  | .credentialChange user => inferInstanceAs (Decidable (user = engine.currentUser))
  | .streamError _ => inferInstanceAs (Decidable (_ = false))
  | .writeResponse _ mutationResults _ => inferInstanceAs
      (Decidable (∀ batch ∈ engine.localStore.mutationQueue.queue.head?, ∀ key ∈ batch.keys.keys,
        engine.Stands mutationResults key →
        visible (engine.localStore.remoteDocumentCache.get key) =
          visible (engine.localStore.localView key)))
  | .writeMutations .. | .registerPendingWritesCallback _ | .enableNetwork | .disableNetwork
  | .connectivityChanged | .streamOpened | .handshakeResponse _ | .backoffElapsed
  | .idleTimeout => .isTrue trivial

/-- The documents that are shown are those of the map. -/
def Shows (engine : SyncEngine) (db : Firestore) : Prop :=
  ∀ key, visible (engine.localStore.localView key) = db.lookup key

theorem Alone.undisturbed {event : EngineEvent} (halone : engine.Alone event) :
    engine.Undisturbed event := by
  cases event with
  | remoteEvent event => exact fun u hu => (halone u hu).1
  | writeResponse commitVersion mutationResults streamToken =>
    intro batch hbatch key hkey hstands doc hdoc _
    rw [← halone batch hbatch key hkey hstands]
    unfold visible
    rw [show asDocument _ = some doc from hdoc]
    rfl
  | _ => exact halone

/-- News that tell nothing leave in the cache what is shown. -/
theorem Echoes.visible_updated (h : engine.Valid) {key : DocumentKey} {doc : MaybeDocument}
    (hnil : pendingMutations engine.pendingWrites key = []) (hechoes : engine.Echoes key doc) :
    visible (LocalStore.updated (engine.localStore.remoteDocumentCache.get key) doc) =
      visible (engine.localStore.localView key) := by
  have hshown := h.visible_eq key
  rw [hnil] at hshown
  rcases hechoes with ⟨hversion, existing, hexisting, hlt⟩ | hsame
  · -- Old news are dropped.
    have hold : LocalStore.isNews (engine.localStore.remoteDocumentCache.get key) doc = false := by
      rw [show engine.localStore.remoteDocumentCache.get key = some existing from hexisting]
      unfold LocalStore.isNews
      simp [hlt.ne, hlt.not_gt]
    unfold LocalStore.updated
    rw [if_neg fun hc => hversion hc.2, hold, if_neg Bool.false_ne_true, hshown]
    rfl
  · unfold LocalStore.updated
    split_ifs with hremoval hnews
    · rw [← hsame]
      unfold visible
      rw [Option.isNone_iff_eq_none.mp hremoval.1]
      rfl
    · exact hsame
    · rw [hshown]
      rfl

/-- News of what the client has written change nothing that is shown. -/
theorem Answers.visible_echoed (h : engine.Valid) (h' : engine'.Valid) {event : RemoteEvent}
    (halone : engine.Alone (.remoteEvent event)) {emission : Emission}
    (hanswers : Answers engine (.remoteEvent event) engine' emission) (key : DocumentKey) :
    visible (engine'.localStore.localView key) = visible (engine.localStore.localView key) := by
  cases hfind : event.documentUpdates.find? key with
  | none => exact hanswers.visible_unmentioned h h' hfind
  | some doc =>
    have hremembered : engine'.localStore.remoteDocumentCache.get key = _ := hanswers.remembered key
    rw [hfind] at hremembered
    have hpending : pendingMutations engine'.pendingWrites key =
        pendingMutations engine.pendingWrites key := by
      rw [← show engine.pendingWrites = engine'.pendingWrites from hanswers.pendingWrites]
    cases hlast : (pendingMutations engine.pendingWrites key).getLast? with
    | some mutation =>
      rw [h.visible_eq, h'.visible_eq, hpending, hlast]
      rfl
    | none =>
      have hnil := List.getLast?_eq_none_iff.mp hlast
      have hechoes : engine.Echoes key doc :=
        (halone (key, doc) (SortedMap.mem_entries.mpr hfind)).2 fun batch hbatch => by
          rw [h.pendingMutations_eq, List.flatMap_eq_nil_iff] at hnil
          exact MutationBatch.mutationsOf_eq_nil_iff.mp (hnil batch hbatch)
      rw [h'.visible_eq, hpending, hlast, ← hechoes.visible_updated h hnil, hremembered]
      rfl

/-- A write shows its documents as its last mutations of them leave them. -/
theorem Answers.visible_written (h : engine.Valid) (h' : engine'.Valid) {mutations : List Mutation}
    {callback : CallbackId} {emission : Emission}
    (hanswers : Answers engine (.writeMutations mutations callback) engine' emission)
    (key : DocumentKey) : visible (engine'.localStore.localView key) =
      (((mutations.filter fun m => decide (m.key = key)).getLast?).map Mutation.value).getD
        (visible (engine.localStore.localView key)) := by
  have hwrite := pendingMutations_write engine.pendingWrites ⟨callback, mutations⟩ key
  rw [show (Outbox.step engine.pendingWrites (.write ⟨callback, mutations⟩ : PendingInput)).1 = _
    from hanswers.pendingWrites] at hwrite
  have hremembered : engine'.localStore.remoteDocumentCache.get key = _ := hanswers.remembered key
  rw [h'.visible_eq, hwrite, List.getLast?_append, hremembered, h.visible_eq]
  cases (mutations.filter fun m => decide (m.key = key)).getLast? <;> rfl

theorem Shows.step {db : Firestore} (hshows : engine.Shows db) (h : engine.Valid)
    (h' : engine'.Valid) {event : EngineEvent} (halone : engine.Alone event) {emission : Emission}
    (hanswers : Answers engine event engine' emission) :
    engine'.Shows (documentsAfter db event) := by
  intro key
  cases event with
  | writeMutations mutations callback =>
    rw [hanswers.visible_written h h', hshows key]
    exact (lookup_foldl_applyToDocuments db mutations key).symm
  | remoteEvent event => exact (hanswers.visible_echoed h h' halone key).trans (hshows key)
  | writeResponse commitVersion mutationResults streamToken =>
    refine (hanswers.visible_acknowledged h h' fun batch hbatch haffects hstands => ?_).trans
      (hshows key)
    refine halone batch hbatch key ?_ hstands
    rw [SortedMap.mem_keys, MutationBatch.contains_keys]
    exact haffects
  | _ =>
    exact (hanswers.visible_kept h h' halone.undisturbed (fun _ _ heq => by cases heq)
      (fun _ heq => by cases heq) (fun _ _ _ heq => by cases heq)).trans (hshows key)

/-- The query of a collection finds the documents of the map, in its order. -/
theorem Shows.executeQuery {db : Firestore} (hshows : engine.Shows db) (h : engine.Valid)
    (collection : CollectionReference) :
    ∃ docs, engine.localStore.executeQuery (.ofCollection collection) = .ok docs ∧
      docs.entries.map (fun e => (⟨e.1, e.2.data⟩ : Firestore.QueryDocumentSnapshot)) =
        db.documents collection := by
  obtain ⟨docs, hquery, hfind⟩ := LocalDocumentsView.find?_getDocumentsMatchingCollectionQuery
    engine.localStore.localDocuments h.localStore.mutationQueue h.localStore.readTimes
    (Query.matchesAllDocuments_ofCollection collection)
  refine ⟨docs, hquery, ?_⟩
  have hsorted : (docs.entries.map fun e =>
      (⟨e.1, e.2.data⟩ : Firestore.QueryDocumentSnapshot)).Pairwise fun a b => a.1 < b.1 :=
    List.pairwise_map.mpr docs.sorted
  have hmem : ∀ ref data, (⟨ref, data⟩ : Firestore.QueryDocumentSnapshot) ∈ docs.entries.map
      (fun e => (⟨e.1, e.2.data⟩ : Firestore.QueryDocumentSnapshot)) ↔
        (⟨ref, data⟩ : Firestore.QueryDocumentSnapshot) ∈ db.documents collection := by
    intro ref data
    rw [Firestore.mem_documents, ← hshows ref, List.mem_map]
    constructor
    · rintro ⟨⟨ref', doc⟩, he, heq⟩
      obtain ⟨rfl, hdata⟩ := Sigma.mk.inj heq
      obtain rfl := eq_of_heq hdata
      rw [SortedMap.mem_entries, hfind] at he
      split_ifs at he with hparent
      refine ⟨?_, hparent⟩
      unfold visible
      rw [show asDocument (engine.localStore.localView ref') = some doc from he]
      rfl
    · rintro ⟨hvisible, hparent⟩
      unfold visible at hvisible
      obtain ⟨doc, hdoc, rfl⟩ := Option.map_eq_some_iff.mp hvisible
      refine ⟨(ref, doc), ?_, rfl⟩
      rw [SortedMap.mem_entries, hfind]
      exact (if_pos hparent).trans hdoc
  have hnodup : (docs.entries.map fun e =>
      (⟨e.1, e.2.data⟩ : Firestore.QueryDocumentSnapshot)).Nodup :=
    hsorted.imp fun hlt heq => hlt.ne (congrArg _ heq)
  have hperm : (docs.entries.map fun e =>
      (⟨e.1, e.2.data⟩ : Firestore.QueryDocumentSnapshot)).Perm (db.documents collection) := by
    rw [List.perm_ext_iff_of_nodup hnodup Firestore.nodup_documents]
    exact fun a => hmem a.1 a.2
  refine List.Perm.eq_of_pairwise ?_
    (hsorted.imp fun hlt => hlt.le) Firestore.pairwise_documents hperm
  intro a b ha hb hab hba
  have hkey : a.1 = b.1 := DocumentReference.ext (le_antisymm hab hba)
  exact List.inj_on_of_nodup_map Firestore.nodup_documents_keys (hperm.mem_iff.mp ha) hb hkey

/-- While a client is alone with its writes, its queries see what the calls so far make of the map
of documents, at once, through every change of the network and whenever the backend sends these
writes back. -/
theorem own_writes_shown (user : User) (events : List EngineEvent)
    (h : Along step (fun engine event => engine.Possible event ∧ engine.Alone event) (new user)
      events) :
    ∃ engine turns, exec step (new user) events = .ok (engine, turns) ∧
      ∀ collection, ∃ docs, engine.localStore.executeQuery (.ofCollection collection) = .ok docs ∧
        docs.entries.map (fun e => (⟨e.1, e.2.data⟩ : Firestore.QueryDocumentSnapshot)) =
          Firestore.documents (events.foldl documentsAfter ∅) collection := by
  have key : ∀ (events : List EngineEvent) (engine : SyncEngine) (db : Firestore), engine.Valid →
      engine.Shows db → Along step (fun engine event => engine.Possible event ∧ engine.Alone event)
        engine events →
      ∃ engine' turns, exec step engine events = .ok (engine', turns) ∧ engine'.Valid ∧
        engine'.Shows (events.foldl documentsAfter db) := by
    intro events
    induction events with
    | nil => exact fun engine db hvalid hshows _ => ⟨engine, [], rfl, hvalid, hshows⟩
    | cons event events ih =>
      intro engine db hvalid hshows hP
      obtain ⟨engine₁, emission, hstep, hvalid₁, hanswers⟩ := hvalid.step hP.head.1
      obtain ⟨engine', turns, hrun, hvalid', hshows'⟩ := ih engine₁ (documentsAfter db event) hvalid₁
        (hshows.step hvalid hvalid₁ hP.head.2 hanswers) ((along_cons hstep).mp hP).2
      exact ⟨engine', _, exec_cons hstep hrun, hvalid', hshows'⟩
  obtain ⟨engine, turns, hrun, hvalid, hshows⟩ := key events (new user) ∅ (valid_new user)
    (fun _ => rfl) h
  exact ⟨engine, turns, hrun, fun collection => hshows.executeQuery hvalid collection⟩

/-- A write whose document comes back with the backend's news before the answer, with the version of
the answer. -/
def overtakenWrite : List EngineEvent :=
  offlineWrite.take 4 ++ [.remoteEvent ⟨1, SortedMap.empty.insert (grocery "Milk")
    (.document ⟨[], 1, .synced⟩)⟩, .writeResponse 1 [⟨1⟩] []]

theorem own_writes_shown_overtakenWrite :
    ∃ engine turns, exec step (new none) overtakenWrite = .ok (engine, turns) ∧
      ∀ collection, ∃ docs, engine.localStore.executeQuery (.ofCollection collection) = .ok docs ∧
        docs.entries.map (fun e => (⟨e.1, e.2.data⟩ : Firestore.QueryDocumentSnapshot)) =
          Firestore.documents (overtakenWrite.foldl documentsAfter ∅) collection :=
  own_writes_shown none overtakenWrite (by decide)

end SyncEngine

end GroceryApp.FirestoreCore
