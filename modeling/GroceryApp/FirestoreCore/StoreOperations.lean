import GroceryApp.FirestoreCore.LocalStore

/-!
# What the operations of the local store do

One theorem for each operation: no assertion fails, what becomes of the queue and of the remembered
documents, and that the answer reports every document that is shown differently. They hold of the
stores with valid queues of plain writes (`LocalStore.Valid`), which the operations keep.
-/

namespace GroceryApp.FirestoreCore

/-! ## A batch on one document -/

theorem MutationBatch.contains_keys (batch : MutationBatch) (key : DocumentKey) :
    batch.keys.contains key = batch.affects key := by
  rw [Bool.eq_iff_iff]
  unfold MutationBatch.keys MutationBatch.affects
  rw [SortedMap.contains_foldl_insert]
  simp [SortedMap.contains]

namespace MutationBatchResult

variable {result : MutationBatchResult} {key : DocumentKey} {maybeDoc : Option MaybeDocument}

/-- The last mutation of a document, with its result. -/
def lastOf (result : MutationBatchResult) (key : DocumentKey) : Option (Mutation × MutationResult) :=
  ((result.batch.mutations.zip result.mutationResults).filter
    fun m => decide (m.1.key = key)).getLast?

/-- The remote document the batch leaves. -/
def remoteDocument (result : MutationBatchResult) (key : DocumentKey) : Option MaybeDocument :=
  (result.lastOf key).map fun m => m.1.applyToRemoteDocument m.2.version

theorem find?_docVersions :
    result.docVersions.find? key = (result.lastOf key).map fun m => m.2.version := by
  unfold docVersions
  rw [SortedMap.find?_foldl_insert_last, SortedMap.find?_empty, Option.or_none]
  rfl

theorem applyToRemoteDocument_eq :
    result.batch.applyToRemoteDocument maybeDoc key result.mutationResults =
      .ok ((result.remoteDocument key).or maybeDoc) := by
  unfold MutationBatch.applyToRemoteDocument remoteDocument lastOf
  rw [if_pos result.sameLength, SortedMap.foldl_keep_last]

theorem map_fst_lastOf :
    (result.lastOf key).map Prod.fst = (result.batch.mutationsOf key).getLast? := by
  unfold lastOf MutationBatch.mutationsOf
  rw [← List.getLast?_map]
  congr 1
  have hzip : (result.batch.mutations.zip result.mutationResults).map Prod.fst =
      result.batch.mutations := List.map_fst_zip result.sameLength.ge
  conv_rhs => rw [← hzip]
  rw [List.filter_map]
  rfl

theorem lastOf_isSome (key : DocumentKey) :
    (result.lastOf key).isSome = result.batch.affects key := by
  rw [← Option.isSome_map (f := Prod.fst), map_fst_lastOf, Bool.eq_iff_iff,
    List.getLast?_isSome, ← Bool.not_eq_false, ← MutationBatch.mutationsOf_eq_nil_iff]

end MutationBatchResult

namespace LocalDocumentsView

variable {batches : List MutationBatch} {key : DocumentKey} {d d' : Option MaybeDocument}

theorem asDocument_getD (maybeDoc : Option MaybeDocument) :
    asDocument (some (maybeDoc.getD unknownDocument)) = asDocument maybeDoc := by
  cases maybeDoc <;> rfl

/-- A missing document and one known not to exist stay alike. -/
theorem asDocument_applyBatches_congr (h : asDocument d = asDocument d') :
    asDocument (applyBatches batches d key) = asDocument (applyBatches batches d' key) := by
  unfold applyBatches
  induction batches generalizing d d' with
  | nil => exact h
  | cons batch batches ih =>
    refine ih ?_
    show asDocument (batch.applyToLocalDocument d key) =
      asDocument (batch.applyToLocalDocument d' key)
    rw [MutationBatch.applyToLocalDocument_eq, MutationBatch.applyToLocalDocument_eq]
    unfold applyMutations
    generalize batch.mutationsOf key = ms
    induction ms generalizing d d' with
    | nil => exact h
    | cons m ms ih => exact ih (m.asDocument_applyToLocalView_congr h)

end LocalDocumentsView

namespace LocalStore

/-- What is shown of a document. -/
def localView (store : LocalStore) (key : DocumentKey) : Option MaybeDocument :=
  store.localDocuments.localView key

/-- The queues are valid and hold plain writes only, and every remembered document has been read at
some version. -/
structure Valid (store : LocalStore) : Prop where
  queues : ∀ user, (store.mutationQueues user).Valid
  unconditional : ∀ user, ∀ batch ∈ (store.mutationQueues user).queue, batch.Unconditional
  readTimes : LocalDocumentsView.ReadTimes store.remoteDocumentCache

/-- The changes are all documents that are shown differently in the new state, as it shows them. -/
structure Reports (store store' : LocalStore) (changes : MaybeDocumentMap) : Prop where
  reported : ∀ key doc, changes.find? key = some doc →
    asDocument (some doc) = asDocument (store'.localView key)
  frame : ∀ key, changes.find? key = none → store'.localView key = store.localView key

variable {store store' : LocalStore} {key : DocumentKey}

theorem valid_new (user : User) : (new user).Valid where
  queues _ := MemoryMutationQueue.valid_new
  unconditional _ _ h := absurd h List.not_mem_nil
  readTimes _ _ h := by cases h

@[simp] theorem mutationQueue_setMutationQueue (q : MemoryMutationQueue) :
    (store.setMutationQueue q).mutationQueue = q := Function.update_self ..

@[simp] theorem remoteDocumentCache_setMutationQueue (q : MemoryMutationQueue) :
    (store.setMutationQueue q).remoteDocumentCache = store.remoteDocumentCache := rfl

theorem localView_eq (store : LocalStore) (key : DocumentKey) :
    store.localView key = LocalDocumentsView.applyBatches store.mutationQueue.queue
      (store.remoteDocumentCache.get key) key := rfl

theorem Valid.mutationQueue (hs : store.Valid) : store.mutationQueue.Valid := hs.queues store.user

theorem Valid.setMutationQueue (hs : store.Valid) {q : MemoryMutationQueue} (hq : q.Valid)
    (hu : ∀ batch ∈ q.queue, batch.Unconditional) : (store.setMutationQueue q).Valid where
  queues user := by
    unfold LocalStore.setMutationQueue
    by_cases h : user = store.user
    · subst h
      simpa using hq
    · simpa [Function.update_of_ne h] using hs.queues user
  unconditional user := by
    unfold LocalStore.setMutationQueue
    by_cases h : user = store.user
    · subst h
      simpa using hu
    · simpa [Function.update_of_ne h] using hs.unconditional user
  readTimes := hs.readTimes

/-- Reading documents again reports them. -/
theorem reports_getDocuments (store : LocalStore) (hs : store'.Valid) (keys : DocumentKeySet)
    (hframe : ∀ key, keys.contains key = false → store'.localView key = store.localView key) :
    ∃ changes, store'.localDocuments.getDocuments keys = .ok changes ∧
      Reports store store' changes := by
  obtain ⟨changes, hok, hfind⟩ :=
    LocalDocumentsView.find?_getDocuments store'.localDocuments hs.mutationQueue keys
  refine ⟨changes, hok, fun key doc h => ?_, fun key h => ?_⟩
  · rw [hfind] at h
    split_ifs at h with hkey
    rw [← Option.some.inj h]
    exact LocalDocumentsView.asDocument_getD _
  · rw [hfind] at h
    split_ifs at h with hkey
    exact hframe key (Bool.not_eq_true _ ▸ hkey)

end LocalStore

namespace MutationBatch

variable {key : DocumentKey}

theorem mutationsOf_ne_nil {batch : MutationBatch} (h : batch.affects key = true) :
    batch.mutationsOf key ≠ [] := fun hnil => by
  rw [mutationsOf_eq_nil_iff.mp hnil] at h
  cases h

theorem applyToLocalDocument_isSome (batch : MutationBatch) (hu : batch.Unconditional)
    (h : batch.affects key = true) (maybeDoc : Option MaybeDocument) :
    (batch.applyToLocalDocument maybeDoc key).isSome := by
  rw [applyToLocalDocument_eq]
  exact applyMutations_isSome hu.mutationsOf (mutationsOf_ne_nil h) maybeDoc

/-- A write does the same to a document about which nothing is known as to a missing one. -/
theorem applyToLocalDocument_known (batch : MutationBatch) (hu : batch.Unconditional)
    (h : batch.affects key = true) (maybeDoc : Option MaybeDocument) :
    batch.applyToLocalDocument (some (maybeDoc.getD LocalDocumentsView.unknownDocument)) key =
      batch.applyToLocalDocument maybeDoc key := by
  rw [applyToLocalDocument_eq, applyToLocalDocument_eq]
  refine applyMutations_congr hu.mutationsOf (mutationsOf_ne_nil h) ?_
  cases maybeDoc <;> rfl

/-- Applied to a set of documents once for each of its mutations, a batch of plain writes has been
applied to each document once. -/
theorem find?_applyToLocalDocumentSet (batch : MutationBatch)
    (hu : batch.Unconditional) (documentSet : MaybeDocumentMap) (key : DocumentKey) :
    (batch.applyToLocalDocumentSet documentSet).find? key =
      if batch.affects key = true then batch.applyToLocalDocument (documentSet.find? key) key
      else documentSet.find? key := by
  have hfold : ∀ (mutations : List Mutation) (docs : MaybeDocumentMap),
      (∀ m ∈ mutations, m ∈ batch.mutations) →
      (mutations.foldl batch.applyMutationTo docs).find? key =
      if (mutations.any fun m => m.key == key) = true then
        batch.applyToLocalDocument (docs.find? key) key
      else docs.find? key := by
    intro mutations
    induction mutations with
    | nil => exact fun docs _ => rfl
    | cons m mutations ih =>
      intro docs hmem
      rw [List.foldl_cons, ih _ fun m' hm' => hmem m' (List.mem_cons_of_mem m hm'), List.any_cons]
      have hne : batch.mutationsOf m.key ≠ [] := by
        refine List.ne_nil_of_mem (a := m) (List.mem_filter.mpr ⟨hmem m List.mem_cons_self, ?_⟩)
        simp
      obtain ⟨doc, hdoc⟩ := Option.isSome_iff_exists.mp
        (applyMutations_isSome hu.mutationsOf hne (docs.find? m.key))
      rw [← MutationBatch.applyToLocalDocument_eq] at hdoc
      unfold applyMutationTo
      rw [hdoc]
      by_cases hk : m.key = key
      · subst hk
        have hidem : batch.applyToLocalDocument (some doc) m.key = some doc := by
          rw [← hdoc, MutationBatch.applyToLocalDocument_eq, MutationBatch.applyToLocalDocument_eq,
            applyMutations_idem hu.mutationsOf]
        simp [SortedMap.find?_insert_self, hidem, hdoc]
      · simp [SortedMap.find?_insert_of_ne (Ne.symm hk), hk]
  exact hfold batch.mutations documentSet fun _ h => h

end MutationBatch

namespace LocalStore

variable {store store' : LocalStore} {key : DocumentKey}

/-- A write is queued at the back and shown at once. -/
theorem Valid.writeLocally (hs : store.Valid) {mutations : List Mutation} (hne : mutations ≠ [])
    (hu : ∀ m ∈ mutations, m.Unconditional) :
    ∃ changes q, store.writeLocally mutations =
        .ok (⟨store.mutationQueue.nextBatchId, changes⟩, store.setMutationQueue q) ∧
      q.queue = store.mutationQueue.queue ++ [⟨store.mutationQueue.nextBatchId, mutations, hne⟩] ∧
      q.nextBatchId = store.mutationQueue.nextBatchId + 1 ∧ (store.setMutationQueue q).Valid ∧
      Reports store (store.setMutationQueue q) changes := by
  set batch : MutationBatch := ⟨store.mutationQueue.nextBatchId, mutations, hne⟩ with hbatch
  set keys : DocumentKeySet :=
    mutations.foldl (fun keys mutation => keys.insert mutation.key ()) .empty with hkeys
  obtain ⟨existing, hexisting, hfind⟩ :=
    LocalDocumentsView.find?_getDocuments store.localDocuments hs.mutationQueue keys
  obtain ⟨q, hadd, hqueue, hnext, hq⟩ := hs.mutationQueue.add hne
  have hcontains : ∀ key, keys.contains key = batch.affects key := fun key =>
    MutationBatch.contains_keys batch key
  have hvalid : (store.setMutationQueue q).Valid := by
    refine hs.setMutationQueue hq fun b hb => ?_
    rw [hqueue] at hb
    rcases List.mem_append.mp hb with hb | hb
    · exact hs.unconditional store.user b hb
    · rw [List.mem_singleton.mp hb]
      exact hu
  have hview : ∀ key, (store.setMutationQueue q).localView key =
      batch.applyToLocalDocument (store.localView key) key := fun key => by
    rw [localView_eq, localView_eq, mutationQueue_setMutationQueue, hqueue]
    exact List.foldl_append
  have hchanges : ∀ key, (batch.applyToLocalDocumentSet existing).find? key =
      if batch.affects key = true then (store.setMutationQueue q).localView key else none := by
    intro key
    rw [batch.find?_applyToLocalDocumentSet hu, hfind, hcontains, hview]
    by_cases haff : batch.affects key = true
    · simp only [if_pos haff]
      exact batch.applyToLocalDocument_known hu haff (store.localView key)
    · simp only [if_neg haff]
  refine ⟨batch.applyToLocalDocumentSet existing, q, ?_, hqueue, hnext, hvalid, ?_, ?_⟩
  · unfold LocalStore.writeLocally
    simp only [← hkeys, hexisting, hadd]
    rfl
  · intro key doc h
    rw [hchanges] at h
    split_ifs at h
    rw [h]
  · intro key h
    rw [hchanges] at h
    by_cases haff : batch.affects key = true
    · have hsome := batch.applyToLocalDocument_isSome hu haff (store.localView key)
      rw [if_pos haff, hview] at h
      rw [h] at hsome
      cases hsome
    · rw [hview, LocalDocumentsView.applyToLocalDocument_of_not_affects (Bool.not_eq_true _ ▸ haff)]

@[simp] theorem setMutationQueue_setMutationQueue (q q' : MemoryMutationQueue) :
    (store.setMutationQueue q).setMutationQueue q' = store.setMutationQueue q' := by
  show LocalStore.mk _ _ _ _ = LocalStore.mk _ _ _ _
  congr 1
  exact Function.update_idem ..

/-- Whether the acknowledgment is newer than what is remembered of the document. -/
def isAhead (result : MutationBatchResult) (cache : RemoteDocumentCache) (key : DocumentKey) :
    Bool :=
  (cache.get key).all fun doc => decide (doc.version < (result.docVersions.find? key).getD 0)

theorem applyBatchResultTo_eq {result : MutationBatchResult} {cache : RemoteDocumentCache}
    (h : result.batch.affects key = true) :
    ∃ doc, result.remoteDocument key = some doc ∧ applyBatchResultTo result cache key =
      .ok (if isAhead result cache key = true then cache.add key doc result.commitVersion
        else cache) := by
  obtain ⟨m, hm⟩ := Option.isSome_iff_exists.mp
    ((MutationBatchResult.lastOf_isSome key).trans h)
  have hdoc : result.remoteDocument key = some (m.1.applyToRemoteDocument m.2.version) := by
    unfold MutationBatchResult.remoteDocument
    rw [hm]
    rfl
  refine ⟨_, hdoc, ?_⟩
  unfold applyBatchResultTo isAhead
  rw [MutationBatchResult.find?_docVersions, hm, MutationBatchResult.applyToRemoteDocument_eq, hdoc]
  simp only [Option.map_some, Option.getD_some]
  split_ifs <;> rfl

theorem foldlM_applyBatchResultTo {result : MutationBatchResult}
    (htime : SnapshotVersion.none < result.commitVersion) (keys : List DocumentKey)
    (hnodup : keys.Nodup) (haff : ∀ key ∈ keys, result.batch.affects key = true)
    (cache : RemoteDocumentCache) (hcache : LocalDocumentsView.ReadTimes cache) :
    ∃ cache', keys.foldlM (applyBatchResultTo result) cache = .ok cache' ∧
      LocalDocumentsView.ReadTimes cache' ∧ ∀ key, cache'.get key =
        if key ∈ keys ∧ isAhead result cache key = true then result.remoteDocument key
        else cache.get key := by
  induction keys generalizing cache with
  | nil => exact ⟨cache, rfl, hcache, fun key => by simp⟩
  | cons k keys ih =>
    obtain ⟨hk, hkeys⟩ := List.nodup_cons.mp hnodup
    obtain ⟨doc, hdoc, hstep⟩ :=
      applyBatchResultTo_eq (haff k List.mem_cons_self)
    set cache₁ := if isAhead result cache k = true then cache.add k doc result.commitVersion
      else cache with hcache₁
    have htimes₁ : LocalDocumentsView.ReadTimes cache₁ := by
      rw [hcache₁]
      split_ifs
      · intro key entry h
        unfold RemoteDocumentCache.add at h
        rw [SortedMap.find?_insert] at h
        split_ifs at h with hkey
        · obtain rfl := Option.some.inj h
          exact htime
        · exact hcache key entry h
      · exact hcache
    have hget₁ : ∀ key, key ≠ k → cache₁.get key = cache.get key := by
      intro key hne
      rw [hcache₁]
      split_ifs
      · rw [RemoteDocumentCache.get_add, if_neg hne]
      · rfl
    obtain ⟨cache', hfold, htimes, hget⟩ := ih hkeys
      (fun key h => haff key (List.mem_cons_of_mem k h)) cache₁ htimes₁
    refine ⟨cache', ?_, htimes, fun key => ?_⟩
    · rw [List.foldlM_cons, hstep]
      exact hfold
    · rw [hget]
      by_cases hkey : key = k
      · subst hkey
        rw [if_neg fun h => hk h.1, hcache₁]
        by_cases hahead : isAhead result cache key = true
        · rw [if_pos hahead, if_pos ⟨List.mem_cons_self, hahead⟩, RemoteDocumentCache.get_add,
            if_pos rfl, hdoc]
        · rw [if_neg hahead, if_neg fun h => hahead h.2]
      · have hahead : isAhead result cache₁ key = isAhead result cache key := by
          unfold isAhead
          rw [hget₁ key hkey]
        rw [hahead, hget₁ key hkey]
        simp only [List.mem_cons, hkey, false_or]

/-- The first batch of the queue is acknowledged: it leaves the queue, and where the answer is
ahead of what is remembered its document is remembered instead. -/
theorem Valid.acknowledgeBatch (hs : store.Valid) {head : MutationBatch} {rest : List MutationBatch}
    (hqueue : store.mutationQueue.queue = head :: rest) {result : MutationBatchResult}
    (hbatch : result.batch = head) (htime : SnapshotVersion.none < result.commitVersion) :
    ∃ changes q cache, store.acknowledgeBatch result =
        .ok (changes, { store.setMutationQueue q with remoteDocumentCache := cache }) ∧
      q.queue = rest ∧ q.nextBatchId = store.mutationQueue.nextBatchId ∧
      (∀ key, cache.get key =
        if head.affects key = true ∧ isAhead result store.remoteDocumentCache key = true then
          result.remoteDocument key else store.remoteDocumentCache.get key) ∧
      { store.setMutationQueue q with remoteDocumentCache := cache }.Valid ∧
      Reports store { store.setMutationQueue q with remoteDocumentCache := cache } changes := by
  subst hbatch
  obtain ⟨q₁, hack, hq₁, hnext₁, hvalid₁⟩ :=
    hs.mutationQueue.acknowledge hqueue result.streamToken
  obtain ⟨q, hremove, hq, hnext, hvalidq⟩ := hvalid₁.remove (hq₁.trans hqueue)
  obtain ⟨cache, hfold, htimes, hget⟩ := foldlM_applyBatchResultTo htime result.batch.keys.keys
    SortedMap.nodup_keys (fun key h => by
      rwa [SortedMap.mem_keys, MutationBatch.contains_keys] at h)
    store.remoteDocumentCache hs.readTimes
  simp only [SortedMap.mem_keys, MutationBatch.contains_keys] at hget
  set store' : LocalStore :=
    { store.setMutationQueue q with remoteDocumentCache := cache } with hstore'
  have hvalid : store'.Valid := by
    have h := hs.setMutationQueue hvalidq fun b hb => by
      rw [hq] at hb
      exact hs.unconditional store.user b (by
        show b ∈ store.mutationQueue.queue
        rw [hqueue]
        exact List.mem_cons_of_mem _ hb)
    exact ⟨h.queues, h.unconditional, htimes⟩
  have hqueue' : store'.mutationQueue = q := Function.update_self ..
  obtain ⟨changes, hdocs, hreports⟩ := reports_getDocuments store hvalid result.batch.keys
    (fun key hkey => by
      rw [MutationBatch.contains_keys] at hkey
      rw [localView_eq, localView_eq, hqueue', hq, hqueue]
      show LocalDocumentsView.applyBatches rest (cache.get key) key = _
      rw [hget, if_neg (by rw [hkey]; rintro ⟨h, -⟩; cases h)]
      unfold LocalDocumentsView.applyBatches
      rw [List.foldl_cons, LocalDocumentsView.applyToLocalDocument_of_not_affects hkey])
  refine ⟨changes, q, cache, ?_, hq, hnext.trans hnext₁, hget, hvalid, hreports⟩
  have hconsistent : store'.mutationQueue.performConsistencyCheck = .ok () := by
    rw [hqueue']
    exact hvalidq.consistent
  have happly : (store.setMutationQueue q₁).applyBatchResult result = .ok store' := by
    unfold applyBatchResult
    simp only [remoteDocumentCache_setMutationQueue, mutationQueue_setMutationQueue, hfold, hremove,
      setMutationQueue_setMutationQueue, bind, Except.bind, pure, Except.pure]
    rfl
  unfold LocalStore.acknowledgeBatch
  simp only [hack, happly, hconsistent, hdocs, bind, Except.bind, pure, Except.pure]
  rfl

end LocalStore

theorem LocalDocumentsView.applyBatches_of_not_affects {batches : List MutationBatch}
    {key : DocumentKey} {maybeDoc : Option MaybeDocument}
    (h : ∀ batch ∈ batches, batch.affects key = false) :
    applyBatches batches maybeDoc key = maybeDoc := by
  unfold applyBatches
  induction batches with
  | nil => rfl
  | cons batch batches ih =>
    rw [List.foldl_cons, applyToLocalDocument_of_not_affects (h batch List.mem_cons_self)]
    exact ih fun b hb => h b (List.mem_cons_of_mem batch hb)

namespace LocalStore

variable {store store' : LocalStore} {key : DocumentKey}

/-- The first batch of the queue is rejected: it leaves the queue, and nothing is remembered. -/
theorem Valid.rejectBatch (hs : store.Valid) {head : MutationBatch} {rest : List MutationBatch}
    (hqueue : store.mutationQueue.queue = head :: rest) :
    ∃ changes q, store.rejectBatch head.batchId = .ok (changes, store.setMutationQueue q) ∧
      q.queue = rest ∧ q.nextBatchId = store.mutationQueue.nextBatchId ∧
      (store.setMutationQueue q).Valid ∧ Reports store (store.setMutationQueue q) changes := by
  have hlookup := hs.mutationQueue.lookup_of_mem (by rw [hqueue]; exact
    List.mem_cons_self)
  obtain ⟨q, hremove, hq, hnext, hvalidq⟩ := hs.mutationQueue.remove hqueue
  have hvalid : (store.setMutationQueue q).Valid := hs.setMutationQueue hvalidq fun b hb => by
    rw [hq] at hb
    exact hs.unconditional store.user b (by
      show b ∈ store.mutationQueue.queue
      rw [hqueue]
      exact List.mem_cons_of_mem _ hb)
  obtain ⟨changes, hdocs, hreports⟩ := reports_getDocuments store hvalid head.keys
    (fun key hkey => by
      rw [MutationBatch.contains_keys] at hkey
      rw [localView_eq, localView_eq, mutationQueue_setMutationQueue, hq, hqueue]
      unfold LocalDocumentsView.applyBatches
      rw [List.foldl_cons, LocalDocumentsView.applyToLocalDocument_of_not_affects hkey]
      rfl)
  refine ⟨changes, q, ?_, hq, hnext, hvalid, hreports⟩
  unfold LocalStore.rejectBatch
  simp only [hlookup, hremove, mutationQueue_setMutationQueue, hvalidq.consistent, hdocs, bind,
    Except.bind, pure, Except.pure]

/-- What news of a document leaves of what is remembered of it. -/
def updated (existing : Option MaybeDocument) (doc : MaybeDocument) : Option MaybeDocument :=
  if (asDocument (some doc)).isNone ∧ doc.version = SnapshotVersion.none then none
  else if isNews existing doc then some doc else existing

/-- The changed documents are those that differ from the ones remembered before. -/
def Tracks (existing : RemoteDocumentCache)
    (state : RemoteDocumentCache × OptionalMaybeDocumentMap) : Prop :=
  ∀ key, (state.2.find? key = none → state.1.get key = existing.get key) ∧
    ∀ base, state.2.find? key = some base → asDocument base = asDocument (state.1.get key)

theorem applyDocumentUpdate_spec {snapshotVersion : SnapshotVersion} {existing : RemoteDocumentCache}
    {state : RemoteDocumentCache × OptionalMaybeDocumentMap} {doc : MaybeDocument}
    (hwf : snapshotVersion = SnapshotVersion.none →
      (asDocument (some doc)).isNone ∧ doc.version = SnapshotVersion.none)
    (hsame : state.1.get key = existing.get key) (htracks : Tracks existing state)
    (htimes : LocalDocumentsView.ReadTimes state.1) :
    ∃ state', applyDocumentUpdate snapshotVersion existing state (key, doc) = .ok state' ∧
      Tracks existing state' ∧ LocalDocumentsView.ReadTimes state'.1 ∧
      ∀ key', state'.1.get key' =
        if key' = key then updated (existing.get key) doc else state.1.get key' := by
  unfold applyDocumentUpdate updated
  simp only
  split_ifs with hremoval hnews hzero
  · refine ⟨_, rfl, fun key' => ?_, fun key' entry h => ?_, fun key' => ?_⟩
    · simp only [SortedMap.find?_insert, RemoteDocumentCache.get_remove]
      split_ifs with hkey
      · refine ⟨fun h => (by cases h), fun base h => ?_⟩
        rw [← Option.some.inj h, Option.isNone_iff_eq_none.mp hremoval.1]
        rfl
      · exact htracks key'
    · unfold RemoteDocumentCache.remove at h
      rw [SortedMap.find?_erase] at h
      split_ifs at h
      exact htimes key' entry h
    · exact RemoteDocumentCache.get_remove
  · exact absurd (hwf hzero) hremoval
  · refine ⟨_, rfl, fun key' => ?_, fun key' entry h => ?_, fun key' => ?_⟩
    · simp only [SortedMap.find?_insert, RemoteDocumentCache.get_add]
      split_ifs with hkey
      · exact ⟨fun h => (by cases h), fun base h => by rw [← Option.some.inj h]⟩
      · exact htracks key'
    · unfold RemoteDocumentCache.add at h
      rw [SortedMap.find?_insert] at h
      split_ifs at h
      · rw [← Option.some.inj h]
        exact Nat.pos_of_ne_zero hzero
      · exact htimes key' entry h
    · exact RemoteDocumentCache.get_add
  · refine ⟨state, rfl, htracks, htimes, fun key' => ?_⟩
    split_ifs with hkey
    · rw [hkey, hsame]
    · rfl

theorem foldlM_applyDocumentUpdate {snapshotVersion : SnapshotVersion}
    {existing : RemoteDocumentCache} (updates : List (DocumentKey × MaybeDocument))
    (hsorted : updates.Pairwise fun a b => a.1 < b.1)
    (hwf : snapshotVersion = SnapshotVersion.none → ∀ u ∈ updates,
      (asDocument (some u.2)).isNone ∧ u.2.version = SnapshotVersion.none)
    (state : RemoteDocumentCache × OptionalMaybeDocumentMap)
    (hsame : ∀ u ∈ updates, state.1.get u.1 = existing.get u.1) (htracks : Tracks existing state)
    (htimes : LocalDocumentsView.ReadTimes state.1) :
    ∃ state', updates.foldlM (applyDocumentUpdate snapshotVersion existing) state = .ok state' ∧
      Tracks existing state' ∧ LocalDocumentsView.ReadTimes state'.1 ∧
      ∀ key, state'.1.get key = match SortedMap.findEntry key updates with
        | some doc => updated (existing.get key) doc
        | none => state.1.get key := by
  induction updates generalizing state with
  | nil => exact ⟨state, rfl, htracks, htimes, fun _ => rfl⟩
  | cons u updates ih =>
    obtain ⟨hu, hsorted⟩ := List.pairwise_cons.mp hsorted
    obtain ⟨state₁, hstep, htracks₁, htimes₁, hget₁⟩ := applyDocumentUpdate_spec
      (fun h => hwf h u List.mem_cons_self) (hsame u List.mem_cons_self) htracks htimes
    obtain ⟨state', hfold, htracks', htimes', hget⟩ := ih hsorted
      (fun h v hv => hwf h v (List.mem_cons_of_mem u hv)) state₁ (fun v hv => by
        rw [hget₁, if_neg (hu v hv).ne']
        exact hsame v (List.mem_cons_of_mem u hv)) htracks₁ htimes₁
    refine ⟨state', ?_, htracks', htimes', fun key => ?_⟩
    · rw [List.foldlM_cons, hstep]
      exact hfold
    · rw [hget, SortedMap.findEntry]
      by_cases hkey : u.1 = key
      · subst hkey
        rw [SortedMap.findEntry_eq_none fun v hv => (hu v hv).ne', if_pos rfl, hget₁, if_pos rfl]
      · rw [if_neg hkey, hget₁, if_neg (Ne.symm hkey)]

/-- A remote event: each document it has news of is remembered as the news say, unless they are
outdated. -/
theorem Valid.applyRemoteEvent (hs : store.Valid) {event : RemoteEvent} (hwf : event.WellFormed)
    (hmono : event.snapshotVersion ≠ SnapshotVersion.none →
      store.lastRemoteSnapshotVersion ≤ event.snapshotVersion) :
    ∃ changes cache, store.applyRemoteEvent event = .ok (changes,
        { store with
          remoteDocumentCache := cache
          lastRemoteSnapshotVersion :=
            if event.snapshotVersion = SnapshotVersion.none then store.lastRemoteSnapshotVersion
            else event.snapshotVersion }) ∧
      (∀ key, cache.get key = match event.documentUpdates.find? key with
        | some doc => updated (store.remoteDocumentCache.get key) doc
        | none => store.remoteDocumentCache.get key) ∧
      LocalDocumentsView.ReadTimes cache ∧
      Reports store { store with remoteDocumentCache := cache } changes := by
  obtain ⟨⟨cache, changed⟩, hfold, htracks, htimes, hget⟩ := foldlM_applyDocumentUpdate
    event.documentUpdates.entries event.documentUpdates.sorted hwf
    (store.remoteDocumentCache, .empty) (fun _ _ => rfl)
    (fun key => ⟨fun _ => rfl, fun base h => by cases h⟩) hs.readTimes
  obtain ⟨changes, hviews, hfind⟩ := LocalDocumentsView.getLocalViewOfDocuments_eq
    ⟨cache, store.mutationQueue⟩ hs.mutationQueue changed
  refine ⟨changes, cache, ?_, hget, htimes, fun key doc h => ?_, fun key h => ?_⟩
  · have hviews' : ∀ version, LocalDocumentsView.getLocalViewOfDocuments
        (localDocuments { store with
          remoteDocumentCache := cache
          lastRemoteSnapshotVersion := version }) changed = .ok changes := fun _ => hviews
    unfold LocalStore.applyRemoteEvent
    rw [hfold]
    by_cases hzero : event.snapshotVersion = SnapshotVersion.none
    · simp only [if_pos hzero, hviews', bind, Except.bind, pure, Except.pure]
    · simp only [if_neg hzero, if_neg (not_lt.mpr (hmono hzero)), hviews', bind, Except.bind, pure,
        Except.pure]
  · rw [hfind] at h
    obtain ⟨base, hbase, rfl⟩ := Option.map_eq_some_iff.mp h
    rw [LocalDocumentsView.asDocument_getD]
    exact LocalDocumentsView.asDocument_applyBatches_congr ((htracks key).2 base hbase)
  · rw [hfind, Option.map_eq_none_iff] at h
    show LocalDocumentsView.applyBatches store.mutationQueue.queue (cache.get key) key = _
    rw [(htracks key).1 h]
    rfl

/-- Another user has another queue; what the old and the new one are about is read again. -/
theorem Valid.handleUserChange (hs : store.Valid) (user : User) :
    ∃ changes q, store.handleUserChange user =
        .ok (changes, ({ store with user := user } : LocalStore).setMutationQueue q) ∧
      q = (store.mutationQueues user).start ∧
      (({ store with user := user } : LocalStore).setMutationQueue q).Valid ∧
      Reports store (({ store with user := user } : LocalStore).setMutationQueue q) changes := by
  set store₁ : LocalStore := { store with user := user } with hstore₁
  have hqueue₁ : store₁.mutationQueue = store.mutationQueues user := rfl
  set q := (store.mutationQueues user).start with hq
  have hs₁ : store₁.Valid := ⟨hs.queues, hs.unconditional, hs.readTimes⟩
  have hqueue : q.queue = (store.mutationQueues user).queue :=
    MemoryMutationQueue.queue_start
  have hvalid : (store₁.setMutationQueue q).Valid :=
    hs₁.setMutationQueue (hs.queues user).start fun b hb => by
      rw [hqueue] at hb
      exact hs.unconditional user b hb
  set keys : DocumentKeySet := (store.mutationQueue.queue ++ q.queue).foldl
    (fun keys batch => batch.mutations.foldl (fun keys mutation => keys.insert mutation.key ()) keys)
    .empty with hkeys
  have hcontains : ∀ key, keys.contains key = true ↔
      ∃ batch ∈ store.mutationQueue.queue ++ q.queue, batch.affects key = true := by
    have hfold : ∀ (batches : List MutationBatch) (set : DocumentKeySet) (key : DocumentKey),
        (batches.foldl (fun keys batch =>
          batch.mutations.foldl (fun keys mutation => keys.insert mutation.key ()) keys)
            set).contains key = true ↔
          set.contains key = true ∨ ∃ batch ∈ batches, batch.affects key = true := by
      intro batches
      induction batches with
      | nil => simp
      | cons batch batches ih =>
        intro set key
        rw [List.foldl_cons, ih, SortedMap.contains_foldl_insert]
        unfold MutationBatch.affects
        simp [or_assoc]
    intro key
    rw [hkeys, hfold]
    simp [SortedMap.contains]
  obtain ⟨changes, hdocs, hreports⟩ := reports_getDocuments store hvalid keys
    (fun key hkey => by
      have hnone : ∀ batch ∈ store.mutationQueue.queue ++ q.queue, batch.affects key = false :=
        fun batch hbatch => by
          rw [← Bool.not_eq_true]
          intro haff
          rw [(hcontains key).mpr ⟨batch, hbatch, haff⟩] at hkey
          cases hkey
      rw [localView_eq, localView_eq, mutationQueue_setMutationQueue,
        LocalDocumentsView.applyBatches_of_not_affects fun b hb =>
          hnone b (List.mem_append_right _ hb),
        LocalDocumentsView.applyBatches_of_not_affects fun b hb =>
          hnone b (List.mem_append_left _ hb)]
      rfl)
  refine ⟨changes, q, ?_, rfl, hvalid, hreports⟩
  unfold LocalStore.handleUserChange MemoryMutationQueue.allMutationBatches
  simp only [← hstore₁, hqueue₁, ← hq, mutationQueue_setMutationQueue, ← hkeys, hdocs, bind,
    Except.bind, pure, Except.pure]

end LocalStore

end GroceryApp.FirestoreCore
