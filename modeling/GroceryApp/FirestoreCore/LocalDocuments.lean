import GroceryApp.FirestoreCore.MutationQueue

/-!
# The local view of documents

What the client shows of a document is the remembered remote document with the pending batches
applied to it in their order. There are three ways to it: for one document, through the batches the
index has for it; for a set of documents, through the batches of any of them; and for a query,
mutation by mutation over the remembered documents of the collection. They agree
(`getDocument_eq`, `find?_getDocuments`, `find?_getDocumentsMatchingCollectionQuery`).
-/

namespace GroceryApp.FirestoreCore

/-- The remembered remote documents, each with the version of the snapshot it was read at. -/
structure RemoteDocumentCache where
  docs : SortedMap DocumentKey (MaybeDocument × SnapshotVersion)

/-- Documents that are there. -/
abbrev DocumentMap := SortedMap DocumentKey Document

/-- What is known of some documents. -/
abbrev MaybeDocumentMap := SortedMap DocumentKey MaybeDocument

/-- What is known of some documents, of which one may know nothing. -/
abbrev OptionalMaybeDocumentMap := SortedMap DocumentKey (Option MaybeDocument)

/-- A query for the documents of a collection that pass its filters. -/
structure Query where
  collection : CollectionReference
  matchesFilters : ObjectValue → Bool

namespace Query

/-- The document is in the collection and passes the filters. -/
def matchesDoc (query : Query) (key : DocumentKey) (doc : Document) : Bool :=
  Firestore.isImmediateParentOf query.collection key && query.matchesFilters doc.data

/-- `MatchesAllDocuments`, of a query without limits and bounds. -/
def MatchesAllDocuments (query : Query) : Prop := ∀ data, query.matchesFilters data = true

/-- The query of a listener on a whole collection. -/
def ofCollection (collection : CollectionReference) : Query := ⟨collection, fun _ => true⟩

theorem matchesAllDocuments_ofCollection (collection : CollectionReference) :
    (ofCollection collection).MatchesAllDocuments := fun _ => rfl

end Query

namespace RemoteDocumentCache

/-- Nothing is remembered. -/
def empty : RemoteDocumentCache := ⟨.empty⟩

/-- The document is remembered as it was at the version of a snapshot. -/
def add (cache : RemoteDocumentCache) (key : DocumentKey) (document : MaybeDocument)
    (readTime : SnapshotVersion) : RemoteDocumentCache := ⟨cache.docs.insert key (document, readTime)⟩

/-- Nothing is remembered of the document any more. -/
def remove (cache : RemoteDocumentCache) (key : DocumentKey) : RemoteDocumentCache :=
  ⟨cache.docs.erase key⟩

/-- What is remembered of a document. -/
def get (cache : RemoteDocumentCache) (key : DocumentKey) : Option MaybeDocument :=
  (cache.docs.find? key).map Prod.fst

/-- What is remembered of some documents, with an entry for each. -/
def getAll (cache : RemoteDocumentCache) (keys : DocumentKeySet) : OptionalMaybeDocumentMap :=
  keys.filterMap fun key _ => some (cache.get key)

/-- The matching documents read after a version, by a scan of the collection's subtree. -/
def getMatching (cache : RemoteDocumentCache) (query : Query) (sinceReadTime : SnapshotVersion) :
    DocumentMap :=
  (cache.docs.scan (MemoryMutationQueue.startKey query.collection)
    fun key => query.collection.path.isPrefixOf key.path).filterMap fun key entry =>
      match entry.1 with
      | .noDocument _ _ => none
      | .document doc =>
        if entry.2 ≤ sinceReadTime then none
        else if query.matchesDoc key doc then some doc else none

variable {cache : RemoteDocumentCache} {key key' : DocumentKey}

theorem get_add {document : MaybeDocument} {readTime : SnapshotVersion} :
    (cache.add key document readTime).get key' = if key' = key then some document
      else cache.get key' := by
  unfold add get
  rw [SortedMap.find?_insert]
  split_ifs <;> rfl

theorem get_remove : (cache.remove key).get key' = if key' = key then none
    else cache.get key' := by
  unfold remove get
  rw [SortedMap.find?_erase]
  split_ifs <;> rfl

theorem find?_getAll {keys : DocumentKeySet} :
    (cache.getAll keys).find? key =
      if keys.contains key = true then some (cache.get key) else none := by
  unfold getAll SortedMap.contains
  rw [SortedMap.find?_filterMap]
  cases keys.find? key <;> rfl

/-- The scan misses no document of the collection. -/
theorem find?_getMatching {query : Query} {sinceReadTime : SnapshotVersion} :
    (cache.getMatching query sinceReadTime).find? key =
      (cache.docs.find? key).bind fun entry =>
        (asDocument (some entry.1)).filter fun doc =>
          decide (sinceReadTime < entry.2) && query.matchesDoc key doc := by
  unfold getMatching
  rw [SortedMap.find?_filterMap, SortedMap.scan_eq_filter, SortedMap.find?_filter]
  · cases hentry : cache.docs.find? key with
    | none => simp
    | some entry =>
      obtain ⟨maybeDoc, readTime⟩ := entry
      cases maybeDoc with
      | noDocument version committed => split_ifs <;> simp
      | document doc =>
        have hstart : query.matchesDoc key doc = true →
            (decide (MemoryMutationQueue.startKey query.collection ≤ key) &&
              query.collection.path.isPrefixOf key.path) = true := by
          intro h
          have hparent := (Bool.and_eq_true _ _ ▸ h : _ ∧ _).1
          rw [Bool.and_eq_true, decide_eq_true_eq]
          refine ⟨MemoryMutationQueue.startKey_le hparent, ?_⟩
          unfold Firestore.isImmediateParentOf at hparent
          exact (Bool.and_eq_true _ _ ▸ hparent : _ ∧ _).2
        by_cases hmatches : query.matchesDoc key doc = true
        · rw [if_pos (hstart hmatches)]
          by_cases htime : readTime ≤ sinceReadTime
          · simp [htime, Option.filter]
          · simp [htime, hmatches, Option.filter, not_le.mp htime]
        · split_ifs <;> simp_all [Option.filter]
  · intro a b hka hab ha
    have hpa : query.collection.path ≤ a.path :=
      (Lexicographic.le_append query.collection.path [""]).trans (documentKey_le_iff.mp hka)
    have hpast := Lexicographic.not_prefix_of_lt hpa (documentKey_lt_iff.mp hab)
    simp only [← Bool.not_eq_true, List.isPrefixOf_iff_prefix] at ha ⊢
    exact hpast ha

end RemoteDocumentCache

/-! ## The three reads -/

/-- What the local view is made of: the remembered documents and the queue of one user. -/
structure LocalDocumentsView where
  remoteDocumentCache : RemoteDocumentCache
  mutationQueue : MemoryMutationQueue

namespace LocalDocumentsView

/-- A document with the batches applied to it. -/
def applyBatches (batches : List MutationBatch) (maybeDoc : Option MaybeDocument)
    (key : DocumentKey) : Option MaybeDocument :=
  batches.foldl (fun maybeDoc batch => batch.applyToLocalDocument maybeDoc key) maybeDoc

/-- One document, with the batches the index has for it. -/
def getDocument (view : LocalDocumentsView) (key : DocumentKey) :
    Except HardAssert (Option MaybeDocument) := do
  let batches ← view.mutationQueue.allMutationBatchesAffectingDocumentKey key
  return applyBatches batches (view.remoteDocumentCache.get key) key

/-- What is shown of a document about which nothing is known. -/
abbrev unknownDocument : MaybeDocument := .noDocument SnapshotVersion.none false

/-- Some remembered documents, with the batches of any of them. -/
def getLocalViewOfDocuments (view : LocalDocumentsView) (baseDocs : OptionalMaybeDocumentMap) :
    Except HardAssert MaybeDocumentMap := do
  let batches ← view.mutationQueue.allMutationBatchesAffectingDocumentKeys baseDocs.keySet
  return baseDocs.filterMap fun key localView =>
    some ((applyBatches batches localView key).getD unknownDocument)

/-- Some documents, with the batches of any of them. -/
def getDocuments (view : LocalDocumentsView) (keys : DocumentKeySet) :
    Except HardAssert MaybeDocumentMap :=
  view.getLocalViewOfDocuments (view.remoteDocumentCache.getAll keys)

/-- One mutation of a batch on the results of a query. -/
def applyToResults (query : Query) (results : DocumentMap) (mutation : Mutation) : DocumentMap :=
  if Firestore.isImmediateParentOf query.collection mutation.key then
    match asDocument (mutation.applyToLocalView
      ((results.find? mutation.key).map MaybeDocument.document)) with
    | some mutatedDoc => results.insert mutation.key mutatedDoc
    | none => results.erase mutation.key
  else results

/-- The documents a query finds: the remembered ones of its collection, with the pending mutations
applied one after the other, as far as they match in the end. -/
def getDocumentsMatchingCollectionQuery (view : LocalDocumentsView) (query : Query)
    (sinceReadTime : SnapshotVersion) : Except HardAssert DocumentMap := do
  let results := view.remoteDocumentCache.getMatching query sinceReadTime
  let matchingBatches ← view.mutationQueue.allMutationBatchesAffectingQuery query.collection
  let results := matchingBatches.foldl
    (fun results batch => batch.mutations.foldl (applyToResults query) results) results
  return results.filterMap fun key doc => if query.matchesDoc key doc then some doc else none

/-- What the client shows of a document: the remembered one with all pending batches. -/
def localView (view : LocalDocumentsView) (key : DocumentKey) : Option MaybeDocument :=
  applyBatches view.mutationQueue.queue (view.remoteDocumentCache.get key) key

variable {view : LocalDocumentsView} {key : DocumentKey} {maybeDoc : Option MaybeDocument}

theorem applyToLocalDocument_of_not_affects {batch : MutationBatch}
    (h : batch.affects key = false) : batch.applyToLocalDocument maybeDoc key = maybeDoc := by
  unfold MutationBatch.affects at h
  unfold MutationBatch.applyToLocalDocument
  rw [List.any_eq_false] at h
  generalize batch.mutations = mutations at h
  induction mutations with
  | nil => rfl
  | cons mutation mutations ih =>
    have hkey : mutation.key ≠ key := by simpa using h mutation List.mem_cons_self
    rw [List.foldl_cons, if_neg hkey]
    exact ih fun m hm => h m (List.mem_cons_of_mem _ hm)

/-- Only the batches about the document matter. -/
theorem applyBatches_filter {p : MutationBatch → Bool} {batches : List MutationBatch}
    (hp : ∀ batch, batch.affects key = true → p batch = true) :
    applyBatches (batches.filter p) maybeDoc key = applyBatches batches maybeDoc key := by
  unfold applyBatches
  induction batches generalizing maybeDoc with
  | nil => rfl
  | cons batch batches ih =>
    by_cases hpb : p batch = true
    · rw [List.filter_cons_of_pos hpb, List.foldl_cons, List.foldl_cons, ih]
    · have haff : batch.affects key = false := by
        rw [← Bool.not_eq_true]
        exact fun h => hpb (hp batch h)
      rw [List.filter_cons_of_neg hpb, List.foldl_cons, applyToLocalDocument_of_not_affects haff, ih]

theorem getDocument_eq (hq : view.mutationQueue.Valid) (key : DocumentKey) :
    view.getDocument key = .ok (view.localView key) := by
  unfold getDocument localView
  rw [hq.affectingKey]
  exact congrArg _ (applyBatches_filter fun _ h => h)

/-- The local view of a set of documents over given base documents. -/
theorem getLocalViewOfDocuments_eq (view : LocalDocumentsView) (hq : view.mutationQueue.Valid)
    (baseDocs : OptionalMaybeDocumentMap) :
    ∃ results, view.getLocalViewOfDocuments baseDocs = .ok results ∧ ∀ key,
      results.find? key = (baseDocs.find? key).map fun base =>
        (applyBatches view.mutationQueue.queue base key).getD unknownDocument := by
  unfold getLocalViewOfDocuments
  rw [hq.affectingKeys]
  refine ⟨_, rfl, fun key => ?_⟩
  rw [SortedMap.find?_filterMap]
  cases hbase : baseDocs.find? key with
  | none => rfl
  | some base =>
    have hmem : key ∈ baseDocs.keySet.keys := by
      rw [SortedMap.mem_keys, SortedMap.contains_keySet]
      unfold SortedMap.contains
      rw [hbase]
      rfl
    rw [Option.bind_some, Option.map_some, applyBatches_filter]
    exact fun batch h => List.any_eq_true.mpr ⟨key, hmem, h⟩

theorem find?_getDocuments (view : LocalDocumentsView) (hq : view.mutationQueue.Valid)
    (keys : DocumentKeySet) :
    ∃ results, view.getDocuments keys = .ok results ∧ ∀ key, results.find? key =
      if keys.contains key = true then some ((view.localView key).getD unknownDocument)
      else none := by
  obtain ⟨results, hok, hfind⟩ :=
    getLocalViewOfDocuments_eq view hq (view.remoteDocumentCache.getAll keys)
  refine ⟨results, hok, fun key => ?_⟩
  rw [hfind, RemoteDocumentCache.find?_getAll]
  split_ifs <;> rfl

/-! ## The query read -/

/-- The cached documents have been read at some version. -/
def ReadTimes (cache : RemoteDocumentCache) : Prop :=
  ∀ key entry, cache.docs.find? key = some entry → SnapshotVersion.none < entry.2

/-- One mutation on the results is the same mutation on the one document. -/
theorem find?_applyToResults {query : Query} {results : DocumentMap} {mutation : Mutation}
    (hkey : Firestore.isImmediateParentOf query.collection key = true)
    (h : results.find? key = asDocument maybeDoc) :
    (applyToResults query results mutation).find? key =
      asDocument (if mutation.key = key then mutation.applyToLocalView maybeDoc else maybeDoc) := by
  unfold applyToResults
  by_cases hm : mutation.key = key
  · subst hm
    have hsame : asDocument (mutation.applyToLocalView
        ((results.find? mutation.key).map MaybeDocument.document)) =
        asDocument (mutation.applyToLocalView maybeDoc) := by
      refine mutation.asDocument_applyToLocalView_congr ?_
      rw [h]
      cases asDocument maybeDoc <;> rfl
    rw [if_pos hkey, if_pos rfl, ← hsame]
    cases asDocument (mutation.applyToLocalView
      ((results.find? mutation.key).map MaybeDocument.document)) with
    | none => exact SortedMap.find?_erase_self
    | some doc => exact SortedMap.find?_insert_self
  · rw [if_neg hm, ← h]
    split_ifs
    · cases asDocument (mutation.applyToLocalView
        ((results.find? mutation.key).map MaybeDocument.document)) with
      | none => exact SortedMap.find?_erase_of_ne (Ne.symm hm)
      | some doc => exact SortedMap.find?_insert_of_ne (Ne.symm hm)
    · rfl

theorem find?_foldl_applyToResults {query : Query}
    (hkey : Firestore.isImmediateParentOf query.collection key = true)
    (mutations : List Mutation) {results : DocumentMap} {maybeDoc : Option MaybeDocument}
    (h : results.find? key = asDocument maybeDoc) :
    (mutations.foldl (applyToResults query) results).find? key =
      asDocument (mutations.foldl (fun maybeDoc mutation =>
        if mutation.key = key then mutation.applyToLocalView maybeDoc else maybeDoc) maybeDoc) := by
  induction mutations generalizing results maybeDoc with
  | nil => exact h
  | cons mutation mutations ih => exact ih (find?_applyToResults hkey h)

theorem find?_foldl_batches {query : Query}
    (hkey : Firestore.isImmediateParentOf query.collection key = true)
    (batches : List MutationBatch) {results : DocumentMap} {maybeDoc : Option MaybeDocument}
    (h : results.find? key = asDocument maybeDoc) :
    (batches.foldl (fun results batch => batch.mutations.foldl (applyToResults query) results)
      results).find? key = asDocument (applyBatches batches maybeDoc key) := by
  induction batches generalizing results maybeDoc with
  | nil => exact h
  | cons batch batches ih => exact ih (find?_foldl_applyToResults hkey batch.mutations h)

/-- A query without filters finds the documents of its collection as the single reads see them. -/
theorem find?_getDocumentsMatchingCollectionQuery (view : LocalDocumentsView)
    (hq : view.mutationQueue.Valid) (htimes : ReadTimes view.remoteDocumentCache) {query : Query}
    (hquery : query.MatchesAllDocuments) :
    ∃ results, view.getDocumentsMatchingCollectionQuery query SnapshotVersion.none = .ok results ∧
      ∀ key, results.find? key =
        if Firestore.isImmediateParentOf query.collection key = true then
          asDocument (view.localView key) else none := by
  unfold getDocumentsMatchingCollectionQuery
  rw [hq.affectingQuery]
  refine ⟨_, rfl, fun key => ?_⟩
  rw [SortedMap.find?_filterMap]
  have hmatches : ∀ doc, query.matchesDoc key doc =
      Firestore.isImmediateParentOf query.collection key := fun doc => by
    unfold Query.matchesDoc
    rw [hquery, Bool.and_true]
  by_cases hkey : Firestore.isImmediateParentOf query.collection key = true
  · have hbase : (view.remoteDocumentCache.getMatching query SnapshotVersion.none).find? key =
        asDocument (view.remoteDocumentCache.get key) := by
      rw [RemoteDocumentCache.find?_getMatching]
      unfold RemoteDocumentCache.get
      cases hentry : view.remoteDocumentCache.docs.find? key with
      | none => rfl
      | some entry =>
        rw [Option.bind_some, Option.map_some]
        have htime := htimes key entry hentry
        cases asDocument (some entry.1) with
        | none => rfl
        | some doc => simp [Option.filter, htime, hmatches, hkey]
    rw [find?_foldl_batches hkey _ hbase, applyBatches_filter, if_pos hkey]
    · unfold localView
      cases asDocument (applyBatches view.mutationQueue.queue
        (view.remoteDocumentCache.get key) key) with
      | none => rfl
      | some doc => simp [hmatches, hkey]
    · intro batch haff
      obtain ⟨mutation, hmutation, hmkey⟩ := List.any_eq_true.mp haff
      exact List.any_eq_true.mpr ⟨mutation, hmutation, by rw [beq_iff_eq.mp hmkey]; exact hkey⟩
  · rw [if_neg hkey]
    simp only [hmatches, if_neg hkey]
    exact Option.bind_fun_none _

end LocalDocumentsView

end GroceryApp.FirestoreCore
