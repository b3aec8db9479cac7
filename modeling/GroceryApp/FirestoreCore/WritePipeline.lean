import GroceryApp.FirestoreCore.StoreOperations
import GroceryApp.FirestoreCore.SyncEngine

/-!
# The write pipeline

With the network the pipeline is the first ten batches of the queue, and the requests without a
response are the pipeline's once the stream's handshake is complete; without the network both are
empty and the stream is stopped (`RemoteStore.Follows`).
-/

namespace GroceryApp.FirestoreCore

theorem MemoryMutationQueue.Valid.next_after_prefix {q : MemoryMutationQueue} (hq : q.Valid) {k : ℕ}
    (hk : k ≤ q.queue.length) :
    q.nextMutationBatchAfterBatchId
      (((q.queue.take k).getLast?.map (·.batchId)).getD batchIdUnknown) = q.queue[k]? := by
  have hpos := hq.positive
  unfold nextMutationBatchAfterBatchId
  by_cases hne : q.queue = []
  · simp [hne]
  rw [hq.indexOfBatchId hne]
  congr 1
  cases k with
  | zero =>
    simp only [List.take_zero, List.getLast?_nil, Option.map_none, Option.getD_none, batchIdUnknown]
    omega
  | succ k =>
    have hlast : (q.queue.take (k + 1)).getLast? = some q.queue[k] := by
      rw [List.getLast?_eq_getElem?, List.length_take, Nat.min_eq_left hk, Nat.add_sub_cancel,
        List.getElem?_take_of_lt (Nat.lt_succ_self k), List.getElem?_eq_getElem]
    rw [hlast, Option.map_some, Option.getD_some, hq.consecutive k hk]
    omega

namespace RemoteStore

/-- The stream after batches have been added to the pipeline: sent at once if it is ready. -/
def sent (stream : WriteStream) (added : List MutationBatch) : WriteStream :=
  if stream.isOpen && stream.handshakeComplete then
    { stream with
      idlenessTimer := stream.idlenessTimer && added.isEmpty
      unanswered := stream.unanswered ++ added.map (·.mutations) }
  else stream

theorem sent_nil (stream : WriteStream) : sent stream [] = stream := by
  unfold sent
  split_ifs <;> simp

@[simp] theorem state_sent (stream : WriteStream) (added : List MutationBatch) :
    (sent stream added).state = stream.state := by
  unfold sent
  split_ifs <;> rfl

@[simp] theorem handshakeComplete_sent (stream : WriteStream) (added : List MutationBatch) :
    (sent stream added).handshakeComplete = stream.handshakeComplete := by
  unfold sent
  split_ifs <;> rfl

theorem sent_cons (stream : WriteStream) (batch : MutationBatch) (added : List MutationBatch) :
    sent (sent stream [batch]) added = sent stream (batch :: added) := by
  unfold sent
  by_cases h : (stream.isOpen && stream.handshakeComplete) = true
  · have hopen : stream.isOpen = true := (Bool.and_eq_true _ _ ▸ h : _ ∧ _).1
    simp only [h, if_true]
    unfold WriteStream.isOpen at h ⊢
    simp [h]
  · simp [h]

theorem writeMutations_eq {stream : WriteStream} (hopen : stream.state = .open)
    (hhandshake : stream.handshakeComplete = true) (batch : MutationBatch) :
    stream.writeMutations batch.mutations = .ok (sent stream [batch]) := by
  unfold WriteStream.writeMutations sent WriteStream.isOpen
  simp [hopen, hhandshake]

theorem foldlM_writeMutations {stream : WriteStream} (hopen : stream.state = .open)
    (hhandshake : stream.handshakeComplete = true) (batches : List MutationBatch) :
    batches.foldlM (fun stream write => stream.writeMutations write.mutations) stream =
      .ok (sent stream batches) := by
  induction batches generalizing stream with
  | nil =>
    rw [sent_nil]
    rfl
  | cons batch batches ih =>
    rw [List.foldlM_cons, writeMutations_eq hopen hhandshake]
    have ih := ih ((state_sent stream [batch]).trans hopen)
      ((handshakeComplete_sent stream [batch]).trans hhandshake)
    rwa [sent_cons] at ih

theorem addToWritePipeline_eq {remote : RemoteStore} (h : remote.canAddToWritePipeline = true)
    (batch : MutationBatch) : remote.addToWritePipeline batch = .ok { remote with
      writePipeline := remote.writePipeline ++ [batch]
      writeStream := sent remote.writeStream [batch] } := by
  unfold addToWritePipeline sent
  rw [if_pos h]
  by_cases hready : (remote.writeStream.isOpen && remote.writeStream.handshakeComplete) = true
  · obtain ⟨hopen, hhandshake⟩ := Bool.and_eq_true _ _ ▸ hready
    simp only [hready, if_true, writeMutations_eq (beq_iff_eq.mp hopen) hhandshake, bind, Except.bind,
      pure, Except.pure]
    unfold sent
    rw [if_pos hready]
  · simp only [hready, bind, Except.bind, pure, Except.pure]
    rfl

/-- The loop takes what is missing of the first ten batches of the queue. -/
theorem fillFrom_spec {store : LocalStore} (hs : store.Valid) (fuel : ℕ) {remote : RemoteStore}
    (hnetwork : remote.isNetworkEnabled = true)
    (hpre : remote.writePipeline <+: store.mutationQueue.queue)
    (hlength : remote.writePipeline.length ≤ maxPendingWrites)
    (hfuel : maxPendingWrites < remote.writePipeline.length + fuel) :
    ∃ added, remote.writePipeline ++ added = store.mutationQueue.queue.take maxPendingWrites ∧
      fillFrom store fuel
        ((remote.writePipeline.getLast?.map (·.batchId)).getD batchIdUnknown) remote =
          .ok { remote with
            writePipeline := remote.writePipeline ++ added
            writeStream := if store.mutationQueue.queue.isEmpty then
              (sent remote.writeStream added).markIdle else sent remote.writeStream added } := by
  induction fuel generalizing remote with
  | zero => omega
  | succ fuel ih =>
    obtain ⟨rest, hrest⟩ := hpre
    by_cases hfull : remote.writePipeline.length < maxPendingWrites
    · have hadd : remote.canAddToWritePipeline = true := by
        unfold canAddToWritePipeline canUseNetwork
        rw [hnetwork, decide_eq_true hfull]
        rfl
      have hnext : store.getNextMutationBatch
          ((remote.writePipeline.getLast?.map (·.batchId)).getD batchIdUnknown) = rest.head? := by
        have h := hs.mutationQueue.next_after_prefix (k := remote.writePipeline.length)
          (by rw [← hrest, List.length_append]; omega)
        rw [← hrest, List.take_left] at h
        unfold LocalStore.getNextMutationBatch
        rw [h, List.getElem?_append_right le_rfl, Nat.sub_self, List.head?_eq_getElem?]
      unfold fillFrom
      rw [if_pos hadd, hnext]
      cases rest with
      | nil =>
        rw [List.append_nil] at hrest
        refine ⟨[], ?_, ?_⟩
        · rw [List.append_nil, ← hrest, List.take_of_length_le hlength]
        · simp only [List.head?_nil, sent_nil, List.append_nil, ← hrest]
          split_ifs <;> rfl
      | cons batch rest =>
        obtain ⟨added, hadded, hfill⟩ := @ih { remote with
            writePipeline := remote.writePipeline ++ [batch]
            writeStream := sent remote.writeStream [batch] } hnetwork
          ⟨rest, by rw [← hrest]; simp⟩
          (by simp only [List.length_append, List.length_singleton]; omega)
          (by simp only [List.length_append, List.length_singleton]; omega)
        simp only [List.getLast?_concat, Option.map_some, Option.getD_some, sent_cons,
          List.append_assoc, List.singleton_append] at hadded hfill
        refine ⟨batch :: added, hadded, ?_⟩
        simp only [List.head?_cons, addToWritePipeline_eq hadd, bind, Except.bind]
        exact hfill
    · have hten : remote.writePipeline.length = maxPendingWrites := by omega
      have hadd : ¬ remote.canAddToWritePipeline = true := by
        unfold canAddToWritePipeline
        simp [hfull]
      have hne : store.mutationQueue.queue.isEmpty = false := by
        rw [← hrest, List.isEmpty_eq_false_iff]
        intro h
        rw [(List.append_eq_nil_iff.mp h).1] at hten
        cases hten
      refine ⟨[], ?_, ?_⟩
      · rw [List.append_nil, ← hrest, ← hten, List.take_left]
      · unfold fillFrom
        rw [if_neg hadd, sent_nil, List.append_nil, hne]
        rfl

/-- The stream started if there is something to send. -/
def startedIfNeeded (remote : RemoteStore) : RemoteStore :=
  if remote.shouldStartWriteStream then
    { remote with writeStream := { remote.writeStream with
        state := if remote.writeStream.state = .error then .backoff else .starting } }
  else remote

theorem startWriteStream_eq {remote : RemoteStore} (h : remote.shouldStartWriteStream = true) :
    remote.startWriteStream = .ok remote.startedIfNeeded := by
  have hstopped : remote.writeStream.isStarted = false := by
    unfold shouldStartWriteStream at h
    simp only [Bool.and_eq_true, Bool.not_eq_true'] at h
    exact h.1.2
  unfold startWriteStream startedIfNeeded WriteStream.start
  rw [if_pos h, if_pos h]
  unfold WriteStream.isStarted WriteStream.isOpen at hstopped
  cases hstate : remote.writeStream.state <;> simp_all [bind, Except.bind, pure, Except.pure]

theorem startIfNeeded_eq (remote : RemoteStore) :
    (if remote.shouldStartWriteStream then remote.startWriteStream else .ok remote) =
      .ok remote.startedIfNeeded := by
  split_ifs with h
  · exact startWriteStream_eq h
  · unfold startedIfNeeded
    rw [if_neg h]

/-- With the network the pipeline is filled with the first batches of the queue, which are sent if
the stream is ready, and the stream is started if there is something to send. -/
theorem fillWritePipeline_spec {store : LocalStore} (hs : store.Valid) {remote : RemoteStore}
    (hnetwork : remote.isNetworkEnabled = true)
    (hpre : remote.writePipeline <+: store.mutationQueue.queue)
    (hlength : remote.writePipeline.length ≤ maxPendingWrites) :
    ∃ added, remote.writePipeline ++ added = store.mutationQueue.queue.take maxPendingWrites ∧
      remote.fillWritePipeline store = .ok (startedIfNeeded { remote with
        writePipeline := remote.writePipeline ++ added
        writeStream := if store.mutationQueue.queue.isEmpty then
          (sent remote.writeStream added).markIdle else sent remote.writeStream added }) := by
  obtain ⟨added, hadded, hfill⟩ := fillFrom_spec hs (maxPendingWrites + 1) hnetwork hpre hlength
    (by omega)
  refine ⟨added, hadded, ?_⟩
  unfold fillWritePipeline
  simp only [hfill, bind, Except.bind, pure, Except.pure]
  exact startIfNeeded_eq _

/-- Without the network nothing is taken. -/
theorem fillWritePipeline_disabled {store : LocalStore} {remote : RemoteStore}
    (hnetwork : remote.isNetworkEnabled = false) : remote.fillWritePipeline store = .ok remote := by
  have hadd : remote.canAddToWritePipeline = false := by
    unfold canAddToWritePipeline canUseNetwork
    rw [hnetwork]
    rfl
  have hstart : remote.shouldStartWriteStream = false := by
    unfold shouldStartWriteStream canUseNetwork
    rw [hnetwork]
    rfl
  unfold fillWritePipeline fillFrom
  simp [hadd, hstart, bind, Except.bind, pure, Except.pure]


/-- The requests on a stream are those of the pipeline, once its handshake is complete; it runs
only with the network, only has a handshake to wait for if there is something to send, and only
idles if there is nothing. -/
structure Coherent (remote : RemoteStore) : Prop where
  connected : remote.writeStream.isStarted = true → remote.isNetworkEnabled = true
  ready : remote.writeStream.handshakeComplete = true → remote.writeStream.state = .open
  unanswered : remote.writeStream.unanswered =
    if remote.writeStream.handshakeComplete then remote.writePipeline.map (·.mutations) else []
  idle : remote.writeStream.idlenessTimer = true →
    remote.writeStream.handshakeComplete = true ∧ remote.writePipeline = []
  waiting : remote.writeStream.isStarted = true → remote.writeStream.handshakeComplete = false →
    remote.writePipeline ≠ []

/-- With the network the pipeline is the first ten batches, and the stream runs if there are any. -/
structure Follows (remote : RemoteStore) (batches : List MutationBatch) : Prop
    extends Coherent remote where
  pipeline : remote.writePipeline =
    if remote.isNetworkEnabled then batches.take maxPendingWrites else []
  running : remote.isNetworkEnabled = true → remote.writePipeline ≠ [] →
    remote.writeStream.isStarted = true

/-- The pipeline is a beginning of the queue, as it is before it is filled. -/
structure Fits (remote : RemoteStore) (batches : List MutationBatch) : Prop where
  disabled : remote.isNetworkEnabled = false → remote.writePipeline = []
  isPrefix : remote.writePipeline <+: batches
  length : remote.writePipeline.length ≤ maxPendingWrites

variable {remote : RemoteStore} {batches : List MutationBatch} {added : List MutationBatch}

theorem Follows.fits (h : remote.Follows batches) : remote.Fits batches where
  disabled hnetwork := by rw [h.pipeline, hnetwork, if_neg Bool.false_ne_true]
  isPrefix := by
    rw [h.pipeline]
    split_ifs
    · exact List.take_prefix _ _
    · exact List.nil_prefix
  length := by
    rw [h.pipeline]
    split_ifs
    · exact List.length_take_le _ _
    · exact Nat.zero_le _

/-- Behind the front of the pipeline comes the rest of it, behind the front of the queue. -/
theorem Follows.tail (h : remote.Follows batches) {batch : MutationBatch}
    {pipeline : List MutationBatch} (hpipeline : remote.writePipeline = batch :: pipeline) :
    ∃ rest, batches = batch :: rest ∧ remote.isNetworkEnabled = true ∧ pipeline <+: rest ∧
      pipeline.length ≤ maxPendingWrites := by
  have hfollows := h.pipeline
  rw [hpipeline] at hfollows
  cases hnetwork : remote.isNetworkEnabled with
  | false =>
    rw [hnetwork] at hfollows
    cases hfollows
  | true =>
    rw [hnetwork, if_pos rfl] at hfollows
    cases batches with
    | nil => cases hfollows
    | cons head rest =>
      rw [List.take_succ_cons] at hfollows
      obtain ⟨rfl, rfl⟩ := List.cons.inj hfollows
      exact ⟨rest, rfl, rfl, List.take_prefix _ _, (List.length_take_le _ _).trans (Nat.le_succ _)⟩

theorem Fits.append (h : remote.Fits batches) (batches' : List MutationBatch) :
    remote.Fits (batches ++ batches') :=
  ⟨h.disabled, h.isPrefix.trans (List.prefix_append _ _), h.length⟩

theorem Fits.of_nil (h : remote.writePipeline = []) : remote.Fits batches where
  disabled _ := h
  isPrefix := h ▸ List.nil_prefix
  length := by simp [h]

theorem follows_new : new.Follows [] where
  connected h := by cases h
  ready h := by cases h
  unanswered := rfl
  idle h := by cases h
  waiting h := by cases h
  pipeline := rfl
  running h := by cases h

theorem isStarted_congr {stream stream' : WriteStream} (h : stream.state = stream'.state) :
    stream.isStarted = stream'.isStarted := by
  unfold WriteStream.isStarted WriteStream.isOpen
  rw [h]

theorem isStarted_of_open {stream : WriteStream} (h : stream.state = .open) :
    stream.isStarted = true := by
  unfold WriteStream.isStarted WriteStream.isOpen
  rw [h]
  rfl

/-- What is added to the pipeline is sent if the stream is ready. -/
theorem Coherent.add (hc : remote.Coherent) (added : List MutationBatch) :
    Coherent { remote with
      writePipeline := remote.writePipeline ++ added
      writeStream := sent remote.writeStream added } where
  connected h := hc.connected (isStarted_congr (state_sent _ _) ▸ h)
  ready h := by
    rw [handshakeComplete_sent] at h
    exact (state_sent _ _).trans (hc.ready h)
  unanswered := by
    simp only [handshakeComplete_sent]
    unfold RemoteStore.sent WriteStream.isOpen
    rw [hc.unanswered]
    by_cases h : remote.writeStream.handshakeComplete = true
    · simp [h, hc.ready h]
    · simp [h, hc.unanswered]
  idle h := by
    simp only [handshakeComplete_sent]
    unfold RemoteStore.sent at h
    split_ifs at h with hready
    · obtain ⟨hidle, hempty⟩ := Bool.and_eq_true _ _ ▸ h
      obtain ⟨hhandshake, hnil⟩ := hc.idle hidle
      exact ⟨hhandshake, by rw [hnil, List.isEmpty_iff.mp hempty]; rfl⟩
    · obtain ⟨hhandshake, -⟩ := hc.idle h
      unfold WriteStream.isOpen at hready
      simp [hhandshake, hc.ready hhandshake] at hready
  waiting h hhandshake := by
    rw [handshakeComplete_sent] at hhandshake
    intro hnil
    exact hc.waiting (isStarted_congr (state_sent _ _) ▸ h) hhandshake
      (List.append_eq_nil_iff.mp hnil).1

/-- A stream idles if there is nothing to send. -/
theorem Coherent.markIdle (hc : remote.Coherent) (hnil : remote.writePipeline = []) :
    Coherent { remote with writeStream := remote.writeStream.markIdle } := by
  unfold WriteStream.markIdle
  split_ifs with hopen
  · have hopen : remote.writeStream.state = .open := beq_iff_eq.mp hopen
    refine ⟨fun h => hc.connected h, hc.ready, hc.unanswered, fun _ => ⟨?_, hnil⟩,
      fun h => hc.waiting h⟩
    rw [← Bool.not_eq_false]
    exact fun h => hc.waiting (isStarted_of_open hopen) h hnil
  · exact hc

/-- A stream is started if there is something to send. -/
theorem Coherent.started (hc : remote.Coherent) : remote.startedIfNeeded.Coherent ∧
    (remote.isNetworkEnabled = true → remote.writePipeline ≠ [] →
      remote.startedIfNeeded.writeStream.isStarted = true) := by
  unfold startedIfNeeded
  by_cases h : remote.shouldStartWriteStream = true
  · rw [if_pos h]
    unfold shouldStartWriteStream canUseNetwork at h
    simp only [Bool.and_eq_true, Bool.not_eq_true', List.isEmpty_eq_false_iff] at h
    obtain ⟨⟨hnetwork, hstopped⟩, hne⟩ := h
    have hhandshake : remote.writeStream.handshakeComplete = false := by
      rw [← Bool.not_eq_true]
      intro hhandshake
      rw [isStarted_of_open (hc.ready hhandshake)] at hstopped
      cases hstopped
    refine ⟨⟨fun _ => hnetwork, fun h => ?_, hc.unanswered, hc.idle, fun _ _ => hne⟩, fun _ _ => ?_⟩
    · rw [show _ = _ from h] at hhandshake
      cases hhandshake
    · by_cases herror : remote.writeStream.state = .error
      · simp only [herror, if_true]
        rfl
      · simp only [herror, if_false]
        rfl
  · rw [if_neg h]
    refine ⟨hc, fun hnetwork hne => ?_⟩
    unfold shouldStartWriteStream canUseNetwork at h
    simpa [hnetwork, hne] using h

@[simp] theorem writePipeline_startedIfNeeded :
    remote.startedIfNeeded.writePipeline = remote.writePipeline := by
  unfold startedIfNeeded
  split_ifs <;> rfl

@[simp] theorem isNetworkEnabled_startedIfNeeded :
    remote.startedIfNeeded.isNetworkEnabled = remote.isNetworkEnabled := by
  unfold startedIfNeeded
  split_ifs <;> rfl

/-- Filling the pipeline makes it follow the queue again. -/
theorem Coherent.fill {store : LocalStore} (hs : store.Valid) (hc : remote.Coherent)
    (hf : remote.Fits store.mutationQueue.queue) :
    ∃ remote', remote.fillWritePipeline store = .ok remote' ∧
      remote'.Follows store.mutationQueue.queue := by
  cases hnetwork : remote.isNetworkEnabled with
  | false =>
    refine ⟨remote, fillWritePipeline_disabled hnetwork, hc, ?_, fun h => ?_⟩
    · rw [hnetwork]
      exact hf.disabled hnetwork
    · rw [hnetwork] at h
      cases h
  | true =>
    obtain ⟨added, hadded, hfill⟩ := fillWritePipeline_spec hs hnetwork hf.isPrefix hf.length
    refine ⟨_, hfill, ?_⟩
    set filled : RemoteStore := { remote with
      writePipeline := remote.writePipeline ++ added
      writeStream := if store.mutationQueue.queue.isEmpty then
        (RemoteStore.sent remote.writeStream added).markIdle
        else RemoteStore.sent remote.writeStream added } with hfilled
    have hcoherent : filled.Coherent := by
      by_cases hempty : store.mutationQueue.queue.isEmpty = true
      · rw [hfilled, hempty]
        refine (hc.add added).markIdle ?_
        rw [hadded, List.isEmpty_iff.mp hempty, List.take_nil]
      · rw [hfilled, if_neg hempty]
        exact hc.add added
    obtain ⟨hstarted, hrunning⟩ := hcoherent.started
    refine ⟨hstarted, ?_, fun h hne => hrunning ?_ ?_⟩
    · rw [writePipeline_startedIfNeeded, isNetworkEnabled_startedIfNeeded,
        if_pos (show filled.isNetworkEnabled = true from hnetwork)]
      exact hadded
    · rwa [isNetworkEnabled_startedIfNeeded] at h
    · rwa [writePipeline_startedIfNeeded] at hne

/-- The handshake is over, as after a stream has been closed. -/
def forgetHandshake (remote : RemoteStore) : RemoteStore :=
  { remote with writeStream := { remote.writeStream with handshakeComplete := false } }

theorem forgetHandshake_startedIfNeeded :
    remote.startedIfNeeded.forgetHandshake = remote.forgetHandshake.startedIfNeeded := by
  unfold startedIfNeeded
  rw [show remote.forgetHandshake.shouldStartWriteStream = remote.shouldStartWriteStream from rfl]
  by_cases h : remote.shouldStartWriteStream = true
  · rw [if_pos h, if_pos h]
    rfl
  · rw [if_neg h, if_neg h]

/-- A stopped stream over which nothing was sent. -/
structure Stopped (remote : RemoteStore) : Prop where
  stopped : remote.writeStream.isStarted = false
  unanswered : remote.writeStream.unanswered = []
  idle : remote.writeStream.idlenessTimer = false

theorem Stopped.coherent (h : remote.Stopped) : remote.forgetHandshake.Coherent where
  connected hstarted := by
    rw [show remote.forgetHandshake.writeStream.isStarted = false from h.stopped] at hstarted
    cases hstarted
  ready hhandshake := by cases hhandshake
  unanswered := h.unanswered
  idle hidle := by
    rw [show remote.forgetHandshake.writeStream.idlenessTimer = false from h.idle] at hidle
    cases hidle
  waiting hstarted := by
    rw [show remote.forgetHandshake.writeStream.isStarted = false from h.stopped] at hstarted
    cases hstarted

/-- A stopped stream is started again, with its handshake forgotten, if there is something to
send. -/
theorem Stopped.restart (h : remote.Stopped) (hpipeline : remote.writePipeline =
    if remote.isNetworkEnabled then batches.take maxPendingWrites else []) :
    remote.startedIfNeeded.forgetHandshake.Follows batches := by
  rw [forgetHandshake_startedIfNeeded]
  obtain ⟨hstarted, hrunning⟩ := h.coherent.started
  refine ⟨hstarted, ?_, fun hn hne => hrunning ?_ ?_⟩
  · rw [writePipeline_startedIfNeeded, isNetworkEnabled_startedIfNeeded]
    exact hpipeline
  · rwa [isNetworkEnabled_startedIfNeeded] at hn
  · rwa [writePipeline_startedIfNeeded] at hne

/-- A stream that runs if it is needed need not be started. -/
theorem Follows.shouldStartWriteStream_eq (h : remote.forgetHandshake.Follows batches) :
    remote.shouldStartWriteStream = false := by
  unfold shouldStartWriteStream canUseNetwork
  cases hnetwork : remote.isNetworkEnabled with
  | false => rfl
  | true =>
    cases hpipeline : remote.writePipeline with
    | nil => simp
    | cons batch rest =>
      have hstarted : remote.writeStream.isStarted = true :=
        h.running hnetwork (by show remote.writePipeline ≠ []; simp [hpipeline])
      simp [hstarted]

/-- A pipeline filled while the stream is stopped follows the queue once the handshake of the closed
stream is forgotten. -/
theorem Stopped.fill {store : LocalStore} (hs : store.Valid) (h : remote.Stopped)
    (hnetwork : remote.isNetworkEnabled = true) (hf : remote.Fits store.mutationQueue.queue) :
    ∃ remote', remote.fillWritePipeline store = .ok remote' ∧ remote'.isNetworkEnabled = true ∧
      remote'.forgetHandshake.Follows store.mutationQueue.queue := by
  obtain ⟨added, hadded, hfill⟩ := fillWritePipeline_spec hs hnetwork hf.isPrefix hf.length
  have hclosed : remote.writeStream.isOpen = false := by
    have hstopped := h.stopped
    unfold WriteStream.isStarted at hstopped
    simp only [Bool.or_eq_false_iff] at hstopped
    exact hstopped.2
  have hsent : RemoteStore.sent remote.writeStream added = remote.writeStream := by
    unfold RemoteStore.sent
    rw [hclosed]
    rfl
  have hidle : remote.writeStream.markIdle = remote.writeStream := by
    unfold WriteStream.markIdle
    rw [hclosed]
    rfl
  rw [hsent, hidle, ite_self, hadded] at hfill
  refine ⟨_, hfill, ?_, ?_⟩
  · rw [isNetworkEnabled_startedIfNeeded]
    exact hnetwork
  · exact Stopped.restart ⟨h.stopped, h.unanswered, h.idle⟩ (if_pos hnetwork).symm

end RemoteStore

end GroceryApp.FirestoreCore
