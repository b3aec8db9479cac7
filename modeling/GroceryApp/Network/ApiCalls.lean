import GroceryApp.Lib.Runs
import GroceryApp.Network.CloudFireStore

/-!
# Calls on the shared collection

`ApiState` is what the calls of all running apps act on: the collection with its earlier states, the
`GroceryVO` objects their listeners have decoded so far (an object is known by its position and
keeps it), and the uploads they have started. A snapshot that a listener is handed can lag behind
the collection, so that its objects are decoded from an earlier state (`Consistent.decoded`). An
upload captures an object, not a copy: its last closure sets the image of that object and writes the
object as it then is. A call that traps on its path leaves the collection as it was.
-/

namespace GroceryApp

open CloudFireStore Runs

/-- The next closure of an upload that is to run. -/
inductive UploadStage where
  | putData
  | downloadURL
  | finished
  deriving DecidableEq, Repr

structure Upload where
  grocery : ℕ
  stage : UploadStage
  deriving DecidableEq, Repr

structure ApiState where
  db : Firestore := ∅
  /-- The states of the collection before the present one, in order. -/
  past : List Firestore := []
  objects : List GroceryVO := []
  /-- For each object, which state of the collection it was decoded from. -/
  versions : List ℕ := []
  uploads : List Upload := []

/-- A snapshot lags behind the collection by some states, or by none. -/
inductive ApiCall where
  | getAllGroceries (lag : ℕ := 0)
  | addGrocery (grocery : GroceryVO)
  | deleteGrocery (row : ℕ)
  | uploadImage (row : ℕ)
  | putDataDone (upload : ℕ)
  | downloadURLDone (upload : ℕ) (url : Option String)

namespace ApiState

/-- The number of the present state of the collection. -/
def version (s : ApiState) : ℕ := s.past.length

/-- The states of the collection so far. -/
def states (s : ApiState) : List Firestore := s.past ++ [s.db]

/-- The collection as it was in the state of that number. -/
def stateAt (s : ApiState) (version : ℕ) : Firestore := (s.states[version]?).getD s.db

/-- The collection after a call that may trap. -/
def orElse (s : ApiState) (result : Except HardFail Firestore) : ApiState :=
  match result with
  | .error _ => s
  | .ok db => { s with db, past := s.past ++ [s.db] }

def step (s : ApiState) : ApiCall → ApiState
  | .getAllGroceries lag =>
    let groceries := CloudFireStore.getAllGroceries (s.stateAt (s.version - lag))
    { s with
      objects := s.objects ++ groceries
      versions := s.versions ++ groceries.map fun _ => s.version - lag }
  | .addGrocery grocery => s.orElse (CloudFireStore.addGrocery s.db grocery)
  | .deleteGrocery row =>
    match s.objects[row]? with
    | none => s
    | some grocery => s.orElse (CloudFireStore.deleteGrocery s.db grocery)
  | .uploadImage row =>
    if row < s.objects.length then { s with uploads := s.uploads ++ [⟨row, .putData⟩] } else s
  | .putDataDone upload =>
    match s.uploads[upload]? with
    -- the closure of `putData` goes on to `downloadURL` whatever its error says
    | some ⟨row, .putData⟩ => { s with uploads := s.uploads.set upload ⟨row, .downloadURL⟩ }
    | _ => s
  | .downloadURLDone upload url =>
    match s.uploads[upload]? with
    | some ⟨row, .downloadURL⟩ =>
      match s.objects[row]? with
      | none => s
      | some grocery =>
        let done := onDownloadURL s.db grocery url
        { s.orElse done.2 with
          objects := s.objects.set row done.1
          uploads := s.uploads.set upload ⟨row, .finished⟩ }
    | _ => s

/-- The grocery a call writes with `addGrocery`. -/
def writes (s : ApiState) : ApiCall → Option GroceryVO
  | .addGrocery grocery => some grocery
  | .downloadURLDone upload (some url) =>
    match s.uploads[upload]? with
    | some ⟨row, .downloadURL⟩ => s.objects[row]?.map fun g => { g with image := some url }
    | _ => none
  | _ => none

/-- The grocery a call removes with `deleteGrocery`. -/
def removes (s : ApiState) : ApiCall → Option GroceryVO
  | .deleteGrocery row => s.objects[row]?
  | _ => none

variable {s : ApiState} {c : ApiCall}

/-! ## What a call does -/

/-- What is written is the grocery of a save, or the object of an upload that ends, with its URL. -/
theorem writes_eq_some {g : GroceryVO} (h : s.writes c = some g) :
    c = .addGrocery g ∨ ∃ u url row g₀, c = .downloadURLDone u (some url) ∧
      s.uploads[u]? = some ⟨row, .downloadURL⟩ ∧ s.objects[row]? = some g₀ ∧
      g = { g₀ with image := some url } := by
  unfold writes at h
  split at h
  · exact .inl (congrArg _ (Option.some.inj h))
  · right
    split at h
    · rename_i hu
      obtain ⟨g₀, hg₀, rfl⟩ := Option.map_eq_some_iff.mp h
      exact ⟨_, _, _, g₀, rfl, hu, hg₀, rfl⟩
    · cases h
  · cases h

/-! ### The states of the collection -/

theorem length_states : s.states.length = s.version + 1 := by
  rw [states, List.length_append]
  rfl

theorem getElem?_states {version : ℕ} (h : version ≤ s.version) :
    s.states[version]? = some (s.stateAt version) := by
  unfold stateAt
  rw [List.getElem?_eq_getElem (length_states ▸ Nat.lt_succ_of_le h), Option.getD_some]

@[simp] theorem stateAt_version : s.stateAt s.version = s.db := by
  unfold stateAt states version
  rw [List.getElem?_append_right le_rfl, Nat.sub_self]
  rfl

theorem mem_stateAt (s : ApiState) (version : ℕ) :
    s.stateAt version ∈ s.past ∨ s.stateAt version = s.db := by
  unfold stateAt
  cases h : s.states[version]? with
  | none => exact .inr rfl
  | some db => simpa [states] using List.mem_of_getElem? h

theorem orElse_cases (s : ApiState) (result : Except HardFail Firestore) :
    s.orElse result = s ∨
      ∃ db, result = .ok db ∧ s.orElse result = { s with db, past := s.past ++ [s.db] } := by
  cases result with
  | error e => exact .inl rfl
  | ok db => exact .inr ⟨db, rfl, rfl⟩

theorem step_deleteGrocery {row : ℕ} {g : GroceryVO} (h : s.objects[row]? = some g) :
    s.step (.deleteGrocery row) = s.orElse (CloudFireStore.deleteGrocery s.db g) := by
  simp only [step, h]

theorem step_addGrocery {g : GroceryVO} {ref : DocumentReference}
    (h : groceries.document (g.name.getD "") = .ok ref) : s.step (.addGrocery g) =
      { s with db := s.db.setData ref (groceryDictionary g), past := s.past ++ [s.db] } := by
  simp only [step, orElse, addGrocery_eq_ok_iff.mpr ⟨ref, h, rfl⟩]

theorem db_addGrocery {g : GroceryVO} {ref : DocumentReference}
    (h : groceries.document (g.name.getD "") = .ok ref) :
    (s.step (.addGrocery g)).db = s.db.setData ref (groceryDictionary g) := by
  rw [step_addGrocery h]

/-- The last closure of an upload: it returns at its guard, or sets the image of its object and
writes it, unless that traps. -/
theorem step_downloadURLDone (s : ApiState) (u : ℕ) (url : Option String) :
    s.step (.downloadURLDone u url) = s ∨
    ∃ row g, s.uploads[u]? = some ⟨row, .downloadURL⟩ ∧ s.objects[row]? = some g ∧
      s.step (.downloadURLDone u url) = { s.orElse (onDownloadURL s.db g url).2 with
        objects := s.objects.set row (onDownloadURL s.db g url).1
        uploads := s.uploads.set u ⟨row, .finished⟩ } := by
  simp only [step]
  split
  · rename_i row hu
    split
    · exact .inl rfl
    · rename_i g hg
      exact .inr ⟨row, g, hu, hg, rfl⟩
  · exact .inl rfl

/-- A call leaves the collection as it is, or adds the grocery it writes, or deletes the grocery
it removes. -/
theorem step_db_cases (s : ApiState) (c : ApiCall) :
    (s.step c).db = s.db ∨
    (∃ g, s.writes c = some g ∧ CloudFireStore.addGrocery s.db g = .ok (s.step c).db) ∨
    ∃ g, s.removes c = some g ∧ CloudFireStore.deleteGrocery s.db g = .ok (s.step c).db := by
  cases c with
  | getAllGroceries lag => exact .inl rfl
  | addGrocery g =>
    rcases s.orElse_cases (CloudFireStore.addGrocery s.db g) with h | ⟨db, hok, h⟩
    · exact .inl (congrArg db h)
    · exact .inr (.inl ⟨g, rfl, hok.trans (congrArg (Except.ok ·.db) h).symm⟩)
  | deleteGrocery row =>
    cases hg : s.objects[row]? with
    | none => exact .inl (by simp [step, hg])
    | some g =>
      rw [step_deleteGrocery hg]
      rcases s.orElse_cases (CloudFireStore.deleteGrocery s.db g) with h | ⟨db, hok, h⟩
      · exact .inl (congrArg db h)
      · exact .inr (.inr ⟨g, hg, hok.trans (congrArg (Except.ok ·.db) h).symm⟩)
  | uploadImage row =>
    left
    simp only [step]
    split <;> rfl
  | putDataDone u =>
    left
    simp only [step]
    split <;> rfl
  | downloadURLDone u url =>
    rcases step_downloadURLDone s u url with h | ⟨row, g, hu, hg, h⟩
    · exact .inl (by rw [h])
    rcases url with _ | url
    · exact .inl (by rw [h]; rfl)
    rcases s.orElse_cases (CloudFireStore.addGrocery s.db { g with image := some url }) with
      hsame | ⟨db, hok, hwritten⟩
    · left
      rw [h]
      change (s.orElse (CloudFireStore.addGrocery s.db { g with image := some url })).db = s.db
      rw [hsame]
    · refine .inr (.inl ⟨{ g with image := some url }, by simp [writes, hu, hg], ?_⟩)
      rw [h, hok]
      change _ = Except.ok
        (s.orElse (CloudFireStore.addGrocery s.db { g with image := some url })).db
      rw [hwritten]

/-- The states the collection was in stay, with the present one after them if a call has written. -/
theorem step_past_cases (s : ApiState) (c : ApiCall) :
    ((s.step c).past = s.past ∧ (s.step c).db = s.db) ∨ (s.step c).past = s.past ++ [s.db] := by
  have horElse : ∀ result, ((s.orElse result).past = s.past ∧ (s.orElse result).db = s.db) ∨
      (s.orElse result).past = s.past ++ [s.db] := by
    intro result
    rcases s.orElse_cases result with h | ⟨db, -, h⟩
    · exact .inl (by rw [h]; exact ⟨rfl, rfl⟩)
    · exact .inr (by rw [h])
  cases c with
  | getAllGroceries lag => exact .inl ⟨rfl, rfl⟩
  | addGrocery g => exact horElse _
  | deleteGrocery row =>
    cases hg : s.objects[row]? with
    | none => exact .inl (by simp [step, hg])
    | some g =>
      rw [step_deleteGrocery hg]
      exact horElse _
  | uploadImage row =>
    left
    simp only [step]
    split <;> exact ⟨rfl, rfl⟩
  | putDataDone u =>
    left
    simp only [step]
    split <;> exact ⟨rfl, rfl⟩
  | downloadURLDone u url =>
    rcases step_downloadURLDone s u url with h | ⟨row, g, -, -, h⟩
    · exact .inl (by rw [h]; exact ⟨rfl, rfl⟩)
    · rw [h]
      exact horElse _

theorem version_le_step (s : ApiState) (c : ApiCall) : s.version ≤ (s.step c).version := by
  unfold version
  rcases s.step_past_cases c with ⟨h, -⟩ | h
  · rw [h]
  · rw [h, List.length_append]
    omega

/-- What the collection was in a state it has reached does not change. -/
theorem stateAt_step {v : ℕ} (h : v ≤ s.version) (c : ApiCall) :
    (s.step c).stateAt v = s.stateAt v := by
  have hprefix : s.states <+: (s.step c).states := by
    unfold states
    rcases s.step_past_cases c with ⟨hpast, hdb⟩ | hpast
    · exact hpast ▸ hdb ▸ List.prefix_rfl
    · rw [hpast]
      exact List.prefix_append _ _
  have hlt : v < s.states.length := length_states ▸ Nat.lt_succ_of_le h
  have hget := hprefix.getElem hlt
  unfold stateAt
  rw [List.getElem?_eq_getElem hlt, List.getElem?_eq_getElem (hlt.trans_le hprefix.length_le), hget,
    Option.getD_some, Option.getD_some]

theorem stateAt_run {v : ℕ} (h : v ≤ s.version) (calls : List ApiCall) :
    v ≤ (run ApiState.step s calls).version ∧ (run ApiState.step s calls).stateAt v = s.stateAt v :=
  run_invariant (I := fun s' : ApiState => v ≤ s'.version ∧ s'.stateAt v = s.stateAt v)
    (fun s' c h' => ⟨h'.1.trans (s'.version_le_step c), (stateAt_step h'.1 c).trans h'.2⟩)
    ⟨h, rfl⟩ calls

/-! ### The objects -/

/-- A call decodes the listed objects of one state, or leaves all objects, or sets the image of
one. -/
theorem objects_step (s : ApiState) (c : ApiCall) :
    (∃ lag, c = .getAllGroceries lag ∧
      (s.step c).objects =
        s.objects ++ CloudFireStore.getAllGroceries (s.stateAt (s.version - lag)) ∧
      (s.step c).versions = s.versions ++
        (CloudFireStore.getAllGroceries (s.stateAt (s.version - lag))).map
          fun _ => s.version - lag) ∨
    ((s.step c).versions = s.versions ∧ ((s.step c).objects = s.objects ∨
      ∃ row g url, s.objects[row]? = some g ∧
        (s.step c).objects = s.objects.set row { g with image := some url })) := by
  have horElse : ∀ result, (s.orElse result).versions = s.versions ∧
      (s.orElse result).objects = s.objects := by
    intro result
    rcases s.orElse_cases result with h | ⟨db, -, h⟩ <;> rw [h] <;> exact ⟨rfl, rfl⟩
  cases c with
  | getAllGroceries lag => exact .inl ⟨lag, rfl, rfl, rfl⟩
  | addGrocery g => exact .inr ⟨(horElse _).1, .inl (horElse _).2⟩
  | deleteGrocery row =>
    right
    cases hg : s.objects[row]? with
    | none => simp [step, hg]
    | some g =>
      rw [step_deleteGrocery hg]
      exact ⟨(horElse _).1, .inl (horElse _).2⟩
  | uploadImage row =>
    right
    simp only [step]
    split <;> exact ⟨rfl, .inl rfl⟩
  | putDataDone u =>
    right
    simp only [step]
    split <;> exact ⟨rfl, .inl rfl⟩
  | downloadURLDone u url =>
    right
    rcases step_downloadURLDone s u url with h | ⟨row, g, -, hg, h⟩
    · exact ⟨by rw [h], .inl (by rw [h])⟩
    refine ⟨by rw [h]; exact (horElse _).1, ?_⟩
    rcases url with _ | url
    · left
      rw [h]
      show s.objects.set row g = s.objects
      rw [← List.getElem?_eq_some_iff.mp hg |>.2, List.set_getElem_self]
    · exact .inr ⟨row, g, url, hg, by rw [h]; rfl⟩

/-- Objects are decoded from a state of the collection, and later calls change nothing of them but
the image. -/
theorem step_objects_cases {r : ℕ} {g : GroceryVO} (h : (s.step c).objects[r]? = some g) :
    (∃ g₀, s.objects[r]? = some g₀ ∧ g₀.name = g.name ∧ g₀.description = g.description ∧
      g₀.amount = g.amount) ∨
    (s.objects.length ≤ r ∧ ∃ lag, c = .getAllGroceries lag ∧
      g ∈ CloudFireStore.getAllGroceries (s.stateAt (s.version - lag))) := by
  rcases objects_step s c with ⟨lag, hc, hobj, -⟩ | ⟨-, hobj | ⟨row, g₀, url, hg₀, hobj⟩⟩
  · rw [hobj] at h
    rcases Nat.lt_or_ge r s.objects.length with hr | hr
    · rw [List.getElem?_append_left hr] at h
      exact .inl ⟨g, h, rfl, rfl, rfl⟩
    · rw [List.getElem?_append_right hr] at h
      exact .inr ⟨hr, lag, hc, List.mem_of_getElem? h⟩
  · rw [hobj] at h
    exact .inl ⟨g, h, rfl, rfl, rfl⟩
  · rw [hobj, List.getElem?_set] at h
    split_ifs at h with hr hlt
    · obtain rfl := Option.some.inj h
      exact .inl ⟨g₀, hr ▸ hg₀, rfl, rfl, rfl⟩
    · exact .inl ⟨g, h, rfl, rfl, rfl⟩

theorem length_objects_le (s : ApiState) (c : ApiCall) :
    s.objects.length ≤ (s.step c).objects.length := by
  rcases objects_step s c with ⟨lag, -, hobj, -⟩ | ⟨-, hobj | ⟨row, g, url, -, hobj⟩⟩
  · rw [hobj, List.length_append]
    omega
  · rw [hobj]
  · rw [hobj, List.length_set]

/-- Two groceries that differ in the image at most. -/
def SameButImage (g g' : GroceryVO) : Prop :=
  g.name = g'.name ∧ g.description = g'.description ∧ g.amount = g'.amount

theorem SameButImage.refl (g : GroceryVO) : SameButImage g g := ⟨rfl, rfl, rfl⟩

theorem SameButImage.trans {g g' g'' : GroceryVO} (h : SameButImage g g')
    (h' : SameButImage g' g'') : SameButImage g g'' :=
  ⟨h.1.trans h'.1, h.2.1.trans h'.2.1, h.2.2.trans h'.2.2⟩

/-- Once the image is set, groceries that differed in it are the same. -/
theorem SameButImage.with_image {g g' : GroceryVO} (h : SameButImage g g') (url : String) :
    ({ g with image := some url } : GroceryVO) = { g' with image := some url } := by
  obtain ⟨hname, hdescription, hamount⟩ := h
  rw [hname, hdescription, hamount]

/-- An object stays where it is and what it is, but for its image. -/
theorem step_objects_keep {r : ℕ} {g : GroceryVO} (c : ApiCall) (h : s.objects[r]? = some g) :
    ∃ g', (s.step c).objects[r]? = some g' ∧ SameButImage g g' := by
  have hr : r < s.objects.length := (List.getElem?_eq_some_iff.mp h).1
  have hr' : r < (s.step c).objects.length := hr.trans_le (length_objects_le s c)
  obtain ⟨g', hg'⟩ : ∃ g', (s.step c).objects[r]? = some g' := ⟨_, List.getElem?_eq_getElem hr'⟩
  refine ⟨g', hg', ?_⟩
  rcases step_objects_cases hg' with ⟨g₀, hg₀, hsame⟩ | ⟨hle, -, -⟩
  · obtain rfl := Option.some.inj (h.symm.trans hg₀)
    exact hsame
  · omega

theorem run_objects_keep {r : ℕ} {g : GroceryVO} (h : s.objects[r]? = some g)
    (calls : List ApiCall) :
    ∃ g', (run ApiState.step s calls).objects[r]? = some g' ∧ SameButImage g g' := by
  induction calls generalizing s g with
  | nil => exact ⟨g, h, .refl g⟩
  | cons c calls ih =>
    obtain ⟨g₁, hg₁, hsame⟩ := step_objects_keep c h
    obtain ⟨g', hg', hsame'⟩ := ih hg₁
    exact ⟨g', hg', hsame.trans hsame'⟩

/-- An upload whose closures run one after the other does what its last closure does with the
object. -/
theorem run_upload_eq {r : ℕ} {g : GroceryVO} (h : s.objects[r]? = some g) (url : Option String) :
    run ApiState.step s [.uploadImage r, .putDataDone s.uploads.length,
        .downloadURLDone s.uploads.length url] =
      { s.orElse (onDownloadURL s.db g url).2 with
        objects := s.objects.set r (onDownloadURL s.db g url).1
        uploads := s.uploads ++ [⟨r, .finished⟩] } := by
  obtain ⟨hr, rfl⟩ := List.getElem?_eq_some_iff.mp h
  have horElse : ∀ (s' : ApiState) (result : Except HardFail Firestore),
      s'.orElse result = { s' with
        db := (result.toOption).getD s'.db
        past := s'.past ++ (result.toOption.map fun _ => s'.db).toList } := by
    intro s' result
    cases result <;> simp [orElse, Except.toOption]
  simp [step, hr, horElse]

/-- An upload whose closures run one after the other writes its object with the image. -/
theorem run_upload {r : ℕ} {g : GroceryVO} {ref : DocumentReference}
    (h : s.objects[r]? = some g) (href : groceries.document (g.name.getD "") = .ok ref)
    (url : String) :
    run ApiState.step s [.uploadImage r, .putDataDone s.uploads.length,
        .downloadURLDone s.uploads.length (some url)] =
      { s with
        db := s.db.setData ref (groceryDictionary { g with image := some url })
        past := s.past ++ [s.db]
        objects := s.objects.set r { g with image := some url }
        uploads := s.uploads ++ [⟨r, .finished⟩] } := by
  rw [run_upload_eq h, onDownloadURL_of_document href url]
  rfl

/-- An upload that gets no URL writes nothing. -/
theorem run_upload_failed (r : ℕ) :
    (run ApiState.step s [.uploadImage r, .putDataDone s.uploads.length,
      .downloadURLDone s.uploads.length none]).db = s.db := by
  by_cases hr : r < s.objects.length
  · rw [run_upload_eq (List.getElem?_eq_getElem hr)]
    rfl
  · simp [step, hr]

/-! ## The names of objects and documents -/

/-- The object came from a listed row: its name leads to a document of the collection. -/
def Named (g : GroceryVO) : Prop :=
  ∃ name id, g.name = some name ∧ groceries.document name = .ok (groceryRef id)

/-- In every state every document holds the name that leads to it, and every object was decoded from
one of the states and has changed in its image at most. -/
structure Consistent (s : ApiState) : Prop where
  written : Written s.db
  past : ∀ db ∈ s.past, Written db
  length_versions : s.versions.length = s.objects.length
  decoded : ∀ (r : ℕ) (g : GroceryVO) (version : ℕ), s.objects[r]? = some g →
    s.versions[r]? = some version → version ≤ s.version ∧
      ∃ row ∈ CloudFireStore.getAllGroceries (s.stateAt version), SameButImage row g

theorem consistent_init : Consistent {} where
  written := written_empty
  past := by simp
  length_versions := rfl
  decoded := by simp

theorem Consistent.written_stateAt (h : Consistent s) (version : ℕ) :
    Written (s.stateAt version) := by
  rcases s.mem_stateAt version with hmem | heq
  · exact h.past _ hmem
  · exact heq ▸ h.written

theorem named_of_listed {db : Firestore} (h : Written db) {g : GroceryVO}
    (hg : g ∈ CloudFireStore.getAllGroceries db) : Named g := by
  obtain ⟨id, g₀, rfl, -, hdoc⟩ := h.mem_getAllGroceries.mp hg
  exact ⟨_, id, rfl, hdoc⟩

theorem Consistent.version_of (h : Consistent s) {r : ℕ} {g : GroceryVO}
    (hg : s.objects[r]? = some g) : ∃ version, s.versions[r]? = some version := by
  have hr := (List.getElem?_eq_some_iff.mp hg).1
  rw [← h.length_versions] at hr
  exact ⟨_, List.getElem?_eq_getElem hr⟩

theorem Consistent.named (h : Consistent s) (r : ℕ) (g : GroceryVO)
    (hg : s.objects[r]? = some g) : Named g := by
  obtain ⟨version, hversion⟩ := h.version_of hg
  obtain ⟨-, row, hrow, hsame⟩ := h.decoded r g version hg hversion
  obtain ⟨name, id, hname, hdoc⟩ := named_of_listed (h.written_stateAt version) hrow
  exact ⟨name, id, hsame.1 ▸ hname, hdoc⟩

theorem Consistent.step (h : Consistent s) (c : ApiCall) : Consistent (s.step c) where
  written := by
    rcases step_db_cases s c with hdb | ⟨g, -, hadd⟩ | ⟨g, -, hdel⟩
    · rw [hdb]; exact h.written
    · exact h.written.addGrocery hadd
    · exact h.written.deleteGrocery hdel
  past := by
    intro db hdb
    rcases step_past_cases s c with ⟨hpast, -⟩ | hpast
    · exact h.past db (hpast ▸ hdb)
    · rw [hpast, List.mem_append, List.mem_singleton] at hdb
      rcases hdb with hdb | rfl
      · exact h.past db hdb
      · exact h.written
  length_versions := by
    rcases objects_step s c with ⟨lag, -, hobj, hversions⟩ |
      ⟨hversions, hobj | ⟨row, g, url, -, hobj⟩⟩
    · rw [hobj, hversions, List.length_append, List.length_append, h.length_versions,
        List.length_map]
    · rw [hobj, hversions, h.length_versions]
    · rw [hobj, hversions, h.length_versions, List.length_set]
  decoded := by
    intro r g version hg hversion
    -- an object that was there before
    have hold : ∀ g₀, s.objects[r]? = some g₀ → s.versions[r]? = some version →
        SameButImage g₀ g → version ≤ (s.step c).version ∧
          ∃ row ∈ CloudFireStore.getAllGroceries ((s.step c).stateAt version),
            SameButImage row g := by
      intro g₀ hg₀ hversion₀ hsame
      obtain ⟨hle, row, hrow, hsame₀⟩ := h.decoded r g₀ version hg₀ hversion₀
      exact ⟨hle.trans (s.version_le_step c), row, by rwa [stateAt_step hle], hsame₀.trans hsame⟩
    rcases objects_step s c with ⟨lag, -, hobj, hversions⟩ |
      ⟨hversions, hobj | ⟨row, g₁, url, hg₁, hobj⟩⟩
    · rw [hobj] at hg
      rw [hversions] at hversion
      rcases Nat.lt_or_ge r s.objects.length with hr | hr
      · rw [List.getElem?_append_left hr] at hg
        rw [List.getElem?_append_left (h.length_versions.symm ▸ hr)] at hversion
        exact hold g hg hversion (.refl g)
      · rw [List.getElem?_append_right hr] at hg
        rw [List.getElem?_append_right (h.length_versions.symm ▸ hr), List.getElem?_map,
          h.length_versions, hg, Option.map_some, Option.some.injEq] at hversion
        subst hversion
        have hle : s.version - lag ≤ s.version := Nat.sub_le _ _
        refine ⟨hle.trans (s.version_le_step c), g, ?_, .refl g⟩
        rw [stateAt_step hle]
        exact List.mem_of_getElem? hg
    · exact hold g (hobj ▸ hg) (hversions ▸ hversion) (.refl g)
    · rw [hversions] at hversion
      rw [hobj, List.getElem?_set] at hg
      split_ifs at hg with hr hlt
      · obtain rfl := Option.some.inj hg
        exact hold g₁ (hr ▸ hg₁) hversion ⟨rfl, rfl, rfl⟩
      · exact hold g hg hversion (.refl g)

theorem Consistent.run (h : Consistent s) (calls : List ApiCall) :
    Consistent (run ApiState.step s calls) :=
  run_invariant (I := Consistent) (fun _ c hs => hs.step c) h calls

end ApiState

end GroceryApp
