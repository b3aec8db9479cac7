import GroceryApp.ViewModels.GroceryViewModel

/-!
# What makes a deleted grocery come back

The last closure of an upload writes its grocery whether or not the document still exists. So a
deleted name is listed again after a form save under it, and also after the upload of an object
from a snapshot that does not show the delete yet (`relisted_only_by`); nothing else brings it back.
The run of `noResurrection_fails` deletes a grocery while its picture is being uploaded.
-/

namespace GroceryApp

open CloudFireStore Runs

namespace CloudFireStore

variable {db db' : Firestore} {g : GroceryVO} {name : String}

/-- A write lists no other name than its own anew. -/
theorem listed_of_addGrocery (h : addGrocery db g = .ok db') (hl : Listed db' name) :
    g.name.getD "" = name ∨ Listed db name := by
  obtain ⟨ref, -, rfl⟩ := addGrocery_eq_ok_iff.mp h
  obtain ⟨vo, hvo, hname⟩ := hl
  by_cases hg : ∃ id, ref = groceryRef id
  · obtain ⟨id, rfl⟩ := hg
    rcases mem_getAllGroceries_setData.mp hvo with rfl | ⟨id', data, -, hlookup, rfl⟩
    · exact .inl (Option.some.inj hname)
    · exact .inr ⟨_, mem_getAllGroceries.mpr ⟨id', data, hlookup, rfl⟩, hname⟩
  · rw [not_exists] at hg
    exact .inr ⟨vo, (mem_getAllGroceries_setData_of_ne hg).mp hvo, hname⟩

theorem listed_of_deleteGrocery (h : deleteGrocery db g = .ok db') (hl : Listed db' name) :
    Listed db name := by
  obtain ⟨ref, -, rfl⟩ := deleteGrocery_eq_ok_iff.mp h
  obtain ⟨vo, hvo, hname⟩ := hl
  obtain ⟨id, data, hlookup, rfl⟩ := mem_getAllGroceries.mp hvo
  rw [Firestore.lookup_delete] at hlookup
  split_ifs at hlookup
  exact ⟨_, mem_getAllGroceries.mpr ⟨id, data, hlookup, rfl⟩, hname⟩

/-- A name is not listed right after a delete of its grocery. -/
theorem Written.not_listed_deleteGrocery (hw : Written db) (hname : g.name = some name)
    (h : CloudFireStore.deleteGrocery db g = .ok db') : ¬ Listed db' name := by
  obtain ⟨ref, href, rfl⟩ := deleteGrocery_eq_ok_iff.mp h
  rintro ⟨vo, hvo, hvoname⟩
  obtain ⟨id, g', rfl, hlookup, hdoc⟩ := (hw.deleteGrocery h).mem_getAllGroceries.mp hvo
  obtain rfl : g'.name.getD "" = name := Option.some.inj hvoname
  rw [hname] at href
  rw [document_unique hdoc href, Firestore.lookup_delete_self] at hlookup
  cases hlookup

end CloudFireStore

namespace ApiState

variable {s : ApiState} {c : ApiCall} {name : String} {H : ℕ}

/-- A name is gone since the collection was in its state number `H`. -/
structure Gone (name : String) (H : ℕ) (s : ApiState) : Prop where
  reached : H ≤ s.version
  not_listed : ∀ version, H ≤ version → version ≤ s.version → ¬ Listed (s.stateAt version) name

theorem Gone.not_listed_db (h : Gone name H s) : ¬ Listed s.db name := by
  rw [← stateAt_version]
  exact h.not_listed s.version h.reached le_rfl

/-- No object that was decoded since then has the name. -/
theorem Gone.not_named (h : Gone name H s) (hs : s.Consistent) {r : ℕ} {g : GroceryVO}
    {version : ℕ} (hg : s.objects[r]? = some g) (hversion : s.versions[r]? = some version)
    (hH : H ≤ version) : g.name ≠ some name := by
  obtain ⟨hle, row, hrow, hsame⟩ := hs.decoded r g version hg hversion
  exact fun hname => h.not_listed version hH hle ⟨row, hrow, hsame.1.trans hname⟩

/-- A gone name stays gone unless a call makes the collection list it. -/
theorem Gone.step (h : Gone name H s) (hnot : ¬ Listed (s.step c).db name) :
    Gone name H (s.step c) where
  reached := h.reached.trans (s.version_le_step c)
  not_listed := by
    intro version hH hle
    rcases Nat.lt_or_ge s.version version with hlt | hge
    · -- the state the call leads to
      have hnew : version = (s.step c).version := by
        rcases s.step_past_cases c with ⟨hpast, -⟩ | hpast <;>
          simp only [ApiState.version, hpast, List.length_append, List.length_singleton] at hlt hle ⊢
          <;> omega
      rwa [hnew, stateAt_version]
    · rw [stateAt_step hge]
      exact h.not_listed version hH hge

/-- A call that makes a gone name listed again is an `addGrocery` under it or the end of an upload
of an object from an earlier state. -/
theorem Gone.step_cases (h : Gone name H s) (hs : s.Consistent)
    (hlost : ¬ Gone name H (s.step c)) :
    (∃ g, c = .addGrocery g ∧ g.name.getD "" = name) ∨
    ∃ u url r g version, c = .downloadURLDone u (some url) ∧
      s.uploads[u]? = some ⟨r, .downloadURL⟩ ∧ s.objects[r]? = some g ∧ g.name = some name ∧
      s.versions[r]? = some version ∧ version < H := by
  have hlisted : Listed (s.step c).db name := by
    by_contra hn
    exact hlost (h.step hn)
  rcases step_db_cases s c with hdb | ⟨g, hwrites, hadd⟩ | ⟨g, -, hdel⟩
  · exact absurd (hdb ▸ hlisted) h.not_listed_db
  · have hname : g.name.getD "" = name :=
      (listed_of_addGrocery hadd hlisted).resolve_right h.not_listed_db
    rcases writes_eq_some hwrites with rfl | ⟨u, url, r, g₀, rfl, hu, hg₀, rfl⟩
    · exact .inl ⟨g, rfl, hname⟩
    · right
      obtain ⟨name', -, hname', -⟩ := hs.named r g₀ hg₀
      obtain rfl : name' = name := by simpa [hname'] using hname
      obtain ⟨version, hversion⟩ := hs.version_of hg₀
      refine ⟨u, url, r, g₀, version, rfl, hu, hg₀, hname', hversion, ?_⟩
      by_contra hH
      exact h.not_named hs hg₀ hversion (not_lt.mp hH) hname'
  · exact absurd (listed_of_deleteGrocery hdel hlisted) h.not_listed_db

/-- A delete of an object makes its name gone. -/
theorem Consistent.gone_deleteGrocery (hs : s.Consistent) {row : ℕ} {g : GroceryVO}
    (hg : s.objects[row]? = some g) (hname : g.name = some name) :
    Gone name (s.step (.deleteGrocery row)).version (s.step (.deleteGrocery row)) where
  reached := le_rfl
  not_listed := by
    intro version hH hle
    rw [Nat.le_antisymm hle hH, stateAt_version]
    obtain ⟨name', id, hname', hdoc⟩ := hs.named row g hg
    have hdel : CloudFireStore.deleteGrocery s.db g = .ok (s.db.delete (groceryRef id)) :=
      deleteGrocery_eq_ok_iff.mpr ⟨_, by rw [hname']; exact hdoc, rfl⟩
    rw [step_deleteGrocery hg, hdel]
    exact hs.written.not_listed_deleteGrocery hname hdel

end ApiState

namespace World

variable {Client : Type} [DecidableEq Client]

/-- The saves of the form and the ends of uploads, as events that write under a name. -/
def SavesForm (w : World Client) (name : String) (e : ClientEvent Client) : Prop :=
  ∃ c, e = .tapAddGrocery c ∧ (w.viewModel c).groceryName = name

/-- The end of the upload of an object under `name` that was decoded from a state before number
`H`. -/
def EndsOldUpload (w : World Client) (name : String) (H : ℕ) (e : ClientEvent Client) : Prop :=
  ∃ u url r g version, e = .downloadURLDone u (some url) ∧
    w.api.uploads[u]? = some ⟨r, .downloadURL⟩ ∧ w.api.objects[r]? = some g ∧
    g.name = some name ∧ w.api.versions[r]? = some version ∧ version < H

theorem gone_step_cases {w : World Client} {e : ClientEvent Client} {name : String} {H : ℕ}
    (h : w.api.Gone name H) (hs : w.api.Consistent) (hlost : ¬ (w.step e).api.Gone name H) :
    w.SavesForm name e ∨ w.EndsOldUpload name H e := by
  cases hc : w.call e with
  | none => exact absurd (step_api_of_no_call hc ▸ h) hlost
  | some c =>
    rw [step_api_of_call hc] at hlost
    rcases h.step_cases hs hlost with ⟨g, rfl, hname⟩ | ⟨u, url, r, g, version, rfl, hold⟩
    · left
      cases e <;> simp only [call, Option.some.injEq, reduceCtorEq, Option.map_eq_some_iff,
        and_false, exists_false, ApiCall.addGrocery.injEq] at hc
      rename_i c
      subst hc
      exact ⟨c, rfl, hname⟩
    · right
      cases e <;> simp only [call, Option.some.injEq, reduceCtorEq, Option.map_eq_some_iff,
        and_false, exists_false, ApiCall.downloadURLDone.injEq] at hc
      obtain ⟨rfl, rfl⟩ := hc
      exact ⟨_, _, r, g, version, rfl, hold⟩

/-- **No resurrection, as it is.** After a delete of a grocery its name is not listed again until
some user saves the form with the name, or the upload of an object ends that was decoded from a
snapshot without the delete. -/
theorem relisted_only_by (es₀ es : List (ClientEvent Client)) (c : Client) (row : ℕ)
    (g : GroceryVO) (name : String)
    (hg : (run step ({} : World Client) es₀).api.objects[row]? = some g)
    (hname : g.name = some name) :
    let w := run step ({} : World Client) (es₀ ++ [.tapDelete c row])
    Listed (run step w es).db name →
      ∃ es₁ e es₂, es = es₁ ++ e :: es₂ ∧
        ((run step w es₁).SavesForm name e ∨
          (run step w es₁).EndsOldUpload name w.api.version e) := by
  intro w hlisted
  have hw : w = (run step {} es₀).step (.tapDelete c row) := run_concat ..
  have hgone : w.api.Gone name w.api.version := by
    rw [hw, step_api_of_call rfl]
    exact (consistent es₀).gone_deleteGrocery hg hname
  have hnot : ¬ (run step w es).api.Gone name w.api.version :=
    fun h => h.not_listed_db hlisted
  obtain ⟨es₁, e, es₂, rfl, hpre, hlost⟩ := exists_step_of_lost
    (I := fun w' : World Client => w'.api.Gone name w.api.version) hgone hnot
  refine ⟨es₁, e, es₂, rfl, gone_step_cases (hpre es₁ List.prefix_rfl) ?_ ?_⟩
  · have h := consistent (es₀ ++ [.tapDelete c row] ++ es₁)
    rwa [run_append] at h
  · rwa [run_concat] at hlost

/-- No grocery is listed again after its delete before some user saves the form with its name. -/
def NoResurrection (Client : Type) [DecidableEq Client] : Prop :=
  ∀ (es₀ es : List (ClientEvent Client)) (c : Client) (row : ℕ) (g : GroceryVO) (name : String),
    (run step ({} : World Client) es₀).api.objects[row]? = some g → g.name = some name →
    let w := run step ({} : World Client) (es₀ ++ [.tapDelete c row])
    Listed (run step w es).db name →
      ∃ es₁ e es₂, es = es₁ ++ e :: es₂ ∧ (run step w es₁).SavesForm name e

/-- One client saves a grocery and chooses a picture for it, another one lists it. -/
def pictureChosen : List (ClientEvent ℕ) :=
  [.editForm 0 "milk" "fresh" "2", .tapAddGrocery 0, .snapshot 0, .tapUpload 0 0, .imageChosen 0,
    .snapshot 1]

def pictureUploaded : List (ClientEvent ℕ) :=
  [.putDataDone 0, .downloadURLDone 0 (some "https://storage/milk.jpg")]

theorem relisted_only_by_upload :
    ∃ es₁ e es₂, pictureUploaded = es₁ ++ e :: es₂ ∧
      ((run step (run step {} (pictureChosen ++ [.tapDelete 1 1])) es₁).SavesForm "milk" e ∨
        (run step (run step {} (pictureChosen ++ [.tapDelete 1 1])) es₁).EndsOldUpload "milk" 2
          e) :=
  relisted_only_by pictureChosen pictureUploaded 1 1
    ⟨some "milk", some "fresh", some 2, some ""⟩ "milk" (by decide) rfl (by decide)

/-- The other client deletes the grocery while the picture is under way: the end of the upload
writes it again. -/
theorem noResurrection_fails : ¬ NoResurrection ℕ := by
  intro h
  obtain ⟨es₁, e, es₂, hes, c, rfl, -⟩ := h pictureChosen pictureUploaded 1 1
    ⟨some "milk", some "fresh", some 2, some ""⟩ "milk" (by decide) rfl (by decide)
  have hmem : ClientEvent.tapAddGrocery c ∈ pictureUploaded := by rw [hes]; simp
  simp [pictureUploaded] at hmem

end World

end GroceryApp
