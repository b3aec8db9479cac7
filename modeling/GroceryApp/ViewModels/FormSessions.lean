import GroceryApp.Network.SegmentNames
import GroceryApp.ViewModels.Sessions

/-!
# Saves that overwrite and saves that duplicate

The pencil and the Add New button open one form on one set of texts, which nothing clears, and
both save with one create-or-replace write at the document of the typed name. So an Add New session
keeps all groceries exactly if no other grocery has that document (`addsOnly_iff`), and an edit
session moves its row exactly if the new name has the document of the old one (`movesRow_iff`): the
document of the old name is never deleted.
-/

namespace GroceryApp

open CloudFireStore Runs

/-- Every listed grocery stays listed as it is, and one more is listed, under a name that was not,
or none. -/
def AddsOnly (db db' : Firestore) : Prop :=
  (∀ row ∈ getAllGroceries db, row ∈ getAllGroceries db') ∧
    ((∃ row name, row.name = some name ∧ ¬ Listed db name ∧
        (getAllGroceries db').Perm (row :: getAllGroceries db)) ∨
      getAllGroceries db' = getAllGroceries db)

/-- A listed grocery at the document of the grocery that is to be written is that grocery. -/
def Overwritable (db : Firestore) (g : GroceryVO) : Prop :=
  ∀ row ∈ getAllGroceries db,
    groceries.document (row.name.getD "") = groceries.document (g.name.getD "") → row = stored g

/-- The row moves to the new name, unless that belongs to another row. -/
def MovesRow (db db' : Firestore) (row : GroceryVO) (old new : String) : Prop :=
  ((∀ ref, db'.lookup ref = db.lookup ref) ∧
    ∃ other ∈ getAllGroceries db, other ≠ row ∧ other.name = some new) ∨
  ((getAllGroceries db').length = (getAllGroceries db).length ∧
    (new ≠ old → ¬ Listed db' old) ∧
    (∃ moved, (getAllGroceries db').filter (·.name = some new) = [moved]) ∧
    ∀ other ∈ getAllGroceries db, other ≠ row → other ∈ getAllGroceries db')

namespace ApiState

variable {s : ApiState} {g : GroceryVO}

/-- A write whose name leads to no document of the collection leaves the list. -/
theorem getAllGroceries_addGrocery_elsewhere
    (h : ∀ id, groceries.document (g.name.getD "") ≠ .ok (groceryRef id)) :
    CloudFireStore.getAllGroceries (s.step (.addGrocery g)).db =
      CloudFireStore.getAllGroceries s.db := by
  rcases step_db_cases s (.addGrocery g) with hdb | ⟨g', hg', hadd⟩ | ⟨g', hg', -⟩
  · rw [hdb]
  · obtain rfl := Option.some.inj hg'
    obtain ⟨ref, href, hdb⟩ := addGrocery_eq_ok_iff.mp hadd
    rw [hdb]
    refine getAllGroceries_congr fun id => Firestore.lookup_setData_of_ne ?_
    rintro rfl
    exact h id href
  · cases hg'

/-- Writing a listed grocery again changes no document. -/
theorem lookup_addGrocery_of_listed (hw : Written s.db)
    (hg : stored g ∈ CloudFireStore.getAllGroceries s.db) (ref : DocumentReference) :
    (s.step (.addGrocery g)).db.lookup ref = s.db.lookup ref := by
  obtain ⟨id, hdoc⟩ := hw.exists_id hg rfl
  rw [db_addGrocery hdoc, Firestore.lookup_setData]
  split_ifs with he
  · rw [he, hw.lookup_row hg hdoc, groceryDictionary_stored]
  · rfl

end ApiState

namespace CloudFireStore

variable {s : ApiState} {g : GroceryVO}

/-- A write that overwrites no other grocery only adds. -/
theorem Written.addsOnly (h : Written s.db) (hover : Overwritable s.db g) :
    AddsOnly s.db (s.step (.addGrocery g)).db := by
  by_cases hid : ∃ id, groceries.document (g.name.getD "") = .ok (groceryRef id)
  · obtain ⟨id, hdoc⟩ := hid
    by_cases hlisted : stored g ∈ getAllGroceries s.db
    · have hlist : getAllGroceries (s.step (.addGrocery g)).db = getAllGroceries s.db :=
        getAllGroceries_congr fun id => ApiState.lookup_addGrocery_of_listed h hlisted _
      exact ⟨fun row hrow => hlist ▸ hrow, .inr hlist⟩
    · have hfree : ∀ row ∈ getAllGroceries s.db,
          groceries.document (row.name.getD "") ≠ .ok (groceryRef id) :=
        fun row hrow hrowdoc => hlisted (hover row hrow (hrowdoc.trans hdoc.symm) ▸ hrow)
      have hperm := h.perm_setData_of_free hdoc hfree
      rw [← ApiState.db_addGrocery hdoc] at hperm
      refine ⟨fun row hrow => hperm.mem_iff.mpr (List.mem_cons_of_mem _ hrow),
        .inl ⟨stored g, g.name.getD "", rfl, ?_, hperm⟩⟩
      rintro ⟨row, hrow, hname⟩
      exact hfree row hrow (by rw [hname]; exact hdoc)
  · have hlist := ApiState.getAllGroceries_addGrocery_elsewhere (s := s) (not_exists.mp hid)
    exact ⟨fun row hrow => hlist ▸ hrow, .inr hlist⟩

/-- A write that keeps all groceries overwrites no other. -/
theorem Written.overwritable (h : Written s.db)
    (hadds : AddsOnly s.db (s.step (.addGrocery g)).db) : Overwritable s.db g := by
  intro row hrow hdoc
  obtain ⟨id, hrowdoc⟩ := h.exists_id hrow (by rw [← h.stored_row hrow]; rfl)
  rw [hrowdoc] at hdoc
  have hmem := hadds.1 row hrow
  rw [ApiState.db_addGrocery hdoc.symm, h.mem_setData] at hmem
  exact hmem.resolve_right fun hother => hother.2 hrowdoc

/-- A write under a name that leads to the document of a row moves the row to that name. -/
theorem Written.movesRow_of_document_eq (h : Written s.db) {row : GroceryVO} {old new : String}
    (hrow : row ∈ getAllGroceries s.db) (hold : row.name = some old) (hnew : g.name = some new)
    (hdoc : groceries.document new = groceries.document old) :
    MovesRow s.db (s.step (.addGrocery g)).db row old new := by
  obtain ⟨id, holddoc⟩ := h.exists_id hrow hold
  have hrowdoc : groceries.document (row.name.getD "") = .ok (groceryRef id) := by
    rw [hold]; exact holddoc
  have hgdoc : groceries.document (g.name.getD "") = .ok (groceryRef id) := by
    rw [hnew]; exact hdoc.trans holddoc
  have hperm := h.perm_setData_of_taken hgdoc hrow hrowdoc
  have hw := h.addGrocery (addGrocery_eq_ok_iff.mpr ⟨_, hgdoc, rfl⟩)
  right
  rw [ApiState.db_addGrocery hgdoc]
  refine ⟨?_, ?_, ⟨stored g, ?_⟩, ?_⟩
  · have hpos := List.length_pos_of_mem hrow
    rw [hperm.length_eq, List.length_cons, List.length_erase_of_mem hrow]
    omega
  · rintro hne ⟨vo, hvo, hvoname⟩
    rcases h.mem_setData.mp hvo with rfl | ⟨-, hother⟩
    · rw [stored_name, hnew] at hvoname
      exact hne (Option.some.inj hvoname)
    · rw [hvoname] at hother
      exact hother holddoc
  · exact hw.filter_name (h.mem_setData.mpr (.inl rfl)) (by rw [stored_name, hnew]; rfl)
  · intro other hother hne
    exact hperm.mem_iff.mpr (List.mem_cons_of_mem _ ((List.mem_erase_of_ne hne).mpr hother))

/-- Exactly these writes move a listed row: the new name leads to its document, or what is written
is listed already. -/
theorem Written.movesRow_iff (h : Written s.db) {row : GroceryVO} {old new : String}
    (hrow : row ∈ getAllGroceries s.db) (hold : row.name = some old) (hnew : g.name = some new) :
    MovesRow s.db (s.step (.addGrocery g)).db row old new ↔
      groceries.document new = groceries.document old ∨ stored g ∈ getAllGroceries s.db := by
  have hstored : (stored g).name = some new := by rw [stored_name, hnew]; rfl
  constructor
  · rintro (⟨hsame, other, hother, -, hothername⟩ | ⟨-, hgone, -⟩)
    · right
      obtain ⟨id, hid⟩ := h.exists_id hother hothername
      have hgdoc : groceries.document (g.name.getD "") = .ok (groceryRef id) := by
        rw [hnew]; exact hid
      have hlookup := hsame (groceryRef id)
      rw [ApiState.db_addGrocery hgdoc, Firestore.lookup_setData_self,
        h.lookup_row hother (by rw [hothername]; exact hid)] at hlookup
      rwa [← readDocument_groceryDictionary, Option.some.inj hlookup,
        readDocument_groceryDictionary, h.stored_row hother]
    · left
      by_contra hdoc
      refine hgone (fun he => hdoc (by rw [he])) ⟨row, ?_, hold⟩
      -- the document of the old name is still there
      by_cases hid : ∃ id, groceries.document (g.name.getD "") = .ok (groceryRef id)
      · obtain ⟨id, hgdoc⟩ := hid
        rw [ApiState.db_addGrocery hgdoc, h.mem_setData]
        refine .inr ⟨hrow, fun hrowdoc => hdoc ?_⟩
        rw [hold] at hrowdoc
        rw [hnew] at hgdoc
        exact hgdoc.trans hrowdoc.symm
      · rwa [ApiState.getAllGroceries_addGrocery_elsewhere (not_exists.mp hid)]
  · rintro (hdoc | hlisted)
    · exact h.movesRow_of_document_eq hrow hold hnew hdoc
    · by_cases he : stored g = row
      · obtain rfl : new = old := by
          rw [he, hold] at hstored
          exact (Option.some.inj hstored).symm
        exact h.movesRow_of_document_eq hrow hold hnew rfl
      · exact .inl ⟨ApiState.lookup_addGrocery_of_listed h hlisted, stored g, hlisted, he, hstored⟩

end CloudFireStore

namespace World

variable {Client : Type} [DecidableEq Client]

/-- The texts of an open form are changed any number of times. -/
def typeTexts (w : World Client) (c : Client) (texts : List (String × String × String)) :
    World Client :=
  run step w (texts.map fun t => .editForm c t.1 t.2.1 t.2.2)

/-- The Add New button opens the form on the texts as they are; they are changed and saved. -/
def addNew (w : World Client) (c : Client) (texts : List (String × String × String)) :
    World Client :=
  (w.typeTexts c texts).step (.tapAddGrocery c)

/-- The pencil session on the row that is listed as `old`. -/
def editRow (w : World Client) (c : Client) (old new description amount : String) :
    World Client :=
  (w.tapRow c old (.tapPencil c)).saveForm c new description amount

/-- The grocery saved from these form texts. -/
def typed (name description amount : String) : GroceryVO where
  name := some name
  description := some description
  amount := some ((intOfString amount).getD 0)

theorem api_typeTexts (w : World Client) (c : Client) (texts : List (String × String × String)) :
    (w.typeTexts c texts).api = w.api := by
  induction texts generalizing w with
  | nil => rfl
  | cons t texts ih => exact (ih _).trans rfl

/-- From every reachable state, whatever earlier sessions left in the form and whatever is typed
over it: an Add New session keeps all groceries and adds one under a new name, or none, exactly if
every grocery listed at the document of the name in the form is what the form saves. -/
theorem addsOnly_iff (es : List (ClientEvent Client)) (c : Client)
    (texts : List (String × String × String)) :
    let w := run step ({} : World Client) es
    AddsOnly w.db (w.addNew c texts).db ↔
      Overwritable w.db ((w.typeTexts c texts).viewModel c).onTapAddGrocery := by
  intro w
  have hw : Written w.db := (consistent es).written
  have hdb : (w.addNew c texts).db =
      (w.api.step (.addGrocery ((w.typeTexts c texts).viewModel c).onTapAddGrocery)).db := by
    rw [← api_typeTexts w c texts, addNew, db, step_api_of_call rfl]
  rw [hdb]
  exact ⟨hw.overwritable, hw.addsOnly⟩

/-- From every reachable state and for every listed row and all new texts: an edit session moves
the row exactly if the new name leads to the document of the old one, or the grocery that is saved
is listed already. -/
theorem editRow_movesRow_iff (es : List (ClientEvent Client)) (c : Client) (row : GroceryVO)
    (old new description amount : String)
    (hrow : row ∈ getAllGroceries (run step ({} : World Client) es).db)
    (hold : row.name = some old) :
    let w := run step ({} : World Client) es
    MovesRow w.db (w.editRow c old new description amount).db row old new ↔
      groceries.document new = groceries.document old ∨
        stored (typed new description amount) ∈ getAllGroceries w.db := by
  intro w
  have hw : Written w.db := (consistent es).written
  have hdb : (w.tapRow c old (.tapPencil c)).api.db = w.db :=
    (tapPencil_of_listed (c := c) hw hrow hold).1
  have hsave : (w.editRow c old new description amount).db =
      ((w.tapRow c old (.tapPencil c)).api.step (.addGrocery (typed new description amount))).db :=
    congrArg ApiState.db (api_saveForm description amount)
  have hiff := Written.movesRow_iff (s := (w.tapRow c old (.tapPencil c)).api)
    (g := typed new description amount) (by rwa [hdb]) (by rwa [hdb]) hold rfl
  rw [hdb] at hiff
  rw [hsave]
  exact hiff

/-! ## The two slips -/

/-- A client saves milk and uploads a picture for it. -/
def milkWithPicture : List (ClientEvent ℕ) :=
  [.editForm 0 "milk" "fresh" "2", .tapAddGrocery 0, .snapshot 0, .tapUpload 0 0, .imageChosen 0,
    .putDataDone 0, .downloadURLDone 0 (some "https://storage/milk.jpg")]

def milkRow : GroceryVO := ⟨some "milk", some "fresh", some 2, some "https://storage/milk.jpg"⟩

theorem getAllGroceries_milkWithPicture :
    getAllGroceries (run step {} milkWithPicture).db = [milkRow] := by decide

theorem isSegment_of_listed_milk {name : String}
    (h : Listed (run step {} milkWithPicture).db name) : IsSegment name :=
  isSegment_of_listed (by decide) h

/-- The texts of the last save are still in the form, and saving them again drops the picture. -/
theorem addsOnly_fails : ¬ ∀ (es : List (ClientEvent ℕ)) (c : ℕ)
    (texts : List (String × String × String)),
    (∀ name, Listed (run step {} es).db name → IsSegment name) →
    AddsOnly (run step {} es).db ((run step {} es).addNew c texts).db := by
  intro h
  have hkeeps := (h milkWithPicture 0 [] fun name => isSegment_of_listed_milk).1 milkRow
  exact absurd (hkeeps (by decide)) (by decide)

theorem editRow_movesRow_milk :
    MovesRow (run step {} milkWithPicture).db
        ((run step {} milkWithPicture).editRow 1 "milk" "/milk" "fat" "3").db milkRow "milk"
        "/milk" ↔
      groceries.document "/milk" = groceries.document "milk" ∨
        stored (typed "/milk" "fat" "3") ∈ getAllGroceries (run step {} milkWithPicture).db :=
  editRow_movesRow_iff milkWithPicture 1 milkRow "milk" "/milk" "fat" "3" (by decide) rfl

/-- A rename to a name that nobody has leaves the old row beside the new one. -/
theorem movesRow_fails : ¬ ∀ (es : List (ClientEvent ℕ)) (c : ℕ) (row : GroceryVO)
    (old new description amount : String),
    (∀ name, Listed (run step {} es).db name → IsSegment name) → IsSegment new →
    row ∈ getAllGroceries (run step {} es).db → row.name = some old →
    MovesRow (run step {} es).db ((run step {} es).editRow c old new description amount).db row
      old new := by
  intro h
  rcases h milkWithPicture 0 milkRow "milk" "oat milk" "fresh" "2"
    (fun name => isSegment_of_listed_milk) (by decide) (by decide) rfl with
    ⟨-, other, hother, hne, -⟩ | ⟨-, hgone, -⟩
  · rw [getAllGroceries_milkWithPicture, List.mem_singleton] at hother
    exact hne hother
  · exact hgone (by decide) (by decide)

end World

end GroceryApp
