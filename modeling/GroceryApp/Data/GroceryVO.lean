import GroceryApp.Data.SwiftInt

/-!
# Groceries and their dictionaries

Both back ends write a grocery as the same dictionary of four fields and read the fields back with
conditional casts. `stored g` is what comes back of `g`: the texts that were `nil` come back as
empty strings, and a missing amount, written as an empty string, comes back as missing.
-/

namespace GroceryApp

/-- The fields of `GroceryVO` that the app reads and writes. -/
structure GroceryVO where
  name : Option String := none
  description : Option String := none
  amount : Option Int64 := none
  image : Option String := none
  deriving DecidableEq, Repr

/-- A value under a key of the dictionary that is written. -/
inductive FieldValue where
  | string (value : String)
  | int (value : Int64)
  deriving DecidableEq, Repr

/-- The cast `as? String`. -/
def FieldValue.asString : FieldValue → Option String
  | string s => some s
  | int _ => none

/-- The cast `as? Int`. -/
def FieldValue.asInt : FieldValue → Option Int64
  | string _ => none
  | int n => some n

/-- The dictionary `addGrocery` writes. -/
def groceryDictionary (grocery : GroceryVO) : List (String × FieldValue) :=
  [("name", .string (grocery.name.getD "")),
   ("description", .string (grocery.description.getD "")),
   ("amount", (grocery.amount.map FieldValue.int).getD (.string "")),
   ("image", .string (grocery.image.getD ""))]

/-- The grocery read from a dictionary given by its subscript. -/
def readGrocery (subscript : String → Option FieldValue) : GroceryVO where
  name := (subscript "name").bind FieldValue.asString
  description := (subscript "description").bind FieldValue.asString
  amount := (subscript "amount").bind FieldValue.asInt
  image := (subscript "image").bind FieldValue.asString

/-- A grocery as it is read back after it was written. -/
def stored (grocery : GroceryVO) : GroceryVO where
  name := some (grocery.name.getD "")
  description := some (grocery.description.getD "")
  amount := grocery.amount
  image := some (grocery.image.getD "")

/-- An entry of which nothing could be read. -/
def GroceryVO.isBlank (grocery : GroceryVO) : Prop := grocery.name = none

instance (grocery : GroceryVO) : Decidable grocery.isBlank :=
  inferInstanceAs (Decidable (grocery.name = none))

/-- Writing a grocery and reading it back. -/
theorem readGrocery_groceryDictionary (grocery : GroceryVO) :
    readGrocery (fun key => (groceryDictionary grocery).lookup key) = stored grocery := by
  cases grocery with
  | mk name description amount image => cases amount <;> rfl

@[simp] theorem stored_name (g : GroceryVO) : (stored g).name = some (g.name.getD "") := rfl
@[simp] theorem stored_description (g : GroceryVO) :
    (stored g).description = some (g.description.getD "") := rfl
@[simp] theorem stored_amount (g : GroceryVO) : (stored g).amount = g.amount := rfl
@[simp] theorem stored_image (g : GroceryVO) : (stored g).image = some (g.image.getD "") := rfl

/-- A grocery and what is read back of it are written as the same dictionary. -/
@[simp] theorem groceryDictionary_stored (g : GroceryVO) :
    groceryDictionary (stored g) = groceryDictionary g := rfl

theorem stored_not_isBlank (g : GroceryVO) : ¬ (stored g).isBlank := by simp [GroceryVO.isBlank]

/-! ## The end of an upload -/

section CompleteUpload

variable {σ ε : Type} {addGrocery : σ → GroceryVO → Except ε σ} {db db' : σ} {g g' : GroceryVO}

/-- The last closure of `uploadImage`, which is the same in both back ends: what becomes of the
object it captured, and of the stored groceries. The image of the object is set before the write,
so that it stays changed when the write traps. -/
def completeUpload (addGrocery : σ → GroceryVO → Except ε σ) (db : σ) (grocery : GroceryVO)
    (url : Option String) : GroceryVO × Except ε σ :=
  match url with
  | none => (grocery, .ok db)
  | some downloadURL =>
    let grocery := { grocery with image := some downloadURL }
    (grocery, addGrocery db grocery)

/-- The closure either returns at its guard or adds the grocery with the image. -/
theorem completeUpload_eq_ok_iff {url : Option String} :
    completeUpload addGrocery db g url = (g', .ok db') ↔
      (url = none ∧ g' = g ∧ db' = db) ∨
        ∃ downloadURL, url = some downloadURL ∧ g' = { g with image := some downloadURL } ∧
          addGrocery db g' = .ok db' := by
  rcases url with _ | downloadURL
  · simp [completeUpload, eq_comm]
  · simp only [completeUpload, reduceCtorEq, false_and, false_or, Option.some.injEq,
      exists_eq_left', Prod.mk.injEq]
    constructor
    · rintro ⟨rfl, h⟩
      exact ⟨rfl, h⟩
    · rintro ⟨rfl, h⟩
      exact ⟨rfl, h⟩

end CompleteUpload

end GroceryApp
