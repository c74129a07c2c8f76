import Mathlib.Data.List.Basic

/-!
# A tree store that does not keep empty nodes

A key-value tree, as a realtime database keeps it. A value written to the store is read back
unchanged, except that a child without content is absent: an empty array, or an object none of
whose children has content.

## Main definitions

* `TreeStore.Value`: strings, arrays of strings and objects;
* `TreeStore.Value.child`: the child of an object under a key;
* `TreeStore.Value.readBack`: what is read after the value has been written, `none` when nothing
  is left of it.

## Main results

* `readBackChildren_eq_filterMap`: each child is read back on its own;
* `readBack_object`: an object is read back with the children that have content, if any.
-/

namespace TreeStore

/-- A value of the tree. -/
inductive Value
  | string (s : String)
  | strings (a : List String)
  | object (children : List (String × Value))

namespace Value

/-- The child of an object under `key`; other values have no children. -/
def child (v : Value) (key : String) : Option Value :=
  match v with
  | object children => children.lookup key
  | _ => none

/-- The value as a string, if it is one. -/
def asString : Value → Option String
  | string s => some s
  | _ => none

/-- The value as an array of strings, if it is one. -/
def asStrings : Value → Option (List String)
  | strings a => some a
  | _ => none

mutual

/-- What the store returns for a value that was written to it. -/
def readBack : Value → Option Value
  | string s => some (string s)
  | strings a => if a = [] then none else some (strings a)
  | object children =>
    if (readBackChildren children).isEmpty then none
    else some (object (readBackChildren children))

/-- The children that an object keeps. -/
def readBackChildren : List (String × Value) → List (String × Value)
  | [] => []
  | (key, v) :: children =>
    match v.readBack with
    | none => readBackChildren children
    | some w => (key, w) :: readBackChildren children

end

/-- Strings are read back as they are. -/
@[simp]
theorem readBack_string (s : String) : (string s).readBack = some (string s) := by
  rw [readBack]

/-- The empty array is not kept. -/
@[simp]
theorem readBack_strings_nil : (strings []).readBack = none := by
  rw [readBack, if_pos rfl]

/-- Other arrays of strings are read back as they are. -/
theorem readBack_strings {a : List String} (ha : a ≠ []) :
    (strings a).readBack = some (strings a) := by
  rw [readBack, if_neg ha]

/-- Every child is read back on its own, and dropped when nothing is left of it. -/
theorem readBackChildren_eq_filterMap (children : List (String × Value)) :
    readBackChildren children =
      children.filterMap fun c => c.2.readBack.map fun w => (c.1, w) := by
  induction children with
  | nil => rw [readBackChildren, List.filterMap_nil]
  | cons c children ih =>
    obtain ⟨key, v⟩ := c
    rw [readBackChildren, ih]
    -- a child without content is filtered out on both sides
    cases hv : v.readBack with
    | none => simp [hv]
    | some w => simp [hv]

/-- An object is absent when none of its children is left. -/
theorem readBack_object (children : List (String × Value)) :
    (object children).readBack =
      if (readBackChildren children).isEmpty then none
      else some (object (readBackChildren children)) := by
  rw [readBack]

/-- Nothing is left of an object that has only an empty array. -/
example : (object [("images", strings [])]).readBack = none := by
  rw [readBack_object]
  rfl

end Value

end TreeStore
