import StaticSite.Text.Basic

/-! Maps from texts as lists of entries, in the order in which the keys came. -/

namespace StaticSite

abbrev Entries (α : Type) := List (Text × α)

namespace Entries

variable {α : Type}

/-- The value of the first entry with a key. -/
def get? (key : Text) : Entries α → Option α
  | [] => none
  | (k, v) :: es => if k = key then some v else get? key es

def has (es : Entries α) (key : Text) : Bool := (get? key es).isSome

/-- A new key goes to the end; a key that is there keeps its place. -/
def insert (key : Text) (value : α) : Entries α → Entries α
  | [] => [(key, value)]
  | (k, v) :: es => if k = key then (key, value) :: es else (k, v) :: insert key value es

def erase (es : Entries α) (key : Text) : Entries α := es.filter (·.1 ≠ key)

def keys (es : Entries α) : List Text := es.map (·.1)

/-- The map of pairs read in turn, where a later value replaces an earlier one. -/
def ofPairs (pairs : List (Text × α)) : Entries α :=
  pairs.foldl (fun es (k, v) => insert k v es) []

theorem get?_insert (key k : Text) (value : α) (es : Entries α) :
    get? k (insert key value es) = if key = k then some value else get? k es := by
  induction es with
  | nil => rfl
  | cons e es ih =>
    obtain ⟨k', v⟩ := e
    rw [insert]
    split
    · rename_i h
      simp only [get?, h]
      split <;> rfl
    · rename_i h
      simp only [get?, ih]
      split
      · rename_i hk
        rw [if_neg]
        intro hkey
        exact h (hk.trans hkey.symm)
      · rfl

theorem mem_of_get? {key : Text} {value : α} {es : Entries α}
    (h : get? key es = some value) : (key, value) ∈ es := by
  induction es with
  | nil => cases h
  | cons e es ih =>
    obtain ⟨k, v⟩ := e
    rw [get?] at h
    split at h
    · rename_i hk
      cases h
      simp [hk]
    · exact List.mem_cons_of_mem _ (ih h)

theorem mem_keys_of_get? {key : Text} {value : α} {es : Entries α}
    (h : get? key es = some value) : key ∈ es.keys :=
  List.mem_map_of_mem (mem_of_get? h)

@[simp] theorem get?_erase_self (es : Entries α) (key : Text) : get? key (erase es key) = none := by
  induction es with
  | nil => rfl
  | cons e es ih =>
    rw [erase, List.filter_cons]
    split
    · rename_i h
      rw [get?, if_neg (of_decide_eq_true h)]
      exact ih
    · exact ih

end Entries

end StaticSite
