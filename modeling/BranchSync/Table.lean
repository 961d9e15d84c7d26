/-!
# Finite tables keyed by text

A table holds at most one value per key. Inserting under a key that is present replaces its
value in place; a new key goes to the end, so a table remembers the order of first insertion.
A table is read through `get?`, and `get?_insert` says all that later modules need to know.
-/

namespace BranchSync

variable {β γ : Type}

namespace Table

/-- The value under `key` in a list of entries. -/
def find? (key : String) : List (String × β) → Option β
  | [] => none
  | (k, v) :: rest => if k = key then some v else find? key rest

/-- Replace the value under `key`, or append a new entry. -/
def put (key : String) (value : β) : List (String × β) → List (String × β)
  | [] => [(key, value)]
  | (k, v) :: rest => if k = key then (key, value) :: rest else (k, v) :: put key value rest

/-- The keys of a list of entries. -/
def keysOf (entries : List (String × β)) : List String :=
  entries.map Prod.fst

/-- Putting a value adds no key but its own. -/
theorem mem_keysOf_put {key k : String} {value : β} {entries : List (String × β)} :
    k ∈ keysOf (put key value entries) ↔ k = key ∨ k ∈ keysOf entries := by
  induction entries with
  | nil => simp [put, keysOf]
  | cons e rest ih =>
    obtain ⟨k', v'⟩ := e
    simp only [keysOf] at ih
    by_cases h : k' = key
    · subst h
      simp [put, keysOf]
    · simp only [put, if_neg h, keysOf, List.map_cons, List.mem_cons, ih]
      constructor
      · intro hkey
        rcases hkey with h' | h' | h'
        · exact .inr (.inl h')
        · exact .inl h'
        · exact .inr (.inr h')
      · intro hkey
        rcases hkey with h' | h' | h'
        · exact .inr (.inl h')
        · exact .inl h'
        · exact .inr (.inr h')

/-- Putting a value keeps the keys distinct. -/
theorem nodup_keysOf_put {key : String} {value : β} {entries : List (String × β)}
    (h : (keysOf entries).Nodup) : (keysOf (put key value entries)).Nodup := by
  induction entries with
  | nil => simp [put, keysOf]
  | cons e rest ih =>
    obtain ⟨k', v'⟩ := e
    have h' : k' ∉ keysOf rest ∧ (keysOf rest).Nodup := by simpa [keysOf] using h
    by_cases hk : k' = key
    · subst hk
      simpa [put, keysOf] using h
    · have hnot : k' ∉ keysOf (put key value rest) := by
        rw [mem_keysOf_put]
        intro hkey
        rcases hkey with rfl | hmem
        · exact hk rfl
        · exact h'.1 hmem
      simpa [put, if_neg hk, keysOf] using And.intro hnot (ih h'.2)

/-- What is found after a put. -/
theorem find?_put {key k : String} {value : β} {entries : List (String × β)} :
    find? k (put key value entries) = if key = k then some value else find? k entries := by
  induction entries with
  | nil => simp [put, find?]
  | cons e rest ih =>
    obtain ⟨k', v'⟩ := e
    by_cases h : k' = key
    · subst h
      by_cases hk : k' = k <;> simp [put, find?, hk]
    · by_cases hk : k' = k
      · subst hk
        simp [put, find?, h, Ne.symm h]
      · simp [put, find?, h, hk, ih]

/-- A later put under the same key makes an earlier one unnoticed. -/
theorem put_put (key : String) (first second : β) (entries : List (String × β)) :
    put key second (put key first entries) = put key second entries := by
  induction entries with
  | nil => simp [put]
  | cons e rest ih =>
    obtain ⟨k, v⟩ := e
    by_cases h : k = key
    · simp [put, h]
    · simp [put, h, ih]

/-- Putting what is found already changes nothing. -/
theorem put_eq_self {key : String} {value : β} {entries : List (String × β)}
    (h : find? key entries = some value) : put key value entries = entries := by
  induction entries with
  | nil => cases h
  | cons e rest ih =>
    obtain ⟨k, v⟩ := e
    by_cases hk : k = key
    · have hv : v = value := by simpa [find?, hk] using h
      simp [put, hk, hv]
    · have hrest : find? key rest = some value := by simpa [find?, hk] using h
      simp [put, hk, ih hrest]

end Table

/-- A finite table from texts to values: a list of entries with distinct keys. -/
structure Table (β : Type) where
  entries : List (String × β)
  nodup : (Table.keysOf entries).Nodup
  deriving DecidableEq

namespace Table

/-- The table without entries. -/
def empty : Table β := ⟨[], by simp [keysOf]⟩

/-- A table of any type may start out empty. -/
instance : Inhabited (Table β) := ⟨empty⟩

/-- The value under a key. -/
def get? (t : Table β) (key : String) : Option β := find? key t.entries

/-- The keys in the order of their first insertion. -/
def keys (t : Table β) : List String := keysOf t.entries

/-- The table with `value` under `key`. -/
def insert (t : Table β) (key : String) (value : β) : Table β :=
  ⟨put key value t.entries, nodup_keysOf_put t.nodup⟩

/-- The table that results from inserting entries in order, so that later ones win. -/
def ofList (entries : List (String × β)) : Table β :=
  entries.foldl (fun t e => t.insert e.1 e.2) empty

/-- An empty table has no value anywhere. -/
@[simp] theorem get?_empty (key : String) : (empty : Table β).get? key = none := rfl

/-- An insertion is visible under its own key and nowhere else. -/
theorem get?_insert (t : Table β) (key k : String) (value : β) :
    (t.insert key value).get? k = if key = k then some value else t.get? k :=
  find?_put

/-- The inserted value is found under its key. -/
@[simp] theorem get?_insert_self (t : Table β) (key : String) (value : β) :
    (t.insert key value).get? key = some value := by
  simp [get?_insert]

/-- Other keys do not notice an insertion. -/
theorem get?_insert_of_ne (t : Table β) {key k : String} (value : β) (h : key ≠ k) :
    (t.insert key value).get? k = t.get? k := by
  simp [get?_insert, h]

/-- Inserting what is there already changes nothing. -/
theorem insert_eq_self {t : Table β} {key : String} {value : β} (h : t.get? key = some value) :
    t.insert key value = t := by
  obtain ⟨entries, hnodup⟩ := t
  simp only [insert, put_eq_self h]

/-- A later insertion under the same key makes an earlier one unnoticed. -/
theorem insert_insert (t : Table β) (key : String) (first second : β) :
    (t.insert key first).insert key second = t.insert key second := by
  simp only [insert, put_put]

end Table

end BranchSync
