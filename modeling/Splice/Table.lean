/-!
# Tables in insertion order

A table keeps its entries in the order in which their names first came in.  Putting a name that is
already there changes its entry in place.
-/

namespace Splice

structure Table (α : Type) where
  entries : List (String × α) := []
  deriving DecidableEq, Repr

namespace Table

variable {α : Type}

def get? (t : Table α) (name : String) : Option α :=
  t.entries.lookup name

def contains (t : Table α) (name : String) : Bool :=
  (t.get? name).isSome

def names (t : Table α) : List String :=
  t.entries.map (·.1)

def putEntries (name : String) (value : α) : List (String × α) → List (String × α)
  | [] => [(name, value)]
  | (n, v) :: rest =>
    if n = name then (name, value) :: rest else (n, v) :: putEntries name value rest

def put (t : Table α) (name : String) (value : α) : Table α :=
  ⟨putEntries name value t.entries⟩

theorem get?_put_self (t : Table α) (name : String) (value : α) :
    (t.put name value).get? name = some value := by
  obtain ⟨entries⟩ := t
  simp only [put, get?]
  induction entries with
  | nil => simp [putEntries]
  | cons e rest ih =>
    obtain ⟨n, v⟩ := e
    by_cases h : n = name
    · simp [putEntries, h]
    · have h' : (name == n) = false := by simpa [beq_eq_false_iff_ne] using Ne.symm h
      simp [putEntries, h, List.lookup_cons, h', ih]

theorem get?_put_of_ne (t : Table α) {name other : String} (value : α) (h : other ≠ name) :
    (t.put name value).get? other = t.get? other := by
  obtain ⟨entries⟩ := t
  simp only [put, get?]
  have ho : (other == name) = false := by simpa [beq_eq_false_iff_ne] using h
  induction entries with
  | nil => simp [putEntries, List.lookup_cons, ho]
  | cons e rest ih =>
    obtain ⟨n, v⟩ := e
    by_cases hn : n = name
    · simp [putEntries, hn, List.lookup_cons, ho]
    · simp only [putEntries, hn, if_false, List.lookup_cons, ih]

end Table

end Splice
