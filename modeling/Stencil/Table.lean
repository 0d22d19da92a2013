import Stencil.Bytes.Basic

/-!
# Tables

Named entries in the order in which their names were first entered. Entering a name again keeps its
place and takes the new entry. The main statements say what a name finds after an entry: the new
entry under its own name, and what was there before under every other name.
-/

set_option autoImplicit false

namespace Stencil

/-- Entries by name, in order of first entry. -/
abbrev Table (α : Type) := List (Bytes × α)

namespace Table

variable {α : Type}

/-- What a name finds: the first entry under it. -/
def find? : Table α → Bytes → Option α
  | [], _ => none
  | (key, entry) :: rest, name => if key = name then some entry else find? rest name

/-- Whether there is an entry under a name. -/
def contains (table : Table α) (name : Bytes) : Bool := (table.find? name).isSome

/-- Enters a name: in its old place when it is known, at the end when it is new. -/
def insert : Table α → Bytes → α → Table α
  | [], name, entry => [(name, entry)]
  | (key, old) :: rest, name, entry =>
    if key = name then (key, entry) :: rest else (key, old) :: insert rest name entry

/-- What a name finds is one of the entries. -/
theorem mem_of_find? {table : Table α} {name : Bytes} {entry : α}
    (h : table.find? name = some entry) : (name, entry) ∈ table := by
  induction table with
  | nil => simp [find?] at h
  | cons head rest ih =>
    obtain ⟨key, first⟩ := head
    rw [find?] at h
    split at h
    · simp_all
    · exact .tail _ (ih h)

/-- A name finds what was last entered under it. -/
@[simp] theorem find?_insert_self (table : Table α) (name : Bytes) (entry : α) :
    (table.insert name entry).find? name = some entry := by
  induction table with
  | nil => simp [insert, find?]
  | cons head rest ih =>
    obtain ⟨key, old⟩ := head
    rw [insert]
    split <;> simp_all [find?]

/-- Entering a name leaves what every other name finds. -/
theorem find?_insert_of_ne (table : Table α) {name other : Bytes} (entry : α)
    (h : other ≠ name) : (table.insert name entry).find? other = table.find? other := by
  induction table with
  | nil => simp [insert, find?, h.symm]
  | cons head rest ih =>
    obtain ⟨key, old⟩ := head
    rw [insert]
    split
    · rename_i hkey
      subst hkey
      simp [find?, h.symm]
    · simp [find?, ih]

/-- What holds of every entry goes on to hold when an entry is made of which it holds. -/
theorem forall_mem_insert (property : Bytes × α → Prop) {table : Table α} {name : Bytes} {entry : α}
    (htable : ∀ known ∈ table, property known) (hentry : property (name, entry)) :
    ∀ known ∈ table.insert name entry, property known := by
  induction table with
  | nil => simpa [insert] using hentry
  | cons head rest ih =>
    obtain ⟨key, old⟩ := head
    rw [List.forall_mem_cons] at htable
    rw [insert]
    split
    · rename_i hkey
      subst hkey
      exact List.forall_mem_cons.mpr ⟨hentry, htable.2⟩
    · exact List.forall_mem_cons.mpr ⟨htable.1, ih htable.2⟩

end Table

end Stencil
