/-!
# Tables

A finite map from names to values, as a list in which every name stands once.
-/

namespace Concord

/-- A finite map from names. -/
abbrev Table (α : Type) := List (String × α)

namespace Table

variable {α : Type}

/-- The value of a name. -/
def get? (t : Table α) (name : String) : Option α := List.lookup name t

/-- The table without a name. -/
def erase (t : Table α) (name : String) : Table α := t.filter (·.1 != name)

/-- The table with a name given a value. -/
def put (t : Table α) (name : String) (value : α) : Table α := (name, value) :: t.erase name

/-- The names of a table. -/
def names (t : Table α) : List String := t.map (·.1)

@[simp] theorem get?_nil (name : String) : get? ([] : Table α) name = none := rfl

theorem get?_cons (k name : String) (v : α) (t : Table α) :
    get? ((k, v) :: t) name = if name == k then some v else get? t name := by
  unfold get?
  rw [List.lookup_cons]
  cases name == k <;> rfl

theorem get?_erase (t : Table α) (k name : String) :
    (t.erase k).get? name = if name == k then none else t.get? name := by
  induction t with
  | nil => simp [erase]
  | cons p t ih =>
    obtain ⟨n, v⟩ := p
    have cons : erase ((n, v) :: t) k = if n != k then (n, v) :: erase t k else erase t k := by
      unfold erase
      rw [List.filter_cons]
    rw [cons]
    by_cases hn : n = k
    · subst hn
      by_cases hk : name = n
      · subst hk
        simpa using ih
      · simp [get?_cons, ih, hk]
    · by_cases hk : name = k
      · subst hk
        simp [get?_cons, ih, hn, Ne.symm hn]
      · by_cases hm : name = n <;> simp [get?_cons, ih, hn, hk, hm]

theorem get?_put (t : Table α) (k name : String) (v : α) :
    (t.put k v).get? name = if name == k then some v else t.get? name := by
  by_cases h : name = k <;> simp [put, get?_cons, get?_erase, h]

theorem mem_of_get? {t : Table α} {name : String} {v : α} (h : t.get? name = some v) :
    (name, v) ∈ t := by
  induction t with
  | nil => cases h
  | cons p t ih =>
    obtain ⟨k, w⟩ := p
    rw [get?_cons] at h
    split at h
    · rename_i hk
      obtain rfl := eq_of_beq hk
      obtain rfl := Option.some.inj h
      exact List.mem_cons_self
    · exact List.mem_cons_of_mem _ (ih h)

/-- A name that is in no entry is not there to be erased. -/
theorem erase_eq_self {t : Table α} {name : String} (h : name ∉ t.names) : t.erase name = t := by
  unfold erase
  rw [List.filter_eq_self]
  intro p hp
  have hne : p.1 ≠ name := by
    rintro rfl
    exact h (List.mem_map_of_mem hp)
  simpa using hne

/-- What is put last and erased first was never there. -/
theorem erase_put_self (t : Table α) (name : String) (v : α) :
    (t.put name v).erase name = t.erase name := by
  simp [put, erase]

end Table

end Concord
