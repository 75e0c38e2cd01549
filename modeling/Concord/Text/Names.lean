/-!
# Sets of names

A set of names is a list in increasing order without repetitions, which is also the order in which
every report lists it.
-/

namespace Concord.Names

/-- Put a name into its place in an increasing list; a name that is there stays once. -/
def insert (n : String) : List String → List String
  | [] => [n]
  | m :: ms => if n < m then n :: m :: ms else if n = m then m :: ms else m :: insert n ms

/-- The names of a list in increasing order, each once. -/
def ofList (ns : List String) : List String := ns.foldr insert []

/-- All names of two lists, the second one in increasing order. -/
def union (ns set : List String) : List String := ns.foldr insert set

/-- Append the names that are not there yet, keeping the order of first occurrence. -/
def append (seen new : List String) : List String :=
  new.foldl (fun acc n => if acc.contains n then acc else acc ++ [n]) seen

theorem mem_insert {a n : String} {l : List String} : a ∈ insert n l ↔ a = n ∨ a ∈ l := by
  induction l with
  | nil => simp [insert]
  | cons m ms ih =>
    rw [insert]
    split
    · simp
    · split
      · next h => subst h; simp
      · simp only [List.mem_cons, ih]
        constructor
        · rintro (h | h | h) <;> simp [h]
        · rintro (h | h | h) <;> simp [h]

theorem mem_union {a : String} {ns l : List String} : a ∈ union ns l ↔ a ∈ ns ∨ a ∈ l := by
  induction ns with
  | nil => simp [union]
  | cons n ns ih =>
    simp only [union, List.foldr_cons, mem_insert, List.mem_cons, or_assoc]
    exact or_congr Iff.rfl ih

theorem mem_ofList {a : String} {l : List String} : a ∈ ofList l ↔ a ∈ l := by
  induction l with
  | nil => simp [ofList]
  | cons n ns ih =>
    simp only [ofList, List.foldr_cons, mem_insert, List.mem_cons]
    exact or_congr Iff.rfl ih

theorem mem_append {a : String} {seen new : List String} : a ∈ append seen new ↔ a ∈ seen ∨ a ∈ new := by
  unfold append
  induction new generalizing seen with
  | nil => simp
  | cons m ms ih =>
    rw [List.foldl_cons, ih]
    split
    · rename_i h
      rw [List.contains_iff_mem] at h
      constructor
      · rintro (h' | h')
        · exact .inl h'
        · exact .inr (List.mem_cons_of_mem m h')
      · rintro (h' | h')
        · exact .inl h'
        · rcases List.mem_cons.mp h' with rfl | h'
          · exact .inl h
          · exact .inr h'
    · simp [or_assoc]

theorem not_mem_insert {a n : String} {l : List String} (hn : a ≠ n) (hl : a ∉ l) : a ∉ insert n l :=
  fun h => (mem_insert.mp h).elim hn hl

theorem not_mem_union {a : String} {ns l : List String} (hns : a ∉ ns) (hl : a ∉ l) : a ∉ union ns l :=
  fun h => (mem_union.mp h).elim hns hl

end Concord.Names
