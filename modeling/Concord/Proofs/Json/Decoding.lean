import Concord.Json.Decode
import Concord.Proofs.Json.Reading
import Concord.Proofs.Store.Agreement
import Mathlib.Data.List.Nodup

/-!
# Documents decoded

The readers of values undo the writers. A record comes back from the object of its fields, a set or a
map from what was written if its names are in increasing order, which is the order in which the
readers put them.

A document passes through its text, and `reread` says what is left of it. Plain documents come back as
they are. Of other ones it is shown that nothing else is read than what was written: a value is
recovered (`Recovers`) if every value that is read is this one. Records are put together from values
that are recovered field by field.
-/

namespace Concord

namespace Names

/-- Names in increasing order. -/
abbrev Increasing (names : List String) : Prop := names.Pairwise (· < ·)

theorem Increasing.nodup {names : List String} (h : Increasing names) : names.Nodup :=
  List.Pairwise.imp (fun h => ne_of_lt h) h

/-- A set of names in order is its own list of names. -/
theorem ofList_of_increasing {names : List String} (h : Increasing names) : ofList names = names := by
  induction names with
  | nil => rfl
  | cons n ns ih =>
    obtain ⟨hn, hns⟩ := List.pairwise_cons.mp h
    show insert n (ofList ns) = n :: ns
    rw [ih hns]
    cases ns with
    | nil => rfl
    | cons m ms => rw [insert, if_pos (hn m (by simp))]

end Names

/-- In a list with one entry a name the entry of a name is the one that is found. -/
theorem lookup_eq_some {α β : Type} [BEq α] [LawfulBEq α] {entries : List (α × β)}
    (hnodup : (entries.map (·.1)).Nodup) {k : α} {v : β} (h : (k, v) ∈ entries) :
    entries.lookup k = some v := by
  obtain ⟨before, after, rfl⟩ := List.append_of_mem h
  rw [List.lookup_eq_some_iff]
  refine ⟨before, after, rfl, ?_⟩
  intro p hp
  rw [List.map_append, List.map_cons, List.nodup_append] at hnodup
  have hother := hnodup.2.2 p.1 (List.mem_map.mpr ⟨p, hp, rfl⟩) k (by simp)
  simpa using hother.symm

/-- Looking from the end finds the same entry. -/
theorem lookup_reverse_eq_some {α β : Type} [BEq α] [LawfulBEq α] {entries : List (α × β)}
    (hnodup : (entries.map (·.1)).Nodup) {k : α} {v : β} (h : (k, v) ∈ entries) :
    entries.reverse.lookup k = some v := by
  apply lookup_eq_some
  · rwa [List.map_reverse, List.nodup_reverse]
  · exact List.mem_reverse.mpr h

/-- Items come back one by one. -/
theorem mapM_written {α β : Type} {read : β → Option α} {write : α → β} {items : List α}
    (h : ∀ a ∈ items, read (write a) = some a) : (items.map write).mapM read = some items := by
  induction items with
  | nil => rfl
  | cons a items ih =>
    obtain ⟨ha, hitems⟩ := List.forall_mem_cons.mp h
    rw [List.map_cons, List.mapM_cons, ha, ih hitems]
    rfl

namespace Json

theorem field?_of_mem {fields : List (String × Json)} (hnodup : (fields.map (·.1)).Nodup)
    {name : String} {j : Json} (h : (name, j) ∈ fields) :
    (Json.obj fields).field? name = some j :=
  lookup_reverse_eq_some hnodup h

/-- The fields of a record come back from its object. -/
theorem record?_zip {names : List String} {values : List Json} (hnodup : names.Nodup)
    (hlength : values.length = names.length) :
    (Json.obj (names.zip values)).record? names = some (values.map some) := by
  have hnames : (names.zip values).map (·.1) = names := List.map_fst_zip (by omega)
  rw [record?, Option.some_inj]
  apply List.ext_getElem
  · simp [hlength]
  · intro i hi _
    rw [List.length_map] at hi
    rw [List.getElem_map, List.getElem_map]
    apply field?_of_mem (by rw [hnames]; exact hnodup)
    have hzip : i < (names.zip values).length := by simp [hlength, hi]
    have hmem := List.getElem_mem hzip
    rwa [List.getElem_zip] at hmem

/-! ### Values -/

@[simp]
theorem nat?_nat (n : Nat) : (nat n).nat? = some n := by
  simp [nat, nat?]

@[simp]
theorem strs?_strs (texts : List String) : (strs texts).strs? = some texts := by
  exact mapM_written fun _ _ => rfl

theorem strSet?_strs {texts : List String} (h : Names.Increasing texts) :
    (strs texts).strSet? = some texts := by
  rw [strSet?, strs?_strs, Option.map_some, Names.ofList_of_increasing h]

theorem entries?_obj {α : Type} {read : Json → Option α} (write : α → Json)
    {entries : List (String × α)} (horder : Names.Increasing (entries.map (·.1)))
    (hread : ∀ e ∈ entries, read (write e.2) = some e.2) :
    (Json.obj (entries.map fun e => (e.1, write e.2))).entries? read = some entries := by
  have hvalues : (entries.map fun e => (e.1, write e.2)).mapM
      (fun f : String × Json => (read f.2).map (f.1, ·)) = some entries := by
    apply mapM_written
    intro e he
    rw [hread e he]
    rfl
  have hlookup : ∀ e ∈ entries,
      ((fun k => (entries.reverse.lookup k).map (k, ·)) ∘ (·.1)) e = some e := by
    intro e he
    show (entries.reverse.lookup e.1).map (e.1, ·) = some e
    rw [lookup_reverse_eq_some horder.nodup he]
    rfl
  rw [entries?]
  simp only [hvalues, Option.bind_eq_bind, Option.bind_some, Names.ofList_of_increasing horder]
  rw [List.filterMap_map, List.filterMap_congr hlookup, List.filterMap_some]

/-! ### Plain documents -/

@[simp]
theorem plain_null : Plain .null := trivial

@[simp]
theorem plain_bool (b : Bool) : Plain (.bool b) := trivial

@[simp]
theorem plain_str (s : String) : Plain (.str s) := trivial

theorem plain_nat {n : Nat} (h : n < 2 ^ 64) : Plain (nat n) := by
  constructor
  · exact Int.le_trans (by decide) (Int.natCast_nonneg n)
  · exact Int.ofNat_le.mpr (Nat.le_of_lt_succ h)

theorem plain_arr {items : List Json} (h : ∀ j ∈ items, Plain j) : Plain (.arr items) := by
  induction items with
  | nil => trivial
  | cons j items ih =>
    obtain ⟨hj, hitems⟩ := List.forall_mem_cons.mp h
    exact ⟨hj, ih hitems⟩

theorem plain_obj {fields : List (String × Json)} (h : ∀ f ∈ fields, Plain f.2) :
    Plain (.obj fields) := by
  induction fields with
  | nil => trivial
  | cons f fields ih =>
    obtain ⟨hf, hfields⟩ := List.forall_mem_cons.mp h
    exact ⟨hf, ih hfields⟩

/-- A record is plain if the values of its fields are. -/
theorem plain_zip {names : List String} {values : List Json} (h : ∀ j ∈ values, Plain j) :
    Plain (.obj (names.zip values)) :=
  plain_obj fun _ hf => h _ (List.of_mem_zip hf).2

@[simp]
theorem plain_strs (texts : List String) : Plain (strs texts) := by
  apply plain_arr
  intro j hj
  obtain ⟨s, -, rfl⟩ := List.mem_map.mp hj
  exact plain_str s

/-! ### Levels -/

@[simp]
theorem levels_null : levels .null = 0 := rfl

@[simp]
theorem levels_bool (b : Bool) : levels (.bool b) = 0 := rfl

@[simp]
theorem levels_str (s : String) : levels (.str s) = 0 := rfl

@[simp]
theorem levels_nat (n : Nat) : levels (nat n) = 0 := rfl

@[simp]
theorem levels_float (x : Float) : levels (.float x) = 0 := rfl

theorem levels_arr_le {n : Nat} {items : List Json} (h : ∀ j ∈ items, levels j ≤ n) :
    levels (.arr items) ≤ n + 1 := by
  rw [levels, Nat.add_le_add_iff_right]
  induction items with
  | nil => exact Nat.zero_le n
  | cons j items ih =>
    obtain ⟨hj, hitems⟩ := List.forall_mem_cons.mp h
    exact Nat.max_le.mpr ⟨hj, ih hitems⟩

theorem levels_obj_le {n : Nat} {fields : List (String × Json)} (h : ∀ f ∈ fields, levels f.2 ≤ n) :
    levels (.obj fields) ≤ n + 1 := by
  rw [levels, Nat.add_le_add_iff_right]
  induction fields with
  | nil => exact Nat.zero_le n
  | cons f fields ih =>
    obtain ⟨hf, hfields⟩ := List.forall_mem_cons.mp h
    exact Nat.max_le.mpr ⟨hf, ih hfields⟩

theorem levels_zip_le {n : Nat} {names : List String} {values : List Json}
    (h : ∀ j ∈ values, levels j ≤ n) : levels (.obj (names.zip values)) ≤ n + 1 :=
  levels_obj_le fun _ hf => h _ (List.of_mem_zip hf).2

@[simp]
theorem levels_strs_le (n : Nat) (texts : List String) : levels (strs texts) ≤ n + 1 := by
  apply levels_arr_le
  intro j hj
  obtain ⟨s, -, rfl⟩ := List.mem_map.mp hj
  exact Nat.zero_le n

/-! ### Values that are recovered -/

/-- The result, if there is one, is the value. -/
def Only {α : Type} (result : Option α) (a : α) : Prop := ∀ b ∈ result, b = a

theorem only_some {α : Type} (a : α) : Only (some a) a := by simp [Only]

theorem only_bind {α β : Type} {x : Option α} {f : α → Option β} {a : α} {b : β} (hx : Only x a)
    (hf : Only (f a) b) : Only (x.bind f) b := by
  intro c hc
  obtain ⟨a', ha', hc⟩ := Option.bind_eq_some_iff.mp hc
  obtain rfl := hx a' ha'
  exact hf c hc

/-- Whatever is read of the document as it comes back is the value. A count that is too great comes
back as a double, which is then refused as a count, so something may be lost but nothing changes. -/
def Recovers {α : Type} (read : Json → Option α) (j : Json) (a : α) : Prop :=
  ∀ j' ∈ reread j, Only (read j') a

theorem recovers_of_plain {α : Type} {read : Json → Option α} {j : Json} {a : α} (hj : Plain j)
    (hread : read j = some a) : Recovers read j a := by
  intro j' hj'
  rw [reread_of_plain j hj] at hj'
  obtain rfl := Option.some_inj.mp hj'
  rw [hread]
  exact only_some a

@[simp]
theorem recovers_nat (n : Nat) : Recovers nat? (nat n) n := by
  intro j' hj' m hm
  cases j' with
  | int v =>
    obtain rfl : v = n := eq_of_reread_natCast hj'
    rw [show Json.int n = nat n from rfl, nat?_nat] at hm
    exact (Option.some_inj.mp hm).symm
  | _ => cases hm

theorem only_mapM {α β : Type} {read : β → Option α} {items : List β} {values : List α}
    (h : List.Forall₂ (fun j a => Only (read j) a) items values) :
    Only (items.mapM read) values := by
  induction h with
  | nil => exact only_some []
  | cons hj _ ih =>
    rw [List.mapM_cons]
    exact only_bind hj (only_bind ih (only_some _))

/-- The fields of an object come back one by one. -/
theorem forall₂_rereadFields {fields fields' : List (String × Json)}
    (h : rereadFields fields = some fields') :
    List.Forall₂ (fun f f' => f'.1 = f.1 ∧ reread f.2 = some f'.2) fields fields' := by
  induction fields generalizing fields' with
  | nil =>
    obtain rfl := Option.some_inj.mp h
    exact List.Forall₂.nil
  | cons f fields ih =>
    simp only [rereadFields, Option.bind_eq_bind, Option.pure_def, Option.bind_eq_some_iff,
      Option.some_inj] at h
    obtain ⟨j, hj, rest, hrest, rfl⟩ := h
    exact List.Forall₂.cons ⟨rfl, hj⟩ (ih hrest)

theorem exists_fields_of_reread {fields : List (String × Json)} {j' : Json}
    (h : j' ∈ reread (.obj fields)) : ∃ fields', rereadFields fields = some fields' ∧
      j' = .obj fields' := by
  rw [reread] at h
  obtain ⟨fields', hfields, rfl⟩ := Option.map_eq_some_iff.mp h
  exact ⟨fields', hfields, rfl⟩

/-- What stands under a name comes back under this name. -/
theorem field?_reread {fields fields' : List (String × Json)}
    (h : rereadFields fields = some fields') (name : String) :
    (Json.obj fields').field? name = ((Json.obj fields).field? name).bind reread := by
  have hlookup : ∀ l l' : List (String × Json),
      List.Forall₂ (fun f f' => f'.1 = f.1 ∧ reread f.2 = some f'.2) l l' →
      l'.lookup name = (l.lookup name).bind reread := by
    intro l l' hl
    induction hl with
    | nil => rfl
    | @cons f f' l l' hf _ ih =>
      obtain ⟨hname, hvalue⟩ := hf
      obtain ⟨k, j⟩ := f
      obtain ⟨k', j'⟩ := f'
      obtain rfl : k' = k := hname
      rw [List.lookup_cons, List.lookup_cons, ih]
      cases name == k'
      · rfl
      · exact hvalue.symm
  exact hlookup _ _ (List.rel_reverse (forall₂_rereadFields h))

/-- The fields of a record are those of its object, each as it comes back. -/
theorem record?_reread {names : List String} {values : List Json} {j' : Json}
    (h : j' ∈ reread (.obj (names.zip values))) (hnodup : names.Nodup)
    (hlength : values.length = names.length) : j'.record? names = some (values.map reread) := by
  obtain ⟨fields', hfields, rfl⟩ := exists_fields_of_reread h
  have hwritten := record?_zip hnodup hlength
  rw [record?, Option.some_inj] at hwritten
  have hlookup : (fun name => (Json.obj fields').field? name) =
      (fun o => Option.bind o reread) ∘ fun name => (Json.obj (names.zip values)).field? name :=
    funext fun name => field?_reread hfields name
  rw [record?, hlookup, ← List.map_map, hwritten, List.map_map]
  rfl

/-- A field of a record is recovered if the value that was written there is. -/
theorem only_need {α : Type} {read : Json → Option α} {j : Json} {a : α}
    (h : Recovers read j a) : Only (need read (reread j)) a := by
  intro b hb
  obtain ⟨j', hj', hb⟩ := Option.bind_eq_some_iff.mp hb
  exact h j' hj' b hb

/-- So is one that may be null. -/
theorem only_optional {α : Type} {read : Json → Option α} {j : Json} {a : Option α}
    (hplain : Plain j) (hread : orNull? read j = some a) :
    Only (optional read (reread j)) a := by
  rw [reread_of_plain j hplain, optional, Option.getD_some, hread]
  exact only_some a

/-- The entries of a map are recovered if their values are. -/
theorem recovers_entries {α : Type} {read : Json → Option α} (write : α → Json)
    {entries : List (String × α)} (horder : Names.Increasing (entries.map (·.1)))
    (hread : ∀ a, read (write a) = some a) (hvalues : ∀ a, Recovers read (write a) a) :
    Recovers (entries? read) (.obj (entries.map fun e => (e.1, write e.2))) entries := by
  intro j' hj'
  obtain ⟨fields', hfields, rfl⟩ := exists_fields_of_reread hj'
  have hall := entries?_obj write horder fun e _ => hread e.2
  have hwritten : (entries.map fun e => (e.1, write e.2)).mapM
      (fun f : String × Json => (read f.2).map (f.1, ·)) = some entries := by
    apply mapM_written
    intro e _
    rw [hread]
    rfl
  rw [entries?, hwritten] at hall
  refine only_bind ?_ (fun b hb => Option.some_inj.mp (hb.symm.trans hall))
  apply only_mapM
  have hrelated := List.forall₂_map_left_iff.mp (forall₂_rereadFields hfields)
  refine List.Forall₂.imp ?_ hrelated.flip
  rintro ⟨k', j⟩ ⟨k, a⟩ ⟨rfl, hj⟩ e he
  obtain ⟨b, hb, rfl⟩ := Option.map_eq_some_iff.mp he
  rw [hvalues a j hj b hb]

end Json

end Concord
