import Concord.Proofs.Profile.Codec
import Concord.Proofs.Profile.Distance
import Mathlib.Data.List.Sort
import Mathlib.Data.List.TakeWhile

/-!
# The laws of the distance

The distance of two profiles does not depend on their order, lies between zero and one, and is one
where a side has no values at all. It is zero exactly if both profiles are complete and agree facet by
facet, `Profile.distance_laws`; values agree if they are equal, except that of the two digests only the
selected one counts, and of the recursion not whether it divides and conquers.

For records this means that the dotted paths of a document lose nothing of it: the names of the fields
have no dots, so a path with a dot belongs to an entry of one map, and the rest of it, with whatever
dots, is the key (`eq_of_paths`).
-/

namespace Concord

namespace Names

/-- A set of names depends on its members only. -/
theorem ofList_congr {l m : List String} (h : ∀ n, n ∈ l ↔ n ∈ m) : ofList l = ofList m := by
  apply List.Pairwise.eq_of_mem_iff (pairwise_ofList l) (pairwise_ofList m)
  intro n
  rw [mem_ofList, mem_ofList, h]

end Names

namespace Distance

/-! ### Symmetry -/

theorem compared_comm (a b : List (String × Json)) : compared a b = compared b a := by
  have hkeys : Names.ofList ((a ++ b).map (·.1)) = Names.ofList ((b ++ a).map (·.1)) := by
    apply Names.ofList_congr
    intro n
    simp only [List.map_append, List.mem_append, or_comm]
  unfold compared
  simp only [hkeys, bne_comm]

section

variable (round : Rat → Rat)

theorem recordBy_comm (a b : Json) : recordBy round a b = recordBy round b a := by
  unfold recordBy
  rw [compared_comm]

theorem sequenceBy_comm (xs ys : List String) : sequenceBy round xs ys = sequenceBy round ys xs := by
  unfold sequenceBy
  rw [Nat.max_comm, lcsLength_comm]

theorem gapBy_comm (a b : Nat) : gapBy round a b = gapBy round b a := by
  unfold gapBy
  rw [Nat.add_comm, Nat.max_comm a b]

theorem recursionBy_comm (a b : RecursionSchema) : recursionBy round a b = recursionBy round b a := by
  unfold recursionBy
  rw [bne_comm, gapBy_comm round a.baseCases, gapBy_comm round a.recursiveCalls]
  simp only [eq_comm]

/-- Values of different facets are as far apart as can be. -/
theorem valuesBy_of_facet_ne {selection : HashSelection} {a b : FacetValue}
    (h : a.facet ≠ b.facet) : valuesBy round selection a b = 1 := by
  unfold valuesBy
  split
  case h_5 => exact if_neg h
  all_goals exact absurd rfl h

/-- Records are compared as documents. -/
theorem valuesBy_of_record {selection : HashSelection} {a b : FacetValue}
    (h : a.facet = b.facet) (hshape : a.facet.shape = .record) :
    valuesBy round selection a b =
      recordBy round (Profile.Document.payload a) (Profile.Document.payload b) := by
  unfold valuesBy
  split
  case h_5 => exact if_pos h
  all_goals cases hshape

theorem valuesBy_comm (selection : HashSelection) (a b : FacetValue) :
    valuesBy round selection a b = valuesBy round selection b a := by
  by_cases hfacet : a.facet = b.facet
  case neg => rw [valuesBy_of_facet_ne round hfacet, valuesBy_of_facet_ne round (Ne.symm hfacet)]
  by_cases hshape : a.facet.shape = .record
  case pos =>
    rw [valuesBy_of_record round hfacet hshape,
      valuesBy_of_record round hfacet.symm (hfacet ▸ hshape), recordBy_comm]
  cases a <;> simp [FacetValue.facet, Facet.shape] at hshape <;> cases b <;> cases hfacet
  · simp only [valuesBy, eq_comm]
  · exact sequenceBy_comm round _ _
  · exact sequenceBy_comm round _ _
  · exact recursionBy_comm round _ _

end

end Distance

/-! ### Paths in a document -/

namespace Distance

/-- A document that is no object. -/
def IsLeaf : Json → Prop
  | .obj _ => False
  | _ => True

/-- No object inside an object. -/
def IsFlat : Json → Prop
  | .obj entries => ∀ e ∈ entries, IsLeaf e.2
  | _ => True

/-- The name of a field: no dot is in it. -/
def IsFieldName (name : String) : Prop := name ≠ "" ∧ '.' ∉ name.toList

instance (name : String) : Decidable (IsFieldName name) := inferInstanceAs (Decidable (_ ∧ _))

/-- A path is the name of a field, or starts with it and a dot. -/
def Under (name path : String) : Prop := path = name ∨ ∃ key, path = name ++ "." ++ key

/-- A path is under one name only: what stands before the first dot. -/
theorem Under.unique {m n path : String} (hm : IsFieldName m) (hn : IsFieldName n)
    (h : Under m path) (h' : Under n path) : m = n := by
  have hfirst : ∀ {name : String}, IsFieldName name → Under name path →
      path.toList.takeWhile (· != '.') = name.toList := by
    rintro name ⟨-, hdot⟩ hpath
    have hall : ∀ c ∈ name.toList, (c != '.') = true := by
      intro c hc
      rw [bne_iff_ne]
      rintro rfl
      exact hdot hc
    rcases hpath with rfl | ⟨key, rfl⟩
    · exact List.takeWhile_eq_self_iff.mpr hall
    · rw [String.toList_append, String.toList_append, List.append_assoc,
        List.takeWhile_append_of_pos hall]
      simp
  rw [← String.toList_inj, ← hfirst hm h, ← hfirst hn h']

theorem leaves_leaf {j : Json} (h : IsLeaf j) (path : String) : leaves path j = [(path, j)] := by
  cases j <;> first | exact h.elim | simp only [leaves]

theorem leavesFields_leaves {entries : List (String × Json)} (h : ∀ e ∈ entries, IsLeaf e.2)
    {path : String} (hpath : path ≠ "") :
    leavesFields path entries = entries.map fun e => (path ++ "." ++ e.1, e.2) := by
  have hnonempty : path.isEmpty = false := by simpa using hpath
  induction entries with
  | nil => rfl
  | cons e entries ih =>
    obtain ⟨he, hentries⟩ := List.forall_mem_cons.mp h
    rw [leavesFields, ih hentries, hnonempty, if_neg Bool.false_ne_true, leaves_leaf he]
    rfl

/-- All paths of a field are under its name. -/
theorem under_of_mem_leaves {j : Json} (h : IsFlat j) {name : String} (hname : name ≠ "") :
    ∀ e ∈ leaves name j, Under name e.1 := by
  cases j with
  | obj entries =>
    rw [leaves, leavesFields_leaves h hname]
    intro e he
    obtain ⟨f, -, rfl⟩ := List.mem_map.mp he
    exact .inr ⟨f.1, rfl⟩
  | _ => simp [leaves, Under]

theorem leavesFields_eq_flatMap (fields : List (String × Json)) :
    leavesFields "" fields = fields.flatMap fun f => leaves f.1 f.2 := by
  induction fields with
  | nil => rfl
  | cons f fields ih => rw [leavesFields, ih]; rfl

/-- A path under a name is looked up in the field of that name. -/
theorem lookup_leavesFields {fields : List (String × Json)}
    (hnames : ∀ f ∈ fields, IsFieldName f.1) (hnodup : (fields.map (·.1)).Nodup)
    (hflat : ∀ f ∈ fields, IsFlat f.2) {name path : String} {j : Json} (hpath : Under name path)
    (hmem : (name, j) ∈ fields) :
    (leavesFields "" fields).lookup path = (leaves name j).lookup path := by
  have hname := hnames _ hmem
  -- Fields of other names have no path that is looked for here.
  have hother : ∀ fs : List (String × Json), (∀ f ∈ fs, f ∈ fields ∧ f.1 ≠ name) →
      (fs.flatMap fun f => leaves f.1 f.2).lookup path = none := by
    intro fs hfs
    rw [List.lookup_eq_none_iff]
    intro e he
    obtain ⟨f, hf, he⟩ := List.mem_flatMap.mp he
    obtain ⟨hfield, hne⟩ := hfs f hf
    have hunder := under_of_mem_leaves (hflat f hfield) (hnames f hfield).1 e he
    have hdiffer : path ≠ e.1 := by
      rintro rfl
      exact hne (hunder.unique (hnames f hfield) hname hpath)
    simpa using hdiffer
  obtain ⟨before, after, rfl⟩ := List.append_of_mem hmem
  rw [List.map_append, List.map_cons, List.nodup_append, List.nodup_cons] at hnodup
  obtain ⟨-, ⟨hafter, -⟩, hbefore⟩ := hnodup
  rw [leavesFields_eq_flatMap, List.flatMap_append, List.flatMap_cons, List.lookup_append,
    List.lookup_append, hother before, hother after]
  · simp
  · intro f hf
    refine ⟨by simp [hf], ?_⟩
    rintro rfl
    exact hafter (List.mem_map.mpr ⟨f, hf, rfl⟩)
  · intro f hf
    refine ⟨by simp [hf], ?_⟩
    exact hbefore f.1 (List.mem_map_of_mem hf) name (by simp)

theorem lookup_leaves_leaf {j : Json} (h : IsLeaf j) (name : String) :
    (leaves name j).lookup name = some j := by
  simp [leaves_leaf h]

theorem lookup_leaves_entries {entries : List (String × Json)} (h : ∀ e ∈ entries, IsLeaf e.2)
    {name : String} (hname : name ≠ "") (key : String) :
    (leaves name (.obj entries)).lookup (name ++ "." ++ key) = entries.lookup key := by
  rw [leaves, leavesFields_leaves h hname]
  clear h
  induction entries with
  | nil => rfl
  | cons e entries ih =>
    obtain ⟨k, j⟩ := e
    have hkey : (name ++ "." ++ key == name ++ "." ++ k) = (key == k) := by
      rw [Bool.beq_eq_decide_eq, Bool.beq_eq_decide_eq]
      simp
    rw [List.map_cons, List.lookup_cons, List.lookup_cons, hkey, ih]

/-- Two maps in order with the same entries under every key are the same. -/
theorem eq_of_lookup {α : Type} {l m : List (String × α)} (hl : Names.Increasing (l.map (·.1)))
    (hm : Names.Increasing (m.map (·.1))) (h : ∀ key, l.lookup key = m.lookup key) : l = m := by
  have hsubset : ∀ {l m : List (String × α)}, Names.Increasing (l.map (·.1)) →
      (∀ key, l.lookup key = m.lookup key) → ∀ e ∈ l, e ∈ m := by
    intro l m hl h e he
    have hlookup := h e.1
    rw [lookup_eq_some hl.nodup he] at hlookup
    obtain ⟨before, after, rfl, -⟩ := List.lookup_eq_some_iff.mp hlookup.symm
    simp
  have hperm : l.Perm m := by
    rw [List.perm_ext_iff_of_nodup (List.Nodup.of_map _ hl.nodup) (List.Nodup.of_map _ hm.nodup)]
    exact fun e => ⟨hsubset hl h e, hsubset hm (fun key => (h key).symm) e⟩
  have hlpairs : l.Pairwise fun e f => e.1 < f.1 := List.pairwise_map.mp hl
  apply hperm.eq_of_pairwise _ hlpairs (List.pairwise_map.mp hm)
  intro e f _ _ hef hfe
  exact absurd hef (lt_asymm hfe)

/-- Two documents that are both no objects, or both maps in order. -/
def SameShape (a b : Json) : Prop :=
  IsLeaf a ∧ IsLeaf b ∨
    ∃ l m, a = .obj l ∧ b = .obj m ∧ (∀ e ∈ l, IsLeaf e.2) ∧ (∀ e ∈ m, IsLeaf e.2) ∧
      Names.Increasing (l.map (·.1)) ∧ Names.Increasing (m.map (·.1))

theorem IsLeaf.flat {j : Json} (h : IsLeaf j) : IsFlat j := by
  cases j <;> first | exact h.elim | trivial

theorem SameShape.flat {a b : Json} (h : SameShape a b) : IsFlat a ∧ IsFlat b := by
  obtain ⟨ha, hb⟩ | ⟨l, m, rfl, rfl, hl, hm, -⟩ := h
  · exact ⟨ha.flat, hb.flat⟩
  · exact ⟨hl, hm⟩

/-- The paths under the name of a field determine its value. -/
theorem SameShape.eq_of_leaves {a b : Json} (h : SameShape a b) {name : String} (hname : name ≠ "")
    (hpaths : ∀ path, Under name path → (leaves name a).lookup path = (leaves name b).lookup path) :
    a = b := by
  obtain ⟨ha, hb⟩ | ⟨l, m, rfl, rfl, hl, hm, hlorder, hmorder⟩ := h
  · have hpath := hpaths name (.inl rfl)
    rwa [lookup_leaves_leaf ha, lookup_leaves_leaf hb, Option.some_inj] at hpath
  · congr 1
    apply eq_of_lookup hlorder hmorder
    intro key
    have hpath := hpaths _ (.inr ⟨key, rfl⟩)
    rwa [lookup_leaves_entries hl hname, lookup_leaves_entries hm hname] at hpath

/-- The paths of a record determine it. -/
theorem eq_of_paths {names : List String} {xs ys : List Json}
    (hnames : ∀ n ∈ names, IsFieldName n) (hnodup : names.Nodup)
    (hlength : names.length = xs.length) (hshape : List.Forall₂ SameShape xs ys)
    (h : ∀ path, (leaves "" (.obj (names.zip xs))).lookup path =
      (leaves "" (.obj (names.zip ys))).lookup path) : xs = ys := by
  obtain ⟨hsame, hshape⟩ := List.forall₂_iff_get.mp hshape
  have hlookup : ∀ {zs : List Json}, names.length = zs.length → (∀ z ∈ zs, IsFlat z) →
      ∀ (i : Nat) (hi : i < names.length) (hz : i < zs.length) (path : String),
        Under names[i] path →
          (leaves "" (.obj (names.zip zs))).lookup path = (leaves names[i] zs[i]).lookup path := by
    intro zs hzs hflat i hi hz path hpath
    apply lookup_leavesFields _ _ _ hpath
    · have hzip : i < (names.zip zs).length := by simp [← hzs, hi]
      have hmem := List.getElem_mem hzip
      rwa [List.getElem_zip] at hmem
    · exact fun f hf => hnames _ (List.of_mem_zip hf).1
    · rwa [List.map_fst_zip hzs.le]
    · exact fun f hf => hflat _ (List.of_mem_zip hf).2
  have hxs : ∀ z ∈ xs, IsFlat z := by
    intro z hz
    obtain ⟨i, hi, rfl⟩ := List.getElem_of_mem hz
    exact (hshape i hi (hsame ▸ hi)).flat.1
  have hys : ∀ z ∈ ys, IsFlat z := by
    intro z hz
    obtain ⟨i, hi, rfl⟩ := List.getElem_of_mem hz
    exact (hshape i (hsame ▸ hi) hi).flat.2
  apply List.ext_getElem hsame
  intro i hx hy
  have hi : i < names.length := hlength ▸ hx
  apply (hshape i hx hy).eq_of_leaves (hnames _ (List.getElem_mem hi)).1
  intro path hpath
  have hpaths := h path
  rwa [hlookup hlength hxs i hi hx path hpath,
    hlookup (hlength.trans hsame) hys i hi hy path hpath] at hpaths

/-! ### Records -/

open Profile.Document

section

variable {round : Rat → Rat} (hround : Rounding round)

include hround

theorem recordBy_eq_zero_iff (a b : Json) :
    recordBy round a b = 0 ↔ ∀ path, (leaves "" a).lookup path = (leaves "" b).lookup path := by
  have hdiffer : ∀ keys : List String, keys.filter
      (fun k => (leaves "" a).lookup k != (leaves "" b).lookup k) = [] ↔
        ∀ k ∈ keys, (leaves "" a).lookup k = (leaves "" b).lookup k := by
    intro keys
    simp [List.filter_eq_nil_iff]
  have habsent : ∀ entries : List (String × Json), ∀ path, path ∉ entries.map (·.1) →
      entries.lookup path = none := by
    intro entries path hpath
    rw [List.lookup_eq_none_iff]
    intro e he
    have hne : path ≠ e.1 := fun h => hpath (h ▸ List.mem_map_of_mem he)
    simpa using hne
  have hratio : ∀ {m n : Nat}, m ≤ n → (ratioBy round m n = 0 ↔ m = 0) := by
    intro m n hmn
    by_cases hn : n = 0
    · obtain rfl : m = 0 := by omega
      simp [ratioBy_zero hround]
    · exact ratioBy_eq_zero_iff hround hn
  unfold recordBy compared
  simp only
  rw [hratio (List.length_filter_le _ _), List.length_eq_zero_iff, hdiffer]
  constructor
  · intro h path
    by_cases hpath : path ∈ (leaves "" a ++ leaves "" b).map (·.1)
    · exact h path (Names.mem_ofList.mpr hpath)
    · rw [List.map_append, List.mem_append, not_or] at hpath
      rw [habsent _ _ hpath.1, habsent _ _ hpath.2]
  · exact fun h k _ => h k

end

@[simp]
theorem sameShape_nat (m n : Nat) : SameShape (Json.nat m) (Json.nat n) := .inl ⟨trivial, trivial⟩

@[simp]
theorem sameShape_bool (a b : Bool) : SameShape (.bool a) (.bool b) := .inl ⟨trivial, trivial⟩

@[simp]
theorem sameShape_str (s t : String) : SameShape (.str s) (.str t) := .inl ⟨trivial, trivial⟩

@[simp]
theorem sameShape_strs (s t : List String) : SameShape (Json.strs s) (Json.strs t) :=
  .inl ⟨trivial, trivial⟩

@[simp]
theorem sameShape_optTexts (s t : Option (List String)) : SameShape (optTexts s) (optTexts t) := by
  cases s <;> cases t <;> exact .inl ⟨trivial, trivial⟩

theorem sameShape_entries {α : Type} (write : α → Json) (hwrite : ∀ v, IsLeaf (write v))
    {l m : List (String × α)} (hl : Names.Increasing (l.map (·.1)))
    (hm : Names.Increasing (m.map (·.1))) :
    SameShape (.obj (l.map fun e => (e.1, write e.2))) (.obj (m.map fun e => (e.1, write e.2))) := by
  have hleaf : ∀ l : List (String × α), ∀ e ∈ l.map fun e => (e.1, write e.2), IsLeaf e.2 := by
    intro l e he
    obtain ⟨f, -, rfl⟩ := List.mem_map.mp he
    exact hwrite f.2
  refine .inr ⟨_, _, rfl, rfl, hleaf l, hleaf m, ?_, ?_⟩
  · rwa [List.map_map]
  · rwa [List.map_map]

theorem record_eq_of_paths {names : List String} {xs ys : List Json}
    (hnames : ∀ n ∈ names, IsFieldName n) (hnodup : names.Nodup)
    (hlength : names.length = xs.length) (hshape : List.Forall₂ SameShape xs ys)
    (h : ∀ path, (leaves "" (.obj (names.zip xs))).lookup path =
      (leaves "" (.obj (names.zip ys))).lookup path) :
    Json.obj (names.zip xs) = .obj (names.zip ys) := by
  rw [eq_of_paths hnames hnodup hlength hshape h]

/-- Records with the same paths have the same document. -/
theorem payload_eq_of_paths {a b : FacetValue} (ha : a.InOrder) (hb : b.InOrder)
    (hfacet : a.facet = b.facet) (hshape : a.facet.shape = .record)
    (h : ∀ path, (leaves "" (payload a)).lookup path = (leaves "" (payload b)).lookup path) :
    payload a = payload b := by
  cases a with
  | dataDependency v =>
    cases b <;> cases hfacet
    rename_i w
    have hedges := sameShape_entries Json.strs (fun _ => trivial)
      (ha.sets _ List.mem_cons_self) (hb.sets _ List.mem_cons_self)
    exact record_eq_of_paths (by decide +kernel) (by decide +kernel) rfl (by simpa using hedges) h
  | algebraicStructure v =>
    cases b <;> cases hfacet
    rename_i w
    have hoperators := sameShape_entries Json.nat (fun _ => trivial)
      (ha.sets _ List.mem_cons_self) (hb.sets _ List.mem_cons_self)
    exact record_eq_of_paths (by decide +kernel) (by decide +kernel) rfl (by simpa using hoperators) h
  | normalizedStructure => cases hshape
  | operatorPrecedence => cases hshape
  | statementOrdering => cases hshape
  | recursionSchema => cases hshape
  | _ =>
    cases b <;> cases hfacet
    exact record_eq_of_paths (by decide +kernel) (by decide +kernel) rfl (by simp) h

/-- Values with the same document are the same. -/
theorem eq_of_payload_eq {a b : FacetValue} (ha : a.InOrder) (hb : b.InOrder)
    (hfacet : a.facet = b.facet) (h : payload a = payload b) : a = b := by
  have hread := payload?_payload ha
  rw [h, hfacet, payload?_payload hb, Option.some_inj] at hread
  exact hread.symm

/-! ### Sequences -/

/-- A common subsequence as long as both lists is both lists. -/
theorem eq_of_lcsLength {xs ys : List String} (hxs : lcsLength xs ys = xs.length)
    (hys : lcsLength xs ys = ys.length) : xs = ys := by
  obtain ⟨zs, hx, hy, hlength⟩ := exists_common_sublist xs ys
  rw [← hx.eq_of_length (hlength.trans hxs), ← hy.eq_of_length (hlength.trans hys)]

/-- A share that is no whole is told apart from one, for wholes up to `n`. -/
def TellsApart (round : Rat → Rat) (n : Nat) : Prop :=
  ∀ a b : Nat, a < b → b ≤ n → ratioBy round a b < 1

theorem tellsApart_exact (n : Nat) : TellsApart id n := by
  intro a b hab _
  have hb : (0 : Rat) < b := by exact_mod_cast Nat.zero_lt_of_lt hab
  show (a : Rat) / b < 1
  exact (div_lt_one hb).mpr (by exact_mod_cast hab)

/-- The greatest double below one is a share of a number of 53 bits. -/
theorem round_below_one : Binary.round (1 - 1 / 2 ^ 53) < 1 := by
  decide +kernel

theorem tellsApart_double : TellsApart Binary.round (2 ^ 53) := by
  intro a b hab hb
  have hpos : (0 : Rat) < b := by exact_mod_cast Nat.zero_lt_of_lt hab
  have hgap : (a : Rat) / b ≤ 1 - 1 / 2 ^ 53 := by
    have hsucc : (a : Rat) + 1 ≤ b := by exact_mod_cast hab
    have hbound : (b : Rat) ≤ 2 ^ 53 := by exact_mod_cast hb
    rw [div_le_iff₀ hpos]
    have hunit : (b : Rat) / 2 ^ 53 ≤ 1 := (div_le_one (by positivity)).mpr hbound
    linarith [hunit]
  unfold ratioBy
  rw [Binary.round_natCast (by omega), Binary.round_natCast hb]
  exact lt_of_le_of_lt (Binary.round_mono (by positivity) hgap) round_below_one

section

variable {round : Rat → Rat} (hround : Rounding round)

include hround

theorem sequenceBy_eq_zero_iff {n : Nat} (hn : TellsApart round n) {xs ys : List String}
    (hxs : xs.length ≤ n) (hys : ys.length ≤ n) : sequenceBy round xs ys = 0 ↔ xs = ys := by
  constructor
  · intro h
    unfold sequenceBy at h
    simp only at h
    split at h
    · next hempty =>
      obtain ⟨hx, hy⟩ : xs.length = 0 ∧ ys.length = 0 := by omega
      rw [List.length_eq_zero_iff.mp hx, List.length_eq_zero_iff.mp hy]
    · next hlongest =>
      have hx := lcsLength_le xs ys
      have hy := lcsLength_le ys xs
      rw [lcsLength_comm] at hy
      have hshare := isShare_ratioBy hround (le_trans hx (le_max_left xs.length ys.length))
      rw [hround.eq_zero_iff (sub_nonneg.mpr hshare.2), sub_eq_zero] at h
      have hlength : ¬ lcsLength xs ys < max xs.length ys.length := by
        intro hlt
        exact absurd h (hn _ _ hlt (Nat.max_le.mpr ⟨hxs, hys⟩)).ne'
      apply eq_of_lcsLength <;> omega
  · rintro rfl
    exact sequenceBy_self hround xs

/-! ### Recursion -/

theorem gapBy_eq_zero_iff (a b : Nat) : gapBy round a b = 0 ↔ a = b := by
  unfold gapBy
  rw [ratioBy_eq_zero_iff hround (by omega)]
  omega

/-- Two recursions are at no distance if they differ at most in dividing and conquering. -/
theorem recursionBy_eq_zero_iff (a b : RecursionSchema) :
    recursionBy round a b = 0 ↔ { a with divideAndConquer := b.divideAndConquer } = b := by
  have hagree : { a with divideAndConquer := b.divideAndConquer } = b ↔
      a.isRecursive = b.isRecursive ∧ a.branching = b.branching ∧ a.baseCases = b.baseCases ∧
        a.recursiveCalls = b.recursiveCalls := by
    obtain ⟨_, _, _, _, _⟩ := a
    obtain ⟨_, _, _, _, _⟩ := b
    simp
  have hbranch : (0 : Rat) ≤ if a.branching = b.branching then 0 else 1 := by
    split <;> decide
  have hbase := (isShare_gapBy hround a.baseCases b.baseCases).1
  have hcalls := (isShare_gapBy hround a.recursiveCalls b.recursiveCalls).1
  rw [hagree]
  unfold recursionBy
  simp only
  split
  · next h => simp_all
  · next h =>
    have hsum := add_nonneg (hround.nonneg (add_nonneg hbranch hbase)) hcalls
    rw [hround.eq_zero_iff (div_nonneg (hround.nonneg hsum) (by decide)),
      div_eq_zero_iff, or_iff_left (by decide), hround.eq_zero_iff hsum,
      add_eq_zero_iff_of_nonneg (hround.nonneg (add_nonneg hbranch hbase)) hcalls,
      hround.eq_zero_iff (add_nonneg hbranch hbase), add_eq_zero_iff_of_nonneg hbranch hbase,
      gapBy_eq_zero_iff hround, gapBy_eq_zero_iff hround]
    have hrecursive : a.isRecursive = b.isRecursive := by simpa using h
    simp [hrecursive, and_assoc]

end

end Distance

/-! ### Values -/

namespace FacetValue

/-- Values that no distance tells apart: equal ones, where of two digests the selected one counts, and
of a recursion not whether it divides and conquers. -/
def Agrees (selection : HashSelection) : FacetValue → FacetValue → Prop
  | .normalizedStructure a, .normalizedStructure b => a.select selection = b.select selection
  | .recursionSchema a, .recursionSchema b => { a with divideAndConquer := b.divideAndConquer } = b
  | a, b => a = b

/-- The items of a value that is a sequence. -/
def items : FacetValue → List String
  | .operatorPrecedence v => v
  | .statementOrdering v => v
  | _ => []

end FacetValue

namespace Distance

theorem agrees_of_record {selection : HashSelection} {a b : FacetValue}
    (hshape : a.facet.shape = .record) : a.Agrees selection b ↔ a = b := by
  cases a <;> cases hshape <;> rfl

theorem valuesBy_eq_zero_iff {round : Rat → Rat} (hround : Rounding round) {n : Nat}
    (hn : TellsApart round n) (selection : HashSelection) {a b : FacetValue} (ha : a.InOrder)
    (hb : b.InOrder) (hfacet : a.facet = b.facet) (hx : a.items.length ≤ n)
    (hy : b.items.length ≤ n) : valuesBy round selection a b = 0 ↔ a.Agrees selection b := by
  by_cases hshape : a.facet.shape = .record
  case pos =>
    rw [valuesBy_of_record round hfacet hshape, agrees_of_record hshape,
      recordBy_eq_zero_iff hround]
    constructor
    · intro h
      exact eq_of_payload_eq ha hb hfacet (payload_eq_of_paths ha hb hfacet hshape h)
    · rintro rfl _
      rfl
  case neg =>
    cases a <;> simp [FacetValue.facet, Facet.shape] at hshape <;> cases b <;> cases hfacet
    · simp [valuesBy, FacetValue.Agrees]
    · simp only [valuesBy, FacetValue.Agrees, FacetValue.operatorPrecedence.injEq]
      exact sequenceBy_eq_zero_iff hround hn hx hy
    · simp only [valuesBy, FacetValue.Agrees, FacetValue.statementOrdering.injEq]
      exact sequenceBy_eq_zero_iff hround hn hx hy
    · exact recursionBy_eq_zero_iff hround _ _

end Distance

/-! ### Profiles -/

namespace Profile

open Distance

/-- The distance with exact numbers. -/
def exactDistance : HashSelection → Profile → Profile → Rat := distanceBy id

/-- Profiles that no distance tells apart: both complete, with values that agree. -/
def Agrees (selection : HashSelection) (a b : Profile) : Prop :=
  a.isComplete = true ∧ b.isComplete = true ∧
    ∀ k x y, a.get? k = some x → b.get? k = some y → x.Agrees selection y

theorem isComplete_iff (p : Profile) : p.isComplete = true ↔ ∀ k, ∃ v, p.get? k = some v := by
  rw [isComplete, beq_iff_eq, size, values, Facet.count, List.filterMap_length_eq_length]
  simp [Facet.mem_all, Option.isSome_iff_exists]

theorem get?_eq_none_of_isNull {p : Profile} (h : p.isNull = true) (k : Facet) :
    p.get? k = none := by
  rw [isNull, List.isEmpty_iff, values, List.filterMap_eq_nil_iff] at h
  exact h k (Facet.mem_all k)

theorem mem_values_of_get? {p : Profile} {k : Facet} {v : FacetValue} (h : p.get? k = some v) :
    v ∈ p.values :=
  List.mem_filterMap.mpr ⟨k, Facet.mem_all k, h⟩

theorem distanceBy_comm (round : Rat → Rat) (selection : HashSelection) (a b : Profile) :
    distanceBy round selection a b = distanceBy round selection b a := by
  have hfacet : facetDistanceBy round selection a b = facetDistanceBy round selection b a := by
    funext k
    unfold facetDistanceBy
    cases a.get? k <;> cases b.get? k <;> simp [valuesBy_comm round selection]
  unfold distanceBy
  rw [hfacet]

section

variable {round : Rat → Rat} (hround : Rounding round)

include hround

theorem distanceBy_of_isNull {selection : HashSelection} {a b : Profile}
    (h : a.isNull = true ∨ b.isNull = true) : distanceBy round selection a b = 1 := by
  apply distanceBy_eq_one hround
  intro k
  unfold facetDistanceBy
  rcases h with h | h
  · rw [get?_eq_none_of_isNull h]
  · rw [get?_eq_none_of_isNull h]
    cases a.get? k <;> rfl

theorem distanceBy_eq_zero_iff_agrees {n : Nat} (hn : TellsApart round n)
    (selection : HashSelection) {a b : Profile} (ha : a.InOrder) (hb : b.InOrder)
    (hlength : ∀ v ∈ a.values ++ b.values, v.items.length ≤ n) :
    distanceBy round selection a b = 0 ↔ a.Agrees selection b := by
  have hfacet : ∀ k, facetDistanceBy round selection a b k = 0 ↔
      ∃ x y, a.get? k = some x ∧ b.get? k = some y ∧ x.Agrees selection y := by
    intro k
    unfold facetDistanceBy
    cases hx : a.get? k with
    | none => simp
    | some x =>
      cases hy : b.get? k with
      | none => simp
      | some y =>
        have hxmem := mem_values_of_get? hx
        have hymem := mem_values_of_get? hy
        simp only [Option.some.injEq, exists_and_left, exists_eq_left']
        exact valuesBy_eq_zero_iff hround hn selection (ha x hxmem) (hb y hymem)
          ((facet_of_get? hx).trans (facet_of_get? hy).symm) (hlength x (by simp [hxmem]))
          (hlength y (by simp [hymem]))
  rw [distanceBy_eq_zero_iff hround, forall_congr' hfacet, Agrees, isComplete_iff, isComplete_iff]
  constructor
  · intro h
    refine ⟨fun k => ?_, fun k => ?_, fun k x y hx hy => ?_⟩
    · obtain ⟨x, -, hx, -⟩ := h k
      exact ⟨x, hx⟩
    · obtain ⟨-, y, -, hy, -⟩ := h k
      exact ⟨y, hy⟩
    · obtain ⟨x', y', hx', hy', hagrees⟩ := h k
      rw [hx, Option.some_inj] at hx'
      rw [hy, Option.some_inj] at hy'
      rwa [hx', hy']
  · rintro ⟨hleft, hright, hagrees⟩ k
    obtain ⟨x, hx⟩ := hleft k
    obtain ⟨y, hy⟩ := hright k
    exact ⟨x, y, hx, hy, hagrees k x y hx hy⟩

end

/-- What holds of a distance between two profiles. -/
structure IsDistance (d : Profile → Profile → Rat) (a b : Profile) : Prop where
  symmetric : d a b = d b a
  nonneg : 0 ≤ d a b
  le_one : d a b ≤ 1
  null : a.isNull = true ∨ b.isNull = true → d a b = 1

theorem isDistance_distanceBy {round : Rat → Rat} (hround : Rounding round)
    (selection : HashSelection) (a b : Profile) : IsDistance (distanceBy round selection) a b where
  symmetric := distanceBy_comm round selection a b
  nonneg := (distanceBy_range hround selection a b).1
  le_one := (distanceBy_range hround selection a b).2
  null := distanceBy_of_isNull hround

/-- The laws of the distance, with exact numbers and with the doubles that run: it is symmetric, lies
between zero and one, is one if a side is empty, and zero exactly if the profiles agree. In doubles
the last law needs sequences whose lengths have 53 bits, as longer ones differ by less than a share
that a double can tell from one. -/
theorem distance_laws (selection : HashSelection) {a b : Profile} (ha : a.InOrder) (hb : b.InOrder) :
    (IsDistance (exactDistance selection) a b ∧
      (exactDistance selection a b = 0 ↔ a.Agrees selection b)) ∧
    IsDistance (distance selection) a b ∧
      ((∀ v ∈ a.values ++ b.values, v.items.length ≤ 2 ^ 53) →
        (distance selection a b = 0 ↔ a.Agrees selection b)) := by
  refine ⟨⟨isDistance_distanceBy Rounding.exact selection a b, ?_⟩, ?_⟩
  · -- Exact numbers tell all lengths apart, so any bound of the lengths will do.
    have hbound : ∀ vs : List FacetValue, ∃ n, ∀ v ∈ vs, v.items.length ≤ n := by
      intro vs
      induction vs with
      | nil => exact ⟨0, by simp⟩
      | cons v vs ih =>
        obtain ⟨n, hn⟩ := ih
        refine ⟨max v.items.length n, List.forall_mem_cons.mpr ⟨Nat.le_max_left _ _, ?_⟩⟩
        exact fun w hw => Nat.le_trans (hn w hw) (Nat.le_max_right _ _)
    obtain ⟨n, hn⟩ := hbound (a.values ++ b.values)
    exact distanceBy_eq_zero_iff_agrees Rounding.exact (tellsApart_exact n) selection ha hb hn
  · rw [← distanceBy_round]
    exact ⟨isDistance_distanceBy Rounding.double selection a b,
      distanceBy_eq_zero_iff_agrees Rounding.double tellsApart_double selection ha hb⟩

/-- A complete profile; its maps have no entries, an empty key and keys with dots. -/
def whole : Profile where
  controlFlow := some { branches := 1, calls := [".f"] }
  dataDependency := some { edges := [("", ["max_chain"]), ("a.b", []), ("max_chain", ["a"])] }
  executionPaths := some { pathSignatures := some ["r"] }
  functionContracts := some { functions := 1, returnForms := ["call", "name"] }
  complexity := some { growth := "O(1)" }
  sideEffects := some { isPure := true }
  termination := some { alwaysTerminates := true }
  algebraicStructure := some {}
  numericalBehavior := some {}
  logicalEquivalence := some { normalizedConditions := some [] }
  normalizedStructure := some
    ⟨⟨"0123456789abcdef0123456789abcdef0123456789abcdef0123456789abcdef"⟩,
      ⟨"fedcba9876543210fedcba9876543210fedcba9876543210fedcba9876543210"⟩⟩
  operatorPrecedence := some ["+", "*"]
  statementOrdering := some ["assign", "return"]
  recursionSchema := some { isRecursive := true, branching := .binary, baseCases := 1 }

/-- The same profile with another literal digest, dividing and conquering. -/
def twin : Profile :=
  { whole with
    normalizedStructure := some
      ⟨⟨"00000000000000000000000000000000ffffffffffffffffffffffffffffffff"⟩,
        ⟨"fedcba9876543210fedcba9876543210fedcba9876543210fedcba9876543210"⟩⟩
    recursionSchema := some
      { isRecursive := true, branching := .binary, baseCases := 1, divideAndConquer := true } }

theorem distance_laws_twin :
    whole.InOrder ∧ twin.InOrder ∧ whole ≠ twin ∧ exactDistance .nameInvariant whole twin = 0 ∧
      distance .nameInvariant whole twin = 0 ∧ 0 < exactDistance .literal whole twin ∧
        0 < distance .literal twin whole := by
  have hwhole : whole.InOrder := Proper.inOrder (by decide +kernel)
  have htwin : twin.InOrder := Proper.inOrder (by decide +kernel)
  have hlengths : ∀ v ∈ whole.values ++ twin.values, v.items.length ≤ 2 ^ 53 := by decide
  have hagree : whole.Agrees .nameInvariant twin := by
    refine ⟨by decide, by decide, ?_⟩
    intro k x y hx hy
    cases k <;> cases hx <;> cases hy <;> rfl
  have hdiffer : ¬ whole.Agrees .literal twin := by
    intro h
    have hdigest : (⟨"0123456789abcdef0123456789abcdef0123456789abcdef0123456789abcdef"⟩ : Digest) =
        ⟨"00000000000000000000000000000000ffffffffffffffffffffffffffffffff"⟩ :=
      h.2.2 .normalizedStructure _ _ rfl rfl
    exact absurd hdigest (by decide)
  obtain ⟨⟨-, hexact⟩, -, hdouble⟩ := distance_laws .nameInvariant hwhole htwin
  obtain ⟨⟨hshare, hexact'⟩, hshare', hdouble'⟩ := distance_laws .literal hwhole htwin
  refine ⟨hwhole, htwin, by decide, hexact.mpr hagree, (hdouble hlengths).mpr hagree, ?_, ?_⟩
  · exact lt_of_le_of_ne hshare.nonneg fun h => hdiffer (hexact'.mp h.symm)
  · rw [← hshare'.symmetric]
    exact lt_of_le_of_ne hshare'.nonneg fun h => hdiffer ((hdouble' hlengths).mp h.symm)

end Profile

end Concord
