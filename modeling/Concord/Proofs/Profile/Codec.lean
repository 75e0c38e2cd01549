import Concord.Profile.Document
import Concord.Profile.Extract
import Concord.Proofs.Digest.Reading
import Concord.Proofs.Json.Decoding
import Concord.Proofs.Profile.Distance

/-!
# Profiles read back

A profile comes back from its document, and from the text of its document, so the profile that is read
has the fingerprint of the one that was written. In the other direction reading takes only objects
whose names are names of facets, each with a value of that facet, and the profile has exactly these
values: `codec` has both.

The values of a profile are lists and texts here; `FacetValue.Proper` says what the types of counts,
sets, maps and digests say about them. A count that is too great is not written as a number that comes
back, so without a bound for the counts (`FacetValue.InOrder`) a profile may not be read at all; but
whatever is read is the profile, `recovers_toJson`.
-/

namespace Concord

/-! ### Proper values -/

namespace FacetValue

/-- The counts in a value. -/
def counts : FacetValue → List Nat
  | .controlFlow v =>
    [v.branches, v.loops, v.maxNesting, v.returns, v.conditionalExpressions, v.comprehensions]
  | .dataDependency v => [v.maxChain, v.deadStores]
  | .executionPaths v =>
    [v.pathCount, v.returnPoints, v.raisePoints, v.guardClauses, v.elseAfterReturn]
  | .functionContracts v => [v.functions, v.arity, v.defaults]
  | .complexity v => [v.loopDepth, v.recursiveCalls, v.materializations, v.cyclomatic]
  | .sideEffects v =>
    [v.prints, v.ioCalls, v.mutatingCalls, v.globalWrites, v.attributeWrites, v.subscriptWrites,
      v.raises]
  | .termination v =>
    [v.boundedLoops, v.unboundedLoops, v.whileTrueLoops, v.breaks, v.indexIterations]
  | .algebraicStructure v => v.identityOperations :: v.operators.map (·.2)
  | .numericalBehavior v =>
    [v.trueDivisions, v.floorDivisions, v.truncatingDivisions, v.modulos, v.powers,
      v.selfMultiplications, v.floatLiterals, v.intCasts, v.floatCasts, v.roundingCalls]
  | .logicalEquivalence v =>
    [v.lengthEmptyChecks, v.truthinessNegations, v.boolLiteralComparisons, v.negatedComparisons,
      v.booleanOperators]
  | .recursionSchema v => [v.baseCases, v.recursiveCalls]
  | .normalizedStructure _ | .operatorPrecedence _ | .statementOrdering _ => []

/-- The sets of names in a value, keys of maps included. -/
def sets : FacetValue → List (List String)
  | .dataDependency v => v.edges.map (·.1) :: v.edges.map (·.2)
  | .functionContracts v => [v.returnForms]
  | .algebraicStructure v => [v.operators.map (·.1)]
  | _ => []

/-- The digests in a value. -/
def digests : FacetValue → List Digest
  | .normalizedStructure v => [v.literal, v.nameInvariant]
  | _ => []

/-- Sets and maps are in order, and digests have their numerals. -/
structure InOrder (v : FacetValue) : Prop where
  sets : ∀ names ∈ v.sets, Names.Increasing names
  digests : ∀ d ∈ v.digests, d.IsHash

/-- The value is in order, and its counts have 64 bits. -/
structure Proper (v : FacetValue) : Prop extends v.InOrder where
  counts : ∀ n ∈ v.counts, n < 2 ^ 64

instance (v : FacetValue) : Decidable v.Proper :=
  decidable_of_iff
    ((∀ n ∈ v.counts, n < 2 ^ 64) ∧ (∀ names ∈ v.sets, Names.Increasing names) ∧
      ∀ d ∈ v.digests, d.IsHash)
    ⟨fun h => ⟨⟨h.2.1, h.2.2⟩, h.1⟩, fun h => ⟨h.counts, h.sets, h.digests⟩⟩

end FacetValue

/-- Every value of the profile is in order. -/
def Profile.InOrder (p : Profile) : Prop := ∀ v ∈ p.values, v.InOrder

/-- Every value of the profile is proper. -/
def Profile.Proper (p : Profile) : Prop := ∀ v ∈ p.values, v.Proper

instance (p : Profile) : Decidable p.Proper := inferInstanceAs (Decidable (∀ v ∈ p.values, v.Proper))

theorem Profile.Proper.inOrder {p : Profile} (h : p.Proper) : p.InOrder :=
  fun v hv => (h v hv).toInOrder

/-! ### Values -/

theorem Digest.ofJson?_hex {d : Digest} (h : d.IsHash) : Digest.ofJson? (.str d.hex) = some d := by
  rw [Digest.ofJson?, Json.str?, Option.bind_some, Digest.read_hex h]
  rfl

namespace Profile.Document

open Json (need optional)

@[simp]
theorem optional_optTexts (texts : Option (List String)) :
    optional Json.strs? (some (optTexts texts)) = some texts := by
  cases texts with
  | none => rfl
  | some texts =>
    show ((Json.strs texts).strs?.map some) = some (some texts)
    rw [Json.strs?_strs]
    rfl

@[simp]
theorem branching?_name (b : Branching) : branching? (.str b.name) = some b := by
  cases b <;> rfl

@[simp]
theorem need_some {α : Type} {f : Json → Option α} {j : Json} : need f (some j) = f j := rfl

/-- A value comes back from its document. -/
theorem payload?_payload {v : FacetValue} (h : v.InOrder) : payload? v.facet (payload v) = some v := by
  obtain ⟨hsets, hdigests⟩ := h
  cases v with
  | dataDependency v =>
    obtain ⟨hkeys, hvalues⟩ := List.forall_mem_cons.mp hsets
    have hedges := Json.entries?_obj Json.strs hkeys
      fun e he => Json.strSet?_strs (hvalues e.2 (List.mem_map_of_mem he))
    simp only [FacetValue.facet, payload, payload?, fields]
    rw [Json.record?_zip (by decide) rfl]
    simp only [List.map_cons, List.map_nil, Option.bind_eq_bind, Option.bind_some, Option.pure_def,
      need_some, hedges, Json.nat?_nat]
  | functionContracts v =>
    have hforms := Json.strSet?_strs (hsets v.returnForms (by simp [FacetValue.sets]))
    simp only [FacetValue.facet, payload, payload?, fields]
    rw [Json.record?_zip (by decide) rfl]
    simp only [List.map_cons, List.map_nil, Option.bind_eq_bind, Option.bind_some, Option.pure_def,
      need_some, hforms, Json.nat?_nat, Json.bool?]
  | algebraicStructure v =>
    have hoperators := Json.entries?_obj Json.nat
      (hsets (v.operators.map (·.1)) (by simp [FacetValue.sets])) fun e _ => Json.nat?_nat e.2
    simp only [FacetValue.facet, payload, payload?, fields]
    rw [Json.record?_zip (by decide) rfl]
    simp only [List.map_cons, List.map_nil, Option.bind_eq_bind, Option.bind_some, Option.pure_def,
      need_some, hoperators, Json.nat?_nat, Json.strs?_strs]
  | normalizedStructure v =>
    have hliteral := Digest.ofJson?_hex (hdigests v.literal (by simp [FacetValue.digests]))
    have hinvariant := Digest.ofJson?_hex (hdigests v.nameInvariant (by simp [FacetValue.digests]))
    simp only [FacetValue.facet, payload, payload?, fields]
    rw [Json.record?_zip (by decide) rfl]
    simp only [List.map_cons, List.map_nil, Option.bind_eq_bind, Option.bind_some, Option.pure_def,
      need_some, hliteral, hinvariant]
  | operatorPrecedence v => simp [FacetValue.facet, payload, payload?]
  | statementOrdering v => simp [FacetValue.facet, payload, payload?]
  | _ =>
    simp only [FacetValue.facet, payload, payload?, fields]
    rw [Json.record?_zip (by decide) rfl]
    simp only [List.map_cons, List.map_nil, Option.bind_eq_bind, Option.bind_some, Option.pure_def,
      need_some, Json.nat?_nat, Json.bool?, Json.str?, Json.strs?_strs, branching?_name,
      optional_optTexts]

/-- The document of a value repeats the facet, so the value comes back without being told it. -/
theorem tagged?_tagged {v : FacetValue} (h : v.InOrder) : tagged? (tagged v) = some v := by
  have hrecord := @Json.record?_zip ["kind", "value"] [.str v.facet.name, payload v] (by decide) rfl
  rw [tagged?, show tagged v = .obj (["kind", "value"].zip [.str v.facet.name, payload v]) from rfl,
    hrecord]
  simp [Json.str?, Facet.ofName?_name, payload?_payload h]

@[simp]
theorem plain_optTexts (texts : Option (List String)) : Json.Plain (optTexts texts) := by
  cases texts with
  | none => exact Json.plain_null
  | some texts => exact Json.plain_strs texts

@[simp]
theorem levels_optTexts_le (n : Nat) (texts : Option (List String)) :
    Json.levels (optTexts texts) ≤ n + 1 := by
  cases texts with
  | none => exact Nat.zero_le _
  | some texts => exact Json.levels_strs_le n texts

theorem plain_edges (edges : List (String × TextSet)) :
    Json.Plain (.obj (edges.map fun (k, s) => (k, Json.strs s))) := by
  apply Json.plain_obj
  intro f hf
  obtain ⟨e, -, rfl⟩ := List.mem_map.mp hf
  exact Json.plain_strs e.2

theorem levels_edges_le (edges : List (String × TextSet)) :
    Json.levels (.obj (edges.map fun (k, s) => (k, Json.strs s))) ≤ 2 := by
  apply Json.levels_obj_le
  intro f hf
  obtain ⟨e, -, rfl⟩ := List.mem_map.mp hf
  exact Json.levels_strs_le 0 e.2

theorem levels_operators_le (operators : List (String × Nat)) :
    Json.levels (.obj (operators.map fun (k, n) => (k, Json.nat n))) ≤ 2 := by
  apply Json.levels_obj_le
  intro f hf
  obtain ⟨e, -, rfl⟩ := List.mem_map.mp hf
  exact Nat.zero_le 1

theorem plain_operators {operators : List (String × Nat)}
    (h : ∀ e ∈ operators, Json.Plain (Json.nat e.2)) :
    Json.Plain (.obj (operators.map fun (k, n) => (k, Json.nat n))) := by
  apply Json.plain_obj
  intro f hf
  obtain ⟨e, he, rfl⟩ := List.mem_map.mp hf
  exact h e he

/-- The document of a value has three levels at most. -/
theorem levels_payload_le (v : FacetValue) : Json.levels (payload v) ≤ 3 := by
  cases v with
  | operatorPrecedence v => exact Json.levels_strs_le 2 v
  | statementOrdering v => exact Json.levels_strs_le 2 v
  | dataDependency v =>
    apply Json.levels_zip_le
    simpa using levels_edges_le v.edges
  | algebraicStructure v =>
    apply Json.levels_zip_le
    simpa using levels_operators_le v.operators
  | _ =>
    apply Json.levels_zip_le
    simp

theorem levels_tagged_le (v : FacetValue) : Json.levels (tagged v) ≤ 4 := by
  apply Json.levels_obj_le
  simpa using levels_payload_le v

/-- The document of a value is plain. -/
theorem plain_payload {v : FacetValue} (h : v.Proper) : Json.Plain (payload v) := by
  have hnat : ∀ n ∈ v.counts, Json.Plain (Json.nat n) := fun n hn => Json.plain_nat (h.counts n hn)
  cases v with
  | operatorPrecedence v => exact Json.plain_strs v
  | statementOrdering v => exact Json.plain_strs v
  | dataDependency v =>
    apply Json.plain_zip
    simpa [FacetValue.counts, plain_edges] using hnat
  | algebraicStructure v =>
    apply Json.plain_zip
    have hoperators : Json.Plain (.obj (v.operators.map fun (k, n) => (k, Json.nat n))) :=
      plain_operators fun e he => hnat e.2 (List.mem_cons_of_mem _ (List.mem_map_of_mem he))
    simpa [hoperators] using hnat v.identityOperations List.mem_cons_self
  | normalizedStructure v =>
    apply Json.plain_zip
    simp
  | _ =>
    apply Json.plain_zip
    simpa [FacetValue.counts] using hnat

theorem plain_tagged {v : FacetValue} (h : v.Proper) : Json.Plain (tagged v) := by
  apply Json.plain_obj
  simpa using plain_payload h

/-! ### Counts of any size -/

open Json (Recovers Only only_bind only_some only_need only_optional recovers_of_plain)

theorem orNull?_optTexts (texts : Option (List String)) :
    Json.orNull? Json.strs? (optTexts texts) = some texts :=
  optional_optTexts texts

theorem recovers_str (s : String) : Recovers Json.str? (.str s) s :=
  recovers_of_plain (Json.plain_str s) rfl

theorem recovers_bool (b : Bool) : Recovers Json.bool? (.bool b) b :=
  recovers_of_plain (Json.plain_bool b) rfl

theorem recovers_strs (texts : List String) : Recovers Json.strs? (Json.strs texts) texts :=
  recovers_of_plain (Json.plain_strs texts) (Json.strs?_strs texts)

theorem recovers_branching (b : Branching) : Recovers branching? (.str b.name) b :=
  recovers_of_plain (Json.plain_str b.name) (branching?_name b)

/-- Whatever is read of the document of a value in order is the value. -/
theorem recovers_payload {v : FacetValue} (h : v.InOrder) :
    Recovers (payload? v.facet) (payload v) v := by
  have hread := payload?_payload h
  cases v with
  | operatorPrecedence v => exact recovers_of_plain (Json.plain_strs v) hread
  | statementOrdering v => exact recovers_of_plain (Json.plain_strs v) hread
  | normalizedStructure v => exact recovers_of_plain (Json.plain_zip (by simp)) hread
  | dataDependency v =>
    intro j' hj'
    obtain ⟨hkeys, hvalues⟩ := List.forall_mem_cons.mp h.sets
    have hedges := Json.entries?_obj Json.strs hkeys
      fun e he => Json.strSet?_strs (hvalues e.2 (List.mem_map_of_mem he))
    simp only [FacetValue.facet, payload?, Json.record?_reread hj' (by decide) rfl, List.map_cons,
      List.map_nil, Option.bind_eq_bind, Option.bind_some]
    refine only_bind (only_need (recovers_of_plain (plain_edges _) hedges)) ?_
    repeat with_reducible refine only_bind (only_need (Json.recovers_nat _)) ?_
    exact only_some _
  | algebraicStructure v =>
    intro j' hj'
    have horder := h.sets (v.operators.map (·.1)) (by simp [FacetValue.sets])
    have hoperators := Json.recovers_entries Json.nat horder Json.nat?_nat Json.recovers_nat
    simp only [FacetValue.facet, payload?, Json.record?_reread hj' (by decide) rfl, List.map_cons,
      List.map_nil, Option.bind_eq_bind, Option.bind_some]
    refine only_bind (only_need hoperators) ?_
    refine only_bind (only_need (recovers_strs _)) ?_
    refine only_bind (only_need (Json.recovers_nat _)) ?_
    exact only_some _
  | functionContracts v =>
    intro j' hj'
    have hforms := Json.strSet?_strs (h.sets v.returnForms (by simp [FacetValue.sets]))
    simp only [FacetValue.facet, payload?, Json.record?_reread hj' (by decide) rfl, List.map_cons,
      List.map_nil, Option.bind_eq_bind, Option.bind_some]
    repeat with_reducible refine only_bind (only_need (Json.recovers_nat _)) ?_
    repeat with_reducible refine only_bind (only_need (recovers_bool _)) ?_
    refine only_bind (only_need (recovers_of_plain (Json.plain_strs _) hforms)) ?_
    exact only_some _
  | _ =>
    intro j' hj'
    simp only [FacetValue.facet, payload?, Json.record?_reread hj' (by decide) rfl, List.map_cons,
      List.map_nil, Option.bind_eq_bind, Option.bind_some]
    -- field by field, each with the reader of its kind
    repeat first
      | with_reducible refine only_bind (only_need (Json.recovers_nat _)) ?_
      | with_reducible refine only_bind (only_need (recovers_bool _)) ?_
      | with_reducible refine only_bind (only_need (recovers_str _)) ?_
      | with_reducible refine only_bind (only_need (recovers_strs _)) ?_
      | with_reducible refine only_bind (only_need (recovers_branching _)) ?_
      | with_reducible refine only_bind (only_optional (plain_optTexts _) (orNull?_optTexts _)) ?_
    exact only_some _

/-- So it is with the value and its facet. -/
theorem recovers_tagged {v : FacetValue} (h : v.InOrder) : Recovers tagged? (tagged v) v := by
  intro j' hj'
  have hrecord := @Json.record?_reread ["kind", "value"] [.str v.facet.name, payload v] j' hj'
    (by decide) rfl
  simp only [tagged?, hrecord, List.map_cons, List.map_nil, Option.bind_eq_bind, Option.bind_some]
  refine only_bind (only_need (recovers_str v.facet.name)) ?_
  rw [Facet.ofName?_name, Option.bind_some]
  exact only_need (recovers_payload h)

end Profile.Document

/-! ### Profiles -/

namespace Profile

open Document

theorem get?_insert (p : Profile) (v : FacetValue) (k : Facet) :
    (p.insert v).get? k = if v.facet = k then some v else p.get? k := by
  cases v <;> cases k <;> rfl

/-- The value of a facet in a profile of a list of values is the last one of that facet. -/
theorem get?_foldl_insert (values : List FacetValue) (p : Profile) (k : Facet) :
    (values.foldl insert p).get? k = (values.reverse.find? (·.facet = k)).or (p.get? k) := by
  induction values generalizing p with
  | nil => rfl
  | cons v values ih =>
    rw [List.foldl_cons, ih, get?_insert, List.reverse_cons, List.find?_append]
    by_cases hv : v.facet = k <;> cases values.reverse.find? (·.facet = k) <;> simp [hv]

/-- Profiles with the same values are the same. -/
theorem ext_get? {p q : Profile} (h : ∀ k, p.get? k = q.get? k) : p = q := by
  have hfield {α : Type} {make : α → FacetValue} (hmake : ∀ a b, make a = make b → a = b)
      {x y : Option α} (hxy : x.map make = y.map make) : x = y :=
    Option.map_injective (fun a b => hmake a b) hxy
  cases p
  cases q
  congr 1
  · exact hfield (fun _ _ => FacetValue.controlFlow.inj) (h .controlFlow)
  · exact hfield (fun _ _ => FacetValue.dataDependency.inj) (h .dataDependency)
  · exact hfield (fun _ _ => FacetValue.executionPaths.inj) (h .executionPaths)
  · exact hfield (fun _ _ => FacetValue.functionContracts.inj) (h .functionContracts)
  · exact hfield (fun _ _ => FacetValue.complexity.inj) (h .complexity)
  · exact hfield (fun _ _ => FacetValue.sideEffects.inj) (h .sideEffects)
  · exact hfield (fun _ _ => FacetValue.termination.inj) (h .termination)
  · exact hfield (fun _ _ => FacetValue.algebraicStructure.inj) (h .algebraicStructure)
  · exact hfield (fun _ _ => FacetValue.numericalBehavior.inj) (h .numericalBehavior)
  · exact hfield (fun _ _ => FacetValue.logicalEquivalence.inj) (h .logicalEquivalence)
  · exact hfield (fun _ _ => FacetValue.normalizedStructure.inj) (h .normalizedStructure)
  · exact hfield (fun _ _ => FacetValue.operatorPrecedence.inj) (h .operatorPrecedence)
  · exact hfield (fun _ _ => FacetValue.statementOrdering.inj) (h .statementOrdering)
  · exact hfield (fun _ _ => FacetValue.recursionSchema.inj) (h .recursionSchema)

/-- A profile of values chosen for each facet has these values. -/
theorem get?_ofValues {choose : Facet → Option FacetValue}
    (hchoose : ∀ k v, choose k = some v → v.facet = k) (k : Facet) :
    (ofValues (Facet.all.filterMap choose)).get? k = choose k := by
  have hmem : ∀ v, v ∈ (Facet.all.filterMap choose).reverse ↔ choose v.facet = some v := by
    intro v
    rw [List.mem_reverse, List.mem_filterMap]
    constructor
    · rintro ⟨k, -, hk⟩
      rwa [hchoose k v hk]
    · exact fun hv => ⟨v.facet, Facet.mem_all _, hv⟩
  rw [ofValues, get?_foldl_insert, show empty.get? k = none by cases k <;> rfl, Option.or_none]
  cases hfind : (Facet.all.filterMap choose).reverse.find? (·.facet = k) with
  | some v =>
    have hv := (hmem v).mp (List.mem_of_find?_eq_some hfind)
    have hk := List.find?_some hfind
    rw [← of_decide_eq_true hk, hv]
  | none =>
    rw [List.find?_eq_none] at hfind
    cases hk : choose k with
    | none => rfl
    | some v =>
      have hfacet := hchoose k v hk
      have hv := hfind v ((hmem v).mpr (by rw [hfacet, hk]))
      exact absurd (decide_eq_true hfacet) hv

theorem ofValues_values (p : Profile) : ofValues p.values = p :=
  ext_get? fun k => get?_ofValues (fun _ _ => facet_of_get?) k

/-! ### Reading the document of a profile -/

theorem nodup_facets (p : Profile) : (p.values.map (·.facet)).Nodup := by
  rw [values, List.map_filterMap]
  apply List.Nodup.filterMap _ (by decide)
  intro k k' facet hk hk'
  obtain ⟨v, hv, rfl⟩ := Option.map_eq_some_iff.mp hk
  obtain ⟨v', hv', hfacet⟩ := Option.map_eq_some_iff.mp hk'
  rw [← facet_of_get? hv, ← facet_of_get? hv', hfacet]

/-- Every value stands under its facet in the list of the values. -/
theorem lookup_values (p : Profile) (k : Facet) :
    (p.values.map fun v => (v.facet, v)).reverse.lookup k = p.get? k := by
  cases hk : p.get? k with
  | some v =>
    apply lookup_reverse_eq_some
    · rw [List.map_map]
      exact nodup_facets p
    · rw [← facet_of_get? hk]
      exact List.mem_map_of_mem (List.mem_filterMap.mpr ⟨k, Facet.mem_all k, hk⟩)
  | none =>
    rw [List.lookup_eq_none_iff]
    rintro ⟨k', v⟩ he
    obtain ⟨w, hw, heq⟩ := List.mem_map.mp (List.mem_reverse.mp he)
    obtain ⟨k'', -, hw⟩ := List.mem_filterMap.mp hw
    obtain ⟨rfl, rfl⟩ := Prod.ext_iff.mp heq
    rw [← facet_of_get? hw] at hw
    have hne : k ≠ w.facet := by
      rintro rfl
      rw [hk] at hw
      cases hw
    simpa using hne

/-- The fields of a profile's document come back with their facets. -/
theorem readFields?_toJson {p : Profile} (h : p.InOrder) :
    readFields? (p.values.map fun v => (v.facet.name, tagged v)) =
      some (p.values.map fun v => (v.facet, v)) := by
  have hmap : (p.values.map fun v => (v.facet.name, tagged v)) =
      (p.values.map fun v => (v.facet, v)).map fun e => (e.1.name, tagged e.2) := by
    rw [List.map_map]
    rfl
  rw [hmap]
  apply mapM_written
  intro e he
  obtain ⟨v, hv, rfl⟩ := List.mem_map.mp he
  simp [Facet.ofName?_name, tagged?_tagged (h v hv)]

/-- A profile comes back from its document. -/
theorem ofJson?_toJson {p : Profile} (h : p.InOrder) : ofJson? p.toJson = some p := by
  have hfacets : ((Facet.all.filterMap fun k => (p.get? k).map (k, ·)).all
      fun e => decide (e.2.facet = e.1)) = true := by
    rw [List.all_eq_true]
    intro e he
    obtain ⟨k, -, hk⟩ := List.mem_filterMap.mp he
    obtain ⟨v, hv, rfl⟩ := Option.map_eq_some_iff.mp hk
    exact decide_eq_true (facet_of_get? hv)
  have hvalues : (Facet.all.filterMap fun k => (p.get? k).map (k, ·)).map (·.2) = p.values := by
    rw [List.map_filterMap]
    simp [values, Function.comp_def]
  rw [toJson, ofJson?, readFields?_toJson h]
  simp only [Option.bind_eq_bind, Option.bind_some, lookup_values, hvalues, ofValues_values]
  exact if_pos hfacets

/-- The document of a profile has five levels at most. -/
theorem levels_toJson_le (p : Profile) : Json.levels p.toJson ≤ 5 := by
  apply Json.levels_obj_le
  intro f hf
  obtain ⟨v, -, rfl⟩ := List.mem_map.mp hf
  exact levels_tagged_le v

theorem plain_toJson {p : Profile} (h : p.Proper) : Json.Plain p.toJson := by
  apply Json.plain_obj
  intro f hf
  obtain ⟨v, hv, rfl⟩ := List.mem_map.mp hf
  exact plain_tagged (h v hv)

/-- A profile comes back from the text of its document. -/
theorem ofJson?_text {p : Profile} (h : p.Proper) :
    (Json.read? p.toJson.text).bind ofJson? = some p := by
  have hlevels : Json.levels p.toJson ≤ Json.maxDepth :=
    Nat.le_trans (levels_toJson_le p) (by decide)
  rw [Json.read?_text_of_plain hlevels (plain_toJson h), Option.bind_some, ofJson?_toJson h.inOrder]

/-- Whatever is read of the document of a profile in order is the profile. -/
theorem recovers_toJson {p : Profile} (h : p.InOrder) : Json.Recovers ofJson? p.toJson p := by
  intro j' hj'
  obtain ⟨fields', hfields, rfl⟩ := Json.exists_fields_of_reread hj'
  have hall := ofJson?_toJson h
  rw [toJson, ofJson?, readFields?_toJson h] at hall
  refine Json.only_bind ?_ (fun q hq => Option.some_inj.mp (hq.symm.trans hall))
  apply Json.only_mapM
  have hfields := List.forall₂_map_left_iff.mp (Json.forall₂_rereadFields hfields)
  have hvalues := (List.forall₂_and_left _ _).mpr ⟨h, hfields⟩
  rw [List.forall₂_map_right_iff]
  refine List.Forall₂.imp ?_ hvalues.flip
  rintro ⟨name, j⟩ v ⟨hv, rfl, hj⟩
  simp only [Facet.ofName?_name, Option.bind_eq_bind, Option.bind_some]
  exact Json.only_bind (recovers_tagged hv j hj) (Json.only_some _)

/-! ### What reading accepts -/

theorem eq_name_of_ofName? {s : String} {k : Facet} (h : Facet.ofName? s = some k) : s = k.name := by
  have hname := List.find?_some h
  exact (eq_of_beq hname).symm

theorem readFields?_cons {f : String × Json} {fields : List (String × Json)}
    {read : List (Facet × FacetValue)} (h : readFields? (f :: fields) = some read) :
    ∃ k v rest, Facet.ofName? f.1 = some k ∧ tagged? f.2 = some v ∧
      readFields? fields = some rest ∧ read = (k, v) :: rest := by
  simp only [readFields?, List.mapM_cons, Option.bind_eq_bind, Option.pure_def,
    Option.bind_eq_some_iff, Option.some.injEq] at h
  obtain ⟨_, ⟨k, hk, v, hv, rfl⟩, rest, hrest, rfl⟩ := h
  exact ⟨k, v, rest, hk, hv, hrest, rfl⟩

theorem readable_of_readFields? {fields : List (String × Json)} {read : List (Facet × FacetValue)}
    (h : readFields? fields = some read) :
    ∀ f ∈ fields, ∃ k v, Facet.ofName? f.1 = some k ∧ tagged? f.2 = some v := by
  induction fields generalizing read with
  | nil => simp
  | cons f fields ih =>
    obtain ⟨k, v, rest, hk, hv, hrest, -⟩ := readFields?_cons h
    exact List.forall_mem_cons.mpr ⟨⟨k, v, hk, hv⟩, ih hrest⟩

/-- Of several fields under one name the last one counts, before and after they were read. -/
theorem lookup_readFields? {fields : List (String × Json)} {read : List (Facet × FacetValue)}
    (h : readFields? fields = some read) (k : Facet) :
    read.reverse.lookup k = ((Json.obj fields).field? k.name).bind tagged? := by
  show _ = (fields.reverse.lookup k.name).bind tagged?
  induction fields generalizing read with
  | nil =>
    obtain rfl : [] = read := Option.some_inj.mp h
    rfl
  | cons f fields ih =>
    obtain ⟨k', v, rest, hk', hv, hrest, rfl⟩ := readFields?_cons h
    rw [List.reverse_cons, List.reverse_cons, List.lookup_append, List.lookup_append, ih hrest]
    cases hlater : fields.reverse.lookup k.name with
    | some j =>
      -- A later field under this name was read too, so its value hides the one here.
      obtain ⟨before, after, hfields, -⟩ := List.lookup_eq_some_iff.mp hlater
      have hmem : (k.name, j) ∈ fields := List.mem_reverse.mp (by simp [hfields])
      obtain ⟨-, w, -, hw⟩ := readable_of_readFields? hrest _ hmem
      simp only at hw
      simp [hw]
    | none =>
      obtain ⟨name, j⟩ := f
      obtain rfl := eq_name_of_ofName? hk'
      by_cases hk : k = k'
      · subst hk
        simp [hv]
      · have hname : k.name ≠ k'.name := by
          intro hname
          apply hk
          rw [← Option.some_inj, ← Facet.ofName?_name k, hname, Facet.ofName?_name]
        simp [List.lookup_cons, beq_false_of_ne hk, beq_false_of_ne hname]

/-- What reading the object of some fields gives: every field stands under the name of a facet, and
the values of the profile are those that count, each a value of the facet whose name it stands
under. -/
theorem ofJson?_obj {fields : List (String × Json)} {p : Profile}
    (h : ofJson? (.obj fields) = some p) :
    (∀ f ∈ fields, ∃ k v, Facet.ofName? f.1 = some k ∧ tagged? f.2 = some v) ∧
      ∀ k, p.get? k = ((Json.obj fields).field? k.name).bind tagged? := by
  rw [ofJson?, Option.bind_eq_bind, Option.bind_eq_some_iff] at h
  obtain ⟨read, hread, h⟩ := h
  simp only [lookup_readFields? hread] at h
  split at h
  case isFalse => cases h
  case isTrue hfacets =>
    obtain rfl := Option.some_inj.mp h
    refine ⟨readable_of_readFields? hread, fun k => ?_⟩
    rw [List.map_filterMap]
    have hvalues : (fun k => (((((Json.obj fields).field? k.name).bind tagged?).map (k, ·)).map
        (·.2))) = fun k : Facet => ((Json.obj fields).field? k.name).bind tagged? := by
      funext k
      rw [Option.map_map]
      exact Option.map_id'
    rw [hvalues]
    apply get?_ofValues
    intro k v hv
    have hmem : (k, v) ∈ Facet.all.filterMap fun k =>
        (((Json.obj fields).field? k.name).bind tagged?).map (k, ·) :=
      List.mem_filterMap.mpr ⟨k, Facet.mem_all k, by rw [hv]; rfl⟩
    exact of_decide_eq_true (List.all_eq_true.mp hfacets _ hmem)

/-- A profile comes back from its document and from the text of its document, with its fingerprint.
An object is read as a profile only if every name in it is the name of a facet and every value is one
of a facet; the value that counts under a name is one of the facet with that name, and the profile has
these values and no others. -/
theorem codec :
    (∀ p : Profile, p.Proper →
      ofJson? p.toJson = some p ∧
        (Json.read? p.toJson.text).bind ofJson? = some p ∧
          ((Json.read? p.toJson.text).bind ofJson?).map fingerprint = some p.fingerprint) ∧
      ∀ (fields : List (String × Json)) (q : Profile), ofJson? (.obj fields) = some q →
        (∀ f ∈ fields, ∃ k v, Facet.ofName? f.1 = some k ∧ tagged? f.2 = some v) ∧
          (∀ name j, (Json.obj fields).field? name = some j →
            ∃ k v, Facet.ofName? name = some k ∧ tagged? j = some v ∧ v.facet = k ∧
              q.get? k = some v) ∧
            ∀ k v, q.get? k = some v →
              v.facet = k ∧ ∃ j, (Json.obj fields).field? k.name = some j ∧ tagged? j = some v := by
  refine ⟨fun p hp => ⟨ofJson?_toJson hp.inOrder, ofJson?_text hp, by rw [ofJson?_text hp]; rfl⟩, ?_⟩
  intro fields q hq
  obtain ⟨hreadable, hvalues⟩ := ofJson?_obj hq
  refine ⟨hreadable, ?_, ?_⟩
  · intro name j hj
    obtain ⟨before, after, hfields, -⟩ := List.lookup_eq_some_iff.mp hj
    have hmem : (name, j) ∈ fields := List.mem_reverse.mp (by simp [hfields])
    obtain ⟨k, v, hk, hv⟩ := hreadable _ hmem
    obtain rfl := eq_name_of_ofName? hk
    have hget : q.get? k = some v := by
      rw [hvalues, hj]
      exact hv
    exact ⟨k, v, hk, hv, facet_of_get? hget, hget⟩
  · intro k v hget
    have hread := hvalues k
    rw [hget] at hread
    exact ⟨facet_of_get? hget, Option.bind_eq_some_iff.mp hread.symm⟩

/-- A profile with sets, maps, digests, and texts that are missing, empty or quoted. -/
def sample : Profile :=
  ofValues
    [.controlFlow { branches := 2, calls := ["len", "f"], branchConditions := some ["x == \"\\\""] },
      .dataDependency { edges := [("a", ["b", "c"]), ("b", [])], maxChain := 2 },
      .executionPaths { pathCount := 3, implicitReturn := true, pathSignatures := some [] },
      .functionContracts { functions := 1, arity := 2, returnForms := ["call", "name"] },
      .complexity { growth := "O(n)", cyclomatic := 18446744073709551615 },
      .algebraicStructure { operators := [("*", 1), ("+", 2)], commutativeOrders := ["a + b"] },
      .normalizedStructure
        ⟨⟨"0123456789abcdef0123456789abcdef0123456789abcdef0123456789abcdef"⟩,
          ⟨"fedcba9876543210fedcba9876543210fedcba9876543210fedcba9876543210"⟩⟩,
      .operatorPrecedence ["+", "*"],
      .recursionSchema { isRecursive := true, branching := .multiWay, divideAndConquer := true }]

theorem codec_sample :
    sample.Proper ∧ ofJson? sample.toJson = some sample ∧
      (Json.read? sample.toJson.text).bind ofJson? = some sample ∧
        ∀ k v, sample.get? k = some v → v.facet = k := by
  have hproper : sample.Proper := by decide
  have hread := codec.1 sample hproper
  refine ⟨hproper, hread.1, hread.2.1, ?_⟩
  intro k v hv
  exact ((codec.2 _ sample hread.1).2.2 k v hv).1

/-- A value under the name of another facet is refused. -/
example :
    ofJson? (.obj [("termination", tagged (.operatorPrecedence []))]) = none := by
  decide

end Profile

end Concord

/-!
## Profiles of modules are in order

The values that are read off a module are in order, whatever the module: sets and maps are collected by
`Names.insert` and `Dependency.addEdges`, which keep the order, and digests are those of texts. So
everything that is shown of values in order holds of the profile of every module.
-/

namespace Concord

namespace Names

theorem increasing_union (ns : List String) {set : List String} (h : Increasing set) :
    Increasing (union ns set) := by
  induction ns with
  | nil => exact h
  | cons n ns ih => exact pairwise_insert ih

end Names

namespace Dependency

/-- The keys of a graph, and the names under each of them, are in order. -/
structure InOrder (g : Graph) : Prop where
  keys : Names.Increasing (g.map (·.1))
  sources : ∀ e ∈ g, Names.Increasing e.2

theorem inOrder_nil : InOrder [] := ⟨List.Pairwise.nil, by simp⟩

theorem mem_keys_addEdges {target key : String} {sources : TextSet} {g : Graph}
    (h : key ∈ (addEdges target sources g).map (·.1)) : key = target ∨ key ∈ g.map (·.1) := by
  fun_induction addEdges target sources g with
  | case1 => simpa using h
  | case2 k s rest hlt => simpa using h
  | case3 s rest => exact .inr (by simpa using h)
  | case4 k s rest _ _ ih =>
    rcases List.mem_cons.mp h with rfl | h
    · exact .inr (by simp)
    · rcases ih h with rfl | h
      · exact .inl rfl
      · exact .inr (List.mem_cons_of_mem _ h)

/-- Adding what a name depends on keeps a graph in order. -/
theorem inOrder_addEdges {target : String} {sources : TextSet} {g : Graph} (hg : InOrder g)
    (hsources : Names.Increasing sources) : InOrder (addEdges target sources g) := by
  obtain ⟨hkeys, hsets⟩ := hg
  fun_induction addEdges target sources g with
  | case1 => exact ⟨by simp, by simpa using hsources⟩
  | case2 k s rest hlt =>
    -- a new key in front of all others
    refine ⟨List.pairwise_cons.mpr ⟨?_, hkeys⟩, List.forall_mem_cons.mpr ⟨hsources, hsets⟩⟩
    intro key hkey
    rcases List.mem_cons.mp hkey with rfl | hkey
    · exact hlt
    · exact lt_trans hlt ((List.pairwise_cons.mp hkeys).1 key hkey)
  | case3 s rest =>
    -- the key is there, and its names are joined with the new ones
    obtain ⟨hs, hrest⟩ := List.forall_mem_cons.mp hsets
    exact ⟨hkeys, List.forall_mem_cons.mpr ⟨Names.increasing_union _ hs, hrest⟩⟩
  | case4 k s rest hnlt hne ih =>
    -- the place is further on, so the first key stays below the target and the other keys
    obtain ⟨hk, hkeys⟩ := List.pairwise_cons.mp hkeys
    obtain ⟨hs, hrest⟩ := List.forall_mem_cons.mp hsets
    obtain ⟨hkeys', hsets'⟩ := ih hkeys hrest
    refine ⟨List.pairwise_cons.mpr ⟨?_, hkeys'⟩, List.forall_mem_cons.mpr ⟨hs, hsets'⟩⟩
    intro key hkey
    rcases mem_keys_addEdges hkey with rfl | hkey
    · exact lt_of_le_of_ne (not_lt.mp hnlt) (Ne.symm hne)
    · exact hk key hkey

theorem increasing_reads (e : Expr) : Names.Increasing (reads e) :=
  (Names.pairwise_ofList _).filter _

/-- What a statement depends on is a set of names for each name it binds. -/
theorem increasing_of_mem_ofStmt {s : Stmt} {e : String × TextSet} (h : e ∈ ofStmt s) :
    Names.Increasing e.2 := by
  unfold ofStmt at h
  split at h
  · obtain ⟨t, -, h⟩ := List.mem_flatMap.mp h
    obtain ⟨n, -, rfl⟩ := List.mem_map.mp h
    exact increasing_reads _
  · obtain ⟨n, -, rfl⟩ := List.mem_map.mp h
    exact Names.increasing_union _ (increasing_reads _)
  · obtain ⟨n, -, rfl⟩ := List.mem_map.mp h
    exact increasing_reads _
  · cases h

theorem inOrder_foldl_addEdges (edges : List (String × TextSet)) {g : Graph} (hg : InOrder g)
    (hedges : ∀ e ∈ edges, Names.Increasing e.2) :
    InOrder (edges.foldl (fun g (target, sources) => addEdges target sources g) g) := by
  induction edges generalizing g with
  | nil => exact hg
  | cons e edges ih =>
    obtain ⟨he, hedges⟩ := List.forall_mem_cons.mp hedges
    exact ih (inOrder_addEdges hg he) hedges

theorem inOrder_graphOf (m : Module) : InOrder (graphOf m) := by
  apply inOrder_foldl_addEdges _ inOrder_nil
  intro e he
  obtain ⟨⟨b, i⟩, -, he⟩ := List.mem_flatMap.mp he
  cases hs : b[i]? with
  | none => simp [hs] at he
  | some s =>
    simp only [hs, Option.map_some, Option.getD_some] at he
    exact increasing_of_mem_ofStmt he

end Dependency

namespace Module

theorem increasing_operatorCounts (m : Module) :
    Names.Increasing (m.operatorCounts.map (·.1)) := by
  unfold operatorCounts
  rw [List.map_map]
  show Names.Increasing (List.map id _)
  rw [List.map_id]
  exact Names.pairwise_ofList _

theorem increasing_returnForms (m : Module) :
    Names.Increasing m.functionContracts.returnForms := by
  unfold functionContracts
  split
  · exact List.Pairwise.nil
  · exact Names.pairwise_ofList _

/-- Every value in the profile of a module is in order. -/
theorem inOrder_facet (mode : Mode) (m : Module) (k : Facet) :
    (m.facet mode k).InOrder := by
  cases k with
  | dataDependency =>
    obtain ⟨hkeys, hsources⟩ := Dependency.inOrder_graphOf m.normalize
    refine ⟨List.forall_mem_cons.mpr ⟨hkeys, ?_⟩, by simp [facet, facetOf, FacetValue.digests]⟩
    intro names hnames
    obtain ⟨e, he, rfl⟩ := List.mem_map.mp hnames
    exact hsources e he
  | functionContracts =>
    refine ⟨?_, by simp [facet, facetOf, FacetValue.digests]⟩
    simpa [facet, facetOf, FacetValue.sets] using increasing_returnForms m.normalize
  | algebraicStructure =>
    refine ⟨?_, by simp [facet, facetOf, FacetValue.digests]⟩
    simpa [facet, facetOf, FacetValue.sets, algebraic] using increasing_operatorCounts m.normalize
  | normalizedStructure =>
    refine ⟨by simp [facet, facetOf, FacetValue.sets], ?_⟩
    simp [facet, facetOf, FacetValue.digests, hashes, Digest.isHash_ofText]
  | _ => constructor <;> simp [facet, facetOf, FacetValue.sets, FacetValue.digests]

theorem inOrder_profile (mode : Mode) (m : Module) : (m.profile mode).InOrder := by
  intro v hv
  obtain ⟨k, -, hk⟩ := List.mem_filterMap.mp hv
  rw [get?_profile] at hk
  obtain rfl := Option.some_inj.mp hk
  exact m.inOrder_facet mode k

end Module

end Concord
