import Mathlib.Data.Fintype.Card
import Mathlib.Data.List.Basic
import Mathlib.Data.List.GetD
import Mathlib.Data.List.Induction
import Mathlib.Data.List.Nodup
import Mathlib.Data.Set.Finite.List
import Mathlib.Logic.Relation
import Mathlib.Order.Bounds.Basic
import Mathlib.Order.WellFounded
import Concord.Profile.Dependency
import Concord.Proofs.Json.Decoding

/-!
# The longest chain of dependencies

A map of dependencies stands for a graph of names (`DependsOn`), and chains are paths through the graph of its
strongly connected components (`IsPath`). The length of the longest one is found in three steps, and each
step has its own meaning:

* the names are put into groups, and these are the components (`Condensed.Condenses`, `condenses_condense`);
* the groups are put in an order that no edge goes back in (`Condensed.IsSorted`, `Condensed.isSorted_sort`);
* lengths are filled in from the end of that order, each from those after it
  (`Condensed.isGreatest_chainLengths`).

The last step asks of the first two only what their meanings say, so the result holds for every way to find
the components and every way to put them in order.

Main statement: `longestChain_isGreatest`.
-/

namespace Concord

namespace Dependency

open Relation

variable {g : Graph} {n : NameGraph} {c : Condensed} {a b : String} {i j : Nat}

/-! ## The graph that a map stands for -/

/-- A name depends on another one that is listed under it. -/
def DependsOn (g : Graph) (a b : String) : Prop := a ≠ b ∧ ∃ sources, (a, sources) ∈ g ∧ b ∈ sources

/-- The names of a map: those it lists names under and those it lists. -/
def IsName (g : Graph) (a : String) : Prop := ∃ e ∈ g, a = e.1 ∨ a ∈ e.2

/-- The strongly connected component of a name: the names it leads to that lead back to it. -/
def component (g : Graph) (a : String) : Set String :=
  {b | ReflTransGen (DependsOn g) a b ∧ ReflTransGen (DependsOn g) b a}

/-- A component of the map. -/
def IsComponent (g : Graph) (C : Set String) : Prop := ∃ a, IsName g a ∧ C = component g a

/-- A name of one component depends on a name of another one. -/
def Joined (g : Graph) (C D : Set String) : Prop := C ≠ D ∧ ∃ a ∈ C, ∃ b ∈ D, DependsOn g a b

/-- A path through the components, each joined to the next one. -/
structure IsPath (g : Graph) (path : List (Set String)) : Prop where
  components : ∀ C ∈ path, IsComponent g C
  joined : path.IsChain (Joined g)

/-- The numbers of edges on the paths through the components. The empty path has none either, so that a map
without names has a longest path. -/
def pathLengths (g : Graph) : Set Nat := {k | ∃ path, IsPath g path ∧ path.length - 1 = k}

theorem mem_targets {α : Type} [BEq α] [LawfulBEq α] {edges : List (α × α)} {a b : α} :
    b ∈ targets edges a ↔ (a, b) ∈ edges := by
  simp [targets]

/-- One name has an edge to another one. -/
def NameGraph.Edge (n : NameGraph) (a b : String) : Prop := (a, b) ∈ n.edges

/-- Two names lead to each other. -/
def NameGraph.Mutual (n : NameGraph) (a b : String) : Prop :=
  ReflTransGen n.Edge a b ∧ ReflTransGen n.Edge b a

theorem NameGraph.Mutual.refl (n : NameGraph) (a : String) : n.Mutual a a := ⟨.refl, .refl⟩

theorem NameGraph.Mutual.symm (h : n.Mutual a b) : n.Mutual b a := ⟨h.2, h.1⟩

theorem NameGraph.Mutual.trans {d : String} (hab : n.Mutual a b) (hbd : n.Mutual b d) : n.Mutual a d :=
  ⟨hab.1.trans hbd.1, hbd.2.trans hab.2⟩

theorem mem_nodes_iff : a ∈ (nameGraph g).nodes ↔ IsName g a := by
  simp only [nameGraph, Names.mem_ofList, List.mem_flatMap, List.mem_cons, IsName]

theorem edge_iff : (nameGraph g).Edge a b ↔ DependsOn g a b := by
  simp only [NameGraph.Edge, nameGraph, DependsOn, List.mem_flatMap, List.mem_map, List.mem_filter,
    bne_iff_ne, Prod.mk.injEq, Prod.exists]
  constructor
  · rintro ⟨_, sources, hg, _, ⟨hb, hne⟩, rfl, rfl⟩
    exact ⟨hne.symm, sources, hg, hb⟩
  · rintro ⟨hne, sources, hg, hb⟩
    exact ⟨a, sources, hg, b, ⟨hb, hne.symm⟩, rfl, rfl⟩

theorem edge_eq (g : Graph) : (nameGraph g).Edge = DependsOn g := by
  funext a b
  exact propext edge_iff

/-- Edges join names of the graph. -/
theorem mem_nodes_of_edge (h : (nameGraph g).Edge a b) :
    a ∈ (nameGraph g).nodes ∧ b ∈ (nameGraph g).nodes := by
  obtain ⟨-, sources, hg, hb⟩ := edge_iff.mp h
  exact ⟨mem_nodes_iff.mpr ⟨_, hg, .inl rfl⟩, mem_nodes_iff.mpr ⟨_, hg, .inr hb⟩⟩

/-! ## Longest chains by an order -/

namespace Condensed

/-- An edge leads from one position to another. -/
def Edge (c : Condensed) (i j : Nat) : Prop := (i, j) ∈ c.edges

/-- No edges go round in a circle. -/
def IsAcyclic (c : Condensed) : Prop := ∀ i, ¬ TransGen c.Edge i i

/-- All positions in an order in which each comes before those that its edges lead to. -/
structure IsSorted (c : Condensed) (order : List Nat) : Prop where
  perm : order.Perm (List.range c.groups.length)
  before : order.Pairwise fun i j => ¬ c.Edge j i

/-- The longest chain of edges from position `i` has `k` of them. -/
def IsFarthest (c : Condensed) (i k : Nat) : Prop :=
  IsGreatest {k | ∃ path, (i :: path).IsChain c.Edge ∧ path.length = k} k

theorem isGreatest_foldl_max (ks : List Nat) (k : Nat) :
    IsGreatest {m | m = k ∨ m ∈ ks} (ks.foldl max k) := by
  induction ks generalizing k with
  | nil => simp
  | cons l ks ih =>
    obtain ⟨hmem, hbound⟩ := ih (max k l)
    constructor
    · rcases hmem with hmax | hmem
      · rcases max_choice k l with h | h
        · exact .inl (hmax.trans h)
        · exact .inr (List.mem_cons.mpr (.inl (hmax.trans h)))
      · exact .inr (List.mem_cons_of_mem l hmem)
    · have hkl : max k l ≤ ks.foldl max (max k l) := hbound (.inl rfl)
      rintro m (rfl | hm)
      · exact (le_max_left _ _).trans hkl
      · rcases List.mem_cons.mp hm with rfl | hm
        · exact (le_max_right _ _).trans hkl
        · exact hbound (.inr hm)

/-- A chain from a position stops there or goes on from one that an edge leads to. -/
theorem isFarthest_of_targets {longest : Nat → Nat}
    (h : ∀ j, c.Edge i j → c.IsFarthest j (longest j)) :
    c.IsFarthest i (((targets c.edges i).map (longest · + 1)).foldl max 0) := by
  obtain ⟨hmem, hbound⟩ := isGreatest_foldl_max ((targets c.edges i).map (longest · + 1)) 0
  constructor
  · rcases hmem with hzero | hmem
    · exact ⟨[], List.isChain_singleton i, hzero.symm⟩
    · obtain ⟨j, hj, hlongest⟩ := List.mem_map.mp hmem
      have hedge := mem_targets.mp hj
      obtain ⟨path, hchain, hlength⟩ := (h j hedge).1
      exact ⟨j :: path, List.isChain_cons_cons.mpr ⟨hedge, hchain⟩, by rw [← hlongest, ← hlength]; rfl⟩
  · rintro k ⟨path, hchain, rfl⟩
    cases path with
    | nil => exact Nat.zero_le _
    | cons j path =>
      obtain ⟨hedge, hchain⟩ := List.isChain_cons_cons.mp hchain
      calc (j :: path).length ≤ longest j + 1 := Nat.succ_le_succ ((h j hedge).2 ⟨path, hchain, rfl⟩)
        _ ≤ _ := hbound (.inr (List.mem_map.mpr ⟨j, mem_targets.mpr hedge, rfl⟩))

@[simp] theorem length_chainLengths (c : Condensed) (order : List Nat) :
    (c.chainLengths order).length = c.groups.length := by
  induction order with
  | nil => exact List.length_replicate
  | cons i order ih => exact List.length_set.trans ih

/-- In an order that the edges do not leave, every position gets the length of its longest chain. -/
theorem isFarthest_chainLengths {order : List Nat} (hacyclic : c.IsAcyclic) (hnodup : order.Nodup)
    (hlt : ∀ i ∈ order, i < c.groups.length) (hbefore : order.Pairwise fun i j => ¬ c.Edge j i)
    (hclosed : ∀ i ∈ order, ∀ j, c.Edge i j → j ∈ order) :
    ∀ i ∈ order, c.IsFarthest i ((c.chainLengths order).getD i 0) := by
  induction order with
  | nil => simp
  | cons i order ih =>
    obtain ⟨hi, hnodup⟩ := List.nodup_cons.mp hnodup
    obtain ⟨hbeforei, hbefore⟩ := List.pairwise_cons.mp hbefore
    obtain ⟨hlti, hlt⟩ := List.forall_mem_cons.mp hlt
    -- No edge leads back to `i`, so the rest of the order is closed as well.
    have hrest := ih hnodup hlt hbefore fun k hk j hkj => by
      rcases List.mem_cons.mp (hclosed k (List.mem_cons_of_mem i hk) j hkj) with rfl | hj
      · exact absurd hkj (hbeforei k hk)
      · exact hj
    have hset : c.chainLengths (i :: order) = (c.chainLengths order).set i
        (((targets c.edges i).map ((c.chainLengths order).getD · 0 + 1)).foldl max 0) := rfl
    intro k hk
    rw [hset]
    rcases List.mem_cons.mp hk with rfl | hk
    · rw [List.getD_eq_getElem?_getD, List.getElem?_set_self (by simpa using hlti), Option.getD_some]
      refine isFarthest_of_targets fun j hj => hrest j ?_
      rcases List.mem_cons.mp (hclosed k List.mem_cons_self j hj) with rfl | hmem
      · exact absurd (.single hj) (hacyclic j)
      · exact hmem
    · have hne : i ≠ k := by
        rintro rfl
        exact hi hk
      rw [List.getD_eq_getElem?_getD, List.getElem?_set_ne hne, ← List.getD_eq_getElem?_getD]
      exact hrest k hk

/-- The numbers of edges on the paths through the positions. -/
def pathLengths (c : Condensed) : Set Nat :=
  {k | ∃ path : List Nat, (∀ i ∈ path, i < c.groups.length) ∧ path.IsChain c.Edge ∧
    path.length - 1 = k}

/-- A chain of edges stays among the positions. -/
theorem forall_lt_of_isChain (hedges : ∀ i j, c.Edge i j → j < c.groups.length) {path : List Nat}
    (hi : i < c.groups.length) (hchain : (i :: path).IsChain c.Edge) :
    ∀ j ∈ i :: path, j < c.groups.length := by
  induction path generalizing i with
  | nil => simpa using hi
  | cons j path ih =>
    obtain ⟨hedge, hchain⟩ := List.isChain_cons_cons.mp hchain
    exact List.forall_mem_cons.mpr ⟨hi, ih (hedges i j hedge) hchain⟩

/-- The greatest length that is filled in is that of a longest path. -/
theorem isGreatest_chainLengths {order : List Nat} (hacyclic : c.IsAcyclic)
    (hedges : ∀ i j, c.Edge i j → j < c.groups.length)
    (h : c.IsSorted order) :
    IsGreatest c.pathLengths ((c.chainLengths order).foldl max 0) := by
  have hmem : ∀ i, i ∈ order ↔ i < c.groups.length := fun i => by
    rw [h.perm.mem_iff, List.mem_range]
  have hfarthest : ∀ i, i < c.groups.length → c.IsFarthest i ((c.chainLengths order).getD i 0) :=
    fun i hi => isFarthest_chainLengths hacyclic (h.perm.nodup_iff.mpr List.nodup_range)
      (fun i hi => (hmem i).mp hi) h.before (fun i _ j hij => (hmem j).mpr (hedges i j hij)) i
      ((hmem i).mpr hi)
  obtain ⟨hgreatest, hbound⟩ := isGreatest_foldl_max (c.chainLengths order) 0
  constructor
  · rcases hgreatest with hzero | hgreatest
    · exact ⟨[], by simp, List.isChain_nil, hzero.symm⟩
    · obtain ⟨i, hi, hlength⟩ := List.mem_iff_getElem.mp hgreatest
      have hlt : i < c.groups.length := by simpa using hi
      obtain ⟨path, hchain, hpath⟩ := (hfarthest i hlt).1
      refine ⟨i :: path, forall_lt_of_isChain hedges hlt hchain, hchain, ?_⟩
      rw [← hlength, List.length_cons, Nat.add_sub_cancel, hpath, List.getD_eq_getElem _ _ hi]
  · rintro k ⟨path, hlt, hchain, rfl⟩
    cases path with
    | nil => exact Nat.zero_le _
    | cons i path =>
      have hi := hlt i List.mem_cons_self
      calc (i :: path).length - 1 = path.length := rfl
        _ ≤ (c.chainLengths order).getD i 0 := (hfarthest i hi).2 ⟨path, hchain, rfl⟩
        _ ≤ _ := hbound (.inr (by
          rw [List.getD_eq_getElem _ _ (by simpa using hi)]
          exact List.getElem_mem _))

end Condensed

/-! ## Paths through the components -/

namespace Condensed

/-- A name stands in the group at a position. -/
def Holds (c : Condensed) (i : Nat) (a : String) : Prop := ∃ names, c.groups[i]? = some names ∧ a ∈ names

/-- The groups are the strongly connected components of a graph, each at one position, and edges
between different groups stand for edges between their names. -/
structure Condenses (c : Condensed) (n : NameGraph) : Prop where
  mem_nodes : ∀ {i a}, c.Holds i a → a ∈ n.nodes
  covers : ∀ a ∈ n.nodes, ∃ i, c.Holds i a
  proper : ∀ i < c.groups.length, ∃ a, c.Holds i a
  component : ∀ {i j a b}, c.Holds i a → c.Holds j b → (i = j ↔ n.Mutual a b)
  edges : ∀ {i j}, c.Edge i j ↔ i ≠ j ∧ ∃ a b, c.Holds i a ∧ c.Holds j b ∧ n.Edge a b

theorem Holds.lt (h : c.Holds i a) : i < c.groups.length := by
  obtain ⟨names, hnames, -⟩ := h
  exact (List.getElem?_eq_some_iff.mp hnames).1

namespace Condenses

variable (h : c.Condenses n)

include h

theorem lt_of_edge (hij : c.Edge i j) : j < c.groups.length := by
  obtain ⟨-, _, _, -, hb, -⟩ := h.edges.mp hij
  exact hb.lt

/-- Where edges lead from one group to another, every name of the first leads to every name of the
second. -/
theorem leads (hij : ReflTransGen c.Edge i j) : ∀ {a b}, c.Holds i a → c.Holds j b →
    ReflTransGen n.Edge a b := by
  induction hij with
  | refl => exact fun ha hb => ((h.component ha hb).mp rfl).1
  | tail hij hjk ih =>
    intro a d ha hd
    obtain ⟨-, b, b', hb, hb', hedge⟩ := h.edges.mp hjk
    exact ((ih ha hb).tail hedge).trans ((h.component hb' hd).mp rfl).1

/-- A circle of edges would make one group of different ones. -/
theorem isAcyclic : c.IsAcyclic := by
  intro i hcircle
  obtain ⟨j, hij, hji⟩ := TransGen.head'_iff.mp hcircle
  obtain ⟨hne, a, b, ha, hb, hedge⟩ := h.edges.mp hij
  exact hne ((h.component ha hb).mpr ⟨.single hedge, h.leads hji hb ha⟩)

end Condenses

/-- The names of the group at a position. -/
def names (c : Condensed) (i : Nat) : Set String := {a | c.Holds i a}

variable (h : c.Condenses (nameGraph g))

include h

theorem Condenses.names_eq (ha : c.Holds i a) : c.names i = Dependency.component g a := by
  ext b
  rw [names, Set.mem_ofPred_eq, Dependency.component, Set.mem_ofPred_eq, ← edge_eq]
  constructor
  · exact fun hb => (h.component ha hb).mp rfl
  · intro hab
    -- What a name leads to is a name as well, so it stands in a group.
    have hb : b ∈ (nameGraph g).nodes := by
      rcases hab.2.cases_head with rfl | ⟨d, hbd, -⟩
      · exact h.mem_nodes ha
      · exact (mem_nodes_of_edge hbd).1
    obtain ⟨j, hj⟩ := h.covers b hb
    obtain rfl := (h.component ha hj).mpr hab
    exact hj

theorem Condenses.isComponent_iff {C : Set String} :
    IsComponent g C ↔ ∃ i < c.groups.length, c.names i = C := by
  constructor
  · rintro ⟨a, ha, rfl⟩
    obtain ⟨i, hi⟩ := h.covers a (mem_nodes_iff.mpr ha)
    exact ⟨i, hi.lt, h.names_eq hi⟩
  · rintro ⟨i, hi, rfl⟩
    obtain ⟨a, ha⟩ := h.proper i hi
    exact ⟨a, mem_nodes_iff.mp (h.mem_nodes ha), h.names_eq ha⟩

theorem Condenses.joined_iff : Joined g (c.names i) (c.names j) ↔ c.Edge i j := by
  rw [h.edges]
  constructor
  · rintro ⟨hne, a, ha, b, hb, hab⟩
    refine ⟨?_, a, b, ha, hb, edge_iff.mpr hab⟩
    rintro rfl
    exact hne rfl
  · rintro ⟨hne, a, b, ha, hb, hab⟩
    refine ⟨?_, a, ha, b, hb, edge_iff.mp hab⟩
    intro he
    have ha' : c.Holds j a := Set.ext_iff.mp he a |>.mp ha
    exact hne ((h.component ha ha').mpr (.refl _ _))

/-- Components are the names of groups. -/
theorem Condenses.exists_positions {path : List (Set String)} (hpath : ∀ C ∈ path, IsComponent g C) :
    ∃ positions : List Nat, (∀ i ∈ positions, i < c.groups.length) ∧ positions.map c.names = path := by
  induction path with
  | nil => exact ⟨[], by simp, rfl⟩
  | cons C path ih =>
    obtain ⟨hC, hrest⟩ := List.forall_mem_cons.mp hpath
    obtain ⟨i, hi, rfl⟩ := h.isComponent_iff.mp hC
    obtain ⟨positions, hlt, rfl⟩ := ih hrest
    exact ⟨i :: positions, List.forall_mem_cons.mpr ⟨hi, hlt⟩, rfl⟩

theorem Condenses.isPath_iff {positions : List Nat} (hlt : ∀ i ∈ positions, i < c.groups.length) :
    IsPath g (positions.map c.names) ↔ positions.IsChain c.Edge := by
  have hchain : (positions.map c.names).IsChain (Joined g) ↔ positions.IsChain c.Edge := by
    rw [List.isChain_map]
    simp only [h.joined_iff]
  constructor
  · exact fun hpath => hchain.mp hpath.joined
  · refine fun hedges => ⟨?_, hchain.mpr hedges⟩
    intro C hC
    obtain ⟨i, hi, rfl⟩ := List.mem_map.mp hC
    exact h.isComponent_iff.mpr ⟨i, hlt i hi, rfl⟩

/-- Paths through the components are paths through the positions of the groups. -/
theorem Condenses.pathLengths_eq : Dependency.pathLengths g = c.pathLengths := by
  ext k
  constructor
  · rintro ⟨path, hpath, rfl⟩
    obtain ⟨positions, hlt, rfl⟩ := h.exists_positions hpath.components
    exact ⟨positions, hlt, (h.isPath_iff hlt).mp hpath, by rw [List.length_map]⟩
  · rintro ⟨positions, hlt, hchain, rfl⟩
    exact ⟨positions.map c.names, (h.isPath_iff hlt).mpr hchain, by rw [List.length_map]⟩

end Condensed

/-- Whatever finds the components and puts them in order, the longest chain is a longest path. -/
theorem isGreatest_longestChainBy {condense : NameGraph → Condensed}
    {sort : Condensed → Option (List Nat)}
    (hcondense : (condense (nameGraph g)).Condenses (nameGraph g))
    (hsort : ∀ c, c.IsAcyclic → ∃ order, sort c = some order ∧ c.IsSorted order) :
    IsGreatest (pathLengths g) (longestChainBy condense sort g) := by
  obtain ⟨order, horder, hsorted⟩ := hsort _ hcondense.isAcyclic
  rw [longestChainBy, horder, hcondense.pathLengths_eq]
  exact Condensed.isGreatest_chainLengths hcondense.isAcyclic (fun _ _ => hcondense.lt_of_edge) hsorted

/-! ## The groups that are found -/

theorem lookup_map_snd (f : TextSet → TextSet) (closed : Graph) (a : String) :
    (closed.map fun (a, names) => (a, f names)).lookup a = (closed.lookup a).map f := by
  induction closed with
  | nil => rfl
  | cons e closed ih =>
    rw [List.map_cons, List.lookup_cons, List.lookup_cons, ih]
    split <;> rfl

/-- What leads to the pivot leads to what the pivot leads to as well. -/
theorem mem_ledTo_closeThrough {closed : Graph} {pivot : String} :
    b ∈ ledTo (closeThrough closed pivot) a ↔
      b ∈ ledTo closed a ∨ pivot ∈ ledTo closed a ∧ b ∈ ledTo closed pivot := by
  rw [ledTo, closeThrough]
  generalize ledTo closed pivot = beyond
  rw [lookup_map_snd fun names => if names.contains pivot then Names.union beyond names else names]
  cases hnames : closed.lookup a with
  | none => simp [ledTo, hnames]
  | some names =>
    simp only [Option.map_some, Option.getD_some, ledTo, hnames]
    split
    · next h =>
      rw [List.contains_iff_mem] at h
      rw [Names.mem_union, or_comm]
      simp [h]
    · next h =>
      rw [List.contains_iff_mem] at h
      simp [h]

/-! ### Closing through all names -/

section Closing

variable {closed : Graph}

theorem mem_ledTo_foldl {pivots : List String} (h : b ∈ ledTo closed a) :
    b ∈ ledTo (pivots.foldl closeThrough closed) a := by
  induction pivots generalizing closed with
  | nil => exact h
  | cons p pivots ih => exact ih (mem_ledTo_closeThrough.mpr (.inl h))

/-- Closing adds nothing that does not follow by going on from one name to the next. -/
theorem ledTo_foldl_sound {pivots : List String} (h : b ∈ ledTo (pivots.foldl closeThrough closed) a) :
    ReflTransGen (fun a b => b ∈ ledTo closed a) a b := by
  induction pivots generalizing closed with
  | nil => exact .single h
  | cons p pivots ih =>
    refine reflTransGen_closed ?_ _ _ (ih h)
    intro a b hab
    rcases mem_ledTo_closeThrough.mp hab with hab | ⟨hap, hpb⟩
    · exact .single hab
    · exact .tail (.single hap) hpb

/-- After closing through a name, what leads to it leads to what it leads to. -/
theorem ledTo_foldl_trans {pivots : List String} {p : String} (hp : p ∈ pivots)
    (hap : p ∈ ledTo (pivots.foldl closeThrough closed) a)
    (hpb : b ∈ ledTo (pivots.foldl closeThrough closed) p) :
    b ∈ ledTo (pivots.foldl closeThrough closed) a := by
  induction pivots using List.reverseRecOn generalizing a b p with
  | nil => cases hp
  | append_singleton pivots q ih =>
    rw [List.foldl_append, List.foldl_cons, List.foldl_nil, mem_ledTo_closeThrough] at hap hpb ⊢
    rcases List.mem_append.mp hp with hp | hp
    · rcases hap with hap | ⟨haq, hqp⟩
      · rcases hpb with hpb | ⟨hpq, hqb⟩
        · exact .inl (ih hp hap hpb)
        · exact .inr ⟨ih hp hap hpq, hqb⟩
      · rcases hpb with hpb | ⟨-, hqb⟩
        · exact .inr ⟨haq, ih hp hqp hpb⟩
        · exact .inr ⟨haq, hqb⟩
    · obtain rfl := List.mem_singleton.mp hp
      exact .inr ⟨hap.elim id And.left, hpb.elim id And.right⟩

end Closing

theorem mem_ledTo_neighbours : b ∈ ledTo n.neighbours a ↔ a ∈ n.nodes ∧ (b = a ∨ n.Edge a b) := by
  by_cases ha : a ∈ n.nodes
  · rw [ledTo, NameGraph.neighbours, List.lookup_graph _ ha, Option.getD_some, Names.mem_ofList,
      List.mem_cons, mem_targets, and_iff_right ha, NameGraph.Edge]
  · have hnone : n.neighbours.lookup a = none := by
      rw [List.lookup_eq_none_iff]
      intro e he
      obtain ⟨d, hd, rfl⟩ := List.mem_map.mp he
      rw [bne_iff_ne]
      rintro rfl
      exact ha hd
    simp [ledTo, hnone, ha]

/-- The closure lists what a name leads to. -/
theorem mem_ledTo_closure (hnodes : ∀ {a b}, n.Edge a b → a ∈ n.nodes) (ha : a ∈ n.nodes) :
    b ∈ ledTo n.closure a ↔ ReflTransGen n.Edge a b := by
  constructor
  · intro h
    refine reflTransGen_closed ?_ _ _ (ledTo_foldl_sound h)
    intro a b hab
    rcases (mem_ledTo_neighbours.mp hab).2 with rfl | hedge
    · exact .refl
    · exact .single hedge
  · intro h
    induction h with
    | refl => exact mem_ledTo_foldl (mem_ledTo_neighbours.mpr ⟨ha, .inl rfl⟩)
    | tail hab hbd ih =>
      have hb := hnodes hbd
      exact ledTo_foldl_trans hb ih (mem_ledTo_foldl (mem_ledTo_neighbours.mpr ⟨hb, .inr hbd⟩))

/-! ### Groups and their positions -/

section Groups

variable (hnodes : ∀ {a b}, n.Edge a b → a ∈ n.nodes ∧ b ∈ n.nodes)

include hnodes

theorem mem_group_iff (ha : a ∈ n.nodes) :
    b ∈ n.group n.closure a ↔ b ∈ n.nodes ∧ n.Mutual a b := by
  rw [NameGraph.group, List.mem_filter, Bool.and_eq_true, List.contains_iff_mem, List.contains_iff_mem]
  refine and_congr_right fun hb => ?_
  rw [mem_ledTo_closure (fun h => (hnodes h).1) ha, mem_ledTo_closure (fun h => (hnodes h).1) hb]
  rfl

/-- Names that lead to each other have one group. -/
theorem group_eq (ha : a ∈ n.nodes) (hb : b ∈ n.nodes) (hab : n.Mutual a b) :
    n.group n.closure a = n.group n.closure b := by
  unfold NameGraph.group
  apply List.filter_congr
  intro d hd
  have hsame : d ∈ n.group n.closure a ↔ d ∈ n.group n.closure b := by
    rw [mem_group_iff hnodes ha, mem_group_iff hnodes hb]
    exact and_congr_right fun _ => ⟨hab.symm.trans, hab.trans⟩
  rw [NameGraph.group, List.mem_filter, NameGraph.group, List.mem_filter] at hsame
  rw [Bool.eq_iff_iff]
  simpa [hd] using hsame

theorem mem_groups_iff {names : TextSet} :
    names ∈ n.groups n.closure ↔ ∃ a ∈ n.nodes, names = n.group n.closure a := by
  rw [NameGraph.groups, List.mem_map]
  constructor
  · rintro ⟨a, ha, rfl⟩
    exact ⟨a, (List.mem_filter.mp ha).1, rfl⟩
  · rintro ⟨a, ha, rfl⟩
    -- The first name of the group stands for all of it.
    cases hgroup : n.group n.closure a with
    | nil =>
      have hself := (mem_group_iff hnodes ha).mpr ⟨ha, .refl _ _⟩
      rw [hgroup] at hself
      cases hself
    | cons first rest =>
      have hfirst : first ∈ n.group n.closure a := hgroup ▸ List.mem_cons_self
      obtain ⟨hmem, hmutual⟩ := (mem_group_iff hnodes ha).mp hfirst
      have heq := (group_eq hnodes ha hmem hmutual).symm.trans hgroup
      exact ⟨first, List.mem_filter.mpr ⟨hmem, by simp [heq]⟩, heq⟩

omit hnodes in
theorem nodup_groups (hnodup : n.nodes.Nodup) : (n.groups n.closure).Nodup := by
  refine List.Nodup.map_on ?_ (hnodup.filter _)
  intro a ha b hb heq
  have ha := eq_of_beq (List.mem_filter.mp ha).2
  have hb := eq_of_beq (List.mem_filter.mp hb).2
  exact Option.some.inj (ha.symm.trans (congrArg List.head? heq |>.trans hb))

/-- A name stands only in the group of the names that lead to it and back. -/
theorem holds_condense_iff :
    (condense n).Holds i a ↔ a ∈ n.nodes ∧ (n.groups n.closure)[i]? = some (n.group n.closure a) := by
  constructor
  · rintro ⟨names, hi, ha⟩
    obtain ⟨b, hb, rfl⟩ := (mem_groups_iff hnodes).mp (List.mem_of_getElem? hi)
    obtain ⟨hmem, hmutual⟩ := (mem_group_iff hnodes hb).mp ha
    exact ⟨hmem, hi.trans (congrArg some (group_eq hnodes hb hmem hmutual))⟩
  · rintro ⟨ha, hi⟩
    exact ⟨_, hi, (mem_group_iff hnodes ha).mpr ⟨ha, .refl _ _⟩⟩

theorem holds_position (ha : a ∈ n.nodes) :
    (condense n).Holds (position (n.groups n.closure) a) a := by
  have hex : ∃ names ∈ n.groups n.closure, names.contains a = true :=
    ⟨_, (mem_groups_iff hnodes).mpr ⟨a, ha, rfl⟩,
      List.contains_iff_mem.mpr ((mem_group_iff hnodes ha).mpr ⟨ha, .refl _ _⟩)⟩
  have hlt := List.findIdx_lt_length.mpr hex
  exact ⟨_, List.getElem?_eq_getElem hlt, List.contains_iff_mem.mp (List.findIdx_getElem (w := hlt))⟩

/-- Names that lead to each other, and no others, are at the same position. -/
theorem component_condense (hnodup : n.nodes.Nodup) (ha : (condense n).Holds i a)
    (hb : (condense n).Holds j b) : i = j ↔ n.Mutual a b := by
  obtain ⟨hanodes, hi⟩ := (holds_condense_iff hnodes).mp ha
  obtain ⟨hbnodes, hj⟩ := (holds_condense_iff hnodes).mp hb
  constructor
  · rintro rfl
    have heq := Option.some.inj (hi.symm.trans hj)
    have hself := (mem_group_iff hnodes hbnodes).mpr ⟨hbnodes, .refl _ _⟩
    rw [← heq] at hself
    exact ((mem_group_iff hnodes hanodes).mp hself).2
  · intro hab
    rw [group_eq hnodes hanodes hbnodes hab] at hi
    exact (List.getElem?_inj ha.lt (nodup_groups hnodup)).mp (hi.trans hj.symm)

theorem edge_condense_iff (hnodup : n.nodes.Nodup) : (condense n).Edge i j ↔
    i ≠ j ∧ ∃ a b, (condense n).Holds i a ∧ (condense n).Holds j b ∧ n.Edge a b := by
  have hedge : (condense n).Edge i j ↔ i ≠ j ∧ ∃ a b, n.Edge a b ∧
      position (n.groups n.closure) a = i ∧ position (n.groups n.closure) b = j := by
    simp only [Condensed.Edge, condense, List.mem_filter, List.mem_map, Prod.exists, Prod.mk.injEq,
      bne_iff_ne]
    exact and_comm
  rw [hedge]
  refine and_congr_right fun _ => ?_
  constructor
  · rintro ⟨a, b, hab, rfl, rfl⟩
    exact ⟨a, b, holds_position hnodes (hnodes hab).1, holds_position hnodes (hnodes hab).2, hab⟩
  · rintro ⟨a, b, ha, hb, hab⟩
    refine ⟨a, b, hab, ?_, ?_⟩
    · exact (component_condense hnodes hnodup (holds_position hnodes (hnodes hab).1) ha).mpr (.refl _ _)
    · exact (component_condense hnodes hnodup (holds_position hnodes (hnodes hab).2) hb).mpr (.refl _ _)

/-- The groups that are found are the strongly connected components. -/
theorem condenses_condense (hnodup : n.nodes.Nodup) : (condense n).Condenses n where
  mem_nodes h := ((holds_condense_iff hnodes).mp h).1
  covers a ha := ⟨_, holds_position hnodes ha⟩
  proper i hi := by
    obtain ⟨a, ha, hgroup⟩ := (mem_groups_iff hnodes).mp (List.getElem_mem hi)
    have hget := (List.getElem?_eq_getElem hi).trans (congrArg some hgroup)
    exact ⟨a, (holds_condense_iff hnodes).mpr ⟨ha, hget⟩⟩
  component := component_condense hnodes hnodup
  edges := edge_condense_iff hnodes hnodup

end Groups

/-! ## The order that is found -/

namespace Condensed

theorem isHeld_iff {rest : List Nat} : c.isHeld rest i = true ↔ ∃ j ∈ rest, c.Edge j i := by
  simp only [isHeld, List.any_eq_true, Bool.and_eq_true, beq_iff_eq, List.contains_iff_mem,
    Prod.exists]
  constructor
  · rintro ⟨j, _, hedge, rfl, hj⟩
    exact ⟨j, hj, hedge⟩
  · rintro ⟨j, hj, hedge⟩
    exact ⟨j, i, hedge, rfl, hj⟩

/-- Without circles no edge from the rest leads to some position of the rest. -/
theorem exists_not_isHeld (hacyclic : c.IsAcyclic) (rest : List Nat) (hrest : rest ≠ []) :
    ∃ i ∈ rest, c.isHeld rest i = false := by
  obtain ⟨first, hfirst⟩ := List.exists_mem_of_ne_nil rest hrest
  let leads (i j : {i // i ∈ rest}) : Prop := TransGen c.Edge i j
  have hfinite : Finite {i // i ∈ rest} := (List.finite_toSet rest).to_subtype
  have htrans : IsTrans _ leads := ⟨fun _ _ _ => TransGen.trans⟩
  have hirrefl : Std.Irrefl leads := ⟨fun i => hacyclic i⟩
  have hwf := Finite.wellFounded_of_trans_of_irrefl leads
  obtain ⟨⟨i, hi⟩, -, hmin⟩ := hwf.has_min Set.univ ⟨⟨first, hfirst⟩, trivial⟩
  refine ⟨i, hi, ?_⟩
  rw [Bool.eq_false_iff]
  intro hheld
  obtain ⟨j, hj, hedge⟩ := isHeld_iff.mp hheld
  exact hmin ⟨j, hj⟩ trivial (.single hedge)

/-- As long as there are no circles, every round takes some position out of the rest, and the order
is found. -/
theorem sortFrom_eq_some (hacyclic : c.IsAcyclic) {rounds : Nat} (rest : List Nat)
    (h : rest.length ≤ rounds) : ∃ order, c.sortFrom rounds rest = some order ∧ order.Perm rest ∧
      order.Pairwise fun i j => ¬ c.Edge j i := by
  induction rounds generalizing rest with
  | zero =>
    obtain rfl := List.length_eq_zero_iff.mp (Nat.le_zero.mp h)
    exact ⟨[], rfl, .refl _, .nil⟩
  | succ rounds ih =>
    match rest, h with
    | [], _ => exact ⟨[], rfl, .refl _, .nil⟩
    | first :: others, h =>
      rw [sortFrom]
      generalize hrest : first :: others = rest at h
      obtain ⟨i, hi, hfree⟩ := exists_not_isHeld hacyclic rest (by simp [← hrest])
      have hshort : (rest.filter (c.isHeld rest)).length < rest.length :=
        List.length_filter_lt_length_iff_exists.mpr ⟨i, hi, by simp [hfree]⟩
      obtain ⟨order, horder, hperm, hbefore⟩ := ih (rest.filter (c.isHeld rest)) (by omega)
      refine ⟨_, by rw [horder]; rfl, ?_, ?_⟩
      · have hsplit := List.filter_append_perm (fun i => !c.isHeld rest i) rest
        simp only [Bool.not_not] at hsplit
        exact (hperm.append_left _).trans hsplit
      · -- What is taken out first has no edge from any position of the rest.
        have hfirst : ∀ j ∈ rest.filter (!c.isHeld rest ·), ∀ k ∈ rest, ¬ c.Edge k j := by
          intro j hj k hk hedge
          have hheld := isHeld_iff.mpr ⟨k, hk, hedge⟩
          simp [hheld] at hj
        refine List.pairwise_append.mpr ⟨?_, hbefore, ?_⟩
        · apply List.pairwise_of_forall_mem_list
          exact fun j hj k hk => hfirst j hj k (List.mem_filter.mp hk).1
        · exact fun j hj k hk => hfirst j hj k (List.mem_filter.mp (hperm.mem_iff.mp hk)).1

theorem isSorted_sort (hacyclic : c.IsAcyclic) : ∃ order, c.sort = some order ∧ c.IsSorted order := by
  obtain ⟨order, horder, hperm, hbefore⟩ :=
    sortFrom_eq_some hacyclic (List.range c.groups.length) (by rw [List.length_range])
  exact ⟨order, horder, hperm, hbefore⟩

end Condensed

/-! ## The longest chain -/

theorem condenses_nameGraph (g : Graph) : (condense (nameGraph g)).Condenses (nameGraph g) :=
  condenses_condense mem_nodes_of_edge (Names.pairwise_ofList _).nodup

theorem isGreatest_longestChain (g : Graph) : IsGreatest (pathLengths g) (longestChain g) :=
  isGreatest_longestChainBy (condenses_nameGraph g) fun _ => Condensed.isSorted_sort

/-- The longest chain of a map of dependencies has as many edges as a longest path through the graph of its
strongly connected components. Any other way to find the components and to put them in order finds that
number as well. -/
theorem longestChain_isGreatest (g : Graph) :
    IsGreatest (pathLengths g) (longestChain g) ∧
    ∀ condense sort, (condense (nameGraph g)).Condenses (nameGraph g) →
      (∀ c, c.IsAcyclic → ∃ order, sort c = some order ∧ c.IsSorted order) →
      IsGreatest (pathLengths g) (longestChainBy condense sort g) :=
  ⟨isGreatest_longestChain g, fun _ _ => isGreatest_longestChainBy⟩

/-- Two names that depend on each other, and one of them on itself, are one link of a chain. -/
theorem longestChain_isGreatest_circle :
    let g : Graph := [("a", ["n"]), ("t", ["a", "t", "u"]), ("u", ["t"])]
    (condense (nameGraph g)).Condenses (nameGraph g) ∧
    (∀ c : Condensed, c.IsAcyclic → ∃ order, c.sort = some order ∧ c.IsSorted order) ∧
    longestChainBy condense Condensed.sort g = 2 ∧ IsGreatest (pathLengths g) 2 := by
  intro g
  have hcondense := condenses_nameGraph g
  have hsort (c : Condensed) : c.IsAcyclic → ∃ order, c.sort = some order ∧ c.IsSorted order :=
    Condensed.isSorted_sort
  have hlength : longestChainBy condense Condensed.sort g = 2 := by decide +kernel
  have hgreatest := (longestChain_isGreatest g).2 condense Condensed.sort hcondense hsort
  rw [hlength] at hgreatest
  exact ⟨hcondense, hsort, hlength, hgreatest⟩

end Dependency

/-- The chain that is reported for a module is a longest one between the names it binds and reads. -/
theorem Module.isGreatest_maxChain (m : Module) :
    IsGreatest (Dependency.pathLengths m.dataDependency.edges) m.dataDependency.maxChain :=
  Dependency.isGreatest_longestChain _

end Concord
