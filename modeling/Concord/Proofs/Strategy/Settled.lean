import Concord.Proofs.Tree.Numbered
import Concord.Strategy.Basic
import Mathlib.Data.List.Nodup

/-!
# Edits that settle a site

A site names a function and the number of a match in it. An edit at a site of a module never fails,
since the function is there. Where all functions have different names the edit also reaches the
function in which the site was found, and there the match with that number; so it changes the module
whenever the change of the match is not idle.

Main statements:

* `Strategy.replaceAt_settles`: expressions.
* `Strategy.editAt_settles`: positions of blocks.
* `Strategy.editSource_settles`: from the module to its text.
-/

namespace Concord

namespace Module

/-- Different functions of the module have different names. -/
def HasDistinctNames (m : Module) : Prop := (m.functions.map (·.name)).Nodup

instance (m : Module) : Decidable m.HasDistinctNames :=
  inferInstanceAs (Decidable (List.Nodup _))

variable {m : Module} {f : Function}

theorem isSome_function? (hf : f ∈ m.functions) : (m.function? f.name).isSome = true :=
  List.find?_isSome.mpr ⟨f, hf, beq_self_eq_true f.name⟩

/-- Among functions with different names the first one of a name is the only one. -/
theorem eq_of_name_eq (h : m.HasDistinctNames) {g : Function} (hf : f ∈ m.functions)
    (hg : g ∈ m.functions) (he : f.name = g.name) : f = g :=
  List.inj_on_of_nodup_map h hf hg he

theorem function?_eq (h : m.HasDistinctNames) (hf : f ∈ m.functions) :
    m.function? f.name = some f := by
  obtain ⟨g, hg⟩ := Option.isSome_iff_exists.mp (isSome_function? hf)
  have hbeq := List.find?_some hg
  have hname : g.name = f.name := eq_of_beq hbeq
  rw [hg, eq_of_name_eq h (List.mem_of_find?_eq_some hg) hf hname]

/-- The entry function is a function of the module. -/
theorem mem_functions_of_entry? {name : Option String} (h : m.entry? name = some f) :
    f ∈ m.functions := by
  rcases Option.or_eq_some_iff.mp h with h | ⟨-, h⟩
  · obtain ⟨n, -, hn⟩ := Option.bind_eq_some_iff.mp h
    exact List.mem_of_find?_eq_some hn
  · exact List.mem_of_head? h

/-- The entry function is the first function of its name. -/
theorem function?_of_entry? {name : Option String} (h : m.entry? name = some f) :
    m.function? f.name = some f := by
  rcases Option.or_eq_some_iff.mp h with h | ⟨-, h⟩
  · obtain ⟨n, -, hn⟩ := Option.bind_eq_some_iff.mp h
    have hname : f.name = n := eq_of_beq (List.find?_some hn :)
    rwa [hname]
  · obtain ⟨rest, hrest⟩ := List.head?_eq_some_iff.mp h
    rw [function?, hrest, List.find?_cons_of_pos]
    exact beq_self_eq_true f.name

/-- What an edit does to a module is what it does to the first function of the name. -/
theorem editFunction?_eq_map {name : String} (hf : m.function? name = some f) :
    ∃ before after, m.body = before ++ .define f :: after ∧ ∀ edit : Function → Option Function,
      m.editFunction? name edit = (edit f).map fun g => ⟨before ++ .define g :: after⟩ := by
  obtain ⟨body⟩ := m
  suffices hgo : ∃ before after, body = before ++ .define f :: after ∧
      ∀ edit : Function → Option Function, editFunction?.go name edit body =
        (edit f).map fun g => before ++ .define g :: after by
    obtain ⟨before, after, hbody, hgo⟩ := hgo
    exact ⟨before, after, hbody, fun edit => by rw [editFunction?, hgo, Option.map_map]; rfl⟩
  induction body with
  | nil => cases hf
  | cons s rest ih =>
    cases s with
    | define x =>
      by_cases hx : (x.name == name) = true
      · have hfirst : x = f := by
          simpa only [function?, functions, List.filterMap_cons, List.find?_cons, hx,
            Option.some.injEq] using hf
        subst hfirst
        exact ⟨[], rest, rfl, fun edit => by rw [editFunction?.go, if_pos hx]; rfl⟩
      · have hrest : (⟨rest⟩ : Module).function? name = some f := by
          simpa only [function?, functions, List.filterMap_cons, List.find?_cons, hx] using hf
        obtain ⟨before, after, hbody, hgo⟩ := ih hrest
        refine ⟨.define x :: before, after, by rw [hbody]; rfl, fun edit => ?_⟩
        rw [editFunction?.go, if_neg hx, hgo, Option.map_map]
        rfl
    | _ =>
      obtain ⟨before, after, hbody, hgo⟩ := ih hf
      refine ⟨_ :: before, after, by rw [hbody]; rfl, fun edit => ?_⟩
      simp only [editFunction?.go, hgo, Option.map_map]
      rfl

/-- An edit reaches the first function of a name. -/
theorem editFunction?_of_function? {name : String} (hf : m.function? name = some f)
    {edit : Function → Option Function} {g : Function} (hg : edit f = some g) :
    ∃ before after, m.body = before ++ .define f :: after ∧
      m.editFunction? name edit = some ⟨before ++ .define g :: after⟩ := by
  obtain ⟨before, after, hbody, hedit⟩ := editFunction?_eq_map hf
  exact ⟨before, after, hbody, by rw [hedit, hg]; rfl⟩

/-- A module that an edit gives differs from the first one in that function. -/
theorem eq_of_editFunction? {m' : Module} {name : String} (hf : m.function? name = some f)
    {edit : Function → Option Function} (h : m.editFunction? name edit = some m') :
    ∃ g before after, edit f = some g ∧ m.body = before ++ .define f :: after ∧
      m'.body = before ++ .define g :: after := by
  obtain ⟨before, after, hbody, hedit⟩ := editFunction?_eq_map hf
  rw [hedit] at h
  obtain ⟨g, hg, rfl⟩ := Option.map_eq_some_iff.mp h
  exact ⟨g, before, after, hg, hbody, rfl⟩

/-- The function that an edit reaches is the one in which the name was found. -/
theorem editFunction?_eq (h : m.HasDistinctNames) (hf : f ∈ m.functions)
    {edit : Function → Option Function} {g : Function} (hg : edit f = some g) :
    ∃ before after, m.body = before ++ .define f :: after ∧
      m.editFunction? f.name edit = some ⟨before ++ .define g :: after⟩ :=
  editFunction?_of_function? (function?_eq h hf) hg

end Module

/-! ## Sites -/

namespace Idiom

variable {m : Module} {site : Site}

theorem mem_sitesBy {occurrences : Function → List Nat} :
    site ∈ sitesBy occurrences m ↔
      ∃ f ∈ m.functions, ∃ k ∈ occurrences f, site = ⟨f.name, k⟩ := by
  simp only [sitesBy, List.mem_flatMap, List.mem_map, eq_comm]

/-- A site of expressions leads to one that satisfies the predicate. -/
theorem exists_of_mem_exprSites {p : Expr → Bool} (h : site ∈ exprSites p m) :
    ∃ f ∈ m.functions, ∃ k x, site = ⟨f.name, k⟩ ∧ (Block.find p f.body)[k]? = some x ∧
      p x = true := by
  obtain ⟨f, hf, k, hk, rfl⟩ := mem_sitesBy.mp h
  have hlt : k < (Block.find p f.body).length := List.mem_range.mp hk
  have hx := List.getElem?_eq_getElem hlt
  exact ⟨f, hf, k, _, rfl, hx, (List.mem_filter.mp (List.getElem_mem hlt)).2⟩

/-- A site of positions leads to one that satisfies the predicate. -/
theorem exists_of_mem_stmtSites {p : Block → Nat → Bool} (h : site ∈ stmtSites p m) :
    ∃ f ∈ m.functions, ∃ k b i, site = ⟨f.name, k⟩ ∧ (Block.sites p f.body)[k]? = some (b, i) ∧
      p b i = true := by
  obtain ⟨f, hf, k, hk, rfl⟩ := mem_sitesBy.mp h
  have hlt : k < (Block.sites p f.body).length := List.mem_range.mp hk
  have hx := List.getElem?_eq_getElem hlt
  exact ⟨f, hf, k, _, _, rfl, hx, Block.holds_of_sites hx⟩

end Idiom

/-! ## Edits -/

namespace Strategy

/-- An edit does not fail on a module, and where `P` holds it changes the module. -/
structure Settles (edit : ModuleEdit) (m : Module) (P : Prop) : Prop where
  answers : ∃ r, edit m = .ok r
  changes : P → ∃ m', edit m = .ok (some m') ∧ m' ≠ m

section

variable {m : Module} {f : Function} {P : Prop} (hdistinct : P → m.HasDistinctNames)

include hdistinct

/-- An edit of a function of the module that is not idle. -/
theorem inFunction_settles (hf : f ∈ m.functions) {edit : Function → Option Function}
    (h : P → ∃ g, edit f = some g ∧ g ≠ f) : Settles (inFunction f.name edit) m P := by
  obtain ⟨x, hx⟩ := Option.isSome_iff_exists.mp (Module.isSome_function? hf)
  have hin : inFunction f.name edit m = .ok (m.editFunction? f.name edit) := by
    rw [inFunction, hx]
  refine ⟨⟨_, hin⟩, ?_⟩
  intro hP
  obtain ⟨g, hg, hne⟩ := h hP
  obtain ⟨before, after, hbody, hedit⟩ := Module.editFunction?_eq (hdistinct hP) hf hg
  refine ⟨_, hin.trans (congrArg Except.ok hedit), ?_⟩
  -- If the module were the same, so would be the two functions in the same place of it.
  rintro rfl
  rw [List.append_cancel_left_eq] at hbody
  exact hne (Stmt.define.inj (List.cons.inj hbody).1)

theorem inBody_settles (hf : f ∈ m.functions) {edit : Block → Option Block}
    (h : P → ∃ b, edit f.body = some b ∧ b ≠ f.body) : Settles (inBody f.name edit) m P := by
  refine inFunction_settles hdistinct hf ?_
  intro hP
  obtain ⟨b, hb, hne⟩ := h hP
  refine ⟨{ f with body := b }, by rw [hb]; rfl, ?_⟩
  intro he
  exact hne (congrArg FunctionOf.body he)

/-- A replacement of the match at a site, if that match is not replaced by itself. -/
theorem replaceAt_settles_of_find (hf : f ∈ m.functions) {p : Expr → Bool} {k : Nat} {x : Expr}
    (hx : (Block.find p f.body)[k]? = some x) {g : Expr → Option Expr} (hg : (g x).getD x ≠ x) :
    Settles (replaceAt p g ⟨f.name, k⟩) m P :=
  inBody_settles hdistinct hf fun _ => Block.replaceNth?_changes hx hg

/-- A replacement at a site, if no match of the predicate is replaced by itself. -/
theorem replaceAt_settles {p : Expr → Bool} {site : Site} (hsite : site ∈ Idiom.exprSites p m)
    {g : Expr → Option Expr} (hg : ∀ x, p x = true → (g x).getD x ≠ x) :
    Settles (replaceAt p g site) m P := by
  obtain ⟨f, hf, k, x, rfl, hx, hp⟩ := Idiom.exists_of_mem_exprSites hsite
  exact replaceAt_settles_of_find hdistinct hf hx (hg x hp)

/-- An edit at a site, if it goes through and is not idle wherever the predicate holds. -/
theorem editAt_settles {p : Block → Nat → Bool} {site : Site} (hsite : site ∈ Idiom.stmtSites p m)
    {edit : Block → Nat → Option Block}
    (h : ∀ b i, p b i = true → ∃ new, edit b i = some new ∧ new ≠ b) :
    Settles (editAt p edit site) m P := by
  obtain ⟨f, hf, k, b, i, rfl, hk, hp⟩ := Idiom.exists_of_mem_stmtSites hsite
  obtain ⟨new, hnew, hne⟩ := h b i hp
  exact inBody_settles hdistinct hf fun _ => Block.editNth?_changes hk hnew hne

end

/-- What an edit does to a module shows in the text. -/
theorem editSource_settles {m : Module} {text : String} {edit : ModuleEdit} {P : Prop}
    (hparse : Module.parse? text = some m) (h : Settles edit m P) :
    (∃ r, editSource edit text = .ok r) ∧ (P → ∃ out, editSource edit text = .ok (some out)) := by
  obtain ⟨⟨r, hr⟩, hchanges⟩ := h
  refine ⟨?_, ?_⟩
  · unfold editSource
    rw [hparse]
    simp only [hr]
    cases r with
    | none => exact ⟨none, rfl⟩
    | some m' => exact ⟨_, rfl⟩
  · intro hP
    obtain ⟨m', hm', hne⟩ := hchanges hP
    refine ⟨m'.text, ?_⟩
    unfold editSource
    rw [hparse]
    simp only [hm', if_neg hne]

end Strategy

end Concord
