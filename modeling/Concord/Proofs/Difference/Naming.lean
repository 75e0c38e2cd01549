import Concord.Proofs.Difference.Acted
import Concord.Proofs.Tree.Idempotent
import Concord.Proofs.Tree.Names

/-!
# Renamings that are proposed

A naming difference proposes to give local names of the candidate the names that the canon has in their
place. All of them are renamed at once: first to staged names and then to the new ones. Each of the two
rounds is a row of renamings to names that do not occur yet, and such a renaming leaves the normal form
alone.

The difference asks that a new name is not read, bound or declared at the top of the function, but names
also stand as parameters of lambdas and of nested functions, and in handlers and declarations inside of
those. `Function.Accepts` says what is needed in addition.

Main statements:

* `Strategy.topLevel_renameAll`: renaming several local names at once leaves the normal form of a
  function as it is.
* `Explain.naming_normalize`: so do the renamings of a naming difference.
* `Explain.naming_captures`: a proposed renaming to the name of a parameter of a lambda, which captures
  the renamed variable.
-/

namespace Concord

/-! ## One renaming and another -/

theorem renamed_eq_of_ne {a s t b : String} (h : renamed s t a = b) (hb : b ≠ t) : a = b := by
  unfold renamed at h
  split at h
  · exact absurd h.symm hb
  · exact h

namespace Node

variable {s t a b : String} {x : Node}

theorem fixed_subset (x : Node) : x.fixed ⊆ x.spelled := by
  intro n hn
  cases x with
  | expr e => simp [fixed] at hn
  | stmt st => cases st <;> first | exact hn | simp [fixed] at hn

theorem separators_subset (x : Node) : x.separators ⊆ x.spelled := by
  have hparams (ps : List Param) : (ps.filter (·.kind.isSeparator)).map (·.name) ⊆ ps.map (·.name) :=
    List.map_subset _ (List.filter_subset_self _)
  intro n hn
  cases x with
  | expr e => cases e <;> first | exact hparams _ hn | simp [separators] at hn
  | stmt st =>
    cases st <;> first | exact List.mem_cons_of_mem _ (hparams _ hn) | simp [separators] at hn

/-- A renamed part of a tree spells out the renamed names, where no import binds the source. -/
theorem spelled_rename (h : s ∉ x.fixed) : (x.rename s t).spelled = x.spelled.map (renamed s t) := by
  have hmentioned := mentioned_rename s t x
  cases x with
  | expr e => cases e <;> exact hmentioned
  | stmt st =>
    cases st with
    | importNames ns | importFrom _ ns => exact (map_renamed_of_notMem h).symm
    | _ => exact hmentioned

theorem fixed_rename (h : s ∉ x.fixed) : (x.rename s t).fixed = x.fixed := by
  cases x with
  | expr e => rfl
  | stmt st =>
    cases st with
    | globals ns => exact map_renamed_of_notMem h
    | _ => rfl

/-- Separators keep their names as long as none of them is the source. -/
theorem separators_mapParams (f : Expr → Expr) {ps : List Param}
    (h : s ∉ (ps.filter (·.kind.isSeparator)).map (·.name)) :
    ((((Expr.mapParams f ps).map (·.rename s t)).filter (·.kind.isSeparator)).map (·.name)) =
      (ps.filter (·.kind.isSeparator)).map (·.name) := by
  induction ps with
  | nil => rfl
  | cons p ps ih =>
    obtain ⟨n, kind, default, note⟩ := p
    by_cases hkind : kind.isSeparator = true
    · simp only [List.filter_cons, hkind, if_pos, List.map_cons, List.mem_cons, not_or] at h
      simp only [Expr.mapParams, List.map_cons, ParamOf.rename, List.filter_cons, hkind, if_pos,
        renamed_of_ne (Ne.symm h.1)]
      exact congrArg (n :: ·) (ih h.2)
    · simp only [List.filter_cons, hkind] at h
      simp only [Expr.mapParams, List.map_cons, ParamOf.rename, List.filter_cons, hkind]
      exact ih h

theorem separators_rename (h : s ∉ x.separators) : (x.rename s t).separators = x.separators := by
  cases x with
  | expr e =>
    cases e with
    | lambda ps body => exact separators_mapParams _ h
    | _ => rfl
  | stmt st =>
    cases st with
    | define f => exact separators_mapParams _ h
    | _ => rfl

/-- What may be renamed before another renaming may be renamed after it, under its name then. -/
theorem Admits.rename (hst : x.Admits s t) (hab : x.Admits a b) (hb : b ≠ t) :
    (x.rename s t).Admits (renamed s t a) b := by
  have hspelled := spelled_rename (t := t) hst.free
  refine ⟨?_, ?_, ?_⟩
  · rw [hspelled]
    intro hmem
    obtain ⟨n, hn, he⟩ := List.mem_map.mp hmem
    exact hab.fresh (renamed_eq_of_ne he hb ▸ hn)
  · rw [fixed_rename hst.free]
    unfold renamed
    split
    · exact fun hmem => hst.fresh (fixed_subset x hmem)
    · exact hab.free
  · rw [separators_rename hst.unmarked]
    unfold renamed
    split
    · exact fun hmem => hst.fresh (separators_subset x hmem)
    · exact hab.unmarked

end Node

namespace Normal

variable {s t a b : String} {ps : List Param}

theorem Open.rename (hst : Open s t ps) (hab : Open a b ps) (hb : b ≠ t) :
    Open (renamed s t a) b (ps.map (·.rename s t)) := by
  intro q hq
  obtain ⟨p, hp, rfl⟩ := List.mem_map.mp hq
  refine ⟨fun he => (hab p hp).1 (renamed_eq_of_ne he hb), ?_⟩
  intro hsep
  have hs : p.name ≠ s := (hst p hp).2 hsep
  show renamed s t p.name ≠ renamed s t a
  rw [renamed_of_ne hs]
  unfold renamed
  split
  · exact (hst p hp).1
  · exact (hab p hp).2 hsep

end Normal

namespace Function

variable {s t a b : String} {f : Function}

theorem paramNames_renameScope (s t : String) (f : Function) :
    (Strategy.renameScope s t f).paramNames = f.paramNames.map (renamed s t) := by
  simp only [FunctionOf.paramNames, Strategy.renameScope, List.filter_map, List.map_map]
  rfl

/-- A local name is local after a renaming, under its name then. -/
theorem IsLocal.renameScope (h : f.IsLocal a) (hadmits : f.Admits s t) :
    (Strategy.renameScope s t f).IsLocal (renamed s t a) := by
  have hfresh : ∀ x ∈ Block.nodes f.body, t ∉ x.spelled := fun x hx => (hadmits.body x hx).fresh
  have hfree : ∀ x ∈ Block.nodes f.body, s ∉ x.fixed := fun x hx => (hadmits.body x hx).free
  rcases h with h | ⟨hbound, houter⟩
  · left
    rw [paramNames_renameScope]
    exact List.mem_map_of_mem h
  · right
    have hne : a ≠ t := fun he => Block.notMem_boundNames hfresh (he ▸ hbound)
    constructor
    · show _ ∈ Block.boundNames false (Block.rename s t f.body)
      rw [Block.boundNames_rename hfree hfresh]
      exact List.mem_map_of_mem hbound
    · rw [← List.contains_iff_mem] at houter ⊢
      rwa [show (Strategy.renameScope s t f).body = Block.rename s t f.body from rfl,
        Block.contains_declaredOuter_rename hfresh hne]

theorem Admits.renameScope (hst : f.Admits s t) (hab : f.Admits a b) (hb : b ≠ t) :
    (Strategy.renameScope s t f).Admits (renamed s t a) b := by
  refine ⟨hst.params.rename hab.params hb, ?_⟩
  intro x hx
  rw [show Block.nodes (Strategy.renameScope s t f).body = _ from Block.nodes_rename s t f.body] at hx
  obtain ⟨y, hy, rfl⟩ := List.mem_map.mp hx
  exact (hst.body y hy).rename (hab.body y hy) hb

/-- `source` is a local name of the function, and it may become `target` there. -/
structure Renames (source target : String) (f : Function) : Prop where
  isLocal : f.IsLocal source
  admits : f.Admits source target

theorem Renames.renameScope (hst : f.Renames s t) (hab : f.Renames a b) (hb : b ≠ t) :
    (Strategy.renameScope s t f).Renames (renamed s t a) b :=
  ⟨hab.isLocal.renameScope hst.admits, hst.admits.renameScope hab.admits hb⟩

end Function

/-! ## Renamings in a row -/

theorem renamedBy_of_notMem {pairs : List (String × String)} {n : String}
    (h : n ∉ pairs.map Prod.fst) : renamedBy pairs n = n := by
  induction pairs with
  | nil => rfl
  | cons p ps ih =>
    simp only [List.map_cons, List.mem_cons, not_or] at h
    show renamedBy ps (renamed p.1 p.2 n) = n
    rw [renamed_of_ne h.1, ih h.2]

/-- In a row of renamings from different names to names that are none of these, each name becomes what
its own renaming makes of it. -/
theorem renamedBy_of_mem {pairs : List (String × String)} {p : String × String} (hp : p ∈ pairs)
    (hsources : (pairs.map Prod.fst).Nodup)
    (happart : ∀ t ∈ pairs.map Prod.snd, t ∉ pairs.map Prod.fst) : renamedBy pairs p.1 = p.2 := by
  induction pairs with
  | nil => cases hp
  | cons q qs ih =>
    have hnodup := List.nodup_cons.mp hsources
    have hrest : ∀ t ∈ (q :: qs).map Prod.snd, t ∉ qs.map Prod.fst :=
      fun t ht hmem => happart t ht (List.mem_cons_of_mem _ hmem)
    show renamedBy qs (renamed q.1 q.2 p.1) = p.2
    rcases List.mem_cons.mp hp with rfl | hp
    · rw [renamed_source]
      exact renamedBy_of_notMem (hrest _ List.mem_cons_self)
    · have hne : p.1 ≠ q.1 := fun he => hnodup.1 (he ▸ List.mem_map_of_mem hp)
      rw [renamed_of_ne hne]
      exact ih hp hnodup.2 fun t ht => hrest t (List.mem_cons_of_mem _ ht)

namespace Strategy

/-- Rename in the scope of a function by several pairs, one after the other. -/
def renameRow (pairs : List (String × String)) (f : Function) : Function :=
  pairs.foldl (fun f p => renameScope p.1 p.2 f) f

/-- A row of renamings of different names to different new names leaves the normal form as it is, and
what may be renamed before it to yet another name may be so after it. -/
theorem topLevel_renameRow {pairs : List (String × String)} {f : Function}
    (h : ∀ p ∈ pairs, f.Renames p.1 p.2) (hsources : (pairs.map Prod.fst).Nodup)
    (htargets : (pairs.map Prod.snd).Nodup) :
    Normal.topLevel (.define (renameRow pairs f)) = Normal.topLevel (.define f) ∧
      ∀ a b, f.Renames a b → b ∉ pairs.map Prod.snd →
        (renameRow pairs f).Renames (renamedBy pairs a) b := by
  induction pairs generalizing f with
  | nil => exact ⟨rfl, fun _ _ hab _ => hab⟩
  | cons p ps ih =>
    have hp := h p List.mem_cons_self
    have hsources' := List.nodup_cons.mp hsources
    have htargets' := List.nodup_cons.mp htargets
    have hrest : ∀ q ∈ ps, (renameScope p.1 p.2 f).Renames q.1 q.2 := by
      intro q hq
      have hne : q.1 ≠ p.1 := fun he => hsources'.1 (he ▸ List.mem_map_of_mem hq)
      have hne' : q.2 ≠ p.2 := fun he => htargets'.1 (he ▸ List.mem_map_of_mem hq)
      have hq' := hp.renameScope (h q (List.mem_cons_of_mem p hq)) hne'
      rwa [renamed_of_ne hne] at hq'
    obtain ⟨hform, hnext⟩ := ih hrest hsources'.2 htargets'.2
    refine ⟨hform.trans (Normal.topLevel_renameScope hp.isLocal hp.admits), ?_⟩
    intro a b hab hb
    simp only [List.map_cons, List.mem_cons, not_or] at hb
    exact hnext _ b (hp.renameScope hab hb.1) hb.2

end Strategy

/-! ## Renaming at once -/

/-- Different numbers give different staged names. -/
theorem stagedName_inj {i j : Nat} (h : Strategy.stagedName i = Strategy.stagedName j) : i = j := by
  have hdigits : toString i = toString j := (String.append_right_inj _).mp h
  exact placeholder_inj (congrArg ("_v" ++ ·) hdigits)

/-- Everything that a list of renamings asks of a function. The sources are local names, and the targets
and staged names do not occur. -/
structure Function.Accepts (renames : List Rename) (f : Function) : Prop where
  params : f.paramNames.Nodup
  own : ∀ r ∈ renames, r.source ∈ f.paramNames ∨ r.source ∉ Block.declaredOuter f.body
  admits : ∀ r ∈ renames, f.Admits r.source r.target
  staged : ∀ n < renames.length, ∀ r ∈ renames,
    f.Admits r.source (Strategy.stagedName n) ∧ r.target ≠ Strategy.stagedName n

instance (renames : List Rename) (f : Function) : Decidable (f.Accepts renames) :=
  decidable_of_iff (f.paramNames.Nodup ∧
      (∀ r ∈ renames, r.source ∈ f.paramNames ∨ r.source ∉ Block.declaredOuter f.body) ∧
      (∀ r ∈ renames, f.Admits r.source r.target) ∧
      ∀ n < renames.length, ∀ r ∈ renames,
        f.Admits r.source (Strategy.stagedName n) ∧ r.target ≠ Strategy.stagedName n)
    ⟨fun ⟨h₁, h₂, h₃, h₄⟩ => ⟨h₁, h₂, h₃, h₄⟩, fun h => ⟨h.params, h.own, h.admits, h.staged⟩⟩

namespace Function

variable {f : Function} {n t : String}

/-- A local name is not one that the function admits as a new name. -/
theorem IsLocal.ne (h : f.IsLocal n) {s : String} (hadmits : f.Admits s t) : n ≠ t := by
  rintro rfl
  rcases h with h | ⟨h, -⟩
  · obtain ⟨p, hp, hname⟩ := List.mem_map.mp h
    exact (hadmits.params p (List.mem_filter.mp hp).1).1 hname
  · exact Block.notMem_boundNames (fun x hx => (hadmits.body x hx).fresh) h

end Function

namespace Strategy

variable {f : Function} {renames : List Rename}

theorem renameAll_eq (renames : List Rename) (f : Function) :
    renameAll renames f =
      renameRow (unstaging renames.zipIdx) (renameRow (staging renames.zipIdx) f) := by
  rw [renameRow, renameRow, unstaging, staging, List.foldl_map, List.foldl_map]
  rfl

theorem fst_staging (renames : List Rename) :
    (staging renames.zipIdx).map Prod.fst = renames.map (·.source) := by
  rw [staging, List.map_map]
  exact (List.map_map (f := Prod.fst) (g := Rename.source)).symm.trans
    (congrArg (List.map _) (List.zipIdx_map_fst 0 renames))

theorem snd_unstaging (renames : List Rename) :
    (unstaging renames.zipIdx).map Prod.snd = renames.map (·.target) := by
  rw [unstaging, List.map_map]
  exact (List.map_map (f := Prod.fst) (g := Rename.target)).symm.trans
    (congrArg (List.map _) (List.zipIdx_map_fst 0 renames))

theorem snd_staging (renames : List Rename) :
    (staging renames.zipIdx).map Prod.snd = (List.range renames.length).map stagedName := by
  rw [staging, List.map_map, List.range_eq_range', ← List.zipIdx_map_snd 0 renames, List.map_map]
  rfl

theorem fst_unstaging (renames : List Rename) :
    (unstaging renames.zipIdx).map Prod.fst = (List.range renames.length).map stagedName := by
  rw [unstaging, List.map_map, List.range_eq_range', ← List.zipIdx_map_snd 0 renames, List.map_map]
  rfl

/-- Renaming local names at once to names that do not occur leaves the normal form as it is. -/
theorem topLevel_renameAll (hlocal : ∀ r ∈ renames, f.IsLocal r.source)
    (hsources : (renames.map (·.source)).Nodup) (htargets : (renames.map (·.target)).Nodup)
    (h : f.Accepts renames) :
    Normal.topLevel (.define (renameAll renames f)) = Normal.topLevel (.define f) := by
  have hstaged : ((List.range renames.length).map stagedName).Nodup :=
    List.nodup_range.map_on fun _ _ _ _ he => stagedName_inj he
  -- The first round: no staged name occurs in the function.
  have hfirst : ∀ p ∈ staging renames.zipIdx, f.Renames p.1 p.2 := by
    intro p hp
    obtain ⟨⟨r, n⟩, hr, rfl⟩ := List.mem_map.mp hp
    have hmem : r ∈ renames := List.fst_mem_of_mem_zipIdx hr
    have hlt : n < renames.length := by simpa using List.snd_lt_of_mem_zipIdx hr
    exact ⟨hlocal r hmem, (h.staged n hlt r hmem).1⟩
  obtain ⟨hform, hnext⟩ := topLevel_renameRow hfirst (by rwa [fst_staging]) (by rwa [snd_staging])
  have happart : ∀ t ∈ (staging renames.zipIdx).map Prod.snd,
      t ∉ (staging renames.zipIdx).map Prod.fst := by
    intro t ht
    rw [snd_staging] at ht
    rw [fst_staging]
    obtain ⟨n, hn, rfl⟩ := List.mem_map.mp ht
    intro hmem
    obtain ⟨r, hr, he⟩ := List.mem_map.mp hmem
    exact (hlocal r hr).ne (h.staged n (List.mem_range.mp hn) r hr).1 he
  -- The second round: each staged name stands for a source, which may become its target.
  have hsecond : ∀ p ∈ unstaging renames.zipIdx,
      (renameRow (staging renames.zipIdx) f).Renames p.1 p.2 := by
    intro p hp
    obtain ⟨⟨r, n⟩, hr, rfl⟩ := List.mem_map.mp hp
    have hmem : r ∈ renames := List.fst_mem_of_mem_zipIdx hr
    have hout : r.target ∉ (staging renames.zipIdx).map Prod.snd := by
      rw [snd_staging]
      intro ht
      obtain ⟨j, hj, he⟩ := List.mem_map.mp ht
      exact (h.staged j (List.mem_range.mp hj) r hmem).2 he.symm
    have hrenames := hnext r.source r.target ⟨hlocal r hmem, h.admits r hmem⟩ hout
    have hbecomes : renamedBy (staging renames.zipIdx) r.source = stagedName n :=
      renamedBy_of_mem (p := (r.source, stagedName n)) (List.mem_map.mpr ⟨(r, n), hr, rfl⟩)
        (by rwa [fst_staging]) happart
    rwa [hbecomes] at hrenames
  rw [renameAll_eq]
  exact (topLevel_renameRow hsecond (by rwa [fst_unstaging]) (by rwa [snd_unstaging])).1.trans hform

end Strategy

/-! ## Proposed renamings -/

theorem nodup_append_names {seen new : List String} (h : seen.Nodup) :
    (Names.append seen new).Nodup := by
  unfold Names.append
  induction new generalizing seen with
  | nil => exact h
  | cons n ns ih =>
    refine ih ?_
    dsimp only
    split
    · exact h
    · next hnot =>
      rw [List.contains_iff_mem] at hnot
      exact List.nodup_append.mpr ⟨h, by simp, by
        intro a ha b hb he
        exact hnot (List.mem_singleton.mp hb ▸ he ▸ ha)⟩

namespace Explain

open Strategy

variable {policy : NamingPolicy} {taken : List String} {pairs : List (String × String)}

theorem source_admitted_sublist :
    ((admitted policy taken pairs).map (·.source)).Sublist (pairs.map Prod.fst) := by
  induction pairs generalizing taken with
  | nil => exact List.Sublist.refl _
  | cons pair pairs ih =>
    obtain ⟨a, b⟩ := pair
    rw [admitted]
    split
    · exact ih.cons_cons a
    · exact ih.cons a

/-- No name is chosen twice. -/
theorem nodup_target_admitted : ((admitted policy taken pairs).map (·.target)).Nodup := by
  induction pairs generalizing taken with
  | nil => exact List.nodup_nil
  | cons pair pairs ih =>
    obtain ⟨a, b⟩ := pair
    rw [admitted]
    split
    · refine List.nodup_cons.mpr ⟨?_, ih⟩
      intro hmem
      obtain ⟨r, hr, he⟩ := List.mem_map.mp hmem
      exact (mem_admitted hr).2 (he ▸ List.mem_cons_self)
    · exact ih

/-- A name is aligned once, if the parameters have different names. -/
theorem nodup_source_aligned {ours theirs : Function} (h : ours.paramNames.Nodup) :
    ((alignedNames ours theirs).map Prod.fst).Nodup := by
  have hzip (xs ys : List String) :
      ((if xs.length = ys.length then xs.zip ys else []).map Prod.fst).Sublist xs := by
    split
    · next hlength => rw [List.map_fst_zip (Nat.le_of_eq hlength)]
    · exact List.nil_sublist xs
  have hlocals : (localNames ours).Nodup := (nodup_append_names List.nodup_nil).filter _
  have happart : List.Disjoint ours.paramNames (localNames ours) := by
    intro n hparam hlocal
    simpa [hparam] using (List.mem_filter.mp hlocal).2
  rw [alignedNames, List.map_append]
  exact (h.append hlocals happart).sublist ((hzip _ _).append (hzip _ _))

variable {c : Comparison} {d : Difference} {function : String} {renames : List Rename} {f : Function}
  {text : String}

/-- A naming difference lists the renamings that the policy admits among the aligned names. -/
theorem naming_eq_some (hd : naming c = some d) :
    ∃ policy taken ours theirs, c.candidate.entry? c.entryPoint = some ours ∧
      d.hint = .rename ours.name (admitted policy taken (alignedNames ours theirs)) ∧
      (admitted policy taken (alignedNames ours theirs)).isEmpty = false := by
  unfold naming at hd
  obtain ⟨policy, -, hd⟩ := Option.bind_eq_some_iff.mp hd
  split at hd
  · cases hd
  obtain ⟨ours, hours, hd⟩ := Option.bind_eq_some_iff.mp hd
  obtain ⟨theirs, -, hd⟩ := Option.bind_eq_some_iff.mp hd
  simp only at hd
  split at hd
  · cases hd
  · next hnonempty =>
    cases hd
    exact ⟨policy, _, ours, theirs, hours, rfl, by simpa using hnonempty⟩

/-- The renamings of a naming difference leave the normal form of the candidate as it is, if the
function accepts them: they capture no name and merge no two names. -/
theorem naming_normalize (hd : naming c = some d) (hhint : d.hint = .rename function renames)
    (hf : c.candidate.function? function = some f) (haccepts : f.Accepts renames)
    (htext : Module.parse? text = some c.candidate) :
    ∃ m : Module, identifierRename.generate d text =
        .ok (if m = c.candidate then none else some m.text) ∧
      m.normalize = c.candidate.normalize := by
  obtain ⟨policy, taken, ours, theirs, hours, hproposed, hnonempty⟩ := naming_eq_some hd
  obtain ⟨rfl, rfl⟩ : function = ours.name ∧
      renames = admitted policy taken (alignedNames ours theirs) := by
    have hsame := hhint.symm.trans hproposed
    exact ⟨(Hint.rename.inj hsame).1, (Hint.rename.inj hsame).2⟩
  obtain rfl : ours = f := Option.some.inj ((Module.function?_of_entry? hours).symm.trans hf)
  generalize hrenames : admitted policy taken (alignedNames ours theirs) = renames at *
  have hlocal : ∀ r ∈ renames, ours.IsLocal r.source := by
    intro r hr
    rw [← hrenames] at hr
    rcases mem_of_mem_alignedNames (mem_admitted hr).1 with h | h
    · exact .inl h
    · exact (haccepts.own r (hrenames ▸ hr)).imp_right fun houter => ⟨h, houter⟩
  have hsources : (renames.map (·.source)).Nodup :=
    hrenames ▸ (nodup_source_aligned haccepts.params).sublist source_admitted_sublist
  have htargets : (renames.map (·.target)).Nodup := hrenames ▸ nodup_target_admitted
  have hform := topLevel_renameAll hlocal hsources htargets haccepts
  let edit (f : Function) : Option Function :=
    if renames.isEmpty then none else some (renameAll renames f)
  have hedit : edit ours = some (renameAll renames ours) := if_neg (by simp [hnonempty])
  obtain ⟨before, after, hbody, hdone⟩ := Module.editFunction?_of_function? hf hedit
  refine ⟨⟨before ++ .define (renameAll renames ours) :: after⟩, ?_, ?_⟩
  · have hgenerate : identifierRename.generate d text =
        editSource (inFunction ours.name edit) text := by
      simp only [identifierRename, forHint, hproposed]
      rfl
    simp only [hgenerate, editSource, htext, inFunction, hf, hdone]
  · show (⟨_⟩ : Module) = ⟨_⟩
    rw [hbody]
    simp only [List.map_append, List.map_cons, hform]

/-- A function of the given parameters that adds items up, in the given names. -/
def summing (items start sum item : String) : Module where
  body := [.define
    { name := "total"
      params := [{ name := items }, { name := start }]
      body := [
        .assign [.name sum] (.name start) none,
        .forLoop (.name item) (.name items) [.augAssign (.name sum) .add (.name item)] [],
        .ret (some (.name sum))] }]

/-- Both parameters and both local names are renamed. -/
theorem naming_normalize_summing :
    let c : Comparison :=
      { candidate := summing "items" "start" "s" "x", canon := summing "arr" "first" "acc" "item"
        naming := some {} }
    let text :=
      "def total(items, start):\n    s = start\n    for x in items:\n        s += x\n    return s\n"
    let renames : List Rename :=
      [⟨"items", "arr"⟩, ⟨"start", "first"⟩, ⟨"s", "acc"⟩, ⟨"x", "item"⟩]
    ∃ d, naming c = some d ∧ d.hint = .rename "total" renames ∧
      Module.parse? text = some c.candidate ∧
      (∀ f ∈ c.candidate.function? "total", f.Accepts renames) ∧
      ∃ m : Module, identifierRename.generate d text =
          .ok (if m = c.candidate then none else some m.text) ∧
        m.normalize = c.candidate.normalize := by
  intro c text renames
  have hsome : (naming c).isSome = true := by decide +kernel
  obtain ⟨d, hd⟩ := Option.isSome_iff_exists.mp hsome
  have hhint : d.hint = .rename "total" renames := by
    have hhints : (naming c).map (·.hint) = some (.rename "total" renames) := by decide +kernel
    rw [hd] at hhints
    exact Option.some.inj hhints
  have htext : Module.parse? text = some c.candidate := by decide +kernel
  have haccepts : ∀ f ∈ c.candidate.function? "total", f.Accepts renames := by decide +kernel
  exact ⟨d, hd, hhint, htext, haccepts,
    naming_normalize hd hhint rfl (haccepts _ rfl) htext⟩

/-- `a` is to be called `b`, and there is a lambda with a parameter `b` that reads `a`: after the renaming
it reads its own parameter. -/
theorem naming_captures :
    let one (param inner : String) : Module :=
      ⟨[.define
        { name := "f", params := [{ name := param }]
          body := [.ret (some (.call (.lambda [{ name := inner }] (.name param))
            [.positional (.int 1)]))] }]⟩
    let c : Comparison := { candidate := one "a" "b", canon := one "b" "a", naming := some {} }
    let text := "def f(a):\n    return (lambda b: a)(1)\n"
    let renamed := one "b" "b"
    ∃ d, naming c = some d ∧ Module.parse? text = some c.candidate ∧
      identifierRename.generate d text = .ok (some renamed.text) ∧
      renamed.normalize ≠ c.candidate.normalize := by
  intro one c text renamed
  have hsome : (naming c).isSome = true := by decide +kernel
  obtain ⟨d, hd⟩ := Option.isSome_iff_exists.mp hsome
  have hgenerate : (naming c).map (identifierRename.generate · text) =
      some (.ok (some renamed.text)) := by decide +kernel
  rw [hd] at hgenerate
  exact ⟨d, hd, by decide +kernel, Option.some.inj hgenerate, by decide +kernel⟩

end Explain

end Concord

/-!
## Renaming several names at once

A list of renamings is carried out in two rounds of one renaming each: every source gets a staged name,
and then every staged name becomes a target. Read as a function, the list gives every name its image
(`Strategy.image`). The two rounds together replace every name of the function by its image, however the
targets may be sources themselves.

Main statement: `Strategy.renameAll_eq_mapNames`.
-/

namespace Concord

/-! ### Functions with other names -/

/-- The function with `σ n` in the place of every name `n` of its parameters and of its body. Its own
name, its decorators and the defaults of its parameters stay. -/
def Function.mapNames (σ : String → String) (f : Function) : Function :=
  { f with
    params := f.params.map fun p => { p with name := σ p.name }
    body := Stmt.mapNamesList σ f.body }

namespace Function

variable {σ τ : String → String}

@[simp] theorem mapNames_id (f : Function) : mapNames (fun n => n) f = f := by
  simp only [mapNames, Stmt.mapNamesList_id, List.map_id']

theorem mapNames_mapNames (f : Function) : mapNames τ (mapNames σ f) = mapNames (fun n => τ (σ n)) f := by
  simp only [mapNames, List.map_map, Function.comp_def, Stmt.mapNamesList_mapNamesList]

/-- Only the images of the names that the function mentions count. -/
theorem mapNames_congr {f : Function} (h : ∀ n ∈ f.mentioned, σ n = τ n) :
    mapNames σ f = mapNames τ f := by
  simp only [mentioned, List.forall_mem_append, List.forall_mem_flatMap, List.forall_mem_map] at h
  have hparams : f.params.map (fun p => { p with name := σ p.name }) =
      f.params.map fun p => { p with name := τ p.name } :=
    List.map_congr_left fun p hp => by rw [h.1 p hp]
  simp only [mapNames, hparams, Stmt.mapNamesList_congr f.body h.2]

/-- Renaming one name in the scope of a function replaces its names. -/
theorem renameScope_eq_mapNames (source target : String) (f : Function) :
    Strategy.renameScope source target f = mapNames (renamed source target) f := by
  rw [Strategy.renameScope, mapNames, Block.rename_eq_mapNames]
  rfl

end Function

namespace Strategy

/-- Renamings in a row replace the names by what the row makes of them. -/
theorem renameRow_eq_mapNames (pairs : List (String × String)) (f : Function) :
    renameRow pairs f = f.mapNames (renamedBy pairs) := by
  induction pairs generalizing f with
  | nil => exact (Function.mapNames_id f).symm
  | cons p ps ih =>
    show renameRow ps (renameScope p.1 p.2 f) = _
    rw [ih, Function.renameScope_eq_mapNames, Function.mapNames_mapNames]
    rfl

/-! ### The images of names -/

/-- The image of a name under a list of renamings, read as a function: names that are not listed stay. -/
def image (renames : List Rename) (n : String) : String :=
  ((renames.find? (·.source == n)).map (·.target)).getD n

variable {renames : List Rename} {n : String}

theorem image_of_notMem (h : n ∉ renames.map (·.source)) : image renames n = n := by
  have hnone : renames.find? (·.source == n) = none := by
    rw [List.find?_eq_none]
    intro r hr hn
    exact h (List.mem_map.mpr ⟨r, hr, beq_iff_eq.mp hn⟩)
  rw [image, hnone]
  rfl

theorem image_source {r : Rename} (hr : r ∈ renames) (hsources : (renames.map (·.source)).Nodup) :
    image renames r.source = r.target := by
  obtain ⟨q, hq⟩ : ∃ q, renames.find? (·.source == r.source) = some q :=
    Option.isSome_iff_exists.mp (List.find?_isSome.mpr ⟨r, hr, beq_self_eq_true _⟩)
  have hsource : q.source = r.source := by simpa using List.find?_some hq
  have hqr : q = r := List.inj_on_of_nodup_map hsources (List.mem_of_find?_eq_some hq) hr hsource
  rw [image, hq, hqr]
  rfl

/-- Staged names that stand neither among the sources nor among the targets make of the two rounds one
function. -/
theorem renamedBy_rounds (hsources : (renames.map (·.source)).Nodup)
    (hstaged : ∀ k < renames.length, ∀ r ∈ renames,
      r.source ≠ stagedName k ∧ r.target ≠ stagedName k)
    (hn : ∀ k < renames.length, n ≠ stagedName k) :
    renamedBy (unstaging renames.zipIdx) (renamedBy (staging renames.zipIdx) n) = image renames n := by
  have hnodup : ((List.range renames.length).map stagedName).Nodup :=
    List.nodup_range.map_on fun _ _ _ _ he => stagedName_inj he
  by_cases hmem : n ∈ renames.map (·.source)
  · obtain ⟨r, hr, rfl⟩ := List.mem_map.mp hmem
    obtain ⟨k, hk⟩ := List.mem_iff_getElem?.mp hr
    have hzip : (r, k) ∈ renames.zipIdx := List.mk_mem_zipIdx_iff_getElem?.mpr hk
    -- The first round: no staged name is a source.
    have hfirst : renamedBy (staging renames.zipIdx) r.source = stagedName k := by
      refine renamedBy_of_mem (p := (r.source, stagedName k)) (List.mem_map.mpr ⟨_, hzip, rfl⟩) ?_ ?_
      · rwa [fst_staging]
      · rw [snd_staging, fst_staging]
        intro t ht hsource
        obtain ⟨j, hj, rfl⟩ := List.mem_map.mp ht
        obtain ⟨q, hq, he⟩ := List.mem_map.mp hsource
        exact (hstaged j (List.mem_range.mp hj) q hq).1 he
    -- The second round: no target is a staged name.
    have hsecond : renamedBy (unstaging renames.zipIdx) (stagedName k) = r.target := by
      refine renamedBy_of_mem (p := (stagedName k, r.target)) (List.mem_map.mpr ⟨_, hzip, rfl⟩) ?_ ?_
      · rwa [fst_unstaging]
      · rw [snd_unstaging, fst_unstaging]
        intro t ht hname
        obtain ⟨q, hq, rfl⟩ := List.mem_map.mp ht
        obtain ⟨j, hj, he⟩ := List.mem_map.mp hname
        exact (hstaged j (List.mem_range.mp hj) q hq).2 he.symm
    rw [hfirst, hsecond, image_source hr hsources]
  · have hfirst : renamedBy (staging renames.zipIdx) n = n :=
      renamedBy_of_notMem (by rwa [fst_staging])
    rw [hfirst, image_of_notMem hmem]
    refine renamedBy_of_notMem ?_
    rw [fst_unstaging]
    intro hname
    obtain ⟨j, hj, he⟩ := List.mem_map.mp hname
    exact hn j (List.mem_range.mp hj) he.symm

/-! ### Both rounds -/

/-- Renaming several names at once replaces every name of a function by its image, if the sources are
different names and no staged name occurs. Targets may be sources of other renamings, and several names
may get the same target. -/
theorem renameAll_eq_mapNames {renames : List Rename} {f : Function}
    (hsources : (renames.map (·.source)).Nodup)
    (hstaged : ∀ k < renames.length, stagedName k ∉ f.mentioned ∧
      ∀ r ∈ renames, r.source ≠ stagedName k ∧ r.target ≠ stagedName k) :
    renameAll renames f = f.mapNames (image renames) := by
  rw [renameAll_eq, renameRow_eq_mapNames, renameRow_eq_mapNames, Function.mapNames_mapNames]
  refine Function.mapNames_congr fun n hn => ?_
  refine renamedBy_rounds hsources (fun k hk => (hstaged k hk).2) fun k hk he => ?_
  exact (hstaged k hk).1 (he ▸ hn)

/-- Two names change places, a third one follows them, and a fourth one joins it: at the parameters and
names of the function, of a nested function and of a lambda, at a handler and at a declaration. -/
theorem renameAll_eq_mapNames_rotation :
    let entangled (a b c d : String) (inner : Param) : Function :=
      { name := "a"
        params := [{ name := a, default := some (.name "b") }, { name := b }]
        decorators := [.name "c"]
        body := [
          .nonlocals [c],
          .define
            { name := c, params := [inner]
              body := [.ret (some (.lambda [{ name := b }] (.bin .add (.name b) (.name d))))] },
          .tryBlock [.assign [.name d] (.call (.name "g") [.keyword "a" (.name a)]) none]
            [⟨some (.name "KeyError"), some b, [.raise none none]⟩] [] [],
          .ret (some (.attribute (.name d) "b"))] }
    let renames : List Rename := [⟨"a", "b"⟩, ⟨"b", "a"⟩, ⟨"c", "e"⟩, ⟨"d", "e"⟩]
    let f := entangled "a" "b" "c" "d" { name := "d", default := some (.name "a") }
    (renames.map (·.source)).Nodup ∧
      (∀ k < renames.length, stagedName k ∉ f.mentioned ∧
        ∀ r ∈ renames, r.source ≠ stagedName k ∧ r.target ≠ stagedName k) ∧
      renameAll renames f =
        entangled "b" "a" "e" "e" { name := "e", default := some (.name "b") } := by
  intro entangled renames f
  have hsources : (renames.map (·.source)).Nodup := by decide
  have hstaged : ∀ k < renames.length, stagedName k ∉ f.mentioned ∧
      ∀ r ∈ renames, r.source ≠ stagedName k ∧ r.target ≠ stagedName k := by decide +kernel
  exact ⟨hsources, hstaged, renameAll_eq_mapNames hsources hstaged⟩

end Strategy

end Concord
