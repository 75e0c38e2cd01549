import Concord.Idiom.Expression
import Concord.Proofs.Tree.Mentioned

/-!
# Substitutions and what is evaluated first

A substitution is idle where the name is not mentioned. An expression leads with a name (`Expr.leads`)
if the name is what is evaluated first, apart from constants, and if it is mentioned nowhere else; a value
in the place of the name is then evaluated first as well, and exactly once. In general a value comes in once
for every occurrence of the name (`Expr.countName_substitute`), and is not searched again.
-/

namespace Concord

/-- The part mentions none of the names. -/
def Node.avoids (names : List String) (x : Node) : Bool := x.mentioned.all (!names.contains ·)

theorem Node.avoids_iff {names : List String} {x : Node} :
    x.avoids names = true ↔ ∀ n ∈ x.mentioned, n ∉ names := by
  simp only [avoids, List.all_eq_true, Bool.not_eq_true', ← Bool.not_eq_true, List.contains_iff_mem]

theorem Node.avoids_mono {names names' : List String} (h : names ⊆ names') {x : Node}
    (hx : x.avoids names' = true) : x.avoids names = true :=
  avoids_iff.mpr fun n hn hmem => avoids_iff.mp hx n hn (h hmem)

namespace Expr

/-! ## Idle maps -/

section

variable {f : Expr → Expr}

mutual

/-- A map that keeps every part keeps the whole. -/
theorem map_eq_self : (e : Expr) → (∀ x ∈ e.subterms, f x = x) → e.map f = e
  | .bin op l r, h => by
    simp only [subterms, List.forall_mem_cons, List.forall_mem_append] at h
    rw [map, map_eq_self l h.2.1, map_eq_self r h.2.2, h.1]
  | .unary op a, h => by
    simp only [subterms, List.forall_mem_cons] at h
    rw [map, map_eq_self a h.2, h.1]
  | .logic op l r, h => by
    simp only [subterms, List.forall_mem_cons, List.forall_mem_append] at h
    rw [map, map_eq_self l h.2.1, map_eq_self r h.2.2, h.1]
  | .compare l links, h => by
    simp only [subterms, List.forall_mem_cons, List.forall_mem_append] at h
    rw [map, map_eq_self l h.2.1, mapLinks_eq_self links h.2.2, h.1]
  | .call g args, h => by
    simp only [subterms, List.forall_mem_cons, List.forall_mem_append] at h
    rw [map, map_eq_self g h.2.1, mapArgs_eq_self args h.2.2, h.1]
  | .attribute a n, h => by
    simp only [subterms, List.forall_mem_cons] at h
    rw [map, map_eq_self a h.2, h.1]
  | .subscript a i, h => by
    simp only [subterms, List.forall_mem_cons, List.forall_mem_append] at h
    rw [map, map_eq_self a h.2.1, map_eq_self i h.2.2, h.1]
  | .slice a b c, h => by
    simp only [subterms, List.forall_mem_cons, List.forall_mem_append] at h
    rw [map, mapOption_eq_self a h.2.1, mapOption_eq_self b h.2.2.1, mapOption_eq_self c h.2.2.2, h.1]
  | .list items, h => by
    simp only [subterms, List.forall_mem_cons] at h
    rw [map, mapList_eq_self items h.2, h.1]
  | .tuple items, h => by
    simp only [subterms, List.forall_mem_cons] at h
    rw [map, mapList_eq_self items h.2, h.1]
  | .set items, h => by
    simp only [subterms, List.forall_mem_cons] at h
    rw [map, mapList_eq_self items h.2, h.1]
  | .dict entries, h => by
    simp only [subterms, List.forall_mem_cons] at h
    rw [map, mapEntries_eq_self entries h.2, h.1]
  | .comp kind e v cs, h => by
    simp only [subterms, List.forall_mem_cons, List.forall_mem_append] at h
    rw [map, map_eq_self e h.2.1, mapOption_eq_self v h.2.2.1, mapClauses_eq_self cs h.2.2.2, h.1]
  | .ifExp t a b, h => by
    simp only [subterms, List.forall_mem_cons, List.forall_mem_append] at h
    rw [map, map_eq_self t h.2.1, map_eq_self a h.2.2.1, map_eq_self b h.2.2.2, h.1]
  | .lambda ps b, h => by
    simp only [subterms, List.forall_mem_cons, List.forall_mem_append] at h
    rw [map, mapParams_eq_self ps h.2.1, map_eq_self b h.2.2, h.1]
  | .starred a, h => by
    simp only [subterms, List.forall_mem_cons] at h
    rw [map, map_eq_self a h.2, h.1]
  | .name _, h | .int _, h | .float _, h | .str _, h | .bool _, h | .none, h | .verbatim _, h => by
    rw [map]
    exact h _ (List.mem_singleton_self _)

theorem mapOption_eq_self : (o : Option Expr) → (∀ x ∈ subtermsOption o, f x = x) →
    mapOption f o = o
  | Option.none, _ => rfl
  | some e, h => congrArg some (map_eq_self e h)

theorem mapList_eq_self : (es : List Expr) → (∀ x ∈ subtermsList es, f x = x) → mapList f es = es
  | [], _ => rfl
  | e :: es, h => by
    simp only [subtermsList, List.forall_mem_append] at h
    rw [mapList, map_eq_self e h.1, mapList_eq_self es h.2]

theorem mapLinks_eq_self : (ls : List (CmpOp × Expr)) → (∀ x ∈ subtermsLinks ls, f x = x) →
    mapLinks f ls = ls
  | [], _ => rfl
  | (_, e) :: ls, h => by
    simp only [subtermsLinks, List.forall_mem_append] at h
    rw [mapLinks, map_eq_self e h.1, mapLinks_eq_self ls h.2]

theorem mapArgs_eq_self : (as : List Arg) → (∀ x ∈ subtermsArgs as, f x = x) → mapArgs f as = as
  | [], _ => rfl
  | .positional e :: as, h | .keyword _ e :: as, h | .star e :: as, h | .doubleStar e :: as, h => by
    simp only [subtermsArgs, List.forall_mem_append] at h
    rw [mapArgs, map_eq_self e h.1, mapArgs_eq_self as h.2]

theorem mapEntries_eq_self : (es : List (Expr × Expr)) → (∀ x ∈ subtermsEntries es, f x = x) →
    mapEntries f es = es
  | [], _ => rfl
  | (k, v) :: es, h => by
    simp only [subtermsEntries, List.forall_mem_append] at h
    rw [mapEntries, map_eq_self k h.1, map_eq_self v h.2.1, mapEntries_eq_self es h.2.2]

theorem mapClauses_eq_self : (cs : List Clause) → (∀ x ∈ subtermsClauses cs, f x = x) →
    mapClauses f cs = cs
  | [], _ => rfl
  | ⟨t, i, ifs⟩ :: cs, h => by
    simp only [subtermsClauses, List.forall_mem_append] at h
    rw [mapClauses, map_eq_self i h.1, map_eq_self t h.2.1, mapList_eq_self ifs h.2.2.1,
      mapClauses_eq_self cs h.2.2.2]

theorem mapParams_eq_self : (ps : List Param) → (∀ x ∈ subtermsParams ps, f x = x) →
    mapParams f ps = ps
  | [], _ => rfl
  | ⟨_, _, default, _⟩ :: ps, h => by
    simp only [subtermsParams, List.forall_mem_append] at h
    rw [mapParams, mapOption_eq_self default h.1, mapParams_eq_self ps h.2]

end

end

end Expr

/-- The part is no expression that the function changes. -/
def Node.Kept (f : Expr → Expr) : Node → Prop
  | .expr e => f e = e
  | .stmt _ => True

namespace Stmt

open Expr

variable {f : Expr → Expr}

theorem kept_exprNodes {es : List Expr} (h : ∀ x ∈ exprNodes es, x.Kept f) : ∀ e ∈ es, f e = e :=
  fun e he => h (.expr e) (List.mem_map_of_mem he)

mutual

/-- A map that keeps every expression keeps the statement. -/
theorem map_eq_self : (s : Stmt) → (∀ x ∈ s.nodes, x.Kept f) → s.map id f = s
  | .define ⟨_, params, body, decorators, _, _⟩, h => by
    simp only [nodes, List.forall_mem_cons, List.forall_mem_append] at h
    rw [map, id, mapList_eq_self body h.2.2.2, mapParams_eq_self params (kept_exprNodes h.2.2.1),
      Expr.mapList_eq_self decorators (kept_exprNodes h.2.1)]
  | .ret v, h => by
    simp only [nodes, List.forall_mem_cons] at h
    rw [map, id, mapOption_eq_self v (kept_exprNodes h.2)]
  | .assign ts v _, h => by
    simp only [nodes, List.forall_mem_cons] at h
    obtain ⟨hv, hts⟩ := List.forall_mem_append.mp (kept_exprNodes h.2)
    rw [map, id, Expr.map_eq_self v hv, Expr.mapList_eq_self ts hts]
  | .augAssign t _ v, h => by
    simp only [nodes, List.forall_mem_cons] at h
    obtain ⟨ht, hv⟩ := List.forall_mem_append.mp (kept_exprNodes h.2)
    rw [map, id, Expr.map_eq_self t ht, Expr.map_eq_self v hv]
  | .expr e, h => by
    simp only [nodes, List.forall_mem_cons] at h
    rw [map, id, Expr.map_eq_self e (kept_exprNodes h.2)]
  | .cond t body orelse, h | .whileLoop t body orelse, h => by
    simp only [nodes, List.forall_mem_cons, List.forall_mem_append] at h
    rw [map, id, Expr.map_eq_self t (kept_exprNodes h.2.1), mapList_eq_self body h.2.2.1,
      mapList_eq_self orelse h.2.2.2]
  | .forLoop t i body orelse, h => by
    simp only [nodes, List.forall_mem_cons, List.forall_mem_append] at h
    obtain ⟨hi, ht⟩ := List.forall_mem_append.mp (kept_exprNodes h.2.1)
    rw [map, id, Expr.map_eq_self t ht, Expr.map_eq_self i hi, mapList_eq_self body h.2.2.1,
      mapList_eq_self orelse h.2.2.2]
  | .tryBlock body hs orelse final, h => by
    simp only [nodes, List.forall_mem_cons, List.forall_mem_append] at h
    rw [map, id, mapList_eq_self body h.2.1, mapHandlers_eq_self hs h.2.2.1,
      mapList_eq_self orelse h.2.2.2.1, mapList_eq_self final h.2.2.2.2]
  | .raise e c, h => by
    simp only [nodes, List.forall_mem_cons] at h
    obtain ⟨he, hc⟩ := List.forall_mem_append.mp (kept_exprNodes h.2)
    rw [map, id, mapOption_eq_self e he, mapOption_eq_self c hc]
  | .assert t m, h => by
    simp only [nodes, List.forall_mem_cons] at h
    obtain ⟨ht, hm⟩ := List.forall_mem_append.mp (kept_exprNodes h.2)
    rw [map, id, Expr.map_eq_self t ht, mapOption_eq_self m hm]
  | .importNames _, _ | .importFrom _ _, _ | .globals _, _ | .nonlocals _, _ | .pass, _ | .break, _
  | .continue, _ | .verbatim _ _ _, _ => rfl

theorem mapList_eq_self : (b : List Stmt) → (∀ x ∈ nodesList b, x.Kept f) → mapList id f b = b
  | [], _ => rfl
  | s :: rest, h => by
    simp only [nodesList, List.forall_mem_append] at h
    rw [mapList, map_eq_self s h.1, mapList_eq_self rest h.2]

theorem mapHandlers_eq_self : (hs : List (HandlerOf Stmt)) → (∀ x ∈ nodesHandlers hs, x.Kept f) →
    mapHandlers id f hs = hs
  | [], _ => rfl
  | ⟨type, _, body⟩ :: hs, h => by
    simp only [nodesHandlers, List.forall_mem_append] at h
    rw [mapHandlers, mapOption_eq_self type (kept_exprNodes h.1), mapList_eq_self body h.2.1,
      mapHandlers_eq_self hs h.2.2]

end

@[simp] theorem isEmpty_mapList (g : Stmt → Stmt) (b : List Stmt) :
    (mapList g f b).isEmpty = b.isEmpty := by
  cases b <;> rfl

end Stmt

namespace Expr

/-! ## Substitutions -/

/-- What a substitution does to a node. -/
def replaceName (t : String) (v : Expr) : Expr → Expr
  | .name n => if n = t then v else .name n
  | e => e

theorem substitute_eq_map (e : Expr) (t : String) (v : Expr) :
    e.substitute t v = e.map (replaceName t v) := by
  unfold substitute
  congr 1

/-- The expressions mention a name nowhere. -/
def without (t : String) (es : List Expr) : Bool := es.all fun x => Node.avoids [t] (.expr x)

variable {t : String} {v : Expr}

theorem replaceName_of_without {es : List Expr} (h : without t es = true) :
    ∀ x ∈ es, replaceName t v x = x := by
  intro x hx
  have havoids := List.all_eq_true.mp h x hx
  cases x with
  | name n =>
    refine if_neg ?_
    rintro rfl
    simp [Node.avoids, Node.mentioned] at havoids
  | _ => rfl

theorem replaceName_eq_self {e : Expr} (h : without t e.subterms = true) :
    e.map (replaceName t v) = e :=
  map_eq_self e (replaceName_of_without h)

/-! ## What is evaluated first -/

/-- A constant that can be evaluated. -/
def isConstant : Expr → Bool
  | .str lit => !lit.bytes
  | e => e.isLiteral

mutual

/-- Apart from constants, the name is what is evaluated first, and it is mentioned nowhere else. -/
def leads (t : String) : Expr → Bool
  | .name n => n == t
  | .bin _ l r => leads t l && without t r.subterms || l.isConstant && leads t r
  | .unary _ a => leads t a
  | .logic _ l r => leads t l && without t r.subterms
  | .compare l links =>
    leads t l && without t (subtermsLinks links) || l.isConstant && leadsLinks t links
  | .attribute a _ => leads t a
  | .subscript a i => leads t a && without t i.subterms
  | .list items => leadsItems t items
  | .tuple items => leadsItems t items
  | .set items => leadsItems t items
  | .dict entries => leadsEntries t entries
  | .ifExp c a b => leads t c && (without t a.subterms && without t b.subterms)
  | _ => false

/-- `leads` for the items of a display. -/
def leadsItems (t : String) : List Expr → Bool
  | [] => false
  | .starred a :: items => leads t a && without t (subtermsList items)
  | e :: items => leads t e && without t (subtermsList items) || e.isConstant && leadsItems t items

/-- `leads` for the right operands of a comparison. -/
def leadsLinks (t : String) : List (CmpOp × Expr) → Bool
  | [] => false
  | (_, e) :: links => leads t e && without t (subtermsLinks links)

/-- `leads` for the entries of a dictionary display. -/
def leadsEntries (t : String) : List (Expr × Expr) → Bool
  | [] => false
  | (k, w) :: entries => (leads t k && without t w.subterms || k.isConstant && leads t w) &&
      without t (subtermsEntries entries)

end

variable {t : String} {v : Expr}

theorem map_of_isConstant {e : Expr} (h : e.isConstant = true) : e.map (replaceName t v) = e := by
  cases e <;> first | rfl | simp [isConstant, isLiteral] at h

/-- What leads is no starred item. -/
theorem leadsItems_cons {e : Expr} {items : List Expr} (he : e.leads t = true)
    (hitems : without t (subtermsList items) = true) : leadsItems t (e :: items) = true := by
  cases e <;> simp_all [leads, leadsItems]

mutual

/-- With a value in its place that leads with the name, an expression still leads with it. -/
theorem leads_map (hv : v.leads t = true) : (e : Expr) → e.leads t = true →
    (e.map (replaceName t v)).leads t = true
  | .name n, h => by
    rw [leads, beq_iff_eq] at h
    rw [map, replaceName, if_pos h]
    exact hv
  | .bin op l r, h => by
    simp only [leads, Bool.or_eq_true, Bool.and_eq_true] at h
    simp only [map, replaceName, leads, Bool.or_eq_true, Bool.and_eq_true]
    obtain ⟨hl, hr⟩ | ⟨hl, hr⟩ := h
    · exact .inl ⟨leads_map hv l hl, (replaceName_eq_self hr).symm ▸ hr⟩
    · exact .inr ⟨(map_of_isConstant hl).symm ▸ hl, leads_map hv r hr⟩
  | .unary op a, h => by
    simp only [map, replaceName, leads] at h ⊢
    exact leads_map hv a h
  | .logic op l r, h => by
    simp only [leads, Bool.and_eq_true] at h
    simp only [map, replaceName, leads, Bool.and_eq_true]
    exact ⟨leads_map hv l h.1, (replaceName_eq_self h.2).symm ▸ h.2⟩
  | .compare l links, h => by
    simp only [leads, Bool.or_eq_true, Bool.and_eq_true] at h
    simp only [map, replaceName, leads, Bool.or_eq_true, Bool.and_eq_true]
    obtain ⟨hl, hlinks⟩ | ⟨hl, hlinks⟩ := h
    · exact .inl ⟨leads_map hv l hl,
        (mapLinks_eq_self links (replaceName_of_without hlinks)).symm ▸ hlinks⟩
    · exact .inr ⟨(map_of_isConstant hl).symm ▸ hl, leadsLinks_map hv links hlinks⟩
  | .attribute a n, h => by
    simp only [map, replaceName, leads] at h ⊢
    exact leads_map hv a h
  | .subscript a i, h => by
    simp only [leads, Bool.and_eq_true] at h
    simp only [map, replaceName, leads, Bool.and_eq_true]
    exact ⟨leads_map hv a h.1, (replaceName_eq_self h.2).symm ▸ h.2⟩
  | .list items, h | .tuple items, h | .set items, h => by
    simp only [map, replaceName, leads] at h ⊢
    exact leadsItems_map hv items h
  | .dict entries, h => by
    simp only [map, replaceName, leads] at h ⊢
    exact leadsEntries_map hv entries h
  | .ifExp c a b, h => by
    simp only [leads, Bool.and_eq_true] at h
    simp only [map, replaceName, leads, Bool.and_eq_true]
    exact ⟨leads_map hv c h.1, (replaceName_eq_self h.2.1).symm ▸ h.2.1,
      (replaceName_eq_self h.2.2).symm ▸ h.2.2⟩
  | .call _ _, h | .slice _ _ _, h | .comp _ _ _ _, h | .lambda _ _, h | .starred _, h | .int _, h
  | .float _, h | .str _, h | .bool _, h | .none, h | .verbatim _, h => by
    simp [leads] at h

theorem leadsItems_map (hv : v.leads t = true) : (items : List Expr) → leadsItems t items = true →
    leadsItems t (mapList (replaceName t v) items) = true
  | [], h => by simp [leadsItems] at h
  | e :: items, h => by
    have hrest (hitems : without t (subtermsList items) = true) :
        mapList (replaceName t v) items = items :=
      mapList_eq_self items (replaceName_of_without hitems)
    rw [mapList]
    cases e with
    | starred a =>
      simp only [leadsItems, Bool.and_eq_true] at h
      simp only [map, replaceName, leadsItems, Bool.and_eq_true]
      exact ⟨leads_map hv a h.1, (hrest h.2).symm ▸ h.2⟩
    | _ =>
      rw [leadsItems, Bool.or_eq_true, Bool.and_eq_true, Bool.and_eq_true] at h
      · obtain ⟨he, hitems⟩ | ⟨he, hitems⟩ := h
        · rw [hrest hitems]
          exact leadsItems_cons (leads_map hv _ he) hitems
        · rw [map_of_isConstant he, leadsItems, Bool.or_eq_true, Bool.and_eq_true, Bool.and_eq_true]
          · exact .inr ⟨he, leadsItems_map hv items hitems⟩
          all_goals simp
      all_goals simp

theorem leadsLinks_map (hv : v.leads t = true) : (links : List (CmpOp × Expr)) →
    leadsLinks t links = true → leadsLinks t (mapLinks (replaceName t v) links) = true
  | [], h => by simp [leadsLinks] at h
  | (op, e) :: links, h => by
    simp only [leadsLinks, Bool.and_eq_true] at h
    simp only [mapLinks, leadsLinks, Bool.and_eq_true]
    exact ⟨leads_map hv e h.1,
      (mapLinks_eq_self links (replaceName_of_without h.2)).symm ▸ h.2⟩

theorem leadsEntries_map (hv : v.leads t = true) : (entries : List (Expr × Expr)) →
    leadsEntries t entries = true → leadsEntries t (mapEntries (replaceName t v) entries) = true
  | [], h => by simp [leadsEntries] at h
  | (k, w) :: entries, h => by
    simp only [leadsEntries, Bool.or_eq_true, Bool.and_eq_true] at h
    simp only [mapEntries, leadsEntries, Bool.or_eq_true, Bool.and_eq_true]
    refine ⟨?_, (mapEntries_eq_self entries (replaceName_of_without h.2)).symm ▸ h.2⟩
    obtain ⟨hk, hw⟩ | ⟨hk, hw⟩ := h.1
    · exact .inl ⟨leads_map hv k hk, (replaceName_eq_self hw).symm ▸ hw⟩
    · exact .inr ⟨(map_of_isConstant hk).symm ▸ hk, leads_map hv w hw⟩

end

/-! ## The names that occur after a substitution -/

/-- The names that occur where a name occurred. -/
def putName (t : String) (v : Expr) (n : String) : List String :=
  if n = t then v.nameOccurrences else [n]

/-- The names that occur in `es'` are those in `es`, with the names of the value in the place of every
occurrence of the name. -/
def PutsNames (t : String) (v : Expr) (es es' : List Expr) : Prop :=
  es'.filterMap asName? = (es.filterMap asName?).flatMap (putName t v)

namespace PutsNames

variable {es es' : List Expr}

theorem append {fs fs' : List Expr} (hes : PutsNames t v es es') (hfs : PutsNames t v fs fs') :
    PutsNames t v (es ++ fs) (es' ++ fs') := by
  rw [PutsNames, List.filterMap_append, List.filterMap_append, List.flatMap_append, hes, hfs]

/-- An expression that is no name adds nothing to the names inside it. -/
theorem cons {e e' : Expr} (he : e.asName? = Option.none) (he' : e'.asName? = Option.none)
    (h : PutsNames t v es es') : PutsNames t v (e :: es) (e' :: es') := by
  rw [PutsNames, List.filterMap_cons_none he, List.filterMap_cons_none he', h]

end PutsNames

mutual

theorem putsNames_map (t : String) (v : Expr) : (e : Expr) →
    PutsNames t v e.subterms (e.map (replaceName t v)).subterms
  | .name n => by
    rw [map, replaceName]
    split
    · next h => simp [PutsNames, subterms, asName?, putName, nameOccurrences, h]
    · next h => simp [PutsNames, subterms, asName?, putName, h]
  | .bin _ l r | .logic _ l r | .subscript l r => by
    simp only [map, replaceName, subterms]
    exact .cons rfl rfl (.append (putsNames_map t v l) (putsNames_map t v r))
  | .unary _ a | .attribute a _ | .starred a => by
    simp only [map, replaceName, subterms]
    exact .cons rfl rfl (putsNames_map t v a)
  | .compare l links => by
    simp only [map, replaceName, subterms]
    exact .cons rfl rfl (.append (putsNames_map t v l) (putsNames_mapLinks t v links))
  | .call g args => by
    simp only [map, replaceName, subterms]
    exact .cons rfl rfl (.append (putsNames_map t v g) (putsNames_mapArgs t v args))
  | .slice a b c => by
    simp only [map, replaceName, subterms]
    exact .cons rfl rfl (.append (putsNames_mapOption t v a)
      (.append (putsNames_mapOption t v b) (putsNames_mapOption t v c)))
  | .list items | .tuple items | .set items => by
    simp only [map, replaceName, subterms]
    exact .cons rfl rfl (putsNames_mapList t v items)
  | .dict entries => by
    simp only [map, replaceName, subterms]
    exact .cons rfl rfl (putsNames_mapEntries t v entries)
  | .comp _ e o clauses => by
    simp only [map, replaceName, subterms]
    exact .cons rfl rfl (.append (putsNames_map t v e)
      (.append (putsNames_mapOption t v o) (putsNames_mapClauses t v clauses)))
  | .ifExp c a b => by
    simp only [map, replaceName, subterms]
    exact .cons rfl rfl (.append (putsNames_map t v c)
      (.append (putsNames_map t v a) (putsNames_map t v b)))
  | .lambda ps b => by
    simp only [map, replaceName, subterms]
    exact .cons rfl rfl (.append (putsNames_mapParams t v ps) (putsNames_map t v b))
  | .int _ | .float _ | .str _ | .bool _ | .none | .verbatim _ => rfl

theorem putsNames_mapOption (t : String) (v : Expr) : (o : Option Expr) →
    PutsNames t v (subtermsOption o) (subtermsOption (mapOption (replaceName t v) o))
  | Option.none => rfl
  | some e => putsNames_map t v e

theorem putsNames_mapList (t : String) (v : Expr) : (es : List Expr) →
    PutsNames t v (subtermsList es) (subtermsList (mapList (replaceName t v) es))
  | [] => rfl
  | e :: es => .append (putsNames_map t v e) (putsNames_mapList t v es)

theorem putsNames_mapLinks (t : String) (v : Expr) : (links : List (CmpOp × Expr)) →
    PutsNames t v (subtermsLinks links) (subtermsLinks (mapLinks (replaceName t v) links))
  | [] => rfl
  | (_, e) :: links => .append (putsNames_map t v e) (putsNames_mapLinks t v links)

theorem putsNames_mapArgs (t : String) (v : Expr) : (args : List Arg) →
    PutsNames t v (subtermsArgs args) (subtermsArgs (mapArgs (replaceName t v) args))
  | [] => rfl
  | .positional e :: args | .keyword _ e :: args | .star e :: args | .doubleStar e :: args =>
    .append (putsNames_map t v e) (putsNames_mapArgs t v args)

theorem putsNames_mapEntries (t : String) (v : Expr) : (entries : List (Expr × Expr)) →
    PutsNames t v (subtermsEntries entries) (subtermsEntries (mapEntries (replaceName t v) entries))
  | [] => rfl
  | (k, w) :: entries =>
    .append (putsNames_map t v k) (.append (putsNames_map t v w) (putsNames_mapEntries t v entries))

theorem putsNames_mapClauses (t : String) (v : Expr) : (clauses : List Clause) →
    PutsNames t v (subtermsClauses clauses) (subtermsClauses (mapClauses (replaceName t v) clauses))
  | [] => rfl
  | ⟨target, iter, ifs⟩ :: clauses =>
    .append (putsNames_map t v iter) (.append (putsNames_map t v target)
      (.append (putsNames_mapList t v ifs) (putsNames_mapClauses t v clauses)))

theorem putsNames_mapParams (t : String) (v : Expr) : (ps : List Param) →
    PutsNames t v (subtermsParams ps) (subtermsParams (mapParams (replaceName t v) ps))
  | [] => rfl
  | ⟨_, _, default, _⟩ :: ps =>
    .append (putsNames_mapOption t v default) (putsNames_mapParams t v ps)

end

theorem nameOccurrences_substitute (e : Expr) :
    (e.substitute t v).nameOccurrences = e.nameOccurrences.flatMap (putName t v) := by
  rw [substitute_eq_map]
  exact putsNames_map t v e

theorem countName_eq_count (e : Expr) (n : String) : e.countName n = e.nameOccurrences.count n := by
  rw [countName, find, ← List.countP_eq_length_filter, nameOccurrences, List.count, List.countP_filterMap]
  congr 1
  funext x
  cases x <;> rfl

theorem count_flatMap_putName (ns : List String) (y : String) :
    (ns.flatMap (putName t v)).count y =
      ns.count t * v.countName y + if y = t then 0 else ns.count y := by
  induction ns with
  | nil => simp
  | cons n ns ih =>
    rw [List.flatMap_cons, List.count_append, ih, List.count_cons, List.count_cons, putName]
    by_cases hn : n = t
    · subst hn
      rw [if_pos rfl, ← countName_eq_count]
      by_cases hy : y = n
      · simp [hy, Nat.succ_mul, Nat.add_comm]
      · simp [hy, Ne.symm hy, Nat.succ_mul]
        omega
    · by_cases hy : y = t
      · subst hy
        simp [hn]
      · simp [hn, hy, List.count_cons]
        omega

/-- After a substitution a name occurs as often as the value brings it in, once for every occurrence of
the name that is replaced; another name also stays where it was. -/
theorem countName_substitute (e r : Expr) (x y : String) :
    (e.substitute x r).countName y =
      e.countName x * r.countName y + if y = x then 0 else e.countName y := by
  rw [countName_eq_count, nameOccurrences_substitute, count_flatMap_putName, ← countName_eq_count,
    ← countName_eq_count]

end Expr

end Concord
