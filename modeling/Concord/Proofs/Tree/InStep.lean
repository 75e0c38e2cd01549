import Concord.Proofs.Tree.Alike
import Concord.Proofs.Tree.Tidy

/-!
# Two normalizations in step

Two modules with the same normal form are normalized side by side. The scopes of the two
normalizations bind different names to the same placeholders, and so a placeholder pairs up the names of
a rib (`Mates`). That placeholders are handed out in step follows from the second pass over the normal
form, which both modules share (`Normal.eq_of_settled`).
-/

namespace Concord

/-! ## Scopes with the same placeholders -/

namespace Placeholders

/-- The placeholders of a scope differ and are numbered from `k` on below `j`. -/
structure Between (k j : Nat) (s : Placeholders) : Prop where
  nodup : (s.map Prod.snd).Nodup
  number : ∀ v ∈ s.map Prod.snd, ∃ i, k ≤ i ∧ i < j ∧ v = placeholder i

variable {s t : Placeholders} {k j : Nat} {a b v : String}

theorem between_nil (k j : Nat) : Between k j [] where
  nodup := List.nodup_nil
  number := nofun

theorem Between.below (h : s.Between k j) : s.Below j := by
  intro p hp
  obtain ⟨i, -, hi, he⟩ := h.number p.2 (List.mem_map_of_mem hp)
  exact ⟨i, hi, he⟩

theorem Between.cons (h : s.Between k j) (hk : k ≤ j) (n : String) :
    Between k (j + 1) ((n, placeholder j) :: s) := by
  refine ⟨?_, ?_⟩
  · rw [List.map_cons, List.nodup_cons]
    refine ⟨?_, h.nodup⟩
    intro hmem
    obtain ⟨i, -, hi, he⟩ := h.number _ hmem
    exact Nat.ne_of_lt hi (placeholder_inj he.symm)
  · intro v hv
    rw [List.map_cons, List.mem_cons] at hv
    rcases hv with rfl | hv
    · exact ⟨j, hk, Nat.lt_succ_self j, rfl⟩
    · obtain ⟨i, hi, hij, he⟩ := h.number v hv
      exact ⟨i, hi, Nat.lt_succ_of_lt hij, he⟩

theorem map_snd_of_settle (h : s.settle = t.settle) : s.map Prod.snd = t.map Prod.snd := by
  have hfirst := congrArg (List.map Prod.fst) h
  simpa [settle, Function.comp_def] using hfirst

theorem Between.of_settle (h : s.Between k j) (hst : s.settle = t.settle) : t.Between k j := by
  have hsnd := map_snd_of_settle hst
  exact ⟨hsnd ▸ h.nodup, hsnd ▸ h.number⟩

/-- The names of two scopes, paired as they come. -/
def rib (s t : Placeholders) : Rib := (s.map Prod.fst).zip (t.map Prod.fst)

theorem lefts_rib (h : s.settle = t.settle) : (rib s t).map Prod.fst = s.map Prod.fst := by
  have hlength := congrArg List.length (map_snd_of_settle h)
  simp only [List.length_map] at hlength
  rw [rib, List.map_fst_zip]
  simp [hlength]

theorem rights_rib (h : s.settle = t.settle) : (rib s t).map Prod.snd = t.map Prod.fst := by
  have hlength := congrArg List.length (map_snd_of_settle h)
  simp only [List.length_map] at hlength
  rw [rib, List.map_snd_zip]
  simp [hlength]

/-- Names with one placeholder are a pair. -/
theorem mem_rib (h : s.settle = t.settle) (hs : (s.map Prod.snd).Nodup) (ha : (a, v) ∈ s)
    (hb : (b, v) ∈ t) : (a, b) ∈ rib s t := by
  have hsnd := map_snd_of_settle h
  clear h
  induction s generalizing t with
  | nil => cases ha
  | cons p s ih =>
    cases t with
    | nil => cases hb
    | cons q t =>
      obtain ⟨n, w⟩ := p
      obtain ⟨m, w'⟩ := q
      rw [List.map_cons, List.map_cons, List.cons.injEq] at hsnd
      obtain ⟨hw, hsnd⟩ := hsnd
      have hw : w = w' := hw
      subst hw
      rw [List.map_cons, List.nodup_cons] at hs
      show (a, b) ∈ (n, m) :: rib s t
      -- The placeholder of the first pair does not come again.
      by_cases hv : v = w
      · subst hv
        have ha' : (a, v) ∉ s := fun hmem => hs.1 (List.mem_map.mpr ⟨_, hmem, rfl⟩)
        have hb' : (b, v) ∉ t := fun hmem => hs.1 (hsnd ▸ List.mem_map.mpr ⟨_, hmem, rfl⟩)
        have hn : a = n := by simpa [ha'] using ha
        have hm : b = m := by simpa [hb'] using hb
        rw [hn, hm]
        exact List.mem_cons_self
      · have ha : (a, v) ∈ s := by simpa [hv] using ha
        have hb : (b, v) ∈ t := by simpa [hv] using hb
        exact List.mem_cons_of_mem _ (ih hs.2 ha hb hsnd)

end Placeholders

/-- The scopes that two modules open at one place: they bind the names `own` and `own'`, which they may,
to the same placeholders. -/
structure Opening (locals : List String) (A B : Sight) (own own' : List String) (k j : Nat)
    (s t : Placeholders) : Prop where
  settle : s.settle = t.settle
  between : s.Between k j
  le : k ≤ j
  nodup : (s.map Prod.fst).Nodup
  nodup' : (t.map Prod.fst).Nodup
  binds : ∀ n, (s.lookup n).isSome = true ↔ n ∈ own
  binds' : ∀ n, (t.lookup n).isSome = true ↔ n ∈ own'
  opens : A.opens locals own = true
  opens' : B.opens locals own' = true

/-- The scopes that the normalizations of two modules have reached, with the names they have seen: a
placeholder pairs up names of the ribs. -/
structure Mates (locals : List String) (ρ : Ribs) (A B : Sight) (S T : Scopes) (k : Nat) : Prop where
  proper : ρ.Proper locals
  lefts : ∀ n ∈ ρ.lefts, n ∈ A.around ∨ n ∈ A.taken
  rights : ∀ n ∈ ρ.rights, n ∈ B.around ∨ n ∈ B.taken
  leftLocal : ∀ n ∈ A.around, n ∈ locals
  rightLocal : ∀ n ∈ B.around, n ∈ locals
  left : S.Hold A.around k
  right : T.Hold B.around k
  settle : S.settle = T.settle
  tie : ∀ a b v, S.resolve? a = some v → T.resolve? b = some v → (a, b) ∈ ρ.flatten

section Mates

variable {locals own own' : List String} {ρ : Ribs} {A B : Sight} {S T : Scopes} {k j : Nat}
variable {s t : Placeholders} {a b v : String}

theorem mem_map_fst_iff {n : String} : n ∈ s.map Prod.fst ↔ (s.lookup n).isSome = true := by
  rw [List.lookup_isSome_iff]
  simp

theorem Scopes.Hold.exists_lt {around : List String} (h : S.Hold around k)
    (hv : S.resolve? a = some v) : ∃ i < k, v = placeholder i := by
  obtain ⟨scope, hscope, hlookup⟩ := List.exists_of_findSome?_eq_some hv
  exact h.below scope hscope _ (Placeholders.mem_of_lookup hlookup)

namespace Opening

variable {i : Nat}

theorem mem_own (h : Opening locals A B own own' k j s t) {n : String}
    (hn : n ∈ (s.rib t).map Prod.fst) : n ∈ own := by
  rw [Placeholders.lefts_rib h.settle] at hn
  exact (h.binds n).mp (mem_map_fst_iff.mp hn)

theorem mem_own' (h : Opening locals A B own own' k j s t) {n : String}
    (hn : n ∈ (s.rib t).map Prod.snd) : n ∈ own' := by
  rw [Placeholders.rights_rib h.settle] at hn
  exact (h.binds' n).mp (mem_map_fst_iff.mp hn)

theorem proper (h : Opening locals A B own own' k j s t) (hρ : Mates locals ρ A B S T i) :
    Ribs.Proper locals (s.rib t :: ρ) := by
  constructor
  · rw [Ribs.lefts_cons]
    refine List.nodup_append.mpr ⟨?_, hρ.proper.lefts_nodup, ?_⟩
    · exact Placeholders.lefts_rib h.settle ▸ h.nodup
    · rintro n hn _ hm rfl
      obtain ⟨-, haround, htaken⟩ := Sight.mem_of_opens h.opens (h.mem_own hn)
      exact (hρ.lefts n hm).elim haround htaken
  · rw [Ribs.rights_cons]
    refine List.nodup_append.mpr ⟨?_, hρ.proper.rights_nodup, ?_⟩
    · exact Placeholders.rights_rib h.settle ▸ h.nodup'
    · rintro n hn _ hm rfl
      obtain ⟨-, haround, htaken⟩ := Sight.mem_of_opens h.opens' (h.mem_own' hn)
      exact (hρ.rights n hm).elim haround htaken
  · intro n hn
    rw [Ribs.lefts_cons, List.mem_append] at hn
    exact hn.elim (fun hn => (Sight.mem_of_opens h.opens (h.mem_own hn)).1) (hρ.proper.lefts_local n)
  · intro n hn
    rw [Ribs.rights_cons, List.mem_append] at hn
    exact hn.elim (fun hn => (Sight.mem_of_opens h.opens' (h.mem_own' hn)).1)
      (hρ.proper.rights_local n)

end Opening

namespace Mates

theorem mono (h : Mates locals ρ A B S T k) (hk : k ≤ j) : Mates locals ρ A B S T j :=
  { h with left := h.left.mono hk, right := h.right.mono hk }

/-- Names that are renamed alike mean the same. -/
theorem tied (h : Mates locals ρ A B S T k) (ha : A.knows locals a = true)
    (hb : B.knows locals b = true) (he : S.rename a = T.rename b) : ρ.Tied locals a b := by
  rw [Sight.knows_iff] at ha hb
  -- A bound name becomes a placeholder, and one that is not bound is not spelled like one.
  have hbound {S : Scopes} {around : List String} {a : String} (hS : S.Hold around k)
      (ha : a ∈ around) : ∃ v, S.resolve? a = some v ∧ S.rename a = v ∧ isReserved v = true := by
    obtain ⟨v, hv⟩ := Option.isSome_iff_exists.mp ((hS.binds a).mpr ha)
    obtain ⟨i, -, rfl⟩ := hS.exists_lt hv
    exact ⟨_, hv, by rw [Scopes.rename, hv]; rfl, isReserved_placeholder i⟩
  by_cases hleft : a ∈ A.around
  · obtain ⟨v, hv, hrename, hreserved⟩ := hbound h.left hleft
    by_cases hright : b ∈ B.around
    · obtain ⟨w, hw, hrename', -⟩ := hbound h.right hright
      have hvw : v = w := hrename.symm.trans (he.trans hrename')
      exact .inl (h.tie a b v hv (hvw ▸ hw))
    · have hspelled := (hb.resolve_left hright).2
      rw [← h.right.rename_of_notMem hright, ← he, hrename, hreserved] at hspelled
      cases hspelled
  · by_cases hright : b ∈ B.around
    · obtain ⟨w, -, hrename, hreserved⟩ := hbound h.right hright
      have hspelled := (ha.resolve_left hleft).2
      rw [← h.left.rename_of_notMem hleft, he, hrename, hreserved] at hspelled
      cases hspelled
    · rw [h.left.rename_of_notMem hleft, h.right.rename_of_notMem hright] at he
      exact .inr ⟨he, (ha.resolve_left hleft).1⟩

theorem lefts_cons (h : Mates locals ρ A B S T k) {r : Rib}
    (hr : ∀ n ∈ r.map Prod.fst, n ∈ own) :
    ∀ n ∈ Ribs.lefts (r :: ρ), n ∈ own ∨ n ∈ A.around ∨ n ∈ A.taken := by
  intro n hn
  rw [Ribs.lefts_cons, List.mem_append] at hn
  exact hn.imp (hr n) (h.lefts n)

theorem rights_cons (h : Mates locals ρ A B S T k) {r : Rib}
    (hr : ∀ n ∈ r.map Prod.snd, n ∈ own') :
    ∀ n ∈ Ribs.rights (r :: ρ), n ∈ own' ∨ n ∈ B.around ∨ n ∈ B.taken := by
  intro n hn
  rw [Ribs.rights_cons, List.mem_append] at hn
  exact hn.imp (hr n) (h.rights n)

/-- Inside the scopes that are opened. -/
theorem enter (h : Mates locals ρ A B S T k) (ho : Opening locals A B own own' k j s t) :
    Mates locals (s.rib t :: ρ) (A.enter own) (B.enter own') (s :: S) (t :: T) j where
  proper := ho.proper h
  lefts n hn := by
    have := h.lefts_cons (fun n => ho.mem_own) n hn
    simpa [Sight.enter, or_assoc] using this
  rights n hn := by
    have := h.rights_cons (fun n => ho.mem_own') n hn
    simpa [Sight.enter, or_assoc] using this
  leftLocal := Sight.enter_local ho.opens h.leftLocal
  rightLocal := Sight.enter_local ho.opens' h.rightLocal
  left := h.left.push ho.binds ho.between.below ho.le
  right := h.right.push ho.binds' (ho.between.of_settle ho.settle).below ho.le
  settle := by rw [Scopes.settle_cons, Scopes.settle_cons, ho.settle, h.settle]
  tie a b v ha hb := by
    -- The placeholders of the new scopes are numbered above those of the scopes around.
    have hnew {s : Placeholders} {a : String} (hs : s.Between k j) (ha : s.lookup a = some v) :
        (a, v) ∈ s ∧ ∃ i, k ≤ i ∧ v = placeholder i := by
      have hmem := Placeholders.mem_of_lookup ha
      obtain ⟨i, hi, -, he⟩ := hs.number v (List.mem_map.mpr ⟨_, hmem, rfl⟩)
      exact ⟨hmem, i, hi, he⟩
    have hclash {i i' : Nat} (hi : k ≤ i) (hi' : i' < k) (hv : v = placeholder i)
        (hv' : v = placeholder i') : False :=
      absurd (placeholder_inj (hv.symm.trans hv')) (by omega)
    have hbetween := ho.between.of_settle ho.settle
    rw [List.flatten_cons, List.mem_append]
    cases hsa : s.lookup a with
    | some w =>
      rw [Scopes.resolve?_of_bound hsa] at ha
      obtain ⟨hmem, i, hi, hv⟩ := hnew ho.between (hsa.trans ha)
      cases htb : t.lookup b with
      | some w' =>
        rw [Scopes.resolve?_of_bound htb] at hb
        exact .inl (Placeholders.mem_rib ho.settle ho.between.nodup hmem
          (hnew hbetween (htb.trans hb)).1)
      | none =>
        rw [Scopes.resolve?_of_unbound htb] at hb
        obtain ⟨i', hi', hv'⟩ := h.right.exists_lt hb
        exact (hclash hi hi' hv hv').elim
    | none =>
      rw [Scopes.resolve?_of_unbound hsa] at ha
      cases htb : t.lookup b with
      | some w' =>
        rw [Scopes.resolve?_of_bound htb] at hb
        obtain ⟨-, i, hi, hv⟩ := hnew hbetween (htb.trans hb)
        obtain ⟨i', hi', hv'⟩ := h.left.exists_lt ha
        exact (hclash hi hi' hv hv').elim
      | none =>
        rw [Scopes.resolve?_of_unbound htb] at hb
        exact .inr (h.tie a b v ha hb)

/-- Inside the scopes that are opened, before their names are visible. -/
theorem avoid {i : Nat} (h : Mates locals ρ A B S T i) (ho : Opening locals A B own own' k j s t) :
    Mates locals (s.rib t :: ρ) (A.avoid own) (B.avoid own') S T i where
  proper := ho.proper h
  lefts n hn := by
    have := h.lefts_cons (fun n => ho.mem_own) n hn
    simpa [Sight.avoid, or_left_comm] using this
  rights n hn := by
    have := h.rights_cons (fun n => ho.mem_own') n hn
    simpa [Sight.avoid, or_left_comm] using this
  leftLocal := h.leftLocal
  rightLocal := h.rightLocal
  left := h.left
  right := h.right
  settle := h.settle
  tie a b v ha hb := List.mem_append_right _ (h.tie a b v ha hb)

end Mates

end Mates

namespace Normal

/-! ## New scopes -/

variable {s t : Placeholders} {k j : Nat} {p : String × String}

theorem assignParams_separator {q : Param} (h : q.kind.isSeparator = true) (ps : List Param)
    (s : Placeholders) (k : Nat) :
    assignParams (q :: ps) s k = (q :: (assignParams ps s k).1, (assignParams ps s k).2) := by
  rw [assignParams, if_pos h]

theorem assignParams_binding {q : Param} (h : q.kind.isSeparator = false) (ps : List Param)
    (s : Placeholders) (k : Nat) :
    assignParams (q :: ps) s k =
      ({ q with name := placeholder k } :: (assignParams ps ((q.name, placeholder k) :: s) (k + 1)).1,
        (assignParams ps ((q.name, placeholder k) :: s) (k + 1)).2) := by
  rw [assignParams, if_neg (by simp [h])]

theorem assignParams_between (ps : List Param) (h : s.Between k j) (hk : k ≤ j) :
    (assignParams ps s j).2.1.Between k (assignParams ps s j).2.2 ∧
      k ≤ (assignParams ps s j).2.2 := by
  induction ps generalizing s j with
  | nil => exact ⟨h, hk⟩
  | cons q ps ih =>
    rw [assignParams]
    split
    · exact ih h hk
    · exact ih (h.cons hk q.name) (Nat.le_succ_of_le hk)

theorem assignLocals_between (outer ns : List String) (h : s.Between k j) (hk : k ≤ j) :
    (assignLocals outer ns s j).1.Between k (assignLocals outer ns s j).2 ∧
      k ≤ (assignLocals outer ns s j).2 := by
  induction ns generalizing s j with
  | nil => exact ⟨h, hk⟩
  | cons n ns ih =>
    rw [assignLocals]
    split
    · exact ih h hk
    · exact ih (h.cons hk n) (Nat.le_succ_of_le hk)

theorem map_fst_assignParams (ps : List Param) (s : Placeholders) (k : Nat) :
    (assignParams ps s k).2.1.map Prod.fst = (Param.boundNames ps).reverse ++ s.map Prod.fst := by
  induction ps generalizing s k with
  | nil => rfl
  | cons q ps ih =>
    cases hsep : q.kind.isSeparator with
    | true =>
      rw [assignParams_separator hsep, ih]
      simp [Param.boundNames, hsep]
    | false =>
      rw [assignParams_binding hsep, ih]
      simp [Param.boundNames, hsep]

theorem nodup_assignLocals (outer ns : List String) (h : (s.map Prod.fst).Nodup) :
    ((assignLocals outer ns s k).1.map Prod.fst).Nodup := by
  induction ns generalizing s k with
  | nil => exact h
  | cons n ns ih =>
    rw [assignLocals]
    split
    · exact ih h
    · rename_i hnew
      rw [Bool.or_eq_true, not_or, ← mem_map_fst_iff] at hnew
      exact ih (List.nodup_cons.mpr ⟨hnew.2, h⟩)

theorem mem_assignParams (ps : List Param) (h : p ∈ s) : p ∈ (assignParams ps s k).2.1 := by
  induction ps generalizing s k with
  | nil => exact h
  | cons q ps ih =>
    rw [assignParams]
    split
    · exact ih h
    · exact ih (List.mem_cons_of_mem _ h)

theorem mem_assignLocals (outer ns : List String) (h : p ∈ s) :
    p ∈ (assignLocals outer ns s k).1 := by
  induction ns generalizing s k with
  | nil => exact h
  | cons n ns ih =>
    rw [assignLocals]
    split
    · exact ih h
    · exact ih (List.mem_cons_of_mem _ h)

/-- Parameters with the same normal form, one by one. -/
theorem assignParams_cons_inj {p q : Param} {ps qs : List Param} {i i' : Nat}
    (h : (assignParams (p :: ps) s i).1 = (assignParams (q :: qs) t i').1) :
    p.kind = q.kind ∧ p.default = q.default ∧
      ∃ s' j t' j', (assignParams ps s' j).1 = (assignParams qs t' j').1 := by
  cases hp : p.kind.isSeparator <;> cases hq : q.kind.isSeparator <;>
    simp only [assignParams_separator, assignParams_binding, hp, hq, List.cons.injEq] at h <;>
    exact ⟨by simpa using congrArg ParamOf.kind h.1, by simpa using congrArg ParamOf.default h.1,
      _, _, _, _, h.2⟩

/-- Parameters with the same normal form have the same kinds and, one by one, the same placeholders. -/
theorem paired_assignParams {ps qs : List Param}
    (h : (assignParams ps s k).1 = (assignParams qs t k).1) :
    List.Forall₂ (fun p q : Param => p.kind = q.kind ∧ (p.kind.isSeparator = false →
      ∃ v, (p.name, v) ∈ (assignParams ps s k).2.1 ∧ (q.name, v) ∈ (assignParams qs t k).2.1))
      ps qs := by
  induction ps generalizing qs s t k with
  | nil =>
    cases qs with
    | nil => exact .nil
    | cons q qs => cases hq : q.kind.isSeparator <;> simp [assignParams, hq] at h
  | cons p ps ih =>
    cases qs with
    | nil => cases hp : p.kind.isSeparator <;> simp [assignParams, hp] at h
    | cons q qs =>
      have hkind : p.kind = q.kind := (assignParams_cons_inj h).1
      cases hsep : q.kind.isSeparator with
      | true =>
        rw [assignParams_separator (hkind ▸ hsep), assignParams_separator hsep] at h ⊢
        refine .cons ⟨hkind, fun hp => ?_⟩ (ih (List.cons.inj h).2)
        rw [hkind, hsep] at hp
        cases hp
      | false =>
        rw [assignParams_binding (hkind ▸ hsep), assignParams_binding hsep] at h ⊢
        refine .cons ⟨hkind, fun _ => ⟨placeholder k, ?_, ?_⟩⟩ (ih (List.cons.inj h).2)
        · exact mem_assignParams ps List.mem_cons_self
        · exact mem_assignParams qs List.mem_cons_self

theorem boundNames_exprParams (S : Scopes) (ps : List Param) (k : Nat) :
    Param.boundNames (exprParams S ps k).1 = Param.boundNames ps := by
  have hshape (ps : List Param) : Param.boundNames ps =
      ((ps.map fun p => (p.name, p.kind)).filter (!·.2.isSeparator)).map Prod.fst := by
    simp [Param.boundNames, List.filter_map, Function.comp_def]
  rw [hshape, exprParams_shape, ← hshape]

/-- `Param.Paired` looks at names and kinds only, which normalization of defaults leaves alone. -/
theorem paired_exprParams {S T : Scopes} {ps qs : List Param} {r : Rib}
    (h : List.Forall₂ (Param.Paired r) (exprParams S ps k).1 (exprParams T qs j).1) :
    List.Forall₂ (Param.Paired r) ps qs := by
  have hshape (ps qs : List Param) : List.Forall₂ (Param.Paired r) ps qs ↔
      List.Forall₂ (fun x y : String × ParamKind =>
        x.2 = y.2 ∧ (x.2.isSeparator = false → (x.1, y.1) ∈ r))
        (ps.map fun p => (p.name, p.kind)) (qs.map fun q => (q.name, q.kind)) := by
    rw [List.forall₂_map_left_iff, List.forall₂_map_right_iff]
    rfl
  rw [hshape, exprParams_shape, exprParams_shape, ← hshape] at h
  exact h

/-! ## The two normalizations are in step -/

/-- What has the same normal form takes the same number of placeholders. -/
theorem eq_of_settled {α : Type} {F : Scopes → α → StateM Nat α} {S T : Scopes} {x y : α}
    (hx : F S.settle (F S x k).1 k = F S x k) (hy : F T.settle (F T y k).1 k = F T y k)
    (hS : S.settle = T.settle) (h : (F S x k).1 = (F T y k).1) : F S x k = F T y k :=
  calc F S x k = F S.settle (F S x k).1 k := hx.symm
    _ = F T.settle (F T y k).1 k := by rw [hS, h]
    _ = F T y k := hy

section InStep

variable {locals : List String} {A B : Sight} {S T : Scopes}

theorem expr_inStep {e e' : Expr} (hS : S.settle = T.settle) (h : (expr S e k).1 = (expr T e' k).1) :
    expr S e k = expr T e' k :=
  eq_of_settled (expr_settle e S k) (expr_settle e' T k) hS h

theorem exprOption_inStep {o o' : Option Expr} (hS : S.settle = T.settle)
    (h : (exprOption S o k).1 = (exprOption T o' k).1) : exprOption S o k = exprOption T o' k :=
  eq_of_settled (exprOption_settle o S k) (exprOption_settle o' T k) hS h

theorem exprList_inStep {es es' : List Expr} (hS : S.settle = T.settle)
    (h : (exprList S es k).1 = (exprList T es' k).1) : exprList S es k = exprList T es' k :=
  eq_of_settled (exprList_settle es S k) (exprList_settle es' T k) hS h

theorem exprClauses_inStep {cs cs' : List Clause} (hS : S.settle = T.settle)
    (h : (exprClauses S cs k).1 = (exprClauses T cs' k).1) : exprClauses S cs k = exprClauses T cs' k :=
  eq_of_settled (exprClauses_settle cs S k) (exprClauses_settle cs' T k) hS h

/-- The defaults of parameters with the same normal form take the same number of placeholders. -/
theorem exprParams_inStep {ps qs : List Param} {i i' : Nat} (hS : S.settle = T.settle)
    (h : (assignParams (exprParams S ps k).1 [] i).1 = (assignParams (exprParams T qs k).1 [] i').1) :
    (exprParams S ps k).2 = (exprParams T qs k).2 := by
  have hleft := exprParams_assignParams S.settle (exprParams S ps k).1 [] i k
  have hright := exprParams_assignParams T.settle (exprParams T qs k).1 [] i' k
  rw [exprParams_settle] at hleft hright
  rw [hS, h] at hleft
  exact (Prod.mk.inj (hleft.symm.trans hright)).2

/-- The scopes of two lambdas with the same normal form. -/
theorem opening_params {ps qs : List Param} (h : (assignParams ps [] k).1 = (assignParams qs [] k).1)
    (hps : (Param.boundNames ps).Nodup) (hqs : (Param.boundNames qs).Nodup)
    (ho : A.opens locals (Param.boundNames ps) = true)
    (ho' : B.opens locals (Param.boundNames qs) = true) :
    (assignParams ps [] k).2.2 = (assignParams qs [] k).2.2 ∧
    Opening locals A B (Param.boundNames ps) (Param.boundNames qs) k (assignParams ps [] k).2.2
      (assignParams ps [] k).2.1 (assignParams qs [] k).2.1 := by
  have hsettle := (assignParams_settle ps [] k).symm.trans (h ▸ assignParams_settle qs [] k)
  simp only [Prod.mk.injEq] at hsettle
  obtain ⟨hbetween, hle⟩ := assignParams_between ps (Placeholders.between_nil k k) (Nat.le_refl k)
  have hbinds (ps : List Param) (n : String) :
      ((assignParams ps [] k).2.1.lookup n).isSome = true ↔ n ∈ Param.boundNames ps := by
    rw [← mem_map_fst_iff, map_fst_assignParams]
    simp
  have hnodup {ps : List Param} (h : (Param.boundNames ps).Nodup) :
      ((assignParams ps [] k).2.1.map Prod.fst).Nodup := by
    rw [map_fst_assignParams]
    simpa using h
  exact ⟨hsettle.2.2, hsettle.2.1, hbetween, hle, hnodup hps, hnodup hqs, hbinds ps, hbinds qs, ho, ho'⟩

/-- Parameters with the same normal form are paired by the scopes that bind them. -/
theorem paired_of_opening {own own' : List String} {ps qs : List Param} {i : Nat}
    (ho : Opening locals A B own own' k j s t)
    (h : (assignParams ps [] i).1 = (assignParams qs [] i).1)
    (hs : ∀ p ∈ (assignParams ps [] i).2.1, p ∈ s) (ht : ∀ p ∈ (assignParams qs [] i).2.1, p ∈ t) :
    List.Forall₂ (Param.Paired (s.rib t)) ps qs := by
  refine (paired_assignParams h).imp ?_
  rintro p q ⟨hkind, hname⟩
  refine ⟨hkind, fun hsep => ?_⟩
  obtain ⟨v, hp, hq⟩ := hname hsep
  exact Placeholders.mem_rib ho.settle ho.between.nodup (hs _ hp) (ht _ hq)

/-- The scopes of two comprehensions with the same normal form; `ns` and `ns'` are the names that their
targets bind. -/
theorem opening_names {ns ns' : List String} {a a' : Placeholders × Nat}
    (ha : assign (Names.append [] ns) k = a) (ha' : assign (Names.append [] ns') k = a')
    (h : ns.map (Scopes.rename (a.1 :: S)) = ns'.map (Scopes.rename (a'.1 :: T)))
    (ho : A.opens locals (Names.append [] ns) = true)
    (ho' : B.opens locals (Names.append [] ns') = true) :
    a.2 = a'.2 ∧
    Opening locals A B (Names.append [] ns) (Names.append [] ns') k a.2 a.1 a'.1 := by
  have hsettle := (assign_settle ha S).symm.trans (h ▸ assign_settle ha' T)
  rw [Prod.mk.injEq] at hsettle
  subst ha ha'
  have hassign (ns : List String) : assign (Names.append [] ns) k = assignLocals [] ns [] k :=
    assign_names [] ns k
  obtain ⟨hbetween, hle⟩ := assignLocals_between [] ns (Placeholders.between_nil k k) (Nat.le_refl k)
  have hnodup (ns : List String) : ((assign (Names.append [] ns) k).1.map Prod.fst).Nodup := by
    rw [hassign]
    exact nodup_assignLocals [] ns List.nodup_nil
  rw [← hassign] at hbetween hle
  exact ⟨hsettle.2, hsettle.1, hbetween, hle, hnodup ns, hnodup ns', fun n => lookup_assign _ n k,
    fun n => lookup_assign _ n k, ho, ho'⟩

end InStep

end Normal

end Concord
