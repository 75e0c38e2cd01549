import Concord.Proofs.Tree.InStep

/-!
# Equal normal forms

Two tidy modules with the same normal form, whose functions have the same names, are alike up to the
names of local variables. The proof goes through both trees at once, one statement for each kind of
part; where a scope is opened, the scopes of the two normalizations become the ribs of the trees.

Main statement: `Module.alike_of_normalize_eq`.
-/

namespace Concord

namespace Normal

variable {k : Nat}

/-! ## Expressions -/

section Expressions

variable {locals : List String} {ρ : Ribs} {A B : Sight} {S T : Scopes}

/-- Normalization keeps the kind of an expression. -/
theorem ctorIdx_expr (e : Expr) (S : Scopes) (k : Nat) : (expr S e k).1.ctorIdx = e.ctorIdx := by
  cases e with
  | comp kind e v cs => cases cs <;> rfl
  | _ => rfl

theorem ctorIdx_eq {e e' : Expr} (h : (expr S e k).1 = (expr T e' k).1) : e.ctorIdx = e'.ctorIdx := by
  rw [← ctorIdx_expr e S k, h, ctorIdx_expr]

mutual

/-- Tidy expressions with the same normal form are alike. -/
theorem expr_alike {ρ : Ribs} {A B : Sight} {S T : Scopes} {k : Nat} (h : Mates locals ρ A B S T k) :
    (e e' : Expr) → e.isTidy locals A = true → e'.isTidy locals B = true →
    (expr S e k).1 = (expr T e' k).1 → e.Alike locals ρ e'
  | .name a, e', ht, ht', he => by
    have hc := ctorIdx_eq he
    cases e' with
    | name b => exact .name (h.tied ht ht' (Expr.name.inj he))
    | _ => exact nomatch hc
  | .int v, e', ht, ht', he => by
    have hc := ctorIdx_eq he
    cases e' with
    | int w =>
      cases he
      exact .int ρ v
    | _ => exact nomatch hc
  | .float v, e', ht, ht', he => by
    have hc := ctorIdx_eq he
    cases e' with
    | float w =>
      cases he
      exact .float ρ v
    | _ => exact nomatch hc
  | .str v, e', ht, ht', he => by
    have hc := ctorIdx_eq he
    cases e' with
    | str w =>
      cases he
      exact .str ρ v
    | _ => exact nomatch hc
  | .bool v, e', ht, ht', he => by
    have hc := ctorIdx_eq he
    cases e' with
    | bool w =>
      cases he
      exact .bool ρ v
    | _ => exact nomatch hc
  | .verbatim v, e', ht, ht', he => by
    have hc := ctorIdx_eq he
    cases e' with
    | verbatim w =>
      cases he
      exact .verbatim ρ v
    | _ => exact nomatch hc
  | .none, e', ht, ht', he => by
    have hc := ctorIdx_eq he
    cases e' with
    | none => exact .none ρ
    | _ => exact nomatch hc
  | .bin op l r, e', ht, ht', he => by
    have hc := ctorIdx_eq he
    cases e' with
    | bin op' l' r' =>
      simp only [expr, bind_apply, pure_apply, Expr.bin.injEq] at he
      simp only [Expr.isTidy, Bool.and_eq_true] at ht ht'
      obtain ⟨rfl, hl, hr⟩ := he
      rw [← expr_inStep h.settle hl] at hr
      exact .bin (expr_alike h l l' ht.1 ht'.1 hl)
        (expr_alike (h.mono (le_expr l S k)) r r' ht.2 ht'.2 hr)
    | _ => exact nomatch hc
  | .unary op e, e', ht, ht', he => by
    have hc := ctorIdx_eq he
    cases e' with
    | unary op' e' =>
      simp only [expr, bind_apply, pure_apply, Expr.unary.injEq] at he
      obtain ⟨rfl, he⟩ := he
      exact .unary (expr_alike h e e' ht ht' he)
    | _ => exact nomatch hc
  | .logic op l r, e', ht, ht', he => by
    have hc := ctorIdx_eq he
    cases e' with
    | logic op' l' r' =>
      simp only [expr, bind_apply, pure_apply, Expr.logic.injEq] at he
      simp only [Expr.isTidy, Bool.and_eq_true] at ht ht'
      obtain ⟨rfl, hl, hr⟩ := he
      rw [← expr_inStep h.settle hl] at hr
      exact .logic (expr_alike h l l' ht.1 ht'.1 hl)
        (expr_alike (h.mono (le_expr l S k)) r r' ht.2 ht'.2 hr)
    | _ => exact nomatch hc
  | .compare l links, e', ht, ht', he => by
    have hc := ctorIdx_eq he
    cases e' with
    | compare l' links' =>
      simp only [expr, bind_apply, pure_apply, Expr.compare.injEq] at he
      simp only [Expr.isTidy, Bool.and_eq_true] at ht ht'
      obtain ⟨hl, hlinks⟩ := he
      rw [← expr_inStep h.settle hl] at hlinks
      exact .compare (expr_alike h l l' ht.1 ht'.1 hl)
        (exprLinks_alike (h.mono (le_expr l S k)) links links' ht.2 ht'.2 hlinks)
    | _ => exact nomatch hc
  | .call f args, e', ht, ht', he => by
    have hc := ctorIdx_eq he
    cases e' with
    | call f' args' =>
      simp only [expr, bind_apply, pure_apply, Expr.call.injEq] at he
      simp only [Expr.isTidy, Bool.and_eq_true] at ht ht'
      obtain ⟨hf, hargs⟩ := he
      rw [← expr_inStep h.settle hf] at hargs
      exact .call (expr_alike h f f' ht.1 ht'.1 hf)
        (exprArgs_alike (h.mono (le_expr f S k)) args args' ht.2 ht'.2 hargs)
    | _ => exact nomatch hc
  | .attribute e attr, e', ht, ht', he => by
    have hc := ctorIdx_eq he
    cases e' with
    | «attribute» e' attr' =>
      simp only [expr, bind_apply, pure_apply, Expr.attribute.injEq] at he
      obtain ⟨he, rfl⟩ := he
      exact .attribute (expr_alike h e e' ht ht' he)
    | _ => exact nomatch hc
  | .subscript e i, e', ht, ht', he => by
    have hc := ctorIdx_eq he
    cases e' with
    | subscript e' i' =>
      simp only [expr, bind_apply, pure_apply, Expr.subscript.injEq] at he
      simp only [Expr.isTidy, Bool.and_eq_true] at ht ht'
      obtain ⟨he, hi⟩ := he
      rw [← expr_inStep h.settle he] at hi
      exact .subscript (expr_alike h e e' ht.1 ht'.1 he)
        (expr_alike (h.mono (le_expr e S k)) i i' ht.2 ht'.2 hi)
    | _ => exact nomatch hc
  | .slice l u s, e', ht, ht', he => by
    have hc := ctorIdx_eq he
    cases e' with
    | slice l' u' s' =>
      simp only [expr, bind_apply, pure_apply, Expr.slice.injEq] at he
      simp only [Expr.isTidy, Bool.and_eq_true] at ht ht'
      obtain ⟨hl, hu, hs⟩ := he
      rw [← exprOption_inStep h.settle hl] at hu hs
      rw [← exprOption_inStep h.settle hu] at hs
      have h' := h.mono (le_exprOption l S k)
      exact .slice (exprOption_alike h l l' ht.1 ht'.1 hl)
        (exprOption_alike h' u u' ht.2.1 ht'.2.1 hu)
        (exprOption_alike (h'.mono (le_exprOption u S _)) s s' ht.2.2 ht'.2.2 hs)
    | _ => exact nomatch hc
  | .list es, e', ht, ht', he => by
    have hc := ctorIdx_eq he
    cases e' with
    | list es' => exact .list (exprList_alike h es es' ht ht' (Expr.list.inj he))
    | _ => exact nomatch hc
  | .tuple es, e', ht, ht', he => by
    have hc := ctorIdx_eq he
    cases e' with
    | tuple es' => exact .tuple (exprList_alike h es es' ht ht' (Expr.tuple.inj he))
    | _ => exact nomatch hc
  | .set es, e', ht, ht', he => by
    have hc := ctorIdx_eq he
    cases e' with
    | set es' => exact .set (exprList_alike h es es' ht ht' (Expr.set.inj he))
    | _ => exact nomatch hc
  | .dict es, e', ht, ht', he => by
    have hc := ctorIdx_eq he
    cases e' with
    | dict es' => exact .dict (exprEntries_alike h es es' ht ht' (Expr.dict.inj he))
    | _ => exact nomatch hc
  | .ifExp t a b, e', ht, ht', he => by
    have hc := ctorIdx_eq he
    cases e' with
    | ifExp t' a' b' =>
      simp only [expr, bind_apply, pure_apply, Expr.ifExp.injEq] at he
      simp only [Expr.isTidy, Bool.and_eq_true] at ht ht'
      obtain ⟨ht₁, ha, hb⟩ := he
      rw [← expr_inStep h.settle ht₁] at ha hb
      rw [← expr_inStep h.settle ha] at hb
      have h' := h.mono (le_expr t S k)
      exact .ifExp (expr_alike h t t' ht.1 ht'.1 ht₁) (expr_alike h' a a' ht.2.1 ht'.2.1 ha)
        (expr_alike (h'.mono (le_expr a S _)) b b' ht.2.2 ht'.2.2 hb)
    | _ => exact nomatch hc
  | .starred e, e', ht, ht', he => by
    have hc := ctorIdx_eq he
    cases e' with
    | starred e' => exact .starred (expr_alike h e e' ht ht' (Expr.starred.inj he))
    | _ => exact nomatch hc
  | .lambda ps b, e', ht, ht', he => by
    have hc := ctorIdx_eq he
    cases e' with
    | lambda qs c =>
      rw [expr_lambda, expr_lambda, Expr.lambda.injEq] at he
      simp only [Expr.isTidy, Bool.and_eq_true, decide_eq_true_eq] at ht ht'
      obtain ⟨hnodup, hopens, htps, htb⟩ := ht
      obtain ⟨hnodup', hopens', htqs, htc⟩ := ht'
      obtain ⟨hps, hb⟩ := he
      have hdefaults := exprParams_alike h ps qs htps htqs hps
      rw [← exprParams_inStep h.settle hps] at hps hb
      rw [← boundNames_exprParams S ps k] at hnodup hopens htb
      rw [← boundNames_exprParams T qs k] at hnodup' hopens' htc
      obtain ⟨hcount, ho⟩ := opening_params hps hnodup hnodup' hopens hopens'
      rw [← hcount] at hb
      have hmates := (h.mono (le_exprParams ps S k)).enter ho
      have hpaired := paired_of_opening ho hps (fun _ hp => hp) fun _ hq => hq
      exact .lambda hdefaults hmates.proper (paired_exprParams hpaired)
        (expr_alike hmates b c htb htc hb)
    | _ => exact nomatch hc
  | .comp kind e v [], e', ht, ht', he => by cases ht
  | .comp kind e v (⟨t, i, ifs⟩ :: cs), e', ht, ht', he => by
    have hc := ctorIdx_eq he
    cases e' with
    | comp kind' e' v' cs' =>
      cases cs' with
      | nil => cases ht'
      | cons c' cs' =>
        obtain ⟨t', i', ifs'⟩ := c'
        rw [expr_comp, expr_comp] at he
        simp only [Expr.comp.injEq, List.cons.injEq, ClauseOf.mk.injEq] at he
        obtain ⟨rfl, he, hv, ⟨ht₁, hi, hifs⟩, hcs⟩ := he
        simp only [Expr.isTidy, Bool.and_eq_true] at ht ht'
        obtain ⟨hopens, hti, htt, htifs, htcs, hte, htv⟩ := ht
        obtain ⟨hopens', hti', htt', htifs', htcs', hte', htv'⟩ := ht'
        rw [← expr_inStep h.settle hi] at he hv ht₁ hifs hcs
        generalize ha : assign (Names.append [] (t.targetNames ++ _)) (expr S i k).2 = a
          at he hv ht₁ hifs hcs
        generalize ha' : assign (Names.append [] (t'.targetNames ++ _)) (expr S i k).2 = a'
          at he hv ht₁ hifs hcs
        have hnames := congrArg Expr.targetNames ht₁
        rw [targetNames_expr, targetNames_expr] at hnames
        have hmore := congrArg (List.flatMap fun c : Clause => c.target.targetNames) hcs
        rw [targetNamesClauses_expr, targetNamesClauses_expr] at hmore
        obtain ⟨hcount, ho⟩ := opening_names ha ha'
          (by rw [List.map_append, List.map_append, hnames, hmore]) hopens hopens'
        have hmates := (h.mono (le_expr i S k)).enter ho
        rw [← hcount] at he hv ht₁ hifs hcs
        rw [← expr_inStep hmates.settle ht₁] at he hv hifs hcs
        rw [← exprList_inStep hmates.settle hifs] at he hv hcs
        rw [← exprClauses_inStep hmates.settle hcs] at he hv
        rw [← expr_inStep hmates.settle he] at hv
        have h₁ := hmates.mono (le_expr t (a.1 :: S) _)
        have h₂ := h₁.mono (le_exprList ifs (a.1 :: S) _)
        have h₃ := h₂.mono (le_exprClauses cs (a.1 :: S) _)
        have h₄ := h₃.mono (le_expr e (a.1 :: S) _)
        -- The first iterable is read outside, but it is evaluated inside.
        have hiter := expr_alike (h.avoid ho) i i' hti hti' hi
        have hclauses := Expr.AlikeClauses.cons hiter (expr_alike hmates t t' htt htt' ht₁)
          (exprList_alike h₁ ifs ifs' htifs htifs' hifs)
          (exprClauses_alike h₂ cs cs' htcs htcs' hcs)
        exact .comp hmates.proper hclauses (expr_alike h₃ e e' hte hte' he)
          (exprOption_alike h₄ v v' htv htv' hv)
    | _ => exact nomatch hc
termination_by structural x => x

theorem exprOption_alike {ρ : Ribs} {A B : Sight} {S T : Scopes} {k : Nat}
    (h : Mates locals ρ A B S T k) :
    (o o' : Option Expr) → Expr.tidyOption locals A o = true → Expr.tidyOption locals B o' = true →
    (exprOption S o k).1 = (exprOption T o' k).1 → Expr.AlikeOption locals ρ o o'
  | none, none, _, _, _ => .none ρ
  | none, some _, _, _, he => by cases he
  | some _, none, _, _, he => by cases he
  | some e, some e', ht, ht', he => .some (expr_alike h e e' ht ht' (Option.some.inj he))
termination_by structural x => x

theorem exprList_alike {ρ : Ribs} {A B : Sight} {S T : Scopes} {k : Nat}
    (h : Mates locals ρ A B S T k) :
    (es es' : List Expr) → Expr.tidyList locals A es = true → Expr.tidyList locals B es' = true →
    (exprList S es k).1 = (exprList T es' k).1 → Expr.AlikeList locals ρ es es'
  | [], [], _, _, _ => .nil ρ
  | [], _ :: _, _, _, he => by cases he
  | _ :: _, [], _, _, he => by cases he
  | e :: es, e' :: es', ht, ht', he => by
    simp only [exprList, bind_apply, pure_apply, List.cons.injEq] at he
    simp only [Expr.tidyList, Bool.and_eq_true] at ht ht'
    obtain ⟨he, hes⟩ := he
    rw [← expr_inStep h.settle he] at hes
    exact .cons (expr_alike h e e' ht.1 ht'.1 he)
      (exprList_alike (h.mono (le_expr e S k)) es es' ht.2 ht'.2 hes)
termination_by structural x => x

theorem exprLinks_alike {ρ : Ribs} {A B : Sight} {S T : Scopes} {k : Nat}
    (h : Mates locals ρ A B S T k) :
    (ls ls' : List (CmpOp × Expr)) → Expr.tidyLinks locals A ls = true →
    Expr.tidyLinks locals B ls' = true → (exprLinks S ls k).1 = (exprLinks T ls' k).1 →
    Expr.AlikeLinks locals ρ ls ls'
  | [], [], _, _, _ => .nil ρ
  | [], (_, _) :: _, _, _, he => by cases he
  | (_, _) :: _, [], _, _, he => by cases he
  | (op, e) :: ls, (op', e') :: ls', ht, ht', he => by
    simp only [exprLinks, bind_apply, pure_apply, List.cons.injEq, Prod.mk.injEq] at he
    simp only [Expr.tidyLinks, Bool.and_eq_true] at ht ht'
    obtain ⟨⟨rfl, he⟩, hls⟩ := he
    rw [← expr_inStep h.settle he] at hls
    exact .cons (expr_alike h e e' ht.1 ht'.1 he)
      (exprLinks_alike (h.mono (le_expr e S k)) ls ls' ht.2 ht'.2 hls)
termination_by structural x => x

theorem exprArgs_alike {ρ : Ribs} {A B : Sight} {S T : Scopes} {k : Nat}
    (h : Mates locals ρ A B S T k) :
    (as as' : List Arg) → Expr.tidyArgs locals A as = true → Expr.tidyArgs locals B as' = true →
    (exprArgs S as k).1 = (exprArgs T as' k).1 → Expr.AlikeArgs locals ρ as as'
  | [], [], _, _, _ => .nil ρ
  | [], a :: _, _, _, he => by cases a <;> cases he
  | a :: _, [], _, _, he => by cases a <;> cases he
  | .positional e :: as, a' :: as', ht, ht', he => by
    cases a' with
    | positional e' =>
      simp only [exprArgs, bind_apply, pure_apply, List.cons.injEq, ArgOf.positional.injEq] at he
      simp only [Expr.tidyArgs, Bool.and_eq_true] at ht ht'
      obtain ⟨he, has⟩ := he
      rw [← expr_inStep h.settle he] at has
      exact .positional (expr_alike h e e' ht.1 ht'.1 he)
        (exprArgs_alike (h.mono (le_expr e S k)) as as' ht.2 ht'.2 has)
    | _ => cases he
  | .keyword n e :: as, a' :: as', ht, ht', he => by
    cases a' with
    | keyword n' e' =>
      simp only [exprArgs, bind_apply, pure_apply, List.cons.injEq, ArgOf.keyword.injEq] at he
      simp only [Expr.tidyArgs, Bool.and_eq_true] at ht ht'
      obtain ⟨⟨rfl, he⟩, has⟩ := he
      rw [← expr_inStep h.settle he] at has
      exact .keyword (by simpa using ht.1) (expr_alike h e e' ht.2.1 ht'.2.1 he)
        (exprArgs_alike (h.mono (le_expr e S k)) as as' ht.2.2 ht'.2.2 has)
    | _ => cases he
  | .star e :: as, a' :: as', ht, ht', he => by
    cases a' with
    | star e' =>
      simp only [exprArgs, bind_apply, pure_apply, List.cons.injEq, ArgOf.star.injEq] at he
      simp only [Expr.tidyArgs, Bool.and_eq_true] at ht ht'
      obtain ⟨he, has⟩ := he
      rw [← expr_inStep h.settle he] at has
      exact .star (expr_alike h e e' ht.1 ht'.1 he)
        (exprArgs_alike (h.mono (le_expr e S k)) as as' ht.2 ht'.2 has)
    | _ => cases he
  | .doubleStar e :: as, a' :: as', ht, ht', he => by
    cases a' with
    | doubleStar e' =>
      simp only [exprArgs, bind_apply, pure_apply, List.cons.injEq, ArgOf.doubleStar.injEq] at he
      simp only [Expr.tidyArgs, Bool.and_eq_true] at ht ht'
      obtain ⟨he, has⟩ := he
      rw [← expr_inStep h.settle he] at has
      exact .doubleStar (expr_alike h e e' ht.1 ht'.1 he)
        (exprArgs_alike (h.mono (le_expr e S k)) as as' ht.2 ht'.2 has)
    | _ => cases he
termination_by structural x => x

theorem exprEntries_alike {ρ : Ribs} {A B : Sight} {S T : Scopes} {k : Nat}
    (h : Mates locals ρ A B S T k) :
    (es es' : List (Expr × Expr)) → Expr.tidyEntries locals A es = true →
    Expr.tidyEntries locals B es' = true → (exprEntries S es k).1 = (exprEntries T es' k).1 →
    Expr.AlikeEntries locals ρ es es'
  | [], [], _, _, _ => .nil ρ
  | [], (_, _) :: _, _, _, he => by cases he
  | (_, _) :: _, [], _, _, he => by cases he
  | (x, v) :: es, (x', v') :: es', ht, ht', he => by
    simp only [exprEntries, bind_apply, pure_apply, List.cons.injEq, Prod.mk.injEq] at he
    simp only [Expr.tidyEntries, Bool.and_eq_true] at ht ht'
    obtain ⟨⟨hx, hv⟩, hes⟩ := he
    rw [← expr_inStep h.settle hx] at hv hes
    rw [← expr_inStep h.settle hv] at hes
    have h' := h.mono (le_expr x S k)
    exact .cons (expr_alike h x x' ht.1 ht'.1 hx) (expr_alike h' v v' ht.2.1 ht'.2.1 hv)
      (exprEntries_alike (h'.mono (le_expr v S _)) es es' ht.2.2 ht'.2.2 hes)
termination_by structural x => x

theorem exprClauses_alike {ρ : Ribs} {A B : Sight} {S T : Scopes} {k : Nat}
    (h : Mates locals ρ A B S T k) :
    (cs cs' : List Clause) → Expr.tidyClauses locals A cs = true →
    Expr.tidyClauses locals B cs' = true → (exprClauses S cs k).1 = (exprClauses T cs' k).1 →
    Expr.AlikeClauses locals ρ cs cs'
  | [], [], _, _, _ => .nil ρ
  | [], ⟨_, _, _⟩ :: _, _, _, he => by cases he
  | ⟨_, _, _⟩ :: _, [], _, _, he => by cases he
  | ⟨t, i, ifs⟩ :: cs, ⟨t', i', ifs'⟩ :: cs', ht, ht', he => by
    simp only [exprClauses, bind_apply, pure_apply, List.cons.injEq, ClauseOf.mk.injEq] at he
    simp only [Expr.tidyClauses, Bool.and_eq_true] at ht ht'
    obtain ⟨⟨ht₁, hi, hifs⟩, hcs⟩ := he
    rw [← expr_inStep h.settle hi] at ht₁ hifs hcs
    rw [← expr_inStep h.settle ht₁] at hifs hcs
    rw [← exprList_inStep h.settle hifs] at hcs
    have h₁ := h.mono (le_expr i S k)
    have h₂ := h₁.mono (le_expr t S _)
    exact .cons (expr_alike h i i' ht.1 ht'.1 hi) (expr_alike h₁ t t' ht.2.1 ht'.2.1 ht₁)
      (exprList_alike h₂ ifs ifs' ht.2.2.1 ht'.2.2.1 hifs)
      (exprClauses_alike (h₂.mono (le_exprList ifs S _)) cs cs' ht.2.2.2 ht'.2.2.2 hcs)
termination_by structural x => x

theorem exprParams_alike {ρ : Ribs} {A B : Sight} {S T : Scopes} {k i i' : Nat} {s t : Placeholders}
    (h : Mates locals ρ A B S T k) :
    (ps qs : List Param) → Expr.tidyParams locals A ps = true → Expr.tidyParams locals B qs = true →
    (assignParams (exprParams S ps k).1 s i).1 = (assignParams (exprParams T qs k).1 t i').1 →
    Expr.AlikeParams locals ρ ps qs
  | [], [], _, _, _ => .nil ρ
  | [], ⟨_, kind, _, _⟩ :: _, _, _, he => by
    simp only [exprParams, bind_apply, pure_apply] at he
    cases hsep : kind.isSeparator <;> simp [assignParams, hsep] at he
  | ⟨_, kind, _, _⟩ :: _, [], _, _, he => by
    simp only [exprParams, bind_apply, pure_apply] at he
    cases hsep : kind.isSeparator <;> simp [assignParams, hsep] at he
  | ⟨n, kind, d, note⟩ :: ps, ⟨n', kind', d', note'⟩ :: qs, ht, ht', he => by
    simp only [exprParams, bind_apply, pure_apply] at he
    simp only [Expr.tidyParams, Bool.and_eq_true] at ht ht'
    obtain ⟨-, hd, _, _, _, _, hps⟩ := assignParams_cons_inj he
    have hd : (exprOption S d k).1 = (exprOption T d' k).1 := hd
    rw [← exprOption_inStep h.settle hd] at hps
    exact .cons (exprOption_alike h d d' ht.1 ht'.1 hd)
      (exprParams_alike (h.mono (le_exprOption d S k)) ps qs ht.2 ht'.2 hps)
termination_by structural x => x

end

end Expressions

/-! ## Statements -/

variable {locals : List String} {ρ : Ribs} {A B : Sight} {S T : Scopes} {k : Nat}

/-- The scopes of two functions with the same normal form. -/
theorem opening_function {f g : Function} {i i' : Nat} {s t : List Param × Placeholders × Nat}
    (hs : functionScope (exprParams S f.params i).1 f.body k = s)
    (ht : functionScope (exprParams T g.params i').1 g.body k = t)
    (h : Mates locals ρ A B S T k)
    (hf : ∀ d ∈ Stmt.declarationsList f.body, d.isSound A.around (Stmt.boundList false f.body) = true)
    (hg : ∀ d ∈ Stmt.declarationsList g.body, d.isSound B.around (Stmt.boundList false g.body) = true)
    (hparams : s.1 = t.1)
    (hbody : (stmtList (s.2.1 :: S) f.body s.2.2).1 = (stmtList (t.2.1 :: T) g.body t.2.2).1)
    (hfn : (Param.boundNames f.params).Nodup) (hgn : (Param.boundNames g.params).Nodup)
    (ho : A.opens locals f.localNames = true) (ho' : B.opens locals g.localNames = true) :
    s.2.2 = t.2.2 ∧
    Opening locals A B f.localNames g.localNames k s.2.2 s.2.1 t.2.1 := by
  have hsettle := functionScope_settle h.left hf hs
  rw [hparams, hbody, functionScope_settle h.right hg ht] at hsettle
  simp only [Prod.mk.injEq] at hsettle
  have hnodup {ps : List Param} (body : Block) (h : (Param.boundNames ps).Nodup) :
      ((functionScope ps body k).2.1.map Prod.fst).Nodup := by
    refine nodup_assignLocals _ _ ?_
    rw [map_fst_assignParams]
    simpa using h
  obtain ⟨hbetween, hle⟩ := assignParams_between (exprParams S f.params i).1
    (Placeholders.between_nil k k) (Nat.le_refl k)
  obtain ⟨hbetween, hle⟩ := assignLocals_between (Block.declaredOuter f.body)
    (Block.boundNames false f.body) hbetween hle
  rw [← boundNames_exprParams S f.params i] at hfn
  rw [← boundNames_exprParams T g.params i'] at hgn
  subst hs ht
  exact ⟨hsettle.2.2.symm, hsettle.2.1.symm, hbetween, hle, hnodup f.body hfn, hnodup g.body hgn,
    functionScope_isSome f S i k, functionScope_isSome g T i' k, ho, ho'⟩

theorem ctorIdx_stmt (s : Stmt) (S : Scopes) (k : Nat) : (stmt S s k).1.ctorIdx = s.ctorIdx := by
  cases s with
  | define f =>
    obtain ⟨name, params, body, decorators, returns, isAsync⟩ := f
    rfl
  | _ => rfl

theorem ctorIdx_eq_of_stmt {s s' : Stmt} (h : (stmt S s k).1 = (stmt T s' k).1) :
    s.ctorIdx = s'.ctorIdx := by
  rw [← ctorIdx_stmt s S k, h, ctorIdx_stmt]

section InStep

variable {outer outer' : List String} (h : Mates locals ρ A B S T k)
include h

theorem stmt_inStep {s s' : Stmt} (ht : s.isTidy locals outer A = true)
    (ht' : s'.isTidy locals outer' B = true)
    (hb : ∀ n ∈ Stmt.bound false s, n ∈ A.around ∨ isReserved n = false)
    (hb' : ∀ n ∈ Stmt.bound false s', n ∈ B.around ∨ isReserved n = false)
    (he : (stmt S s k).1 = (stmt T s' k).1) : stmt S s k = stmt T s' k :=
  eq_of_settled
    (stmt_settle s A.around (Stmt.wellDeclared_of_tidy h.leftLocal s ht) hb S k h.left)
    (stmt_settle s' B.around (Stmt.wellDeclared_of_tidy h.rightLocal s' ht') hb' T k h.right)
    h.settle he

theorem stmtList_inStep {b b' : List Stmt} (ht : Stmt.tidyList locals outer A b = true)
    (ht' : Stmt.tidyList locals outer' B b' = true)
    (hb : ∀ n ∈ Stmt.boundList false b, n ∈ A.around ∨ isReserved n = false)
    (hb' : ∀ n ∈ Stmt.boundList false b', n ∈ B.around ∨ isReserved n = false)
    (he : (stmtList S b k).1 = (stmtList T b' k).1) : stmtList S b k = stmtList T b' k :=
  eq_of_settled
    (stmtList_settle b A.around (Stmt.wellDeclaredList_of_tidy h.leftLocal b ht) hb S k h.left)
    (stmtList_settle b' B.around (Stmt.wellDeclaredList_of_tidy h.rightLocal b' ht') hb' T k h.right)
    h.settle he

theorem stmtHandlers_inStep {hs hs' : List (HandlerOf Stmt)}
    (ht : Stmt.tidyHandlers locals outer A hs = true)
    (ht' : Stmt.tidyHandlers locals outer' B hs' = true)
    (hb : ∀ n ∈ Stmt.boundHandlers false hs, n ∈ A.around ∨ isReserved n = false)
    (hb' : ∀ n ∈ Stmt.boundHandlers false hs', n ∈ B.around ∨ isReserved n = false)
    (he : (stmtHandlers S hs k).1 = (stmtHandlers T hs' k).1) :
    stmtHandlers S hs k = stmtHandlers T hs' k :=
  eq_of_settled
    (stmtHandlers_settle hs A.around (Stmt.wellDeclaredHandlers_of_tidy h.leftLocal hs ht) hb S k
      h.left)
    (stmtHandlers_settle hs' B.around (Stmt.wellDeclaredHandlers_of_tidy h.rightLocal hs' ht') hb' T k
      h.right)
    h.settle he

end InStep

/-- The names of the functions around are visible and not bound by the innermost scope. -/
structure Nested (ρ : Ribs) (outer outer' : List String) (A B : Sight) : Prop where
  left : ∀ n ∈ outer, n ∈ A.around
  right : ∀ n ∈ outer', n ∈ B.around
  tail : ∀ a b, a ∈ outer → (a, b) ∈ ρ.flatten → (a, b) ∈ ρ.tail.flatten

/-- Inside the scopes that are opened, the names around are those of the functions around. -/
theorem Nested.ofOpening {own own' : List String} {j : Nat} {s t : Placeholders}
    (ho : Opening locals A B own own' k j s t) :
    Nested (s.rib t :: ρ) A.around B.around (A.enter own) (B.enter own') where
  left _ := List.mem_append_right _
  right _ := List.mem_append_right _
  tail a b ha hab := by
    rw [List.flatten_cons, List.mem_append] at hab
    refine hab.resolve_left fun hmem => ?_
    exact (Sight.mem_of_opens ho.opens (ho.mem_own (List.mem_map_of_mem hmem))).2.1 ha

theorem nonlocals_alike {outer outer' ns ns' : List String} (h : Mates locals ρ A B S T k)
    (hout : Nested ρ outer outer' A B) (hns : ∀ n ∈ ns, n ∈ outer) (hns' : ∀ n ∈ ns', n ∈ outer')
    (he : ns.map S.rename = ns'.map T.rename) :
    List.Forall₂ (fun n n' => (n, n') ∈ ρ.tail.flatten) ns ns' := by
  induction ns generalizing ns' with
  | nil =>
    cases ns' with
    | nil => exact .nil
    | cons n' ns' => cases he
  | cons n ns ih =>
    cases ns' with
    | nil => cases he
    | cons n' ns' =>
      rw [List.forall_mem_cons] at hns hns'
      rw [List.map_cons, List.map_cons, List.cons.injEq] at he
      have haround := hout.left n hns.1
      have htied := h.tied (Sight.knows_iff.mpr (.inl haround))
        (Sight.knows_iff.mpr (.inl (hout.right n' hns'.1))) he.1
      have hpair := htied.resolve_right fun hfree => hfree.2 (h.leftLocal n haround)
      exact .cons (hout.tail n n' hns.1 hpair) (ih hns.2 hns'.2 he.2)

mutual

/-- Tidy statements with the same normal form are alike if their functions have the same names. The
names are taken one by one from the front of a list, and what is left of it is the same as well. -/
theorem stmt_alike {ρ : Ribs} {A B : Sight} {S T : Scopes} {k : Nat} {outer outer' : List String}
    (h : Mates locals ρ A B S T k)
    (hout : Nested ρ outer outer' A B) :
    (s s' : Stmt) → s.isTidy locals outer A = true → s'.isTidy locals outer' B = true →
    (∀ n ∈ Stmt.bound false s, n ∈ A.around ∨ isReserved n = false) →
    (∀ n ∈ Stmt.bound false s', n ∈ B.around ∨ isReserved n = false) →
    (stmt S s k).1 = (stmt T s' k).1 →
    (rest rest' : List String) → s.functionNames ++ rest = s'.functionNames ++ rest' →
    s.Alike locals ρ s' ∧ rest = rest'
  | .define ⟨name, ps, body, ds, returns, isAsync⟩, s', ht, ht', hb, hb', he, rest, rest', hn => by
    have hc := ctorIdx_eq_of_stmt he
    cases s' with
    | define g =>
      obtain ⟨name', qs, body', ds', returns', isAsync'⟩ := g
      rw [stmt_define, stmt_define] at he
      simp only [Stmt.define.injEq, FunctionOf.mk.injEq] at he
      simp only [Stmt.isTidy, Bool.and_eq_true, decide_eq_true_eq] at ht ht'
      obtain ⟨hknows, hnodup, hopens, htps, htbody⟩ := ht
      obtain ⟨hknows', hnodup', hopens', htqs, htbody'⟩ := ht'
      obtain ⟨hname, hps, hbody, hds, -, rfl⟩ := he
      obtain ⟨rfl, hnames⟩ := List.cons.inj hn
      have htied := h.tied hknows hknows' hname
      have hempty : ds.isEmpty = ds'.isEmpty := by
        cases ds <;> cases ds' <;> first | rfl | cases hds
      have hsound (d : Declaration) (hd : d ∈ Stmt.declarationsList body) :=
        (Stmt.placedList_of_tidy body htbody d hd).isSound h.leftLocal (Stmt.boundList false body)
      have hsound' (d : Declaration) (hd : d ∈ Stmt.declarationsList body') :=
        (Stmt.placedList_of_tidy body' htbody' d hd).isSound h.rightLocal (Stmt.boundList false body')
      rw [← exprList_inStep h.settle hds] at hps hbody
      have h₁ := h.mono (le_exprList ds S k)
      have hdefaults := exprParams_alike h₁ ps qs htps htqs hps
      rw [← exprParams_inStep h.settle hps] at hps hbody
      have h₂ := h₁.mono (le_exprParams ps S _)
      have hparams := hps
      generalize hs : functionScope (exprParams S ps _).1 body _ = s at hps hbody
      generalize ht : functionScope (exprParams T qs _).1 body' _ = t at hps hbody
      obtain ⟨hcount, ho⟩ := opening_function (f := ⟨name, ps, body, ds, returns, isAsync⟩)
        (g := ⟨name, qs, body', ds', returns', isAsync⟩) hs ht h₂ hsound hsound' hps hbody hnodup hnodup'
        hopens hopens'
      have hpaired := paired_of_opening ho hparams (fun p hp => hs ▸ mem_assignLocals _ _ hp)
        fun q hq => ht ▸ mem_assignLocals _ _ hq
      have hmates := h₂.enter ho
      rw [← hcount] at hbody
      obtain ⟨hbody, hn⟩ := stmtList_alike hmates (.ofOpening ho) body body' htbody htbody'
        (mem_or_of_mem_bound ⟨name, ps, body, ds, returns, isAsync⟩ hsound)
        (mem_or_of_mem_bound ⟨name, qs, body', ds', returns', isAsync⟩ hsound') hbody _ _ hnames
      exact ⟨.define htied hempty hdefaults hmates.proper (paired_exprParams hpaired) hbody, hn⟩
    | _ => exact nomatch hc
  | .ret v, s', ht, ht', hb, hb', he, rest, rest', hn => by
    have hc := ctorIdx_eq_of_stmt he
    cases s' with
    | ret v' => exact ⟨.ret (exprOption_alike h v v' ht ht' (Stmt.ret.inj he)), hn⟩
    | _ => exact nomatch hc
  | .assign ts v note, s', ht, ht', hb, hb', he, rest, rest', hn => by
    have hc := ctorIdx_eq_of_stmt he
    cases s' with
    | assign ts' v' note' =>
      simp only [stmt, bind_apply, pure_apply, Stmt.assign.injEq] at he
      simp only [Stmt.isTidy, Bool.and_eq_true] at ht ht'
      obtain ⟨hts, hv, -⟩ := he
      rw [← expr_inStep h.settle hv] at hts
      exact ⟨.assign (exprList_alike (h.mono (le_expr v S k)) ts ts' ht.2 ht'.2 hts)
        (expr_alike h v v' ht.1 ht'.1 hv), hn⟩
    | _ => exact nomatch hc
  | .augAssign t op v, s', ht, ht', hb, hb', he, rest, rest', hn => by
    have hc := ctorIdx_eq_of_stmt he
    cases s' with
    | augAssign t' op' v' =>
      simp only [stmt, bind_apply, pure_apply, Stmt.augAssign.injEq] at he
      simp only [Stmt.isTidy, Bool.and_eq_true] at ht ht'
      obtain ⟨ht₁, rfl, hv⟩ := he
      rw [← expr_inStep h.settle ht₁] at hv
      exact ⟨.augAssign (expr_alike h t t' ht.1 ht'.1 ht₁)
        (expr_alike (h.mono (le_expr t S k)) v v' ht.2 ht'.2 hv), hn⟩
    | _ => exact nomatch hc
  | .expr e, s', ht, ht', hb, hb', he, rest, rest', hn => by
    have hc := ctorIdx_eq_of_stmt he
    cases s' with
    | expr e' => exact ⟨.expr (expr_alike h e e' ht ht' (Stmt.expr.inj he)), hn⟩
    | _ => exact nomatch hc
  | .cond t body orelse, s', ht, ht', hb, hb', he, rest, rest', hn => by
    have hc := ctorIdx_eq_of_stmt he
    cases s' with
    | cond t' body' orelse' =>
      simp only [stmt, bind_apply, pure_apply, Stmt.cond.injEq] at he
      simp only [Stmt.isTidy, Bool.and_eq_true] at ht ht'
      rw [Stmt.bound, List.forall_mem_append] at hb hb'
      rw [Stmt.functionNames, Stmt.functionNames, List.append_assoc, List.append_assoc] at hn
      obtain ⟨ht₁, hbody, horelse⟩ := he
      rw [← expr_inStep h.settle ht₁] at hbody horelse
      have h₁ := h.mono (le_expr t S k)
      rw [← stmtList_inStep h₁ ht.2.1 ht'.2.1 hb.1 hb'.1 hbody] at horelse
      have h₂ := h₁.mono (le_stmtList body S _)
      obtain ⟨hbody, hn⟩ := stmtList_alike h₁ hout body body' ht.2.1 ht'.2.1 hb.1 hb'.1 hbody _ _ hn
      obtain ⟨horelse, hn⟩ :=
        stmtList_alike h₂ hout orelse orelse' ht.2.2 ht'.2.2 hb.2 hb'.2 horelse _ _ hn
      exact ⟨.cond (expr_alike h t t' ht.1 ht'.1 ht₁) hbody horelse, hn⟩
    | _ => exact nomatch hc
  | .whileLoop t body orelse, s', ht, ht', hb, hb', he, rest, rest', hn => by
    have hc := ctorIdx_eq_of_stmt he
    cases s' with
    | whileLoop t' body' orelse' =>
      simp only [stmt, bind_apply, pure_apply, Stmt.whileLoop.injEq] at he
      simp only [Stmt.isTidy, Bool.and_eq_true] at ht ht'
      rw [Stmt.bound, List.forall_mem_append] at hb hb'
      rw [Stmt.functionNames, Stmt.functionNames, List.append_assoc, List.append_assoc] at hn
      obtain ⟨ht₁, hbody, horelse⟩ := he
      rw [← expr_inStep h.settle ht₁] at hbody horelse
      have h₁ := h.mono (le_expr t S k)
      rw [← stmtList_inStep h₁ ht.2.1 ht'.2.1 hb.1 hb'.1 hbody] at horelse
      have h₂ := h₁.mono (le_stmtList body S _)
      obtain ⟨hbody, hn⟩ := stmtList_alike h₁ hout body body' ht.2.1 ht'.2.1 hb.1 hb'.1 hbody _ _ hn
      obtain ⟨horelse, hn⟩ :=
        stmtList_alike h₂ hout orelse orelse' ht.2.2 ht'.2.2 hb.2 hb'.2 horelse _ _ hn
      exact ⟨.whileLoop (expr_alike h t t' ht.1 ht'.1 ht₁) hbody horelse, hn⟩
    | _ => exact nomatch hc
  | .forLoop t i body orelse, s', ht, ht', hb, hb', he, rest, rest', hn => by
    have hc := ctorIdx_eq_of_stmt he
    cases s' with
    | forLoop t' i' body' orelse' =>
      simp only [stmt, bind_apply, pure_apply, Stmt.forLoop.injEq] at he
      simp only [Stmt.isTidy, Bool.and_eq_true] at ht ht'
      rw [Stmt.bound, List.forall_mem_append, List.forall_mem_append] at hb hb'
      rw [Stmt.functionNames, Stmt.functionNames, List.append_assoc, List.append_assoc] at hn
      obtain ⟨ht₁, hi, hbody, horelse⟩ := he
      rw [← expr_inStep h.settle hi] at ht₁ hbody horelse
      rw [← expr_inStep h.settle ht₁] at hbody horelse
      have h₁ := h.mono (le_expr i S k)
      have h₂ := h₁.mono (le_expr t S _)
      rw [← stmtList_inStep h₂ ht.2.2.1 ht'.2.2.1 hb.2.1 hb'.2.1 hbody] at horelse
      have h₃ := h₂.mono (le_stmtList body S _)
      obtain ⟨hbody, hn⟩ :=
        stmtList_alike h₂ hout body body' ht.2.2.1 ht'.2.2.1 hb.2.1 hb'.2.1 hbody _ _ hn
      obtain ⟨horelse, hn⟩ :=
        stmtList_alike h₃ hout orelse orelse' ht.2.2.2 ht'.2.2.2 hb.2.2 hb'.2.2 horelse _ _ hn
      exact ⟨.forLoop (expr_alike h₁ t t' ht.2.1 ht'.2.1 ht₁) (expr_alike h i i' ht.1 ht'.1 hi)
        hbody horelse, hn⟩
    | _ => exact nomatch hc
  | .tryBlock body hs orelse final, s', ht, ht', hb, hb', he, rest, rest', hn => by
    have hc := ctorIdx_eq_of_stmt he
    cases s' with
    | tryBlock body' hs' orelse' final' =>
      simp only [stmt, bind_apply, pure_apply, Stmt.tryBlock.injEq] at he
      simp only [Stmt.isTidy, Bool.and_eq_true] at ht ht'
      rw [Stmt.bound, List.forall_mem_append, List.forall_mem_append, List.forall_mem_append] at hb hb'
      simp only [Stmt.functionNames, List.append_assoc] at hn
      obtain ⟨hbody, hhs, horelse, hfinal⟩ := he
      rw [← stmtList_inStep h ht.1 ht'.1 hb.1 hb'.1 hbody] at hhs horelse hfinal
      have h₁ := h.mono (le_stmtList body S k)
      rw [← stmtHandlers_inStep h₁ ht.2.1 ht'.2.1 hb.2.1 hb'.2.1 hhs] at horelse hfinal
      have h₂ := h₁.mono (le_stmtHandlers hs S _)
      rw [← stmtList_inStep h₂ ht.2.2.1 ht'.2.2.1 hb.2.2.1 hb'.2.2.1 horelse] at hfinal
      have h₃ := h₂.mono (le_stmtList orelse S _)
      obtain ⟨hbody, hn⟩ := stmtList_alike h hout body body' ht.1 ht'.1 hb.1 hb'.1 hbody _ _ hn
      obtain ⟨hhs, hn⟩ :=
        stmtHandlers_alike h₁ hout hs hs' ht.2.1 ht'.2.1 hb.2.1 hb'.2.1 hhs _ _ hn
      obtain ⟨horelse, hn⟩ := stmtList_alike h₂ hout orelse orelse' ht.2.2.1 ht'.2.2.1 hb.2.2.1
        hb'.2.2.1 horelse _ _ hn
      obtain ⟨hfinal, hn⟩ := stmtList_alike h₃ hout final final' ht.2.2.2 ht'.2.2.2 hb.2.2.2
        hb'.2.2.2 hfinal _ _ hn
      exact ⟨.tryBlock hbody hhs horelse hfinal, hn⟩
    | _ => exact nomatch hc
  | .raise e c, s', ht, ht', hb, hb', he, rest, rest', hn => by
    have hc := ctorIdx_eq_of_stmt he
    cases s' with
    | raise e' c' => exact ⟨.raise (exprOption_alike h e e' ht ht' (Stmt.raise.inj he).1), hn⟩
    | _ => exact nomatch hc
  | .assert t m, s', ht, ht', hb, hb', he, rest, rest', hn => by
    have hc := ctorIdx_eq_of_stmt he
    cases s' with
    | assert t' m' =>
      simp only [stmt, bind_apply, pure_apply, Stmt.assert.injEq] at he
      simp only [Stmt.isTidy, Bool.and_eq_true] at ht ht'
      obtain ⟨ht₁, hm⟩ := he
      rw [← expr_inStep h.settle ht₁] at hm
      exact ⟨.assert (expr_alike h t t' ht.1 ht'.1 ht₁)
        (exprOption_alike (h.mono (le_expr t S k)) m m' ht.2 ht'.2 hm), hn⟩
    | _ => exact nomatch hc
  | .importNames ns, s', ht, ht', hb, hb', he, rest, rest', hn => by
    have hc := ctorIdx_eq_of_stmt he
    cases s' with
    | importNames ns' => exact ⟨.importNames ρ ns ns', hn⟩
    | _ => exact nomatch hc
  | .importFrom source ns, s', ht, ht', hb, hb', he, rest, rest', hn => by
    have hc := ctorIdx_eq_of_stmt he
    cases s' with
    | importFrom source' ns' => exact ⟨.importFrom ρ source source' ns ns', hn⟩
    | _ => exact nomatch hc
  | .globals ns, s', ht, ht', hb, hb', he, rest, rest', hn => by
    have hc := ctorIdx_eq_of_stmt he
    cases s' with
    | globals ns' =>
      cases he
      refine ⟨.globals fun n hmem => ?_, hn⟩
      exact (Stmt.placed_of_tidy (.globals ns) ht (.global n) (List.mem_map_of_mem hmem)).1
    | _ => exact nomatch hc
  | .nonlocals ns, s', ht, ht', hb, hb', he, rest, rest', hn => by
    have hc := ctorIdx_eq_of_stmt he
    cases s' with
    | nonlocals ns' =>
      simp only [Stmt.isTidy, List.all_eq_true, List.contains_iff_mem] at ht ht'
      exact ⟨.nonlocals (nonlocals_alike h hout ht ht' (Stmt.nonlocals.inj he)), hn⟩
    | _ => exact nomatch hc
  | .pass, s', ht, ht', hb, hb', he, rest, rest', hn => by
    have hc := ctorIdx_eq_of_stmt he
    cases s' with
    | pass => exact ⟨.pass ρ, hn⟩
    | _ => exact nomatch hc
  | .break, s', ht, ht', hb, hb', he, rest, rest', hn => by
    have hc := ctorIdx_eq_of_stmt he
    cases s' with
    | «break» => exact ⟨.break ρ, hn⟩
    | _ => exact nomatch hc
  | .continue, s', ht, ht', hb, hb', he, rest, rest', hn => by
    have hc := ctorIdx_eq_of_stmt he
    cases s' with
    | «continue» => exact ⟨.continue ρ, hn⟩
    | _ => exact nomatch hc
  | .verbatim kind text binds, s', ht, ht', hb, hb', he, rest, rest', hn => by
    have hc := ctorIdx_eq_of_stmt he
    cases s' with
    | verbatim kind' text' binds' =>
      cases he
      exact ⟨.verbatim ρ kind text binds, hn⟩
    | _ => exact nomatch hc
termination_by structural s => s

theorem stmtList_alike {ρ : Ribs} {A B : Sight} {S T : Scopes} {k : Nat} {outer outer' : List String}
    (h : Mates locals ρ A B S T k)
    (hout : Nested ρ outer outer' A B) :
    (b b' : List Stmt) → Stmt.tidyList locals outer A b = true →
    Stmt.tidyList locals outer' B b' = true →
    (∀ n ∈ Stmt.boundList false b, n ∈ A.around ∨ isReserved n = false) →
    (∀ n ∈ Stmt.boundList false b', n ∈ B.around ∨ isReserved n = false) →
    (stmtList S b k).1 = (stmtList T b' k).1 →
    (rest rest' : List String) →
    Stmt.functionNamesList b ++ rest = Stmt.functionNamesList b' ++ rest' →
    Stmt.AlikeList locals ρ b b' ∧ rest = rest'
  | [], [], _, _, _, _, _, _, _, hn => ⟨.nil ρ, hn⟩
  | [], _ :: _, _, _, _, _, he, _, _, _ => by cases he
  | _ :: _, [], _, _, _, _, he, _, _, _ => by cases he
  | s :: ss, s' :: ss', ht, ht', hb, hb', he, rest, rest', hn => by
    simp only [stmtList, bind_apply, pure_apply, List.cons.injEq] at he
    simp only [Stmt.tidyList, Bool.and_eq_true] at ht ht'
    rw [Stmt.boundList, List.forall_mem_append] at hb hb'
    rw [Stmt.functionNamesList, Stmt.functionNamesList, List.append_assoc, List.append_assoc] at hn
    obtain ⟨hs, hss⟩ := he
    rw [← stmt_inStep h ht.1 ht'.1 hb.1 hb'.1 hs] at hss
    obtain ⟨hs, hn⟩ := stmt_alike h hout s s' ht.1 ht'.1 hb.1 hb'.1 hs _ _ hn
    obtain ⟨hss, hn⟩ := stmtList_alike (h.mono (le_stmt s S k)) hout ss ss' ht.2 ht'.2 hb.2 hb'.2 hss
      _ _ hn
    exact ⟨.cons hs hss, hn⟩
termination_by structural b => b

theorem stmtHandlers_alike {ρ : Ribs} {A B : Sight} {S T : Scopes} {k : Nat}
    {outer outer' : List String} (h : Mates locals ρ A B S T k)
    (hout : Nested ρ outer outer' A B) :
    (hs hs' : List (HandlerOf Stmt)) → Stmt.tidyHandlers locals outer A hs = true →
    Stmt.tidyHandlers locals outer' B hs' = true →
    (∀ n ∈ Stmt.boundHandlers false hs, n ∈ A.around ∨ isReserved n = false) →
    (∀ n ∈ Stmt.boundHandlers false hs', n ∈ B.around ∨ isReserved n = false) →
    (stmtHandlers S hs k).1 = (stmtHandlers T hs' k).1 →
    (rest rest' : List String) →
    Stmt.functionNamesHandlers hs ++ rest = Stmt.functionNamesHandlers hs' ++ rest' →
    Stmt.AlikeHandlers locals ρ hs hs' ∧ rest = rest'
  | [], [], _, _, _, _, _, _, _, hn => ⟨.nil ρ, hn⟩
  | [], ⟨_, _, _⟩ :: _, _, _, _, _, he, _, _, _ => by cases he
  | ⟨_, _, _⟩ :: _, [], _, _, _, _, he, _, _, _ => by cases he
  | ⟨type, name, body⟩ :: hs, ⟨type', name', body'⟩ :: hs', ht, ht', hb, hb', he, rest, rest', hn => by
    simp only [stmtHandlers, bind_apply, pure_apply, List.cons.injEq, HandlerOf.mk.injEq] at he
    simp only [Stmt.tidyHandlers, Bool.and_eq_true, Option.isNone_iff_eq_none] at ht ht'
    rw [Stmt.boundHandlers, List.forall_mem_append, List.forall_mem_append] at hb hb'
    rw [Stmt.functionNamesHandlers, Stmt.functionNamesHandlers, List.append_assoc,
      List.append_assoc] at hn
    obtain ⟨⟨htype, -, hbody⟩, hhs⟩ := he
    obtain ⟨rfl, ht⟩ := ht
    obtain ⟨rfl, ht'⟩ := ht'
    rw [← exprOption_inStep h.settle htype] at hbody hhs
    have h₁ := h.mono (le_exprOption type S k)
    rw [← stmtList_inStep h₁ ht.2.1 ht'.2.1 hb.2.1 hb'.2.1 hbody] at hhs
    have h₂ := h₁.mono (le_stmtList body S _)
    obtain ⟨hbody, hn⟩ :=
      stmtList_alike h₁ hout body body' ht.2.1 ht'.2.1 hb.2.1 hb'.2.1 hbody _ _ hn
    obtain ⟨hhs, hn⟩ :=
      stmtHandlers_alike h₂ hout hs hs' ht.2.2 ht'.2.2 hb.2.2 hb'.2.2 hhs _ _ hn
    exact ⟨.cons (exprOption_alike h type type' ht.1 ht'.1 htype) hbody hhs, hn⟩
termination_by structural hs => hs

end

/-- At the top level nothing is bound around. -/
theorem mates_nil (locals : List String) : Mates locals [] ⟨[], []⟩ ⟨[], []⟩ [] [] 0 where
  proper := Ribs.proper_nil
  lefts := nofun
  rights := nofun
  leftLocal := nofun
  rightLocal := nofun
  left := ⟨by simp [Scopes.resolve?], by simp⟩
  right := ⟨by simp [Scopes.resolve?], by simp⟩
  settle := rfl
  tie := nofun

/-- Top-level statements with the same normal form also have the same normal form as statements of a
function: both are functions, or they are equal. -/
theorem stmt_eq_of_topLevel {s s' : Stmt} (h : topLevel s = topLevel s') :
    (stmt [] s 0).1 = (stmt [] s' 0).1 := by
  cases s with
  | define f =>
    cases s' with
    | define g => exact h
    | _ => rw [topLevel_define] at h; cases h
  | _ =>
    cases s' with
    | define g => rw [topLevel_define] at h; cases h
    | _ => exact congrArg (fun s => (stmt [] s 0).1) h

/-- Top-level statements with the same normal form, one by one. -/
theorem topLevel_alike {b b' : Block} (ht : Stmt.tidyList locals [] ⟨[], []⟩ b = true)
    (ht' : Stmt.tidyList locals [] ⟨[], []⟩ b' = true)
    (hb : ∀ n ∈ Stmt.boundList false b, isReserved n = false)
    (hb' : ∀ n ∈ Stmt.boundList false b', isReserved n = false)
    (hn : Stmt.functionNamesList b = Stmt.functionNamesList b')
    (h : b.map topLevel = b'.map topLevel) : Stmt.AlikeList locals [] b b' := by
  induction b generalizing b' with
  | nil =>
    cases b' with
    | nil => exact .nil []
    | cons s' ss' => cases h
  | cons s ss ih =>
    cases b' with
    | nil => cases h
    | cons s' ss' =>
      simp only [Stmt.tidyList, Bool.and_eq_true] at ht ht'
      rw [Stmt.boundList, List.forall_mem_append] at hb hb'
      rw [List.map_cons, List.map_cons, List.cons.injEq] at h
      have hout : Nested [] [] [] ⟨[], []⟩ ⟨[], []⟩ := ⟨by simp, by simp, by simp⟩
      obtain ⟨hs, hn⟩ := stmt_alike (mates_nil locals) hout s s' ht.1 ht'.1
        (fun n hn => .inr (hb.1 n hn)) (fun n hn => .inr (hb'.1 n hn)) (stmt_eq_of_topLevel h.1) _ _ hn
      exact .cons hs (ih ht.2 ht'.2 hb.2 hb'.2 hn h.2)

end Normal

/-- Tidy modules with the same normal form and the same names of functions are alike up to the names of
local variables. -/
theorem Module.alike_of_normalize_eq {locals : List String} {m m' : Module}
    (hm : m.isTidy locals = true) (hm' : m'.isTidy locals = true)
    (hnames : m.functionNames = m'.functionNames) (h : m.normalize = m'.normalize) :
    m.Alike locals m' := by
  simp only [isTidy, Bool.and_eq_true, List.all_eq_true, Bool.not_eq_true'] at hm hm'
  exact Normal.topLevel_alike hm.2.2 hm'.2.2 hm.2.1 hm'.2.1 hnames (Module.mk.inj h)

end Concord
