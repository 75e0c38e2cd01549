import Concord.Tree.Edit
import Concord.Proofs.Tree.Place
import Mathlib.Logic.Relation

/-!
# Matches by number

An edit of the match numbered `k` searches the tree by itself, passing matches by; a report numbers
the matches in the list that a walk gives. Both mean the same match: the edit finds one exactly if
the list is long enough, and applies the change to the match at that position of the list and nowhere
else.

Main statements:

* `Block.replaceNth?_swaps`: expressions, against `Block.find`.
* `Block.editNth?_swaps`: positions of blocks, against `Block.sites`.
-/

namespace Concord

namespace Nth

variable {α β μ : Type} {good good₁ good₂ : Nat → μ → α → Prop} {xs ys : List μ} {k : Nat} {r : Nth α}

/-- A search agrees with a list of matches: it hits if there is a match numbered `k`, with a result
that is good for that number and that match, and otherwise has passed all of them by. -/
def Agrees (good : Nat → μ → α → Prop) (xs : List μ) (k : Nat) (r : Nth α) : Prop :=
  match xs[k]? with
  | some x => ∃ a, r = .hit a ∧ good k x a
  | none => r = .miss (k - xs.length)

theorem Agrees.nil : Agrees good [] k (.miss k) := rfl

theorem Agrees.map {good' : Nat → μ → β → Prop} {g : α → β} (h : Agrees good xs k r)
    (hg : ∀ k x a, good k x a → good' k x (g a)) : Agrees good' xs k (r.map g) := by
  unfold Agrees at h ⊢
  split at h
  · obtain ⟨a, rfl, ha⟩ := h
    exact ⟨g a, rfl, hg _ _ a ha⟩
  · rw [h, Nth.map]

theorem Agrees.mono (h : Agrees good₁ xs k r) (hg : ∀ k x a, good₁ k x a → good k x a) :
    Agrees good xs k r := by
  have hmap := h.map (g := fun a => a) hg
  cases r <;> exact hmap

/-- The second part of a search counts on from where the first part has left off. -/
theorem Agrees.orElse {next : Nat → Nth α} (h : Agrees good xs k r)
    (hnext : ∀ j, Agrees good₂ ys j (next j))
    (hgood : ∀ j x a, good₂ j x a → good (j + xs.length) x a) :
    Agrees good (xs ++ ys) k (r.orElse next) := by
  unfold Agrees at h
  split at h
  · next x hx =>
    obtain ⟨a, rfl, ha⟩ := h
    have hlt : k < xs.length := (List.getElem?_eq_some_iff.mp hx).1
    simp only [Agrees, List.getElem?_append_left hlt, hx]
    exact ⟨a, rfl, ha⟩
  · next hx =>
    have hle : xs.length ≤ k := List.getElem?_eq_none_iff.mp hx
    have hys := hnext (k - xs.length)
    rw [h, Nth.orElse]
    unfold Agrees at hys ⊢
    rw [List.getElem?_append_right hle, List.length_append, ← Nat.sub_sub]
    split at hys
    · obtain ⟨a, ha, hgood₂⟩ := hys
      refine ⟨a, ha, ?_⟩
      have hlift := hgood _ _ _ hgood₂
      rwa [Nat.sub_add_cancel hle] at hlift
    · exact hys

/-- Where the numbers do not matter. -/
theorem Agrees.orElse_const {good : μ → α → Prop} {next : Nat → Nth α}
    (h : Agrees (fun _ => good) xs k r) (hnext : ∀ j, Agrees (fun _ => good) ys j (next j)) :
    Agrees (fun _ => good) (xs ++ ys) k (r.orElse next) :=
  h.orElse hnext fun _ _ _ hgood => hgood

/-- One more match in front is the one numbered zero. -/
theorem Agrees.zero {x : μ} {a : α} (ha : good 0 x a) : Agrees good (x :: xs) 0 (.hit a) :=
  ⟨a, rfl, ha⟩

theorem Agrees.succ {x : μ} (h : Agrees (fun j => good (j + 1)) xs k r) :
    Agrees good (x :: xs) (k + 1) r := by
  unfold Agrees at h ⊢
  rw [List.getElem?_cons_succ, List.length_cons, Nat.add_sub_add_right]
  exact h

end Nth

open Nth

/-! ## Changes among direct parts -/

namespace Layout

variable {ν α β : Type} {L : Layout ν α} {L' : Layout ν β} {S S' : List ν → List ν → Prop} {a a' : α}
  {before ns ms : List ν}

/-- The parts of something change as `S` says, and the rest of it stays. -/
def Changes (L : Layout ν α) (S : List ν → List ν → Prop) (a a' : α) : Prop :=
  L.bare a' = L.bare a ∧ S (L.parts a) (L.parts a')

/-- The change is among the parts `region`, which come after the parts `before`. -/
def ChangesIn (L : Layout ν α) (S : List ν → List ν → Prop) (a : α) (before region : List ν) (a' : α) :
    Prop :=
  L.bare a' = L.bare a ∧ ∃ region', L.parts a' = before ++ region' ∧ S region region'

/-- A change of the last part of something. -/
theorem Changes.last (h : L.Changes S a a') {g : α → β}
    (hparts : ∀ a, L'.parts (g a) = before ++ L.parts a)
    (hbare : ∀ a', L.bare a' = L.bare a → L'.bare (g a') = L'.bare (g a)) :
    L'.ChangesIn S (g a) before (L.parts a) (g a') :=
  ⟨hbare a' h.1, L.parts a', hparts a', h.2⟩

/-- A change of a part of something that has the parts `ms` behind it. -/
theorem Changes.part (h : L.Changes S a a') (hS : S (L.parts a ++ ms) (L.parts a' ++ ms)) {g : α → β}
    (hparts : ∀ a, L'.parts (g a) = before ++ (L.parts a ++ ms))
    (hbare : ∀ a', L.bare a' = L.bare a → L'.bare (g a') = L'.bare (g a)) :
    L'.ChangesIn S (g a) before (L.parts a ++ ms) (g a') :=
  ⟨hbare a' h.1, L.parts a' ++ ms, hparts a', hS⟩

/-- A change behind the parts `ns` is one among those and the parts behind them. -/
theorem ChangesIn.behind (h : L.ChangesIn S a (before ++ ns) ms a')
    (hS : ∀ {ms'}, S ms ms' → S' (ns ++ ms) (ns ++ ms')) : L.ChangesIn S' a before (ns ++ ms) a' := by
  obtain ⟨hbare, ms', hparts, hchange⟩ := h
  exact ⟨hbare, ns ++ ms', by rw [hparts, List.append_assoc], hS hchange⟩

theorem ChangesIn.all (h : L.ChangesIn S a [] (L.parts a) a') : L.Changes S a a' := by
  obtain ⟨hbare, ns', hparts, hchange⟩ := h
  exact ⟨hbare, by rw [hparts]; exact hchange⟩

end Layout

/-! ## Expressions -/

namespace Layout

open Node (Swapped hits inside)

variable {α β : Type} {L : Layout Node α} {L' : Layout Node β} {p : Expr → Bool} {f : Expr → Expr}
  {a : α} {ns ms before : List Node} {k : Nat}

/-- A search that agrees with the matches in the parts of something. -/
abbrev Searched (L : Layout Node α) (p : Expr → Bool) (f : Expr → Expr) (a : α) (k : Nat) (r : Nth α) :
    Prop :=
  Agrees (fun k x => L.Changes (Swapped p x (f x) k) a) (hits p ((L.parts a).flatMap inside)) k r

/-- A search that agrees with the matches in the parts `ns`, which come after the parts `before` and are
among the parts `region`. -/
def SearchedIn (L : Layout Node α) (p : Expr → Bool) (f : Expr → Expr) (a : α)
    (before region ns : List Node) (k : Nat) (r : Nth α) : Prop :=
  Agrees (fun k x => L.ChangesIn (Swapped p x (f x) k) a before region) (hits p (ns.flatMap inside)) k r

theorem Searched.last {r : Nth α} (h : L.Searched p f a k r) {g : α → β}
    (hparts : ∀ a, L'.parts (g a) = before ++ L.parts a)
    (hbare : ∀ a', L.bare a' = L.bare a → L'.bare (g a') = L'.bare (g a)) :
    L'.SearchedIn p f (g a) before (L.parts a) (L.parts a) k (r.map g) :=
  h.map fun _ _ _ hchange => hchange.last hparts hbare

theorem Searched.part {r : Nth α} (h : L.Searched p f a k r) {g : α → β}
    (hparts : ∀ a, L'.parts (g a) = before ++ (L.parts a ++ ms))
    (hbare : ∀ a', L.bare a' = L.bare a → L'.bare (g a') = L'.bare (g a)) :
    L'.SearchedIn p f (g a) before (L.parts a ++ ms) (L.parts a) k (r.map g) :=
  h.map fun _ _ _ hchange => hchange.part (hchange.2.append ms) hparts hbare

/-- A search among parts goes on in the parts behind them. -/
theorem SearchedIn.next {r : Nth α} {search : Nat → Nth α}
    (h : L.SearchedIn p f a before (ns ++ ms) ns k r)
    (hnext : ∀ j, L.SearchedIn p f a (before ++ ns) ms ms j (search j)) :
    L.SearchedIn p f a before (ns ++ ms) (ns ++ ms) k (r.orElse search) := by
  unfold SearchedIn
  rw [List.flatMap_append, Node.hits_append]
  exact Agrees.orElse h hnext fun _ _ _ hchange => hchange.behind fun hswapped => hswapped.behind ns

/-- A search among all parts. -/
theorem Searched.all {r : Nth α} (h : L.SearchedIn p f a [] ns ns k r) (hns : L.parts a = ns) :
    L.Searched p f a k r := by
  subst hns
  exact Agrees.mono h fun _ _ _ hchange => hchange.all

end Layout

namespace Expr

open Node (Swapped hits inside)

variable {p : Expr → Bool} {f : Expr → Expr} {k : Nat}

theorem hits_inside (e : Expr) : hits p ([Node.expr e].flatMap inside) =
    hits p [.expr e] ++ hits p ((Layout.expr.parts e).flatMap inside) := by
  rw [List.flatMap_singleton, Node.inside_eq, ← Node.hits_append]
  rfl

/-- An expression is searched before its parts. -/
theorem atNth_searched {e : Expr} {search : Nat → Nth Expr}
    (h : ∀ j, Layout.expr.Searched p f e j (search j)) :
    Layout.whole.Searched p f e k (atNth p f e k search) := by
  have hparts (j : Nat) : Agrees
      (fun j x => Layout.whole.Changes (Swapped p x (f x) (j + (hits p [.expr e]).length)) e)
      (hits p ((Layout.expr.parts e).flatMap inside)) j (search j) :=
    (h j).mono fun _ _ _ ⟨hbare, hswapped⟩ =>
      ⟨rfl, Swapped.within (congrArg Node.expr hbare) hswapped⟩
  show Agrees _ (hits p ([Node.expr e].flatMap inside)) k _
  rw [hits_inside]
  unfold atNth
  split
  · next hp =>
    have hhit : hits p [.expr e] = [e] := by simp [hits, Node.expr?, hp]
    have hself : Layout.whole.Changes (Swapped p e (f e) 0) e (f e) := ⟨rfl, .here hp [] []⟩
    rw [hhit] at hparts ⊢
    cases k with
    | zero => exact .zero hself
    | succ k => exact .succ (hparts k)
  · next hp =>
    have hhit : hits p [.expr e] = [] := by simp [hits, Node.expr?, hp]
    rw [hhit] at hparts ⊢
    exact hparts k

variable (p f)

mutual

/-- The search in an expression agrees with the list of the matches in it. -/
theorem replaceNth_searched : (e : Expr) → (k : Nat) →
    Layout.whole.Searched p f e k (e.replaceNth p f k)
  -- In each case the parts come in the order of the walk.
  | .bin _ l r, _ | .logic _ l r, _ | .subscript l r, _ => atNth_searched fun k =>
    .all (.next ((replaceNth_searched l k).part (fun _ => rfl) fun _ _ => rfl) fun k =>
      (replaceNth_searched r k).last (fun _ => rfl) fun _ _ => rfl) rfl
  | .unary _ a, _ | .attribute a _, _ | .starred a, _ => atNth_searched fun k =>
    .all ((replaceNth_searched a k).last (fun _ => rfl) fun _ _ => rfl) rfl
  | .compare l links, _ => atNth_searched fun k =>
    .all (.next ((replaceNth_searched l k).part (fun _ => rfl) fun _ _ => rfl) fun k =>
      (replaceLinks_searched links k).last (fun _ => rfl) fun _ h => congrArg (compare .none) h) rfl
  | .call g args, _ => atNth_searched fun k =>
    .all (.next ((replaceNth_searched g k).part (fun _ => rfl) fun _ _ => rfl) fun k =>
      (replaceArgs_searched args k).last (fun _ => rfl) fun _ h => congrArg (call .none) h) rfl
  | .slice a b c, _ => atNth_searched fun k =>
    .all (.next ((replaceOption_searched a k).part (fun _ => rfl) fun _ h =>
        congrArg (slice · _ _) h) fun k =>
      .next ((replaceOption_searched b k).part (fun _ => rfl) fun _ h => congrArg (slice _ · _) h)
        fun k => (replaceOption_searched c k).last (fun _ => (List.append_assoc ..).symm) fun _ h =>
          congrArg (slice _ _ ·) h) rfl
  | .list items, _ => atNth_searched fun k =>
    .all ((replaceList_searched items k).last (fun _ => rfl) fun _ h => congrArg list h) rfl
  | .tuple items, _ => atNth_searched fun k =>
    .all ((replaceList_searched items k).last (fun _ => rfl) fun _ h => congrArg tuple h) rfl
  | .set items, _ => atNth_searched fun k =>
    .all ((replaceList_searched items k).last (fun _ => rfl) fun _ h => congrArg set h) rfl
  | .dict entries, _ => atNth_searched fun k =>
    .all ((replaceEntries_searched entries k).last (fun _ => rfl) fun _ h => congrArg dict h) rfl
  | .comp kind e v cs, _ => atNth_searched fun k =>
    .all (.next ((replaceNth_searched e k).part (fun _ => rfl) fun _ _ => rfl) fun k =>
      .next ((replaceOption_searched v k).part (fun _ => rfl) fun _ h =>
          congrArg (comp kind .none · _) h) fun k =>
        (replaceClauses_searched cs k).last (fun _ => rfl) fun _ h => congrArg (comp kind .none _ ·) h)
      rfl
  | .ifExp t a b, _ => atNth_searched fun k =>
    .all (.next ((replaceNth_searched t k).part (fun _ => rfl) fun _ _ => rfl) fun k =>
      .next ((replaceNth_searched a k).part (fun _ => rfl) fun _ _ => rfl) fun k =>
        (replaceNth_searched b k).last (fun _ => rfl) fun _ _ => rfl) rfl
  | .lambda ps b, _ => atNth_searched fun k =>
    .all (.next ((replaceParams_searched ps k).part (fun _ => rfl) fun _ h =>
        congrArg (lambda · .none) h) fun k =>
      (replaceNth_searched b k).last (fun _ => rfl) fun _ _ => rfl) rfl
  | .name _, _ | .int _, _ | .float _, _ | .str _, _ | .bool _, _ | .none, _ | .verbatim _, _ =>
    atNth_searched fun _ => Agrees.nil

theorem replaceOption_searched : (o : Option Expr) → (k : Nat) →
    Layout.option.Searched p f o k (replaceOption p f o k)
  | Option.none, _ => Agrees.nil
  | some e, k => .all ((replaceNth_searched e k).last (fun _ => rfl) fun _ _ => rfl) rfl

theorem replaceList_searched : (es : List Expr) → (k : Nat) →
    Layout.list.Searched p f es k (replaceList p f es k)
  | [], _ => Agrees.nil
  | e :: es, k =>
    .all (.next ((replaceNth_searched e k).part (fun _ => rfl) fun _ _ => rfl) fun k =>
      (replaceList_searched es k).last (fun _ => rfl) fun _ h => congrArg (Expr.none :: ·) h) rfl

theorem replaceLinks_searched : (ls : List (CmpOp × Expr)) → (k : Nat) →
    Layout.links.Searched p f ls k (replaceLinks p f ls k)
  | [], _ => Agrees.nil
  | (o, e) :: ls, k =>
    .all (.next ((replaceNth_searched e k).part (fun _ => rfl) fun _ _ => rfl) fun k =>
      (replaceLinks_searched ls k).last (fun _ => rfl) fun _ h => congrArg ((o, Expr.none) :: ·) h) rfl

theorem replaceArgs_searched : (as : List (ArgOf Expr)) → (k : Nat) →
    Layout.args.Searched p f as k (replaceArgs p f as k)
  | [], _ => Agrees.nil
  | .positional e :: as, k | .keyword _ e :: as, k | .star e :: as, k | .doubleStar e :: as, k =>
    .all (.next ((replaceNth_searched e k).part (fun _ => rfl) fun _ _ => rfl) fun k =>
      (replaceArgs_searched as k).last (fun _ => rfl) fun _ h => congrArg (_ :: ·) h) rfl

theorem replaceEntries_searched : (es : List (Expr × Expr)) → (k : Nat) →
    Layout.entries.Searched p f es k (replaceEntries p f es k)
  | [], _ => Agrees.nil
  | (x, v) :: es, k =>
    .all (.next ((replaceNth_searched x k).part (fun _ => rfl) fun _ _ => rfl) fun k =>
      .next ((replaceNth_searched v k).part (fun _ => rfl) fun _ _ => rfl) fun k =>
        (replaceEntries_searched es k).last (fun _ => rfl) fun _ h => congrArg (_ :: ·) h) rfl

theorem replaceClauses_searched : (cs : List (ClauseOf Expr)) → (k : Nat) →
    Layout.clauses.Searched p f cs k (replaceClauses p f cs k)
  | [], _ => Agrees.nil
  | ⟨target, iter, ifs⟩ :: cs, k =>
    .all (.next ((replaceNth_searched iter k).part (fun _ => rfl) fun _ _ => rfl) fun k =>
      .next ((replaceNth_searched target k).part (fun _ => rfl) fun _ _ => rfl) fun k =>
        .next ((replaceList_searched ifs k).part (fun _ => rfl) fun _ h =>
            congrArg (ClauseOf.mk Expr.none Expr.none · :: Layout.clauses.bare cs) h) fun k =>
          (replaceClauses_searched cs k).last (fun _ => rfl) fun _ h => congrArg (_ :: ·) h) rfl

theorem replaceParams_searched : (ps : List (ParamOf Expr)) → (k : Nat) →
    Layout.params.Searched p f ps k (replaceParams p f ps k)
  | [], _ => Agrees.nil
  | ⟨n, kind, default, a⟩ :: ps, k =>
    .all (.next ((replaceOption_searched default k).part (fun _ => rfl) fun _ h =>
        congrArg (ParamOf.mk n kind · a :: _) h) fun k =>
      (replaceParams_searched ps k).last (fun _ => rfl) fun _ h => congrArg (_ :: ·) h) rfl

end

end Expr

/-! ## Expressions in statements -/

namespace Stmt

open Layout (Searched)
open Node (hits inside)

variable {p : Expr → Bool} {f : Expr → Expr} {k : Nat}

/-- A statement is no match itself. -/
theorem searched_whole {s : Stmt} {r : Nth Stmt} (h : Layout.stmt.Searched p f s k r) :
    Layout.wholeStmt.Searched p f s k r := by
  have hhits : hits p ((Layout.wholeStmt.parts s).flatMap inside) =
      hits p ((Layout.stmt.parts s).flatMap inside) := by
    show hits p ([Node.stmt s].flatMap inside) = _
    rw [List.flatMap_singleton, Node.inside_eq]
    rfl
  unfold Searched
  rw [hhits]
  refine h.mono ?_
  rintro j x s' ⟨hbare, hswapped⟩
  have hnode : (Node.stmt s').bare = (Node.stmt s).bare := congrArg Node.stmt hbare
  exact ⟨rfl, .within hnode hswapped⟩

variable (p f)

mutual

/-- The search in a statement agrees with the list of the matches in it. -/
theorem replaceNth_searched : (s : Stmt) → (k : Nat) →
    Layout.wholeStmt.Searched p f s k (s.replaceNth p f k)
  | .define ⟨name, params, body, decorators, returns, isAsync⟩, k => searched_whole <|
    .all (.next ((Expr.replaceList_searched p f decorators k).part (fun _ => rfl) fun _ h =>
        congrArg (fun ds => define ⟨name, _, _, ds, returns, isAsync⟩) h) fun k =>
      .next ((Expr.replaceParams_searched p f params k).part (fun _ => rfl) fun _ h =>
          congrArg (fun ps => define ⟨name, ps, _, _, returns, isAsync⟩) h) fun k =>
        (replaceList_searched body k).last (fun _ => (List.append_assoc ..).symm) fun _ h =>
          congrArg (fun b => define ⟨name, _, b, _, returns, isAsync⟩) h) rfl
  | .ret v, k => searched_whole <|
    .all ((Expr.replaceOption_searched p f v k).last (fun _ => rfl) fun _ h => congrArg ret h) rfl
  | .assign ts v a, k => searched_whole <|
    .all (.next ((Expr.replaceNth_searched p f v k).part (fun _ => rfl) fun _ _ => rfl) fun k =>
      (Expr.replaceList_searched p f ts k).last (fun _ => rfl) fun _ h =>
        congrArg (assign · .none a) h) rfl
  | .augAssign t op v, k => searched_whole <|
    .all (.next ((Expr.replaceNth_searched p f t k).part (fun _ => rfl) fun _ _ => rfl) fun k =>
      (Expr.replaceNth_searched p f v k).last (fun _ => rfl) fun _ _ => rfl) rfl
  | .expr e, k => searched_whole <|
    .all ((Expr.replaceNth_searched p f e k).last (fun _ => rfl) fun _ _ => rfl) rfl
  | .cond t body orelse, k => searched_whole <|
    .all (.next ((Expr.replaceNth_searched p f t k).part (fun _ => rfl) fun _ _ => rfl) fun k =>
      .next ((replaceList_searched body k).part (fun _ => rfl) fun _ h =>
          congrArg (cond .none · _) h) fun k =>
        (replaceList_searched orelse k).last (fun _ => rfl) fun _ h => congrArg (cond .none _ ·) h) rfl
  | .whileLoop t body orelse, k => searched_whole <|
    .all (.next ((Expr.replaceNth_searched p f t k).part (fun _ => rfl) fun _ _ => rfl) fun k =>
      .next ((replaceList_searched body k).part (fun _ => rfl) fun _ h =>
          congrArg (whileLoop .none · _) h) fun k =>
        (replaceList_searched orelse k).last (fun _ => rfl) fun _ h =>
          congrArg (whileLoop .none _ ·) h) rfl
  | .forLoop t i body orelse, k => searched_whole <|
    .all (.next ((Expr.replaceNth_searched p f i k).part (fun _ => rfl) fun _ _ => rfl) fun k =>
      .next ((Expr.replaceNth_searched p f t k).part (fun _ => rfl) fun _ _ => rfl) fun k =>
        .next ((replaceList_searched body k).part (fun _ => rfl) fun _ h =>
            congrArg (forLoop .none .none · _) h) fun k =>
          (replaceList_searched orelse k).last (fun _ => rfl) fun _ h =>
            congrArg (forLoop .none .none _ ·) h) rfl
  | .tryBlock body hs orelse final, k => searched_whole <|
    .all (.next ((replaceList_searched body k).part (fun _ => rfl) fun _ h =>
        congrArg (tryBlock · _ _ _) h) fun k =>
      .next ((replaceHandlers_searched hs k).part (fun _ => rfl) fun _ h =>
          congrArg (tryBlock _ · _ _) h) fun k =>
        .next ((replaceList_searched orelse k).part (fun _ => (List.append_assoc ..).symm) fun _ h =>
            congrArg (tryBlock _ _ · _) h) fun k =>
          (replaceList_searched final k).last
            (fun _ => by simp only [Layout.stmt, List.append_assoc, List.nil_append]) fun _ h =>
            congrArg (tryBlock _ _ _ ·) h) rfl
  | .raise e c, k => searched_whole <|
    .all (.next ((Expr.replaceOption_searched p f e k).part (fun _ => rfl) fun _ h =>
        congrArg (raise · _) h) fun k =>
      (Expr.replaceOption_searched p f c k).last (fun _ => rfl) fun _ h => congrArg (raise _ ·) h) rfl
  | .assert t m, k => searched_whole <|
    .all (.next ((Expr.replaceNth_searched p f t k).part (fun _ => rfl) fun _ _ => rfl) fun k =>
      (Expr.replaceOption_searched p f m k).last (fun _ => rfl) fun _ h =>
        congrArg (assert .none ·) h) rfl
  | .importNames _, _ | .importFrom _ _, _ | .globals _, _ | .nonlocals _, _ | .pass, _ | .break, _
  | .continue, _ | .verbatim _ _ _, _ => searched_whole Agrees.nil

theorem replaceList_searched : (b : List Stmt) → (k : Nat) →
    Layout.block.Searched p f b k (replaceList p f b k)
  | [], _ => Agrees.nil
  | s :: ss, k =>
    .all (.next ((replaceNth_searched s k).part (fun _ => rfl) fun _ _ => rfl) fun k =>
      (replaceList_searched ss k).last (fun _ => rfl) fun _ h => congrArg (Stmt.pass :: ·) h) rfl

theorem replaceHandlers_searched : (hs : List (HandlerOf Stmt)) → (k : Nat) →
    Layout.handlers.Searched p f hs k (replaceHandlers p f hs k)
  | [], _ => Agrees.nil
  | ⟨type, name, body⟩ :: hs, k =>
    .all (.next ((Expr.replaceOption_searched p f type k).part (fun _ => List.append_assoc ..) fun _ h =>
        congrArg (HandlerOf.mk · name (Layout.block.bare body) :: Layout.handlers.bare hs) h) fun k =>
      .next ((replaceList_searched body k).part (fun _ => List.append_assoc ..) fun _ h =>
          congrArg (HandlerOf.mk (Layout.option.bare type) name · :: Layout.handlers.bare hs) h) fun k =>
        (replaceHandlers_searched hs k).last (fun _ => rfl) fun _ h => congrArg (_ :: ·) h)
      (List.append_assoc ..)

end

end Stmt

/-! ## Positions of blocks -/

/-- The edit at a site has declined and there is no result, or it has given a block for which the result
is as `R` asks. -/
def Outcome {α : Type} (edit : Block → Nat → Option Block) (site : Block × Nat) (result : Option α)
    (R : Block → α → Prop) : Prop :=
  match edit site.1 site.2 with
  | none => result = none
  | some new => ∃ a, result = some a ∧ R new a

theorem Outcome.map {α β : Type} {edit : Block → Nat → Option Block} {site : Block × Nat}
    {result : Option α} {R : Block → α → Prop} {R' : Block → β → Prop} {g : α → β}
    (h : Outcome edit site result R) (hg : ∀ new a, R new a → R' new (g a)) :
    Outcome edit site (result.map g) R' := by
  unfold Outcome at h ⊢
  split
  · next hnone =>
    rw [hnone] at h
    rw [show result = none from h, Option.map_none]
  · next new hnew =>
    rw [hnew] at h
    obtain ⟨a, rfl, ha⟩ := h
    exact ⟨g a, rfl, hg new a ha⟩

theorem Outcome.mono {α : Type} {edit : Block → Nat → Option Block} {site : Block × Nat}
    {result : Option α} {R R' : Block → α → Prop} (h : Outcome edit site result R)
    (hR : ∀ new a, R new a → R' new a) : Outcome edit site result R' := by
  have hmap := h.map (g := id) hR
  rwa [Option.map_id] at hmap

namespace Layout

open Block (Swapped sites)

variable {α β : Type} {L : Layout Block α} {L' : Layout Block β} {p : Block → Nat → Bool}
  {edit : Block → Nat → Option Block} {a : α} {bs cs before : List Block} {k : Nat}

/-- What comes of the edit at a site in the blocks of something, before which there are `k`. -/
def Edits (L : Layout Block α) (p : Block → Nat → Bool) (edit : Block → Nat → Option Block) (a : α)
    (k : Nat) (site : Block × Nat) (result : Option α) : Prop :=
  Outcome edit site result fun new => L.Changes (Swapped p site.1 site.2 new k) a

/-- A search that agrees with the sites in the blocks of something. -/
abbrev Visited (L : Layout Block α) (p : Block → Nat → Bool) (edit : Block → Nat → Option Block) (a : α)
    (k : Nat) (r : Nth (Option α)) : Prop :=
  Agrees (L.Edits p edit a) ((L.parts a).flatMap (sites p)) k r

/-- A search that agrees with the sites in the blocks `bs`, which come after the blocks `before` and are
among the blocks `region`. -/
def VisitedIn (L : Layout Block α) (p : Block → Nat → Bool) (edit : Block → Nat → Option Block) (a : α)
    (before region bs : List Block) (k : Nat) (r : Nth (Option α)) : Prop :=
  Agrees (fun k site result => Outcome edit site result fun new =>
    L.ChangesIn (Swapped p site.1 site.2 new k) a before region) (bs.flatMap (sites p)) k r

theorem Visited.last {r : Nth (Option α)} (h : L.Visited p edit a k r) {g : α → β}
    (hparts : ∀ a, L'.parts (g a) = before ++ L.parts a)
    (hbare : ∀ a', L.bare a' = L.bare a → L'.bare (g a') = L'.bare (g a)) :
    L'.VisitedIn p edit (g a) before (L.parts a) (L.parts a) k (r.map (Option.map g)) :=
  h.map fun _ _ _ hresult => hresult.map fun _ _ hchange => hchange.last hparts hbare

theorem Visited.part {r : Nth (Option α)} (h : L.Visited p edit a k r) {g : α → β}
    (hparts : ∀ a, L'.parts (g a) = before ++ (L.parts a ++ cs))
    (hbare : ∀ a', L.bare a' = L.bare a → L'.bare (g a') = L'.bare (g a)) :
    L'.VisitedIn p edit (g a) before (L.parts a ++ cs) (L.parts a) k (r.map (Option.map g)) :=
  h.map fun _ _ _ hresult => hresult.map fun _ _ hchange =>
    hchange.part (hchange.2.append cs) hparts hbare

theorem VisitedIn.next {r : Nth (Option α)} {search : Nat → Nth (Option α)}
    (h : L.VisitedIn p edit a before (bs ++ cs) bs k r)
    (hnext : ∀ j, L.VisitedIn p edit a (before ++ bs) cs cs j (search j)) :
    L.VisitedIn p edit a before (bs ++ cs) (bs ++ cs) k (r.orElse search) := by
  unfold VisitedIn
  rw [List.flatMap_append]
  exact Agrees.orElse h hnext fun _ _ _ hresult => hresult.mono fun _ _ hchange =>
    hchange.behind fun hswapped => hswapped.behind bs

theorem Visited.all {r : Nth (Option α)} (h : L.VisitedIn p edit a [] bs bs k r) (hbs : L.parts a = bs) :
    L.Visited p edit a k r := by
  subst hbs
  exact Agrees.mono h fun _ _ _ hresult => hresult.mono fun _ _ hchange => hchange.all

end Layout

namespace Stmt

open Block (Swapped site)

section

variable {p : Block → Nat → Bool} {edit : Block → Nat → Option Block}

/-- A position is searched before those inside its statement and behind it. -/
theorem atNthSite_agrees {good : Nat → Block × Nat → Option Block → Prop} {xs : List (Block × Nat)}
    {block : Block} {i k : Nat} {further : Nat → Nth (Option Block)}
    (hself : p block i = true → good 0 (block, i) (edit block i))
    (hfurther : ∀ j, Agrees (fun j => good (j + (site p block i).length)) xs j (further j)) :
    Agrees good (site p block i ++ xs) k (atNthSite p edit block i k further) := by
  unfold atNthSite
  unfold site at hfurther ⊢
  split
  · next hp =>
    rw [if_pos hp] at hfurther
    cases k with
    | zero => exact .zero (hself hp)
    | succ k => exact .succ (hfurther k)
  · next hp =>
    rw [if_neg hp] at hfurther
    exact hfurther k

/-- The edit of a block at a site in it or in a block nested in it, before which there are `met` more
than the number says. -/
def EditsFrom (p : Block → Nat → Bool) (edit : Block → Nat → Option Block) (block : Block) (met k : Nat)
    (site : Block × Nat) (result : Option Block) : Prop :=
  Outcome edit site result fun new b' => Swapped p site.1 site.2 new (k + met) [block] [b']

theorem EditsFrom.self {front rest : Block} (hp : p (front ++ rest) front.length = true) :
    EditsFrom p edit (front ++ rest) (sitesFrom p (front ++ rest) front 0).length 0
      (front ++ rest, front.length) (edit (front ++ rest) front.length) := by
  have hhere (new : Block) : Swapped p (front ++ rest) front.length new
      (sitesFrom p (front ++ rest) ((front ++ rest).take front.length) 0).length [front ++ rest] [new] :=
    .here hp [] []
  rw [List.take_left] at hhere
  unfold EditsFrom Outcome
  split
  · next hnone => exact hnone
  · next new hnew =>
    refine ⟨new, hnew, ?_⟩
    rw [Nat.zero_add]
    exact hhere new

/-- An edit inside a statement is one in the block around it. -/
theorem EditsFrom.inside {front ss : Block} {s : Stmt} {k : Nat} {site : Block × Nat}
    {result : Option Stmt} (h : Layout.blocks.Edits p edit s k site result) :
    EditsFrom p edit (front ++ s :: ss) (sitesFrom p (front ++ s :: ss) front 0).length
      (k + (Block.site p (front ++ s :: ss) front.length).length) site
      (result.map ((front ++ s :: ss).set front.length ·)) := by
  refine h.map ?_
  rintro new s' ⟨hbare, hswapped⟩
  have hinside := Swapped.inside [] [] front ss hbare hswapped
  rw [List.flatMap_nil, List.nil_append, List.length_append, Nat.add_comm (List.length _),
    ← Nat.add_assoc] at hinside
  rw [List.set_append_right _ _ (Nat.le_refl _), Nat.sub_self, List.set_cons_zero]
  exact hinside

/-- The statements that have been passed by count with the positions in them. -/
theorem EditsFrom.pass {front ss : Block} {s : Stmt} {k : Nat} {site : Block × Nat}
    {result : Option Block}
    (h : EditsFrom p edit (front ++ s :: ss) (sitesFrom p (front ++ s :: ss) (front ++ [s]) 0).length k
      site result) :
    EditsFrom p edit (front ++ s :: ss) (sitesFrom p (front ++ s :: ss) front 0).length
      (k + (s.sites p).length + (Block.site p (front ++ s :: ss) front.length).length) site result := by
  refine h.mono fun new b' hswapped => ?_
  have hmet : (sitesFrom p (front ++ s :: ss) (front ++ [s]) 0).length =
      (s.sites p).length + (Block.site p (front ++ s :: ss) front.length).length +
        (sitesFrom p (front ++ s :: ss) front 0).length := by
    rw [sitesFrom_append, Nat.zero_add, List.length_append, sitesFrom, sitesFrom, List.append_nil,
      List.length_append, ← Block.site]
    omega
  rw [hmet, ← Nat.add_assoc, ← Nat.add_assoc] at hswapped
  exact hswapped

/-- All positions of a block are those from its start. -/
theorem visited_of_start {block : Block} {k : Nat} {r : Nth (Option Block)}
    (h : Agrees (EditsFrom p edit block 0) (sitesFrom p block block 0) k r) :
    Layout.wholeBlock.Visited p edit block k r := by
  show Agrees _ ([block].flatMap (Block.sites p)) k r
  rw [List.flatMap_singleton]
  exact h.mono fun _ _ _ hresult => hresult.mono fun _ _ hswapped => ⟨rfl, hswapped⟩

end

variable (p : Block → Nat → Bool) (edit : Block → Nat → Option Block)

mutual

/-- The search for a position in a statement agrees with the list of the positions in it. -/
theorem editNth_visited : (s : Stmt) → (k : Nat) → Layout.blocks.Visited p edit s k (s.editNth p edit k)
  | .define ⟨_, _, body, _, _, _⟩, k =>
    .all ((visited_of_start (editFrom_agrees [] body k)).last (fun _ => rfl) fun _ _ => rfl) rfl
  | .cond _ body orelse, k | .forLoop _ _ body orelse, k | .whileLoop _ body orelse, k =>
    .all (.next ((visited_of_start (editFrom_agrees [] body k)).part (fun _ => rfl) fun _ _ => rfl)
      fun k => (visited_of_start (editFrom_agrees [] orelse k)).last (fun _ => rfl) fun _ _ => rfl) rfl
  | .tryBlock body hs orelse final, k =>
    .all (.next ((visited_of_start (editFrom_agrees [] body k)).part (fun _ => rfl) fun _ _ => rfl)
      fun k => .next ((editHandlers_visited hs k).part (fun _ => rfl) fun _ h =>
          congrArg (tryBlock [] · [] []) h) fun k =>
        .next ((visited_of_start (editFrom_agrees [] orelse k)).part (fun _ => rfl) fun _ _ => rfl)
          fun k => (visited_of_start (editFrom_agrees [] final k)).last
            (fun _ => congrArg (body :: ·) (List.append_assoc (hs.map (·.body)) [orelse] [_]).symm)
            fun _ _ => rfl) rfl
  | .ret _, _ | .assign _ _ _, _ | .augAssign _ _ _, _ | .expr _, _ | .raise _ _, _
  | .assert _ _, _ | .importNames _, _ | .importFrom _ _, _ | .globals _, _ | .nonlocals _, _
  | .pass, _ | .break, _ | .continue, _ | .verbatim _ _ _, _ => Agrees.nil

/-- The search at the positions of a block behind the statements `front`. -/
theorem editFrom_agrees (front : Block) : (ss : List Stmt) → (k : Nat) →
    Agrees (EditsFrom p edit (front ++ ss) (sitesFrom p (front ++ ss) front 0).length)
      (sitesFrom p (front ++ ss) ss front.length) k (editFrom p edit (front ++ ss) ss front.length k)
  | [], _ => Agrees.nil
  | s :: ss, k => by
    have hinside (k : Nat) : Agrees (Layout.blocks.Edits p edit s)
        ((Layout.blocks.parts s).flatMap (Block.sites p)) k (s.editNth p edit k) := editNth_visited s k
    have hsites : (Layout.blocks.parts s).flatMap (Block.sites p) = s.sites p := (sites_eq s).symm
    rw [hsites] at hinside
    have hrest := editFrom_agrees (front ++ [s]) ss
    rw [List.append_assoc, List.length_append] at hrest
    exact atNthSite_agrees EditsFrom.self fun k =>
      ((hinside k).map fun _ _ _ => EditsFrom.inside).orElse hrest fun _ _ _ => EditsFrom.pass

theorem editHandlers_visited : (hs : List (HandlerOf Stmt)) → (k : Nat) →
    Layout.bodies.Visited p edit hs k (editHandlers p edit hs k)
  | [], _ => Agrees.nil
  | ⟨type, name, body⟩ :: hs, k =>
    .all (.next ((visited_of_start (editFrom_agrees [] body k)).part (fun _ => rfl) fun _ _ => rfl)
      fun k => (editHandlers_visited hs k).last (fun _ => rfl) fun _ h =>
        congrArg (HandlerOf.mk type name [] :: ·) h) rfl

end

theorem editNth_agrees (s : Stmt) (k : Nat) :
    Agrees (Layout.blocks.Edits p edit s) (s.sites p) k (s.editNth p edit k) := by
  rw [sites_eq]
  exact editNth_visited p edit s k

end Stmt

/-! ## Blocks -/

namespace Block

section

variable {p : Expr → Bool} {f : Expr → Expr} {b : Block} {k : Nat} {x : Expr}

theorem find_eq_hits : find p b = Node.hits p ((Layout.block.parts b).flatMap Node.inside) := by
  rw [Layout.inside_block]
  rfl

theorem replaceList_of_find (hx : (find p b)[k]? = some x) :
    ∃ b', Stmt.replaceList p f b k = .hit b' ∧
      Node.Swapped p x (f x) k (Layout.block.parts b) (Layout.block.parts b') := by
  have h := Stmt.replaceList_searched p f b k
  unfold Layout.Searched Agrees at h
  rw [← find_eq_hits, hx] at h
  obtain ⟨b', hb', -, hswapped⟩ := h
  exact ⟨b', hb', hswapped⟩

theorem replaceList_of_length_le (hk : (find p b).length ≤ k) :
    Stmt.replaceList p f b k = .miss (k - (find p b).length) := by
  have h := Stmt.replaceList_searched p f b k
  unfold Layout.Searched Agrees at h
  rw [← find_eq_hits, List.getElem?_eq_none hk] at h
  exact h

/-- The match numbered `k` in the list of all matches is the one that is replaced, and the block
changes if the match does. -/
theorem replaceNth?_changes (hx : (find p b)[k]? = some x) (hf : f x ≠ x) :
    ∃ b', replaceNth? p f b k = some b' ∧ b' ≠ b := by
  obtain ⟨b', hb', hswapped⟩ := replaceList_of_find (f := f) hx
  exact ⟨b', by rw [replaceNth?, hb', Nth.toOption], fun he => hswapped.ne hf (he ▸ rfl)⟩

end

/-- An expression is replaced exactly if there is a match numbered `k` in the list of all matches. Then
the block that comes out is the block that went in but for that match, in whose place the changed match
stands. -/
theorem replaceNth?_swaps (p : Expr → Bool) (f : Expr → Expr) (b : Block) (k : Nat) :
    ((replaceNth? p f b k).isSome = true ↔ k < (find p b).length) ∧
      ∀ x, (find p b)[k]? = some x → ∃ b', replaceNth? p f b k = some b' ∧
        Node.Swapped p x (f x) k (b.map .stmt) (b'.map .stmt) := by
  constructor
  · by_cases hk : k < (find p b).length
    · obtain ⟨b', hb', -⟩ := replaceList_of_find (f := f) (List.getElem?_eq_getElem hk)
      simp [replaceNth?, hb', Nth.toOption, hk]
    · simp [replaceNth?, replaceList_of_length_le (Nat.not_lt.mp hk), Nth.toOption, hk]
  · intro x hx
    obtain ⟨b', hb', hswapped⟩ := replaceList_of_find (f := f) hx
    exact ⟨b', by rw [replaceNth?, hb', Nth.toOption], hswapped⟩

section

variable {p : Block → Nat → Bool} {edit : Block → Nat → Option Block} {b : Block} {k : Nat}
  {site : Block × Nat}

theorem editFrom_of_sites (edit : Block → Nat → Option Block) (hsite : (sites p b)[k]? = some site) :
    ∃ result, Stmt.editFrom p edit b b 0 k = .hit result ∧
      Outcome edit site result fun new b' => Swapped p site.1 site.2 new k [b] [b'] := by
  have h := Stmt.editFrom_agrees p edit [] b k
  unfold Agrees at h
  rw [show (Stmt.sitesFrom p ([] ++ b) b ([] : Block).length)[k]? = some site from hsite] at h
  exact h

theorem editFrom_of_length_le (hk : (sites p b).length ≤ k) :
    Stmt.editFrom p edit b b 0 k = .miss (k - (sites p b).length) := by
  have h := Stmt.editFrom_agrees p edit [] b k
  unfold Agrees at h
  rw [show (Stmt.sitesFrom p ([] ++ b) b ([] : Block).length)[k]? = none from
    List.getElem?_eq_none hk] at h
  exact h

/-- What is listed as a site satisfies the predicate. -/
theorem holds_of_sites (hsite : (sites p b)[k]? = some site) : p site.1 site.2 = true := by
  obtain ⟨_, -, houtcome⟩ := editFrom_of_sites (fun _ _ => some []) hsite
  obtain ⟨_, -, hswapped⟩ := houtcome
  exact hswapped.holds

/-- The position numbered `k` in the list of all sites is the one that is edited, and the block
changes if the block of the site does. -/
theorem editNth?_changes (hsite : (sites p b)[k]? = some site) {new : Block}
    (hnew : edit site.1 site.2 = some new) (hne : new ≠ site.1) :
    ∃ b', editNth? p edit b k = some b' ∧ b' ≠ b := by
  obtain ⟨result, hresult, houtcome⟩ := editFrom_of_sites edit hsite
  unfold Outcome at houtcome
  rw [hnew] at houtcome
  obtain ⟨b', rfl, hswapped⟩ := houtcome
  exact ⟨b', by rw [editNth?, hresult]; rfl, fun he => hswapped.ne hne (he ▸ rfl)⟩

end

/-- A position is edited exactly if there is one numbered `k` in the list of all positions. The edit
may decline; if it gives a block, then the block that comes out is the block that went in but for the
block of that position, in whose place the edited one stands. -/
theorem editNth?_swaps (p : Block → Nat → Bool) (edit : Block → Nat → Option Block) (b : Block)
    (k : Nat) :
    ((Stmt.editFrom p edit b b 0 k).toOption.isSome = true ↔ k < (sites p b).length) ∧
      ∀ old i, (sites p b)[k]? = some (old, i) →
        Outcome edit (old, i) (editNth? p edit b k) fun new b' => Swapped p old i new k [b] [b'] := by
  constructor
  · by_cases hk : k < (sites p b).length
    · obtain ⟨result, hresult, -⟩ := editFrom_of_sites edit (List.getElem?_eq_getElem hk)
      simp [hresult, Nth.toOption, hk]
    · simp [editFrom_of_length_le (Nat.not_lt.mp hk), Nth.toOption, hk]
  · intro old i hsite
    obtain ⟨result, hresult, houtcome⟩ := editFrom_of_sites edit hsite
    rw [editNth?, hresult]
    exact houtcome

end Block

end Concord

/-!
## Changes inside a block

A block changes at one place in it (`Block.Inside`): in the block itself from some statement on, or in
a branch or a loop of it. What stands in a function defined there or in a guarded block is not inside
in this sense.

Main statement:

* `Block.editNth?_inside`: an edit at a position changes the block at one place, as it changes the block
  of the position.
-/

namespace Concord

open Nth

/-- No position in a function defined here, or in a guarded block, satisfies `p`. -/
def Node.isOpen (p : Block → Nat → Bool) : Node → Bool
  | .stmt (.define f) => ((Stmt.define f).sites p).isEmpty
  | .stmt (.tryBlock body hs orelse final) =>
    ((Stmt.tryBlock body hs orelse final).sites p).isEmpty
  | _ => true

namespace Block

/-- One block becomes the other by a change `R` at one place in it. -/
inductive Inside (R : Block → Block → Prop) : Block → Block → Prop
  | here {b b' : Block} (h : R b b') : Inside R b b'
  | later (s : Stmt) {b b' : Block} (h : Inside R b b') : Inside R (s :: b) (s :: b')
  | condBody (test : Expr) (orelse rest : Block) {b b' : Block} (h : Inside R b b') :
    Inside R (.cond test b orelse :: rest) (.cond test b' orelse :: rest)
  | condElse (test : Expr) (body rest : Block) {b b' : Block} (h : Inside R b b') :
    Inside R (.cond test body b :: rest) (.cond test body b' :: rest)
  | forBody (target iter : Expr) (orelse rest : Block) {b b' : Block} (h : Inside R b b') :
    Inside R (.forLoop target iter b orelse :: rest) (.forLoop target iter b' orelse :: rest)
  | forElse (target iter : Expr) (body rest : Block) {b b' : Block} (h : Inside R b b') :
    Inside R (.forLoop target iter body b :: rest) (.forLoop target iter body b' :: rest)
  | whileBody (test : Expr) (orelse rest : Block) {b b' : Block} (h : Inside R b b') :
    Inside R (.whileLoop test b orelse :: rest) (.whileLoop test b' orelse :: rest)
  | whileElse (test : Expr) (body rest : Block) {b b' : Block} (h : Inside R b b') :
    Inside R (.whileLoop test body b :: rest) (.whileLoop test body b' :: rest)

variable {R : Block → Block → Prop} {b b' : Block}

namespace Inside

theorem after (before : Block) (h : Inside R b b') : Inside R (before ++ b) (before ++ b') := by
  induction before with
  | nil => exact h
  | cons s _ ih => exact .later s ih

/-- Changes step by step at one place are step by step changes inside. -/
theorem steps (h : Inside (Relation.ReflTransGen (Inside R)) b b') :
    Relation.ReflTransGen (Inside R) b b' := by
  induction h with
  | here h => exact h
  | later s _ ih => exact ih.lift (s :: ·) fun _ _ => Inside.later s
  | condBody test orelse rest _ ih =>
    exact ih.lift (fun b => .cond test b orelse :: rest) fun _ _ => Inside.condBody test orelse rest
  | condElse test body rest _ ih =>
    exact ih.lift (fun b => .cond test body b :: rest) fun _ _ => Inside.condElse test body rest
  | forBody target iter orelse rest _ ih =>
    exact ih.lift (fun b => .forLoop target iter b orelse :: rest) fun _ _ =>
      Inside.forBody target iter orelse rest
  | forElse target iter body rest _ ih =>
    exact ih.lift (fun b => .forLoop target iter body b :: rest) fun _ _ =>
      Inside.forElse target iter body rest
  | whileBody test orelse rest _ ih =>
    exact ih.lift (fun b => .whileLoop test b orelse :: rest) fun _ _ =>
      Inside.whileBody test orelse rest
  | whileElse test body rest _ ih =>
    exact ih.lift (fun b => .whileLoop test body b :: rest) fun _ _ => Inside.whileElse test body rest

end Inside

end Block

namespace Stmt

open Block (Inside)

variable {α β : Type} {p : Block → Nat → Bool} {edit : Block → Nat → Option Block}
  {R : Block → Block → Prop}

/-- A result comes from an edit at the site, and is good if the edit is a change `R`. -/
def Carries (edit : Block → Nat → Option Block) (R : Block → Block → Prop) (good : α → Prop)
    (site : Block × Nat) (result : Option α) : Prop :=
  ∀ a, result = some a → ∃ b, edit site.1 site.2 = some b ∧ (R site.1 b → good a)

theorem Carries.under {xs : List (Block × Nat)} {k : Nat} {good : α → Prop} {good' : β → Prop}
    {r : Nth (Option α)} (h : Agrees (fun _ => Carries edit R good) xs k r) (g : α → β)
    (hg : ∀ a, good a → good' (g a)) :
    Agrees (fun _ => Carries edit R good') xs k (r.map (Option.map g)) := by
  refine h.map ?_
  rintro _ site result hresult _ ha
  obtain ⟨a, rfl, rfl⟩ := Option.map_eq_some_iff.mp ha
  obtain ⟨b, hb, hgood⟩ := hresult a rfl
  exact ⟨b, hb, fun hR => hg a (hgood hR)⟩

/-- Where there are no sites, the search passes by. -/
theorem agrees_of_isEmpty {good good' : Nat → Block × Nat → Option α → Prop} {xs : List (Block × Nat)}
    {k : Nat} {r : Nth (Option α)} (h : Agrees good xs k r) (hxs : xs.isEmpty = true) :
    Agrees good' xs k r := by
  cases List.isEmpty_iff.mp hxs
  exact h

variable (p edit R)

mutual

/-- An edit at a position inside a statement. -/
theorem editNth_inside : (s : Stmt) → (∀ x ∈ s.nodes, x.isOpen p = true) → (k : Nat) →
    Agrees (fun _ => Carries edit R fun s' => ∀ rest, Inside R (s :: rest) (s' :: rest)) (s.sites p) k
      (s.editNth p edit k)
  | .define f, h, k => by
    have hnone : ((Stmt.define f).sites p).isEmpty = true :=
      h (.stmt (.define f)) (by rw [nodes]; exact List.mem_cons_self)
    exact agrees_of_isEmpty (editNth_agrees p edit (.define f) k) hnone
  | .tryBlock body hs orelse final, h, k => by
    have hnone : ((Stmt.tryBlock body hs orelse final).sites p).isEmpty = true :=
      h (.stmt (.tryBlock body hs orelse final)) (by rw [nodes]; exact List.mem_cons_self)
    exact agrees_of_isEmpty (editNth_agrees p edit (.tryBlock body hs orelse final) k) hnone
  | .cond t body orelse, h, k => by
    simp only [nodes, List.forall_mem_cons, List.forall_mem_append] at h
    rw [editNth, sites]
    exact (Carries.under (editFrom_inside body body 0 [] rfl rfl h.2.2.1 k) (cond t · orelse)
      fun _ hb rest => .condBody t orelse rest hb).orElse_const fun k =>
        Carries.under (editFrom_inside orelse orelse 0 [] rfl rfl h.2.2.2 k) (cond t body ·)
          fun _ hb rest => .condElse t body rest hb
  | .forLoop t i body orelse, h, k => by
    simp only [nodes, List.forall_mem_cons, List.forall_mem_append] at h
    rw [editNth, sites]
    exact (Carries.under (editFrom_inside body body 0 [] rfl rfl h.2.2.1 k) (forLoop t i · orelse)
      fun _ hb rest => .forBody t i orelse rest hb).orElse_const fun k =>
        Carries.under (editFrom_inside orelse orelse 0 [] rfl rfl h.2.2.2 k) (forLoop t i body ·)
          fun _ hb rest => .forElse t i body rest hb
  | .whileLoop t body orelse, h, k => by
    simp only [nodes, List.forall_mem_cons, List.forall_mem_append] at h
    rw [editNth, sites]
    exact (Carries.under (editFrom_inside body body 0 [] rfl rfl h.2.2.1 k) (whileLoop t · orelse)
      fun _ hb rest => .whileBody t orelse rest hb).orElse_const fun k =>
        Carries.under (editFrom_inside orelse orelse 0 [] rfl rfl h.2.2.2 k) (whileLoop t body ·)
          fun _ hb rest => .whileElse t body rest hb
  | .ret _, _, _ | .assign _ _ _, _, _ | .augAssign _ _ _, _, _ | .expr _, _, _ | .raise _ _, _, _
  | .assert _ _, _, _ | .importNames _, _, _ | .importFrom _ _, _, _ | .globals _, _, _
  | .nonlocals _, _, _ | .pass, _, _ | .break, _, _ | .continue, _, _ | .verbatim _ _ _, _, _ => by
    rw [editNth, sites]
    exact Agrees.nil

/-- An edit at the positions of a block from `i` on, behind the statements `before`. -/
theorem editFrom_inside (block : Block) : (ss : List Stmt) → (i : Nat) → (before : Block) →
    block = before ++ ss → i = before.length → (∀ x ∈ nodesList ss, x.isOpen p = true) → (k : Nat) →
    Agrees (fun _ => Carries edit R (Inside R block)) (sitesFrom p block ss i) k
      (editFrom p edit block ss i k)
  | [], _, _, _, _, _, _ => Agrees.nil
  | s :: ss, i, before, hblock, hi, h, k => by
    simp only [nodesList, List.forall_mem_append] at h
    have hinside := fun k => (Carries.under (editNth_inside s h.1 k) (block.set i ·)
      fun s' hs => show Inside R block (block.set i s') by
        subst hi
        rw [hblock, List.set_append_right _ _ (Nat.le_refl _), Nat.sub_self, List.set_cons_zero]
        exact (hs ss).after before).orElse_const
      (editFrom_inside block ss (i + 1) (before ++ [s]) (by rw [hblock]; simp) (by simp [hi]) h.2)
    rw [editFrom, sitesFrom]
    exact atNthSite_agrees (fun _ b hb => ⟨b, hb, .here⟩) hinside

end

end Stmt

namespace Block

/-- An edit at a position changes the block at one place, as it changes the block of the position. -/
theorem editNth?_inside {p : Block → Nat → Bool} {edit : Block → Nat → Option Block}
    {R : Block → Block → Prop} {b b' : Block} {k : Nat} {site : Block × Nat}
    (hopen : ∀ x ∈ Block.nodes b, x.isOpen p = true) (hsite : (sites p b)[k]? = some site)
    (h : editNth? p edit b k = some b') :
    ∃ new, edit site.1 site.2 = some new ∧ (R site.1 new → Inside R b b') := by
  have hagrees := Stmt.editFrom_inside p edit R b b 0 [] rfl rfl hopen k
  unfold sites at hsite
  unfold Agrees at hagrees
  rw [hsite] at hagrees
  obtain ⟨result, hresult, hcarries⟩ := hagrees
  rw [editNth?, hresult] at h
  exact hcarries b' h

end Block

end Concord
