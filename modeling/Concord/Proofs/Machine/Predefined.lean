import Concord.Proofs.Machine.Upkeep

/-!
# Predefined functions, methods and arguments

Predefined functions and methods keep states sound if the calls by which they call back do (`Applies`).
Binding arguments makes a dictionary of those that are passed by name and taken by no parameter; its keys
are their names, which are distinct if the call names every argument once.
-/

namespace Concord.Machine

variable {α β : Type} {strict : Prop} {h k : Heap}

/-! ## Arguments -/

theorem backed_argAt {args : List Value} (hargs : Backed h args) (i : Nat) : Backed h (argAt args i) :=
  hargs.getD i trivial

theorem takeKeyword_fst (name : String) {keywords : Keywords} (hkeywords : Backed h keywords) :
    Backed h (takeKeyword name keywords).1 := by
  induction keywords with
  | nil => exact backed_none
  | cons p keywords ih =>
    obtain ⟨n, v⟩ := p
    rw [backed_cons] at hkeywords
    rw [takeKeyword]
    split
    · exact backed_some.mpr hkeywords.1.2
    · exact ih hkeywords.2

theorem takeKeyword_snd (name : String) (keywords : Keywords) :
    (takeKeyword name keywords).2.Sublist keywords := by
  induction keywords with
  | nil => exact .refl _
  | cons p keywords ih =>
    obtain ⟨n, v⟩ := p
    rw [takeKeyword]
    split
    · exact List.sublist_cons_self _ _
    · exact ih.cons_cons _

theorem backed_rows {columns : List (List Value)} (hcolumns : Backed h columns) :
    Backed h (rows columns) := by
  intro row hrow
  obtain ⟨i, -, rfl⟩ := List.mem_map.mp hrow
  exact hcolumns.map fun c hc => backed_argAt hc i

/-- Calling back keeps states sound. -/
def Applies (strict : Prop) (apply : Apply) : Prop :=
  ∀ (k : Heap) (f : Value) (xs : List Value), Backed k xs → Tracks strict k (apply f xs)

namespace Yields

/-! ## Predefined functions -/

theorem lengthOf (v : Value) : Tracks strict h (lengthOf v) := by
  unfold Machine.lengthOf
  cases v with
  | str s | range start stop step => exact ret trivial
  | list r | set r | tuple r | dict r => exact ask.seq fun _ => ret trivial
  | _ => exact throw _

theorem entriesOf {pairs : List Value} (hpairs : Backed h pairs) :
    Yields strict h (entriesOf pairs) (.entered strict) := by
  refine foldlM .nil hpairs fun k entries pair _ hentries hpair => ?_
  refine (iterate pair).track fun l parts hle hparts => ?_
  split
  · rw [backed_cons, backed_cons] at hparts
    exact insertEntry (hentries.mono hle) hparts.1 hparts.2.1
  · exact throw _

theorem sumOf (items start : Value) (hstart : Backed h start) : Tracks strict h (sumOf items start) := by
  unfold Machine.sumOf
  split
  · exact throw _
  · refine (iterate items).track fun k vs hle hvs => ?_
    exact foldlM (hstart.mono hle) hvs fun l total x _ _ _ => binary .add total x

theorem bestPair {first : Value × Value} {rest : List (Value × Value)} (hfirst : Backed h first)
    (hrest : Backed h rest) (wins : Ordering) :
    Yields strict h (Exec.ofHeap (·.bestPair wins first rest)) (.clean _) :=
  ofHeap fun k _ hle => clean_bestPair (hfirst.mono hle) (hrest.mono hle) k wins

theorem withKeys {apply : Apply} (happly : Applies strict apply) (key : Option Value) {items : List Value}
    (hitems : Backed h items) : Tracks strict h (withKeys apply key items) := by
  cases key with
  | none => exact ret (hitems.map fun v hv => ⟨hv, hv⟩)
  | some f =>
    refine mapM hitems fun k x _ hx => ?_
    refine (happly k f [x] (backed_cons.mpr ⟨hx, backed_nil⟩)).track fun l key hle hkey => ?_
    exact ret ⟨hkey, hx.mono hle⟩

theorem orderedCall {apply : Apply} (happly : Applies strict apply) (b : Builtin) {args : List Value}
    {keywords : Keywords} (hargs : Backed h args) (hkeywords : Backed h keywords) :
    Tracks strict h (orderedCall apply b args keywords) := by
  have hdefault : Backed h (takeKeyword "default" (takeKeyword "reverse" (takeKeyword "key" keywords).2).2).1 :=
    takeKeyword_fst _ ((hkeywords.sub (takeKeyword_snd _ _).subset).sub (takeKeyword_snd _ _).subset)
  unfold Machine.orderedCall
  dsimp only
  -- With and without `reverse`; then by the number of arguments.
  split
  all_goals
    refine start fun k _ hle => ?_
    first
    | refine (truthy _).track fun l downwards hle' _ => check.seq fun _ => ?_
    | refine (ret (Q := .nothing _) trivial).bind fun l downwards hle' _ => check.seq fun _ => ?_
    replace hle := hle.trans hle'
    rcases args with _ | ⟨v, _ | ⟨w, rest⟩⟩
    case nil => exact stop _
    case' cons.nil => refine (iterate v).track fun m vs hm hvs => ?_
    case' cons.cons => refine orStop ((ret (hargs.mono hle)).track fun m vs hm hvs => ?_)
    all_goals
      refine (withKeys happly _ hvs).track fun n pairs hn hpairs => ?_
      replace hdefault := hdefault.mono (hle.trans (hm.trans hn))
      split
      · exact (sortValues hpairs downwards).track fun _ vs _ hvs => newList hvs
      · cases pairs with
        | nil =>
          dsimp only
          split
          · rename_i v hv
            rw [hv] at hdefault
            exact ret (backed_some.mp hdefault)
          · exact throw _
        | cons first rest =>
          rw [backed_cons] at hpairs
          refine (bestPair hpairs.1 hpairs.2 _).bind fun _ r _ hr => ?_
          exact (clean hr).track fun _ best _ hbest => ret hbest.2

theorem plainCall {apply : Apply} (happly : Applies strict apply) (b : Builtin) {args : List Value}
    (hargs : Backed h args) : Tracks strict h (plainCall apply b args) := by
  have hcolumns {columns : List Value} (hcolumns : Backed h columns) :
      Tracks strict h (columns.mapM Machine.iterate) := mapM hcolumns fun k v _ _ => iterate v
  unfold Machine.plainCall
  cases b with
  | print => exact ret trivial
  | len => exact check.seq fun _ => lengthOf _
  | abs => exact check.seq fun _ => clean (clean_absolute _)
  | bool => exact check.seq fun _ => (truthy _).seq fun _ => ret trivial
  | int =>
    refine check.seq fun _ => ?_
    split
    · exact ret trivial
    · exact clean (clean_toInt _)
  | float =>
    refine check.seq fun _ => ?_
    split
    · exact ret trivial
    · exact clean (clean_toFloat _)
  | str =>
    refine check.seq fun _ => ?_
    split
    · exact ret trivial
    · exact ask.seq fun _ => ret trivial
  | list | tuple | set =>
    refine track (α := List Value) (check.seq fun _ => ?_) fun k vs _ hvs => ?_
    · cases args with
      | nil => exact ret backed_nil
      | cons v _ => exact iterate v
    · first | exact newList hvs | exact newTuple hvs | exact makeSet hvs
  | dict =>
    refine check.seq fun _ => ?_
    split
    · exact newDict .nil
    · exact (entries _).bind fun k es _ hes => newDict hes
    · refine (iterate _).track fun k pairs _ hpairs => ?_
      exact (entriesOf hpairs).bind fun k es _ hes => newDict hes
  | range =>
    refine check.seq fun _ => (mapM hargs fun k v _ _ => check).seq fun bounds => ?_
    exact clean (clean_rangeOf bounds)
  | sum =>
    have hstart : Backed h (args[1]?.getD (.int 0)) := hargs.getD 1 trivial
    exact check.track fun k _ hle _ => sumOf _ _ (hstart.mono hle)
  | reversed =>
    refine check.seq fun _ => (iterate _).track fun k vs _ hvs => newList (hvs.sub fun v hv => ?_)
    exact List.mem_reverse.mp hv
  | enumerate =>
    have hrow {k : Heap} {x : Value} (start : Int) (hx : Backed k x) :
        Tracks strict k (Exec.newTuple [.int start, x]) :=
      newTuple (backed_cons.mpr ⟨trivial, backed_cons.mpr ⟨hx, backed_nil⟩⟩)
    have hnumbers {k : Heap} {vs : List Value} (hvs : Backed k vs) : Backed k vs.zipIdx :=
      fun p hp => ⟨hvs _ (List.fst_mem_of_mem_zipIdx hp), trivial⟩
    refine check.seq fun _ => ?_
    dsimp only
    split
    · refine (ret (Q := .nothing _) trivial).seq fun _ => (iterate _).track fun k vs _ hvs => ?_
      exact mapNew (hnumbers hvs) fun l p _ hp => hrow _ hp.1
    · refine check.seq fun _ => (iterate _).track fun k vs _ hvs => ?_
      exact mapNew (hnumbers hvs) fun l p _ hp => hrow _ hp.1
  | zip =>
    refine (hcolumns hargs).track fun k columns _ hcolumns => ?_
    exact mapNew (backed_rows hcolumns) fun l row _ hrow => newTuple hrow
  | map =>
    dsimp only
    split
    · rw [backed_cons] at hargs
      refine (hcolumns hargs.2).track fun k columns _ hcolumns => ?_
      exact mapNew (backed_rows hcolumns) fun l row _ hrow => happly l _ row hrow
    · exact throw _
  | filter =>
    refine check.seq fun _ => (iterate _).track fun k vs _ hvs => ?_
    refine (filterM hvs fun l v _ hv => ?_).track fun l kept _ hkept => newList hkept
    split
    · exact truthy v
    · exact (happly l _ [v] (backed_cons.mpr ⟨hv, backed_nil⟩)).seq fun _ => truthy _
  | any | all => exact check.seq fun _ => (iterate _).seq fun _ => ask.seq fun _ => ret trivial
  | round =>
    refine check.seq fun _ => ?_
    dsimp only
    split
    · exact (ret (Q := .nothing _) trivial).seq fun places => clean (clean_rounded _ places)
    · refine seq (Q := .nothing _) ?_ fun places => clean (clean_rounded _ places)
      exact check.seq fun _ => ret trivial
  | divmod =>
    refine check.seq fun _ => (binary .floorDiv _ _).track fun k quotient hle hquotient => ?_
    refine (binary .mod _ _).track fun l remainder hle' hremainder => newTuple ?_
    exact backed_cons.mpr ⟨hquotient.mono hle', backed_cons.mpr ⟨hremainder, backed_nil⟩⟩
  | pow => exact check.seq fun _ => binary .pow _ _
  | ord => exact check.seq fun _ => check.seq fun _ => clean (clean_codePoint _)
  | chr => exact check.seq fun _ => check.seq fun _ => clean (clean_character _)
  | isInstance =>
    refine check.seq fun _ => ?_
    split
    · exact ask.seq fun _ => ret trivial
    · exact ask.seq fun _ => ret trivial
  | min | max | sorted => exact orderedCall happly _ hargs backed_nil

theorem native {apply : Apply} (happly : Applies strict apply) (b : Builtin) {args : List Value}
    {keywords : Keywords} (hargs : Backed h args) (hkeywords : Backed h keywords) :
    Tracks strict h (native apply b args keywords) := by
  unfold Machine.native
  refine (charge 1).track fun k _ hle _ => ?_
  replace hargs := hargs.mono hle
  split
  · exact orderedCall happly _ hargs (hkeywords.mono hle)
  · exact orderedCall happly _ hargs (hkeywords.mono hle)
  · exact orderedCall happly _ hargs (hkeywords.mono hle)
  · exact check.track fun l _ hle' _ => plainCall happly b (hargs.mono hle')

/-! ## Methods -/

theorem joinText (separator : String) (items : Value) : Tracks strict h (joinText separator items) := by
  refine (iterate items).seq fun vs => check.seq fun pieces => ?_
  exact (charge _).seq fun _ => ret trivial

theorem standsAt (method : String) (holds : List Char → Bool) (args : List Value) :
    Tracks strict h (standsAt method holds args) := by
  unfold Machine.standsAt
  split
  · refine (tupleItems _).track fun k vs _ hvs => ?_
    exact (mapM hvs fun l v _ _ => check).seq fun options => ret trivial
  · exact check.seq fun _ => ret trivial

theorem textMethod (s name : String) (args : List Value) : Tracks strict h (textMethod s name args) := by
  unfold Machine.textMethod
  split
  case h_6 =>
    refine check.seq fun pieces => newList fun v hv => ?_
    obtain ⟨piece, -, rfl⟩ := List.mem_map.mp hv
    trivial
  case h_7 => exact check.seq fun _ => joinText s _
  case h_8 => exact standsAt _ _ args
  case h_9 => exact standsAt _ _ args
  case h_10 => exact clean (clean_replaceText _ args)
  -- The other methods answer with a text, a number or a truth value.
  all_goals first
    | exact ret trivial
    | exact throw _
    | exact check.seq fun _ => ret trivial
    | exact check.seq fun _ => check.seq fun _ => ret trivial

theorem sequenceQuery (typeName : String) (items : List Value) (name : String) (args : List Value) :
    Tracks strict h (sequenceQuery typeName items name args) := by
  unfold Machine.sequenceQuery
  split
  · refine check.seq fun _ => ask.seq fun found => ?_
    split
    · exact ret trivial
    · exact throw _
  · exact check.seq fun _ => ask.seq fun _ => ret trivial
  · exact throw _

theorem sortList {apply : Apply} (happly : Applies strict apply) (r : Ref) (keywords : Keywords) :
    Tracks strict h (sortList apply r keywords) := by
  have hsort (key : Option Value) (downwards : Bool) : Tracks strict h (do
      let items ← Exec.ofHeap (·.list r)
      let pairs ← Machine.withKeys apply key items
      Exec.setList r (← Machine.sortValues pairs downwards)
      return Value.none) := by
    refine (items r).track fun k vs _ hvs => (withKeys happly key hvs).track fun l pairs _ hpairs => ?_
    exact (sortValues hpairs downwards).track fun m vs _ hvs => (setList r hvs).seq fun _ => ret trivial
  unfold Machine.sortList
  dsimp only
  split
  · exact (truthy _).seq fun downwards => check.seq fun _ => hsort _ downwards
  · exact (ret (Q := .nothing _) trivial).seq fun downwards => check.seq fun _ => hsort _ downwards

theorem listMethod (r : Ref) (name : String) {args : List Value} (hargs : Backed h args) :
    Tracks strict h (listMethod r name args) := by
  unfold Machine.listMethod
  refine (items r).track fun k vs hle hvs => ?_
  replace hargs := hargs.mono hle
  have herase (i : Nat) : Backed k (vs.eraseIdx i) := hvs.sub List.eraseIdx_subset
  split
  · exact check.seq fun _ => (setList r (backed_append.mpr ⟨hvs, hargs⟩)).seq fun _ => ret trivial
  · refine check.seq fun _ => (iterate _).track fun l extra hle' hextra => ?_
    exact (setList r (backed_append.mpr ⟨hvs.mono hle', hextra⟩)).seq fun _ => ret trivial
  · refine check.seq fun _ => check.seq fun place => (setList r fun v hv => ?_).seq fun _ => ret trivial
    rcases List.eq_or_mem_of_mem_insertIdx hv with rfl | hv
    · exact backed_argAt hargs 1
    · exact hvs v hv
  · have hpop (place : Nat) : Tracks strict k (do
        Exec.setList r (vs.eraseIdx place)
        return argAt vs place) :=
      (setList r (herase place)).track fun l _ hle' _ => ret ((backed_argAt hvs place).mono hle')
    refine check.seq fun _ => orStop ?_
    split
    · exact (ret (Q := .nothing _) trivial).seq hpop
    · exact check.seq hpop
  · refine check.seq fun _ => ask.seq fun found => ?_
    split
    · exact (setList r (herase _)).seq fun _ => ret trivial
    · exact throw _
  · exact (setList r backed_nil).seq fun _ => ret trivial
  · exact (setList r (hvs.sub fun v hv => List.mem_reverse.mp hv)).seq fun _ => ret trivial
  · exact newList hvs
  · exact sequenceQuery "list" vs name args

theorem dictMethod (r : Ref) (name : String) {args : List Value} (hargs : Backed h args) :
    Tracks strict h (dictMethod r name args) := by
  unfold Machine.dictMethod
  refine (entries r).bind fun k es hle hes => ?_
  replace hargs := hargs.mono hle
  have herase (i : Nat) : Entered strict k (es.eraseIdx i) := hes.sublist (List.eraseIdx_sublist _ _)
  have hfind : Tracks strict k (Exec.ofHeap (·.valueOf? es (argAt args 0))) :=
    ofHeap fun l _ hle' => backed_valueOf? (hes.backed.mono hle')
  split
  · refine check.track fun l _ hle' _ => (hfind.later hle').track fun m found hm hfound => ret ?_
    exact hfound.optionGetD (backed_argAt (hargs.mono (hle'.trans hm)) 1)
  · exact newList (hes.backed.map fun e he => he.1)
  · exact newList (hes.backed.map fun e he => he.2)
  · refine mapNew hes.backed fun l e _ he => newTuple ?_
    exact backed_cons.mpr ⟨he.1, backed_cons.mpr ⟨he.2, backed_nil⟩⟩
  · refine check.track fun l _ hle' _ => (hfind.later hle').track fun m found hm hfound => ?_
    replace hle' := hle'.trans hm
    replace hargs := hargs.mono hle'
    split
    · exact ret (backed_some.mp hfound)
    · refine (insertEntry (hes.mono hle') (backed_argAt hargs 0) (backed_argAt hargs 1)).bind ?_
      refine fun o es' ho hes' => (setDict r hes').track fun p _ hp _ => ret ?_
      exact (backed_argAt hargs 1).mono (ho.trans hp)
  · refine check.track fun l _ hle' _ => ask.bind fun m found hm _ => ?_
    replace hle' := hle'.trans hm
    cases found with
    | some i =>
      refine (setDict r ((herase i).mono hle')).track fun o _ ho _ => ret ?_
      exact backed_argAt (hes.values.mono (hle'.trans ho)) i
    | none =>
      dsimp only
      split
      · replace hargs := hargs.mono hle'
        rw [backed_cons, backed_cons] at hargs
        exact ret hargs.2.1
      · exact ask.seq fun _ => throw _
  · refine check.seq fun _ => ?_
    split
    · refine (entries _).bind fun l additions _ hadditions => ?_
      refine (forIn (f := fun e _ => _) hadditions.backed fun m e u _ he => ?_).seq fun _ => ret trivial
      refine (entries r).bind fun o es' ho hes' => ?_
      refine (insertEntry hes' (he.1.mono ho) (he.2.mono ho)).bind fun p es' _ hes' => ?_
      exact (setDict r hes').seq fun _ => ret trivial
    · exact throw _
  · exact newDict hes
  · exact (setDict r .nil).seq fun _ => ret trivial
  · exact throw _

theorem setMethod (r : Ref) (name : String) {args : List Value} (hargs : Backed h args) :
    Tracks strict h (setMethod r name args) := by
  unfold Machine.setMethod
  refine (members r).bind fun k vs hle hvs => ?_
  have hitem := backed_argAt (hargs.mono hle) 0
  -- A value that has no place among the members may become one.
  let place : Fact (Option Nat) :=
    ⟨fun l p => p = none → l.Distinct True (vs ++ [argAt args 0]), fun hp hle hnone => (hp hnone).mono hle⟩
  have hplace : Yields strict k (do
      liftM (arity name args 1 1)
      if ← Exec.ofHeap (·.hashable (argAt args 0)) then Exec.ofHeap (·.indexOf? vs (argAt args 0))
      else MonadExcept.throw (.unhashable (argAt args 0)) : Exec (Option Nat)) place := by
    refine check.bind fun l _ hl _ => asKey (hitem.mono hl) (fun m hm hkey => ?_) (throw _)
    refine ofHeap fun o _ ho hnone => (hvs.mono (hl.trans (hm.trans ho))).append (hkey.mono ho) fun a ha => ?_
    exact List.findIdx?_eq_none_iff.mp hnone a ha
  have herase {l : Heap} (hle : k.Before l) (i : Nat) : l.Distinct True (vs.eraseIdx i) :=
    (hvs.mono hle).sublist (List.eraseIdx_sublist _ _)
  split
  · refine hplace.bind fun l p _ hp => ?_
    cases p with
    | none => exact (setSet r (hp rfl)).seq fun _ => ret trivial
    | some i => exact ret trivial
  · refine hplace.bind fun l p hle _ => ?_
    cases p with
    | none => exact ret trivial
    | some i => exact (setSet r (herase hle i)).seq fun _ => ret trivial
  · refine hplace.bind fun l p hle _ => ?_
    cases p with
    | none => exact ask.seq fun _ => stop _
    | some i => exact (setSet r (herase hle i)).seq fun _ => ret trivial
  · exact newSet hvs
  · exact throw _

theorem callMethod {apply : Apply} (happly : Applies strict apply) (receiver : Value) (name : String)
    {args : List Value} (hargs : Backed h args) (keywords : Keywords) :
    Tracks strict h (callMethod apply receiver name args keywords) := by
  unfold Machine.callMethod
  refine (charge 1).track fun k _ hle _ => ?_
  replace hargs := hargs.mono hle
  cases receiver with
  | list r =>
    dsimp only
    split
    · exact sortList happly r keywords
    · exact check.track fun l _ hle' _ => listMethod r name (hargs.mono hle')
  | str s => exact check.seq fun _ => textMethod s name args
  | dict r => exact check.track fun l _ hle' _ => dictMethod r name (hargs.mono hle')
  | set r => exact check.track fun l _ hle' _ => setMethod r name (hargs.mono hle')
  | tuple r => exact check.seq fun _ => (tupleItems r).seq fun vs => sequenceQuery "tuple" vs name args
  | _ => exact throw _

/-! ## Binding arguments -/

end Yields

/-- Arguments on their way: their tuples have been made, and the names passed are distinct. -/
structure Passing.Sound (strict : Prop) (h : Heap) (p : Passing) : Prop where
  positional : Backed h p.positional
  keywords : Backed h p.keywords
  names : strict → (p.keywords.map Prod.fst).Nodup
  vars : Backed h p.vars

theorem Passing.Sound.mono {p : Passing} (hp : p.Sound strict h) (hle : h.Before k) : p.Sound strict k :=
  ⟨hp.positional.mono hle, hp.keywords.mono hle, hp.names, hp.vars.mono hle⟩

/-- Arguments on their way to parameters. -/
@[reducible] def Fact.passing (strict : Prop) : Fact Passing := ⟨Passing.Sound strict, Passing.Sound.mono⟩

/-- Names are keys, and different names are different keys. -/
theorem Heap.distinct_names {names : List String} (hnames : strict → names.Nodup) :
    h.Distinct strict (names.map .str) := by
  obtain ⟨d, hd⟩ := Nat.exists_eq_add_one_of_ne_zero (Nat.ne_of_gt (Nat.zero_lt_of_lt h.size_lt_depth))
  refine ⟨fun v hv => ?_, fun hstrict => ?_⟩
  · obtain ⟨name, -, rfl⟩ := List.mem_map.mp hv
    refine ⟨trivial, ?_⟩
    rw [hashable, hd]
    rfl
  · refine List.pairwise_map.mpr ((hnames hstrict).imp fun {m n} hne => ?_)
    rw [equal, hd]
    exact beq_false_of_ne hne

/-- What is passed by name makes a dictionary. -/
theorem Passing.Sound.entered {p : Passing} (hp : p.Sound strict h) :
    Entered strict h (p.keywords.map fun (k, v) => (.str k, v)) := by
  refine ⟨?_, ?_⟩
  · have hkeys := Heap.distinct_names (h := h) hp.names
    rw [List.map_map] at hkeys ⊢
    exact hkeys
  · rw [List.map_map]
    exact hp.keywords.map fun e he => he.2

theorem Passing.Sound.take {p q : Passing} (hp : p.Sound strict h) {function name : String}
    {default : Option Value} (hdefault : Backed h default) (hq : p.take function name default = .ok q) :
    q.Sound strict h := by
  have htaken := takeKeyword_fst name hp.keywords
  have hsub := takeKeyword_snd name p.keywords
  unfold Passing.take at hq
  split at hq
  · rename_i v rest _ hpositional
    cases hq
    have hpassed := hp.positional
    rw [hpositional, backed_cons] at hpassed
    exact { hp with positional := hpassed.2, vars := backed_set hp.vars hpassed.1 }
  · dsimp only at hq
    split at hq
    · rename_i v _ hfound
      cases hq
      rw [hfound] at htaken
      exact { hp with
        keywords := hp.keywords.sub hsub.subset
        names := fun hstrict => (hp.names hstrict).sublist (hsub.map _)
        vars := backed_set hp.vars (backed_some.mp htaken) }
    · cases hq
      exact { hp with vars := backed_set hp.vars (backed_some.mp hdefault) }
    · cases hq

namespace Yields

theorem bindParams (function : String) {params : List (Param × Option Value)} {p : Passing}
    (hparams : Backed h params) (hp : p.Sound strict h) :
    Yields strict h (bindParams function params p) (.passing strict) := by
  induction params generalizing h p with
  | nil => exact ret hp
  | cons param params ih =>
    obtain ⟨param, default⟩ := param
    rw [backed_cons] at hparams
    rw [Machine.bindParams]
    have hnext {k : Heap} {x : Exec Passing} (hle : h.Before k) (hx : Yields strict k x (.passing strict)) :
        Yields strict k (x >>= Machine.bindParams function params) (.passing strict) :=
      hx.bind fun l q hle' hq => ih (hparams.2.mono (hle.trans hle')) hq
    refine start fun k _ hle => ?_
    replace hp := hp.mono hle
    cases hkind : param.kind with
    | positionalOnly => exact hnext hle (ret hp)
    | keywordOnly => exact hnext hle (ret { hp with })
    | varArgs =>
      refine (newTuple hp.positional).track fun l items hle' hitems => hnext (hle.trans hle') (ret ?_)
      exact ⟨backed_nil, hp.keywords.mono hle', hp.names, backed_set (hp.vars.mono hle') hitems⟩
    | kwArgs =>
      refine (newDict hp.entered).track fun l dict hle' hdict => hnext (hle.trans hle') (ret ?_)
      exact ⟨hp.positional.mono hle', backed_nil, fun _ => .nil, backed_set (hp.vars.mono hle') hdict⟩
    | regular => exact hnext hle (ofExcept fun q hq => hp.take (hparams.1.2.mono hle) hq)

theorem bindArguments {c : Closure} {args : List Value} {keywords : Keywords} (hc : Backed h c.params)
    (hargs : Backed h args) (hkeywords : Backed h keywords)
    (hnames : strict → (keywords.map Prod.fst).Nodup) :
    Tracks strict h (bindArguments c args keywords) := by
  unfold Machine.bindArguments
  refine (bindParams c.name hc ⟨hargs, hkeywords, hnames, backed_nil⟩).bind fun k p _ hp => ?_
  split
  · exact throw _
  · exact throw _
  · exact ret hp.vars

end Yields

end Concord.Machine
