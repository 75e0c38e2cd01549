import Concord.Proofs.Machine.Sound

/-!
# Containers in good order

Operators, the reading and changing of containers, predefined functions and methods keep states sound, and
what they give back are values whose tuples have been made. They put a member into a set or a key into a
dictionary only after a look at those that are there; what comes from a sound set or dictionary, or is left
of it, needs no look.
-/

namespace Concord.Machine

variable {α β : Type} {strict : Prop} {h k : Heap}

/-! ## Results without a state -/

namespace Clean

variable [Tracked α] [Tracked β]

theorem ok {a : α} (ha : Backed h a) : Clean h (.ok a : Except Signal α) := by
  rintro _ ⟨⟩
  exact ha

theorem error {e : Signal} : Clean h (.error e : Except Signal α) := nofun

theorem bind {r : Except Signal α} {f : α → Except Signal β} (hr : Clean h r)
    (hf : ∀ a, Backed h a → Clean h (f a)) : Clean h (r >>= f) := by
  cases r with
  | ok a => exact hf a (hr a rfl)
  | error e => exact error

/-- The first result does not matter. -/
theorem seq {γ : Type} {r : Except Signal γ} {f : γ → Except Signal β} (hf : ∀ c, Clean h (f c)) :
    Clean h (r >>= f) := by
  cases r with
  | ok c => exact hf c
  | error e => exact error

theorem foldlM {f : α → β → Except Signal α} {a : α} {bs : List β} (ha : Backed h a) (hbs : Backed h bs)
    (hf : ∀ a b, Backed h a → Backed h b → Clean h (f a b)) : Clean h (bs.foldlM f a) := by
  induction bs generalizing a with
  | nil => exact ok ha
  | cons b bs ih =>
    rw [backed_cons] at hbs
    rw [List.foldlM_cons]
    exact (hf a b ha hbs.1).bind fun a ha => ih ha hbs.2

end Clean

/-! ### Numbers -/

theorem clean_checked (i : Int) : Clean h (checked i) := by
  unfold checked
  split
  · exact .ok trivial
  · exact .error

theorem clean_intPow (a : Int) (n : Nat) : Clean h (intPow a n) := by
  unfold intPow
  split
  · exact .ok trivial
  · split
    · exact .error
    · exact clean_checked _

theorem clean_intOp (op : BinOp) (a b : Int) : Clean h (intOp op a b) := by
  unfold intOp
  cases op with
  | pow =>
    dsimp only
    repeat' split
    · exact .error
    · exact .ok trivial
    · exact .error
    · exact clean_intPow _ _
  | _ =>
    dsimp only
    repeat' split
    all_goals first | exact .error | exact .ok trivial | exact clean_checked _

theorem clean_floatOp (op : BinOp) (a b : Float) : Clean h (floatOp op a b) := by
  unfold floatOp
  cases op with
  | div | floorDiv | mod =>
    dsimp only
    split
    · exact .error
    · exact .ok trivial
  | _ => first | exact .ok trivial | exact .error

theorem clean_numberOp (op : BinOp) (a b : Number) : Clean h (numberOp op a b) := by
  unfold numberOp
  split
  · exact clean_intOp op _ _
  · exact clean_floatOp op _ _

theorem clean_absolute (v : Value) : Clean h (absolute v) := by
  unfold absolute
  split
  · exact clean_checked _
  · exact .ok trivial
  · exact .error

theorem clean_toInt (v : Value) : Clean h (toInt v) := by
  unfold toInt
  split
  · split
    · exact .ok trivial
    · exact .error
  · exact .ok trivial
  · exact .seq fun _ => .ok trivial
  · exact .error

theorem clean_toFloat (v : Value) : Clean h (toFloat v) := by
  unfold toFloat
  split
  · split
    · exact .ok trivial
    · exact .error
  · exact .ok trivial
  · exact .error

theorem clean_rounded (v : Value) (places : Option Int) : Clean h (rounded v places) := by
  unfold rounded
  split
  · exact .ok trivial
  · exact .seq fun _ => .ok trivial
  · exact .ok trivial
  · exact .error

theorem clean_codePoint (s : String) : Clean h (codePoint s) := by
  unfold codePoint
  split
  · exact .ok trivial
  · exact .error

theorem clean_character (code : Int) : Clean h (character code) := by
  unfold character
  split
  · exact .ok trivial
  · exact .error

theorem clean_rangeOf (bounds : List Int) : Clean h (rangeOf bounds) := by
  unfold rangeOf
  split
  · exact .ok trivial
  · exact .ok trivial
  · split
    · exact .error
    · exact .ok trivial
  · exact .error

theorem clean_replaceText (cs : List Char) (args : List Value) : Clean h (replaceText cs args) := by
  unfold replaceText
  refine .seq fun _ => .seq fun old => .seq fun new => ?_
  dsimp only
  split
  · exact .seq fun _ => .ok trivial
  · exact .ok trivial

/-! ### Items -/

theorem clean_repeated {items : List Value} (hitems : Backed h items) (times : Int) :
    Clean h (repeated items times) := by
  unfold repeated
  split
  · exact .ok backed_nil
  · split
    · exact .error
    · refine .ok (hitems.sub fun v hv => ?_)
      obtain ⟨row, hrow, hv⟩ := List.mem_flatten.mp hv
      rwa [List.eq_of_mem_replicate hrow] at hv

theorem clean_itemAt {items : List Value} (hitems : Backed h items) (index : Value) (message : String) :
    Clean h (itemAt items index message) :=
  .seq fun i => .ok (hitems.getD i trivial)

theorem clean_sliceItems {items : List Value} (hitems : Backed h items) (lower upper step : Option Int) :
    Clean h (sliceItems items lower upper step) := by
  refine .seq fun places => .ok (hitems.sub fun v hv => ?_)
  obtain ⟨i, -, hi⟩ := List.mem_filterMap.mp hv
  exact List.mem_of_getElem? hi

theorem clean_insertBefore {before : Value × Value → Value × Value → Except Signal Bool}
    {x : Value × Value} {done : List (Value × Value)} (hx : Backed h x) (hdone : Backed h done) :
    Clean h (insertBefore before x done) := by
  induction done with
  | nil => exact .ok (backed_cons.mpr ⟨hx, backed_nil⟩)
  | cons y ys ih =>
    rw [backed_cons] at hdone
    rw [insertBefore]
    refine .seq fun first => ?_
    split
    · exact (ih hdone.2).bind fun rest hrest => .ok (backed_cons.mpr ⟨hdone.1, hrest⟩)
    · exact .ok (backed_cons.mpr ⟨hx, backed_cons.mpr hdone⟩)

theorem clean_sortPairs {pairs : List (Value × Value)} (hpairs : Backed h pairs) (k : Heap) (downwards : Bool) :
    Clean h (k.sortPairs downwards pairs) := by
  refine .bind (.foldlM backed_nil hpairs fun done x hdone hx => clean_insertBefore hx hdone) ?_
  exact fun sorted hsorted => .ok (hsorted.sub fun v hv => List.mem_reverse.mp hv)

theorem clean_bestPair {first : Value × Value} {rest : List (Value × Value)} (hfirst : Backed h first)
    (hrest : Backed h rest) (k : Heap) (wins : Ordering) : Clean h (k.bestPair wins first rest) := by
  refine .foldlM hfirst hrest fun best p hbest hp => .seq fun o => .ok ?_
  split
  · exact hp
  · exact hbest

namespace Yields

/-- A result that does not depend on the state. -/
theorem clean [Tracked α] {r : Except Signal α} (hr : Clean h r) : Tracks strict h (Exec.ofExcept r) :=
  ofExcept hr

/-! ## Operators -/

theorem repeatSequence (v : Value) (times : Int) : Tracks strict h (repeatSequence v times) := by
  unfold Machine.repeatSequence
  cases v with
  | str s => exact check.seq fun _ => ret trivial
  | list r =>
    refine (items r).track fun k vs _ hvs => ?_
    exact (clean (clean_repeated hvs times)).track fun k vs _ hvs => newList hvs
  | tuple r =>
    refine (tupleItems r).track fun k vs _ hvs => ?_
    exact (clean (clean_repeated hvs times)).track fun k vs _ hvs => newTuple hvs
  | _ => exact ret trivial

theorem sequenceOp (op : BinOp) (left right : Value) : Tracks strict h (sequenceOp op left right) := by
  unfold Machine.sequenceOp
  split
  · exact ret trivial
  · refine (ofHeap (Q := Tracked.backed) fun k hs _ => ?_).track fun k vs _ hvs => newList hvs
    exact backed_append.mpr ⟨hs.lists _, hs.lists _⟩
  · refine (ofHeap (Q := Tracked.backed) fun k hs _ => ?_).track fun k vs _ hvs => newTuple hvs
    exact backed_append.mpr ⟨hs.tuples _, hs.tuples _⟩
  · split
    · exact repeatSequence _ _
    · exact throw _
  · exact throw _
  · -- What is left of a set is still a set.
    refine (ofHeap (Q := .distinct True) fun k hs _ => ?_).bind fun k vs _ hvs => newSet hvs
    exact (hs.sets _).sublist List.filter_sublist
  · exact throw _

theorem binary (op : BinOp) (left right : Value) : Tracks strict h (binary op left right) := by
  unfold Machine.binary
  split
  · exact clean (clean_numberOp op _ _)
  · exact sequenceOp op left right

theorem unary (op : UnaryOp) (operand : Value) : Tracks strict h (unary op operand) := by
  unfold Machine.unary
  split
  · exact (truthy operand).seq fun _ => ret trivial
  · exact clean (clean_checked _)
  · exact ret trivial
  · exact ret trivial
  · exact ret trivial
  · exact ret trivial
  · exact throw _

theorem contains (container item : Value) : Tracks strict h (contains container item) := by
  unfold Machine.contains
  cases container with
  | str text =>
    cases item with
    | str part => exact ret trivial
    | _ => exact throw _
  | range start stop step =>
    dsimp only
    split
    · exact ret trivial
    · exact ret trivial
  | list r | set r | tuple r | dict r => exact ofHeap fun _ _ _ => trivial
  | _ => exact throw _

theorem compareValues (op : CmpOp) (left right : Value) : Tracks strict h (compareValues op left right) := by
  have hordered (p : Ordering → Bool) : Tracks strict h (do
      return p (← Exec.raising (← Exec.ofHeap (·.order left right))) : Exec Bool) :=
    ask.seq fun r => (raising (Q := .nothing _) fun _ _ => trivial).seq fun _ => ret trivial
  unfold Machine.compareValues
  cases op with
  | eq => exact ofHeap fun _ _ _ => trivial
  | notEq => exact ask.seq fun _ => ret trivial
  | lt | ltEq | gt | gtEq => exact hordered _
  | same | notSame => exact ret trivial
  | member => exact contains right left
  | notMember => exact (contains right left).seq fun _ => ret trivial

end Yields

/-! ## Containers -/

theorem Backed.map [Tracked α] [Tracked β] {f : α → β} {as : List α} (has : Backed h as)
    (hf : ∀ a, Backed h a → Backed h (f a)) : Backed h (as.map f) :=
  List.forall_mem_map.mpr fun a ha => hf a (has a ha)

theorem backed_valueOf? {entries : Entries} (hentries : Backed h entries) {key : Value} :
    Backed h (h.valueOf? entries key) := by
  intro v hv
  obtain ⟨e, hfind, rfl⟩ := Option.map_eq_some_iff.mp hv
  exact (hentries e (List.mem_of_find?_eq_some hfind)).2

theorem Backed.optionGetD [Tracked α] {o : Option α} (ho : Backed h o) {a : α} (ha : Backed h a) :
    Backed h (o.getD a) := by
  cases o with
  | none => exact ha
  | some b => exact backed_some.mp ho

theorem Entered.sublist {entries entries' : Entries} (he : Entered strict h entries)
    (hsub : entries'.Sublist entries) : Entered strict h entries' :=
  ⟨he.keys.sublist (hsub.map _), he.values.sub (hsub.map _).subset⟩

theorem Entered.insertEntry {entries : Entries} (he : Entered strict h entries) {key value : Value}
    (hkey : h.Key key) (hvalue : Backed h value) : Entered strict h (h.insertEntry key value entries) := by
  refine ⟨he.keys.insertEntry hkey value, ?_⟩
  have hvalues := he.values
  clear he
  induction entries with
  | nil => exact backed_cons.mpr ⟨hvalue, backed_nil⟩
  | cons e entries ih =>
    rw [List.map_cons, backed_cons] at hvalues
    rw [Heap.insertEntry]
    split
    · exact backed_cons.mpr ⟨hvalue, hvalues.2⟩
    · exact backed_cons.mpr ⟨hvalues.1, ih hvalues.2⟩

namespace Yields

theorem iterate (v : Value) : Tracks strict h (iterate v) := by
  have hcharged {k : Heap} {items : List Value} (hitems : Backed k items) : Tracks strict k (do
      Exec.charge items.length
      return items : Exec (List Value)) :=
    (charge _).track fun _ _ hle _ => ret (hitems.mono hle)
  unfold Machine.iterate
  cases v with
  | list r => exact (items r).track fun k vs _ hvs => hcharged hvs
  | set r => exact (members r).bind fun k vs _ hvs => hcharged hvs.backed
  | tuple r => exact (tupleItems r).track fun k vs _ hvs => hcharged hvs
  | str s =>
    refine hcharged fun v hv => ?_
    obtain ⟨c, -, rfl⟩ := List.mem_map.mp hv
    trivial
  | dict r =>
    refine (ofHeap (Q := .distinct strict) fun k hs _ => ?_).bind fun k vs _ hvs => hcharged hvs.backed
    exact (hs.dicts r).keys
  | range start stop step =>
    refine (charge _).seq fun _ => ret fun v hv => ?_
    obtain ⟨i, -, rfl⟩ := List.mem_map.mp hv
    trivial
  | _ => exact throw _

theorem getItem (container index : Value) : Tracks strict h (getItem container index) := by
  unfold Machine.getItem
  cases container with
  | list r => exact (items r).track fun k vs _ hvs => clean (clean_itemAt hvs _ _)
  | tuple r => exact (tupleItems r).track fun k vs _ hvs => clean (clean_itemAt hvs _ _)
  | str s =>
    refine clean (clean_itemAt (fun v hv => ?_) _ _)
    obtain ⟨c, -, rfl⟩ := List.mem_map.mp hv
    trivial
  | range start stop step => exact check.seq fun _ => ret trivial
  | dict r =>
    refine (ofHeap (Q := Tracked.backed) fun k hs _ => backed_valueOf? (hs.dicts r).backed).track
      fun k found _ hfound => ?_
    cases found with
    | some v => exact ret (backed_some.mp hfound)
    | none => exact ask.seq fun _ => throw _
  | _ => exact throw _

theorem getSlice (container : Value) (lower upper step : Option Int) :
    Tracks strict h (getSlice container lower upper step) := by
  unfold Machine.getSlice
  cases container with
  | list r =>
    refine (items r).track fun k vs _ hvs => ?_
    exact (clean (clean_sliceItems hvs lower upper step)).track fun k vs _ hvs => newList hvs
  | tuple r =>
    refine (tupleItems r).track fun k vs _ hvs => ?_
    exact (clean (clean_sliceItems hvs lower upper step)).track fun k vs _ hvs => newTuple hvs
  | str s => exact check.seq fun _ => ret trivial
  | _ => exact throw _

/-! ### Keys and members -/

/-- A step that first asks whether a value may be a key. -/
theorem asKey {v : Value} (hv : Backed h v) {x y : Exec α} {Q : Fact α}
    (hx : ∀ k : Heap, h.Before k → k.Key v → Yields strict k x Q) (hy : Yields strict h y Q) :
    Yields strict h (Exec.ofHeap (·.hashable v) >>= fun hashable => if hashable then x else y) Q := by
  let key : Fact Bool := ⟨fun k hashable => hashable = true → k.Key v, fun hk hle hh => (hk hh).mono hle⟩
  have hask : Yields strict h (Exec.ofHeap (·.hashable v)) key :=
    ofHeap fun k _ hle hhash => ⟨hv.mono hle, hhash⟩
  refine hask.bind fun k hashable hle hkey => ?_
  cases hashable with
  | true => exact hx k hle (hkey rfl)
  | false => exact hy.later hle

theorem insertEntry {entries : Entries} (hentries : Entered strict h entries) {key value : Value}
    (hkey : Backed h key) (hvalue : Backed h value) :
    Yields strict h (insertEntry entries key value) (.entered strict) := by
  refine asKey hkey (fun k hle hkey => ?_) (throw _)
  exact ofHeap fun l _ hle' => (hentries.mono (hle.trans hle')).insertEntry (hkey.mono hle')
    (hvalue.mono (hle.trans hle'))

theorem makeSet {items : List Value} (hitems : Backed h items) : Tracks strict h (makeSet items) := by
  refine (foldlM (Q := .distinct True) .nil hitems fun k members item _ hmembers hitem => ?_).bind
    fun k members _ hmembers => newSet hmembers
  refine asKey hitem (fun l hle hitem => ?_) (throw _)
  exact ofHeap fun m _ hle' => (hmembers.mono (hle.trans hle')).insertMember (hitem.mono hle')

theorem setItem (container : Value) {index value : Value} (hindex : Backed h index)
    (hvalue : Backed h value) : Tracks strict h (setItem container index value) := by
  unfold Machine.setItem
  cases container with
  | list r =>
    refine (items r).track fun k vs hle hvs => check.seq fun i => setList r ?_
    intro v hv
    rcases List.mem_or_eq_of_mem_set hv with hv | rfl
    · exact hvs v hv
    · exact hvalue.mono hle
  | dict r =>
    refine (entries r).bind fun k es hle hes => ?_
    exact (insertEntry hes (hindex.mono hle) (hvalue.mono hle)).bind fun k es _ hes => setDict r hes
  | _ => exact throw _

theorem comprehended (kind : CompKind) {produced : List (Value × Option Value)}
    (hproduced : Backed h produced) : Tracks strict h (comprehended kind produced) := by
  have hfirst : Backed h (produced.map (·.1)) := hproduced.map fun p hp => hp.1
  unfold Machine.comprehended
  cases kind with
  | list => exact newList hfirst
  | generator => exact newList hfirst
  | set => exact makeSet hfirst
  | dict =>
    refine (foldlM (Q := .entered strict) .nil hproduced fun k es p _ hes hp => ?_).bind
      fun k es _ hes => newDict hes
    exact insertEntry hes hp.1 (hp.2.optionGetD trivial)

theorem unpack (targets : List Expr) (v : Value) : Tracks strict h (unpack targets v) := by
  unfold Machine.unpack
  split
  · exact throw _
  · refine (iterate v).track fun k vs _ hvs => ?_
    split
    · exact throw _
    · exact ret hvs

theorem augmented (op : BinOp) (current operand : Value) (hcurrent : Backed h current) :
    Tracks strict h (augmented op current operand) := by
  unfold Machine.augmented
  split
  · refine (iterate operand).track fun k extra _ hextra => (items _).track fun k vs hle hvs => ?_
    exact (setList _ (backed_append.mpr ⟨hvs, hextra.mono hle⟩)).seq fun _ => ret trivial
  · exact binary op current operand

/-! ## Order -/

theorem sortValues {pairs : List (Value × Value)} (hpairs : Backed h pairs) (downwards : Bool) :
    Tracks strict h (sortValues pairs downwards) := by
  have hsorted : Yields strict h (Exec.ofHeap (·.sortPairs downwards pairs)) (.clean _) :=
    ofHeap fun k _ hle => clean_sortPairs (hpairs.mono hle) k downwards
  refine hsorted.bind fun k r _ hr => ?_
  refine (clean hr).track fun l sorted _ hsorted => (charge _).seq fun _ => ret ?_
  exact hsorted.map fun p hp => hp.2

end Yields

end Concord.Machine
