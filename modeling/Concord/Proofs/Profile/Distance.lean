import Concord.Profile.Distance
import Concord.Profile.Extract
import Concord.Proofs.Number.Rounding
import Concord.Proofs.Profile.Subsequence

/-!
# Facts about distances

The distances that run are rounded to double precision after every operation. The rules are stated here
for any way of rounding, `Distance.ratioBy` to `Profile.distanceBy`, so that what is shown holds of the
distances that run and of the exact ones; with `Binary.round` they are the rules that run,
`Profile.distanceBy_round`.

Main statements: every distance lies between zero and one (`Profile.distanceBy_range`), it is zero
exactly if all facets are at distance zero (`Profile.distanceBy_eq_zero_iff`) and one if nothing is
compared (`Profile.distanceBy_eq_one`), and the profile of a module is at no distance from itself
(`Module.distance_self`).
-/

namespace Concord

namespace Distance

/-! ## The rules of the facets -/

section

variable (round : Rat → Rat)

/-- A quotient of counts. -/
def ratioBy (a b : Nat) : Rat := round (round a / round b)

/-- The share of the dotted paths where two documents differ. -/
def recordBy (a b : Json) : Rat :=
  let (keys, differing) := compared (leaves "" a) (leaves "" b)
  ratioBy round differing.length keys.length

/-- One minus the share of the longest common subsequence in the longer list. -/
def sequenceBy (xs ys : List String) : Rat :=
  let longest := max xs.length ys.length
  if longest = 0 then 0 else round (1 - ratioBy round (lcsLength xs ys) longest)

/-- The difference of two counts in relation to the greater one. -/
def gapBy (a b : Nat) : Rat := ratioBy round ((a - b) + (b - a)) (max (max a b) 1)

/-- The mean of the differences in branching, base cases and calls. -/
def recursionBy (a b : RecursionSchema) : Rat :=
  if a.isRecursive != b.isRecursive then 1
  else
    let branching : Rat := if a.branching = b.branching then 0 else 1
    let sum := round (round (branching + gapBy round a.baseCases b.baseCases) +
      gapBy round a.recursiveCalls b.recursiveCalls)
    round (sum / 3)

/-- The distance between two values. -/
def valuesBy (selection : HashSelection) : FacetValue → FacetValue → Rat
  | .normalizedStructure a, .normalizedStructure b =>
    if a.select selection = b.select selection then 0 else 1
  | .operatorPrecedence a, .operatorPrecedence b => sequenceBy round a b
  | .statementOrdering a, .statementOrdering b => sequenceBy round a b
  | .recursionSchema a, .recursionSchema b => recursionBy round a b
  | a, b =>
    if a.facet = b.facet then
      recordBy round (Profile.Document.payload a) (Profile.Document.payload b)
    else 1

end

/-- A rational between zero and one. -/
def IsShare (r : Rat) : Prop := 0 ≤ r ∧ r ≤ 1

theorem isShare_zero : IsShare 0 := ⟨le_rfl, zero_le_one⟩

theorem isShare_one : IsShare 1 := ⟨zero_le_one, le_rfl⟩

section

variable {round : Rat → Rat} (hround : Rounding round)

include hround

theorem isShare_round {r : Rat} (h : IsShare r) : IsShare (round r) :=
  ⟨hround.nonneg h.1, hround.le_one h.1 h.2⟩

theorem isShare_ratioBy {a b : Nat} (h : a ≤ b) : IsShare (ratioBy round a b) := by
  have ha : 0 ≤ round a := hround.nonneg (Nat.cast_nonneg a)
  have hb : 0 ≤ round b := hround.nonneg (Nat.cast_nonneg b)
  have hab : round a ≤ round b := hround.mono (Nat.cast_nonneg a) (by exact_mod_cast h)
  exact isShare_round hround ⟨div_nonneg ha hb, div_le_one_of_le₀ hab hb⟩

theorem ratioBy_zero (b : Nat) : ratioBy round 0 b = 0 := by
  unfold ratioBy
  rw [Nat.cast_zero, hround.zero, zero_div, hround.zero]

theorem ratioBy_self {b : Nat} (h : b ≠ 0) : ratioBy round b b = 1 := by
  have hpos : 0 < round b := hround.pos (by exact_mod_cast Nat.pos_of_ne_zero h)
  unfold ratioBy
  rw [div_self hpos.ne', hround.one]

/-- A share of something is zero only if it is a share of none. -/
theorem ratioBy_eq_zero_iff {a b : Nat} (hb : b ≠ 0) : ratioBy round a b = 0 ↔ a = 0 := by
  constructor
  · intro h
    by_contra ha
    have ha : 0 < round a := hround.pos (by exact_mod_cast Nat.pos_of_ne_zero ha)
    have hb : 0 < round b := hround.pos (by exact_mod_cast Nat.pos_of_ne_zero hb)
    exact absurd h (hround.pos (div_pos ha hb)).ne'
  · rintro rfl
    exact ratioBy_zero hround b

theorem isShare_recordBy (a b : Json) : IsShare (recordBy round a b) :=
  isShare_ratioBy hround (List.length_filter_le _ _)

theorem recordBy_self (j : Json) : recordBy round j j = 0 := by
  have hsame : ∀ keys : List String,
      keys.filter (fun k => (leaves "" j).lookup k != (leaves "" j).lookup k) = [] := by
    intro keys
    rw [List.filter_eq_nil_iff]
    simp
  unfold recordBy compared
  simp only [hsame, List.length_nil]
  exact ratioBy_zero hround _

theorem isShare_sequenceBy (xs ys : List String) : IsShare (sequenceBy round xs ys) := by
  unfold sequenceBy
  simp only
  split
  · exact isShare_zero
  · have hle : lcsLength xs ys ≤ max xs.length ys.length :=
      le_trans (lcsLength_le xs ys) (le_max_left _ _)
    obtain ⟨h0, h1⟩ := isShare_ratioBy hround hle
    exact isShare_round hround ⟨sub_nonneg.mpr h1, sub_le_self 1 h0⟩

theorem sequenceBy_self (xs : List String) : sequenceBy round xs xs = 0 := by
  unfold sequenceBy
  simp only
  split
  · rfl
  · rename_i h
    rw [Nat.max_self] at h ⊢
    rw [lcsLength_self, ratioBy_self hround h, sub_self, hround.zero]

theorem isShare_gapBy (a b : Nat) : IsShare (gapBy round a b) :=
  isShare_ratioBy hround (by omega)

theorem gapBy_self (a : Nat) : gapBy round a a = 0 := by
  unfold gapBy
  rw [Nat.sub_self]
  exact ratioBy_zero hround _

theorem isShare_recursionBy (a b : RecursionSchema) : IsShare (recursionBy round a b) := by
  have hbranch : IsShare (if a.branching = b.branching then 0 else 1) := by
    split
    · exact isShare_zero
    · exact isShare_one
  have hbase := isShare_gapBy hround a.baseCases b.baseCases
  have hcalls := isShare_gapBy hround a.recursiveCalls b.recursiveCalls
  unfold recursionBy
  simp only
  split
  · exact isShare_one
  · -- Each sum is rounded, and stays below the number of its terms.
    have htwo := hround.le_natCast (n := 2) (add_nonneg hbranch.1 hbase.1) (by decide)
      (by push_cast; linarith [hbranch.2, hbase.2])
    have htwo0 := hround.nonneg (add_nonneg hbranch.1 hbase.1)
    have hthree := hround.le_natCast (n := 3) (add_nonneg htwo0 hcalls.1) (by decide)
      (by push_cast at htwo ⊢; linarith [hcalls.2])
    have hthree0 := hround.nonneg (add_nonneg htwo0 hcalls.1)
    refine isShare_round hround ⟨div_nonneg hthree0 (by decide), ?_⟩
    rw [div_le_one (by decide)]
    exact_mod_cast hthree

theorem recursionBy_self (a : RecursionSchema) : recursionBy round a a = 0 := by
  unfold recursionBy
  simp only [bne_self_eq_false, Bool.false_eq_true, if_false, if_true, gapBy_self hround, add_zero,
    hround.zero, zero_div]

theorem isShare_valuesBy (selection : HashSelection) (a b : FacetValue) :
    IsShare (valuesBy round selection a b) := by
  unfold valuesBy
  split
  · split
    · exact isShare_zero
    · exact isShare_one
  · exact isShare_sequenceBy hround _ _
  · exact isShare_sequenceBy hround _ _
  · exact isShare_recursionBy hround _ _
  · split
    · exact isShare_recordBy hround _ _
    · exact isShare_one

theorem valuesBy_self (selection : HashSelection) (v : FacetValue) :
    valuesBy round selection v v = 0 := by
  cases v with
  | normalizedStructure => simp [valuesBy]
  | operatorPrecedence v => exact sequenceBy_self hround v
  | statementOrdering v => exact sequenceBy_self hround v
  | recursionSchema v => exact recursionBy_self hround v
  | _ => simp [valuesBy, recordBy_self hround]

end

/-- The distance that runs between a value and itself. -/
theorem values_self (selection : HashSelection) (v : FacetValue) : values selection v v = 0 :=
  valuesBy_self Rounding.double selection v

end Distance

/-! ## Profiles -/

namespace Profile

open Distance

/-- The distance of two profiles in a facet. -/
def facetDistanceBy (round : Rat → Rat) (selection : HashSelection) (a b : Profile) (k : Facet) :
    Rat :=
  match a.get? k, b.get? k with
  | some x, some y => valuesBy round selection x y
  | _, _ => 1

/-- The sum of the distances in some facets, added one after the other. -/
def totalBy (round : Rat → Rat) (ds : List Rat) (start : Rat) : Rat :=
  ds.foldl (fun acc d => round (acc + d)) start

/-- The distance of two profiles: the mean over all facets. -/
def distanceBy (round : Rat → Rat) (selection : HashSelection) (a b : Profile) : Rat :=
  round (totalBy round (Facet.all.map (facetDistanceBy round selection a b)) 0 / Facet.count)

section

variable {round : Rat → Rat} (hround : Rounding round)

include hround

theorem isShare_facetDistanceBy (selection : HashSelection) (a b : Profile) (k : Facet) :
    IsShare (facetDistanceBy round selection a b k) := by
  unfold facetDistanceBy
  split
  · exact isShare_valuesBy hround _ _ _
  · exact isShare_one

/-- A sum of shares is not negative and at most their number. -/
theorem totalBy_range (ds : List Rat) (h : ∀ d ∈ ds, IsShare d) (n : Nat)
    (hn : n + ds.length ≤ 2 ^ 53) {start : Rat} (h0 : 0 ≤ start) (hstart : start ≤ n) :
    0 ≤ totalBy round ds start ∧ totalBy round ds start ≤ (n + ds.length : Nat) := by
  induction ds generalizing n start with
  | nil => exact ⟨h0, hstart⟩
  | cons d ds ih =>
    obtain ⟨hd, hds⟩ := List.forall_mem_cons.mp h
    rw [List.length_cons] at hn ⊢
    have hsum : 0 ≤ start + d := add_nonneg h0 hd.1
    have hle : round (start + d) ≤ (n + 1 : Nat) := by
      apply hround.le_natCast hsum (by omega)
      push_cast
      linarith [hd.2]
    have hrest := ih hds (n + 1) (by omega) (hround.nonneg hsum) hle
    rwa [Nat.add_right_comm, Nat.add_assoc] at hrest

/-- A sum of ones is their number. -/
theorem totalBy_ones (ds : List Rat) (h : ∀ d ∈ ds, d = 1) (n : Nat)
    (hn : n + ds.length ≤ 2 ^ 53) : totalBy round ds n = (n + ds.length : Nat) := by
  induction ds generalizing n with
  | nil => rfl
  | cons d ds ih =>
    obtain ⟨rfl, hds⟩ := List.forall_mem_cons.mp h
    rw [List.length_cons] at hn ⊢
    have hnext : round ((n : Rat) + 1) = (n + 1 : Nat) := by
      exact_mod_cast hround.natCast (n := n + 1) (by omega)
    show totalBy round ds (round (n + 1)) = _
    rw [hnext, ih hds (n + 1) (by omega)]
    congr 1
    omega

/-- A sum of distances that are not negative is zero exactly if it starts there and they all are. -/
theorem totalBy_eq_zero_iff (ds : List Rat) (h : ∀ d ∈ ds, 0 ≤ d) {start : Rat}
    (h0 : 0 ≤ start) : totalBy round ds start = 0 ↔ start = 0 ∧ ∀ d ∈ ds, d = 0 := by
  induction ds generalizing start with
  | nil => simp [totalBy]
  | cons d ds ih =>
    obtain ⟨hd, hds⟩ := List.forall_mem_cons.mp h
    have hsum : 0 ≤ start + d := add_nonneg h0 hd
    show totalBy round ds (round (start + d)) = 0 ↔ _
    rw [ih hds (hround.nonneg hsum), hround.eq_zero_iff hsum, add_eq_zero_iff_of_nonneg h0 hd,
      List.forall_mem_cons, and_assoc]

theorem totalBy_facets_range (selection : HashSelection) (a b : Profile) :
    0 ≤ totalBy round (Facet.all.map (facetDistanceBy round selection a b)) 0 ∧
      totalBy round (Facet.all.map (facetDistanceBy round selection a b)) 0 ≤ Facet.count := by
  have hshares : ∀ d ∈ Facet.all.map (facetDistanceBy round selection a b), IsShare d := by
    intro d hd
    obtain ⟨k, -, rfl⟩ := List.mem_map.mp hd
    exact isShare_facetDistanceBy hround selection a b k
  have hrange := totalBy_range hround _ hshares 0 (by rw [List.length_map]; decide) le_rfl (by simp)
  rwa [Nat.zero_add, List.length_map] at hrange

/-- Every distance lies between zero and one. -/
theorem distanceBy_range (selection : HashSelection) (a b : Profile) :
    IsShare (distanceBy round selection a b) := by
  obtain ⟨h0, h1⟩ := totalBy_facets_range hround selection a b
  have hcount : (0 : Rat) < Facet.count := by decide
  exact isShare_round hround ⟨div_nonneg h0 hcount.le, (div_le_one hcount).mpr h1⟩

/-- Where no facet is compared the distance is one. -/
theorem distanceBy_eq_one {selection : HashSelection} {a b : Profile}
    (h : ∀ k, facetDistanceBy round selection a b k = 1) : distanceBy round selection a b = 1 := by
  have hones : ∀ d ∈ Facet.all.map (facetDistanceBy round selection a b), d = 1 := by
    intro d hd
    obtain ⟨k, -, rfl⟩ := List.mem_map.mp hd
    exact h k
  have htotal := totalBy_ones hround _ hones 0 (by rw [List.length_map]; decide)
  rw [Nat.cast_zero, Nat.zero_add, List.length_map] at htotal
  unfold distanceBy
  rw [htotal, Facet.count, div_self (by decide), hround.one]

/-- Two profiles are at no distance exactly if they are at none in any facet. -/
theorem distanceBy_eq_zero_iff {selection : HashSelection} {a b : Profile} :
    distanceBy round selection a b = 0 ↔ ∀ k, facetDistanceBy round selection a b k = 0 := by
  obtain ⟨h0, -⟩ := totalBy_facets_range hround selection a b
  have hnonneg : ∀ d ∈ Facet.all.map (facetDistanceBy round selection a b), 0 ≤ d := by
    intro d hd
    obtain ⟨k, -, rfl⟩ := List.mem_map.mp hd
    exact (isShare_facetDistanceBy hround selection a b k).1
  have hcount : (0 : Rat) < Facet.count := by decide
  unfold distanceBy
  rw [hround.eq_zero_iff (div_nonneg h0 hcount.le), div_eq_zero_iff, or_iff_left hcount.ne',
    totalBy_eq_zero_iff hround _ hnonneg le_rfl]
  simp [Facet.mem_all]

end

/-! ### The distances that run -/

theorem facetDistanceBy_round : facetDistanceBy Binary.round = facetDistance := rfl

/-- With rounding to double precision the distances are those that run. -/
theorem distanceBy_round : distanceBy Binary.round = distance := by
  funext selection a b
  unfold distanceBy totalBy distance distances
  rw [List.foldl_map, List.foldl_map, facetDistanceBy_round]

theorem distance_nonneg (selection : HashSelection) (a b : Profile) :
    0 ≤ distance selection a b := by
  rw [← distanceBy_round]
  exact (distanceBy_range Rounding.double selection a b).1

theorem distance_eq_zero_iff {selection : HashSelection} {a b : Profile} :
    distance selection a b = 0 ↔ ∀ k, facetDistance selection a b k = 0 := by
  rw [← distanceBy_round, ← facetDistanceBy_round]
  exact distanceBy_eq_zero_iff Rounding.double

end Profile

namespace Module

/-- The profile of a module has the value of every facet. -/
theorem get?_profile (mode : Mode) (m : Module) (k : Facet) :
    (m.profile mode).get? k = some (m.facet mode k) := by
  cases k <;> rfl

/-- The distance in the facet of digests says whether the selected digests differ. -/
theorem values_normalizedStructure (selection : HashSelection) (mode : Mode) (m n : Module) :
    Distance.values selection (m.facet mode .normalizedStructure)
        (n.facet mode .normalizedStructure) =
      if m.hashes.select selection = n.hashes.select selection then 0 else 1 := rfl

theorem facetDistance_profile (selection : HashSelection) (mode : Mode) (m n : Module) (k : Facet) :
    Profile.facetDistance selection (m.profile mode) (n.profile mode) k =
      Distance.values selection (m.facet mode k) (n.facet mode k) := by
  unfold Profile.facetDistance
  rw [get?_profile, get?_profile]

theorem distance_self (selection : HashSelection) (mode : Mode) (m : Module) :
    Profile.distance selection (m.profile mode) (m.profile mode) = 0 := by
  rw [Profile.distance_eq_zero_iff]
  intro k
  rw [facetDistance_profile]
  exact Distance.values_self selection _

end Module

end Concord

/-!
## Profiles and normal forms

Every facet but the pair of digests is read off the normal form, and the digest that is compared
where names do not count is that of its text. So modules with one normal form are at no distance,
and modules at no distance have normal forms with one digest. In between stands the printer: the
facets are read off trees, the digest off their text. Where the normal forms are read back from
their texts and the two texts share a digest only if they are the same, the distance is zero exactly
if the digests are the same; a printer that drops a part of a tree breaks it
(`Profile.ofSource_distance_raise`).

Main statements:

* `Module.facetDistance_of_normalize_eq`: modules with one normal form are at no distance.
* `Profile.ofSource_distance_eq_zero_iff`: two sources are at distance zero exactly if the digests
  of their normal forms are the same.
-/

namespace Concord

namespace Module

/-- The text of the module is read as the module itself. -/
def ReadsBack (m : Module) : Prop := Module.parse? m.text = some m

instance (m : Module) : Decidable m.ReadsBack :=
  inferInstanceAs (Decidable (Module.parse? m.text = some m))

/-- Modules that are read back differ in their texts. -/
theorem ReadsBack.eq_of_text_eq {m n : Module} (hm : m.ReadsBack) (hn : n.ReadsBack)
    (h : m.text = n.text) : m = n := by
  unfold ReadsBack at hm hn
  rw [h, hn] at hm
  exact (Option.some.inj hm).symm

variable {mode : Mode} {m n : Module}

/-- All facets but the pair of digests are read off the normal form. -/
theorem facet_of_normalize_eq (h : m.normalize = n.normalize) {k : Facet}
    (hk : k ≠ .normalizedStructure) : m.facet mode k = n.facet mode k := by
  unfold facet
  rw [h]
  cases k with
  | normalizedStructure => exact absurd rfl hk
  | _ => rfl

/-- Modules with one normal form are at no distance in any facet, where names do not count. -/
theorem facetDistance_of_normalize_eq (h : m.normalize = n.normalize) (k : Facet) :
    Profile.facetDistance .nameInvariant (m.profile mode) (n.profile mode) k = 0 := by
  rw [facetDistance_profile]
  by_cases hk : k = .normalizedStructure
  · have hselect : m.hashes.select .nameInvariant = n.hashes.select .nameInvariant :=
      congrArg (fun normal : Module => Digest.ofText normal.text) h
    rw [hk, values_normalizedStructure, if_pos hselect]
  · rw [facet_of_normalize_eq h hk]
    exact Distance.values_self _ _

/-- Modules at no distance have one digest of the selected kind. -/
theorem select_eq_of_facetDistance {selection : HashSelection}
    (h : Profile.facetDistance selection (m.profile mode) (n.profile mode)
      .normalizedStructure = 0) :
    m.hashes.select selection = n.hashes.select selection := by
  rw [facetDistance_profile, values_normalizedStructure] at h
  by_contra hne
  rw [if_neg hne] at h
  exact one_ne_zero h

end Module

namespace Profile

theorem ofSource_of_parse {source : String} {m : Module} (h : Module.parse? source = some m)
    (mode : Mode) : ofSource mode source = m.profile mode := by
  unfold ofSource
  rw [h]

/-- **Sources are at distance zero exactly if their normal forms have one digest.** This holds of
two sources whose normal forms are read back from their texts, unless the two texts differ and still
have one digest; and then the distance is zero in every facet. -/
theorem ofSource_distance_eq_zero_iff {a b : String} {m n : Module}
    (ha : Module.parse? a = some m) (hb : Module.parse? b = some n)
    (hm : m.normalize.ReadsBack) (hn : n.normalize.ReadsBack)
    (hdigest : Digest.ofText m.normalize.text = Digest.ofText n.normalize.text →
      m.normalize.text = n.normalize.text) (mode : Mode) :
    (m.hashes.nameInvariant = n.hashes.nameInvariant →
      ∀ k, facetDistance .nameInvariant (ofSource mode a) (ofSource mode b) k = 0) ∧
    (distance .nameInvariant (ofSource mode a) (ofSource mode b) = 0 ↔
      m.hashes.nameInvariant = n.hashes.nameInvariant) := by
  rw [ofSource_of_parse ha, ofSource_of_parse hb, distance_eq_zero_iff]
  have hsame : m.hashes.nameInvariant = n.hashes.nameInvariant →
      ∀ k, facetDistance .nameInvariant (m.profile mode) (n.profile mode) k = 0 := by
    intro h k
    exact Module.facetDistance_of_normalize_eq (hm.eq_of_text_eq hn (hdigest h)) k
  exact ⟨hsame, fun h => Module.select_eq_of_facetDistance (h .normalizedStructure), hsame⟩

/-- A function that returns its parameter and a literal in a list. -/
def listing (parameter : String) : Module where
  body :=
    [.define
      { name := "f"
        params := [{ name := parameter }]
        body := [.ret (some (.list [.name parameter, .str { value := "a" }]))] }]

/-- Two functions that differ in the name of their parameter, and in their quotes. -/
theorem ofSource_distance_eq_zero_iff_renamed :
    let ours := ofSource .enhanced "def f(x):\n    return [x, \"a\"]\n"
    let theirs := ofSource .enhanced "def f(y):\n    return [y, 'a']\n"
    (∀ k, facetDistance .nameInvariant ours theirs k = 0) ∧
      distance .nameInvariant ours theirs = 0 := by
  intro ours theirs
  have hours : Module.parse? "def f(x):\n    return [x, \"a\"]\n" = some (listing "x") := by
    decide +kernel
  have htheirs : Module.parse? "def f(y):\n    return [y, 'a']\n" = some (listing "y") := by
    decide +kernel
  have hsame : (listing "x").normalize = (listing "y").normalize := by decide +kernel
  have hback : (listing "x").normalize.ReadsBack := by decide +kernel
  have hdigest : (listing "x").hashes.nameInvariant = (listing "y").hashes.nameInvariant :=
    congrArg (fun normal : Module => Digest.ofText normal.text) hsame
  obtain ⟨hall, hiff⟩ := ofSource_distance_eq_zero_iff hours htheirs hback (hsame ▸ hback)
    (fun _ => congrArg Module.text hsame) .enhanced
  exact ⟨hall hdigest, hiff.mpr hdigest⟩

/-- A function that raises again, perhaps with a cause, which then is not printed. -/
def raising (cause : Option Expr) : Module where
  body := [.define { name := "f", params := [], body := [.raise none cause] }]

/-- A call that is the cause of raising again: the texts of the two normal forms are the same, but
the call counts in the control flow. -/
theorem ofSource_distance_raise :
    ∃ m n, Module.parse? "def f():\n    raise from g(1)\n" = some m ∧
      Module.parse? "def f():\n    raise\n" = some n ∧
      m.normalize.text = n.normalize.text ∧
      distance .nameInvariant (m.profile .enhanced) (n.profile .enhanced) ≠ 0 := by
  refine ⟨raising (some (.call (.name "g") [.positional (.int 1)])), raising none,
    by decide +kernel, by decide +kernel, by decide +kernel, ?_⟩
  have hcall : facetDistance .nameInvariant
      ((raising (some (.call (.name "g") [.positional (.int 1)]))).profile .enhanced)
      ((raising none).profile .enhanced) .controlFlow ≠ 0 := by decide +kernel
  exact fun hzero => hcall (distance_eq_zero_iff.mp hzero .controlFlow)

end Profile

end Concord
