import Concord.Engine.Canonicalizer
import Concord.Proofs.Engine.Outcome
import Concord.Proofs.Profile.Metric
import Concord.Proofs.Profile.Distance
import Concord.Proofs.Store.History

/-!
# Canonicalizing and comparing agree

A text that has converged is compared with the canon it has reached. The two ways measure apart from
each other: canonicalizing in the mode of the engine and with the policy of the contract, of the
record or of the engine, comparing in the mode and with the policy of the record. So a distance of
zero has to be carried over to another mode and to the other digest.

From the enhanced mode to the baseline mode it always carries over, because the values of the baseline
mode are those of the enhanced one without the printed parts (`Module.facet_baseline`). In the other
direction, and from the literal digest to the other one, the trees have to be the same, and what the
engine has seen is that two texts have one digest. That is enough if the printed trees are read back
and the texts share their digest only if they are the same (`Module.ToldApart`). The printer writes
opaque texts without parentheses, so there are canons that are not read back, and there the two ways
disagree (`Canonicalizer.compare_of_converged_await`).

Main statements:

* `Module.facetDistance_carries`: what is carried over whatever the modules are.
* `Module.facetDistance_of_toldApart`: what is carried over if the trees are told apart.
* `Canonicalizer.compare_of_converged`: the distances of a text that has converged.
-/

namespace Concord

/-! ## From one mode to the other -/

/-- Whether the value of the facet has parts that only the enhanced mode fills. -/
def Facet.isEnhanced : Facet → Bool
  | .controlFlow | .executionPaths | .logicalEquivalence => true
  | _ => false

/-- The value without the parts that only the enhanced mode fills. -/
def FacetValue.basic : FacetValue → FacetValue
  | .controlFlow v => .controlFlow { v with branchConditions := none }
  | .executionPaths v => .executionPaths { v with pathSignatures := none }
  | .logicalEquivalence v => .logicalEquivalence { v with normalizedConditions := none }
  | v => v

namespace Distance

/-- Only the digests are compared in two ways. -/
theorem values_selection {a b : FacetValue} (h : a.facet ≠ .normalizedStructure)
    (selection selection' : HashSelection) :
    values selection a b = values selection' a b := by
  cases a with
  | normalizedStructure => exact absurd rfl h
  | _ => cases b <;> rfl

/-- Records in order are at no distance only if they are the same. -/
theorem eq_of_values {selection : HashSelection} {a b : FacetValue} (ha : a.InOrder)
    (hb : b.InOrder) (hfacet : a.facet = b.facet) (hshape : a.facet.shape = .record)
    (h : values selection a b = 0) : a = b := by
  have hrecord : valuesBy Binary.round selection a b = 0 := h
  rw [valuesBy_of_record Binary.round hfacet hshape, recordBy_eq_zero_iff Rounding.double] at hrecord
  exact eq_of_payload_eq ha hb hfacet (payload_eq_of_paths ha hb hfacet hshape hrecord)

end Distance

namespace Module

variable {m n : Module} {mode mode' : Mode} {selection selection' : HashSelection}

@[simp]
theorem facet_facet (mode : Mode) (m : Module) (k : Facet) : (m.facet mode k).facet = k :=
  facet_facetOf mode m m.normalize k

theorem facet_of_not_isEnhanced {k : Facet} (h : k.isEnhanced = false) (m : Module)
    (mode mode' : Mode) : m.facet mode k = m.facet mode' k := by
  cases k <;> first | rfl | cases h

/-- The values of the baseline mode are those of the enhanced one without the printed parts. -/
theorem facet_baseline (m : Module) (k : Facet) :
    m.facet .baseline k = (m.facet .enhanced k).basic := by
  cases k <;> rfl

/-- No distance in the enhanced mode is no distance in the baseline mode. -/
theorem facetDistance_baseline {k : Facet}
    (h : Profile.facetDistance selection (m.profile .enhanced) (n.profile .enhanced) k = 0) :
    Profile.facetDistance selection (m.profile .baseline) (n.profile .baseline) k = 0 := by
  rw [facetDistance_profile] at h ⊢
  by_cases hk : k.isEnhanced = true
  · -- Printed parts stand in records only, and records at no distance are the same.
    have hshape : (m.facet .enhanced k).facet.shape = .record := by
      rw [facet_facet]
      cases k <;> first | rfl | cases hk
    have hsame := Distance.eq_of_values (m.inOrder_facet .enhanced k) (n.inOrder_facet .enhanced k)
      (by rw [facet_facet, facet_facet]) hshape h
    rw [facet_baseline, facet_baseline, hsame]
    exact Distance.values_self _ _
  · have hk : k.isEnhanced = false := by simpa using hk
    rwa [facet_of_not_isEnhanced hk m .baseline .enhanced,
      facet_of_not_isEnhanced hk n .baseline .enhanced]

/-- **What is always carried over.** A facet at no distance is at no distance with another selection
and in another mode, but for the digests where the selections differ, and for the facets with printed
parts where the first mode leaves them out. -/
theorem facetDistance_carries {k : Facet}
    (h : Profile.facetDistance selection (m.profile mode) (n.profile mode) k = 0)
    (hselection : k = .normalizedStructure → selection = selection')
    (hmode : k.isEnhanced = true → mode = .enhanced ∨ mode' = .baseline) :
    Profile.facetDistance selection' (m.profile mode') (n.profile mode') k = 0 := by
  -- first to the other selection, in the same mode
  have hselected : Profile.facetDistance selection' (m.profile mode) (n.profile mode) k = 0 := by
    rw [facetDistance_profile] at h ⊢
    by_cases hk : k = .normalizedStructure
    · rwa [← hselection hk]
    · rwa [Distance.values_selection (by rwa [facet_facet]) selection' selection]
  cases mode with
  | enhanced =>
    cases mode' with
    | enhanced => exact hselected
    | baseline => exact facetDistance_baseline hselected
  | baseline =>
    cases mode' with
    | baseline => exact hselected
    | enhanced =>
      have hk : k.isEnhanced = false := by
        rw [Bool.eq_false_iff]
        intro hk
        rcases hmode hk with h | h <;> cases h
      rw [facetDistance_profile] at hselected ⊢
      rwa [facet_of_not_isEnhanced hk m .enhanced .baseline,
        facet_of_not_isEnhanced hk n .enhanced .baseline]

/-! ## From the literal digest to the other one -/

/-- The module whose text has the selected digest. -/
def digested (m : Module) : HashSelection → Module
  | .literal => m
  | .nameInvariant => m.normalize

theorem select_hashes (m : Module) (selection : HashSelection) :
    m.hashes.select selection = Digest.ofText (m.digested selection).text := by
  cases selection <;> rfl

/-- The digested modules of both are read back from their texts, which share their digest only if
they are the same. -/
structure ToldApart (selection : HashSelection) (m n : Module) : Prop where
  left : (m.digested selection).ReadsBack
  right : (n.digested selection).ReadsBack
  digest : Digest.ofText (m.digested selection).text = Digest.ofText (n.digested selection).text →
    (m.digested selection).text = (n.digested selection).text

/-- Modules that are told apart are the same if their digests are. -/
theorem ToldApart.digested_eq (h : ToldApart selection m n)
    (hselect : m.hashes.select selection = n.hashes.select selection) :
    m.digested selection = n.digested selection := by
  rw [select_hashes, select_hashes] at hselect
  exact h.left.eq_of_text_eq h.right (h.digest hselect)

/-- **What is carried over if the trees are told apart.** Then everything is, from the literal digest
to either one and from the other one to itself. -/
theorem facetDistance_of_toldApart (h : ToldApart selection m n)
    (hselect : m.hashes.select selection = n.hashes.select selection)
    (hselection : selection = .nameInvariant → selection' = .nameInvariant) (mode' : Mode)
    (k : Facet) : Profile.facetDistance selection' (m.profile mode') (n.profile mode') k = 0 := by
  have hsame := h.digested_eq hselect
  cases selection with
  | literal =>
    obtain rfl : m = n := hsame
    rw [facetDistance_profile]
    exact Distance.values_self _ _
  | nameInvariant =>
    rw [hselection rfl]
    exact facetDistance_of_normalize_eq hsame k

end Module

/-! ## Comparisons -/

namespace CanonComparison

/-- The comparison finds nothing. -/
structure AtNoDistance (c : CanonComparison) : Prop where
  distance : c.distance = 0
  facets : ∀ d ∈ c.facets, d.distance = 0
  band : c.band = .none
  differing : c.differing = []

theorem band_of_zero {d : Rat} (h : d = 0) : Band.ofDistance d = .none := if_pos h.le

theorem atNoDistance_of_facets {task : String} {selection : HashSelection} {a b : Profile}
    (h : ∀ k, Profile.facetDistance selection a b k = 0) :
    AtNoDistance ⟨task, Profile.distance selection a b, Profile.distances selection a b⟩ := by
  have hdistance : Profile.distance selection a b = 0 := Profile.distance_eq_zero_iff.mpr h
  have hfacets : ∀ d ∈ Profile.distances selection a b, d.distance = 0 := by
    intro d hd
    obtain ⟨k, -, rfl⟩ := List.mem_map.mp hd
    exact h k
  constructor
  case distance => exact hdistance
  case facets => exact hfacets
  case band => exact band_of_zero hdistance
  case differing =>
    show ((Profile.distances selection a b).filter _).map _ = []
    rw [List.map_eq_nil_iff, List.filter_eq_nil_iff]
    intro d hd
    rw [show d.band = .none from band_of_zero (hfacets d hd)]
    decide

end CanonComparison

/-! ## Texts that have converged -/

namespace Engine

/-- A text that has converged is at no distance from the canon, as the gate measures it. -/
theorem transform_converged {e : Engine} {q : Request}
    (h : (e.transform q).ending = .converged) :
    ∃ text canon, Module.parse? (e.transform q).text = some text ∧
      Module.parse? q.canon = some canon ∧
      Profile.distance (e.gateFor q).selection (text.profile e.config.mode)
        (canon.profile e.config.mode) = 0 := by
  have hresult := e.transform_result q
  generalize e.transform q = t at h hresult
  cases hresult with
  | unmeasured => cases h
  | aborted => cases h
  | @finished canon first r ending hcanon hfirst hrun _ =>
    obtain ⟨mc, hmc, rfl⟩ := Gate.snapshot?_eq_some hcanon
    obtain ⟨mf, hmf, rfl⟩ := Gate.snapshot?_eq_some hfirst
    let course := e.courseFor q ((e.gateFor q).measure q.canon mc)
    have hreach := Course.drive_reaches (c := course) (e.budgetFor q)
      (.start ((e.gateFor q).measure q.candidate mf))
    have hends := Course.drive_ends (c := course) (e.budgetFor q)
      (.start ((e.gateFor q).measure q.candidate mf))
    rw [show course.drive _ _ = _ from hrun] at hreach hends
    -- The last text descends from the candidate, so the gate has measured it.
    have hline : Lineage (e.gateFor q) _ r.applied r.current := hreach.lineage
    refine ⟨r.current.module, mc, hline.parses hmf, hmc, le_antisymm ?_ ?_⟩
    · have hle : r.current.distance ≤ 0 := hends.converged h
      rw [hline.measured rfl] at hle
      rw [← Profile.ofSource_of_parse hmc]
      exact hle
    · exact Profile.distance_nonneg _ _ _

/-- A text that is at no distance converges as it is. -/
theorem transform_of_distance_zero {e : Engine} {q : Request} {text canon : Module}
    (htext : Module.parse? q.candidate = some text) (hcanon : Module.parse? q.canon = some canon)
    (h : Profile.distance (e.gateFor q).selection (text.profile e.config.mode)
      (canon.profile e.config.mode) = 0) :
    (e.transform q).text = q.candidate ∧ (e.transform q).ending = .converged := by
  have hdistance : ((e.gateFor q).measure q.candidate text).distance = 0 := by
    rw [← Profile.ofSource_of_parse hcanon] at h
    exact h
  have hdrive : ∀ left, (e.courseFor q ((e.gateFor q).measure q.canon canon)).drive left
      (.start ((e.gateFor q).measure q.candidate text)) =
        (.start ((e.gateFor q).measure q.candidate text), .converged) :=
    fun left => Course.drive_of_le left hdistance.le
  unfold transform
  simp only [Gate.snapshot?_of_parse htext, Gate.snapshot?_of_parse hcanon, hdrive]
  exact ⟨rfl, rfl⟩

end Engine

namespace Canonicalizer

/-- What the engine is asked to do with a text for a record. -/
def requestFor (r : CanonRecord) (candidate : String) (contract : Option Contract) : Request :=
  { candidate, canon := r.source, contract, naming := r.naming }

/-- The selection for a record and a contract. -/
def selectionFor (e : Engine) (r : CanonRecord) (contract : Option Contract) : HashSelection :=
  .forPolicy (((contract.bind (·.naming)).or r.naming).or e.config.naming).isSome

theorem selection_gateFor (e : Engine) (r : CanonRecord) (candidate : String)
    (contract : Option Contract) :
    (e.gateFor (requestFor r candidate contract)).selection = selectionFor e r contract := rfl

/-- The policy of a record is in force in both ways, so where names do not count in the first way the
record has none. -/
theorem forPolicy_of_selectionFor {e : Engine} {r : CanonRecord} {contract : Option Contract}
    (h : selectionFor e r contract = .nameInvariant) :
    HashSelection.forPolicy r.naming.isSome = .nameInvariant := by
  unfold selectionFor HashSelection.forPolicy at *
  cases hnaming : r.naming with
  | none => rfl
  | some p =>
    -- then some policy is in force, whatever the contract says
    rw [hnaming] at h
    cases hcontract : contract.bind (·.naming) <;> simp [hcontract] at h

theorem canonicalize_eq_ok {c : Canonicalizer} {task candidate : String} {contract : Option Contract}
    {t : Transformation} (h : c.canonicalize task candidate contract = .ok t) :
    ∃ r, c.store.require task = .ok r ∧ c.engine.transform (requestFor r candidate contract) = t := by
  unfold canonicalize at h
  cases hrequire : c.store.require task with
  | error e =>
    rw [hrequire] at h
    cases h
  | ok r =>
    rw [hrequire] at h
    exact ⟨r, rfl, Except.ok.inj h⟩

theorem compare_of_require {c : Canonicalizer} {task text : String} {r : CanonRecord} {m : Module}
    (hrequire : c.store.require task = .ok r) (htext : Module.parse? text = some m) :
    c.compare task text = .ok
      { task
        distance := Profile.distance (.forPolicy r.naming.isSome) (m.profile r.mode) r.profile
        facets := Profile.distances (.forPolicy r.naming.isSome) (m.profile r.mode) r.profile } := by
  unfold compare Store.compare
  rw [hrequire, ← Profile.ofSource_of_parse htext]
  rfl

/-- What is compared after a text has converged: both modules are there, and the engine has found
them at no distance. -/
theorem exists_modules_of_converged {b : Backend} (hempty : b = .memory [] ∨ b = .files [])
    {history : List (Mode × Store.Request)} {mode : Mode} {e : Engine} {task candidate : String}
    {contract : Option Contract} {t : Transformation}
    (h : canonicalize ⟨e, ⟨Store.heldAfter b history, mode⟩⟩ task candidate contract = .ok t)
    (hconverged : t.ending = .converged) :
    ∃ r canon text, Store.require ⟨Store.heldAfter b history, mode⟩ task = .ok r ∧
      Module.parse? r.source = some canon ∧ r.profile = canon.profile r.mode ∧
      Module.parse? t.text = some text ∧
      ∀ k, Profile.facetDistance (selectionFor e r contract) (text.profile e.config.mode)
        (canon.profile e.config.mode) k = 0 := by
  obtain ⟨r, hrequire, rfl⟩ := canonicalize_eq_ok h
  obtain ⟨canon, hcanon, hprofile⟩ := Store.profile_of_require hempty history hrequire
  obtain ⟨text, canon', htext, hcanon', hdistance⟩ := Engine.transform_converged hconverged
  obtain rfl : canon' = canon := Option.some_inj.mp (hcanon'.symm.trans hcanon)
  rw [selection_gateFor, Profile.distance_eq_zero_iff] at hdistance
  exact ⟨r, canon', text, hrequire, hcanon, hprofile, htext, hdistance⟩

/-- **Canonicalizing and comparing agree.** In a store that was empty once, whatever it was asked
since and whatever keeps its records, a text that has converged can be compared with its canon, and
the comparison says:

* a facet is at distance zero, except perhaps the digests where names count in one way only, and the
  facets with printed parts where the engine leaves out what the record has;
* there is no distance at all if neither exception is there, or if the modules that the engine took
  the digests of are told apart. -/
theorem compare_of_converged {b : Backend} (hempty : b = .memory [] ∨ b = .files [])
    (history : List (Mode × Store.Request)) (mode : Mode) (e : Engine) {task candidate : String}
    {contract : Option Contract} {t : Transformation}
    (h : canonicalize ⟨e, ⟨Store.heldAfter b history, mode⟩⟩ task candidate contract = .ok t)
    (hconverged : t.ending = .converged) :
    ∃ r canon text c, Store.require ⟨Store.heldAfter b history, mode⟩ task = .ok r ∧
      Module.parse? r.source = some canon ∧ Module.parse? t.text = some text ∧
      compare ⟨e, ⟨Store.heldAfter b history, mode⟩⟩ task t.text = .ok c ∧
      c.facets.map (·.facet) = Facet.all ∧
      (∀ d ∈ c.facets,
        (d.facet = .normalizedStructure →
          selectionFor e r contract = .forPolicy r.naming.isSome) →
        (d.facet.isEnhanced = true → e.config.mode = .enhanced ∨ r.mode = .baseline) →
        d.distance = 0) ∧
      (selectionFor e r contract = .forPolicy r.naming.isSome ∧
          (e.config.mode = .enhanced ∨ r.mode = .baseline) ∨
        text.ToldApart (selectionFor e r contract) canon →
        c.AtNoDistance) := by
  obtain ⟨r, canon, text, hrequire, hcanon, hprofile, htext, hzero⟩ :=
    exists_modules_of_converged hempty h hconverged
  refine ⟨r, canon, text, _, hrequire, hcanon, htext, compare_of_require hrequire htext, ?_, ?_, ?_⟩
  · exact (List.map_map ..).trans (List.map_id _)
  · intro d hd hselection hmode
    obtain ⟨k, -, rfl⟩ := List.mem_map.mp hd
    rw [hprofile]
    exact Module.facetDistance_carries (hzero k) hselection hmode
  · intro hsame
    apply CanonComparison.atNoDistance_of_facets
    intro k
    rw [hprofile]
    rcases hsame with ⟨hselection, hmode⟩ | hapart
    · exact Module.facetDistance_carries (hzero k) (fun _ => hselection) fun _ => hmode
    · exact Module.facetDistance_of_toldApart hapart
        (Module.select_eq_of_facetDistance (hzero .normalizedStructure)) forPolicy_of_selectionFor
        r.mode k

/-! ### A store with one canon -/

/-- A canon that passed, submitted as that of a task. -/
def submission (code : String) : Submission :=
  { task := "t", code, oracle := .pass "ok", moment := "2024-01-01T00:00:00Z" }

/-- An engine beside a store in which one canon was created. -/
def withCanon (e : Engine) (code : String) : Canonicalizer :=
  ⟨e, ⟨Store.heldAfter (.memory []) [(.enhanced, .create (submission code))], .enhanced⟩⟩

variable {e : Engine} {code candidate : String} {canon text : Module}

theorem require_withCanon (hcanon : Module.parse? code = some canon)
    (hdefines : canon.hasDefinition = true) :
    (withCanon e code).store.require "t" =
      .ok (Store.recordOf .enhanced (submission code) canon) := by
  have hvalid : TaskId.isValid "t" = true := by decide
  have hprepare : Store.prepare ⟨.memory [], .enhanced⟩ (submission code) =
      .ok (Store.recordOf .enhanced (submission code) canon) :=
    Store.prepare_eq_ok_iff.mpr ⟨hvalid, fun _ => rfl, canon, hcanon, hdefines, rfl⟩
  have hheld : Store.heldAfter (.memory []) [(.enhanced, .create (submission code))] =
      .memory [("t", Store.recordOf .enhanced (submission code) canon)] := by
    simp only [Store.heldAfter, Store.answer, Store.create, hprepare]
    rfl
  unfold withCanon Store.require Store.load Store.checkTask
  simp only [hheld, hvalid]
  rfl

/-- A text at no distance from the canon converges as it is. -/
theorem canonicalize_withCanon (contract : Option Contract)
    (hcanon : Module.parse? code = some canon) (hdefines : canon.hasDefinition = true)
    (htext : Module.parse? candidate = some text)
    (h : Profile.distance
      (selectionFor e (Store.recordOf .enhanced (submission code) canon) contract)
      (text.profile e.config.mode) (canon.profile e.config.mode) = 0) :
    ∃ t, canonicalize (withCanon e code) "t" candidate contract = .ok t ∧ t.text = candidate ∧
      t.ending = .converged := by
  unfold canonicalize
  rw [require_withCanon hcanon hdefines]
  exact ⟨_, rfl, Engine.transform_of_distance_zero htext hcanon h⟩

/-- An engine that leaves out the printed parts, and for which names count. -/
def terse : Engine := { config := { mode := .baseline, naming := some {} } }

/-- A text that differs from the canon in its quotes. The record is in the other mode and has no
policy, and still the comparison finds nothing. -/
theorem compare_of_converged_quotes :
    ∃ t c, canonicalize (withCanon terse "def f(x):\n    return [x, \"a\"]\n") "t"
        "def f(x):\n    return [x, 'a']\n" none = .ok t ∧
      t.ending = .converged ∧
      compare (withCanon terse "def f(x):\n    return [x, \"a\"]\n") "t" t.text = .ok c ∧
      c.AtNoDistance := by
  have hcanon : Module.parse? "def f(x):\n    return [x, \"a\"]\n" =
      some (Profile.listing "x") := by decide +kernel
  have htext : Module.parse? "def f(x):\n    return [x, 'a']\n" =
      some (Profile.listing "x") := by decide +kernel
  have hback : (Profile.listing "x").ReadsBack := by decide +kernel
  obtain ⟨t, ht, hsource, hconverged⟩ := canonicalize_withCanon (e := terse) none hcanon
    (by decide) htext (Module.distance_self _ _ _)
  obtain ⟨r, canon, text, c, hrequire, hcanon', htext', hcompare, -, -, hsame⟩ :=
    compare_of_converged (.inl rfl) _ _ terse ht hconverged
  -- both modules are the same one, which is read back
  obtain rfl : Store.recordOf .enhanced (submission _) (Profile.listing "x") = r :=
    Except.ok.inj ((require_withCanon (e := terse) hcanon (by decide)).symm.trans hrequire)
  obtain rfl : Profile.listing "x" = canon := Option.some_inj.mp (hcanon.symm.trans hcanon')
  rw [hsource] at htext'
  obtain rfl : Profile.listing "x" = text := Option.some_inj.mp (htext.symm.trans htext')
  exact ⟨t, c, ht, hconverged, hcompare, hsame (.inr ⟨hback, hback, fun _ => rfl⟩)⟩

/-- A function that prints one value. -/
def printing (value : Expr) : Module where
  body :=
    [.define
      { name := "f"
        params := [{ name := "x" }, { name := "i" }]
        body := [.expr (.call (.name "print") [.positional value])]
        isAsync := true }]

/-- Two modules with one literal text: opaque text is printed without the parentheses it needs. Names
count for the contract, so the text is found to be the canon as it is, but not for the record, and
only one of the two indices is a name that can be replaced. -/
theorem compare_of_converged_await :
    ∃ t c, canonicalize (withCanon {} "async def f(x, i):\n    print((await(x))[i])\n") "t"
        "async def f(x, i):\n    print(await(x)[i])\n" (some { id := "t", naming := some {} }) = .ok t ∧
      t.ending = .converged ∧
      compare (withCanon {} "async def f(x, i):\n    print((await(x))[i])\n") "t" t.text = .ok c ∧
      c.distance ≠ 0 ∧ ⟨.normalizedStructure, 1⟩ ∈ c.facets := by
  have hcanon : Module.parse? "async def f(x, i):\n    print((await(x))[i])\n" =
      some (printing (.subscript (.verbatim "await(x)") (.name "i"))) := by decide +kernel
  have htext : Module.parse? "async def f(x, i):\n    print(await(x)[i])\n" =
      some (printing (.verbatim "await(x)[i]")) := by decide +kernel
  generalize hm : printing (.subscript (.verbatim "await(x)") (.name "i")) = m at hcanon
  generalize hn : printing (.verbatim "await(x)[i]") = n at htext
  have hliteral : n.hashes.select .literal = m.hashes.select .literal := by
    have htexts : n.text = m.text := by
      rw [← hm, ← hn]
      decide +kernel
    exact congrArg Digest.ofText htexts
  have hinvariant : n.hashes.select .nameInvariant ≠ m.hashes.select .nameInvariant := by
    rw [← hm, ← hn]
    decide +kernel
  have hfacet : ∀ k, k ≠ .normalizedStructure → n.facet .enhanced k = m.facet .enhanced k := by
    have hall : ∀ k ∈ Facet.all, k ≠ .normalizedStructure →
        n.facet .enhanced k = m.facet .enhanced k := by
      rw [← hm, ← hn]
      decide +kernel
    exact fun k => hall k (Facet.mem_all k)
  have hzero : Profile.distance .literal (n.profile .enhanced) (m.profile .enhanced) = 0 := by
    rw [Profile.distance_eq_zero_iff]
    intro k
    rw [Module.facetDistance_profile]
    by_cases hk : k = .normalizedStructure
    · rw [hk, Module.values_normalizedStructure, if_pos hliteral]
    · rw [hfacet k hk]
      exact Distance.values_self _ _
  have hone : Profile.facetDistance .nameInvariant (n.profile .enhanced) (m.profile .enhanced)
      .normalizedStructure = 1 := by
    rw [Module.facetDistance_profile, Module.values_normalizedStructure, if_neg hinvariant]
  have hdefines : m.hasDefinition = true := by
    rw [← hm]
    decide
  obtain ⟨t, ht, hsource, hconverged⟩ := canonicalize_withCanon (e := {})
    (some { id := "t", naming := some {} }) hcanon hdefines htext hzero
  have hcompare := compare_of_require (require_withCanon (e := {}) hcanon hdefines) htext
  rw [← hsource] at hcompare
  refine ⟨t, _, ht, hconverged, hcompare, ?_, ?_⟩
  · intro hnone
    have hnone := Profile.distance_eq_zero_iff.mp hnone .normalizedStructure
    exact one_ne_zero (hone.symm.trans hnone)
  · exact List.mem_map.mpr ⟨.normalizedStructure, Facet.mem_all _, congrArg _ hone⟩

end Canonicalizer

end Concord
