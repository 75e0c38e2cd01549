import Concord.Strategy.Template
import Concord.Proofs.Profile.Distance
import Concord.Proofs.Strategy.Settled

/-!
# The template a second time

The template is made of the canon, the candidate gives no more than a name: that of its entry function.
So a second application changes nothing exactly if the template's entry function, chosen anew, has the
name that the first application gave it. It need not: a canon may have the entry point somewhere below
its first function while the candidate does not have it. The rename then takes the entry point away, and
the second application falls back on the first function (`Template.generate_again_changes`).

Main statements:

* `Template.adapted_again_iff`: when the template of the template is the template.
* `Template.generate_again_iff`: the same for texts, for templates that are read back.
-/

namespace Concord

namespace Module

/-- The names of the functions at the top level, in order. -/
def topLevelNames (m : Module) : List String := m.functions.map (·.name)

/-- The name of the entry function. -/
def entryName? (m : Module) (entry : Option String) : Option String :=
  (m.entry? entry).map (·.name)

variable {m : Module} {n : String}

theorem entryName?_none (m : Module) : m.entryName? none = m.topLevelNames.head? := by
  rw [topLevelNames, List.head?_map]
  rfl

/-- A function that is there is the entry function if it is named. -/
theorem entryName?_of_mem (h : n ∈ m.topLevelNames) : m.entryName? (some n) = some n := by
  obtain ⟨f, hf, rfl⟩ := List.mem_map.mp h
  obtain ⟨g, hg⟩ := Option.isSome_iff_exists.mp (isSome_function? hf)
  have hbeq := List.find?_some hg
  have hname : g.name = f.name := eq_of_beq hbeq
  rw [entryName?, entry?, Option.bind_some, hg, Option.some_or, Option.map_some, hname]

/-- Otherwise it is the first one. -/
theorem entryName?_of_notMem (h : n ∉ m.topLevelNames) :
    m.entryName? (some n) = m.topLevelNames.head? := by
  have hnone : m.function? n = none := by
    rw [function?, List.find?_eq_none]
    intro f hf hname
    exact h (List.mem_map.mpr ⟨f, hf, eq_of_beq hname⟩)
  rw [entryName?, entry?, Option.bind_some, hnone, Option.none_or, primary?, topLevelNames,
    List.head?_map]

theorem mem_topLevelNames_of_entryName? {entry : Option String} (h : m.entryName? entry = some n) :
    n ∈ m.topLevelNames := by
  obtain ⟨f, hf, rfl⟩ := Option.map_eq_some_iff.mp h
  have hmem := mem_functions_of_entry? hf
  exact List.mem_map_of_mem hmem

theorem entryName?_eq_none_iff {entry : Option String} :
    m.entryName? entry = none ↔ m.topLevelNames = [] := by
  constructor
  · intro h
    by_contra hne
    cases entry with
    | none => simp [entryName?_none, hne] at h
    | some n =>
      by_cases hn : n ∈ m.topLevelNames
      · simp [entryName?_of_mem hn] at h
      · simp [entryName?_of_notMem hn, hne] at h
  · intro h
    cases entry with
    | none => simp [entryName?_none, h]
    | some n => simp [entryName?_of_notMem (m := m) (n := n) (by simp [h]), h]

/-- A module with an identifier renamed throughout. -/
def rename (source target : String) (m : Module) : Module := ⟨Block.rename source target m.body⟩

theorem topLevelNames_rename (source target : String) (m : Module) :
    (m.rename source target).topLevelNames = m.topLevelNames.map (renamed source target) := by
  obtain ⟨body⟩ := m
  induction body with
  | nil => rfl
  | cons s rest ih =>
    cases s with
    | define f => exact congrArg (renamed source target f.name :: ·) ih
    | _ => exact ih

end Module

namespace Template

open Module

variable {candidate canon : Module} {entry : Option String}

/-- The template by the names of the two entry functions. -/
theorem adapted_of_names {wanted found : String} (hwanted : candidate.entryName? entry = some wanted)
    (hfound : canon.entryName? entry = some found) :
    adapted candidate canon entry = if wanted = found then canon else canon.rename found wanted := by
  obtain ⟨f, hf, rfl⟩ := Option.map_eq_some_iff.mp hwanted
  obtain ⟨g, hg, rfl⟩ := Option.map_eq_some_iff.mp hfound
  rw [adapted, hf, hg]
  rfl

/-- Without an entry function on one side the template is the canon. -/
theorem adapted_of_none (h : candidate.topLevelNames = [] ∨ canon.topLevelNames = []) :
    adapted candidate canon entry = canon := by
  unfold adapted
  rcases h with h | h
  · have hnone := (@entryName?_eq_none_iff _ entry).mpr h
    rw [entryName?, Option.map_eq_none_iff] at hnone
    rw [hnone]
  · have hnone := (@entryName?_eq_none_iff _ entry).mpr h
    rw [entryName?, Option.map_eq_none_iff] at hnone
    rw [hnone]
    cases candidate.entry? entry <;> rfl

/-- The canon is its own template. -/
theorem adapted_self (canon : Module) (entry : Option String) : adapted canon canon entry = canon := by
  cases h : canon.entryName? entry with
  | none => exact adapted_of_none (.inl (entryName?_eq_none_iff.mp h))
  | some name => rw [adapted_of_names h h, if_pos rfl]

/-- Renaming an entry function to two different names gives two different modules. -/
theorem rename_inj {found a b : String} (hfound : found ∈ canon.topLevelNames)
    (h : canon.rename found a = canon.rename found b) : a = b := by
  have hnames := congrArg topLevelNames h
  rw [topLevelNames_rename, topLevelNames_rename, List.map_inj_left] at hnames
  simpa [renamed] using hnames found hfound

theorem rename_ne {found wanted : String} (hfound : found ∈ canon.topLevelNames)
    (hne : wanted ≠ found) : canon.rename found wanted ≠ canon := by
  intro h
  have hmem : found ∈ (canon.rename found wanted).topLevelNames := by
    rw [h]
    exact hfound
  rw [topLevelNames_rename] at hmem
  obtain ⟨n, -, hn⟩ := List.mem_map.mp hmem
  unfold renamed at hn
  split at hn
  · exact hne hn
  · next hother => exact hother hn

/-- The template of a renamed canon is the same again if its entry function has the new name. -/
theorem adapted_rename_iff {found wanted : String} (hfound : canon.entryName? entry = some found)
    (hne : wanted ≠ found) :
    adapted (canon.rename found wanted) canon entry = canon.rename found wanted ↔
      (canon.rename found wanted).entryName? entry = some wanted := by
  have hmem := mem_topLevelNames_of_entryName? hfound
  cases hagain : (canon.rename found wanted).entryName? entry with
  | none =>
    rw [entryName?_eq_none_iff, topLevelNames_rename, List.map_eq_nil_iff] at hagain
    simp [hagain] at hmem
  | some again =>
    rw [adapted_of_names hagain hfound, Option.some_inj]
    split
    · next heq =>
      constructor
      · intro h
        exact absurd h.symm (rename_ne hmem hne)
      · rintro rfl
        exact absurd heq hne
    · constructor
      · exact rename_inj hmem
      · rintro rfl
        rfl

/-- The candidate's entry function is the template's: where the entry point is missing in the candidate
but not in the canon, the canon's first function is the entry point, or is named as the candidate's. -/
def Stays (candidate canon : Module) (entry : Option String) : Prop :=
  ∀ n, entry = some n → n ∉ candidate.topLevelNames → n ∈ canon.topLevelNames →
    ∀ wanted ∈ candidate.topLevelNames.head?, ∀ first ∈ canon.topLevelNames.head?,
      first = n ∨ first = wanted

theorem renamed_self (source target : String) : renamed source target source = target := by
  simp [renamed]

/-- Nothing is named as before after a rename. -/
theorem notMem_topLevelNames_rename {n found wanted : String} (hwanted : wanted ≠ n)
    (h : n = found ∨ n ∉ canon.topLevelNames) :
    n ∉ (canon.rename found wanted).topLevelNames := by
  rw [topLevelNames_rename]
  intro hmem
  obtain ⟨name, hname, hn⟩ := List.mem_map.mp hmem
  unfold renamed at hn
  split at hn
  · exact hwanted hn
  · next hother =>
    rcases h with rfl | h
    · exact hother hn
    · exact h (hn ▸ hname)

theorem head?_topLevelNames_rename {found wanted first : String}
    (h : canon.topLevelNames.head? = some first) :
    (canon.rename found wanted).topLevelNames.head? = some (renamed found wanted first) := by
  rw [topLevelNames_rename, List.head?_map, h]
  rfl

/-- After the canon's first function was renamed to the name that was wanted, it is the entry
function. -/
theorem entryName?_rename_first {found wanted : String}
    (hwanted : candidate.entryName? entry = some wanted)
    (hfound : canon.topLevelNames.head? = some found)
    (habsent : ∀ n, entry = some n → n ∉ canon.topLevelNames) :
    (canon.rename found wanted).entryName? entry = some wanted := by
  have hhead : (canon.rename found wanted).topLevelNames.head? = some wanted := by
    rw [head?_topLevelNames_rename hfound, renamed_self]
  cases entry with
  | none => rw [entryName?_none, hhead]
  | some n =>
    have hn := habsent n rfl
    by_cases hcandidate : n ∈ candidate.topLevelNames
    · rw [entryName?_of_mem hcandidate, Option.some_inj] at hwanted
      subst hwanted
      exact entryName?_of_mem (List.mem_of_head? hhead)
    · have hne : wanted ≠ n := by
        rintro rfl
        exact hcandidate (mem_topLevelNames_of_entryName? hwanted)
      rw [entryName?_of_notMem (notMem_topLevelNames_rename hne (.inr hn)), hhead]

/-- After the canon's entry point was renamed, the first function is the entry function. -/
theorem entryName?_rename_named {n wanted first : String} (hne : wanted ≠ n)
    (hfirst : canon.topLevelNames.head? = some first) :
    (canon.rename n wanted).entryName? (some n) = some wanted ↔ first = n ∨ first = wanted := by
  rw [entryName?_of_notMem (notMem_topLevelNames_rename hne (.inl rfl)),
    head?_topLevelNames_rename hfirst, Option.some_inj, renamed]
  split
  · next h => simp [h]
  · next h => simp [h]

/-- The template of the template is the template exactly if the entry function stays. -/
theorem adapted_again_iff (candidate canon : Module) (entry : Option String) :
    adapted (adapted candidate canon entry) canon entry = adapted candidate canon entry ↔
      Stays candidate canon entry := by
  cases hwanted : candidate.entryName? entry with
  | none =>
    have hempty := entryName?_eq_none_iff.mp hwanted
    simp [adapted_of_none (.inl hempty), adapted_self, Stays, hempty]
  | some wanted =>
  cases hfound : canon.entryName? entry with
  | none =>
    have hempty := entryName?_eq_none_iff.mp hfound
    simp [adapted_of_none (.inr hempty), Stays, hempty]
  | some found =>
  have hmem := mem_topLevelNames_of_entryName? hfound
  rw [adapted_of_names hwanted hfound]
  by_cases heq : wanted = found
  case pos =>
    subst heq
    rw [if_pos rfl]
    refine iff_of_true (adapted_self canon entry) ?_
    rintro n rfl hcandidate hcanon
    rw [entryName?_of_mem hcanon, Option.some_inj] at hfound
    subst hfound
    exact absurd (mem_topLevelNames_of_entryName? hwanted) hcandidate
  case neg =>
    rw [if_neg heq, adapted_rename_iff hfound heq]
    by_cases hnamed : ∃ n, entry = some n ∧ n ∈ canon.topLevelNames
    case neg =>
      -- The canon's entry function is its first one.
      have habsent : ∀ n, entry = some n → n ∉ canon.topLevelNames :=
        fun n hn hmem => hnamed ⟨n, hn, hmem⟩
      have hhead : canon.topLevelNames.head? = some found := by
        cases entry with
        | none => rwa [entryName?_none] at hfound
        | some n => rwa [entryName?_of_notMem (habsent n rfl)] at hfound
      refine iff_of_true (entryName?_rename_first hwanted hhead habsent) ?_
      intro n hn _ hcanon
      exact absurd hcanon (habsent n hn)
    case pos =>
      -- The canon's entry function is the entry point, which the candidate does not have.
      obtain ⟨n, rfl, hcanon⟩ := hnamed
      rw [entryName?_of_mem hcanon, Option.some_inj] at hfound
      subst hfound
      have hcandidate : n ∉ candidate.topLevelNames := by
        intro h
        rw [entryName?_of_mem h, Option.some_inj] at hwanted
        exact heq hwanted.symm
      rw [entryName?_of_notMem hcandidate] at hwanted
      cases hfirst : canon.topLevelNames.head? with
      | none => simp [List.head?_eq_none_iff.mp hfirst] at hcanon
      | some first =>
        rw [entryName?_rename_named heq hfirst]
        constructor
        · intro h m hm _ _ w hw f hf
          rw [hwanted, Option.mem_some_iff] at hw
          rw [hfirst, Option.mem_some_iff] at hf
          obtain rfl := Option.some_inj.mp hm
          rwa [← hw, ← hf]
        · intro h
          exact h n rfl hcandidate hcanon wanted hwanted first hfirst

/-- What is generated for texts that are read. -/
theorem generate_of_parse? {candidate canon : String} {c k : Module} {entry : Option String}
    (hcandidate : Module.parse? candidate = some c) (hcanon : Module.parse? canon = some k) :
    generate candidate canon entry =
      .ok (if adapted c k entry = c then none else some (adapted c k entry).text) := by
  delta generate
  rw [hcandidate, hcanon]

/-- A template that is read back changes nothing when it is applied again exactly if the entry function
stays. -/
theorem generate_again_iff {candidate canon text : String} {c k : Module} {entry : Option String}
    (hcandidate : Module.parse? candidate = some c) (hcanon : Module.parse? canon = some k)
    (hread : (adapted c k entry).ReadsBack)
    (h : generate candidate canon entry = .ok (some text)) :
    Module.parse? text = some (adapted c k entry) ∧
      (generate text canon entry = .ok none ↔ Stays c k entry) := by
  rw [generate_of_parse? hcandidate hcanon] at h
  have htext : text = (adapted c k entry).text := by
    split at h
    · cases h
    · cases h
      rfl
  have hparse : Module.parse? text = some (adapted c k entry) := by
    rw [htext]
    exact hread
  refine ⟨hparse, ?_⟩
  rw [generate_of_parse? hparse hcanon, ← adapted_again_iff]
  split <;> simp_all

/-- A function that returns a value. -/
def returning (name : String) (value : Expr) : Module where
  body := [.define { name, params := [{ name := "n" }], body := [.ret (some value)] }]

/-- A call with the predecessor of the parameter. -/
def countdown (name : String) : Module :=
  returning name (.call (.name name) [.positional (.bin .sub (.name "n") (.int 1))])

/-- A canon that calls itself, renamed to the candidate's function. -/
theorem generate_again_iff_countdown :
    Module.parse? "def down(n):\n    return down(n - 1)\n" = some (countdown "down") ∧
      generate "def mine(n):\n    return n\n" "def down(n):\n    return down(n - 1)\n" none =
        .ok (some "def mine(n):\n    return mine(n - 1)\n") ∧
      generate "def mine(n):\n    return mine(n - 1)\n" "def down(n):\n    return down(n - 1)\n" none =
        .ok none := by
  have hcandidate : Module.parse? "def mine(n):\n    return n\n" =
      some (returning "mine" (.name "n")) := by
    decide +kernel
  have hcanon : Module.parse? "def down(n):\n    return down(n - 1)\n" =
      some (countdown "down") := by
    decide +kernel
  have hread : (adapted (returning "mine" (.name "n")) (countdown "down") none).ReadsBack := by
    decide +kernel
  have honce : generate "def mine(n):\n    return n\n" "def down(n):\n    return down(n - 1)\n" none =
      .ok (some "def mine(n):\n    return mine(n - 1)\n") := by
    rw [generate_of_parse? hcandidate hcanon]
    decide +kernel
  obtain ⟨-, hagain⟩ := generate_again_iff hcandidate hcanon hread honce
  refine ⟨hcanon, honce, hagain.mpr ?_⟩
  intro n hn
  cases hn

/-- A function that hands its parameter to the helper. -/
def handing (name : String) : Stmt :=
  .define { name, params := [{ name := "x" }],
            body := [.ret (some (.call (.name "helper") [.positional (.name "x")]))] }

/-- A function that returns its parameter. -/
def echoing (name : String) : Stmt :=
  .define { name, params := [{ name := "x" }], body := [.ret (some (.name "x"))] }

/-- A canon with a helper in front of the entry point, which the candidate does not have: the first
application renames the entry point, and the second one the helper. -/
theorem generate_again_changes :
    generate "def answer(x):\n    return helper(x)\n"
        "def helper(x):\n    return x\n\n\ndef solve(x):\n    return helper(x)\n" (some "solve") =
      .ok (some "def helper(x):\n    return x\n\n\ndef answer(x):\n    return helper(x)\n") ∧
    generate "def helper(x):\n    return x\n\n\ndef answer(x):\n    return helper(x)\n"
        "def helper(x):\n    return x\n\n\ndef solve(x):\n    return helper(x)\n" (some "solve") =
      .ok (some "def helper(x):\n    return x\n\n\ndef helper(x):\n    return helper(x)\n") := by
  have hcandidate : Module.parse? "def answer(x):\n    return helper(x)\n" =
      some ⟨[handing "answer"]⟩ := by
    decide +kernel
  have hcanon : Module.parse?
      "def helper(x):\n    return x\n\n\ndef solve(x):\n    return helper(x)\n" =
        some ⟨[echoing "helper", handing "solve"]⟩ := by
    decide +kernel
  have hfirst : Module.parse?
      "def helper(x):\n    return x\n\n\ndef answer(x):\n    return helper(x)\n" =
        some ⟨[echoing "helper", handing "answer"]⟩ := by
    decide +kernel
  rw [generate_of_parse? hcandidate hcanon, generate_of_parse? hfirst hcanon]
  constructor <;> decide +kernel

end Template

end Concord
