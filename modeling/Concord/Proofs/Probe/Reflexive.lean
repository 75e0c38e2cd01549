import Concord.Probe.Basic
import Concord.Proofs.Machine.Nesting
import Concord.Proofs.Strategy.Settled

/-!
# A program probed against itself

Two runs of one program on one input are equal, step by step. What a probe compares is what they hand
back, in two heaps of their own, and sameness across heaps has no answer for a function made by the
program or for a method: these are told apart by where they stand, and so are never the same as
their copies. A program that hands back neither agrees with itself on every input; one that hands
back a list of functions, say, does not.

Values that hold themselves are left out: going down into one comes to no end.

Main statements:

* `Run.compare_ok_iff`: a run agrees with itself exactly if it hands back data.
* `onInputs_self`: what probing finds along a list of inputs.
* `compare_self`: when a probe of a program against itself finds a difference.
* `compare_self_function`: a function that returns itself is said to differ from itself.
-/

namespace Concord

/-- The verdict is that two programs differ. -/
def ProbeVerdict.IsDivergent (v : ProbeVerdict) : Prop :=
  ∃ input before after, v = .divergent input before after

namespace Probe

open Machine

namespace Run

/-- What a run hands back: the value it returned, and its arguments as they were left. -/
def results (r : Run) : List Value :=
  match r.outcome with
  | .returned v => v :: r.args
  | .raised _ => r.args

/-- Every way down from what the run hands back ends. -/
def Founded (r : Run) : Prop := ∀ v ∈ r.results, r.heap.Founded v

/-- Neither a function of the program nor a method stands in what the run hands back. -/
def IsData (r : Run) : Prop := ∀ v ∈ r.results, ∀ u, r.heap.Below u v → u.isData = true

variable {r : Run}

theorem agrees_self_iff (r : Run) :
    r.agrees r = true ↔ ∀ v, r.outcome = .returned v → same r.heap r.heap v v = true := by
  unfold agrees
  cases r.outcome with
  | returned v =>
    constructor
    · intro hsame w hw
      obtain rfl := Outcome.returned.inj hw
      exact hsame
    · exact fun hall => hall v rfl
  | raised e => simp

theorem sameArgs_self_iff (r : Run) :
    r.sameArgs r = true ↔ ∀ v ∈ r.args, same r.heap r.heap v v = true := by
  unfold sameArgs
  rw [List.all_eq_true]
  constructor
  · intro hall v hv
    obtain ⟨i, hi, rfl⟩ := List.mem_iff_getElem.mp hv
    have hpair : (r.args[i], r.args[i]) ∈ r.args.zip r.args := by
      rw [← List.getElem_zip (h := by simpa using hi)]
      exact List.getElem_mem _
    exact hall _ hpair
  · intro hall p hp
    obtain ⟨i, hi, rfl⟩ := List.mem_iff_getElem.mp hp
    rw [List.getElem_zip]
    exact hall _ (List.getElem_mem _)

/-- A run that is compared with itself agrees exactly if all that it hands back is the same as
itself. -/
theorem compare_ok_iff_same (input : String) (r : Run) :
    (∃ returned, r.compare input r = .ok returned) ↔
      ∀ v ∈ r.results, same r.heap r.heap v v = true := by
  have hresults : (∀ v ∈ r.results, same r.heap r.heap v v = true) ↔
      r.agrees r = true ∧ r.sameArgs r = true := by
    rw [agrees_self_iff, sameArgs_self_iff]
    unfold results
    cases r.outcome <;> simp
  rw [hresults]
  unfold Run.compare
  cases r.agrees r <;> cases r.sameArgs r <;> simp

/-- A founded run agrees with itself exactly if it hands back data. -/
theorem compare_ok_iff (hr : r.Founded) (input : String) :
    (∃ returned, r.compare input r = .ok returned) ↔ r.IsData := by
  rw [compare_ok_iff_same]
  exact forall₂_congr fun v hv => Heap.same_self_iff (hr v hv)

/-- Comparing two runs finds a difference or none. -/
theorem compare_error {input : String} {a b : Run} {verdict : ProbeVerdict}
    (h : a.compare input b = .error verdict) :
    ∃ before after, verdict = .divergent input before after := by
  unfold Run.compare at h
  split at h
  · exact ⟨_, _, (Except.error.inj h).symm⟩
  · split at h
    · exact ⟨_, _, (Except.error.inj h).symm⟩
    · cases h

end Run

variable {b : Budget} {m : Module}

/-- Inputs find a difference exactly if a run on one of them hands back something that is no data. -/
theorem onInputs_self {name : String} {inputs : List (List Seed)}
    (hfounded : ∀ seeds ∈ inputs, ∀ r, run b m name seeds = .ok r → r.Founded)
    (probes conclusive : Nat) :
    (onInputs b m m name inputs probes conclusive).IsDivergent ↔
      ∃ seeds ∈ inputs, ∃ r, run b m name seeds = .ok r ∧ ¬r.IsData := by
  induction inputs generalizing probes conclusive with
  | nil =>
    unfold onInputs ProbeVerdict.IsDivergent
    split <;> simp
  | cons seeds rest ih =>
    have hrest := ih fun s hs => hfounded s (List.mem_cons_of_mem _ hs)
    rw [List.exists_mem_cons_iff]
    unfold onInputs
    cases hrun : run b m name seeds with
    | error e =>
      simp only [hrest]
      simp
    | ok r =>
      have hself := Run.compare_ok_iff (hfounded seeds List.mem_cons_self r hrun) (inputText seeds)
      simp only
      cases hcompare : r.compare (inputText seeds) r with
      | ok returned =>
        have hdata : r.IsData := hself.mp ⟨returned, hcompare⟩
        simp only [hrest]
        constructor
        · exact .inr
        · rintro (⟨r', hr', hnot⟩ | hlater)
          · obtain rfl := Except.ok.inj hr'
            exact absurd hdata hnot
          · exact hlater
      | error verdict =>
        have hnot : ¬r.IsData := by
          intro hdata
          obtain ⟨returned, hok⟩ := hself.mpr hdata
          rw [hcompare] at hok
          cases hok
        obtain ⟨before, after, hverdict⟩ := Run.compare_error hcompare
        exact ⟨fun _ => .inl ⟨r, rfl, hnot⟩, fun _ => ⟨_, before, after, hverdict⟩⟩

/-- The runs that a probe of a program against itself is about. -/
def Probed (b : Budget) (m : Module) (entry : Option String) (r : Run) : Prop :=
  ∃ f params seeds, m.entry? entry = some f ∧ f.positionalParams? = some params ∧
    seeds ∈ inputs m m f params ∧ run b m f.name seeds = .ok r

theorem probed_iff {entry : Option String} {f : Function} {params : List String} {r : Run}
    (hentry : m.entry? entry = some f) (hparams : f.positionalParams? = some params) :
    Probed b m entry r ↔ ∃ seeds ∈ inputs m m f params, run b m f.name seeds = .ok r := by
  constructor
  · rintro ⟨g, params', seeds, hg, hp, hseeds, hrun⟩
    obtain rfl := Option.some.inj (hentry.symm.trans hg)
    obtain rfl := Option.some.inj (hparams.symm.trans hp)
    exact ⟨seeds, hseeds, hrun⟩
  · rintro ⟨seeds, hseeds, hrun⟩
    exact ⟨f, params, seeds, hentry, hparams, hseeds, hrun⟩

/-- The function to probe is always there in the second program. -/
theorem compare_self_eq {entry : Option String} {f : Function} (hentry : m.entry? entry = some f) :
    compare b m m entry =
      match f.positionalParams? with
      | none => .inconclusive "required keyword-only parameter"
      | some params => onInputs b m m f.name (inputs m m f params) 0 0 := by
  have hthere : (m.function? f.name).isNone = false := by
    rw [Option.isNone_eq_false_iff]
    exact Module.isSome_function? (Module.mem_functions_of_entry? hentry)
  unfold compare
  simp only [hentry, hthere]
  rfl

theorem not_isDivergent_inconclusive (reason : String) :
    ¬(ProbeVerdict.inconclusive reason).IsDivergent := by
  rintro ⟨input, before, after, h⟩
  cases h

/-- Probing a program against itself finds a difference exactly if one of the runs hands back a
function or a method, alone or somewhere in a container. -/
theorem compare_self {entry : Option String} (hfounded : ∀ r, Probed b m entry r → r.Founded) :
    (compare b m m entry).IsDivergent ↔ ∃ r, Probed b m entry r ∧ ¬r.IsData := by
  cases hentry : m.entry? entry with
  | none =>
    have hnone : compare b m m entry = .inconclusive "no function to probe" := by
      unfold compare
      rw [hentry]
    rw [hnone]
    apply iff_of_false (not_isDivergent_inconclusive _)
    rintro ⟨r, ⟨f, params, seeds, hf, -⟩, -⟩
    rw [hentry] at hf
    cases hf
  | some f =>
    rw [compare_self_eq hentry]
    cases hparams : f.positionalParams? with
    | none =>
      apply iff_of_false (not_isDivergent_inconclusive _)
      rintro ⟨r, ⟨g, params, seeds, hg, hnone, -⟩, -⟩
      obtain rfl := Option.some.inj (hentry.symm.trans hg)
      rw [hparams] at hnone
      cases hnone
    | some params =>
      have hruns : ∀ seeds ∈ inputs m m f params, ∀ r, run b m f.name seeds = .ok r → r.Founded :=
        fun seeds hseeds r hrun =>
          hfounded r ((probed_iff hentry hparams).mpr ⟨seeds, hseeds, hrun⟩)
      dsimp only
      rw [onInputs_self hruns 0 0]
      constructor
      · rintro ⟨seeds, hseeds, r, hrun, hnot⟩
        exact ⟨r, (probed_iff hentry hparams).mpr ⟨seeds, hseeds, hrun⟩, hnot⟩
      · rintro ⟨r, hr, hnot⟩
        obtain ⟨seeds, hseeds, hrun⟩ := (probed_iff hentry hparams).mp hr
        exact ⟨seeds, hseeds, r, hrun, hnot⟩

theorem mem_toOption_run {name : String} {seeds : List Seed} {r : Run} :
    r ∈ (run b m name seeds).toOption ↔ run b m name seeds = .ok r := by
  cases run b m name seeds <;> simp [Except.toOption]

/-- `def f(x): return [x, f]`: every way down into the list ends, and there is a function in it. -/
theorem compare_self_listed :
    let f : Function := ⟨"f", [⟨"x", .regular, none, none⟩],
      [.ret (some (.list [.name "x", .name "f"]))], [], none, false⟩
    let m : Module := ⟨[.define f]⟩
    (∀ r, Probed {} m none r → r.Founded) ∧ (compare {} m m none).IsDivergent := by
  intro f m
  have hshallow : ∀ seeds ∈ inputs m m f ["x"], ∀ r ∈ (run {} m "f" seeds).toOption,
      ∀ v ∈ r.results, r.heap.EndsWithin 3 v := by decide +kernel
  have hfounded : ∀ r, Probed {} m none r → r.Founded := by
    rintro r ⟨g, params, seeds, hg, hparams, hseeds, hrun⟩ v hv
    obtain rfl : f = g := Option.some.inj hg
    obtain rfl : ["x"] = params := Option.some.inj hparams
    exact (hshallow seeds hseeds r (mem_toOption_run.mpr hrun) v hv).founded
  refine ⟨hfounded, (compare_self hfounded).mpr ?_⟩
  have hlisted : ∃ r ∈ (run {} m "f" [.int 0]).toOption, ∃ v ∈ r.results, ∃ u ∈ r.heap.items v,
      u.isData = false := by decide +kernel
  obtain ⟨r, hr, v, hv, u, hu, hfunction⟩ := hlisted
  have hseeds : [.int 0] ∈ inputs m m f ["x"] := by decide +kernel
  refine ⟨r, ⟨f, ["x"], [.int 0], rfl, rfl, hseeds, mem_toOption_run.mp hr⟩, fun hdata => ?_⟩
  have htrue := hdata v hv u (.single hu)
  rw [hfunction] at htrue
  cases htrue

/-- A function that returns itself: the two copies of it are told apart. -/
theorem compare_self_function :
    let m : Module := ⟨[.define ⟨"f", [], [.ret (some (.name "f"))], [], none, false⟩]⟩
    compare {} m m (some "f") = .divergent "()" "<function f>" "<function f>" := by
  intro m
  decide +kernel

end Probe

end Concord
