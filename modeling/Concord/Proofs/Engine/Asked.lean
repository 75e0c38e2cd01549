import Concord.Proofs.Engine.Upheld
import Mathlib.Data.List.Nodup

/-!
# The oracle is asked once

Verdicts are needed at several places: for the text a proposal starts from, for the proposal, and
for both sides before the canon itself is proposed. All of them go through the memo, so the oracle
is asked once about a text, and an oracle that would change its mind gets no occasion to. Here that
is said by putting a judge without memory in the place of the oracle: `Memo.firstVerdict` gives what
the oracle said when it was asked about a text, and with it every decision comes out as it did.

The memo goes by digests. For a text that shares its digest with one asked about earlier it gives
the verdict on that one; every statement below is exact about this, and only the last step, from the
verdict found under the digest of a text to the verdict on this text, has to assume that none of the
texts asked about has the same digest.

Main statements:

* `Memo.ask_eq_firstVerdict`: an answer is the first verdict, whatever is asked later.
* `Gate.serve_replies`: the replies to any sequence of queries are those of a judge without memory.
* `Course.drive_steady`: so is every run.
* `Course.preserves_ledger`: each question is paid for by the candidate, the canon or a proposal.
* `Engine.transform_asks_once`: all of it for transformations.
-/

namespace Concord

/-- The digest of a measured text is that of its source. -/
def Snapshot.Hashed (s : Snapshot) : Prop := s.hash = Digest.ofText s.source

/-! ## What the memo holds -/

namespace Memo

section Record

variable (judge : List String → String → Verdict)

/-- The verdicts given on texts that were asked about one after the other, the latest first. -/
def record : List String → List (Digest × Verdict)
  | [] => []
  | text :: earlier => (Digest.ofText text, judge earlier text) :: record earlier

/-- What the judge said when it was asked about a text with this digest; what it would say now, if
it was not asked. -/
def firstVerdict (asked : List String) (text : String) : Verdict :=
  ((record judge asked).lookup (Digest.ofText text)).getD (judge asked text)

/-- The record holds a verdict for the digest of every text asked about, and for no other. -/
theorem isSome_lookup_record (asked : List String) (d : Digest) :
    ((record judge asked).lookup d).isSome = true ↔ d ∈ asked.map Digest.ofText := by
  induction asked with
  | nil => simp [record]
  | cons text earlier ih =>
    rw [record, List.lookup_cons, List.map_cons, List.mem_cons, ← ih]
    by_cases hd : d = Digest.ofText text
    · simp [hd]
    · simp [hd, beq_eq_false_iff_ne.mpr hd]

variable {judge}

/-- Later questions leave the record of the earlier ones as it was. -/
theorem lookup_record_of_suffix {asked all : List String} (hsuffix : asked <:+ all)
    (hall : (all.map Digest.ofText).Nodup) {d : Digest} {v : Verdict}
    (h : (record judge asked).lookup d = some v) : (record judge all).lookup d = some v := by
  obtain ⟨later, rfl⟩ := hsuffix
  induction later with
  | nil => exact h
  | cons text later ih =>
    rw [List.cons_append, List.map_cons, List.nodup_cons] at hall
    have hrest := ih hall.2
    have hkey : d ∈ (later ++ asked).map Digest.ofText := by
      rw [← isSome_lookup_record judge, hrest]
      rfl
    have hne : (d == Digest.ofText text) = false := by
      rw [beq_eq_false_iff_ne]
      rintro rfl
      exact hall.1 hkey
    rw [List.cons_append, record, List.lookup_cons, hne]
    exact hrest

/-- The first verdict on a text that was asked about is the one given then. -/
theorem firstVerdict_eq {later earlier : List String} {text : String}
    (hall : ((later ++ text :: earlier).map Digest.ofText).Nodup) :
    firstVerdict judge (later ++ text :: earlier) text = judge earlier text := by
  have hthen : (record judge (text :: earlier)).lookup (Digest.ofText text) =
      some (judge earlier text) := List.lookup_cons_self
  unfold firstVerdict
  rw [lookup_record_of_suffix (List.suffix_append later _) hall hthen]
  rfl

/-- If no other text that was asked about has its digest, the verdict that is found for a text is
the one on this text. -/
theorem firstVerdict_of_distinct {all : List String} (hall : (all.map Digest.ofText).Nodup)
    {text : String} (hasked : Digest.ofText text ∈ all.map Digest.ofText)
    (hdistinct : ∀ t ∈ all, Digest.ofText t = Digest.ofText text → t = text) :
    ∃ later earlier, all = later ++ text :: earlier ∧
      firstVerdict judge all text = judge earlier text := by
  obtain ⟨t, ht, hdigest⟩ := List.mem_map.mp hasked
  obtain rfl := hdistinct t ht hdigest
  obtain ⟨later, earlier, rfl⟩ := List.append_of_mem ht
  exact ⟨later, earlier, rfl, firstVerdict_eq hall⟩

end Record

/-! ## Questions -/

/-- The memo holds what the judge said on the texts that were asked about, each with a digest of its
own. Without a judge there is nothing to hold. -/
structure Faithful (judge? : Option (List String → String → Verdict)) (m : Memo) : Prop where
  verdicts : ∀ judge, judge? = some judge → m.verdicts = record judge m.asked
  distinct : (m.asked.map Digest.ofText).Nodup

variable {judge : List String → String → Verdict} {m : Memo} {s : Snapshot}

theorem Faithful.empty (judge? : Option (List String → String → Verdict)) :
    Faithful judge? ({} : Memo) :=
  ⟨fun _ _ => rfl, List.nodup_nil⟩

theorem Faithful.nodup {judge? : Option (List String → String → Verdict)} (h : m.Faithful judge?) :
    m.asked.Nodup :=
  h.distinct.of_map

/-- What is asked is put before what was asked earlier. -/
theorem asked_suffix_ask (m : Memo) (judge : List String → String → Verdict) (s : Snapshot) :
    m.asked <:+ (m.ask judge s).2.asked := by
  unfold ask
  split
  · exact List.suffix_refl _
  · exact List.suffix_cons _ _

theorem Faithful.ask (h : m.Faithful (some judge)) (hs : s.Hashed) :
    (m.ask judge s).2.Faithful (some judge) := by
  have hrecord := h.verdicts judge rfl
  unfold Memo.ask
  split
  · exact h
  · rename_i hnew
    constructor
    case verdicts =>
      intro judge' hjudge
      obtain rfl := Option.some.inj hjudge
      show (s.hash, judge m.asked s.source) :: m.verdicts = _
      rw [record, hrecord, hs]
    case distinct =>
      refine List.nodup_cons.mpr ⟨?_, h.distinct⟩
      rw [← isSome_lookup_record judge, ← hrecord, ← hs, hnew]
      simp

/-- A text with its digest is among those that were asked about. -/
theorem Faithful.mem_asked_ask (h : m.Faithful (some judge)) (hs : s.Hashed) :
    Digest.ofText s.source ∈ (m.ask judge s).2.asked.map Digest.ofText := by
  have hrecalls := m.recalls_ask judge s
  rw [Recalls, (h.ask hs).verdicts judge rfl, hs] at hrecalls
  rw [← isSome_lookup_record judge, hrecalls]
  rfl

/-- An answer is the first verdict on the text, whatever is asked later. -/
theorem Faithful.ask_eq_firstVerdict (h : m.Faithful (some judge)) (hs : s.Hashed)
    {all : List String} (hsuffix : (m.ask judge s).2.asked <:+ all)
    (hall : (all.map Digest.ofText).Nodup) :
    (m.ask judge s).1 = firstVerdict judge all s.source := by
  have hrecalls := m.recalls_ask judge s
  rw [Recalls, (h.ask hs).verdicts judge rfl, hs] at hrecalls
  unfold firstVerdict
  rw [lookup_record_of_suffix hsuffix hall hrecalls]
  rfl

/-- A judge without memory that gives the first verdicts makes no difference. -/
theorem Faithful.ask_steady (h : m.Faithful (some judge)) (hs : s.Hashed) {all : List String}
    (hsuffix : (m.ask judge s).2.asked <:+ all) (hall : (all.map Digest.ofText).Nodup) :
    m.ask (fun _ => firstVerdict judge all) s = m.ask judge s := by
  have hfirst := h.ask_eq_firstVerdict hs hsuffix hall
  unfold Memo.ask at hfirst ⊢
  split
  · rfl
  · rename_i hnew
    rw [hnew] at hfirst
    simp only at hfirst
    rw [hfirst]

/-! ## The price of a question -/

/-- One, if a question about the text would go to the oracle. -/
def pending (m : Memo) (s : Snapshot) : Nat := if (m.verdicts.lookup s.hash).isNone then 1 else 0

theorem pending_le_one (m : Memo) (s : Snapshot) : m.pending s ≤ 1 := by
  unfold pending
  split <;> omega

theorem pending_eq_zero {v : Verdict} (h : m.Recalls s v) : m.pending s = 0 := by
  unfold pending
  rw [show m.verdicts.lookup s.hash = some v from h]
  rfl

/-- As verdicts are only added, less and less is pending. -/
theorem Extends.pending_le {m' : Memo} (h : m.Extends m') (s : Snapshot) :
    m'.pending s ≤ m.pending s := by
  cases hv : m.verdicts.lookup s.hash with
  | some v =>
    rw [pending_eq_zero (h (show m.Recalls s v from hv))]
    exact Nat.zero_le _
  | none =>
    have hone : m.pending s = 1 := by
      unfold pending
      rw [hv]
      rfl
    rw [hone]
    exact pending_le_one m' s

/-- A question is asked at most once, and it is pending before. -/
theorem asked_add_pending (m : Memo) (judge : List String → String → Verdict) (s : Snapshot) :
    (m.ask judge s).2.asked.length + (m.ask judge s).2.pending s =
      m.asked.length + m.pending s := by
  rw [pending_eq_zero (m.recalls_ask judge s)]
  unfold ask pending
  cases hv : m.verdicts.lookup s.hash with
  | some v => rfl
  | none => rfl

end Memo

/-! ## The gate -/

namespace Gate

variable {g : Gate} {m : Memo} {before s : Snapshot}

theorem Improves.hashed (h : g.Improves before s) : s.Hashed := by
  rw [h.measured]
  rfl

theorem snapshot?_hashed {source : String} (h : g.snapshot? source = some s) : s.Hashed := by
  obtain ⟨_, -, rfl⟩ := snapshot?_eq_some h
  rfl

/-- The gate with a judge without memory, which gives the first verdicts. -/
def steady (g : Gate) (all : List String) : Gate :=
  { g with judge := g.judge.map fun judge _ => Memo.firstVerdict judge all }

theorem steady_of_none (h : g.judge = none) (all : List String) : g.steady all = g := by
  unfold steady
  rw [h]
  cases g
  cases h
  rfl

theorem judge_steady {judge : List String → String → Verdict} (h : g.judge = some judge)
    (all : List String) : (g.steady all).judge = some fun _ => Memo.firstVerdict judge all := by
  unfold steady
  rw [h]
  rfl

/-! ### Verdicts -/

theorem asked_suffix_verdict (s : Snapshot) (m : Memo) : m.asked <:+ (g.verdict s m).2.asked := by
  unfold verdict
  split
  · exact List.suffix_refl _
  · exact m.asked_suffix_ask _ s

theorem verdict_faithful (hm : m.Faithful g.judge) (hs : s.Hashed) :
    (g.verdict s m).2.Faithful g.judge := by
  unfold verdict
  split
  · exact hm
  · rename_i judge hjudge
    rw [hjudge] at hm ⊢
    exact hm.ask hs

/-- A question for a verdict is pending before, if it is asked. -/
theorem asked_verdict (g : Gate) (s : Snapshot) (m : Memo) :
    (g.verdict s m).2.asked.length + (g.verdict s m).2.pending s =
      m.asked.length + m.pending s := by
  unfold verdict
  split
  · rfl
  · exact m.asked_add_pending _ s

theorem verdict_steady (hm : m.Faithful g.judge) (hs : s.Hashed) {all : List String}
    (hsuffix : (g.verdict s m).2.asked <:+ all) (hall : (all.map Digest.ofText).Nodup) :
    (g.steady all).verdict s m = g.verdict s m := by
  cases hjudge : g.judge with
  | none => rw [steady_of_none hjudge]
  | some judge =>
    rw [hjudge] at hm
    unfold verdict at hsuffix ⊢
    rw [hjudge] at hsuffix
    rw [judge_steady hjudge, hjudge]
    simp only
    rw [hm.ask_steady hs hsuffix hall]

theorem passes_steady (hm : m.Faithful g.judge) (hs : s.Hashed) {all : List String}
    (hsuffix : (g.passes s m).2.asked <:+ all) (hall : (all.map Digest.ofText).Nodup) :
    (g.steady all).passes s m = g.passes s m := by
  unfold passes
  rw [verdict_steady hm hs hsuffix hall]

/-! ### Checks -/

theorem asked_suffix_behaviour (before after : Snapshot) (tier : Tier) (m : Memo) :
    m.asked <:+ (g.behaviourObjection? before after tier m).2.asked := by
  unfold behaviourObjection?
  split
  · rename_i judge _
    exact (m.asked_suffix_ask judge before).trans (Memo.asked_suffix_ask _ judge after)
  · exact List.suffix_refl _

theorem behaviour_faithful (hm : m.Faithful g.judge) (hbefore : before.Hashed) (hs : s.Hashed)
    (tier : Tier) : (g.behaviourObjection? before s tier m).2.Faithful g.judge := by
  unfold behaviourObjection?
  split
  · rename_i judge hjudge
    rw [hjudge] at hm ⊢
    exact (hm.ask hbefore).ask hs
  · exact hm

theorem behaviour_steady (hm : m.Faithful g.judge) (hbefore : before.Hashed) (hs : s.Hashed)
    {tier : Tier} {all : List String}
    (hsuffix : (g.behaviourObjection? before s tier m).2.asked <:+ all)
    (hall : (all.map Digest.ofText).Nodup) :
    (g.steady all).behaviourObjection? before s tier m = g.behaviourObjection? before s tier m := by
  cases hjudge : g.judge with
  | none => rw [steady_of_none hjudge]
  | some judge =>
    rw [hjudge] at hm
    unfold behaviourObjection? at hsuffix ⊢
    rw [hjudge] at hsuffix
    rw [judge_steady hjudge, hjudge]
    simp only at hsuffix ⊢
    have hfirst : (m.ask judge before).2.asked <:+ all :=
      (Memo.asked_suffix_ask _ judge s).trans hsuffix
    rw [hm.ask_steady hbefore hfirst hall, (hm.ask hbefore).ask_steady hs hsuffix hall]

/-- What a check does to the memo: nothing, or what the judge of behaviour does. -/
theorem check_memo (before : Snapshot) (text : String) (tier : Tier) (m : Memo) :
    (∃ o, g.inspect before text = .error o ∧ g.check before text tier m = (.error o, m)) ∨
      ∃ s, g.inspect before text = .ok s ∧ s.Hashed ∧
        (g.check before text tier m).2 = (g.behaviourObjection? before s tier m).2 := by
  unfold check
  cases hinspect : g.inspect before text with
  | error o => exact .inl ⟨o, rfl, rfl⟩
  | ok s =>
    refine .inr ⟨s, rfl, (inspect_eq_ok hinspect).2.hashed, ?_⟩
    simp only
    split
    · rename_i hb
      rw [hb]
    · rename_i hb
      rw [hb]

theorem asked_suffix_check (before : Snapshot) (text : String) (tier : Tier) (m : Memo) :
    m.asked <:+ (g.check before text tier m).2.asked := by
  obtain ⟨o, -, hcheck⟩ | ⟨s, -, -, hmemo⟩ := check_memo (g := g) before text tier m
  · simp only [hcheck, List.suffix_refl]
  · rw [hmemo]
    exact asked_suffix_behaviour before s tier m

theorem check_faithful (hm : m.Faithful g.judge) (hbefore : before.Hashed) (text : String)
    (tier : Tier) : (g.check before text tier m).2.Faithful g.judge := by
  obtain ⟨o, -, hcheck⟩ | ⟨s, -, hs, hmemo⟩ := check_memo (g := g) before text tier m
  · rw [hcheck]
    exact hm
  · rw [hmemo]
    exact behaviour_faithful hm hbefore hs tier

theorem check_steady (hm : m.Faithful g.judge) (hbefore : before.Hashed) {text : String}
    {tier : Tier} {all : List String} (hsuffix : (g.check before text tier m).2.asked <:+ all)
    (hall : (all.map Digest.ofText).Nodup) :
    (g.steady all).check before text tier m = g.check before text tier m := by
  obtain ⟨o, hinspect, -⟩ | ⟨s, hinspect, hs, hmemo⟩ := check_memo (g := g) before text tier m
  · unfold check
    rw [show (g.steady all).inspect before text = g.inspect before text from rfl, hinspect]
  · rw [hmemo] at hsuffix
    have hsteady := behaviour_steady hm hbefore hs hsuffix hall
    unfold check
    rw [show (g.steady all).inspect before text = g.inspect before text from rfl, hinspect]
    simp only
    rw [hsteady]

/-- A check asks about the text it starts from, if that is pending, and about one text more. -/
theorem asked_check_le (before : Snapshot) (text : String) (tier : Tier) (m : Memo) :
    (g.check before text tier m).2.asked.length + (g.check before text tier m).2.pending before ≤
        m.asked.length + m.pending before + 1 ∧
      ∀ s, (g.check before text tier m).1 = .ok s →
        (g.check before text tier m).2.asked.length + (g.check before text tier m).2.pending s ≤
          m.asked.length + m.pending before + 1 := by
  obtain ⟨o, hinspect, hcheck⟩ | ⟨s, hinspect, -, hmemo⟩ := check_memo (g := g) before text tier m
  · rw [hcheck]
    exact ⟨Nat.le_succ _, fun s hs => by cases hs⟩
  · have hsame : ∀ s', (g.check before text tier m).1 = .ok s' → s' = s := by
      intro s' hs'
      have hok := inspect_of_check hs'
      rw [hinspect] at hok
      exact (Except.ok.inj hok).symm
    suffices hboth : (g.behaviourObjection? before s tier m).2.asked.length +
          (g.behaviourObjection? before s tier m).2.pending before ≤
            m.asked.length + m.pending before + 1 ∧
        (g.behaviourObjection? before s tier m).2.asked.length +
          (g.behaviourObjection? before s tier m).2.pending s ≤
            m.asked.length + m.pending before + 1 by
      rw [hmemo]
      refine ⟨hboth.1, ?_⟩
      intro s' hs'
      rw [hsame s' hs']
      exact hboth.2
    unfold behaviourObjection?
    split
    · rename_i judge _
      have hfirst := m.asked_add_pending judge before
      have hsecond := (m.ask judge before).2.asked_add_pending judge s
      have hone := (m.ask judge before).2.pending_le_one s
      have hless := ((m.ask judge before).2.ask_extends judge s).pending_le before
      simp only
      omega
    · have hone := m.pending_le_one s
      simp only
      omega

/-! ### Sequences of queries -/

/-- What can be asked of a gate. -/
inductive Query where
  | check (before : Snapshot) (text : String) (tier : Tier)
  | verdict (s : Snapshot)
  | passes (s : Snapshot)

/-- What a gate replies. -/
inductive Reply where
  | checked (result : Except Objection Snapshot)
  | judged (verdict? : Option Verdict)
  | passed (yes : Bool)

namespace Query

/-- The texts that the query holds are measured. -/
def Hashed : Query → Prop
  | check before _ _ => before.Hashed
  | verdict s | passes s => s.Hashed

/-- The texts whose verdicts decide the query. -/
def texts (g : Gate) : Query → List String
  | check before text _ =>
    match g.inspect before text with
    | .error _ => []
    | .ok s => [before.source, s.source]
  | verdict s | passes s => [s.source]

/-- The reply of a gate, and what it recalls afterwards. -/
def answer (g : Gate) : Query → Memo → Reply × Memo
  | check before text tier, m => ((g.check before text tier m).map .checked id)
  | verdict s, m => ((g.verdict s m).map .judged id)
  | passes s, m => ((g.passes s m).map .passed id)

/-- The reply where the verdict on a text depends on nothing but the text. -/
def decided (g : Gate) (verdict : String → Verdict) : Query → Reply
  | check before text _ =>
    match g.inspect before text with
    | .error o => .checked (.error o)
    | .ok s =>
      let was := verdict before.source
      let now := verdict s.source
      if now.regressesFrom was then .checked (.error (.oracleRegression was.passRate now.passRate))
      else .checked (.ok s)
  | .verdict s => .judged (some (verdict s.source))
  | passes s => .passed (verdict s.source).passed

variable {q : Query}

theorem asked_suffix_answer (q : Query) (m : Memo) : m.asked <:+ (q.answer g m).2.asked := by
  cases q with
  | check before text tier => exact asked_suffix_check before text tier m
  | verdict s => exact asked_suffix_verdict s m
  | passes s => exact asked_suffix_verdict s m

theorem answer_faithful (hq : q.Hashed) (hm : m.Faithful g.judge) :
    (q.answer g m).2.Faithful g.judge := by
  cases q with
  | check before text tier => exact check_faithful hm hq text tier
  | verdict s => exact verdict_faithful hm hq
  | passes s => exact verdict_faithful hm hq

section Judged

variable {judge : List String → String → Verdict} (hjudge : g.judge = some judge) (hq : q.Hashed)
  (hm : m.Faithful g.judge)
include hjudge hq hm

/-- The texts that decide a query are among those asked about. -/
theorem mem_asked_answer {text : String} (htext : text ∈ q.texts g) :
    Digest.ofText text ∈ (q.answer g m).2.asked.map Digest.ofText := by
  rw [hjudge] at hm
  cases q with
  | check before after tier =>
    unfold texts at htext
    show _ ∈ (g.check before after tier m).2.asked.map Digest.ofText
    obtain ⟨o, hinspect, -⟩ | ⟨s, hinspect, hs, hmemo⟩ := check_memo (g := g) before after tier m
    · simp only [hinspect] at htext
      cases htext
    · simp only [hinspect] at htext
      rw [hmemo]
      unfold behaviourObjection?
      rw [hjudge]
      rcases List.mem_cons.mp htext with rfl | htext
      · have hsuffix := (m.ask judge before).2.asked_suffix_ask judge s
        exact (hsuffix.map Digest.ofText).subset (hm.mem_asked_ask hq)
      · rw [List.mem_singleton.mp htext]
        exact (hm.ask hq).mem_asked_ask hs
  | verdict s =>
    rw [List.mem_singleton.mp htext]
    show _ ∈ (g.verdict s m).2.asked.map Digest.ofText
    unfold Gate.verdict
    rw [hjudge]
    exact hm.mem_asked_ask hq
  | passes s =>
    rw [List.mem_singleton.mp htext]
    show _ ∈ (g.verdict s m).2.asked.map Digest.ofText
    unfold Gate.verdict
    rw [hjudge]
    exact hm.mem_asked_ask hq

/-- The reply to a query is decided by the first verdicts. -/
theorem answer_eq_decided {all : List String} (hsuffix : (q.answer g m).2.asked <:+ all)
    (hall : (all.map Digest.ofText).Nodup) :
    (q.answer g m).1 = q.decided g (Memo.firstVerdict judge all) := by
  rw [hjudge] at hm
  cases q with
  | check before text tier =>
    have hsuffix' : (g.check before text tier m).2.asked <:+ all := hsuffix
    show Reply.checked (g.check before text tier m).1 = _
    unfold decided
    obtain ⟨o, hinspect, hcheck⟩ | ⟨s, hinspect, hs, hmemo⟩ :=
      check_memo (g := g) before text tier m
    · rw [hcheck]
      simp only [hinspect]
    · rw [hmemo] at hsuffix'
      unfold behaviourObjection? at hsuffix'
      rw [hjudge] at hsuffix'
      have hfirst := (Memo.asked_suffix_ask _ judge s).trans hsuffix'
      have hwas := hm.ask_eq_firstVerdict hq hfirst hall
      have hnow := (hm.ask hq).ask_eq_firstVerdict hs hsuffix' hall
      unfold Gate.check behaviourObjection?
      simp only [hinspect, hjudge, ← hwas, ← hnow]
      by_cases hworse : ((m.ask judge before).2.ask judge s).1.regressesFrom
          (m.ask judge before).1 = true
      · simp only [hworse, if_true]
      · simp only [hworse]
        rfl
  | verdict s =>
    have hsuffix' : (g.verdict s m).2.asked <:+ all := hsuffix
    show Reply.judged (g.verdict s m).1 = .judged (some (Memo.firstVerdict judge all s.source))
    unfold Gate.verdict at hsuffix' ⊢
    rw [hjudge] at hsuffix' ⊢
    rw [← hm.ask_eq_firstVerdict hq hsuffix' hall]
  | passes s =>
    have hsuffix' : (g.verdict s m).2.asked <:+ all := hsuffix
    show Reply.passed (g.passes s m).1 = .passed (Memo.firstVerdict judge all s.source).passed
    unfold Gate.passes
    unfold Gate.verdict at hsuffix' ⊢
    rw [hjudge] at hsuffix' ⊢
    rw [← hm.ask_eq_firstVerdict hq hsuffix' hall]
    rfl

end Judged

end Query

/-- The replies to queries that are made one after the other. -/
def serve (g : Gate) : List Query → Memo → List Reply × Memo
  | [], m => ([], m)
  | q :: qs, m =>
    let (reply, m) := q.answer g m
    let (replies, m) := serve g qs m
    (reply :: replies, m)

theorem serve_cons (q : Query) (qs : List Query) (m : Memo) :
    g.serve (q :: qs) m =
      ((q.answer g m).1 :: (g.serve qs (q.answer g m).2).1, (g.serve qs (q.answer g m).2).2) := rfl

theorem asked_suffix_serve (qs : List Query) (m : Memo) : m.asked <:+ (g.serve qs m).2.asked := by
  induction qs generalizing m with
  | nil => exact List.suffix_refl _
  | cons q qs ih =>
    rw [serve_cons]
    exact (q.asked_suffix_answer m).trans (ih _)

theorem serve_faithful {qs : List Query} (hqs : ∀ q ∈ qs, q.Hashed) (hm : m.Faithful g.judge) :
    (g.serve qs m).2.Faithful g.judge := by
  induction qs generalizing m with
  | nil => exact hm
  | cons q qs ih =>
    obtain ⟨hq, hqs⟩ := List.forall_mem_cons.mp hqs
    rw [serve_cons]
    exact ih hqs (q.answer_faithful hq hm)

section Served

variable {judge : List String → String → Verdict} (hjudge : g.judge = some judge) {qs : List Query}
  (hqs : ∀ q ∈ qs, q.Hashed) (hm : m.Faithful g.judge)
include hjudge hqs hm

theorem mem_asked_serve {q : Query} (hq : q ∈ qs) {text : String} (htext : text ∈ q.texts g) :
    Digest.ofText text ∈ (g.serve qs m).2.asked.map Digest.ofText := by
  induction qs generalizing m with
  | nil => cases hq
  | cons q' qs ih =>
    obtain ⟨hq', hqs⟩ := List.forall_mem_cons.mp hqs
    rw [serve_cons]
    rcases List.mem_cons.mp hq with rfl | hq
    · have hsuffix := asked_suffix_serve (g := g) qs (q.answer g m).2
      exact (hsuffix.map Digest.ofText).subset (q.mem_asked_answer hjudge hq' hm htext)
    · exact ih hqs (q'.answer_faithful hq' hm) hq

/-- The replies to a sequence of queries are those of a judge without memory, which gives the first
verdicts, those on texts asked about later included. -/
theorem serve_replies {all : List String} (hsuffix : (g.serve qs m).2.asked <:+ all)
    (hall : (all.map Digest.ofText).Nodup) :
    (g.serve qs m).1 = qs.map (Query.decided g (Memo.firstVerdict judge all)) := by
  induction qs generalizing m with
  | nil => rfl
  | cons q qs ih =>
    obtain ⟨hq, hqs⟩ := List.forall_mem_cons.mp hqs
    rw [serve_cons] at hsuffix ⊢
    have hrest : (q.answer g m).2.asked <:+ all :=
      (asked_suffix_serve (g := g) qs _).trans hsuffix
    rw [List.map_cons, q.answer_eq_decided hjudge hq hm hrest hall,
      ih hqs (q.answer_faithful hq hm) hsuffix]

end Served

end Gate

/-! ## Runs -/

namespace Course

/-- What a run has asked so far. Every question is about the candidate, the canon or a proposal: as
long as the current text or the canon were not asked about, a question is left over for them. -/
structure Ledger (c : Course) (r : Run) : Prop where
  hashed : r.current.Hashed
  faithful : r.memo.Faithful c.gate.judge
  paid : r.memo.asked.length + r.memo.pending r.current + r.memo.pending c.canon ≤
    2 + r.applied.length + r.rejections.length

variable {c : Course} {r : Run}

theorem Ledger.start {first : Snapshot} (hfirst : first.Hashed) : c.Ledger (.start first) where
  hashed := hfirst
  faithful := .empty _
  paid := by
    have hour := Memo.pending_le_one {} first
    have their := Memo.pending_le_one {} c.canon
    show 0 + Memo.pending {} first + Memo.pending {} c.canon ≤ 2 + 0 + 0
    omega

theorem Ledger.asked_le (h : c.Ledger r) :
    r.memo.asked.length ≤ 2 + r.applied.length + r.rejections.length := by
  have hpaid := h.paid
  omega

/-- A rejection without a question leaves room for one. -/
theorem Ledger.reject (h : c.Ledger r) (name : String) (o : Objection) :
    c.Ledger (r.reject name o) where
  hashed := h.hashed
  faithful := h.faithful
  paid := by
    have hpaid := h.paid
    show r.memo.asked.length + r.memo.pending r.current + r.memo.pending c.canon ≤
      2 + r.applied.length + (r.rejections ++ [_]).length
    rw [List.length_append]
    omega

theorem Ledger.consider (h : c.Ledger r) (name text : String) (tier : Tier) :
    c.Ledger (c.consider r name text tier).1 := by
  unfold Course.consider
  simp only
  split
  · exact h.reject name .revisited
  · have hpaid := h.paid
    have hfaithful := c.gate.check_faithful h.faithful h.hashed text tier
    have hcanon := (c.gate.check_extends r.current text tier r.memo).pending_le c.canon
    obtain ⟨hsame, hnew⟩ := c.gate.asked_check_le r.current text tier r.memo
    have hhashed : ∀ s, (c.gate.check r.current text tier r.memo).1 = .ok s → s.Hashed :=
      fun s hcheck => (Gate.inspect_eq_ok (Gate.inspect_of_check hcheck)).2.hashed
    generalize c.gate.check r.current text tier r.memo = p at *
    split
    · rename_i s hcheck
      have hs := hnew s hcheck
      refine ⟨hhashed s hcheck, hfaithful, ?_⟩
      show p.2.asked.length + p.2.pending s + p.2.pending c.canon ≤
        2 + (r.applied ++ [name]).length + r.rejections.length
      rw [List.length_append, List.length_singleton]
      omega
    · refine ⟨h.hashed, hfaithful, ?_⟩
      show p.2.asked.length + p.2.pending r.current + p.2.pending c.canon ≤
        2 + r.applied.length + (r.rejections ++ [_]).length
      rw [List.length_append, List.length_singleton]
      omega

/-- All steps of a run keep its ledger. -/
theorem preserves_ledger (hcanon : c.canon.Hashed) : c.Preserves c.Ledger where
  begins := fun h => ⟨h.hashed, h.faithful, h.paid⟩
  answers := by
    intro r name tier generated h
    unfold propose
    split
    · exact h
    · exact h.consider name _ tier
    · exact h.reject name _
  consults := by
    intro r s hs h
    have hpaid := h.paid
    have hext : r.memo.Extends (c.gate.verdict s r.memo).2 := c.gate.passes_extends s r.memo
    have hcount := c.gate.asked_verdict s r.memo
    have hour := hext.pending_le r.current
    have their := hext.pending_le c.canon
    refine ⟨h.hashed, ?_, ?_⟩
    · rcases hs with rfl | rfl
      · exact Gate.verdict_faithful h.faithful h.hashed
      · exact Gate.verdict_faithful h.faithful hcanon
    · show (c.gate.verdict s r.memo).2.asked.length +
          (c.gate.verdict s r.memo).2.pending r.current +
          (c.gate.verdict s r.memo).2.pending c.canon ≤
        2 + r.applied.length + r.rejections.length
      rcases hs with rfl | rfl <;> omega
  counts := fun h => ⟨h.hashed, h.faithful, h.paid⟩

/-- What was asked stays asked. -/
theorem preserves_asked (asked : List String) :
    c.Preserves fun r => asked <:+ r.memo.asked where
  begins := fun h => h
  answers := by
    intro r name tier generated h
    unfold propose
    split
    · exact h
    · unfold Course.consider
      simp only
      split
      · exact h
      · rename_i text _
        have hmore := h.trans (c.gate.asked_suffix_check r.current text tier r.memo)
        split
        · exact hmore
        · exact hmore
    · exact h
  consults := fun s _ h => h.trans (Gate.asked_suffix_verdict s _)
  counts := fun h => h

/-! ### Judges without memory -/

/-- The course with a judge without memory. -/
def steady (c : Course) (all : List String) : Course := { c with gate := c.gate.steady all }

section Steady

variable {all : List String} (hall : (all.map Digest.ofText).Nodup) (hcanon : c.canon.Hashed)
include hall

theorem consider_steady (h : c.Ledger r) {name text : String} {tier : Tier}
    (hsuffix : (c.consider r name text tier).1.memo.asked <:+ all) :
    (c.steady all).consider r name text tier = c.consider r name text tier := by
  unfold consider at hsuffix ⊢
  simp only at hsuffix ⊢
  rw [show (c.steady all).visitedGuard = c.visitedGuard from rfl]
  split
  · rfl
  · rename_i hseen
    rw [if_neg hseen] at hsuffix
    have hsuffix' : (c.gate.check r.current text tier r.memo).2.asked <:+ all := by
      split at hsuffix
      · exact hsuffix
      · exact hsuffix
    have hcheck := c.gate.check_steady h.faithful h.hashed hsuffix' hall
    rw [show (c.steady all).gate.check r.current text tier r.memo = _ from hcheck]

theorem propose_steady (h : c.Ledger r) (name : String) (tier : Tier)
    (generated : Except StrategyError (Option String))
    (hsuffix : (c.propose r name tier generated).1.memo.asked <:+ all) :
    (c.steady all).propose r name tier generated = c.propose r name tier generated := by
  unfold propose at hsuffix ⊢
  split
  · rfl
  · exact consider_steady hall h hsuffix
  · rfl

include hcanon

-- What was asked up to some point of a run is a part of what is asked in the end, so the verdicts
-- that a step uses are the same with either judge, as long as the texts asked about in the end are
-- known.

theorem tryStrategies_steady (d : Difference) (ss : Strategies) (h : c.Ledger r)
    (hsuffix : (c.tryStrategies d ss r).1.memo.asked <:+ all) :
    (c.steady all).tryStrategies d ss r = c.tryStrategies d ss r := by
  induction ss generalizing r with
  | nil => rfl
  | cons s rest ih =>
    have hledger := (preserves_ledger hcanon).answers s.name .strategy
      (s.generate d r.current.source) h
    have hsame := propose_steady hall h s.name .strategy (s.generate d r.current.source)
    unfold tryStrategies at hsuffix ⊢
    generalize c.propose r s.name .strategy (s.generate d r.current.source) = p at *
    obtain ⟨r', kept⟩ := p
    cases kept with
    | true => rw [hsame hsuffix]
    | false =>
      have hrest : r'.memo.asked <:+ all :=
        ((preserves_asked _).tryStrategies d rest (List.suffix_refl _)).trans hsuffix
      rw [hsame hrest]
      exact ih hledger hsuffix

theorem iterate_steady (tried : List Target) (h : c.Ledger r) (kept : Bool)
    (hsuffix : (c.iterate tried r kept).1.memo.asked <:+ all) :
    (c.steady all).iterate tried r kept = c.iterate tried r kept := by
  fun_induction Course.iterate c tried r kept with
  | case1 tried r kept e hexplain =>
    rw [iterate, show (c.steady all).explain r.current = c.explain r.current from rfl, hexplain]
  | case2 tried r kept ds hexplain hfind =>
    rw [iterate, show (c.steady all).explain r.current = c.explain r.current from rfl, hexplain]
    simp only
    split
    · rfl
    · rename_i hsome
      rw [hfind] at hsome
      cases hsome
  | case3 tried r kept ds hexplain d hfind _ r' now htry ih =>
    have hledger := (preserves_ledger hcanon).tryStrategies d (c.strategies.applicable d) h
    have hsame := tryStrategies_steady hall hcanon d (c.strategies.applicable d) h
    rw [htry] at hledger hsame
    have hrest : r'.memo.asked <:+ all :=
      ((preserves_asked _).iterate _ (List.suffix_refl _) _).trans hsuffix
    rw [iterate, show (c.steady all).explain r.current = c.explain r.current from rfl, hexplain]
    simp only
    split
    · rename_i hnone
      rw [hfind] at hnone
      cases hnone
    · rename_i d' hsome
      obtain rfl := Option.some.inj (hfind.symm.trans hsome)
      rw [show (c.steady all).tryStrategies d ((c.steady all).strategies.applicable d) r = _ from
        hsame hrest]
      exact ih hledger hsuffix

theorem validated_steady (h : c.Ledger r) (hsuffix : (c.validated r).1.memo.asked <:+ all) :
    (c.steady all).validated r = c.validated r := by
  unfold validated at hsuffix ⊢
  rw [show (c.steady all).attested = c.attested from rfl]
  split
  · rfl
  · rename_i hattested
    rw [if_neg hattested] at hsuffix
    simp only at hsuffix ⊢
    have hours : (c.gate.passes r.current r.memo).2.asked <:+ all := by
      split at hsuffix
      · exact (Gate.asked_suffix_verdict c.canon _).trans hsuffix
      · exact hsuffix
    rw [show (c.steady all).gate.passes r.current r.memo = _ from
      Gate.passes_steady h.faithful h.hashed hours hall]
    split
    · rename_i hpass
      rw [if_pos hpass] at hsuffix
      have hfaithful : (c.gate.passes r.current r.memo).2.Faithful c.gate.judge :=
        Gate.verdict_faithful h.faithful h.hashed
      rw [show (c.steady all).gate.passes (c.steady all).canon _ = _ from
        Gate.passes_steady hfaithful hcanon hsuffix hall]
    · rfl

theorem tryTemplate_steady (h : c.Ledger r) (hsuffix : (c.tryTemplate r).1.memo.asked <:+ all) :
    (c.steady all).tryTemplate r = c.tryTemplate r := by
  have hledger := (preserves_ledger hcanon).validated h
  have hsame := validated_steady hall hcanon h
  unfold tryTemplate at hsuffix ⊢
  rw [show (c.steady all).template = c.template from rfl]
  split
  · rfl
  · rename_i hopen
    rw [if_neg hopen] at hsuffix
    generalize c.validated r = p at *
    obtain ⟨r', valid⟩ := p
    cases valid with
    | false => rw [hsame hsuffix]
    | true =>
      simp only at hsuffix
      have hrest : r'.memo.asked <:+ all :=
        ((preserves_asked _).answers _ _ _ (List.suffix_refl _)).trans hsuffix
      rw [hsame hrest]
      exact propose_steady hall hledger _ _ _ hsuffix

theorem turn_steady (h : c.Ledger r) (hsuffix : (c.turn r).1.memo.asked <:+ all) :
    (c.steady all).turn r = c.turn r := by
  have hbegin := (preserves_ledger hcanon).begins h
  have hledger := (preserves_ledger hcanon).iterate [] hbegin false
  have hsame := iterate_steady hall hcanon [] hbegin false
  unfold turn at hsuffix ⊢
  generalize c.iterate [] { r with iteration := r.iteration + 1 } false = p at *
  obtain ⟨r', _ | kept⟩ := p
  · rw [hsame hsuffix]
  · simp only at hsuffix
    have hrest : r'.memo.asked <:+ all := by
      split at hsuffix
      · exact ((preserves_asked _).tryTemplate (List.suffix_refl _)).trans hsuffix
      · exact hsuffix
    rw [hsame hrest]
    simp only
    split
    · rename_i hstill
      rw [if_pos hstill] at hsuffix
      rw [tryTemplate_steady hall hcanon hledger hsuffix]
    · rfl

/-- A run with a judge without memory that gives the first verdicts is the same run. -/
theorem drive_steady (left : Nat) (h : c.Ledger r)
    (hsuffix : (c.drive left r).1.memo.asked <:+ all) :
    (c.steady all).drive left r = c.drive left r := by
  induction left generalizing r with
  | zero =>
    by_cases hd : r.current.distance ≤ 0
    · rw [drive_of_le 0 hd, drive_of_le 0 hd]
    · rw [drive_zero hd, drive_zero hd]
  | succ left ih =>
    by_cases hd : r.current.distance ≤ 0
    · rw [drive_of_le _ hd, drive_of_le _ hd]
    · have hledger := (preserves_ledger hcanon).turn ((preserves_ledger hcanon).begins h)
      have hsame := turn_steady hall hcanon h
      rw [drive_succ left hd] at hsuffix ⊢
      rw [drive_succ left hd]
      generalize c.turn r = p at *
      obtain ⟨r', _ | _ | _⟩ := p
      · rw [hsame hsuffix]
      · rw [hsame hsuffix]
      · simp only at hsuffix
        have hcounts := (preserves_ledger hcanon).counts hledger
        have hmore := (preserves_asked (c := c) r'.memo.asked).drive left
          (r := { r' with used := r'.used + 1 }) (List.suffix_refl _)
        rw [hsame (hmore.trans hsuffix)]
        exact ih hcounts hsuffix

end Steady

end Course

/-! ## Transformations -/

namespace Engine

/-- The engine with an oracle without memory, which gives the first verdicts. -/
def steady (e : Engine) (all : List String) : Engine :=
  { e with oracle := e.oracle.map fun oracle contract _ => Memo.firstVerdict (oracle contract) all }

theorem gateFor_steady (e : Engine) (q : Request) (all : List String) :
    (e.steady all).gateFor q = (e.gateFor q).steady all := by
  unfold gateFor Gate.steady steady namingFor
  cases e.oracle with
  | none => rfl
  | some oracle => cases q.contract <;> rfl

theorem courseFor_steady (e : Engine) (q : Request) (all : List String) (canon : Snapshot) :
    (e.steady all).courseFor q canon = (e.courseFor q canon).steady all := by
  unfold courseFor Course.steady
  rw [gateFor_steady]
  rfl

theorem outcomeFor_steady {e : Engine} {q : Request} {canon first : Snapshot}
    (hcanon : (e.gateFor q).snapshot? q.canon = some canon)
    (hfirst : (e.gateFor q).snapshot? q.candidate = some first) :
    (e.steady (e.outcomeFor q canon first).1.memo.asked).outcomeFor q canon first =
      e.outcomeFor q canon first := by
  have hledger := (Course.preserves_ledger (c := e.courseFor q canon)
    (Gate.snapshot?_hashed hcanon)).drive (e.budgetFor q) (.start (Gate.snapshot?_hashed hfirst))
  have hsame := Course.drive_steady hledger.faithful.distinct (Gate.snapshot?_hashed hcanon)
    (e.budgetFor q) (.start (Gate.snapshot?_hashed hfirst)) (List.suffix_refl _)
  unfold outcomeFor
  rw [courseFor_steady]
  exact hsame

theorem snapshot?_steady (e : Engine) (q : Request) (all : List String) (source : String) :
    ((e.steady all).gateFor q).snapshot? source = (e.gateFor q).snapshot? source := by
  rw [gateFor_steady]
  rfl

/-- A transformation is given by the measured texts and the outcome of the run. -/
theorem transform_congr {e e' : Engine} {q : Request}
    (hsnapshot : ∀ source, (e'.gateFor q).snapshot? source = (e.gateFor q).snapshot? source)
    (houtcome : ∀ canon first, (e.gateFor q).snapshot? q.canon = some canon →
      (e.gateFor q).snapshot? q.candidate = some first →
      e'.outcomeFor q canon first = e.outcomeFor q canon first) :
    e'.transform q = e.transform q := by
  unfold transform
  simp only [hsnapshot]
  split
  · rename_i canon first hcanon hfirst
    have hsame := houtcome canon first hcanon hfirst
    unfold outcomeFor budgetFor at hsame
    rw [hsame]
  · rfl

/-- What a transformation reports as asked is what its run asked. -/
theorem asked_transform {e : Engine} {q : Request} {canon first : Snapshot}
    (hcanon : (e.gateFor q).snapshot? q.canon = some canon)
    (hfirst : (e.gateFor q).snapshot? q.candidate = some first) :
    (e.transform q).asked = (e.outcomeFor q canon first).1.memo.asked := by
  have hresult := e.transform_result q
  generalize e.transform q = t at hresult
  cases hresult with
  | unmeasured hnone =>
    rw [hcanon, hfirst] at hnone
    rcases hnone with hnone | hnone <;> cases hnone
  | aborted hcanon' hfirst' hrun =>
    obtain rfl := Option.some.inj (hcanon.symm.trans hcanon')
    obtain rfl := Option.some.inj (hfirst.symm.trans hfirst')
    rw [hrun]
    rfl
  | finished hcanon' hfirst' hrun _ =>
    obtain rfl := Option.some.inj (hcanon.symm.trans hcanon')
    obtain rfl := Option.some.inj (hfirst.symm.trans hfirst')
    rw [hrun]

/-- A transformation with an oracle without memory that gives the first verdicts is the same. -/
theorem transform_steady (e : Engine) (q : Request) :
    (e.steady (e.transform q).asked).transform q = e.transform q := by
  apply transform_congr
  · exact e.snapshot?_steady q _
  · intro canon first hcanon hfirst
    rw [asked_transform hcanon hfirst]
    exact outcomeFor_steady hcanon hfirst

/-- The ledger of the run for a request, when the run is over. -/
theorem ledger_outcomeFor {e : Engine} {q : Request} {canon first : Snapshot}
    (hcanon : (e.gateFor q).snapshot? q.canon = some canon)
    (hfirst : (e.gateFor q).snapshot? q.candidate = some first) :
    (e.courseFor q canon).Ledger (e.outcomeFor q canon first).1 :=
  (Course.preserves_ledger (c := e.courseFor q canon) (Gate.snapshot?_hashed hcanon)).drive
    (e.budgetFor q) (.start (Gate.snapshot?_hashed hfirst))

theorem nodup_asked_transform (e : Engine) (q : Request) :
    ((e.transform q).asked.map Digest.ofText).Nodup := by
  have hresult := e.transform_result q
  generalize e.transform q = t at hresult
  cases hresult with
  | unmeasured => exact List.nodup_nil
  | aborted hcanon hfirst hrun =>
    have hledger := ledger_outcomeFor hcanon hfirst
    rw [hrun] at hledger
    exact hledger.faithful.distinct
  | finished hcanon hfirst hrun _ =>
    have hledger := ledger_outcomeFor hcanon hfirst
    rw [hrun] at hledger
    exact hledger.faithful.distinct

/-- **The oracle is asked once about a text.** For every sequence of queries to a gate, and for
every transformation with any oracle, strategies and explainers: the texts that the oracle was asked
about differ from each other, and every reply and every step is the one that an oracle without
memory would have led to, which gives on every text the verdict that was given first. Unless another
text that was asked about has the same digest, that is the verdict on this very text. A run asks at
most about two texts more than it applies strategies and rejects proposals. -/
theorem transform_asks_once :
    (∀ (g : Gate) (judge : List String → String → Verdict) (qs : List Gate.Query),
      g.judge = some judge → (∀ q ∈ qs, q.Hashed) →
      let asked := (g.serve qs {}).2.asked
      asked.Nodup ∧
      (g.serve qs {}).1 = qs.map (Gate.Query.decided g (Memo.firstVerdict judge asked)) ∧
      ∀ q ∈ qs, ∀ text ∈ q.texts g,
        (∀ t ∈ asked, Digest.ofText t = Digest.ofText text → t = text) →
        ∃ later earlier, asked = later ++ text :: earlier ∧
          Memo.firstVerdict judge asked text = judge earlier text) ∧
    ∀ (e : Engine) (q : Request),
      let t := e.transform q
      t.asked.Nodup ∧
      (e.steady t.asked).transform q = t ∧
      (∀ judge text, Digest.ofText text ∈ t.asked.map Digest.ofText →
        (∀ t' ∈ t.asked, Digest.ofText t' = Digest.ofText text → t' = text) →
        ∃ later earlier, t.asked = later ++ text :: earlier ∧
          Memo.firstVerdict judge t.asked text = judge earlier text) ∧
      (∀ canon first, (e.gateFor q).snapshot? q.canon = some canon →
        (e.gateFor q).snapshot? q.candidate = some first →
        let r := (e.outcomeFor q canon first).1
        t.asked = r.memo.asked ∧ t.asked.length ≤ 2 + r.applied.length + r.rejections.length) ∧
      (t.ending ≠ .aborted → t.asked.length ≤ 2 + t.applied.length + t.rejections.length) := by
  refine ⟨?_, ?_⟩
  · intro g judge qs hjudge hqs asked
    have hempty : Memo.Faithful g.judge {} := .empty _
    have hfaithful := Gate.serve_faithful hqs hempty
    refine ⟨hfaithful.nodup, ?_, ?_⟩
    · exact Gate.serve_replies hjudge hqs hempty (List.suffix_refl _) hfaithful.distinct
    · intro q hq text htext hdistinct
      have hasked := Gate.mem_asked_serve hjudge hqs hempty hq htext
      exact Memo.firstVerdict_of_distinct hfaithful.distinct hasked hdistinct
  · intro e q t
    have hnodup := e.nodup_asked_transform q
    refine ⟨hnodup.of_map, e.transform_steady q, ?_, ?_, ?_⟩
    · intro judge text hasked hdistinct
      exact Memo.firstVerdict_of_distinct hnodup hasked hdistinct
    · intro canon first hcanon hfirst r
      have hasked := asked_transform hcanon hfirst
      refine ⟨hasked, ?_⟩
      rw [show t.asked = r.memo.asked from hasked]
      exact (ledger_outcomeFor hcanon hfirst).asked_le
    · intro hend
      have hresult := e.transform_result q
      rw [show e.transform q = t from rfl] at hresult
      generalize t = t at hresult hend
      cases hresult with
      | unmeasured => exact absurd rfl hend
      | aborted => exact absurd rfl hend
      | finished hcanon hfirst hrun _ =>
        have hledger := ledger_outcomeFor hcanon hfirst
        rw [hrun] at hledger
        exact hledger.asked_le

/-- A judge that passes the first text it is asked about and nothing after it, asked twice about the
empty text: it passes both times. -/
theorem transform_asks_once_fickle :
    let judge : List String → String → Verdict := fun asked _ =>
      if asked.isEmpty then .pass "" else .fail 0 ""
    let g : Gate := { canon := {}, judge := some judge }
    let q : Gate.Query := .passes (g.measure "" ⟨[]⟩)
    (g.serve [q, q] {}).2.asked = [""] ∧ (g.serve [q, q] {}).1 = [.passed true, .passed true] := by
  intro judge g q
  have hhashed : ∀ q' ∈ [q, q], q'.Hashed := by
    intro q' hq'
    obtain rfl : q' = q := by simpa using hq'
    exact (rfl : (g.measure "" ⟨[]⟩).Hashed)
  obtain ⟨-, hreplies, -⟩ := transform_asks_once.1 g judge [q, q] rfl hhashed
  have hanswer : ∀ m, (q.answer g m).2 = (m.ask judge (g.measure "" ⟨[]⟩)).2 := fun _ => rfl
  have hasked : (g.serve [q, q] {}).2.asked = [""] := by
    have hrecalls := Memo.recalls_ask judge {} (g.measure "" ⟨[]⟩)
    rw [Gate.serve_cons, Gate.serve_cons, Gate.serve, hanswer, hanswer, hrecalls.ask_eq]
    simp only [Memo.ask, List.lookup_nil, Gate.measure_source]
  have hfirst : Memo.firstVerdict judge ([] ++ [""]) "" = .pass "" :=
    Memo.firstVerdict_eq (List.nodup_singleton _)
  have hdecided : q.decided g (Memo.firstVerdict judge [""]) = .passed true :=
    congrArg (fun v : Verdict => Gate.Reply.passed v.passed) hfirst
  refine ⟨hasked, ?_⟩
  rw [hreplies, hasked, List.map_cons, List.map_singleton, hdecided]

end Engine

end Concord
