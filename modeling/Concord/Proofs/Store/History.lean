import Concord.Proofs.Profile.Codec
import Concord.Store.Basic

/-!
# What a store holds after any history

Several handles may work on one memory, each with a mode of its own. Whatever they are asked, in
whatever order, the records that are held are what their fields say: the record of a task is kept
under the name of that task, its text parses and defines something, its digest and its profile are
those of the text, and where a pass was asked for there was one. That goes through because a record
is only made by `Store.prepare`, which checks everything before anything is written, and because the
record made anew is the only one that is ever put.

So one step is described once (`answer_cases`): the memory is as it was, or a record that was just
prepared has been put, or a record has been erased. What a history preserves follows by induction
on it.

Main statements:

* `prepare_eq_ok_iff`: which submissions are taken, and the record that is made of them.
* `answer_cases`: all that a request can do to a memory.
* `history_upholds`: what is held after a history, and what the next request can do to it.
-/

namespace Concord

namespace Table

variable {α : Type} {t : Table α} {name : String}

theorem notMem_names_erase (t : Table α) (name : String) : name ∉ (t.erase name).names := by
  intro hmem
  obtain ⟨p, hp, hname⟩ := List.mem_map.mp hmem
  have hne := (List.mem_filter.mp hp).2
  rw [hname] at hne
  simp at hne

theorem nodup_names_erase (h : t.names.Nodup) : (t.erase name).names.Nodup :=
  h.sublist (List.filter_sublist.map _)

/-- A value that is put keeps every name standing once. -/
theorem nodup_names_put (h : t.names.Nodup) (v : α) : (t.put name v).names.Nodup :=
  List.nodup_cons.mpr ⟨notMem_names_erase t name, nodup_names_erase h⟩

end Table

/-- What a record says is true of the canon of a task. -/
structure CanonRecord.Upholds (r : CanonRecord) (task : String) : Prop where
  own : r.taskId = task
  valid : TaskId.isValid task = true
  defines : ∃ m, Module.parse? r.source = some m ∧ m.hasDefinition = true
  profile : r.profile = Profile.ofSource r.mode r.source
  hash : r.sourceHash = Digest.ofText r.source
  passed : r.provenance.requiredPass = true → r.provenance.oracle.passed = true

/-- A table of records, each under its own task. -/
structure Table.Upheld (records : Table CanonRecord) : Prop where
  distinct : records.names.Nodup
  records : ∀ p ∈ records, p.2.Upholds p.1

theorem Table.Upheld.empty : Table.Upheld [] := ⟨List.nodup_nil, by simp⟩

namespace Store

/-! ## Submissions -/

/-- The record that is made of a submission whose text is a module. -/
def recordOf (mode : Mode) (q : Submission) (m : Module) : CanonRecord where
  taskId := q.task
  source := q.code
  sourceHash := Digest.ofText q.code
  profile := m.profile mode
  mode := mode
  provenance := { oracle := q.oracle, requiredPass := q.requirePass }
  naming := q.naming
  createdAt := q.moment

/-- A submission is taken if its task has a valid name, it passed where that is asked, and its text
is a module with a definition. -/
theorem prepare_eq_ok_iff {s : Store} {q : Submission} {r : CanonRecord} :
    s.prepare q = .ok r ↔
      TaskId.isValid q.task = true ∧ (q.requirePass = true → q.oracle.passed = true) ∧
      ∃ m, Module.parse? q.code = some m ∧ m.hasDefinition = true ∧ r = recordOf s.mode q m := by
  have hthrow : ∀ e : StoreError, (throw e : Except StoreError CanonRecord) = .error e := fun _ => rfl
  unfold prepare checkTask
  by_cases hvalid : TaskId.isValid q.task = true
  · by_cases hpass : q.requirePass = true → q.oracle.passed = true
    · have hgate : (q.requirePass && !q.oracle.passed) = false := by simpa using hpass
      cases hparse : Module.parse? q.code with
      | none => simp [hvalid, hgate, hthrow, bind, Except.bind]
      | some m =>
        by_cases hdefines : m.hasDefinition = true
        · simp only [hvalid, hgate, hdefines, bind, Except.bind, pure, Except.pure]
          constructor
          · intro h
            obtain rfl := Except.ok.inj h
            exact ⟨trivial, hpass, m, rfl, hdefines, rfl⟩
          · rintro ⟨-, -, m', hm, -, rfl⟩
            obtain rfl := Option.some.inj hm
            rfl
        · simp [hvalid, hgate, hdefines, bind, Except.bind]
    · have hgate : (q.requirePass && !q.oracle.passed) = true := by simpa using hpass
      simp [hvalid, hgate, hpass, hthrow, bind, Except.bind]
  · simp [hvalid, bind, Except.bind]

/-- The record of a submission that is taken says what is true. -/
theorem upholds_of_prepare {s : Store} {q : Submission} {r : CanonRecord}
    (h : s.prepare q = .ok r) : r.Upholds q.task := by
  obtain ⟨hvalid, hpass, m, hparse, hdefines, rfl⟩ := prepare_eq_ok_iff.mp h
  constructor
  case own => rfl
  case valid => exact hvalid
  case defines => exact ⟨m, hparse, hdefines⟩
  case profile =>
    show m.profile s.mode = Profile.ofSource s.mode q.code
    rw [Profile.ofSource, hparse]
  case hash => rfl
  case passed => exact hpass

/-! ## Requests -/

/-- What a handle of a store is asked to do. -/
inductive Request where
  | create (q : Submission)
  | overwrite (q : Submission)
  | remove (task : String)
  | load (task : String)
  | compare (task code : String)

/-- What a request comes to when it does not fail. -/
inductive Result where
  | recorded (r : CanonRecord)
  | removed (was : Bool)
  | loaded (record? : Option CanonRecord)
  | compared (c : CanonComparison)

/-- The result of a request, and the store afterwards. -/
def answer (s : Store) : Request → Except StoreError Result × Store
  | .create q => ((s.create q).1.map .recorded, (s.create q).2)
  | .overwrite q => ((s.overwrite q).1.map .recorded, (s.overwrite q).2)
  | .remove task => ((s.remove task).1.map .removed, (s.remove task).2)
  | .load task => ((s.load task).map .loaded, s)
  | .compare task code => ((s.compare task code).map .compared, s)

/-- What is held after a history of requests, each by a handle with its own mode. -/
def heldAfter (b : Backend) : List (Mode × Request) → Backend
  | [] => b
  | (mode, q) :: history => heldAfter (answer { backend := b, mode } q).2.backend history

/-- A record that was prepared has been put: in a free place, or by a request to overwrite. -/
structure Puts (mode : Mode) (records : Table CanonRecord) (q : Request) (r : CanonRecord) :
    Prop where
  asked : ∃ submission, prepare ⟨.memory records, mode⟩ submission = .ok r ∧
    (q = .create submission ∧ records.get? r.taskId = none ∨ q = .overwrite submission)
  result : answer ⟨.memory records, mode⟩ q =
    (.ok (.recorded r), ⟨.memory (records.put r.taskId r), mode⟩)

/-- All that a request can do to a memory. -/
theorem answer_cases (mode : Mode) (records : Table CanonRecord) (q : Request) :
    ((answer ⟨.memory records, mode⟩ q).2 = ⟨.memory records, mode⟩ ∧
      ∀ r, (answer ⟨.memory records, mode⟩ q).1 ≠ .ok (.recorded r)) ∨
    (∃ r, Puts mode records q r) ∨
    (∃ task, q = .remove task ∧ answer ⟨.memory records, mode⟩ q =
      (.ok (.removed (records.get? task).isSome), ⟨.memory (records.erase task), mode⟩)) := by
  cases q with
  | create submission =>
    cases hprepare : prepare ⟨.memory records, mode⟩ submission with
    | error e =>
      left
      simp [answer, create, hprepare, Except.map]
    | ok r =>
      cases hget : records.get? r.taskId with
      | some old =>
        left
        simp [answer, create, hprepare, Backend.insertNew, Backend.occupied, hget, Except.map]
      | none =>
        right; left
        refine ⟨r, ⟨submission, hprepare, .inl ⟨rfl, hget⟩⟩, ?_⟩
        simp [answer, create, hprepare, Backend.insertNew, Backend.occupied, hget, Except.map,
          Backend.replace]
  | overwrite submission =>
    cases hprepare : prepare ⟨.memory records, mode⟩ submission with
    | error e =>
      left
      simp [answer, overwrite, hprepare, Except.map]
    | ok r =>
      right; left
      refine ⟨r, ⟨submission, hprepare, .inr rfl⟩, ?_⟩
      simp [answer, overwrite, hprepare, Except.map, Backend.replace]
  | remove task =>
    cases hcheck : checkTask task with
    | error e =>
      left
      simp [answer, remove, hcheck, Except.map]
    | ok _ =>
      right; right
      refine ⟨task, rfl, ?_⟩
      simp [answer, remove, hcheck, Except.map, Backend.remove, Backend.occupied]
  | load task =>
    left
    refine ⟨rfl, ?_⟩
    intro r
    cases hload : load ⟨.memory records, mode⟩ task <;> simp [answer, hload, Except.map]
  | compare task code =>
    left
    refine ⟨rfl, ?_⟩
    intro r
    cases hcompare : Store.compare ⟨.memory records, mode⟩ task code <;>
      simp [answer, hcompare, Except.map]

/-! ## Histories -/

/-- One request leaves every record upheld. -/
theorem upheld_answer {records : Table CanonRecord} (h : records.Upheld) (mode : Mode)
    (q : Request) : ∃ records' : Table CanonRecord,
      (answer ⟨.memory records, mode⟩ q).2.backend = .memory records' ∧ records'.Upheld := by
  have herase : ∀ task, (records.erase task).Upheld := by
    intro task
    exact ⟨Table.nodup_names_erase h.distinct, fun p hp => h.records p (List.mem_filter.mp hp).1⟩
  obtain ⟨hsame, -⟩ | ⟨r, hput⟩ | ⟨task, -, herased⟩ := answer_cases mode records q
  · exact ⟨records, by rw [hsame], h⟩
  · obtain ⟨submission, hprepare, -⟩ := hput.asked
    have hr := upholds_of_prepare hprepare
    refine ⟨records.put r.taskId r, by rw [hput.result], ?_⟩
    constructor
    case distinct => exact Table.nodup_names_put h.distinct r
    case records =>
      intro p hp
      rcases List.mem_cons.mp hp with rfl | hp
      · exact hr.own.symm ▸ hr
      · exact (herase _).records p hp
  · exact ⟨records.erase task, by rw [herased], herase task⟩

/-- So does every history. -/
theorem upheld_heldAfter (history : List (Mode × Request)) {records : Table CanonRecord}
    (h : records.Upheld) : ∃ records' : Table CanonRecord,
      heldAfter (.memory records) history = .memory records' ∧ records'.Upheld := by
  induction history generalizing records with
  | nil => exact ⟨records, rfl, h⟩
  | cons step history ih =>
    obtain ⟨mode, q⟩ := step
    obtain ⟨records', hheld, h'⟩ := upheld_answer h mode q
    rw [heldAfter, hheld]
    exact ih h'

/-- A request that fails leaves the store as it was. -/
theorem eq_of_answer_error {mode : Mode} {records : Table CanonRecord} {q : Request} {e : StoreError}
    (h : (answer ⟨.memory records, mode⟩ q).1 = .error e) :
    (answer ⟨.memory records, mode⟩ q).2 = ⟨.memory records, mode⟩ := by
  obtain ⟨hsame, -⟩ | ⟨r, hput⟩ | ⟨task, -, herased⟩ := answer_cases mode records q
  · exact hsame
  · rw [hput.result] at h
    cases h
  · rw [herased] at h
    cases h

/-- A record that is given back is under its task, in the mode of the handle. -/
theorem get_of_answer_recorded {mode : Mode} {records : Table CanonRecord} {q : Request}
    {r : CanonRecord} (h : (answer ⟨.memory records, mode⟩ q).1 = .ok (.recorded r)) :
    (answer ⟨.memory records, mode⟩ q).2.backend.get r.taskId = .ok (some r) ∧ r.mode = mode := by
  obtain ⟨-, hnone⟩ | ⟨r', hput⟩ | ⟨task, -, herased⟩ := answer_cases mode records q
  · exact absurd h (hnone r)
  · rw [hput.result] at h ⊢
    obtain rfl := Result.recorded.inj (Except.ok.inj h)
    obtain ⟨submission, hprepare, -⟩ := hput.asked
    obtain ⟨-, -, m, -, -, rfl⟩ := prepare_eq_ok_iff.mp hprepare
    refine ⟨?_, rfl⟩
    show Except.ok (Table.get? (records.put _ _) _) = _
    rw [Table.get?_put, beq_self_eq_true, if_pos rfl]
  · rw [herased] at h
    cases Except.ok.inj h

/-- What becomes of a record that is held: it is kept, or replaced by a request to overwrite it, or
removed by a request to remove it. -/
theorem get_answer {mode : Mode} {records : Table CanonRecord} {task : String} {r : CanonRecord}
    (h : records.get? task = some r) (q : Request) :
    (answer ⟨.memory records, mode⟩ q).2.backend.get task = .ok (some r) ∨
    (∃ submission r', q = .overwrite submission ∧ submission.task = task ∧
      (answer ⟨.memory records, mode⟩ q).1 = .ok (.recorded r') ∧
      (answer ⟨.memory records, mode⟩ q).2.backend.get task = .ok (some r')) ∨
    (q = .remove task ∧ (answer ⟨.memory records, mode⟩ q).2.backend.get task = .ok none) := by
  have hget : ∀ t : Table CanonRecord, Backend.get (.memory t) task = .ok (t.get? task) :=
    fun _ => rfl
  obtain ⟨hsame, -⟩ | ⟨r', hput⟩ | ⟨task', rfl, herased⟩ := answer_cases mode records q
  · left
    rw [hsame, hget, h]
  · obtain ⟨submission, hprepare, hasked⟩ := hput.asked
    have hown := (upholds_of_prepare hprepare).own
    by_cases htask : task = r'.taskId
    · rcases hasked with ⟨-, hfree⟩ | rfl
      · rw [← htask, h] at hfree
        cases hfree
      · right; left
        refine ⟨submission, r', rfl, by rw [htask, hown], by rw [hput.result], ?_⟩
        rw [hput.result, hget, Table.get?_put, htask, beq_self_eq_true, if_pos rfl]
    · left
      rw [hput.result, hget, Table.get?_put, beq_eq_false_iff_ne.mpr htask, h]
      rfl
  · by_cases htask : task = task'
    · right; right
      refine ⟨by rw [htask], ?_⟩
      rw [herased, hget, Table.get?_erase, htask, beq_self_eq_true, if_pos rfl]
    · left
      rw [herased, hget, Table.get?_erase, beq_eq_false_iff_ne.mpr htask, h]
      rfl

/-- After any history of requests, by handles of any modes, to one memory that was empty: every
record is held under its own task and says what is true. Whatever is asked next, a failure leaves
the store as it was; a record that is given back is held; and a record that was held is kept unless
it is overwritten or removed. -/
theorem history_upholds (history : List (Mode × Request)) :
    ∃ records : Table CanonRecord, heldAfter (.memory []) history = .memory records ∧
      records.Upheld ∧
      ∀ mode q,
        (∀ e, (answer ⟨.memory records, mode⟩ q).1 = .error e →
          (answer ⟨.memory records, mode⟩ q).2 = ⟨.memory records, mode⟩) ∧
        (∀ r, (answer ⟨.memory records, mode⟩ q).1 = .ok (.recorded r) →
          (answer ⟨.memory records, mode⟩ q).2.backend.get r.taskId = .ok (some r) ∧
            r.mode = mode) ∧
        (∀ task r, records.get? task = some r →
          (answer ⟨.memory records, mode⟩ q).2.backend.get task = .ok (some r) ∨
          (∃ submission r', q = .overwrite submission ∧ submission.task = task ∧
            (answer ⟨.memory records, mode⟩ q).1 = .ok (.recorded r') ∧
            (answer ⟨.memory records, mode⟩ q).2.backend.get task = .ok (some r')) ∨
          (q = .remove task ∧
            (answer ⟨.memory records, mode⟩ q).2.backend.get task = .ok none)) := by
  obtain ⟨records, hheld, hupheld⟩ := upheld_heldAfter history Table.Upheld.empty
  refine ⟨records, hheld, hupheld, fun mode q => ⟨?_, ?_, ?_⟩⟩
  · exact fun e he => eq_of_answer_error he
  · exact fun r hr => get_of_answer_recorded hr
  · exact fun task r hr => get_answer hr q

end Store

end Concord

/-!
## What a store gives back

The record of a task is made by `Store.prepare`, and perhaps written to a file and read again. Whatever
backend is behind a store that was empty once, and whatever its handles were asked since: the profile
of a record that it gives back is the profile of the record's text in the record's mode. For files the
text, the mode and the profile of a record have to come back from its document; numbers may be lost on
the way, as the pass rate is a double, but a profile whose counts are lost is not read at all.

Main statements:

* `CanonRecord.eq_of_readRecord`: what is read of the document of a record.
* `Store.profile_of_require`: what a store gives back.
-/

namespace Concord

namespace CanonRecord

open Json (levels)

theorem levels_policy_le (p : NamingPolicy) : levels p.toJson ≤ 2 := by
  apply Json.levels_obj_le
  cases p.flexible <;> simp

/-- The document of a record has six levels at most. -/
theorem levels_toJson_le (r : CanonRecord) : levels r.toJson ≤ 6 := by
  have hnaming : levels ((r.naming.map (·.toJson)).getD .null) ≤ 5 := by
    cases r.naming with
    | none => exact Nat.zero_le _
    | some p => exact Nat.le_trans (levels_policy_le p) (by decide)
  have hprovenance : levels (.obj [("oracle", r.provenance.oracle.toJson),
      ("required_pass", .bool r.provenance.requiredPass)]) ≤ 5 := by
    have hverdict : levels r.provenance.oracle.toJson ≤ 4 := by
      apply Json.levels_obj_le
      simp
    apply Json.levels_obj_le
    simpa using hverdict
  apply Json.levels_zip_le
  simp [Profile.levels_toJson_le, hnaming, hprovenance]

theorem recovers_mode (mode : Mode) :
    Json.Recovers (fun j => j.str?.bind Mode.ofName?) (.str mode.name) mode := by
  apply Json.recovers_of_plain (Json.plain_str mode.name)
  cases mode <;> rfl

/-- What is read of the document of a record has its text, its mode and its profile. -/
theorem eq_of_readRecord {r r' : CanonRecord} (hr : r.profile.InOrder)
    (h : Backend.readRecord r.toJson.text = .ok r') :
    r'.source = r.source ∧ r'.mode = r.mode ∧ r'.profile = r.profile := by
  have hlevels : levels r.toJson ≤ Json.maxDepth := Nat.le_trans r.levels_toJson_le (by decide)
  unfold Backend.readRecord at h
  split at h
  case h_2 => cases h
  case h_1 r'' hread =>
    obtain rfl := Except.ok.inj h
    rw [Json.read?_text hlevels] at hread
    obtain ⟨j', hj', hread⟩ := Option.bind_eq_some_iff.mp hread
    simp only [ofJson?, Json.record?_reread hj' (by decide) rfl, List.map_cons, List.map_nil,
      Option.bind_eq_bind, Option.bind_some, Option.bind_eq_some_iff, Option.pure_def,
      Option.some_inj] at hread
    -- the record was read from eight fields; three of them are looked at
    obtain ⟨_, -, source, hsource, _, -, profile, hprofile, mode, hmode, _, -, _, -, _, -, rfl⟩ :=
      hread
    refine ⟨?_, ?_, ?_⟩
    · exact Json.only_need (Profile.Document.recovers_str _) source hsource
    · exact Json.only_need (recovers_mode _) mode hmode
    · exact Json.only_need (Profile.recovers_toJson hr) profile hprofile

/-- The profile of the record is that of its text. -/
def IsFaithful (r : CanonRecord) : Prop :=
  ∃ m, Module.parse? r.source = some m ∧ r.profile = m.profile r.mode

theorem Upholds.isFaithful {r : CanonRecord} {task : String} (h : r.Upholds task) :
    r.IsFaithful := by
  obtain ⟨m, hm, -⟩ := h.defines
  refine ⟨m, hm, ?_⟩
  rw [h.profile, Profile.ofSource, hm]

theorem IsFaithful.of_readRecord {r r' : CanonRecord} (hr : r.IsFaithful)
    (h : Backend.readRecord r.toJson.text = .ok r') : r'.IsFaithful := by
  obtain ⟨m, hm, hprofile⟩ := hr
  have horder : r.profile.InOrder := by
    rw [hprofile]
    exact m.inOrder_profile r.mode
  obtain ⟨hsource, hmode, hsame⟩ := eq_of_readRecord horder h
  exact ⟨m, by rw [hsource, hm], by rw [hsame, hmode, hprofile]⟩

end CanonRecord

namespace Backend

/-- Every record that is kept satisfies `P`; in files, every record whose document is kept. -/
def All (P : CanonRecord → Prop) : Backend → Prop
  | memory records => ∀ p ∈ records, P p.2
  | files documents => ∀ p ∈ documents, ∃ r, P r ∧ p.2 = r.toJson.text

variable {P : CanonRecord → Prop} {b : Backend}

theorem All.of_empty (h : b = .memory [] ∨ b = .files []) : b.All P := by
  rcases h with rfl | rfl <;> simp [All]

theorem All.replace (h : b.All P) {r : CanonRecord} (hr : P r) : (b.replace r).All P := by
  cases b with
  | memory records =>
    intro p hp
    rcases List.mem_cons.mp hp with rfl | hp
    · exact hr
    · exact h p (List.mem_filter.mp hp).1
  | files documents =>
    intro p hp
    rcases List.mem_cons.mp hp with rfl | hp
    · exact ⟨r, hr, rfl⟩
    · exact h p (List.mem_filter.mp hp).1

theorem All.remove (h : b.All P) (task : String) : (b.remove task).1.All P := by
  cases b with
  | memory records => exact fun p hp => h p (List.mem_filter.mp hp).1
  | files documents => exact fun p hp => h p (List.mem_filter.mp hp).1

/-- A faithful record that is kept is faithful when it is given back. -/
theorem All.get (h : b.All CanonRecord.IsFaithful) {task : String} {r : CanonRecord}
    (hget : b.get task = .ok (some r)) : r.IsFaithful := by
  cases b with
  | memory records =>
    have hlookup : records.get? task = some r := Except.ok.inj hget
    exact h (task, r) (Table.mem_of_get? hlookup)
  | files documents =>
    unfold Backend.get at hget
    simp only at hget
    split at hget
    case h_2 => cases hget
    case h_1 text htext =>
      obtain ⟨r', hr', rfl⟩ := h (fileName task, text) (Table.mem_of_get? htext)
      cases hread : readRecord r'.toJson.text with
      | error e =>
        rw [hread] at hget
        cases hget
      | ok r'' =>
        rw [hread] at hget
        obtain rfl := Option.some.inj (Except.ok.inj hget)
        exact hr'.of_readRecord hread

end Backend

namespace Store

variable {P : CanonRecord → Prop}

/-- One request keeps what holds of every record that is made. -/
theorem all_answer (hmade : ∀ s q r, prepare s q = .ok r → P r) {b : Backend} (h : b.All P)
    (mode : Mode) (q : Request) : (answer ⟨b, mode⟩ q).2.backend.All P := by
  cases q with
  | create submission =>
    show (create ⟨b, mode⟩ submission).2.backend.All P
    unfold create
    cases hprepare : prepare ⟨b, mode⟩ submission with
    | error e => exact h
    | ok r =>
      have hr := hmade _ _ _ hprepare
      -- a record in this place is left alone
      by_cases hoccupied : b.occupied r.taskId = true
      · simpa [Backend.insertNew, hoccupied] using h
      · simpa [Backend.insertNew, hoccupied] using h.replace hr
  | overwrite submission =>
    show (overwrite ⟨b, mode⟩ submission).2.backend.All P
    unfold overwrite
    cases hprepare : prepare ⟨b, mode⟩ submission with
    | error e => exact h
    | ok r => exact h.replace (hmade _ _ _ hprepare)
  | remove task =>
    show (remove ⟨b, mode⟩ task).2.backend.All P
    unfold remove
    cases checkTask task with
    | error e => exact h
    | ok _ => exact h.remove task
  | load task => exact h
  | compare task code => exact h

/-- So does every history. -/
theorem all_heldAfter (hmade : ∀ s q r, prepare s q = .ok r → P r) {b : Backend} (h : b.All P)
    (history : List (Mode × Request)) : (heldAfter b history).All P := by
  induction history generalizing b with
  | nil => exact h
  | cons step history ih => exact ih (all_answer hmade h step.1 step.2)

theorem get_of_require {s : Store} {task : String} {r : CanonRecord}
    (h : s.require task = .ok r) : s.backend.get task = .ok (some r) := by
  unfold require load at h
  cases hcheck : checkTask task with
  | error e =>
    rw [hcheck] at h
    cases h
  | ok _ =>
    rw [hcheck] at h
    cases hget : s.backend.get task with
    | error e =>
      simp [hget, bind, Except.bind] at h
    | ok found =>
      cases found with
      | none => simp [hget, bind, Except.bind] at h
      | some r' =>
        simp only [hget, bind, Except.bind] at h
        rw [← Except.ok.inj h]

/-- A store that was empty gives back records whose profile is that of their text, after any history
of requests and whatever it keeps them in. -/
theorem profile_of_require {b : Backend} (hempty : b = .memory [] ∨ b = .files [])
    (history : List (Mode × Request)) {mode : Mode} {task : String} {r : CanonRecord}
    (h : require ⟨heldAfter b history, mode⟩ task = .ok r) :
    ∃ m, Module.parse? r.source = some m ∧ r.profile = m.profile r.mode := by
  have hmade : ∀ s q r, prepare s q = .ok r → r.IsFaithful :=
    fun _ _ _ hprepare => (upholds_of_prepare hprepare).isFaithful
  exact (all_heldAfter hmade (Backend.All.of_empty hempty) history).get (get_of_require h)

end Store

end Concord
