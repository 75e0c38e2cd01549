import Concord.Store.Backend
import Concord.Proofs.Json.Reading
import Mathlib.Data.List.Basic
import Mathlib.Data.String.Basic

/-!
# The two backends agree

A backend in memory and one in files answer every history of requests alike. Seen from outside the
files are a table again: the file of a task has a name from which the task can be read back, so the
documents are the records one by one, under other names and in writing.

In a directory a record is not written in one step. The document is staged in a file with a
temporary name, and that file is renamed when it is complete: over the old document when a record is
replaced, and only onto a free name when it is new. `Directory` has these steps, and its answers and
documents are those of `Backend.files`; a staged document is in no listing.

Records come back from their documents if reading undoes writing for them, and this is assumed of
the records of a history (`Request.Sound`).

Main statements:

* `taskOf?_fileName`, `fileName_injective`: names of files and the tasks in them.
* `Mirrors.answer`: one request is answered alike by records and by their documents.
* `Directory.answer_eq`: so it is when documents are staged.
* `agree_on_histories`: both over whole histories.
-/

namespace Concord

namespace Table

variable {α β : Type}

/-- The table with other names and other values. -/
def mapped (rename : String → String) (write : α → β) (t : Table α) : Table β :=
  t.map fun p => (rename p.1, write p.2)

variable {rename : String → String} {write : α → β}

theorem get?_mapped (hrename : Function.Injective rename) (t : Table α) (name : String) :
    (t.mapped rename write).get? (rename name) = (t.get? name).map write := by
  induction t with
  | nil => rfl
  | cons p t ih =>
    obtain ⟨k, v⟩ := p
    have hcons : mapped rename write ((k, v) :: t) =
        (rename k, write v) :: mapped rename write t := rfl
    rw [hcons, get?_cons, get?_cons, ih]
    by_cases hk : name = k
    · simp [hk]
    · simp [hk, hrename.ne hk]

theorem erase_mapped (hrename : Function.Injective rename) (t : Table α) (name : String) :
    (t.mapped rename write).erase (rename name) = (t.erase name).mapped rename write := by
  unfold erase mapped
  rw [List.filter_map]
  congr 1
  apply List.filter_congr
  intro p _
  show (rename p.1 != rename name) = (p.1 != name)
  rw [bne, bne, Bool.beq_eq_decide_eq, Bool.beq_eq_decide_eq]
  simp only [hrename.eq_iff]

theorem put_mapped (hrename : Function.Injective rename) (t : Table α) (name : String) (v : α) :
    (t.mapped rename write).put (rename name) (write v) = (t.put name v).mapped rename write := by
  unfold put
  rw [erase_mapped hrename]
  rfl

theorem names_mapped (t : Table α) : (t.mapped rename write).names = t.names.map rename := by
  unfold names mapped
  rw [List.map_map, List.map_map]
  rfl

end Table

namespace Names

theorem pairwise_insert {n : String} {l : List String} (h : l.Pairwise (· < ·)) :
    (insert n l).Pairwise (· < ·) := by
  induction l with
  | nil => simp [insert]
  | cons m ms ih =>
    obtain ⟨hm, hms⟩ := List.pairwise_cons.mp h
    rw [insert]
    split
    · rename_i hlt
      refine List.pairwise_cons.mpr ⟨?_, h⟩
      intro a ha
      rcases List.mem_cons.mp ha with rfl | ha
      · exact hlt
      · exact lt_trans hlt (hm a ha)
    · split
      · exact h
      · rename_i hnlt hne
        refine List.pairwise_cons.mpr ⟨?_, ih hms⟩
        intro a ha
        rcases mem_insert.mp ha with rfl | ha
        · exact lt_of_le_of_ne (not_lt.mp hnlt) (Ne.symm hne)
        · exact hm a ha

/-- A set of names is in increasing order. -/
theorem pairwise_ofList (l : List String) : (ofList l).Pairwise (· < ·) := by
  induction l with
  | nil => exact List.Pairwise.nil
  | cons n ns ih => exact pairwise_insert ih

end Names

namespace TaskId

variable {task : String}

theorem ne_nil_of_isValid (h : isValid task = true) : task.toList ≠ [] := by
  intro hnil
  simp [isValid, hnil] at h

end TaskId

namespace Backend

/-! ## Names of files -/

theorem toList_fileName (task : String) : (fileName task).toList = task.toList ++ ending := by
  simp [fileName]

/-- Tasks with one file are one task, with whatever dots and endings they are named. -/
theorem fileName_injective : Function.Injective fileName := by
  intro t u h
  have hlist : t.toList ++ ending = u.toList ++ ending := by
    rw [← toList_fileName, ← toList_fileName, h]
  exact String.toList_inj.mp (List.append_cancel_right hlist)

/-- The task is read back from the name of its file. -/
theorem taskOf?_fileName {task : String} (h : task.toList ≠ []) :
    taskOf? (fileName task) = some task := by
  have hstem : (task.toList ++ ending).take ((task.toList ++ ending).length - ending.length) =
      task.toList := by
    rw [List.length_append, Nat.add_sub_cancel, List.take_left]
  unfold taskOf?
  simp only [toList_fileName, hstem]
  simp [h]

/-- A name that is read as that of a task is the name of its file. -/
theorem fileName_of_taskOf? {name task : String} (h : taskOf? name = some task) :
    name = fileName task ∧ task.toList ≠ [] := by
  unfold taskOf? at h
  simp only at h
  split at h
  · rename_i hstem
    rw [Bool.and_eq_true, beq_iff_eq, Bool.not_eq_true', List.isEmpty_eq_false_iff] at hstem
    obtain rfl := Option.some.inj h
    refine ⟨?_, by simpa using hstem.1⟩
    rw [← String.toList_inj, toList_fileName, String.toList_ofList]
    exact hstem.2
  · cases h

/-! ## Requests -/

/-- What a backend is asked to do. -/
inductive Request where
  | insertNew (record : CanonRecord)
  | replace (record : CanonRecord)
  | get (task : String)
  | remove (task : String)
  | taskIds

/-- What a backend answers. -/
inductive Answer where
  | done
  | failed (e : StoreError)
  | found (record? : Option CanonRecord)
  | removed (was : Bool)
  | listed (tasks : List String)

/-- What a backend answers to a request, and what it holds afterwards. -/
def answer (b : Backend) : Request → Answer × Backend
  | .insertNew r =>
    match b.insertNew r with
    | .ok b' => (.done, b')
    | .error e => (.failed e, b)
  | .replace r => (.done, b.replace r)
  | .get task =>
    match b.get task with
    | .ok found => (.found found, b)
    | .error e => (.failed e, b)
  | .remove task => (.removed (b.remove task).2, (b.remove task).1)
  | .taskIds => (.listed b.taskIds, b)

/-- The answers to a history of requests. -/
def answers (b : Backend) : List Request → List Answer
  | [] => []
  | q :: history => (b.answer q).1 :: (b.answer q).2.answers history

namespace Request

/-- The requests a store makes: the names of tasks are valid, and the document of a record is read
as that record. -/
def Sound : Request → Prop
  | .insertNew r | .replace r => TaskId.isValid r.taskId = true ∧ readRecord r.toJson.text = .ok r
  | .get task | .remove task => TaskId.isValid task = true
  | .taskIds => True

end Request

/-! ## Records and their documents -/

/-- The documents of records, in files with the names of their tasks. -/
def documentsOf (records : Table CanonRecord) : Table String :=
  records.mapped fileName (·.toJson.text)

/-- Documents that are those of records: tasks can be read from the names of the files, and records
from the documents. -/
structure Mirrors (records : Table CanonRecord) (documents : Table String) : Prop where
  documents_eq : documents = documentsOf records
  tasks : ∀ p ∈ records, TaskId.isValid p.1 = true
  readable : ∀ p ∈ records, readRecord p.2.toJson.text = .ok p.2

namespace Mirrors

variable {records : Table CanonRecord} {documents : Table String}

theorem empty : Mirrors [] [] := ⟨rfl, by simp, by simp⟩

/-- What is under a task in memory is in its file. -/
theorem get?_fileName (h : Mirrors records documents) (task : String) :
    documents.get? (fileName task) = (records.get? task).map (·.toJson.text) := by
  rw [h.documents_eq]
  exact Table.get?_mapped fileName_injective records task

theorem occupied (h : Mirrors records documents) (task : String) :
    (files documents).occupied task = (memory records).occupied task := by
  show (documents.get? (fileName task)).isSome = (records.get? task).isSome
  rw [h.get?_fileName, Option.isSome_map]

theorem get (h : Mirrors records documents) (task : String) :
    (files documents).get task = (memory records).get task := by
  unfold Backend.get
  simp only [h.get?_fileName]
  cases hget : records.get? task with
  | none => rfl
  | some r =>
    have hread := h.readable _ (Table.mem_of_get? hget)
    simp only [Option.map_some, hread]
    rfl

/-- The listing of the files is that of the tasks. -/
theorem taskIds (h : Mirrors records documents) :
    (files documents).taskIds = (memory records).taskIds := by
  have hread : ∀ task ∈ records.names, (taskOf? ∘ fileName) task = some task := by
    intro task htask
    obtain ⟨p, hp, rfl⟩ := List.mem_map.mp htask
    rw [Function.comp_apply, taskOf?_fileName (TaskId.ne_nil_of_isValid (h.tasks p hp))]
  have hnames : documents.names.filterMap taskOf? = records.names := by
    rw [h.documents_eq]
    unfold documentsOf
    rw [Table.names_mapped, List.filterMap_map]
    rw [List.filterMap_congr (g := some) hread, List.filterMap_some]
  show Names.ofList (documents.names.filterMap taskOf?) = Names.ofList records.names
  rw [hnames]

theorem erase (h : Mirrors records documents) (task : String) :
    Mirrors (records.erase task) (documents.erase (fileName task)) := by
  have hsub : ∀ p ∈ records.erase task, p ∈ records := fun p hp => (List.mem_filter.mp hp).1
  constructor
  case documents_eq =>
    rw [h.documents_eq]
    exact Table.erase_mapped fileName_injective records task
  case tasks => exact fun p hp => h.tasks p (hsub p hp)
  case readable => exact fun p hp => h.readable p (hsub p hp)

theorem put (h : Mirrors records documents) {r : CanonRecord}
    (htask : TaskId.isValid r.taskId = true) (hread : readRecord r.toJson.text = .ok r) :
    Mirrors (records.put r.taskId r) (documents.put (fileName r.taskId) r.toJson.text) := by
  have herase := h.erase r.taskId
  constructor
  case documents_eq =>
    rw [h.documents_eq]
    exact Table.put_mapped fileName_injective records r.taskId r
  case tasks =>
    intro p hp
    rcases List.mem_cons.mp hp with rfl | hp
    · exact htask
    · exact herase.tasks p hp
  case readable =>
    intro p hp
    rcases List.mem_cons.mp hp with rfl | hp
    · exact hread
    · exact herase.readable p hp

/-- No file of a record has the name of a file that holds no record. -/
theorem notMem_names (h : Mirrors records documents) {name : String} (hname : taskOf? name = none) :
    name ∉ documents.names := by
  rw [h.documents_eq, documentsOf, Table.names_mapped, List.mem_map]
  rintro ⟨task, htask, rfl⟩
  obtain ⟨p, hp, rfl⟩ := List.mem_map.mp htask
  rw [taskOf?_fileName (TaskId.ne_nil_of_isValid (h.tasks p hp))] at hname
  cases hname

/-- A request is answered alike by records and by their documents, which stay documents of the
records. -/
theorem answer (h : Mirrors records documents) {q : Request} (hq : q.Sound) :
    ((files documents).answer q).1 = ((memory records).answer q).1 ∧
    ∃ records' documents', ((memory records).answer q).2 = memory records' ∧
      ((files documents).answer q).2 = files documents' ∧ Mirrors records' documents' := by
  cases q with
  | insertNew r =>
    unfold Backend.answer insertNew
    simp only [h.occupied]
    split
    · rename_i hfree
      split at hfree
      · cases hfree
      · obtain rfl := Except.ok.inj hfree
        rename_i hvacant
        simp only [hvacant]
        exact ⟨rfl, _, _, rfl, rfl, h.put hq.1 hq.2⟩
    · rename_i htaken
      split at htaken
      · rename_i hoccupied
        simp only [hoccupied]
        refine ⟨?_, _, _, rfl, rfl, h⟩
        obtain rfl := Except.error.inj htaken
        rfl
      · cases htaken
  | replace r => exact ⟨rfl, _, _, rfl, rfl, h.put hq.1 hq.2⟩
  | get task =>
    unfold Backend.answer
    simp only [h.get]
    split
    · exact ⟨rfl, _, _, rfl, rfl, h⟩
    · exact ⟨rfl, _, _, rfl, rfl, h⟩
  | remove task =>
    refine ⟨?_, _, _, rfl, rfl, h.erase task⟩
    exact congrArg Answer.removed (h.occupied task)
  | taskIds => exact ⟨congrArg Answer.listed h.taskIds, _, _, rfl, rfl, h⟩

end Mirrors

/-! ## Staged documents -/

/-- The names of files in which documents are staged: no dot but the one in front. -/
def IsTemporary (name : String) : Prop :=
  ∃ cs : List Char, name.toList = ".tmp".toList ++ cs ∧ ∀ c ∈ cs, c.isAlphanum = true

/-- A staged document is not taken for the record of a task. -/
theorem taskOf?_eq_none {name : String} (h : IsTemporary name) : taskOf? name = none := by
  obtain ⟨cs, hname, hcs⟩ := h
  cases htask : taskOf? name with
  | none => rfl
  | some task =>
    exfalso
    obtain ⟨rfl, hne⟩ := fileName_of_taskOf? htask
    rw [toList_fileName] at hname
    obtain ⟨c, stem, hstem⟩ := List.exists_cons_of_ne_nil hne
    rw [hstem, List.cons_append] at hname
    -- the dot of the ending would be a second dot
    have htail : stem ++ ending = "tmp".toList ++ cs := (List.cons.inj hname).2
    have hdot : '.' ∈ "tmp".toList ++ cs := by
      rw [← htail]
      exact List.mem_append_right _ (by decide)
    rcases List.mem_append.mp hdot with hdot | hdot
    · exact absurd hdot (by decide)
    · exact absurd (hcs _ hdot) (by decide)

namespace Directory

/-- Write the document of a record into a file with a temporary name. -/
def stage (documents : Table String) (temporary : String) (r : CanonRecord) : Table String :=
  documents.put temporary r.toJson.text

/-- Give a staged document the name of a task, over the document that has it. -/
def persist (documents : Table String) (temporary task : String) : Table String :=
  match documents.get? temporary with
  | some text => (documents.erase temporary).put (fileName task) text
  | none => documents

/-- Give a staged document the name of a task that has none. -/
def persistNew (documents : Table String) (temporary task : String) :
    Except StoreError (Table String) :=
  if (documents.get? (fileName task)).isSome then .error (.alreadyExists task)
  else .ok (persist documents temporary task)

/-- What a directory answers to a request, and what is in it afterwards. A staged document that is
not persisted is dropped. -/
def answer (documents : Table String) (temporary : String) : Request → Answer × Table String
  | .insertNew r =>
    let staged := stage documents temporary r
    match persistNew staged temporary r.taskId with
    | .ok after => (.done, after)
    | .error e => (.failed e, staged.erase temporary)
  | .replace r => (.done, persist (stage documents temporary r) temporary r.taskId)
  | .get task =>
    match (files documents).get task with
    | .ok found => (.found found, documents)
    | .error e => (.failed e, documents)
  | .remove task =>
    (.removed (documents.get? (fileName task)).isSome, documents.erase (fileName task))
  | .taskIds => (.listed (files documents).taskIds, documents)

/-- The answers to a history of requests, each with a temporary name for what it stages. -/
def answers (documents : Table String) : List (String × Request) → List Answer
  | [] => []
  | (temporary, q) :: history =>
    (answer documents temporary q).1 :: answers (answer documents temporary q).2 history

variable {documents : Table String} {temporary : String}

/-- While a document is staged, the listing is as it was. -/
theorem taskIds_stage (h : IsTemporary temporary) (documents : Table String) (r : CanonRecord) :
    (files (stage documents temporary r)).taskIds = (files documents).taskIds := by
  have hkeep : ∀ t : Table String,
      (t.erase temporary).names.filterMap taskOf? = t.names.filterMap taskOf? := by
    intro t
    induction t with
    | nil => rfl
    | cons p t ih =>
      unfold Table.erase Table.names at ih ⊢
      by_cases hp : p.1 = temporary
      · simpa [hp, taskOf?_eq_none h] using ih
      · simp [hp, List.filterMap_cons, ih]
  show Names.ofList ((stage documents temporary r).names.filterMap taskOf?) =
    Names.ofList (documents.names.filterMap taskOf?)
  have hput : (stage documents temporary r).names =
      temporary :: (documents.erase temporary).names := rfl
  rw [hput, List.filterMap_cons_none (taskOf?_eq_none h), hkeep]

/-- A document that is staged and persisted is put in its place. -/
theorem persist_stage (hfresh : temporary ∉ documents.names) (r : CanonRecord) :
    persist (stage documents temporary r) temporary r.taskId =
      documents.put (fileName r.taskId) r.toJson.text := by
  unfold persist stage
  rw [Table.get?_put, Table.erase_put_self, Table.erase_eq_self hfresh]
  simp

/-- A staged document is no obstacle to the record it is of. -/
theorem persistNew_stage (hfresh : temporary ∉ documents.names) (r : CanonRecord)
    (hname : temporary ≠ fileName r.taskId) :
    persistNew (stage documents temporary r) temporary r.taskId =
      if (files documents).occupied r.taskId then .error (.alreadyExists r.taskId)
      else .ok (documents.put (fileName r.taskId) r.toJson.text) := by
  have hget : (stage documents temporary r).get? (fileName r.taskId) =
      documents.get? (fileName r.taskId) := by
    unfold stage
    rw [Table.get?_put, beq_eq_false_iff_ne.mpr hname.symm]
    rfl
  unfold persistNew occupied
  rw [hget, persist_stage hfresh]

/-- Staging makes no difference to answers and documents. -/
theorem answer_eq {records : Table CanonRecord} (h : Mirrors records documents)
    (htemporary : IsTemporary temporary) {q : Request} (hq : q.Sound) :
    (files documents).answer q =
      ((answer documents temporary q).1, files (answer documents temporary q).2) := by
  have hnone := taskOf?_eq_none htemporary
  have hfresh : temporary ∉ documents.names := h.notMem_names hnone
  cases q with
  | insertNew r =>
    have hname : temporary ≠ fileName r.taskId := by
      rintro rfl
      rw [taskOf?_fileName (TaskId.ne_nil_of_isValid hq.1)] at hnone
      cases hnone
    have hdrop : (stage documents temporary r).erase temporary = documents := by
      unfold stage
      rw [Table.erase_put_self, Table.erase_eq_self hfresh]
    simp only [answer, Backend.answer, persistNew_stage hfresh r hname, hdrop, insertNew]
    cases (files documents).occupied r.taskId <;> rfl
  | replace r => simp only [answer, Backend.answer, persist_stage hfresh, Backend.replace]
  | get task =>
    simp only [answer, Backend.answer]
    cases (files documents).get task <;> rfl
  | remove task => rfl
  | taskIds => rfl

end Directory

/-! ## Histories -/

theorem answers_eq {records : Table CanonRecord} {documents : Table String}
    (h : Mirrors records documents) {history : List Request} (hsound : ∀ q ∈ history, q.Sound) :
    (files documents).answers history = (memory records).answers history := by
  induction history generalizing records documents with
  | nil => rfl
  | cons q history ih =>
    obtain ⟨hanswer, records', documents', hrecords, hdocuments, h'⟩ :=
      h.answer (hsound q List.mem_cons_self)
    rw [answers, answers, hanswer, hrecords, hdocuments,
      ih h' fun q' hq' => hsound q' (List.mem_cons_of_mem _ hq')]

theorem Directory.answers_eq {records : Table CanonRecord} {documents : Table String}
    (h : Mirrors records documents) {history : List (String × Request)}
    (hsound : ∀ p ∈ history, IsTemporary p.1 ∧ p.2.Sound) :
    Directory.answers documents history = (files documents).answers (history.map (·.2)) := by
  induction history generalizing records documents with
  | nil => rfl
  | cons p history ih =>
    obtain ⟨temporary, q⟩ := p
    obtain ⟨htemporary, hq⟩ : IsTemporary temporary ∧ q.Sound := hsound _ List.mem_cons_self
    have hstep := Directory.answer_eq h htemporary hq
    obtain ⟨-, records', documents', -, hdocuments, h'⟩ := h.answer hq
    rw [hstep] at hdocuments
    have hafter : (Directory.answer documents temporary q).2 = documents' :=
      Backend.files.inj hdocuments
    rw [List.map_cons, Directory.answers, Backend.answers, hstep, hafter,
      ih h' fun p' hp' => hsound p' (List.mem_cons_of_mem _ hp')]

/-- A backend in memory and one in a directory, where documents are staged and then renamed, answer
every history alike, from the first request on. For the names: no two tasks have one file, and
whatever dots and endings a valid name has, the listing reads it back. A listing is in increasing
order, and does not show what is staged at the time. -/
theorem agree_on_histories (history : List (String × Request))
    (hsound : ∀ p ∈ history, IsTemporary p.1 ∧ p.2.Sound) :
    Directory.answers [] history = (memory []).answers (history.map (·.2)) ∧
    (files []).answers (history.map (·.2)) = (memory []).answers (history.map (·.2)) ∧
    (∀ task task', fileName task = fileName task' → task = task') ∧
    (∀ task, TaskId.isValid task = true → taskOf? (fileName task) = some task) ∧
    (∀ b : Backend, b.taskIds.Pairwise (· < ·)) ∧
    (∀ documents temporary r, IsTemporary temporary →
      (files (Directory.stage documents temporary r)).taskIds = (files documents).taskIds) := by
  have hmemory : (files []).answers (history.map (·.2)) =
      (memory []).answers (history.map (·.2)) := by
    refine answers_eq Mirrors.empty ?_
    intro q hq
    obtain ⟨p, hp, rfl⟩ := List.mem_map.mp hq
    exact (hsound p hp).2
  refine ⟨(Directory.answers_eq Mirrors.empty hsound).trans hmemory, hmemory, ?_, ?_, ?_, ?_⟩
  · exact fun _ _ h => fileName_injective h
  · exact fun _ h => taskOf?_fileName (TaskId.ne_nil_of_isValid h)
  · exact fun b => Names.pairwise_ofList _
  · exact fun documents _ r h => Directory.taskIds_stage h documents r

/-! A history in which the names of tasks have the ending of files, and one is asked for twice. -/

theorem readRecord_eq {text : String} {r : CanonRecord}
    (h : (Json.read? text).bind CanonRecord.ofJson? = some r) : readRecord text = .ok r := by
  unfold readRecord
  rw [h]

/-- A small record of a task. -/
def smallRecord (task : String) : CanonRecord where
  taskId := task
  source := "def f():\n    return 1\n"
  sourceHash := ⟨"b309078d2ef5762379266e1a9854ce65a169d866c7d1ffc5192bdc055b576c9d"⟩
  profile := .empty
  mode := .enhanced
  provenance := { oracle := .pass "ok", requiredPass := true }
  createdAt := "2024-01-01T00:00:00Z"

/-- Two tasks, one named like the file of the other. -/
def dottedHistory : List (String × Request) :=
  [.insertNew (smallRecord "v1.json"), .insertNew (smallRecord "v1"),
    .insertNew (smallRecord "v1.json"), .taskIds, .remove "v1", .get "v1", .taskIds].map
    (".tmpA1b2C3", ·)

theorem writeFloat_one : Literal.writeFloat 1 = "1.0" := by
  have htext : Decimal.ofFloat 1 = "1" := by decide +kernel
  rw [Literal.writeFloat, htext]
  simp [Literal.any_eq_any_toList]

deriving instance DecidableEq for CanonRecord

theorem readRecord_smallRecord {task : String} (htask : task = "v1" ∨ task = "v1.json") :
    readRecord (smallRecord task).toJson.text = .ok (smallRecord task) := by
  apply readRecord_eq
  have hlevels : Json.levels (smallRecord task).toJson ≤ Json.maxDepth := by
    rcases htask with rfl | rfl <;> decide +kernel
  rw [Json.read?_text hlevels]
  simp only [smallRecord, CanonRecord.toJson, CanonRecord.fields, Verdict.toJson, Verdict.pass,
    List.zip_cons_cons, List.zip_nil_right, Json.reread, Json.rereadFields, Json.text, writeFloat_one]
  rcases htask with rfl | rfl <;> decide +kernel

theorem sound_dottedHistory : ∀ p ∈ dottedHistory, IsTemporary p.1 ∧ p.2.Sound := by
  have hlong : (Request.insertNew (smallRecord "v1.json")).Sound :=
    ⟨by decide, readRecord_smallRecord (.inr rfl)⟩
  have hshort : (Request.insertNew (smallRecord "v1")).Sound :=
    ⟨by decide, readRecord_smallRecord (.inl rfl)⟩
  have hask : TaskId.isValid "v1" = true := by decide
  have htemporary : IsTemporary ".tmpA1b2C3" := ⟨"A1b2C3".toList, by simp, by decide⟩
  intro p hp
  obtain ⟨q, hq, rfl⟩ := List.mem_map.mp hp
  refine ⟨htemporary, ?_⟩
  show q.Sound
  simp only [List.mem_cons, List.not_mem_nil, or_false] at hq
  rcases hq with rfl | rfl | rfl | rfl | rfl | rfl | rfl
  · exact hlong
  · exact hshort
  · exact hlong
  · trivial
  · exact hask
  · exact hask
  · trivial

theorem agree_on_histories_dotted :
    (∀ p ∈ dottedHistory, IsTemporary p.1 ∧ p.2.Sound) ∧
    Directory.answers [] dottedHistory =
      [.done, .done, .failed (.alreadyExists "v1.json"), .listed ["v1", "v1.json"], .removed true,
        .found none, .listed ["v1.json"]] :=
  ⟨sound_dottedHistory, (agree_on_histories dottedHistory sound_dottedHistory).1.trans rfl⟩

end Backend

end Concord
