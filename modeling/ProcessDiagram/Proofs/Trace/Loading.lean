import ProcessDiagram.Proofs.Trace.StepIndex
import Mathlib.Data.List.Nodup
import Mathlib.Data.List.Perm.Basic

/-!
Loading a trace does not depend on the order in which a folder lists its files. The snapshots that a
listing gives are told by the files alone: one for each file, in the order of the indices
(`Trace.ofListing_eq_ok`). That names have no slash in them, as is asked for, is so in every listing
(`FileTree.listing_plain`). Main statement: `Trace.loads_in_any_order`.
-/
namespace ProcessDiagram

open Checked

namespace FileTree

/-- The names along a path have no slash in them. -/
def Plain (entries : List (List String × FileBody)) : Prop :=
  ∀ entry ∈ entries, ∀ step ∈ entry.1, '/' ∉ step.toList

theorem Plain.make {path : List String} (plain : ∀ step ∈ path, '/' ∉ step.toList)
    (body : FileBody) {entries : List (List String × FileBody)} (h : Plain entries) :
    Plain (make path body entries) := by
  induction entries with
  | nil => simpa [FileTree.make, Plain] using plain
  | cons entry rest ih =>
      obtain ⟨here, others⟩ := List.forall_mem_cons.mp h
      rw [FileTree.make]
      split
      · exact List.forall_mem_cons.mpr ⟨here, others⟩
      · exact List.forall_mem_cons.mpr ⟨here, ih others⟩

theorem plain_ofList (files : List (String × FileBody)) : Plain (ofList files).entries := by
  refine List.foldlRecOn (motive := Plain) files _ (by simp [Plain]) ?_
  intro entries h file _
  exact h.make (Trace.pathSteps_plain file.1) file.2

theorem listing_plain {files : List (String × FileBody)} {path : List String}
    {listing : List (String × FileBody)} (h : (ofList files).listing? path = some listing) :
    ∀ file ∈ listing, '/' ∉ file.1.toList := by
  rw [listing?] at h
  split at h
  next =>
      injection h with h
      subst h
      intro file listed
      obtain ⟨⟨p, body⟩, stands, named⟩ := List.mem_filterMap.mp listed
      dsimp only at named
      split at named
      next name last =>
          split at named
          next =>
              injection named with named
              subst named
              exact plain_ofList files _ stands name (List.mem_of_getLast? last)
          next => cases named
      next => cases named
  next => cases h

end FileTree

theorem Status.name_of_ofName? {s : String} {status : Status} (h : ofName? s = some status) :
    status.name = s := by
  rw [ofName?] at h
  simpa using List.find?_some h

section Lists

variable {α β γ : Type} {R : α → β → Prop} {S : β → γ → Prop}

theorem forall₂_comp {xs : List α} {zs : List γ} :
    List.Forall₂ (fun x z => ∃ y, R x y ∧ S y z) xs zs ↔
      ∃ ys, List.Forall₂ R xs ys ∧ List.Forall₂ S ys zs := by
  constructor
  · intro h
    induction h with
    | nil => exact ⟨[], .nil, .nil⟩
    | cons first _ ih =>
        obtain ⟨y, left, right⟩ := first
        obtain ⟨ys, lefts, rights⟩ := ih
        exact ⟨y :: ys, .cons left lefts, .cons right rights⟩
  · rintro ⟨ys, lefts, rights⟩
    induction lefts generalizing zs with
    | nil =>
        cases rights
        exact .nil
    | cons left _ ih =>
        cases rights with
        | cons right rights => exact .cons ⟨_, left, right⟩ (ih rights)

theorem exists_forall₂ {xs : List α} :
    (∃ ys, List.Forall₂ R xs ys) ↔ ∀ x ∈ xs, ∃ y, R x y := by
  induction xs with
  | nil => simp
  | cons x xs ih =>
      rw [List.forall_mem_cons, ← ih]
      constructor
      · rintro ⟨_, _ | ⟨first, others⟩⟩
        exact ⟨⟨_, first⟩, _, others⟩
      · rintro ⟨⟨y, first⟩, ys, others⟩
        exact ⟨y :: ys, .cons first others⟩

theorem mapM_eq_ok {ε : Type} {f : α → Except ε β} {xs : List α} {ys : List β} :
    xs.mapM f = .ok ys ↔ List.Forall₂ (fun x y => f x = .ok y) xs ys := by
  induction xs generalizing ys with
  | nil => simp [pure, Except.pure, eq_comm]
  | cons x xs ih =>
      rw [List.mapM_cons, List.forall₂_cons_left_iff]
      cases first : f x with
      | error e => simp [bind, Except.bind]
      | ok y =>
          cases others : xs.mapM f with
          | error e => simp [bind, Except.bind, ← ih, others]
          | ok ys => simp [bind, Except.bind, pure, Except.pure, ← ih, others, eq_comm]

end Lists

namespace Snapshot

/-- The fields that list some states. -/
def fieldsOf (states : List (String × Status)) : Json.Fields :=
  states.map fun (id, status) => (id, .str status.name)

theorem status_ofJson_eq_ok {value : Json} {status : Status} :
    Status.ofJson value = .ok status ↔ value = .str status.name := by
  constructor
  · intro h
    unfold Status.ofJson at h
    split at h
    next s =>
        split at h
        next found =>
            injection h with same
            subst same
            rw [Status.name_of_ofName? found]
        next => cases h
    next => cases h
  · rintro rfl
    simp [Status.ofJson, Status.ofName?_name]

theorem statesOf_eq_ok {fields : Json.Fields} {states : List (String × Status)} :
    statesOf fields = .ok states ↔ fields = fieldsOf states := by
  induction fields generalizing states with
  | nil => cases states <;> simp [statesOf, fieldsOf]
  | cons entry rest ih =>
      obtain ⟨id, value⟩ := entry
      rw [statesOf, map_eq_ok]
      constructor
      · rintro ⟨⟨status, others⟩, parts, rfl⟩
        rw [both_eq_ok, under_eq_ok, status_ofJson_eq_ok, ih] at parts
        rw [parts.1, parts.2]
        rfl
      · intro whole
        cases states with
        | nil => cases whole
        | cons state others =>
            injection whole with first whole
            cases first
            exact ⟨(state.2, others),
              both_eq_ok.mpr ⟨under_eq_ok.mpr (status_ofJson_eq_ok.mpr rfl), ih.mpr whole⟩, rfl⟩

theorem ofJson_eq_ok {name : String} {index : Int} {value : Json} {s : Snapshot} :
    ofJson name index value = .ok s ↔
      s.name = name ∧ s.index = index ∧ value = .obj (fieldsOf s.states) := by
  obtain ⟨name', index', states⟩ := s
  cases value with
  | obj fields =>
      have listed : under (.field "states") (statesOf fields) = .ok states ↔
          fields = fieldsOf states := under_eq_ok.trans statesOf_eq_ok
      cases read : under (.field "states") (statesOf fields) with
      | ok others =>
          rw [read, Except.ok.injEq] at listed
          simp only [ofJson, read, Except.ok.injEq, mk.injEq, Json.obj.injEq, ← listed]
          tauto
      | error issues =>
          rw [read] at listed
          simp [ofJson, read, ← listed]
  | _ => simp [ofJson]

end Snapshot

namespace Trace

/-- What a file says the states are. -/
def Contains (file : String × FileBody) (states : List (String × Status)) : Prop :=
  ∃ text, fileText file.1 file.2 = .ok text ∧ Json.parse? text = some (.obj (Snapshot.fieldsOf states))

/-- A snapshot has the file's stem for its name, the index at the end of that, and the states in the
file. -/
structure Describes (file : String × FileBody) (s : Snapshot) : Prop where
  name : s.name = stem file.1
  index : ∃ i : Nat, stepIndex file.1 = .ok i ∧ s.index = i
  states : Contains file s.states

theorem readSnapshot_eq_ok {file : String × FileBody} {i : Nat} {s : Snapshot} :
    readSnapshot file.1 i file.2 = .ok s ↔
      s.name = stem file.1 ∧ s.index = i ∧ Contains file s.states := by
  rw [readSnapshot, Contains]
  cases fileText file.1 file.2 with
  | error e => simp [bind, Except.bind]
  | ok text =>
      cases found : Json.parse? text with
      | none => simp [bind, Except.bind, found]
      | some value => simp [bind, Except.bind, found, Snapshot.ofJson_eq_ok]

/-- A file with its index in front. -/
def numbered (file : String × FileBody) : Except TraceError (Nat × String × FileBody) :=
  do return (← stepIndex file.1, file)

theorem numbered_eq_ok {file : String × FileBody} {row : Nat × String × FileBody} :
    numbered file = .ok row ↔ stepIndex file.1 = .ok row.1 ∧ row.2 = file := by
  obtain ⟨i, other⟩ := row
  unfold numbered
  cases stepIndex file.1 <;> simp [bind, Except.bind, pure, Except.pure, eq_comm]

/-- What becomes of a numbered file. -/
def Reads (row : Nat × String × FileBody) (s : Snapshot) : Prop :=
  readSnapshot row.2.1 row.1 row.2.2 = .ok s

theorem describes_iff {file : String × FileBody} {s : Snapshot} :
    Describes file s ↔ ∃ row, numbered file = .ok row ∧ Reads row s := by
  constructor
  · rintro ⟨name, ⟨i, index, same⟩, states⟩
    exact ⟨(i, file), numbered_eq_ok.mpr ⟨index, rfl⟩,
      readSnapshot_eq_ok.mpr ⟨name, same, states⟩⟩
  · rintro ⟨row, number, read⟩
    obtain ⟨index, rfl⟩ := numbered_eq_ok.mp number
    obtain ⟨name, same, states⟩ := readSnapshot_eq_ok.mp read
    exact ⟨name, ⟨row.1, index, same⟩, states⟩

theorem Reads.index {row : Nat × String × FileBody} {s : Snapshot} (h : Reads row s) :
    s.index = row.1 :=
  (readSnapshot_eq_ok.mp h).2.1

theorem readAll_cons_eq_ok {folder : String} {seen : List Nat} {row : Nat × String × FileBody}
    {rest : List (Nat × String × FileBody)} {snapshots : List Snapshot} :
    readAll folder seen (row :: rest) = .ok snapshots ↔
      row.1 ∉ seen ∧ ∃ s others, Reads row s ∧ readAll folder (row.1 :: seen) rest = .ok others ∧
        snapshots = s :: others := by
  obtain ⟨i, name, body⟩ := row
  rw [readAll]
  unfold Reads
  by_cases met : i ∈ seen
  · simp [met]
  · cases readSnapshot name i body with
    | error e => simp [met, bind, Except.bind]
    | ok s =>
        cases readAll folder (i :: seen) rest with
        | error e => simp [met, bind, Except.bind]
        | ok others => simp [met, bind, Except.bind, pure, Except.pure, eq_comm]

/-- Reading goes through when every file is sound and no index comes twice. -/
theorem readAll_eq_ok {folder : String} {seen : List Nat} {rows : List (Nat × String × FileBody)}
    {snapshots : List Snapshot} :
    readAll folder seen rows = .ok snapshots ↔
      rows.Pairwise (fun a b => a.1 ≠ b.1) ∧ (∀ row ∈ rows, row.1 ∉ seen) ∧
        List.Forall₂ Reads rows snapshots := by
  induction rows generalizing seen snapshots with
  | nil => simp [readAll, eq_comm]
  | cons row rest ih =>
      rw [readAll_cons_eq_ok, List.pairwise_cons, List.forall_mem_cons, List.forall₂_cons_left_iff]
      simp only [ih, List.mem_cons, not_or]
      constructor
      · rintro ⟨new, s, others, read, ⟨apart, unseen, reads⟩, rfl⟩
        exact ⟨⟨fun later h => Ne.symm (unseen later h).1, apart⟩,
          ⟨new, fun later h => (unseen later h).2⟩, s, others, read, reads, rfl⟩
      · rintro ⟨⟨first, apart⟩, ⟨new, unseen⟩, s, others, read, reads, rfl⟩
        exact ⟨new, s, others, read,
          ⟨apart, fun later h => ⟨Ne.symm (first later h), unseen later h⟩, reads⟩, rfl⟩

/-- The files that belong to the trace. -/
def traceFiles (files : List (String × FileBody)) : List (String × FileBody) :=
  files.filter fun file => isTraceFile file.1

/-- The order of rows. -/
def rowLe (a b : Nat × String × FileBody) : Bool :=
  decide (a.1 ≤ b.1)

theorem ofListing_eq (folder : String) (files : List (String × FileBody)) :
    ofListing folder files =
      ((traceFiles files).mapM numbered).bind fun rows =>
        readAll folder [] (Sorting.sort rowLe rows) :=
  rfl

/-- The rows that numbered files give. -/
def Rows (files : List (String × FileBody)) (rows : List (Nat × String × FileBody)) : Prop :=
  List.Forall₂ (fun file row => numbered file = .ok row) files rows

theorem ofListing_eq_ok_iff {folder : String} {files : List (String × FileBody)}
    {snapshots : List Snapshot} :
    ofListing folder files = .ok snapshots ↔ ∃ rows, Rows (traceFiles files) rows ∧
      readAll folder [] (Sorting.sort rowLe rows) = .ok snapshots := by
  simp only [ofListing_eq, Rows, ← mapM_eq_ok]
  cases (traceFiles files).mapM numbered <;> simp [Except.bind]

theorem rows_rearranged {files : List (String × FileBody)}
    {rows sorted : List (Nat × String × FileBody)} (h : Rows files rows) (same : rows.Perm sorted) :
    ∃ order, order.Perm files ∧ Rows order sorted := by
  have whole : Relation.Comp Rows List.Perm files sorted := ⟨rows, h, same⟩
  unfold Rows at whole
  rw [List.forall₂_comp_perm_eq_perm_comp_forall₂] at whole
  obtain ⟨order, moved, rows⟩ := whole
  exact ⟨order, moved.symm, rows⟩

theorem rowLe_iff {a b : Nat × String × FileBody} : rowLe a b = true ↔ a.1 ≤ b.1 :=
  decide_eq_true_iff

theorem compares_rows : Sorting.Compares rowLe fun _ => True where
  trans _ _ _ := by
    simp only [rowLe_iff]
    exact Nat.le_trans
  total {a b} _ _ := by
    simp only [rowLe_iff]
    exact Nat.le_total a.1 b.1

theorem pairwise_sort_rows (rows : List (Nat × String × FileBody)) :
    (Sorting.sort rowLe rows).Pairwise fun a b => a.1 ≤ b.1 :=
  (Sorting.pairwise_sort compares_rows fun _ _ => trivial).imp rowLe_iff.mp

theorem apart_sort_iff (rows : List (Nat × String × FileBody)) :
    (Sorting.sort rowLe rows).Pairwise (fun a b => a.1 ≠ b.1) ↔
      rows.Pairwise fun a b => a.1 ≠ b.1 :=
  (Sorting.sort_perm rowLe rows).pairwise_iff Ne.symm

theorem sort_rows {rows sorted : List (Nat × String × FileBody)} (same : rows.Perm sorted)
    (increasing : sorted.Pairwise fun a b => a.1 < b.1) : Sorting.sort rowLe rows = sorted := by
  have distinct : (sorted.map Prod.fst).Nodup :=
    List.pairwise_map.mpr (increasing.imp fun less => Nat.ne_of_lt less)
  have moved := (Sorting.sort_perm rowLe rows).trans same
  refine moved.eq_of_pairwise ?_ (pairwise_sort_rows rows) (increasing.imp Nat.le_of_lt)
  intro a b ha hb le ge
  exact List.inj_on_of_nodup_map distinct (moved.mem_iff.mp ha) hb (Nat.le_antisymm le ge)

theorem indices_eq {rows : List (Nat × String × FileBody)} {snapshots : List Snapshot}
    (reads : List.Forall₂ Reads rows snapshots) :
    snapshots.map Snapshot.index = rows.map fun row => (row.1 : Int) := by
  induction reads with
  | nil => rfl
  | cons read _ ih => simp [read.index, ih]

theorem increasing_iff {rows : List (Nat × String × FileBody)} {snapshots : List Snapshot}
    (reads : List.Forall₂ Reads rows snapshots) :
    snapshots.Pairwise (fun s t => s.index < t.index) ↔ rows.Pairwise fun a b => a.1 < b.1 := by
  have lists := congrArg (List.Pairwise (· < ·)) (indices_eq reads)
  simpa [List.pairwise_map] using lists

theorem forall₂_describes {files : List (String × FileBody)} {snapshots : List Snapshot} :
    List.Forall₂ Describes files snapshots ↔
      ∃ rows, Rows files rows ∧ List.Forall₂ Reads rows snapshots := by
  simp only [Rows, ← forall₂_comp, ← describes_iff]

/-- What a listing gives: a snapshot for each file, in the order of their indices. -/
theorem ofListing_eq_ok {folder : String} {files : List (String × FileBody)}
    {snapshots : List Snapshot} :
    ofListing folder files = .ok snapshots ↔
      (∃ order, order.Perm (traceFiles files) ∧ List.Forall₂ Describes order snapshots) ∧
        snapshots.Pairwise fun s t => s.index < t.index := by
  rw [ofListing_eq_ok_iff]
  constructor
  · rintro ⟨rows, numbers, read⟩
    obtain ⟨apart, -, reads⟩ := readAll_eq_ok.mp read
    obtain ⟨order, moved, numbers⟩ := rows_rearranged numbers (Sorting.sort_perm rowLe rows).symm
    have increasing := (pairwise_sort_rows rows).imp₂ (fun _ _ => Nat.lt_of_le_of_ne) apart
    refine ⟨⟨order, moved, ?_⟩, (increasing_iff reads).mpr increasing⟩
    exact forall₂_describes.mpr ⟨_, numbers, reads⟩
  · rintro ⟨⟨order, moved, describes⟩, increasing⟩
    obtain ⟨sorted, numbers, reads⟩ := forall₂_describes.mp describes
    rw [increasing_iff reads] at increasing
    obtain ⟨rows, numbers, same⟩ := List.perm_comp_forall₂ moved.symm numbers
    refine ⟨rows, numbers, ?_⟩
    rw [sort_rows same increasing, readAll_eq_ok]
    exact ⟨increasing.imp Nat.ne_of_lt, by simp, reads⟩

theorem apart_iff {files : List (String × FileBody)} {rows : List (Nat × String × FileBody)}
    (h : Rows files rows) :
    files.Pairwise (fun f g => stepIndex f.1 ≠ stepIndex g.1) ↔
      rows.Pairwise fun a b => a.1 ≠ b.1 := by
  have indices : files.map (fun file => stepIndex file.1) = rows.map fun row => .ok row.1 := by
    induction h with
    | nil => rfl
    | cons number _ ih => simp [(numbered_eq_ok.mp number).1, ih]
  have lists := congrArg (List.Pairwise (· ≠ ·)) indices
  simpa [List.pairwise_map] using lists

/-- What a trace is loaded from: files that are numbered apart and list known statuses. -/
structure Loadable (files : List (String × FileBody)) : Prop where
  numbered : ∀ file ∈ files, EndsInDigits (stem file.1).toList
  apart : files.Pairwise fun f g => stepIndex f.1 ≠ stepIndex g.1
  sound : ∀ file ∈ files, ∃ states, Contains file states

theorem exists_stepIndex_iff {name : String} (plain : '/' ∉ name.toList)
    (file : isTraceFile name = true) :
    (∃ i, stepIndex name = .ok i) ↔ EndsInDigits (stem name).toList := by
  rw [← isSome_stemIndex?_iff]
  unfold stepIndex
  rw [fileName_of_name plain file]
  cases stemIndex? (stem name) <;> simp

theorem exists_describes_iff {file : String × FileBody} (plain : '/' ∉ file.1.toList)
    (json : isTraceFile file.1 = true) :
    (∃ s, Describes file s) ↔
      EndsInDigits (stem file.1).toList ∧ ∃ states, Contains file states := by
  rw [← exists_stepIndex_iff plain json]
  constructor
  · rintro ⟨s, describes⟩
    obtain ⟨i, index, -⟩ := describes.index
    exact ⟨⟨i, index⟩, s.states, describes.states⟩
  · rintro ⟨⟨i, index⟩, states, contains⟩
    exact ⟨⟨stem file.1, i, states⟩, rfl, ⟨i, index, rfl⟩, contains⟩

theorem exists_listing_iff (folder : String) {files : List (String × FileBody)}
    (plain : ∀ file ∈ files, '/' ∉ file.1.toList) :
    (∃ snapshots, ofListing folder files = .ok snapshots) ↔ Loadable (traceFiles files) := by
  have each : (∀ file ∈ traceFiles files, ∃ s, Describes file s) ↔ ∀ file ∈ traceFiles files,
      EndsInDigits (stem file.1).toList ∧ ∃ states, Contains file states := by
    refine forall₂_congr fun file h => ?_
    obtain ⟨listed, json⟩ := List.mem_filter.mp h
    exact exists_describes_iff (plain file listed) json
  rw [forall₂_and] at each
  constructor
  · rintro ⟨snapshots, listed⟩
    obtain ⟨rows, numbers, read⟩ := ofListing_eq_ok_iff.mp listed
    obtain ⟨apart, -, -⟩ := readAll_eq_ok.mp read
    obtain ⟨⟨order, moved, describes⟩, -⟩ := ofListing_eq_ok.mp listed
    have described := exists_forall₂.mp ⟨snapshots, describes⟩
    obtain ⟨numbered, sound⟩ := each.mp fun file h => described file (moved.mem_iff.mpr h)
    exact ⟨numbered, (apart_iff numbers).mpr ((apart_sort_iff rows).mp apart), sound⟩
  · rintro ⟨numbered, apart, sound⟩
    obtain ⟨snapshots, describes⟩ := exists_forall₂.mpr (each.mpr ⟨numbered, sound⟩)
    obtain ⟨rows, numbers, reads⟩ := forall₂_describes.mp describes
    obtain ⟨sorted, reads, -⟩ := List.perm_comp_forall₂ (Sorting.sort_perm rowLe rows) reads
    rw [apart_iff numbers, ← apart_sort_iff] at apart
    exact ⟨sorted, ofListing_eq_ok_iff.mpr
      ⟨rows, numbers, readAll_eq_ok.mpr ⟨apart, by simp, reads⟩⟩⟩

theorem value_load {folder : String} {files : List (String × FileBody)} {t : Trace} :
    (load folder (some files)).value = .ok t ↔ ofListing folder files = .ok t.snapshots := by
  obtain ⟨snapshots⟩ := t
  unfold load
  cases read : ofListing folder files with
  | error e => simp [read]
  | ok found => simp [read]

theorem ofListing_of_perm {folder : String} {files others : List (String × FileBody)}
    (same : files.Perm others) {snapshots : List Snapshot}
    (read : ofListing folder files = .ok snapshots) : ofListing folder others = .ok snapshots := by
  rw [ofListing_eq_ok] at *
  obtain ⟨⟨order, moved, describes⟩, increasing⟩ := read
  exact ⟨⟨order, moved.trans (same.filter _), describes⟩, increasing⟩

/-- Files load or do not load whatever order the folder lists them in. They load when they are
numbered apart and sound, and then give one trace: a snapshot of every file, in the order of the
indices. -/
theorem loads_in_any_order (folder : String) {files others : List (String × FileBody)}
    (plain : ∀ file ∈ files, '/' ∉ file.1.toList) (same : files.Perm others) :
    ((∃ t, (load folder (some files)).value = .ok t) ↔ Loadable (traceFiles files)) ∧
      ((∃ t, (load folder (some others)).value = .ok t) ↔ Loadable (traceFiles files)) ∧
      (∀ t, (load folder (some files)).value = .ok t →
        load folder (some others) = load folder (some files) ∧
          (∃ order, order.Perm (traceFiles files) ∧ List.Forall₂ Describes order t.snapshots) ∧
          t.snapshots.Pairwise fun s u => s.index < u.index) ∧
      ∀ front after zeros i, '/' ∉ front → (∀ c, front.getLast? = some c → ¬ Text.IsDigit c) →
        Break after →
        stepIndex (String.ofList (front ++ paddedNumeral zeros i ++ after ++ '.' :: "json".toList))
          = .ok i := by
  have either {snapshots : List Snapshot} :
      ofListing folder others = .ok snapshots ↔ ofListing folder files = .ok snapshots :=
    ⟨ofListing_of_perm same.symm, ofListing_of_perm same⟩
  have loads : (∃ t, (load folder (some files)).value = .ok t) ↔ Loadable (traceFiles files) := by
    simp only [value_load, ← exists_listing_iff folder plain]
    exact ⟨fun ⟨t, read⟩ => ⟨t.snapshots, read⟩, fun ⟨snapshots, read⟩ => ⟨⟨snapshots⟩, read⟩⟩
  refine ⟨loads, ?_, ?_, ?_⟩
  · simpa only [value_load, either] using loads
  · intro t read
    rw [value_load] at read
    have told : load folder (some others) = load folder (some files) := by
      unfold load
      simp only [either.mpr read, read]
    exact ⟨told, ofListing_eq_ok.mp read⟩
  · intro front after zeros i plain bare rest
    exact stepIndex_numeral plain bare rest zeros i

/-- Two snapshots that a folder may list in either order, and a file that is not one. -/
def recorded : List (String × FileBody) :=
  [("state_10.json", .text "\x7b\"a\": \"active\"\x7d"), ("notes.txt", .folder),
    ("state_002.json", .text "\x7b\x7d")]

theorem loads_in_any_order_recorded :
    load "traces" (some recorded.reverse) = load "traces" (some recorded) ∧
      (load "traces" (some recorded)).value =
        .ok ⟨[⟨"state_002", 2, []⟩, ⟨"state_10", 10, [("a", .active)]⟩]⟩ := by
  have plain : ∀ file ∈ recorded, '/' ∉ file.1.toList := by decide
  have read : (load "traces" (some recorded)).value =
      .ok ⟨[⟨"state_002", 2, []⟩, ⟨"state_10", 10, [("a", .active)]⟩]⟩ := by
    decide +kernel
  obtain ⟨-, -, one, -⟩ := loads_in_any_order "traces" plain recorded.reverse_perm.symm
  exact ⟨(one _ read).1, read⟩

end Trace
end ProcessDiagram
