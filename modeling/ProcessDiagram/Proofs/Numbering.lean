import ProcessDiagram.Numbering
import Mathlib.Data.List.Nodup

/-!
Looking a number up in a numbering. Numberings only ever grow at their end, so what a number
stands for does not change any more.
-/
namespace ProcessDiagram.Numbering

/-- The id that a number stands for. -/
def native? (n : Numbering) (number : Int) : Option String :=
  (n.toPairs.map fun (k, id) => ((k : Int), id)).lookup number

private theorem lookup_mapIdx (ids : List String) (start : Nat) (number : Int) :
    (ids.mapIdx fun i id => (((start + i + 1 : Nat) : Int), id)).lookup number
      = if (start : Int) < number then ids[(number - start - 1).toNat]? else none := by
  induction ids generalizing start with
  | nil => simp
  | cons id rest ih =>
      have shifted := ih (start + 1)
      rw [List.mapIdx_cons, List.lookup_cons]
      by_cases here : number = ((start + 0 + 1 : Nat) : Int)
      · have first : (number - start - 1).toNat = 0 := by omega
        rw [here, beq_self_eq_true, ← here, first, if_pos (by omega)]
        rfl
      · rw [beq_false_of_ne here]
        have next : ∀ i : Nat, start + (i + 1) + 1 = start + 1 + i + 1 := by
          intro i
          omega
        simp only [next]
        rw [shifted]
        by_cases above : (start : Int) < number
        · have position : (number - start - 1).toNat = (number - (start + 1 : Nat) - 1).toNat + 1 := by
            omega
          rw [if_pos above, if_pos (by omega), position, List.getElem?_cons_succ]
        · rw [if_neg above, if_neg (by omega)]

theorem native?_eq (n : Numbering) (number : Int) :
    n.native? number = if 0 < number then n.ids[(number - 1).toNat]? else none := by
  have found := lookup_mapIdx n.ids 0 number
  have pairs : n.toPairs.map (fun (k, id) => ((k : Int), id))
      = n.ids.mapIdx fun i id => (((0 + i + 1 : Nat) : Int), id) := by
    apply List.ext_getElem?
    intro i
    simp [toPairs, Function.comp_def]
  rw [native?, pairs, found]
  simp

theorem native?_of_size_lt {n : Numbering} {number : Int} (h : (n.size : Int) < number) :
    n.native? number = none := by
  rw [native?_eq, if_pos (by omega), List.getElem?_eq_none]
  rw [size] at h
  omega

theorem native?_eq_none_iff {n : Numbering} {number : Int} (positive : 0 < number) :
    n.native? number = none ↔ (n.size : Int) < number := by
  refine ⟨?_, native?_of_size_lt⟩
  rw [native?_eq, if_pos positive, List.getElem?_eq_none_iff, size]
  omega

theorem ids_intern (n : Numbering) (id : String) :
    (n.intern id).2.ids = if id ∈ n.ids then n.ids else n.ids ++ [id] := by
  by_cases h : id ∈ n.ids <;> simp [intern, contains, h]

theorem mem_intern (n : Numbering) (id : String) : id ∈ (n.intern id).2.ids := by
  simpa [contains] using contains_intern n id

theorem prefix_intern (n : Numbering) (id : String) : n.ids <+: (n.intern id).2.ids := by
  rw [ids_intern]
  split
  · exact List.prefix_rfl
  · exact List.prefix_append _ _

theorem nodup_intern {n : Numbering} (h : n.ids.Nodup) (id : String) :
    (n.intern id).2.ids.Nodup := by
  rw [ids_intern]
  split
  · exact h
  next absent =>
      rw [List.nodup_append]
      refine ⟨h, List.nodup_singleton id, ?_⟩
      intro a ha b hb same
      rw [List.mem_singleton] at hb
      exact absent (hb ▸ same ▸ ha)

theorem eq_or_mem_of_mem_intern {n : Numbering} {id other : String}
    (h : other ∈ (n.intern id).2.ids) : other = id ∨ other ∈ n.ids := by
  rw [ids_intern] at h
  split at h
  · exact .inr h
  · cases List.mem_append.mp h with
    | inl old => exact .inr old
    | inr new => exact .inl (List.mem_singleton.mp new)

theorem internAll_append (n : Numbering) (ids more : List String) :
    n.internAll (ids ++ more) = (n.internAll ids).internAll more :=
  List.foldl_append

theorem prefix_internAll (n : Numbering) (ids : List String) :
    n.ids <+: (n.internAll ids).ids := by
  induction ids generalizing n with
  | nil => exact List.prefix_rfl
  | cons id rest ih => exact (n.prefix_intern id).trans (ih (n.intern id).2)

theorem size_internAll_eq_zero {ids : List String} :
    (empty.internAll ids).size = 0 ↔ ids = [] := by
  constructor
  · intro none
    cases ids with
    | nil => rfl
    | cons id rest =>
        have kept := prefix_internAll (empty.intern id).2 rest
        have absent := List.length_eq_zero_iff.mp none
        exact absurd (kept.subset (mem_intern empty id)) (absent ▸ List.not_mem_nil)
  · rintro rfl
    rfl

theorem nodup_internAll {n : Numbering} (h : n.ids.Nodup) (ids : List String) :
    (n.internAll ids).ids.Nodup := by
  induction ids generalizing n with
  | nil => exact h
  | cons id rest ih => exact ih (nodup_intern h id)

theorem mem_or_mem_of_mem_internAll {n : Numbering} {ids : List String} {id : String}
    (h : id ∈ (n.internAll ids).ids) : id ∈ n.ids ∨ id ∈ ids := by
  induction ids generalizing n with
  | nil => exact .inl h
  | cons first rest ih =>
      cases ih h with
      | inr later => exact .inr (List.mem_cons_of_mem _ later)
      | inl early =>
          obtain rfl | old := eq_or_mem_of_mem_intern early
          · exact .inr List.mem_cons_self
          · exact .inl old

theorem intern_of_not_mem {n : Numbering} {id : String} (h : id ∉ n.ids) :
    n.intern id = (n.size + 1, ⟨n.ids ++ [id]⟩) := by
  simp [intern, contains, h]

theorem map_fst_toPairs (n : Numbering) : n.toPairs.map (·.1) = List.range' 1 n.size := by
  apply List.ext_getElem?
  intro i
  by_cases h : i < n.ids.length <;> simp [toPairs, size, h, Nat.add_comm]

theorem map_snd_toPairs (n : Numbering) : n.toPairs.map (·.2) = n.ids := by
  apply List.ext_getElem?
  intro i
  simp [toPairs, Function.comp_def]

theorem number_le_size {n : Numbering} {id : String} (h : id ∈ n.ids) : n.number id ≤ n.size :=
  List.idxOf_lt_length_of_mem h

theorem native?_number {n : Numbering} {id : String} (h : id ∈ n.ids) :
    n.native? (n.number id) = some id := by
  have there := List.idxOf_lt_length_of_mem h
  have position : ((n.ids.idxOf id + 1 : Nat) - 1 : Int).toNat = n.ids.idxOf id := by omega
  rw [native?_eq, number, if_pos (by omega), position, List.getElem?_eq_getElem there,
    List.getElem_idxOf there]

theorem mem_of_native? {n : Numbering} {number : Int} {id : String}
    (h : n.native? number = some id) : id ∈ n.ids := by
  rw [native?_eq] at h
  split at h
  · exact List.mem_of_getElem? h
  · cases h

theorem number_of_grown {n m : Numbering} {id : String} (grown : n.ids <+: m.ids)
    (h : id ∈ n.ids) : m.number id = n.number id := by
  obtain ⟨more, grown⟩ := grown
  rw [number, number, ← grown, List.idxOf_append_of_mem h]

theorem number_lt_of_not_mem {n : Numbering} {id other : String} (new : id ∉ n.ids)
    (old : other ∈ n.ids) : (n.intern id).2.number other < (n.intern id).2.number id := by
  rw [number_of_grown (n.prefix_intern id) old, ← intern_fst, intern_of_not_mem new]
  have := number_le_size old
  omega

/-- The number that an id gets stands for it in every later numbering. -/
theorem native?_intern {n final : Numbering} {id : String}
    (later : (n.intern id).2.ids <+: final.ids) :
    final.native? ((n.intern id).1 : Int) = some id := by
  rw [intern_fst, ← number_of_grown later (mem_intern n id)]
  exact native?_number (later.subset (mem_intern n id))

end ProcessDiagram.Numbering
