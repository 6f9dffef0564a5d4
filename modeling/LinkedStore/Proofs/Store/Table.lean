import LinkedStore.Store.Table
import Mathlib.Data.List.Sort

/-!
# Entries of tables

The keys of a table are texts, so that two of them are compared by equality.

## Main statements

* `Table.getElem?_insert`, `Table.getElem?_erase` : the entries after a change.
* `Table.getElem?_foldl_insertIfNew` : the entries of a table that another one is added to.
* `Table.mem_values_iff`, `Table.mem_keys_iff` : what a table lists.
* `Table.size_erase_add_one` : a table without one of its entries.
* `Table.nodup_map_values` : values that tell their keys are told apart.
* `Table.filter_values_congr` : tables that agree on the values to be kept list the same of them.
-/

namespace LinkedStore.Table

variable {α : Type} {t : Table α} {key : String} {value : α}

theorem getElem?_insert (t : Table α) (key : String) (value : α) (k : String) :
    (t.insert key value)[k]? = if key = k then some value else t[k]? := by
  simp [Std.ExtTreeMap.getElem?_insert]

theorem getElem?_erase (t : Table α) (key k : String) :
    (t.erase key)[k]? = if key = k then none else t[k]? := by
  simp [Std.ExtTreeMap.getElem?_erase]

/-- The entries of a table that those of a list are added to. -/
theorem getElem?_foldl_insertIfNew_list (l : List (String × α)) (t : Table α) (k : String) :
    (l.foldl (fun held entry => held.insertIfNew entry.1 entry.2) t)[k]? =
      t[k]?.or ((l.find? (compare ·.1 k == .eq)).map Prod.snd) := by
  induction l generalizing t with
  | nil => simp
  | cons entry l ih =>
      obtain ⟨key, value⟩ := entry
      rw [List.foldl_cons, ih, Std.ExtTreeMap.getElem?_insertIfNew, List.find?_cons]
      by_cases hkey : key = k
      · subst hkey
        by_cases hmem : key ∈ t
        · simp [hmem]
        · simp [hmem]
      · have hne : (compare key k == .eq) = false := by simpa using hkey
        simp [hkey, hne]

/-- The entries of a table that those of another one are added to. -/
theorem getElem?_foldl_insertIfNew (t more : Table α) (k : String) :
    (more.foldl (fun held key value => held.insertIfNew key value) t)[k]? = t[k]?.or more[k]? := by
  rw [Std.ExtTreeMap.foldl_eq_foldl_toList, getElem?_foldl_insertIfNew_list]
  congr 1
  ext v
  simp only [Option.map_eq_some_iff, Prod.exists, exists_eq_right,
    Std.ExtTreeMap.find?_toList_eq_some_iff_getKey?_eq_some_and_getElem?_eq_some]
  refine ⟨fun ⟨_, _, hv⟩ => hv, fun hv => ⟨k, ?_, hv⟩⟩
  exact Std.ExtTreeMap.getKey?_eq_some (Std.ExtTreeMap.mem_iff_isSome_getElem?.2 (by simp [hv]))

theorem values_eq (t : Table α) : t.values = t.toList.map Prod.snd := by
  have hfold : t.values = t.foldr (fun _ v listed => v :: listed) [] := rfl
  rw [hfold, Std.ExtTreeMap.foldr_eq_foldr_toList, List.map_eq_foldr]

theorem mem_values_iff : value ∈ t.values ↔ ∃ k : String, t[k]? = some value := by
  rw [values_eq, List.mem_map]
  constructor
  · rintro ⟨⟨k, v⟩, hentry, rfl⟩
    exact ⟨k, Std.ExtTreeMap.mem_toList_iff_getElem?_eq_some.1 hentry⟩
  · rintro ⟨k, hk⟩
    exact ⟨(k, value), Std.ExtTreeMap.mem_toList_iff_getElem?_eq_some.2 hk, rfl⟩

theorem mem_keys_iff : key ∈ t.keys ↔ ∃ v, t[key]? = some v := by
  rw [Std.ExtTreeMap.mem_keys, Std.ExtTreeMap.mem_iff_isSome_getElem?, Option.isSome_iff_exists]

theorem size_erase_add_one (h : t[key]? = some value) : (t.erase key).size + 1 = t.size := by
  have hmem : key ∈ t.keys := mem_keys_iff.2 ⟨value, h⟩
  have hpos : 0 < t.size := by
    rw [← Std.ExtTreeMap.length_keys]
    exact List.length_pos_of_mem hmem
  have hcontains : t.contains key = true := Std.ExtTreeMap.mem_keys.1 hmem
  rw [Std.ExtTreeMap.size_erase, if_pos hcontains]
  omega

/-- If each value tells its key, the values are told apart by what tells it. -/
theorem nodup_map_values {f : α → String} (h : ∀ (k : String) (v : α), t[k]? = some v → f v = k) :
    (t.values.map f).Nodup := by
  have hkeys : t.values.map f = t.keys := by
    rw [values_eq, List.map_map, ← Std.ExtTreeMap.map_fst_toList_eq_keys]
    refine List.map_congr_left fun entry hentry => ?_
    exact h entry.1 entry.2 (Std.ExtTreeMap.mem_toList_iff_getElem?_eq_some.1 hentry)
  rw [hkeys]
  exact Std.ExtTreeMap.nodup_keys

/-- The values are listed in the order of their keys, so that a part of them is listed alike if it
is stored alike. -/
theorem filter_values_congr {t t' : Table α} {keep : α → Bool}
    (h : ∀ (k : String) (v : α), keep v = true → (t[k]? = some v ↔ t'[k]? = some v)) :
    t.values.filter keep = t'.values.filter keep := by
  let before : String × α → String × α → Prop := fun a b => compare a.1 b.1 = .lt
  have hirrefl : Std.Irrefl before := ⟨fun a ha => by simp [before] at ha⟩
  have hantisymm : Std.Antisymm before := ⟨fun a b hab hba => by
    have hgt := Std.OrientedCmp.gt_of_lt hab
    simp only [before] at hba
    rw [hgt] at hba
    exact nomatch hba⟩
  have hentries : t.toList.filter (keep ·.2) = t'.toList.filter (keep ·.2) := by
    refine List.Pairwise.eq_of_mem_iff (r := before) ?_ ?_ fun entry => ?_
    · exact Std.ExtTreeMap.ordered_keys_toList.filter _
    · exact Std.ExtTreeMap.ordered_keys_toList.filter _
    · obtain ⟨k, v⟩ := entry
      simp only [List.mem_filter, Std.ExtTreeMap.mem_toList_iff_getElem?_eq_some]
      exact and_congr_left (h k v)
  rw [values_eq, values_eq, List.filter_map, List.filter_map]
  exact congrArg (List.map Prod.snd) hentries

end LinkedStore.Table
