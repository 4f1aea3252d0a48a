import Mathlib.Data.List.Basic
import Mathlib.Data.List.Induction
import Ecoa.Entity.Store
import Ecoa.OrderedMap

/-!
# Items and groups of a store

The number of an item is its place among the entries, and a group has the numbers of the entries
that name it. What an insertion and a change of one item do to numbers, items and groups is said
here once; everything else about stores follows from it.
-/

namespace Ecoa

theorem eraseDups_concat (names : List String) (name : String) : (names ++ [name]).eraseDups =
    if name ∈ names then names.eraseDups else names.eraseDups ++ [name] := by
  rw [List.eraseDups_append]
  split
  · next h => simp [List.removeAll, h]
  · next h => simp [List.removeAll, h, List.eraseDups_cons]

/-- The names without repetitions come in the order in which each came first. -/
theorem pairwise_idxOf_eraseDups (names : List String) :
    names.eraseDups.Pairwise fun key key' => names.idxOf key < names.idxOf key' := by
  induction names using List.reverseRecOn with
  | nil => exact .nil
  | append_singleton names name ih =>
    have hold : names.eraseDups.Pairwise fun key key' =>
        (names ++ [name]).idxOf key < (names ++ [name]).idxOf key' :=
      ih.imp_of_mem fun hkey hkey' hlt => by
        rw [List.mem_eraseDups] at hkey hkey'
        rwa [List.idxOf_append_of_mem hkey, List.idxOf_append_of_mem hkey']
    rw [eraseDups_concat]
    split
    · exact hold
    · next hname =>
      refine List.pairwise_append.mpr ⟨hold, List.pairwise_singleton _ _, ?_⟩
      intro key hkey key' hlast
      rw [List.mem_eraseDups] at hkey
      have hlt := List.idxOf_lt_length_of_mem hkey
      rw [List.mem_singleton.mp hlast, List.idxOf_append_of_mem hkey,
        List.idxOf_append_of_notMem hname]
      omega

namespace Store

variable {α : Type} {s : Store α} {i : Nat} {a : α} {key : String}

theorem get?_eq_some_iff : s.get? i = some a ↔ ∃ g, s.entries[i]? = some (g, a) := by
  rw [get?, Option.map_eq_some_iff]
  constructor
  · rintro ⟨⟨g, _⟩, h, rfl⟩
    exact ⟨g, h⟩
  · rintro ⟨g, h⟩
    exact ⟨(g, a), h, rfl⟩

theorem isSome_get?_iff : (s.get? i).isSome = true ↔ i < s.size := by
  rw [get?, Option.isSome_map, isSome_getElem?]
  exact Iff.rfl

theorem getElem?_items (s : Store α) (i : Nat) : s.items[i]? = s.get? i := by
  rw [items, List.getElem?_map, Array.getElem?_toList, get?]

/-! ## Numbered items -/

theorem mem_numbered : (i, a) ∈ s.numbered ↔ s.get? i = some a := by
  rw [get?_eq_some_iff, numbered, List.mem_map]
  constructor
  · rintro ⟨⟨⟨g, _⟩, _⟩, h, ⟨⟩⟩
    exact ⟨g, Array.getElem?_toList ▸ List.mem_zipIdx_iff_getElem?.mp h⟩
  · rintro ⟨g, h⟩
    exact ⟨((g, a), i), List.mem_zipIdx_iff_getElem?.mpr (Array.getElem?_toList ▸ h), rfl⟩

/-- The numbers are those below the size. -/
theorem map_fst_numbered (s : Store α) : s.numbered.map Prod.fst = List.range s.size := by
  have hfst : s.numbered.map Prod.fst = s.entries.toList.zipIdx.map Prod.snd := by
    rw [numbered, List.map_map]
    rfl
  rw [hfst, List.zipIdx_map_snd, List.range_eq_range', Array.length_toList, size]

theorem nodup_numbered : (s.numbered.map Prod.fst).Nodup := by
  rw [map_fst_numbered]
  exact List.nodup_range

theorem map_snd_numbered : s.numbered.map Prod.snd = s.items := by
  rw [numbered, items, List.map_map]
  conv_rhs => rw [← List.zipIdx_map_fst 0 s.entries.toList, List.map_map]
  rfl

theorem mem_items : a ∈ s.items ↔ ∃ i, s.get? i = some a := by
  rw [← map_snd_numbered, List.mem_map]
  constructor
  · rintro ⟨⟨i, a⟩, h, rfl⟩
    exact ⟨i, mem_numbered.mp h⟩
  · rintro ⟨i, h⟩
    exact ⟨(i, a), mem_numbered.mpr h, rfl⟩

/-! ## Groups -/

theorem mem_group : (i, a) ∈ s.group key ↔ s.entries[i]? = some (key, a) := by
  simp only [group, List.mem_map, List.mem_filter, decide_eq_true_eq]
  constructor
  · rintro ⟨⟨⟨_, _⟩, _⟩, ⟨h, rfl⟩, ⟨⟩⟩
    exact Array.getElem?_toList ▸ List.mem_zipIdx_iff_getElem?.mp h
  · intro h
    exact ⟨((key, a), i), ⟨List.mem_zipIdx_iff_getElem?.mpr (Array.getElem?_toList ▸ h), rfl⟩, rfl⟩

theorem map_snd_group : (s.group key).map Prod.snd =
    (s.entries.toList.filter (·.1 = key)).map Prod.snd := by
  rw [group, List.map_map]
  conv_rhs => rw [← List.zipIdx_map_fst 0 s.entries.toList, List.filter_map, List.map_map]
  rfl

/-- The group under which each item was filed, in order of the items. -/
def filedUnder (s : Store α) : List String := s.entries.toList.map Prod.fst

/-- The numbers of the items of a group. -/
def numbersOf (s : Store α) (key : String) : List Nat := (s.group key).map Prod.fst

theorem length_filedUnder (s : Store α) : s.filedUnder.length = s.size := by
  rw [filedUnder, List.length_map, Array.length_toList, size]

theorem mem_group_iff : (i, a) ∈ s.group key ↔ s.filedUnder[i]? = some key ∧ s.get? i = some a := by
  rw [mem_group, filedUnder, List.getElem?_map, Array.getElem?_toList, get?]
  cases s.entries[i]? with
  | none => simp
  | some e => simp [Prod.ext_iff]

theorem mem_numbersOf : i ∈ s.numbersOf key ↔ s.filedUnder[i]? = some key := by
  constructor
  · intro h
    obtain ⟨⟨i, a⟩, hmem, rfl⟩ := List.mem_map.mp h
    exact (mem_group_iff.mp hmem).1
  · intro h
    have hi : i < s.size := by
      rw [← length_filedUnder]
      exact (List.getElem?_eq_some_iff.mp h).1
    obtain ⟨a, ha⟩ := Option.isSome_iff_exists.mp (isSome_get?_iff.mpr hi)
    exact List.mem_map_of_mem (mem_group_iff.mpr ⟨h, ha⟩)

/-- The numbers of a group ascend, as it lists its items in order. -/
theorem pairwise_numbersOf (s : Store α) (key : String) : (s.numbersOf key).Pairwise (· < ·) := by
  have hsublist : (s.numbersOf key).Sublist (s.numbered.map Prod.fst) := by
    rw [numbersOf, group, numbered, List.map_map, List.map_map]
    exact List.filter_sublist.map _
  rw [map_fst_numbered] at hsublist
  exact List.pairwise_lt_range.sublist hsublist

/-- The numbers do not depend on the items. -/
theorem numbersOf_eq (s : Store α) (key : String) :
    s.numbersOf key = (s.filedUnder.zipIdx.filter (·.1 = key)).map Prod.snd := by
  rw [numbersOf, group, filedUnder, List.zipIdx_map, List.filter_map, List.map_map, List.map_map]
  rfl

theorem numbersOf_eq_nil (h : key ∉ s.filedUnder) : s.numbersOf key = [] :=
  List.eq_nil_iff_forall_not_mem.mpr fun _ hi => h (List.mem_of_getElem? (mem_numbersOf.mp hi))

theorem groups_eq (s : Store α) :
    s.groups = s.filedUnder.eraseDups.map fun key => (key, s.numbersOf key) := rfl

theorem map_fst_groups (s : Store α) : s.groups.map Prod.fst = s.filedUnder.eraseDups := by
  rw [groups_eq, List.map_map]
  exact List.map_id _

theorem mem_groups {numbers : List Nat} :
    (key, numbers) ∈ s.groups ↔ key ∈ s.filedUnder ∧ numbers = s.numbersOf key := by
  rw [groups_eq, List.mem_map]
  constructor
  · rintro ⟨_, h, ⟨⟩⟩
    exact ⟨List.mem_eraseDups.mp h, rfl⟩
  · rintro ⟨h, rfl⟩
    exact ⟨key, List.mem_eraseDups.mpr h, rfl⟩

/-! ## Insertion -/

theorem size_insert : (s.insert key a).size = s.size + 1 := Array.size_push _

theorem get?_insert : (s.insert key a).get? i = if i = s.size then some a else s.get? i := by
  rw [get?, insert, Array.getElem?_push, size]
  split
  · rfl
  · rfl

theorem filedUnder_insert : (s.insert key a).filedUnder = s.filedUnder ++ [key] := by
  rw [filedUnder, insert, Array.toList_push, List.map_append]
  rfl

theorem items_insert : (s.insert key a).items = s.items ++ [a] := by
  rw [items, insert, Array.toList_push, List.map_append]
  rfl

theorem numbersOf_insert (k : String) : (s.insert key a).numbersOf k =
    if k = key then s.numbersOf k ++ [s.size] else s.numbersOf k := by
  rw [numbersOf_eq, numbersOf_eq, filedUnder_insert, List.zipIdx_append, List.filter_append,
    List.map_append, length_filedUnder]
  by_cases h : k = key
  · simp [h]
  · simp [h, Ne.symm h]

/-- An item that comes in has its number added to its group, which is a new one at the end when
there was none of its name. -/
theorem groups_insert : (s.insert key a).groups =
    if key ∈ s.filedUnder then
      OrderedMap.replaced s.groups key (s.numbersOf key ++ [s.size])
    else s.groups ++ [(key, [s.size])] := by
  rw [groups_eq, groups_eq, filedUnder_insert, eraseDups_concat]
  split
  · rw [OrderedMap.replaced, List.map_map]
    refine List.map_congr_left fun k _ => ?_
    rw [numbersOf_insert, Function.comp_apply]
    split
    · next h => rw [h]
    · rfl
  · next hkey =>
    rw [List.map_append]
    refine congrArg₂ (· ++ ·) (List.map_congr_left fun k hk => ?_) ?_
    · have hne : k ≠ key := fun heq => hkey (heq ▸ List.mem_eraseDups.mp hk)
      rw [numbersOf_insert, if_neg hne]
    · simp [numbersOf_insert, numbersOf_eq_nil hkey]

/-! ## Changes of items -/

theorem get?_modify {f : α → α} (j : Nat) :
    (s.modify i f).get? j = if j = i then (s.get? j).map f else s.get? j := by
  rw [get?, modify, Array.getElem?_modify, get?]
  by_cases h : j = i
  · simp [h, Function.comp_def]
  · simp [h, Ne.symm h]

theorem size_modify {f : α → α} : (s.modify i f).size = s.size := Array.size_modify

theorem filedUnder_modify {f : α → α} : (s.modify i f).filedUnder = s.filedUnder := by
  refine List.ext_getElem? fun j => ?_
  rw [filedUnder, filedUnder, List.getElem?_map, List.getElem?_map, Array.getElem?_toList,
    Array.getElem?_toList, modify, Array.getElem?_modify]
  split
  · rw [Option.map_map]
    rfl
  · rfl

theorem items_modify {f : α → α} : (s.modify i f).items = s.items.modify i f := by
  refine List.ext_getElem? fun j => ?_
  rw [getElem?_items, get?_modify, List.getElem?_modify, getElem?_items]
  by_cases h : j = i
  · simp [h]
  · simp [h, Ne.symm h]

theorem numbersOf_modify {f : α → α} : (s.modify i f).numbersOf key = s.numbersOf key := by
  rw [numbersOf_eq, numbersOf_eq, filedUnder_modify]

theorem groups_modify {f : α → α} : (s.modify i f).groups = s.groups := by
  rw [groups_eq, groups_eq, filedUnder_modify]
  exact List.map_congr_left fun key _ => by rw [numbersOf_modify]

theorem get?_mapWithIndex {f : Nat → α → α} : (s.mapWithIndex f).get? i = (s.get? i).map (f i) := by
  simp only [get?, mapWithIndex, Array.getElem?_mapIdx, Option.map_map, Function.comp_def]

theorem numbered_mapWithIndex (s : Store α) (f : Nat → α → α) :
    (s.mapWithIndex f).numbered = s.numbered.map fun e => (e.1, f e.1 e.2) := by
  refine List.ext_getElem? fun i => ?_
  simp only [numbered, mapWithIndex, Array.toList_mapIdx, List.getElem?_map, List.getElem?_zipIdx,
    List.getElem?_mapIdx, Option.map_map, Function.comp_def, Nat.zero_add]

/-- Changing every item twice is changing it once, when that holds of each. -/
theorem mapWithIndex_mapWithIndex {f : Nat → α → α} (h : ∀ i a, f i (f i a) = f i a) :
    (s.mapWithIndex f).mapWithIndex f = s.mapWithIndex f := by
  simp only [mapWithIndex, Array.mapIdx_mapIdx, Function.comp_def, h]

end Store

end Ecoa
