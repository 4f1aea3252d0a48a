/-!
# Insertion-ordered maps

A map is the list of its entries, in the order in which their keys first came. `insert` on a key
that is present changes the value and leaves the place; `erase` leaves the order of the rest. In a
map of maps, `grow` and `shrink` change the inner map at a key, and no empty one is left behind.
-/

namespace Ecoa

universe u v

structure OrderedMap (κ : Type u) (ν : Type v) where
  entries : List (κ × ν)
  nodup_keys : (entries.map Prod.fst).Nodup

namespace OrderedMap

variable {κ : Type u} {ν : Type v}

def empty : OrderedMap κ ν := ⟨[], .nil⟩

instance : EmptyCollection (OrderedMap κ ν) := ⟨empty⟩

instance : Inhabited (OrderedMap κ ν) := ⟨∅⟩

def keys (m : OrderedMap κ ν) : List κ := m.entries.map Prod.fst

def values (m : OrderedMap κ ν) : List ν := m.entries.map Prod.snd

def toList (m : OrderedMap κ ν) : List (κ × ν) := m.entries

def size (m : OrderedMap κ ν) : Nat := m.entries.length

def isEmpty (m : OrderedMap κ ν) : Bool := m.entries.isEmpty

theorem ext {m n : OrderedMap κ ν} (h : m.entries = n.entries) : m = n := by
  cases m; cases n; cases h; rfl

@[simp] theorem entries_empty : (∅ : OrderedMap κ ν).entries = [] := rfl

@[simp] theorem keys_empty : (∅ : OrderedMap κ ν).keys = [] := rfl

theorem eq_empty_of_entries_eq_nil {m : OrderedMap κ ν} (h : m.entries = []) : m = ∅ := ext h

@[simp] theorem isEmpty_iff {m : OrderedMap κ ν} : m.isEmpty = true ↔ m = ∅ := by
  rw [isEmpty, List.isEmpty_iff]
  exact ⟨eq_empty_of_entries_eq_nil, fun h => h ▸ rfl⟩

theorem mem_keys_of_mem {m : OrderedMap κ ν} {k : κ} {v : ν} (h : (k, v) ∈ m.entries) :
    k ∈ m.keys := List.mem_map_of_mem h

variable [DecidableEq κ]

def get? (m : OrderedMap κ ν) (k : κ) : Option ν := (m.entries.find? (·.1 = k)).map Prod.snd

def contains (m : OrderedMap κ ν) (k : κ) : Bool := decide (k ∈ m.keys)

/-- The entries with the value of `k` replaced. -/
def replaced (entries : List (κ × ν)) (k : κ) (v : ν) : List (κ × ν) :=
  entries.map fun e => if e.1 = k then (k, v) else e

theorem keys_replaced (entries : List (κ × ν)) (k : κ) (v : ν) :
    (replaced entries k v).map Prod.fst = entries.map Prod.fst := by
  induction entries with
  | nil => rfl
  | cons e rest ih =>
    simp only [replaced, List.map_cons, List.cons.injEq] at ih ⊢
    refine ⟨?_, ih⟩
    split <;> simp_all

def insert (m : OrderedMap κ ν) (k : κ) (v : ν) : OrderedMap κ ν :=
  if h : k ∈ m.keys then
    ⟨replaced m.entries k v, by rw [keys_replaced]; exact m.nodup_keys⟩
  else
    ⟨m.entries ++ [(k, v)], by
      rw [List.map_append, List.nodup_append]
      refine ⟨m.nodup_keys, by simp, ?_⟩
      intro a ha b hb
      simp only [List.map_cons, List.map_nil, List.mem_singleton] at hb
      rintro rfl
      exact h (hb ▸ ha)⟩

/-- The map without a key. -/
def erase (m : OrderedMap κ ν) (k : κ) : OrderedMap κ ν :=
  ⟨m.entries.filter (·.1 ≠ k), (m.nodup_keys.sublist (List.filter_sublist.map Prod.fst))⟩

/-- Give `k` the value that `f` makes of its present one. -/
def alter (m : OrderedMap κ ν) (k : κ) (f : Option ν → ν) : OrderedMap κ ν :=
  m.insert k (f (m.get? k))

def ofList (entries : List (κ × ν)) : OrderedMap κ ν :=
  entries.foldl (fun m e => m.insert e.1 e.2) ∅

theorem entries_insert_of_mem {m : OrderedMap κ ν} {k : κ} (h : k ∈ m.keys) (v : ν) :
    (m.insert k v).entries = replaced m.entries k v := by
  simp only [insert, dif_pos h]

theorem entries_insert_of_not_mem {m : OrderedMap κ ν} {k : κ} (h : k ∉ m.keys) (v : ν) :
    (m.insert k v).entries = m.entries ++ [(k, v)] := by
  simp only [insert, dif_neg h]

theorem keys_insert_of_mem {m : OrderedMap κ ν} {k : κ} (h : k ∈ m.keys) (v : ν) :
    (m.insert k v).keys = m.keys := by
  simp only [keys, entries_insert_of_mem h, keys_replaced]

theorem keys_insert_of_not_mem {m : OrderedMap κ ν} {k : κ} (h : k ∉ m.keys) (v : ν) :
    (m.insert k v).keys = m.keys ++ [k] := by
  simp only [keys, entries_insert_of_not_mem h, List.map_append, List.map_cons, List.map_nil]

/-- New entries come at the end. -/
theorem entries_foldl_insert {entries : List (κ × ν)} {m : OrderedMap κ ν}
    (h : (m.keys ++ entries.map Prod.fst).Nodup) :
    (entries.foldl (fun m e => m.insert e.1 e.2) m).entries = m.entries ++ entries := by
  induction entries generalizing m with
  | nil => rw [List.foldl_nil, List.append_nil]
  | cons e rest ih =>
    have hnew : e.1 ∉ m.keys := by
      intro hmem
      exact (List.nodup_append.mp h).2.2 e.1 hmem e.1 List.mem_cons_self rfl
    have hrest : ((m.insert e.1 e.2).keys ++ rest.map Prod.fst).Nodup := by
      rw [keys_insert_of_not_mem hnew, List.append_assoc]
      exact h
    rw [List.foldl_cons, ih hrest, entries_insert_of_not_mem hnew, List.append_assoc,
      List.singleton_append]

/-- A map is made of its entries again, in the same order. -/
theorem ofList_toList (m : OrderedMap κ ν) : ofList m.toList = m := by
  have hnodup : ((∅ : OrderedMap κ ν).keys ++ m.toList.map Prod.fst).Nodup := m.nodup_keys
  exact ext (entries_foldl_insert hnodup)

theorem find?_replaced (entries : List (κ × ν)) (k : κ) (v : ν) (j : κ) :
    (replaced entries k v).find? (·.1 = j) =
      if j = k then (if k ∈ entries.map Prod.fst then some (k, v) else none)
      else entries.find? (·.1 = j) := by
  induction entries with
  | nil => simp [replaced]
  | cons e rest ih =>
    simp only [replaced, List.map_cons, List.mem_cons] at ih ⊢
    by_cases hek : e.1 = k <;> by_cases hjk : j = k
    · simp [hek, hjk]
    · simp [hek, hjk, Ne.symm hjk, ih]
    · subst hjk
      have : ¬ j = e.1 := fun h => hek h.symm
      simp only [hek, ↓reduceIte, List.find?_cons, decide_false, ih, this, false_or]
    · by_cases hej : e.1 = j <;> simp [hek, hjk, hej, ih]

theorem get?_insert (m : OrderedMap κ ν) (k : κ) (v : ν) (j : κ) :
    (m.insert k v).get? j = if j = k then some v else m.get? j := by
  by_cases h : k ∈ m.keys
  · have h' : k ∈ m.entries.map Prod.fst := h
    simp only [get?, entries_insert_of_mem h, find?_replaced, if_pos h']
    split <;> rfl
  · simp only [get?, entries_insert_of_not_mem h, List.find?_append]
    by_cases hj : j = k
    · subst hj
      have : m.entries.find? (·.1 = j) = none := by
        rw [List.find?_eq_none]
        intro e he
        simp only [decide_eq_true_eq]
        rintro rfl
        exact h (List.mem_map_of_mem he)
      simp [this]
    · simp [hj, Ne.symm hj]

theorem find?_eq_some_iff_mem {entries : List (κ × ν)} (h : (entries.map Prod.fst).Nodup) {k : κ}
    {e : κ × ν} : entries.find? (·.1 = k) = some e ↔ e ∈ entries ∧ e.1 = k := by
  constructor
  · intro he
    exact ⟨List.mem_of_find?_eq_some he, by simpa using List.find?_some he⟩
  · rintro ⟨he, rfl⟩
    induction entries with
    | nil => cases he
    | cons d rest ih =>
      rw [List.map_cons, List.nodup_cons] at h
      rcases List.mem_cons.mp he with rfl | hr
      · simp
      · have hne : d.1 ≠ e.1 := fun hd => h.1 (hd ▸ List.mem_map_of_mem hr)
        rw [List.find?_cons_of_neg (by simpa using hne)]
        exact ih h.2 hr

theorem get?_eq_some_iff {m : OrderedMap κ ν} {k : κ} {v : ν} :
    m.get? k = some v ↔ (k, v) ∈ m.entries := by
  simp only [get?, Option.map_eq_some_iff, find?_eq_some_iff_mem m.nodup_keys]
  constructor
  · rintro ⟨⟨_, _⟩, ⟨h, rfl⟩, rfl⟩
    exact h
  · intro h
    exact ⟨(k, v), ⟨h, rfl⟩, rfl⟩

theorem get?_eq_none_iff {m : OrderedMap κ ν} {k : κ} : m.get? k = none ↔ k ∉ m.keys := by
  simp only [get?, keys, Option.map_eq_none_iff, List.find?_eq_none, decide_eq_true_eq,
    List.mem_map, not_exists, not_and]

@[simp] theorem get?_empty (k : κ) : (∅ : OrderedMap κ ν).get? k = none := rfl

theorem get?_erase (m : OrderedMap κ ν) (k j : κ) :
    (m.erase k).get? j = if j = k then none else m.get? j := by
  split
  · next h =>
    subst h
    rw [get?_eq_none_iff]
    simp [erase, keys]
  · next h =>
    apply Option.ext
    intro v
    rw [get?_eq_some_iff, get?_eq_some_iff]
    simp [erase, h]

theorem ne_empty_of_get? {m : OrderedMap κ ν} {k : κ} {v : ν} (h : m.get? k = some v) : m ≠ ∅ := by
  rintro rfl
  cases h

theorem insert_ne_empty (m : OrderedMap κ ν) (k : κ) (v : ν) : m.insert k v ≠ ∅ := by
  apply ne_empty_of_get? (k := k) (v := v)
  rw [get?_insert, if_pos rfl]

theorem exists_get?_of_ne_empty {m : OrderedMap κ ν} (h : m ≠ ∅) : ∃ k v, m.get? k = some v := by
  cases he : m.entries with
  | nil => exact absurd (eq_empty_of_entries_eq_nil he) h
  | cons e rest => exact ⟨e.1, e.2, get?_eq_some_iff.mpr (he ▸ List.mem_cons_self)⟩

theorem mem_keys_insert {m : OrderedMap κ ν} {k j : κ} {v : ν} :
    j ∈ (m.insert k v).keys ↔ j ∈ m.keys ∨ j = k := by
  by_cases h : k ∈ m.keys
  · rw [keys_insert_of_mem h]
    exact ⟨.inl, fun e => e.elim id (· ▸ h)⟩
  · rw [keys_insert_of_not_mem h, List.mem_append, List.mem_singleton]

theorem mem_keys_erase {m : OrderedMap κ ν} {k j : κ} :
    j ∈ (m.erase k).keys ↔ j ∈ m.keys ∧ j ≠ k := by
  simp only [keys, erase, List.mem_map, List.mem_filter, decide_eq_true_eq]
  constructor
  · rintro ⟨e, ⟨he, hne⟩, rfl⟩
    exact ⟨⟨e, he, rfl⟩, hne⟩
  · rintro ⟨⟨e, he, rfl⟩, hne⟩
    exact ⟨e, ⟨he, hne⟩, rfl⟩

theorem contains_eq_true {m : OrderedMap κ ν} {k : κ} : m.contains k = true ↔ k ∈ m.keys :=
  decide_eq_true_iff

/-- The last entry of a key counts. -/
theorem get?_foldl_insert (xs : List (κ × ν)) (m : OrderedMap κ ν) (k : κ) :
    (xs.foldl (fun m e => m.insert e.1 e.2) m).get? k =
      ((xs.reverse.find? (·.1 = k)).map Prod.snd).or (m.get? k) := by
  induction xs generalizing m with
  | nil => rfl
  | cons e xs ih =>
    rw [List.foldl_cons, ih, get?_insert, List.reverse_cons, List.find?_append]
    cases xs.reverse.find? (·.1 = k) with
    | some _ => rfl
    | none =>
      by_cases hk : e.1 = k
      · simp [hk]
      · simp [hk, Ne.symm hk]

theorem get?_ofList (xs : List (κ × ν)) (k : κ) :
    (ofList xs).get? k = (xs.reverse.find? (·.1 = k)).map Prod.snd := by
  rw [ofList, get?_foldl_insert, get?_empty, Option.or_none]

/-! ## Maps of maps -/

section Nested

universe u' v'

variable {κ' : Type u'} {ν' : Type v'}

/-- The inner map at a key; empty when there is none. -/
def inner (m : OrderedMap κ (OrderedMap κ' ν')) (k : κ) : OrderedMap κ' ν' := (m.get? k).getD ∅

/-- Change the inner map at a key. -/
def grow (m : OrderedMap κ (OrderedMap κ' ν')) (k : κ)
    (f : OrderedMap κ' ν' → OrderedMap κ' ν') : OrderedMap κ (OrderedMap κ' ν') :=
  m.insert k (f (m.inner k))

/-- Change the inner map at a key, and drop the key when nothing is left under it. -/
def shrink (m : OrderedMap κ (OrderedMap κ' ν')) (k : κ)
    (f : OrderedMap κ' ν' → OrderedMap κ' ν') : OrderedMap κ (OrderedMap κ' ν') :=
  let left := f (m.inner k)
  if left.isEmpty then m.erase k else m.insert k left

/-- No key has an empty inner map, and every inner map satisfies `p`. -/
def IsFilled (p : OrderedMap κ' ν' → Prop) (m : OrderedMap κ (OrderedMap κ' ν')) : Prop :=
  ∀ k v, m.get? k = some v → v ≠ ∅ ∧ p v

variable {m : OrderedMap κ (OrderedMap κ' ν')} {f : OrderedMap κ' ν' → OrderedMap κ' ν'}
  {p : OrderedMap κ' ν' → Prop}

@[simp] theorem inner_empty (k : κ) : (∅ : OrderedMap κ (OrderedMap κ' ν')).inner k = ∅ := rfl

theorem inner_of_get? {k : κ} {v : OrderedMap κ' ν'} (h : m.get? k = some v) : m.inner k = v := by
  rw [inner, h, Option.getD_some]

/-- What holds of an inner map, but not of the empty one, holds of the value of the key. -/
theorem exists_mem_iff_inner {q : OrderedMap κ' ν' → Prop} (hq : ¬ q ∅) {k : κ} :
    (∃ v, (k, v) ∈ m.entries ∧ q v) ↔ q (m.inner k) := by
  constructor
  · rintro ⟨v, hv, h⟩
    rwa [inner_of_get? (get?_eq_some_iff.mpr hv)]
  · intro h
    cases hk : m.get? k with
    | none => rw [inner, hk] at h; exact absurd h hq
    | some v => exact ⟨v, get?_eq_some_iff.mp hk, inner_of_get? hk ▸ h⟩

theorem inner_grow (k j : κ) :
    (m.grow k f).inner j = if j = k then f (m.inner k) else m.inner j := by
  rw [grow, inner, get?_insert]
  split <;> rfl

theorem grow_ne_empty {k : κ} : m.grow k f ≠ ∅ := insert_ne_empty _ _ _

theorem inner_shrink (k j : κ) :
    (m.shrink k f).inner j = if j = k then f (m.inner k) else m.inner j := by
  rw [shrink, inner]
  split
  · next h =>
    rw [get?_erase, isEmpty_iff.mp h]
    split <;> rfl
  · rw [get?_insert]
    split <;> rfl

theorem isFilled_empty : IsFilled p (∅ : OrderedMap κ (OrderedMap κ' ν')) := by
  rintro k v ⟨⟩

theorem IsFilled.inner (h : IsFilled p m) (hp : p ∅) (k : κ) : p (m.inner k) := by
  cases hk : m.get? k with
  | none => rw [OrderedMap.inner, hk]; exact hp
  | some v => rw [inner_of_get? hk]; exact (h k v hk).2

theorem IsFilled.insert (h : IsFilled p m) {k : κ} {v : OrderedMap κ' ν'} (hv : v ≠ ∅ ∧ p v) :
    IsFilled p (m.insert k v) := by
  intro j w hw
  rw [get?_insert] at hw
  split at hw
  · cases hw; exact hv
  · exact h j w hw

theorem IsFilled.grow (h : IsFilled p m) {k : κ} (hf : f (m.inner k) ≠ ∅ ∧ p (f (m.inner k))) :
    IsFilled p (m.grow k f) := h.insert hf

theorem IsFilled.shrink (h : IsFilled p m) {k : κ} (hf : p (f (m.inner k))) :
    IsFilled p (m.shrink k f) := by
  rw [OrderedMap.shrink]
  split
  · intro j w hw
    rw [get?_erase] at hw
    split at hw
    · cases hw
    · exact h j w hw
  · next hne => exact h.insert ⟨fun he => hne (isEmpty_iff.mpr he), hf⟩

end Nested

end OrderedMap

/-- A set in the order in which its members first came. -/
abbrev OrderedSet (α : Type u) := OrderedMap α Unit

end Ecoa
