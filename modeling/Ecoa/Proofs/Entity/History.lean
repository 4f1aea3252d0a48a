import Ecoa.Proofs.Entity.Store

/-!
# Histories of stores

A store comes about from the empty one by edits: an item is inserted under a group, or the item at a
number is changed. `IndexedStore` keeps the numbers of each group beside the items, in 32 bits,
where a plain store looks for them among its entries. `isFiled_run` says of every history that fits
into these numbers how the items are numbered and filed, that a change concerns one item only, and
that both stores answer alike: a number in the index always has its item.
-/

namespace Ecoa

variable {α : Type}

inductive Edit (α : Type) where
  | insert (group : String) (item : α)
  | change (number : UInt32) (f : α → α)

namespace Edit

def group? : Edit α → Option String
  | .insert group _ => some group
  | .change .. => none

/-- The groups of the items that the edits insert, in order. -/
def insertedUnder (edits : List (Edit α)) : List String := edits.filterMap group?

/-- What an edit makes of the item at a number. -/
def onItem (i : Nat) (a : α) : Edit α → α
  | .insert .. => a
  | .change number f => if number.toNat = i then f a else a

end Edit

namespace Store

variable {s : Store α} {i : Nat} {a : α} {key : String}

def edit (s : Store α) : Edit α → Store α
  | .insert group item => s.insert group item
  | .change number f => s.modify number.toNat f

def run (s : Store α) (edits : List (Edit α)) : Store α := edits.foldl edit s

theorem filedUnder_edit (e : Edit α) : (s.edit e).filedUnder = s.filedUnder ++ e.group?.toList := by
  cases e with
  | insert group item => exact filedUnder_insert
  | change number f => exact filedUnder_modify.trans (List.append_nil _).symm

/-- Each insertion adds a name, and nothing takes one away. -/
theorem filedUnder_run (s : Store α) (edits : List (Edit α)) :
    (s.run edits).filedUnder = s.filedUnder ++ Edit.insertedUnder edits := by
  unfold run Edit.insertedUnder
  induction edits generalizing s with
  | nil => exact (List.append_nil _).symm
  | cons e edits ih =>
    rw [List.foldl_cons, ih, filedUnder_edit, List.append_assoc, List.filterMap_cons]
    cases e.group? <;> rfl

theorem get?_edit (e : Edit α) (h : s.get? i = some a) :
    (s.edit e).get? i = some (e.onItem i a) := by
  cases e with
  | insert group item =>
    have hi : i < s.size := isSome_get?_iff.mp (by rw [h]; rfl)
    rw [edit, get?_insert, if_neg (by omega), h]
    rfl
  | change number f =>
    rw [edit, get?_modify, Edit.onItem, h]
    by_cases hn : number.toNat = i
    · simp [hn]
    · simp [hn, Ne.symm hn]

/-- An item stays at its number, and only the changes at this number concern it. -/
theorem get?_run (edits : List (Edit α)) (h : s.get? i = some a) :
    (s.run edits).get? i = some (edits.foldl (Edit.onItem i) a) := by
  unfold run
  induction edits generalizing s a with
  | nil => exact h
  | cons e edits ih => exact ih (get?_edit e h)

/-- The items are numbered in order, and each is filed under its name in `names`. -/
structure IsFiled (s : Store α) (names : List String) : Prop where
  size_eq : s.size = names.length
  isSome_get?_iff : ∀ i, (s.get? i).isSome = true ↔ i < s.size
  existsUnique_group : ∀ i < s.size, ∃! g, g ∈ s.groups ∧ i ∈ g.2
  mem_numbers_iff : ∀ g ∈ s.groups, ∀ i, i ∈ g.2 ↔ names[i]? = some g.1
  numbers_ascend : ∀ g ∈ s.groups, g.2.Pairwise (· < ·)
  /-- The groups come in the order of the first item of each. -/
  groups_in_order :
    (s.groups.map Prod.fst).Pairwise fun key key' => names.idxOf key < names.idxOf key'
  mem_group_iff : ∀ key i a, (i, a) ∈ s.group key ↔ names[i]? = some key ∧ s.get? i = some a
  group_ascends : ∀ key, ((s.group key).map Prod.fst).Pairwise (· < ·)

theorem isFiled (s : Store α) : s.IsFiled s.filedUnder where
  size_eq := s.length_filedUnder.symm
  isSome_get?_iff _ := isSome_get?_iff
  existsUnique_group i hi := by
    rw [← length_filedUnder] at hi
    have hname := List.getElem?_eq_getElem hi
    refine ⟨(s.filedUnder[i], s.numbersOf s.filedUnder[i]),
      ⟨mem_groups.mpr ⟨List.getElem_mem hi, rfl⟩, mem_numbersOf.mpr hname⟩, ?_⟩
    rintro ⟨key, numbers⟩ ⟨hg, hmem⟩
    obtain ⟨-, rfl⟩ := mem_groups.mp hg
    have hkey : key = s.filedUnder[i] := Option.some.inj ((mem_numbersOf.mp hmem).symm.trans hname)
    rw [hkey]
  mem_numbers_iff g hg i := by
    rw [(mem_groups.mp hg).2, mem_numbersOf]
  numbers_ascend g hg := by
    rw [(mem_groups.mp hg).2]
    exact s.pairwise_numbersOf g.1
  groups_in_order := by
    rw [map_fst_groups]
    exact pairwise_idxOf_eraseDups s.filedUnder
  mem_group_iff _ _ _ := mem_group_iff
  group_ascends := s.pairwise_numbersOf

end Store

/-! ## Stores with an index -/

/-- The items in order, and the numbers of the items of each group. -/
structure IndexedStore (α : Type) where
  items : Array α
  index : OrderedMap String (List UInt32)

namespace IndexedStore

def empty : IndexedStore α := ⟨#[], ∅⟩

def size (t : IndexedStore α) : Nat := t.items.size

/-- The store with an item more, and its number. -/
def insert (t : IndexedStore α) (group : String) (item : α) : IndexedStore α × UInt32 :=
  let number := UInt32.ofNat t.items.size
  (⟨t.items.push item, t.index.alter group fun numbers => numbers.getD [] ++ [number]⟩, number)

def get? (t : IndexedStore α) (number : UInt32) : Option α := t.items[number.toNat]?

def modify (t : IndexedStore α) (number : UInt32) (f : α → α) : IndexedStore α :=
  { t with items := t.items.modify number.toNat f }

/-- The items of a group; `none` when a number in the index has no item. -/
def group? (t : IndexedStore α) (key : String) : Option (List (UInt32 × α)) :=
  ((t.index.get? key).getD []).mapM fun number => (t.get? number).map (number, ·)

def groups (t : IndexedStore α) : List (String × List UInt32) := t.index.toList

def edit (t : IndexedStore α) : Edit α → IndexedStore α
  | .insert group item => (t.insert group item).1
  | .change number f => t.modify number f

def run (t : IndexedStore α) (edits : List (Edit α)) : IndexedStore α := edits.foldl edit t

/-- A group with its numbers as a plain store has them. -/
def widen (g : String × List UInt32) : String × List Nat := (g.1, g.2.map UInt32.toNat)

theorem map_widen_replaced (entries : List (String × List UInt32)) (key : String)
    (numbers : List UInt32) : (OrderedMap.replaced entries key numbers).map widen =
      OrderedMap.replaced (entries.map widen) key (numbers.map UInt32.toNat) := by
  rw [OrderedMap.replaced, OrderedMap.replaced, List.map_map, List.map_map]
  refine List.map_congr_left fun g _ => ?_
  by_cases h : g.1 = key
  · simp [widen, h]
  · simp [widen, h]

/-- The index has the groups of a plain store with the same items. -/
structure Indexes (t : IndexedStore α) (s : Store α) : Prop where
  items : t.items.toList = s.items
  groups : t.groups.map widen = s.groups

namespace Indexes

variable {t : IndexedStore α} {s : Store α} {key : String} {a : α}

theorem empty : (empty : IndexedStore α).Indexes .empty := ⟨rfl, rfl⟩

theorem size_eq (h : t.Indexes s) : t.size = s.size := by
  rw [size, ← Array.length_toList, h.items, Store.items, List.length_map, Array.length_toList,
    Store.size]

theorem getElem?_items (h : t.Indexes s) (i : Nat) : t.items[i]? = s.get? i := by
  rw [← Array.getElem?_toList, h.items, Store.getElem?_items]

theorem keys_index (h : t.Indexes s) : t.index.keys = s.filedUnder.eraseDups := by
  rw [← Store.map_fst_groups, ← h.groups, List.map_map]
  rfl

theorem mem_keys_index (h : t.Indexes s) : key ∈ t.index.keys ↔ key ∈ s.filedUnder := by
  rw [h.keys_index, List.mem_eraseDups]

theorem numbers (h : t.Indexes s) (key : String) :
    ((t.index.get? key).getD []).map UInt32.toNat = s.numbersOf key := by
  cases hget : t.index.get? key with
  | none =>
    rw [OrderedMap.get?_eq_none_iff, h.mem_keys_index] at hget
    rw [Store.numbersOf_eq_nil hget]
    rfl
  | some numbers =>
    have hmem : widen (key, numbers) ∈ s.groups := by
      rw [← h.groups]
      exact List.mem_map_of_mem (OrderedMap.get?_eq_some_iff.mp hget)
    exact (Store.mem_groups.mp hmem).2

/-- A number that fits into 32 bits is the size before. -/
theorem toNat_insert_snd (h : t.Indexes s) (hsize : s.size < UInt32.size) :
    (t.insert key a).2.toNat = s.size := by
  have hitems : t.items.size = s.size := h.size_eq
  change (UInt32.ofNat t.items.size).toNat = s.size
  rw [hitems, UInt32.toNat_ofNat_of_lt' hsize]

theorem insert (h : t.Indexes s) (hsize : s.size < UInt32.size) :
    (t.insert key a).1.Indexes (s.insert key a) where
  items := by
    rw [Store.items_insert, ← h.items]
    exact Array.toList_push
  groups := by
    have hnumbers : ((t.index.get? key).getD [] ++ [(t.insert key a).2]).map UInt32.toNat =
        s.numbersOf key ++ [s.size] := by
      rw [List.map_append, h.numbers, List.map_singleton, h.toNat_insert_snd hsize]
    rw [Store.groups_insert, ← h.groups]
    change (t.index.insert key ((t.index.get? key).getD [] ++ [(t.insert key a).2])).entries.map
      widen = _
    split
    · next hkey =>
      rw [OrderedMap.entries_insert_of_mem (h.mem_keys_index.mpr hkey), map_widen_replaced,
        hnumbers]
      rfl
    · next hkey =>
      rw [OrderedMap.entries_insert_of_not_mem (mt h.mem_keys_index.mp hkey), List.map_append,
        List.map_singleton, widen, hnumbers, Store.numbersOf_eq_nil hkey]
      rfl

theorem modify (h : t.Indexes s) (number : UInt32) (f : α → α) :
    (t.modify number f).Indexes (s.modify number.toNat f) where
  items := by
    rw [Store.items_modify, ← h.items]
    exact Array.toList_modify
  groups := by
    rw [Store.groups_modify]
    exact h.groups

/-- The two stay in step as long as the numbers fit: the bound counts the items that are there and
those that are still to come. -/
theorem run (h : t.Indexes s) (edits : List (Edit α))
    (hcount : s.size + (Edit.insertedUnder edits).length ≤ UInt32.size) :
    (t.run edits).Indexes (s.run edits) := by
  unfold IndexedStore.run Store.run
  induction edits generalizing t s with
  | nil => exact h
  | cons e edits ih =>
    rw [List.foldl_cons, List.foldl_cons]
    cases e with
    | insert group item =>
      have hlength : (Edit.insertedUnder (.insert group item :: edits)).length =
          (Edit.insertedUnder edits).length + 1 := rfl
      have hsize : (s.edit (.insert group item)).size = s.size + 1 := Store.size_insert
      exact ih (h.insert (by omega)) (by omega)
    | change number f =>
      have hsize : (s.edit (.change number f)).size = s.size := Store.size_modify
      exact ih (h.modify number f) (hsize ▸ hcount)

theorem get?_eq (h : t.Indexes s) (number : UInt32) : t.get? number = s.get? number.toNat :=
  h.getElem?_items number.toNat

/-- Numbers that have items are all found. -/
theorem mapM_get? (h : t.Indexes s) {numbers : List UInt32} {found : List (Nat × α)}
    (hnumbers : numbers.map UInt32.toNat = found.map Prod.fst)
    (hfound : ∀ e ∈ found, s.get? e.1 = some e.2) :
    (numbers.mapM fun number => (t.get? number).map (number, ·)).map
      (List.map (Prod.map UInt32.toNat id)) = some found := by
  induction found generalizing numbers with
  | nil =>
    rw [List.map_nil, List.map_eq_nil_iff] at hnumbers
    rw [hnumbers]
    rfl
  | cons e found ih =>
    obtain ⟨number, rest, rfl, hnumber, hrest⟩ := List.map_eq_cons_iff.mp hnumbers
    rw [List.forall_mem_cons] at hfound
    have hitem : t.get? number = some e.2 := by rw [h.get?_eq, hnumber, hfound.1]
    obtain ⟨others, hothers, hmap⟩ := Option.map_eq_some_iff.mp (ih hrest hfound.2)
    rw [List.mapM_cons, hitem, hothers]
    simp [hmap, hnumber]

/-- Every number of a group has its item. -/
theorem group?_eq (h : t.Indexes s) (key : String) :
    (t.group? key).map (List.map (Prod.map UInt32.toNat id)) = some (s.group key) :=
  h.mapM_get? (h.numbers key) fun _ he => (Store.mem_group_iff.mp he).2

end Indexes

end IndexedStore

namespace Store

/-- After every history of fewer than 2 ^ 32 insertions into the empty store, the items are numbered
in order and filed under their groups, the next one gets the number of insertions as its number, a
change at a number concerns the item there and nothing else, and an item stays at its number. A
store with an index has the same items, groups and numbers, and finds the items of every group. -/
theorem isFiled_run (edits : List (Edit α))
    (hcount : (Edit.insertedUnder edits).length < UInt32.size) :
    let s := (empty : Store α).run edits
    let t := (IndexedStore.empty : IndexedStore α).run edits
    s.IsFiled (Edit.insertedUnder edits) ∧
    (∀ key a, (t.insert key a).2.toNat = (Edit.insertedUnder edits).length ∧
      (s.insert key a).get? (Edit.insertedUnder edits).length = some a) ∧
    (∀ i f, (s.modify i f).size = s.size ∧ (s.modify i f).groups = s.groups ∧
      ∀ j, (s.modify i f).get? j = if j = i then (s.get? j).map f else s.get? j) ∧
    (∀ i a, s.get? i = some a → ∀ more,
      (s.run more).get? i = some (more.foldl (Edit.onItem i) a)) ∧
    t.size = s.size ∧ (∀ number, t.get? number = s.get? number.toNat) ∧
    t.groups.map IndexedStore.widen = s.groups ∧
    ∀ key, (t.group? key).map (List.map (Prod.map UInt32.toNat id)) = some (s.group key) := by
  intro s t
  have hnames : s.filedUnder = Edit.insertedUnder edits := filedUnder_run empty edits
  have hsize : s.size = (Edit.insertedUnder edits).length := by rw [← hnames, length_filedUnder]
  have hindexes : t.Indexes s := by
    refine IndexedStore.Indexes.empty.run edits ?_
    change 0 + _ ≤ _
    omega
  refine ⟨hnames ▸ s.isFiled, fun key a => ⟨?_, ?_⟩,
    fun i f => ⟨size_modify, groups_modify, get?_modify⟩, fun i a h more => get?_run more h,
    hindexes.size_eq, hindexes.get?_eq, hindexes.groups, hindexes.group?_eq⟩
  · exact (hindexes.toNat_insert_snd (hsize ▸ hcount)).trans hsize
  · rw [get?_insert, if_pos hsize.symm]

/-- Three items in two groups; the second item is changed. -/
def twoGroups : List (Edit String) :=
  [.insert "C:M1" "a", .insert "C:M2" "b", .insert "C:M1" "c", .change 1 fun _ => "d"]

theorem isFiled_run_twoGroups :
    (Edit.insertedUnder twoGroups).length < UInt32.size ∧
      (empty.run twoGroups).IsFiled ["C:M1", "C:M2", "C:M1"] ∧
      (empty.run twoGroups).groups = [("C:M1", [0, 2]), ("C:M2", [1])] ∧
      ((IndexedStore.empty.run twoGroups).group? "C:M1").isSome = true ∧
      (empty.run twoGroups).get? 1 = some "d" := by
  have hcount : (Edit.insertedUnder twoGroups).length < UInt32.size := by decide
  obtain ⟨hfiled, -, -, -, -, -, -, hgroup⟩ := isFiled_run twoGroups hcount
  refine ⟨hcount, hfiled, by decide, ?_, by decide⟩
  rw [← Option.isSome_map (f := List.map (Prod.map UInt32.toNat id)), hgroup]
  rfl

end Store

end Ecoa
