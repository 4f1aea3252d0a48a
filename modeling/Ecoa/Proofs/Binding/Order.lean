import Ecoa.Proofs.Binding.Refinement

/-!
# What a change to a table leaves in order

Taking a new binding away again gives back the same table, and binding what is bound or taking away
what is not changes nothing. Whatever is bound or taken away, all other bindings stay in the order
in which the table has them, and so do those of each sender and of each receiver. The lemmas go
through the three levels of a listing by what `grow` and `shrink` do to a map at one key.
-/

namespace Ecoa

namespace OrderedMap

variable {κ ν β : Type} [DecidableEq κ] {m : OrderedMap κ ν} {k : κ} {v w : ν}

theorem eq_of_mem_entries (h : m.get? k = some v) {e : κ × ν} (he : e ∈ m.entries) (hk : e.1 = k) :
    e = (k, v) := by
  obtain ⟨j, u⟩ := e
  obtain rfl : j = k := hk
  cases h.symm.trans (get?_eq_some_iff.mpr he)
  rfl

theorem entries_insert_of_get? (h : m.get? k = some v) (w : ν) :
    (m.insert k w).entries = m.entries.map fun e => if e.1 = k then (k, w) else e :=
  entries_insert_of_mem (mem_keys_of_mem (get?_eq_some_iff.mp h)) w

theorem entries_insert_of_get?_none (h : m.get? k = none) (w : ν) :
    (m.insert k w).entries = m.entries ++ [(k, w)] :=
  entries_insert_of_not_mem (get?_eq_none_iff.mp h) w

theorem ne_of_mem_entries (h : m.get? k = none) {e : κ × ν} (he : e ∈ m.entries) : e.1 ≠ k := by
  rintro rfl
  exact get?_eq_none_iff.mp h (mem_keys_of_mem he)

/-- Setting a key to its value changes nothing. -/
theorem insert_of_get? (h : m.get? k = some v) : m.insert k v = m := by
  apply ext
  rw [entries_insert_of_get? h]
  refine (List.map_congr_left fun e he => ?_).trans (List.map_id _)
  split
  · next hk => exact (eq_of_mem_entries h he hk).symm
  · rfl

theorem insert_insert (m : OrderedMap κ ν) (k : κ) (v w : ν) :
    (m.insert k v).insert k w = m.insert k w := by
  apply ext
  have hv : (m.insert k v).get? k = some v := by rw [get?_insert, if_pos rfl]
  rw [entries_insert_of_get? hv]
  cases h : m.get? k with
  | some u =>
    rw [entries_insert_of_get? h, entries_insert_of_get? h, List.map_map]
    refine List.map_congr_left fun e _ => ?_
    by_cases hk : e.1 = k
    · simp [hk]
    · simp [hk]
  | none =>
    have hrest : (m.entries.map fun e => if e.1 = k then (k, w) else e) = m.entries :=
      (List.map_congr_left fun e he => if_neg (ne_of_mem_entries h he)).trans (List.map_id _)
    rw [entries_insert_of_get?_none h, entries_insert_of_get?_none h, List.map_append, hrest]
    simp

theorem entries_erase (m : OrderedMap κ ν) (k : κ) :
    (m.erase k).entries = m.entries.filter (·.1 ≠ k) := rfl

/-- A new key is at the end, and erasing it leaves the rest. -/
theorem erase_insert (h : m.get? k = none) : (m.insert k v).erase k = m := by
  apply ext
  have hrest : m.entries.filter (·.1 ≠ k) = m.entries :=
    List.filter_eq_self.mpr fun e he => decide_eq_true (ne_of_mem_entries h he)
  rw [entries_erase, entries_insert_of_get?_none h, List.filter_append, hrest]
  simp

/-- Lists that are made from the entries are the same when those of the changed entry are. -/
theorem flatMap_insert {f : κ × ν → List β}
    (h : f (k, w) = ((m.get? k).map fun v => f (k, v)).getD []) :
    (m.insert k w).entries.flatMap f = m.entries.flatMap f := by
  cases hk : m.get? k with
  | none =>
    rw [hk] at h
    rw [entries_insert_of_get?_none hk, List.flatMap_append, List.flatMap_singleton, h]
    exact List.append_nil _
  | some v =>
    rw [hk] at h
    rw [entries_insert_of_get? hk, List.flatMap_map]
    refine List.flatMap_congr fun e he => ?_
    split
    · next hek => rw [h, eq_of_mem_entries hk he hek]; rfl
    · rfl

theorem flatMap_erase {f : κ × ν → List β} (h : ∀ v, m.get? k = some v → f (k, v) = []) :
    (m.erase k).entries.flatMap f = m.entries.flatMap f := by
  have hnone : ∀ e ∈ m.entries, e.1 = k → f e = [] := by
    rintro ⟨j, v⟩ he rfl
    exact h v (get?_eq_some_iff.mpr he)
  rw [entries_erase]
  generalize m.entries = entries at hnone
  induction entries with
  | nil => rfl
  | cons e entries ih =>
    obtain ⟨he, hrest⟩ := List.forall_mem_cons.mp hnone
    by_cases hk : e.1 = k
    · rw [List.filter_cons_of_neg (by simpa using hk), List.flatMap_cons, he hk, ih hrest]
      rfl
    · rw [List.filter_cons_of_pos (by simpa using hk), List.flatMap_cons, List.flatMap_cons,
        ih hrest]

section Sets

variable {m : OrderedSet κ}

theorem insert_of_mem (h : k ∈ m.keys) : m.insert k () = m := by
  obtain ⟨⟨⟩, hk⟩ := Option.ne_none_iff_exists'.mp (fun hnone => get?_eq_none_iff.mp hnone h)
  exact insert_of_get? hk

/-- Members of which the new one is none are listed as before. -/
theorem filter_keys_insert {q : κ → Bool} (hq : q k = false) :
    (m.insert k ()).keys.filter q = m.keys.filter q := by
  by_cases hk : k ∈ m.keys
  · rw [insert_of_mem hk]
  · rw [keys_insert_of_not_mem hk, List.filter_append, List.filter_singleton, hq]
    exact List.append_nil _

theorem filter_keys_erase {q : κ → Bool} (hq : q k = false) :
    (m.erase k).keys.filter q = m.keys.filter q := by
  have hkeys : (m.erase k).keys = m.keys.filter (· ≠ k) := by
    rw [keys, entries_erase, keys, List.filter_map]
    rfl
  rw [hkeys, List.filter_filter]
  refine List.filter_congr fun j _ => ?_
  by_cases hj : j = k
  · simp [hj, hq]
  · simp [hj]

end Sets

section Nested

variable {κ' ν' : Type} {n : OrderedMap κ (OrderedMap κ' ν')}
  {f g : OrderedMap κ' ν' → OrderedMap κ' ν'} {q : κ × OrderedMap κ' ν' → List β}

theorem get?_of_inner_ne_empty (h : n.inner k ≠ ∅) : n.get? k = some (n.inner k) := by
  cases hk : n.get? k with
  | none => exact absurd (by rw [inner, hk]; rfl) h
  | some v => rw [inner_of_get? hk]

/-- Growing by what is there changes nothing. -/
theorem grow_eq_self (hne : n.inner k ≠ ∅) (hf : f (n.inner k) = n.inner k) : n.grow k f = n := by
  rw [grow, hf]
  exact insert_of_get? (get?_of_inner_ne_empty hne)

/-- What makes up for the change to an inner map makes up for the change to the whole, when no inner
map is empty. -/
theorem shrink_grow {p : OrderedMap κ' ν' → Prop} (hn : n.IsFilled p)
    (hfg : g (f (n.inner k)) = n.inner k) : (n.grow k f).shrink k g = n := by
  rw [shrink, inner_grow, if_pos rfl, hfg]
  split
  · next hempty =>
    rw [isEmpty_iff] at hempty
    have hnone : n.get? k = none := by
      cases hk : n.get? k with
      | none => rfl
      | some v => exact absurd ((inner_of_get? hk).symm.trans hempty) (hn k v hk).1
    exact erase_insert hnone
  · next hempty =>
    rw [isEmpty_iff] at hempty
    rw [grow, insert_insert]
    exact insert_of_get? (get?_of_inner_ne_empty hempty)

theorem flatMap_grow (hempty : q (k, ∅) = []) (h : q (k, f (n.inner k)) = q (k, n.inner k)) :
    (n.grow k f).entries.flatMap q = n.entries.flatMap q := by
  refine flatMap_insert (h.trans ?_)
  rw [inner]
  cases n.get? k with
  | none => exact hempty
  | some v => rfl

theorem flatMap_shrink (hempty : q (k, ∅) = []) (h : q (k, f (n.inner k)) = q (k, n.inner k)) :
    (n.shrink k f).entries.flatMap q = n.entries.flatMap q := by
  rw [shrink]
  split
  · next hleft =>
    rw [isEmpty_iff.mp hleft, hempty] at h
    refine flatMap_erase fun v hv => ?_
    rw [← inner_of_get? hv, h]
  · exact flatMap_grow hempty h

end Nested

end OrderedMap

/-- Peers with the key of their own and the key of the other side, in order. -/
def Peers.toList {ι : Type} (peers : Peers ι) : List (String × String × ι) :=
  peers.flatMap fun g => g.2.flatMap fun h => h.2.map fun peer => (g.1, h.1, peer)

namespace BindingListing

variable {ι : Type} [DecidableEq ι] {l : BindingListing ι} {o p : ι} {g k : String}
  {q : ι × String × String × ι → Bool}

/-- Binding what is bound changes nothing. -/
theorem insert_of_contains (h : l.contains o g k p = true) : (l.insert o g k p).1 = l := by
  have hpeer : p ∈ (((l.owners.inner o).inner g).inner k).keys := OrderedMap.contains_eq_true.mp h
  have hpeers : ((l.owners.inner o).inner g).inner k ≠ ∅ := by
    intro hempty
    rw [hempty] at hpeer
    exact List.not_mem_nil hpeer
  have hentries : (l.owners.inner o).inner g ≠ ∅ := fun hempty => hpeers (by rw [hempty]; rfl)
  have hgroups : l.owners.inner o ≠ ∅ := fun hempty => hentries (by rw [hempty]; rfl)
  refine congrArg BindingListing.mk (OrderedMap.grow_eq_self hgroups ?_)
  refine OrderedMap.grow_eq_self hentries ?_
  exact OrderedMap.grow_eq_self hpeers (OrderedMap.insert_of_mem hpeer)

theorem remove_of_not_contains (h : l.contains o g k p = false) : (l.remove o g k p).1 = l := by
  rw [remove, h]
  rfl

/-- Taking a new binding away again undoes all that came with it. -/
theorem remove_insert (hl : l.NoEmptyGroup) (h : l.contains o g k p = false) :
    ((l.insert o g k p).1.remove o g k p).1 = l := by
  have hbound : (l.insert o g k p).1.contains o g k p = true :=
    (contains_insert l).mpr (.inr ⟨rfl, rfl, rfl, rfl⟩)
  have hpeer : (((l.owners.inner o).inner g).inner k).get? p = none := by
    rw [OrderedMap.get?_eq_none_iff, ← OrderedMap.contains_eq_true]
    exact Bool.eq_false_iff.mp h
  have hgroups := OrderedMap.IsFilled.inner hl OrderedMap.isFilled_empty o
  have hentries := hgroups.inner OrderedMap.isFilled_empty g
  have howners : (l.owners.grow o fun groups => groups.grow g fun entries =>
        entries.grow k fun peers => peers.insert p ()).shrink o
      (fun groups => groups.shrink g fun entries => entries.shrink k fun peers => peers.erase p) =
      l.owners := by
    refine OrderedMap.shrink_grow hl ?_
    refine OrderedMap.shrink_grow hgroups ?_
    exact OrderedMap.shrink_grow hentries (OrderedMap.erase_insert hpeer)
  rw [remove, if_pos hbound]
  exact congrArg BindingListing.mk howners

/-- Bindings of which the new one is none are listed as before. -/
theorem filter_toList_insert (hq : q (o, g, k, p) = false) :
    (l.insert o g k p).1.toList.filter q = l.toList.filter q := by
  simp only [toList, List.filter_flatMap]
  refine OrderedMap.flatMap_grow rfl ?_
  refine OrderedMap.flatMap_grow rfl ?_
  refine OrderedMap.flatMap_grow rfl ?_
  rw [List.filter_map, List.filter_map]
  exact congrArg (List.map _) (OrderedMap.filter_keys_insert hq)

/-- Bindings of which the one that is taken away is none are listed as before. -/
theorem filter_toList_remove (hq : q (o, g, k, p) = false) :
    (l.remove o g k p).1.toList.filter q = l.toList.filter q := by
  rw [remove]
  split
  · simp only [toList, List.filter_flatMap]
    refine OrderedMap.flatMap_shrink rfl ?_
    refine OrderedMap.flatMap_shrink rfl ?_
    refine OrderedMap.flatMap_shrink rfl ?_
    rw [List.filter_map, List.filter_map]
    exact congrArg (List.map _) (OrderedMap.filter_keys_erase hq)
  · rfl

/-- The peers of an owner come in the order in which the listing has them. -/
theorem map_toList_peers (l : BindingListing ι) (x : ι) :
    (Peers.toList (((l.owners.get? x).map BindingGroups.peers).getD [])).map (fun e => (x, e)) =
      l.toList.filter (·.1 = x) := by
  rw [filter_toList_owner, OrderedMap.inner]
  cases l.owners.get? x with
  | none => rfl
  | some groups =>
    simp only [Option.map_some, Option.getD_some, BindingGroups.peers, Peers.toList,
      OrderedMap.toList, List.flatMap_map, List.map_flatMap, List.map_map, Function.comp_def]

end BindingListing

namespace BindingTable

variable {ι : Type} [DecidableEq ι]

/-- The bindings of a sender, in the order of its receivers. -/
def bindingsFrom (t : BindingTable ι) (x : ι) : List (Binding ι) :=
  (Peers.toList ((t.receiversOf? x).getD [])).map fun e => ⟨x, e.1, e.2.2, e.2.1⟩

/-- The bindings of a receiver, in the order of its senders. -/
def bindingsTo (t : BindingTable ι) (x : ι) : List (Binding ι) :=
  (Peers.toList ((t.sendersOf? x).getD [])).map fun e => ⟨e.2.2, e.2.1, x, e.1⟩

/-- The bindings in the order of the receivers. -/
def mirrored (t : BindingTable ι) : List (Binding ι) :=
  t.byReceiver.toList.map fun e => ⟨e.2.2.2, e.2.2.1, e.1, e.2.1⟩

theorem bindingsFrom_eq (t : BindingTable ι) (x : ι) :
    t.bindingsFrom x = t.toList.filter (·.sender = x) := by
  have hmap : t.bindingsFrom x = (t.bySender.toList.filter (·.1 = x)).map
      fun e => ⟨e.1, e.2.1, e.2.2.2, e.2.2.1⟩ := by
    rw [← BindingListing.map_toList_peers, List.map_map]
    rfl
  rw [hmap, toList, List.filter_map]
  rfl

theorem bindingsTo_eq (t : BindingTable ι) (x : ι) :
    t.bindingsTo x = t.mirrored.filter (·.receiver = x) := by
  have hmap : t.bindingsTo x = (t.byReceiver.toList.filter (·.1 = x)).map
      fun e => ⟨e.2.2.2, e.2.2.1, e.1, e.2.1⟩ := by
    rw [← BindingListing.map_toList_peers, List.map_map]
    rfl
  rw [hmap, mirrored, List.filter_map]
  rfl

variable {t : BindingTable ι} {b : Binding ι} {s : Finset (Binding ι)}

theorem bind_fst (t : BindingTable ι) (b : Binding ι) : (t.bind b).1 =
    ⟨(t.bySender.insert b.sender b.senderKey b.receiverKey b.receiver).1,
      (t.byReceiver.insert b.receiver b.receiverKey b.senderKey b.sender).1⟩ := rfl

theorem unbind_fst (t : BindingTable ι) (b : Binding ι) : (t.unbind b).1 =
    ⟨(t.bySender.remove b.sender b.senderKey b.receiverKey b.receiver).1,
      (t.byReceiver.remove b.receiver b.receiverKey b.senderKey b.sender).1⟩ := rfl

theorem Represents.bind_of_mem (h : t.Represents s) (hb : b ∈ s) : (t.bind b).1 = t := by
  rw [bind_fst, BindingListing.insert_of_contains ((h.bySender b).mpr hb),
    BindingListing.insert_of_contains ((h.byReceiver b).mpr hb)]

theorem Represents.contains_eq_false (h : t.Represents s) (hb : b ∉ s) :
    t.bySender.contains b.sender b.senderKey b.receiverKey b.receiver = false ∧
      t.byReceiver.contains b.receiver b.receiverKey b.senderKey b.sender = false :=
  ⟨Bool.eq_false_iff.mpr (mt (h.bySender b).mp hb),
    Bool.eq_false_iff.mpr (mt (h.byReceiver b).mp hb)⟩

theorem Represents.unbind_of_not_mem (h : t.Represents s) (hb : b ∉ s) : (t.unbind b).1 = t := by
  obtain ⟨hsender, hreceiver⟩ := h.contains_eq_false hb
  rw [unbind_fst, BindingListing.remove_of_not_contains hsender,
    BindingListing.remove_of_not_contains hreceiver]

theorem Represents.unbind_bind (h : t.Represents s) (hb : b ∉ s) :
    ((t.bind b).1.unbind b).1 = t := by
  obtain ⟨hsender, hreceiver⟩ := h.contains_eq_false hb
  rw [unbind_fst, bind_fst, BindingListing.remove_insert h.senders_filled hsender,
    BindingListing.remove_insert h.receivers_filled hreceiver]

end BindingTable

/-- The binding that a command puts into a table or takes away. -/
def Command.binding {ι : Type} : Command ι → Binding ι
  | .bind b => b
  | .unbind b => b

namespace BindingTable

variable {ι : Type} [DecidableEq ι]

theorem filter_toList_command (t : BindingTable ι) (c : Command ι) :
    (t.command c).1.toList.filter (· ≠ c.binding) = t.toList.filter (· ≠ c.binding) := by
  rw [toList, toList, List.filter_map, List.filter_map]
  refine congrArg (List.map _) ?_
  cases c with
  | bind b => exact BindingListing.filter_toList_insert (decide_eq_false (not_not.mpr rfl))
  | unbind b => exact BindingListing.filter_toList_remove (decide_eq_false (not_not.mpr rfl))

theorem filter_mirrored_command (t : BindingTable ι) (c : Command ι) :
    (t.command c).1.mirrored.filter (· ≠ c.binding) = t.mirrored.filter (· ≠ c.binding) := by
  rw [mirrored, mirrored, List.filter_map, List.filter_map]
  refine congrArg (List.map _) ?_
  cases c with
  | bind b => exact BindingListing.filter_toList_insert (decide_eq_false (not_not.mpr rfl))
  | unbind b => exact BindingListing.filter_toList_remove (decide_eq_false (not_not.mpr rfl))

/-- In a table that commands made from the empty one, a new binding that is taken away again leaves
nothing behind, and neither binding what is bound nor taking away what is not changes anything.
Every command leaves the other bindings in their order: in the table, among those of a sender and
among those of a receiver. -/
theorem run_keeps_order (cs : List (Command ι)) :
    let t := (empty.run cs).1
    (∀ b ∉ t.toList, ((t.bind b).1.unbind b).1 = t ∧ (t.unbind b).1 = t) ∧
      (∀ b ∈ t.toList, (t.bind b).1 = t) ∧
      ∀ c : Command ι, let t' := (t.command c).1
        t'.toList.filter (· ≠ c.binding) = t.toList.filter (· ≠ c.binding) ∧
        (∀ x, (t'.bindingsFrom x).filter (· ≠ c.binding) =
          (t.bindingsFrom x).filter (· ≠ c.binding)) ∧
        ∀ x, (t'.bindingsTo x).filter (· ≠ c.binding) =
          (t.bindingsTo x).filter (· ≠ c.binding) := by
  intro t
  have h : t.Represents _ := (represents_empty.run cs).1
  refine ⟨fun b hb => ?_, fun b hb => h.bind_of_mem ((h.mem_toList b).mp hb), fun c => ?_⟩
  · have hfree := mt (h.mem_toList b).mpr hb
    exact ⟨h.unbind_bind hfree, h.unbind_of_not_mem hfree⟩
  · refine ⟨filter_toList_command t c, fun x => ?_, fun x => ?_⟩
    · rw [bindingsFrom_eq, bindingsFrom_eq, List.filter_comm, filter_toList_command,
        List.filter_comm]
    · rw [bindingsTo_eq, bindingsTo_eq, List.filter_comm, filter_mirrored_command,
        List.filter_comm]

/-- Two bindings of one sender, of which the first is taken away, beside a third. -/
def rebound : List (Command String) :=
  [.bind ⟨"clock", "tick", "lamp", "blink"⟩, .bind ⟨"clock", "tick", "horn", "sound"⟩,
    .bind ⟨"button", "press", "horn", "sound"⟩, .unbind ⟨"clock", "tick", "lamp", "blink"⟩]

theorem run_keeps_order_rebound :
    let t := (empty.run rebound).1
    let lamp : Binding String := ⟨"clock", "tick", "lamp", "blink"⟩
    let horn : Binding String := ⟨"clock", "tick", "horn", "sound"⟩
    lamp ∉ t.toList ∧ ((t.bind lamp).1.unbind lamp).1 = t ∧ (t.unbind lamp).1 = t ∧
      horn ∈ t.toList ∧ (t.bind horn).1 = t ∧
      ((t.bind lamp).1.bindingsFrom "clock").filter (· ≠ lamp) =
        (t.bindingsFrom "clock").filter (· ≠ lamp) := by
  intro t lamp horn
  have hlamp : lamp ∉ t.toList := by decide
  have hhorn : horn ∈ t.toList := by decide
  obtain ⟨hnew, hbound, hothers⟩ := run_keeps_order rebound
  exact ⟨hlamp, (hnew lamp hlamp).1, (hnew lamp hlamp).2, hhorn, hbound horn hhorn,
    (hothers (.bind lamp)).2.1 "clock"⟩

end BindingTable

end Ecoa
