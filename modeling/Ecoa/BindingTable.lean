import Ecoa.OrderedMap

/-!
# Binding tables

A binding joins a sender under one key to a receiver under another. The table lists the bindings
twice: `bySender` by the sender, its key and the key of the receiver, and `byReceiver` the same from
the other side. A new binding goes to the end of the narrowest group to which it belongs, a binding
that is taken away leaves no empty group, and groups stay in the order in which they began.
-/

namespace Ecoa

structure Binding (ι : Type) where
  sender : ι
  senderKey : String
  receiver : ι
  receiverKey : String
  deriving DecidableEq

theorem Binding.eq_iff {ι : Type} {b c : Binding ι} :
    c = b ↔ c.sender = b.sender ∧ c.senderKey = b.senderKey ∧ c.receiverKey = b.receiverKey ∧
      c.receiver = b.receiver := by
  obtain ⟨s, sk, r, rk⟩ := b
  obtain ⟨s', sk', r', rk'⟩ := c
  rw [Binding.mk.injEq, and_comm (a := r' = r)]

/-- The peers of an entity: by its own key, then by the key of the other side. -/
abbrev Peers (ι : Type) := List (String × List (String × List ι))

namespace Peers

variable {ι : Type}

def count (peers : Peers ι) : Nat :=
  (peers.map fun g => (g.2.map (·.2.length)).foldr (· + ·) 0).foldr (· + ·) 0

end Peers

/-- The bindings of one entity: by its own key, by the key of the other side, the other entities. -/
abbrev BindingGroups (ι : Type) := OrderedMap String (OrderedMap String (OrderedSet ι))

def BindingGroups.peers {ι : Type} (groups : BindingGroups ι) : Peers ι :=
  groups.toList.map fun g => (g.1, g.2.toList.map fun h => (h.1, h.2.keys))

/-- Bindings as seen from one side, whose entities are the owners. -/
structure BindingListing (ι : Type) where
  owners : OrderedMap ι (BindingGroups ι)

namespace BindingListing

variable {ι : Type}

def empty : BindingListing ι := ⟨∅⟩

def isEmpty (l : BindingListing ι) : Bool := l.owners.isEmpty

def size (l : BindingListing ι) : Nat :=
  (l.owners.values.map fun g => g.peers.count).foldr (· + ·) 0

/-- Every owner with its key, the key of the other side and the other entity. -/
def toList (l : BindingListing ι) : List (ι × String × String × ι) :=
  l.owners.toList.flatMap fun o => o.2.toList.flatMap fun g => g.2.toList.flatMap fun h =>
    h.2.keys.map fun peer => (o.1, g.1, h.1, peer)

variable [DecidableEq ι]

def contains (l : BindingListing ι) (owner : ι) (group key : String) (peer : ι) : Bool :=
  (((l.owners.inner owner).inner group).inner key).contains peer

/-- The listing with a binding, and whether it is new. -/
def insert (l : BindingListing ι) (owner : ι) (group key : String) (peer : ι) :
    BindingListing ι × Bool :=
  (⟨l.owners.grow owner fun groups => groups.grow group fun entries =>
      entries.grow key fun peers => peers.insert peer ()⟩,
    !l.contains owner group key peer)

/-- The listing without a binding, and whether it was there. Groups left empty go with it. -/
def remove (l : BindingListing ι) (owner : ι) (group key : String) (peer : ι) :
    BindingListing ι × Bool :=
  if l.contains owner group key peer then
    (⟨l.owners.shrink owner fun groups => groups.shrink group fun entries =>
        entries.shrink key fun peers => peers.erase peer⟩, true)
  else (l, false)

theorem insert_snd (l : BindingListing ι) (o p : ι) (g k : String) :
    (l.insert o g k p).2 = !l.contains o g k p := rfl

theorem remove_snd (l : BindingListing ι) (o p : ι) (g k : String) :
    (l.remove o g k p).2 = l.contains o g k p := by
  rw [remove]
  split
  · next h => exact h.symm
  · next h => exact (Bool.eq_false_iff.mpr h).symm

@[simp] theorem contains_empty (owner : ι) (group key : String) (peer : ι) :
    (empty : BindingListing ι).contains owner group key peer = false := rfl

theorem contains_insert (l : BindingListing ι) {o o' p p' : ι} {g g' k k' : String} :
    (l.insert o g k p).1.contains o' g' k' p' = true ↔
      l.contains o' g' k' p' = true ∨ (o' = o ∧ g' = g ∧ k' = k ∧ p' = p) := by
  simp only [contains, insert, OrderedMap.inner_grow]
  by_cases ho : o' = o
  · subst ho
    simp only [↓reduceIte, OrderedMap.inner_grow, true_and]
    by_cases hg : g' = g
    · subst hg
      simp only [↓reduceIte, OrderedMap.inner_grow, true_and]
      by_cases hk : k' = k
      · subst hk
        simp only [↓reduceIte, OrderedMap.contains_eq_true, OrderedMap.mem_keys_insert, true_and]
      · simp [hk]
    · simp [hg]
  · simp [ho]

theorem contains_remove (l : BindingListing ι) {o o' p p' : ι} {g g' k k' : String} :
    (l.remove o g k p).1.contains o' g' k' p' = true ↔
      l.contains o' g' k' p' = true ∧ ¬ (o' = o ∧ g' = g ∧ k' = k ∧ p' = p) := by
  rw [remove]
  split
  · simp only [contains, OrderedMap.inner_shrink]
    by_cases ho : o' = o
    · subst ho
      simp only [↓reduceIte, OrderedMap.inner_shrink, true_and]
      by_cases hg : g' = g
      · subst hg
        simp only [↓reduceIte, OrderedMap.inner_shrink, true_and]
        by_cases hk : k' = k
        · subst hk
          simp only [↓reduceIte, OrderedMap.contains_eq_true, OrderedMap.mem_keys_erase, true_and,
            ne_eq]
        · simp [hk]
      · simp [hg]
    · simp [ho]
  · next hn =>
    refine ⟨fun h => ⟨h, ?_⟩, And.left⟩
    rintro ⟨rfl, rfl, rfl, rfl⟩
    exact hn h

theorem mem_toList {l : BindingListing ι} {o p : ι} {g k : String} :
    (o, g, k, p) ∈ l.toList ↔ l.contains o g k p = true := by
  have peers_empty : ¬ p ∈ (∅ : OrderedSet ι).keys := by simp
  rw [contains, OrderedMap.contains_eq_true,
    ← OrderedMap.exists_mem_iff_inner (q := fun gs => p ∈ ((gs.inner g).inner k).keys) peers_empty]
  simp only [
    ← OrderedMap.exists_mem_iff_inner (q := fun es => p ∈ (es.inner k).keys) peers_empty,
    ← OrderedMap.exists_mem_iff_inner (q := fun ps => p ∈ ps.keys) peers_empty]
  simp only [toList, OrderedMap.toList, List.mem_flatMap, List.mem_map, Prod.mk.injEq]
  constructor
  · rintro ⟨⟨_, gs⟩, ho, ⟨_, es⟩, hg, ⟨_, ps⟩, hk, _, hp, rfl, rfl, rfl, rfl⟩
    exact ⟨gs, ho, es, hg, ps, hk, hp⟩
  · rintro ⟨gs, ho, es, hg, ps, hk, hp⟩
    exact ⟨(o, gs), ho, (g, es), hg, (k, ps), hk, p, hp, rfl, rfl, rfl, rfl⟩

end BindingListing

structure BindingTable (ι : Type) where
  bySender : BindingListing ι
  byReceiver : BindingListing ι

namespace BindingTable

variable {ι : Type}

def empty : BindingTable ι := ⟨.empty, .empty⟩

def toList (t : BindingTable ι) : List (Binding ι) :=
  t.bySender.toList.map fun e => ⟨e.1, e.2.1, e.2.2.2, e.2.2.1⟩

@[simp] theorem toList_empty : (empty : BindingTable ι).toList = [] := rfl

def size (t : BindingTable ι) : Nat := t.bySender.size

def isEmpty (t : BindingTable ι) : Bool := t.bySender.isEmpty

def senders (t : BindingTable ι) : List ι := t.bySender.owners.keys

variable [DecidableEq ι]

def contains (t : BindingTable ι) (b : Binding ι) : Bool :=
  t.bySender.contains b.sender b.senderKey b.receiverKey b.receiver

/-- The table with a binding, and whether it is new. -/
def bind (t : BindingTable ι) (b : Binding ι) : BindingTable ι × Bool :=
  let (bySender, added) := t.bySender.insert b.sender b.senderKey b.receiverKey b.receiver
  let (byReceiver, _) := t.byReceiver.insert b.receiver b.receiverKey b.senderKey b.sender
  (⟨bySender, byReceiver⟩, added)

/-- The table without a binding, and whether it was there. -/
def unbind (t : BindingTable ι) (b : Binding ι) : BindingTable ι × Bool :=
  let (bySender, removed) := t.bySender.remove b.sender b.senderKey b.receiverKey b.receiver
  let (byReceiver, _) := t.byReceiver.remove b.receiver b.receiverKey b.senderKey b.sender
  (⟨bySender, byReceiver⟩, removed)

/-- Bind one after the other, and count the new ones. -/
def bindAll (t : BindingTable ι) (bs : List (Binding ι)) : BindingTable ι × Nat :=
  bs.foldl (fun s b =>
    let (t, added) := s.1.bind b
    (t, if added then s.2 + 1 else s.2)) (t, 0)

theorem mem_toList {t : BindingTable ι} {b : Binding ι} : b ∈ t.toList ↔ t.contains b = true := by
  rw [contains, ← BindingListing.mem_toList, toList, List.mem_map]
  constructor
  · rintro ⟨⟨o, g, k, p⟩, h, rfl⟩
    exact h
  · intro h
    exact ⟨_, h, rfl⟩

theorem mem_toList_bind (t : BindingTable ι) {b c : Binding ι} :
    c ∈ (t.bind b).1.toList ↔ c ∈ t.toList ∨ c = b := by
  rw [mem_toList, mem_toList]
  exact (BindingListing.contains_insert _).trans (or_congr Iff.rfl Binding.eq_iff.symm)

theorem mem_toList_unbind (t : BindingTable ι) {b c : Binding ι} :
    c ∈ (t.unbind b).1.toList ↔ c ∈ t.toList ∧ c ≠ b := by
  rw [mem_toList, mem_toList]
  exact (BindingListing.contains_remove _).trans
    (and_congr Iff.rfl (not_congr Binding.eq_iff.symm))

theorem mem_toList_bindAll {bs : List (Binding ι)} {t : BindingTable ι} {c : Binding ι} :
    c ∈ (t.bindAll bs).1.toList ↔ c ∈ t.toList ∨ c ∈ bs := by
  have loop : ∀ s : BindingTable ι × Nat, c ∈ (bs.foldl (fun s b =>
      let (t, added) := s.1.bind b
      (t, if added then s.2 + 1 else s.2)) s).1.toList ↔ c ∈ s.1.toList ∨ c ∈ bs := by
    induction bs with
    | nil => simp
    | cons b bs ih =>
      intro s
      rw [List.foldl_cons, ih, mem_toList_bind, List.mem_cons, or_assoc]
  exact loop (t, 0)

/-- The receivers of a sender; `none` when it has no binding. -/
def receiversOf? (t : BindingTable ι) (sender : ι) : Option (Peers ι) :=
  (t.bySender.owners.get? sender).map (·.peers)

/-- The senders of a receiver; `none` when it has no binding. -/
def sendersOf? (t : BindingTable ι) (receiver : ι) : Option (Peers ι) :=
  (t.byReceiver.owners.get? receiver).map (·.peers)

end BindingTable

end Ecoa
