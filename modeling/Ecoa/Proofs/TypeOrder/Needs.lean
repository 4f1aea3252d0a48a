import Mathlib.Data.List.Induction
import Mathlib.Logic.Relation
import Ecoa.Proofs.Except
import Ecoa.Type.Order

/-!
# What declarations need

`Needs i j`: the declaration at position `i` refers, inside its library, to a name whose last
declaration is at `j`. `Resolves` says that every reference means a type, and `IsAcyclic` that no
declaration needs itself, directly or through others.
-/

namespace Ecoa.TypeOrder

/-- The declaration at `j` is the last of that name. -/
def IsLastNamed (decls : List TypeDecl) (name : String) (j : Nat) : Prop :=
  (∃ d, decls[j]? = some d ∧ d.name = name) ∧ ∀ k d, j < k → decls[k]? = some d → d.name ≠ name

/-- A reference of `d` means `t`. -/
def Means (s : TypeOrder) (d : TypeDecl) (ref : TypeReference) (t : TypeName) : Prop :=
  s.registry.resolveFrom ref.name s.library (s.context d) = .ok t

def Needs (s : TypeOrder) (i j : Nat) : Prop :=
  ∃ d, s.decls[i]? = some d ∧ ∃ ref ∈ d.references, ∃ t,
    s.Means d ref t ∧ t.library = s.library ∧ IsLastNamed s.decls t.name j

/-- All references of a declaration mean something. -/
def ResolvesAt (s : TypeOrder) (d : TypeDecl) : Prop := ∀ ref ∈ d.references, ∃ t, s.Means d ref t

def Resolves (s : TypeOrder) : Prop := ∀ d ∈ s.decls, s.ResolvesAt d

def IsAcyclic (s : TypeOrder) : Prop := ∀ i, ¬ Relation.TransGen s.Needs i i

theorem isLastNamed_concat {ds : List TypeDecl} {d : TypeDecl} {name : String} {j : Nat} :
    IsLastNamed (ds ++ [d]) name j ↔
      if d.name = name then j = ds.length else IsLastNamed ds name j := by
  have at_end : (ds ++ [d])[ds.length]? = some d := List.getElem?_concat_length
  have before : ∀ {k}, k < ds.length → (ds ++ [d])[k]? = ds[k]? := List.getElem?_append_left
  have bound : ∀ {k e}, (ds ++ [d])[k]? = some e → k < ds.length ∨ k = ds.length ∧ e = d := by
    intro k e hk
    rcases Nat.lt_trichotomy k ds.length with hlt | rfl | hgt
    · exact .inl hlt
    · rw [at_end] at hk
      exact .inr ⟨rfl, (Option.some.inj hk).symm⟩
    · rw [List.getElem?_eq_none (by simp; omega)] at hk
      cases hk
  split
  · next hd =>
    constructor
    · rintro ⟨⟨e, hj, he⟩, hlast⟩
      rcases bound hj with hlt | ⟨rfl, -⟩
      · exact absurd hd (hlast _ d hlt at_end)
      · rfl
    · rintro rfl
      refine ⟨⟨d, at_end, hd⟩, fun k e hk hke => ?_⟩
      rcases bound hke with hlt | ⟨rfl, -⟩
      · omega
      · omega
  · next hd =>
    constructor
    · rintro ⟨⟨e, hj, he⟩, hlast⟩
      rcases bound hj with hlt | ⟨-, rfl⟩
      · refine ⟨⟨e, before hlt ▸ hj, he⟩, fun k e' hk hke => ?_⟩
        have hk' : k < ds.length := (List.getElem?_eq_some_iff.mp hke).1
        exact hlast k e' hk ((before hk').trans hke)
      · exact absurd he hd
    · rintro ⟨⟨e, hj, he⟩, hlast⟩
      have hj' : j < ds.length := (List.getElem?_eq_some_iff.mp hj).1
      refine ⟨⟨e, (before hj').trans hj, he⟩, fun k e' hk hke => ?_⟩
      rcases bound hke with hlt | ⟨-, rfl⟩
      · exact hlast k e' hk (before hlt ▸ hke)
      · exact hd

/-- A name is looked up at its last declaration. -/
theorem position?_eq_some_iff {s : TypeOrder} {name : String} {j : Nat} :
    s.position? name = some j ↔ IsLastNamed s.decls name j := by
  rw [position?]
  induction s.decls using List.reverseRecOn with
  | nil => simp [IsLastNamed]
  | append_singleton ds d ih =>
    rw [isLastNamed_concat, List.zipIdx_append, List.reverse_append, List.zipIdx_singleton,
      List.reverse_singleton, List.singleton_append, List.find?_cons]
    by_cases hd : d.name = name
    · simp [hd, eq_comm]
    · simpa [hd] using ih

theorem target_eq_ok_iff {s : TypeOrder} {d : TypeDecl} {ref : TypeReference} {x : Option Nat} :
    s.target d ref = .ok x ↔
      ∃ t, s.Means d ref t ∧ (if t.library = s.library then s.position? t.name else none) = x := by
  rw [target, bind_ok_iff]
  constructor
  · rintro ⟨t, ht, ⟨⟩⟩
    exact ⟨t, ht, rfl⟩
  · rintro ⟨t, ht, rfl⟩
    exact ⟨t, ht, rfl⟩

/-- The positions to which the references of a declaration lead are those that it needs. -/
theorem needs_iff_target {s : TypeOrder} {i j : Nat} {d : TypeDecl} (hd : s.decls[i]? = some d) :
    s.Needs i j ↔ ∃ ref ∈ d.references, s.target d ref = .ok (some j) := by
  constructor
  · rintro ⟨e, he, ref, href, t, ht, hlib, hlast⟩
    obtain rfl : d = e := Option.some.inj (hd.symm.trans he)
    refine ⟨ref, href, target_eq_ok_iff.mpr ⟨t, ht, ?_⟩⟩
    rw [if_pos hlib, position?_eq_some_iff]
    exact hlast
  · rintro ⟨ref, href, h⟩
    obtain ⟨t, ht, hx⟩ := target_eq_ok_iff.mp h
    split at hx
    · next hlib => exact ⟨d, hd, ref, href, t, ht, hlib, position?_eq_some_iff.mp hx⟩
    · cases hx

/-- Where names are distinct, a position is known by the name at it. -/
theorem eq_of_name_eq {decls : List TypeDecl} {i j : Nat} {d e : TypeDecl}
    (hnames : (decls.map (·.name)).Nodup) (hd : decls[i]? = some d) (he : decls[j]? = some e)
    (h : d.name = e.name) : i = j := by
  have hi : i < (decls.map (·.name)).length := by
    rw [List.length_map]
    exact (List.getElem?_eq_some_iff.mp hd).1
  refine (List.getElem?_inj hi hnames).mp ?_
  rw [List.getElem?_map, List.getElem?_map, hd, he, Option.map_some, Option.map_some, h]

theorem Needs.lt_left {s : TypeOrder} {i j : Nat} (h : s.Needs i j) : i < s.decls.length := by
  obtain ⟨d, hd, -⟩ := h
  exact (List.getElem?_eq_some_iff.mp hd).1

end Ecoa.TypeOrder
