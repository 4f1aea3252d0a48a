import Ecoa.Proofs.TypeOrder.Needs

/-!
# Visits of declarations

A visit leaves alone what is placed already. Otherwise it goes through the references of the position
on a path that is longer by this position, and then places it; it fails at one of the references, or
where the position is not free. The proofs about visits are inductions on the number of free
positions, which each visit that goes on makes smaller.
-/

namespace Ecoa.TypeOrder

/-- The next reference of `d`: what it leads to is placed. -/
def visitReference (s : TypeOrder) (free path : List Nat) (d : TypeDecl) (placed : List Nat)
    (ref : TypeReference) : Except ModelError (List Nat) := do
  match ← s.target d ref with
  | some j => s.visit free path j placed
  | none => return placed

variable {s : TypeOrder} {free path placed placed' : List Nat} {i j : Nat} {d : TypeDecl}
  {ref : TypeReference} {e : ModelError}

theorem visitReference_ok_iff :
    s.visitReference free path d placed ref = .ok placed' ↔
      (∃ j, s.target d ref = .ok (some j) ∧ s.visit free path j placed = .ok placed') ∨
        (s.target d ref = .ok none ∧ placed' = placed) := by
  rw [visitReference, bind_ok_iff]
  constructor
  · rintro ⟨x, hx, h⟩
    cases x with
    | none => exact .inr ⟨hx, (Except.ok.inj h).symm⟩
    | some j => exact .inl ⟨j, hx, h⟩
  · rintro (⟨j, hx, h⟩ | ⟨hx, rfl⟩)
    · exact ⟨some j, hx, h⟩
    · exact ⟨none, hx, rfl⟩

theorem visitReference_error_iff :
    s.visitReference free path d placed ref = .error e ↔
      s.target d ref = .error e ∨
        ∃ j, s.target d ref = .ok (some j) ∧ s.visit free path j placed = .error e := by
  rw [visitReference, bind_error_iff]
  refine or_congr_right ⟨?_, fun ⟨j, hx, h⟩ => ⟨some j, hx, h⟩⟩
  rintro ⟨x, hx, h⟩
  cases x with
  | none => cases h
  | some j => exact ⟨j, hx, h⟩

theorem lt_of_target (h : s.target d ref = .ok (some j)) : j < s.decls.length := by
  obtain ⟨t, -, hx⟩ := target_eq_ok_iff.mp h
  split at hx
  · obtain ⟨⟨e, he, -⟩, -⟩ := position?_eq_some_iff.mp hx
    exact (List.getElem?_eq_some_iff.mp he).1
  · cases hx

theorem visit_eq (hd : s.decls[i]? = some d) : s.visit free path i placed =
    if i ∈ placed then .ok placed
    else if i ∈ free then
      d.references.foldlM (s.visitReference (free.erase i) (path ++ [i]) d) placed >>=
        fun before => .ok (before ++ [i])
    else .error (s.cycle path i) := by
  rw [visit, hd]
  rfl

theorem visit_ok_iff (hd : s.decls[i]? = some d) : s.visit free path i placed = .ok placed' ↔
    (i ∈ placed ∧ placed = placed') ∨
      (i ∉ placed ∧ i ∈ free ∧ ∃ before, before ++ [i] = placed' ∧
        d.references.foldlM (s.visitReference (free.erase i) (path ++ [i]) d) placed =
          .ok before) := by
  rw [visit_eq hd]
  by_cases hp : i ∈ placed
  · simp [hp]
  · by_cases hf : i ∈ free
    · simp [hp, hf, bind_ok_iff, and_comm]
    · simp [hp, hf]

theorem visit_error_iff (hd : s.decls[i]? = some d) : s.visit free path i placed = .error e ↔
    i ∉ placed ∧
      ((i ∈ free ∧
        d.references.foldlM (s.visitReference (free.erase i) (path ++ [i]) d) placed = .error e) ∨
      (i ∉ free ∧ s.cycle path i = e)) := by
  rw [visit_eq hd]
  by_cases hp : i ∈ placed
  · simp [hp]
  · by_cases hf : i ∈ free
    · simp [hp, hf, bind_error_iff]
    · simp [hp, hf]

/-- A visit that goes on has one position less that is free. -/
theorem length_erase_lt (h : i ∈ free) : (free.erase i).length < free.length := by
  have := List.length_pos_of_mem h
  rw [List.length_erase_of_mem h]
  omega

/-- Visit these positions one after the other, all from the end of one path. -/
def visitEach (s : TypeOrder) (free path roots placed : List Nat) :
    Except ModelError (List Nat) :=
  roots.foldlM (fun placed i => s.visit free path i placed) placed

theorem visitEach_cons_ok_iff {rest : List Nat} :
    s.visitEach free path (i :: rest) placed = .ok placed' ↔ ∃ now,
      s.visit free path i placed = .ok now ∧ s.visitEach free path rest now = .ok placed' := by
  rw [visitEach, List.foldlM_cons, bind_ok_iff]
  rfl

/-- Visit these positions one after the other, each on a path of its own. -/
def visitAll (s : TypeOrder) (roots placed : List Nat) : Except ModelError (List Nat) :=
  roots.foldlM (fun placed i => s.visit (List.range s.decls.length) [] i placed) placed

theorem positions_eq_visitAll (s : TypeOrder) :
    s.positions = s.visitAll (List.range s.decls.length) [] := rfl

theorem visitAll_append_ok_iff {first second : List Nat} :
    s.visitAll (first ++ second) placed = .ok placed' ↔
      ∃ between, s.visitAll first placed = .ok between ∧ s.visitAll second between = .ok placed' := by
  rw [visitAll, List.foldlM_append, bind_ok_iff]
  rfl

end Ecoa.TypeOrder
