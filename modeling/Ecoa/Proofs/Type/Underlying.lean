import Mathlib.Data.Finset.Card
import Ecoa.Proofs.Type.Lookup

/-!
# Chains of constants

A declared constant links to the type with which it is declared, as its own library reads the name
of that type; `chain k t` is the type that `t` reaches by `k` links. A chain ends at a type that is
no declared constant, or at a constant whose type means nothing. A chain with more links than there
are declared types comes to one of them twice, and from there on it repeats itself: it has no end.
So the bound of `underlying` cuts off no chain that ends.
-/

namespace Ecoa.TypeRegistry

/-- The type with which a constant is declared, as it is written. -/
def constantType? (r : TypeRegistry) (t : TypeName) : Option String :=
  match r.declaration? t with
  | some (.constant _ type _) => some type
  | _ => none

/-- The type to which a declared constant links. -/
def next? (r : TypeRegistry) (t : TypeName) : Option TypeName :=
  (r.constantType? t).bind fun type => (r.resolveFrom type t.library "").toOption

/-- The type that is reached by so many links. -/
def chain (r : TypeRegistry) : Nat → TypeName → Option TypeName
  | 0, t => some t
  | k + 1, t => (r.next? t).bind (r.chain k)

/-- What is reported of a type at which a chain ends. -/
def report (r : TypeRegistry) (context : String) (t : TypeName) : Except ModelError TypeName :=
  match r.constantType? t with
  | none => .ok t
  | some type => .error (.unresolvedType type context)

variable {r : TypeRegistry} {t u v start : TypeName} {context type : String} {i j k steps : Nat}

/-! ## Links -/

theorem next?_eq_some_iff : r.next? t = some u ↔
    ∃ type, r.constantType? t = some type ∧ r.resolveFrom type t.library context = .ok u := by
  have hoption : ∀ x : Except ModelError TypeName, x.toOption = some u ↔ x = .ok u := by
    intro x
    cases x <;> simp [Except.toOption]
  simp only [next?, Option.bind_eq_some_iff, hoption]
  exact exists_congr fun type => and_congr_right fun _ => resolveFrom_ok_iff

theorem next?_eq_none_iff (htype : r.constantType? t = some type) :
    r.next? t = none ↔ ∀ u, r.resolveFrom type t.library context ≠ .ok u := by
  rw [Option.eq_none_iff_forall_ne_some]
  refine forall_congr' fun u => not_congr ?_
  rw [next?_eq_some_iff]
  exact ⟨fun ⟨type', h, hu⟩ => Option.some.inj (h.symm.trans htype) ▸ hu, fun hu => ⟨type, htype, hu⟩⟩

/-- Only declared constants have links. -/
theorem next?_eq_none_of_constantType? (h : r.constantType? t = none) : r.next? t = none := by
  rw [next?, h, Option.bind_none]

theorem constantType?_isSome_of_next? (h : (r.next? t).isSome) : (r.constantType? t).isSome :=
  Option.isSome_of_isSome_bind h

theorem mem_names_of_next? (h : (r.next? t).isSome) : t ∈ r.names := by
  have hconstant := constantType?_isSome_of_next? h
  unfold constantType? at hconstant
  split at hconstant
  · next hd => exact mem_names_of_declaration? hd
  · cases hconstant

theorem chain_add (j k : Nat) (t : TypeName) :
    r.chain (j + k) t = (r.chain j t).bind (r.chain k) := by
  induction j generalizing t with
  | zero => rw [Nat.zero_add, chain, Option.bind_some]
  | succ j ih =>
    rw [Nat.succ_add_eq_add_succ, Nat.add_succ, chain, chain, Option.bind_assoc]
    exact congrArg _ (funext ih)

/-- A chain goes on from the type that it has reached. -/
theorem chain_succ (k : Nat) (t : TypeName) : r.chain (k + 1) t = (r.chain k t).bind r.next? := by
  have hone : r.chain 1 = r.next? := funext fun t => Option.bind_fun_some (r.next? t)
  rw [chain_add, hone]

theorem chain_isSome_of_le (hle : j ≤ k) (h : (r.chain k t).isSome) : (r.chain j t).isSome := by
  obtain ⟨m, rfl⟩ := Nat.exists_eq_add_of_le hle
  rw [chain_add] at h
  exact Option.isSome_of_isSome_bind h

/-- A chain that goes on stands at a type with a link. -/
theorem next?_isSome_of_chain (hu : r.chain k t = some u) (h : (r.chain (k + 1) t).isSome) :
    (r.next? u).isSome := by
  rwa [chain_succ, hu, Option.bind_some] at h

/-- Either a chain ends, or it has any number of links. -/
theorem chain_ends_or_endless (r : TypeRegistry) (t : TypeName) :
    (∃ k u, r.chain k t = some u ∧ r.next? u = none) ∨ ∀ k, (r.chain k t).isSome := by
  refine Classical.or_iff_not_imp_left.mpr fun hends k => ?_
  induction k with
  | zero => rfl
  | succ k ih =>
    obtain ⟨u, hu⟩ := Option.isSome_iff_exists.mp ih
    rw [chain_succ, hu, Option.bind_some, Option.isSome_iff_ne_none]
    exact fun hnone => hends ⟨k, u, hu, hnone⟩

/-! ## Why the bound is large enough -/

/-- A chain that comes to a type again repeats itself. -/
theorem chain_periodic (h : r.chain i t = r.chain j t) (hij : i ≤ j) (hik : i ≤ k) :
    r.chain (k + (j - i)) t = r.chain k t := by
  obtain ⟨m, rfl⟩ := Nat.exists_eq_add_of_le hik
  have hsum : i + m + (j - i) = j + m := by omega
  rw [hsum, chain_add, ← h, ← chain_add]

/-- More links than there are declared types lead to one of them twice. -/
theorem exists_chain_eq_of_long (h : (r.chain (r.size + 1) t).isSome) :
    ∃ i j, i < j ∧ j ≤ r.size ∧ r.chain i t = r.chain j t := by
  have hmaps : Set.MapsTo (r.chain · t) (Finset.range (r.size + 1) : Set Nat)
      ((r.names.map some).toFinset : Set (Option TypeName)) := by
    intro j hj
    have hle : j + 1 ≤ r.size + 1 := Finset.mem_range.mp hj
    obtain ⟨u, hu⟩ := Option.isSome_iff_exists.mp (chain_isSome_of_le (Nat.le_of_succ_le hle) h)
    have hmem := mem_names_of_next? (next?_isSome_of_chain hu (chain_isSome_of_le hle h))
    simpa [hu] using hmem
  have hcard : (r.names.map some).toFinset.card < (Finset.range (r.size + 1)).card := by
    have hle := (r.names.map some).toFinset_card_le
    rw [List.length_map, length_names] at hle
    rw [Finset.card_range]
    omega
  obtain ⟨i, hi, j, hj, hne, heq⟩ := Finset.exists_ne_map_eq_of_card_lt_of_maps_to hcard hmaps
  rw [Finset.mem_range, Nat.lt_succ_iff] at hi hj
  rcases Nat.lt_or_gt_of_ne hne with hlt | hgt
  · exact ⟨i, j, hlt, hj, heq⟩
  · exact ⟨j, i, hgt, hi, heq.symm⟩

/-- A chain with more links than there are declared types has no end. -/
theorem chain_isSome_of_long (h : (r.chain (r.size + 1) t).isSome) (k : Nat) :
    (r.chain k t).isSome := by
  obtain ⟨i, j, hij, hj, heq⟩ := exists_chain_eq_of_long h
  induction k using Nat.strongRecOn with
  | ind k ih =>
    by_cases hk : k ≤ j
    · exact chain_isSome_of_le (by omega) h
    · -- one period earlier, the chain is where it is now
      have hback : k = k - (j - i) + (j - i) := by omega
      rw [hback, chain_periodic heq hij.le (by omega)]
      exact ih _ (by omega)

/-- A chain that ends has at most as many links as there are declared types. -/
theorem le_size_of_chain_end (hu : r.chain k t = some u) (hend : r.next? u = none) :
    k ≤ r.size := by
  refine Nat.le_of_not_lt fun hlt => ?_
  have hlong := chain_isSome_of_le hlt (Option.isSome_of_eq_some hu)
  have hnext := next?_isSome_of_chain hu (chain_isSome_of_long hlong (k + 1))
  rw [hend] at hnext
  cases hnext

/-! ## Following a chain -/

theorem follow_succ : r.follow start context (steps + 1) t =
    match r.constantType? t with
    | some type => r.resolveFrom type t.library context >>= r.follow start context steps
    | none => .ok t := by
  rw [follow, constantType?]
  cases r.declaration? t with
  | none => rfl
  | some d => cases d <;> rfl

theorem follow_of_next? (h : r.next? t = some u) :
    r.follow start context (steps + 1) t = r.follow start context steps u := by
  obtain ⟨type, htype, hu⟩ := next?_eq_some_iff.mp h
  rw [follow_succ, htype]
  dsimp only
  rw [hu]
  rfl

/-- At its end, a chain is reported. -/
theorem follow_of_next?_eq_none (h : r.next? t = none) :
    r.follow start context (steps + 1) t = r.report context t := by
  rw [follow_succ, report]
  cases htype : r.constantType? t with
  | none => rfl
  | some type =>
    dsimp only
    cases hu : r.resolveFrom type t.library context with
    | ok u => exact absurd hu ((next?_eq_none_iff htype).mp h u)
    | error e =>
      rw [eq_unresolvedType_of_resolveFrom hu]
      rfl

/-- With more steps than links, following a chain reports its end. -/
theorem follow_of_end (hu : r.chain k t = some u) (hend : r.next? u = none) (hk : k < steps) :
    r.follow start context steps t = r.report context u := by
  induction steps generalizing k t with
  | zero => exact absurd hk (Nat.not_lt_zero k)
  | succ steps ih =>
    cases k with
    | zero =>
      cases hu
      exact follow_of_next?_eq_none hend
    | succ k =>
      obtain ⟨v, hv, hchain⟩ := Option.bind_eq_some_iff.mp hu
      rw [follow_of_next? hv]
      exact ih hchain (Nat.lt_of_succ_lt_succ hk)

/-- With no more steps than links, following a chain reports a cycle. -/
theorem follow_of_chain (hu : r.chain steps t = some u) : r.follow start context steps t =
    .error (.cyclicTypeDependency start.library [start.name, u.name]) := by
  induction steps generalizing t with
  | zero =>
    cases hu
    rfl
  | succ steps ih =>
    obtain ⟨v, hv, hchain⟩ := Option.bind_eq_some_iff.mp hu
    rw [follow_of_next? hv, ih hchain]

theorem underlying_of_end (hu : r.chain k t = some u) (hend : r.next? u = none) :
    r.underlying t context = r.report context u :=
  follow_of_end hu hend (Nat.lt_succ_of_le (le_size_of_chain_end hu hend))

theorem underlying_of_endless (h : ∀ k, (r.chain k t).isSome) : ∃ u : TypeName,
    r.underlying t context = .error (.cyclicTypeDependency t.library [t.name, u.name]) := by
  obtain ⟨u, hu⟩ := Option.isSome_iff_exists.mp (h (r.size + 1))
  exact ⟨u, follow_of_chain hu⟩

/-- What is reported of a type is the report of the end of its chain, or a cycle. -/
theorem underlying_cases (r : TypeRegistry) (t : TypeName) (context : String) :
    (∃ k u, r.chain k t = some u ∧ r.next? u = none ∧
      r.underlying t context = r.report context u) ∨
    ((∀ k, (r.chain k t).isSome) ∧ ∃ u : TypeName, r.underlying t context =
      .error (.cyclicTypeDependency t.library [t.name, u.name])) := by
  rcases chain_ends_or_endless r t with ⟨k, u, hu, hend⟩ | hall
  · exact .inl ⟨k, u, hu, hend, underlying_of_end hu hend⟩
  · exact .inr ⟨hall, underlying_of_endless hall⟩

/-! ## What stands behind a type -/

theorem report_eq_ok_iff : r.report context t = .ok u ↔ t = u ∧ r.constantType? t = none := by
  rw [report]
  cases r.constantType? t <;> simp

theorem report_eq_error_iff {e : ModelError} : r.report context t = .error e ↔
    ∃ type, r.constantType? t = some type ∧ e = .unresolvedType type context := by
  rw [report]
  cases r.constantType? t <;> simp [eq_comm]

theorem underlying_eq_ok_iff : r.underlying t context = .ok u ↔
    ∃ k, r.chain k t = some u ∧ r.constantType? u = none := by
  constructor
  · intro h
    obtain ⟨k, v, hv, -, hreport⟩ | ⟨-, v, hcycle⟩ := underlying_cases r t context
    · obtain ⟨rfl, hconstant⟩ := report_eq_ok_iff.mp (hreport.symm.trans h)
      exact ⟨k, hv, hconstant⟩
    · cases hcycle.symm.trans h
  · rintro ⟨k, hu, hconstant⟩
    rw [underlying_of_end hu (next?_eq_none_of_constantType? hconstant)]
    exact report_eq_ok_iff.mpr ⟨rfl, hconstant⟩

theorem underlying_eq_unresolvedType_iff {place : String} :
    r.underlying t context = .error (.unresolvedType type place) ↔ place = context ∧
      ∃ k u, r.chain k t = some u ∧ r.constantType? u = some type ∧
        ∀ v, r.resolveFrom type u.library context ≠ .ok v := by
  constructor
  · intro h
    obtain ⟨k, u, hu, hend, hreport⟩ | ⟨-, u, hcycle⟩ := underlying_cases r t context
    · obtain ⟨type', htype, he⟩ := report_eq_error_iff.mp (hreport.symm.trans h)
      cases he
      exact ⟨rfl, k, u, hu, htype, (next?_eq_none_iff htype).mp hend⟩
    · cases hcycle.symm.trans h
  · rintro ⟨rfl, k, u, hu, htype, hmeans⟩
    rw [underlying_of_end hu ((next?_eq_none_iff htype).mpr hmeans)]
    exact report_eq_error_iff.mpr ⟨type, htype, rfl⟩

theorem underlying_eq_cycle_iff :
    (∃ library names, r.underlying t context = .error (.cyclicTypeDependency library names)) ↔
      ∀ k, ∃ u, r.chain k t = some u ∧ (r.constantType? u).isSome := by
  constructor
  · rintro ⟨library, names, h⟩ k
    obtain ⟨_, _, -, -, hreport⟩ | ⟨hall, -⟩ := underlying_cases r t context
    · obtain ⟨_, -, he⟩ := report_eq_error_iff.mp (hreport.symm.trans h)
      cases he
    · obtain ⟨u, hu⟩ := Option.isSome_iff_exists.mp (hall k)
      exact ⟨u, hu, constantType?_isSome_of_next? (next?_isSome_of_chain hu (hall (k + 1)))⟩
  · intro h
    have hall : ∀ k, (r.chain k t).isSome := fun k =>
      have ⟨_, hu, _⟩ := h k
      Option.isSome_of_eq_some hu
    obtain ⟨u, hcycle⟩ := underlying_of_endless hall
    exact ⟨t.library, [t.name, u.name], hcycle⟩

/-- Behind a type stands the one that its chain reaches and that is no declared constant. There is
none when the chain reaches a constant whose type means nothing, which is reported as it is written,
and when the chain never leaves the declared constants, which is reported as a cycle. A chain that
ends has at most as many links as there are declared types, and more steps would not change what is
reported. -/
theorem underlying_chain (r : TypeRegistry) (t : TypeName) (context : String) :
    (∀ u, r.underlying t context = .ok u ↔
      ∃ k, r.chain k t = some u ∧ r.constantType? u = none) ∧
    (∀ type place, r.underlying t context = .error (.unresolvedType type place) ↔
      place = context ∧ ∃ k u, r.chain k t = some u ∧ r.constantType? u = some type ∧
        ∀ v, r.resolveFrom type u.library context ≠ .ok v) ∧
    ((∃ library names, r.underlying t context = .error (.cyclicTypeDependency library names)) ↔
      ∀ k, ∃ u, r.chain k t = some u ∧ (r.constantType? u).isSome) ∧
    ∀ k u, r.chain k t = some u → r.next? u = none →
      k ≤ r.size ∧ ∀ steps, k < steps → r.follow t context steps t = r.underlying t context := by
  refine ⟨fun u => underlying_eq_ok_iff, fun type place => underlying_eq_unresolvedType_iff,
    underlying_eq_cycle_iff, fun k u hu hend => ⟨le_size_of_chain_end hu hend, ?_⟩⟩
  intro steps hsteps
  rw [follow_of_end hu hend hsteps, underlying_of_end hu hend]

/-- A chain through every declaration, of two libraries. -/
example :
    let r : TypeRegistry := ⟨.ofList [
      ("geo", [.constant "A" "nav:B" "1", .constant "C" "ECOA:int32" "3"]),
      ("nav", [.constant "B" "geo:C" "2"])]⟩
    r.chain r.size ⟨"geo", "A"⟩ = some (.standard "int32") ∧
      r.underlying ⟨"geo", "A"⟩ "" = .ok (.standard "int32") := by
  decide +kernel

end Ecoa.TypeRegistry
