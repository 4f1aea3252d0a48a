import Mathlib.Data.List.Chain
import Mathlib.Data.List.Nodup
import Ecoa.Proofs.Type.Lookup
import Ecoa.Proofs.TypeOrder.Visit

/-!
# Reported cycles

A visit stands at the end of a path: each position on it needs the next one, and the last needs the
position that is visited. All other positions are free. When the visited position is not free, it
stands on the path, which from there on is a cycle. A run that fails reports such a cycle, or a
reference that means nothing.
-/

namespace Ecoa.TypeOrder

open Relation (TransGen)

/-- Each position needs the next one and the last needs the first; none comes twice. -/
structure IsCycle (s : TypeOrder) (first : Nat) (inner : List Nat) : Prop where
  nodup : (first :: inner).Nodup
  chain : (first :: inner ++ [first]).IsChain s.Needs

/-- The positions that are not free make a path of needs to `i`. -/
structure IsPathTo (s : TypeOrder) (free path : List Nat) (i : Nat) : Prop where
  lt : i < s.decls.length
  perm : (path ++ free).Perm (List.range s.decls.length)
  chain : (path ++ [i]).IsChain s.Needs

/-- What a run can report: a reference that means nothing, or a cycle by its names. -/
def Reports (s : TypeOrder) (e : ModelError) : Prop :=
  (∃ d ∈ s.decls, ∃ ref ∈ d.references, (∀ t, ¬ s.Means d ref t) ∧
    e = .unresolvedType ref.name (s.context d)) ∨
    ∃ first inner, s.IsCycle first inner ∧
      e = .cyclicTypeDependency s.library ((first :: inner ++ [first]).map s.nameAt)

/-- A declaration of the first name refers to the second one in the library. -/
def RefersTo (s : TypeOrder) (name name' : String) : Prop :=
  ∃ d ∈ s.decls, d.name = name ∧ ∃ ref ∈ d.references, s.Means d ref ⟨s.library, name'⟩

variable {s : TypeOrder} {free path inner : List Nat} {i j first : Nat} {d : TypeDecl}

/-! ## Paths and cycles -/

/-- A run starts with an empty path. -/
theorem isPathTo_range (hi : i < s.decls.length) :
    s.IsPathTo (List.range s.decls.length) [] i where
  lt := hi
  perm := .refl _
  chain := .singleton i

/-- The path gets longer by the visited position, which is no longer free. -/
theorem IsPathTo.step (h : s.IsPathTo free path i) (hi : i ∈ free) (hn : s.Needs i j)
    (hj : j < s.decls.length) : s.IsPathTo (free.erase i) (path ++ [i]) j where
  lt := hj
  perm := by
    rw [List.append_assoc, List.singleton_append]
    exact ((List.perm_cons_erase hi).symm.append_left path).trans h.perm
  chain := h.chain.append (.singleton j) (by simpa using hn)

/-- From a position that is not free, the path is a cycle. -/
theorem IsPathTo.isCycle (h : s.IsPathTo free path i) (hi : i ∉ free) :
    ∃ inner, path.dropWhile (· ≠ i) = i :: inner ∧ s.IsCycle i inner := by
  have hmem : i ∈ path := by
    have hall : i ∈ path ++ free := h.perm.mem_iff.mpr (List.mem_range.mpr h.lt)
    exact (List.mem_append.mp hall).resolve_right hi
  have hnodup : path.Nodup := (List.nodup_append.mp (h.perm.nodup_iff.mpr List.nodup_range)).1
  obtain ⟨before, inner, rfl⟩ := List.append_of_mem hmem
  obtain ⟨-, hinner, hapart⟩ := List.nodup_append.mp hnodup
  have hdrop : (before ++ i :: inner).dropWhile (· ≠ i) = i :: inner := by
    have hbefore : ∀ k ∈ before, k ≠ i := fun k hk => hapart k hk i List.mem_cons_self
    rw [List.dropWhile_append_of_pos (by simpa using hbefore)]
    simp
  have hchain := h.chain
  rw [List.append_assoc] at hchain
  exact ⟨inner, hdrop, hinner, hchain.right_of_append⟩

/-- A position on a cycle needs itself. -/
theorem IsCycle.transGen (h : s.IsCycle first inner) : TransGen s.Needs first first := by
  obtain ⟨next, rest, hsplit⟩ := List.exists_cons_of_ne_nil (List.concat_ne_nil first inner)
  have hchain := h.chain
  rw [List.cons_append, hsplit, List.isChain_cons_cons] at hchain
  have hlast : (next :: rest).getLast (List.cons_ne_nil next rest) = first := by simp [← hsplit]
  exact .head' hchain.1 (List.relationReflTransGen_of_exists_isChain_cons rest hchain.2 hlast)

/-! ## Runs that fail -/

theorem target_error {ref : TypeReference} {e : ModelError} (h : s.target d ref = .error e) :
    (∀ t, ¬ s.Means d ref t) ∧ e = .unresolvedType ref.name (s.context d) := by
  rcases bind_error_iff.mp h with hresolve | ⟨t, -, ht⟩
  · have hmeans : ∀ t, ¬ s.Means d ref t := fun t ht => by cases hresolve.symm.trans ht
    exact ⟨hmeans, TypeRegistry.eq_unresolvedType_of_resolveFrom hresolve⟩
  · cases ht

/-- A visit fails at one of the references, at what one leads to, or where the path is closed. -/
theorem visit_error {free path placed : List Nat} {i : Nat} {e : ModelError}
    (hpath : s.IsPathTo free path i) (h : s.visit free path i placed = .error e) :
    s.Reports e := by
  have hi := hpath.lt
  have hd : s.decls[i]? = some s.decls[i] := List.getElem?_eq_getElem hi
  obtain ⟨-, ⟨hfree, hrefs⟩ | ⟨hfree, rfl⟩⟩ := (visit_error_iff hd).mp h
  · obtain ⟨ref, href, now, hstep⟩ := exists_of_foldlM_error hrefs
    rcases visitReference_error_iff.mp hstep with htarget | ⟨j, htarget, hvisit⟩
    · exact .inl ⟨_, List.getElem_mem hi, ref, href, target_error htarget⟩
    · have hneeds : s.Needs i j := (needs_iff_target hd).mpr ⟨ref, href, htarget⟩
      exact visit_error (hpath.step hfree hneeds (lt_of_target htarget)) hvisit
  · obtain ⟨inner, hdrop, hcycle⟩ := hpath.isCycle hfree
    exact .inr ⟨i, inner, hcycle, by rw [cycle, hdrop]⟩
termination_by free.length
decreasing_by exact length_erase_lt ‹i ∈ free›

theorem positions_error {e : ModelError} (h : s.positions = .error e) : s.Reports e := by
  obtain ⟨i, hi, placed, hvisit⟩ := exists_of_foldlM_error h
  exact visit_error (isPathTo_range (List.mem_range.mp hi)) hvisit

/-! ## Cycles by their names -/

theorem nameAt_eq (hd : s.decls[i]? = some d) : s.nameAt i = d.name := by
  rw [nameAt, hd, Option.map_some, Option.getD_some]

theorem Needs.refersTo (h : s.Needs i j) : s.RefersTo (s.nameAt i) (s.nameAt j) := by
  obtain ⟨d, hd, ref, href, t, ht, hlibrary, ⟨e, he, hname⟩, -⟩ := h
  have hsame : t = ⟨s.library, s.nameAt j⟩ := by rw [nameAt_eq he, hname, ← hlibrary]
  refine ⟨d, List.mem_of_getElem? hd, (nameAt_eq hd).symm, ref, href, ?_⟩
  rw [← hsame]
  exact ht

/-- The positions of a cycle exist. -/
theorem IsCycle.lt (h : s.IsCycle first inner) (hi : i ∈ first :: inner) : i < s.decls.length := by
  have hnext := List.isChain_cons_append_singleton_iff_forall₂.mp h.chain
  obtain ⟨j, -, hn⟩ := exists_rel_of_mem hnext.flip hi
  exact Needs.lt_left hn

theorem IsCycle.nodup_names (h : s.IsCycle first inner) (hnames : (s.decls.map (·.name)).Nodup) :
    ((first :: inner).map s.nameAt).Nodup := by
  refine h.nodup.map_on fun i hi j hj hname => ?_
  have hdi := List.getElem?_eq_getElem (h.lt hi)
  have hdj := List.getElem?_eq_getElem (h.lt hj)
  rw [nameAt_eq hdi, nameAt_eq hdj] at hname
  exact eq_of_name_eq hnames hdi hdj hname

/-- Of declarations with distinct names, a cycle is reported as it is: by the names of declarations
each of which refers to the next one; the last is the first again, and no other comes twice. -/
theorem sort_error_cycle {r : TypeRegistry} {library place : String} {decls : List TypeDecl}
    {chain : List String} (hnames : (decls.map (·.name)).Nodup)
    (h : (TypeOrder.new r library decls).sort = .error (.cyclicTypeDependency place chain)) :
    place = normalizeLibrary library ∧ ∃ first inner, chain = first :: inner ++ [first] ∧
      (first :: inner).Nodup ∧ chain.IsChain (TypeOrder.new r library decls).RefersTo := by
  rcases positions_error (map_error_iff.mp h) with ⟨_, -, _, -, -, he⟩ | ⟨first, inner, hcycle, he⟩
  · cases he
  · cases he
    refine ⟨rfl, _, inner.map _, ?_, hcycle.nodup_names hnames, ?_⟩
    · rw [List.map_append, List.map_cons, List.map_singleton]
    · exact List.isChain_map_of_isChain _ (fun _ _ hn => hn.refersTo) hcycle.chain

/-- A library whose constants `Max` and `Limit` refer to each other, in two spellings. -/
def loopedTypes : List TypeDecl :=
  [.record "Track" [⟨"points", "Points"⟩], .array "Points" "int32" "%geo:Max%",
    .constant "Max" "int32" "%Limit%", .constant "Limit" "int32" " %geo:Max% "]

def loopedRegistry : TypeRegistry := (TypeRegistry.empty.register "geo" loopedTypes).1

/-- The path to the cycle is not reported. -/
theorem sort_error_cycle_loopedTypes :
    (loopedTypes.map (·.name)).Nodup ∧
    (TypeOrder.new loopedRegistry "geo" loopedTypes).sort =
      .error (.cyclicTypeDependency "geo" ["Max", "Limit", "Max"]) ∧
    ∃ first inner, ["Max", "Limit", "Max"] = first :: inner ++ [first] ∧ (first :: inner).Nodup ∧
      ["Max", "Limit", "Max"].IsChain (TypeOrder.new loopedRegistry "geo" loopedTypes).RefersTo := by
  have hnames : (loopedTypes.map (·.name)).Nodup := by decide
  have hsort : (TypeOrder.new loopedRegistry "geo" loopedTypes).sort =
      .error (.cyclicTypeDependency "geo" ["Max", "Limit", "Max"]) :=
    map_error_iff.mpr (by decide +kernel)
  exact ⟨hnames, hsort, (sort_error_cycle hnames hsort).2⟩

end Ecoa.TypeOrder
