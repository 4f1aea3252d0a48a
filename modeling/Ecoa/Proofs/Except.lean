import Mathlib.Data.List.Forall2

/-!
# Computations that may fail

What the success of a sequence of computations says of its parts.
-/

namespace Ecoa

universe u v w

variable {ε : Type u} {α : Type v} {β : Type v}

theorem bind_ok_iff {x : Except ε α} {f : α → Except ε β} {b : β} :
    x >>= f = .ok b ↔ ∃ a, x = .ok a ∧ f a = .ok b := by
  cases x with
  | error e => exact ⟨nofun, nofun⟩
  | ok a =>
    constructor
    · intro h
      exact ⟨a, rfl, h⟩
    · rintro ⟨_, ⟨⟩, h⟩
      exact h

theorem bind_error_iff {x : Except ε α} {f : α → Except ε β} {e : ε} :
    x >>= f = .error e ↔ x = .error e ∨ ∃ a, x = .ok a ∧ f a = .error e := by
  cases x with
  | error e' => simp [bind, Except.bind]
  | ok a => simp [bind, Except.bind]

theorem map_ok_iff {x : Except ε α} {f : α → β} {b : β} :
    f <$> x = .ok b ↔ ∃ a, x = .ok a ∧ f a = b := by
  cases x with
  | error e => exact ⟨nofun, nofun⟩
  | ok a =>
    constructor
    · intro h
      exact ⟨a, rfl, Except.ok.inj h⟩
    · rintro ⟨_, ⟨⟩, rfl⟩
      rfl

theorem map_error_iff {x : Except ε α} {f : α → β} {e : ε} : f <$> x = .error e ↔ x = .error e := by
  cases x with
  | error e' => exact ⟨fun h => congrArg _ (Except.error.inj h), fun h => h ▸ rfl⟩
  | ok a => exact ⟨nofun, nofun⟩

theorem throw_ne_ok {e : ε} {a : α} : (throw e : Except ε α) ≠ .ok a := nofun

theorem pure_ok_iff {a b : α} : (pure a : Except ε α) = .ok b ↔ a = b := Except.ok.injEq a b ▸ Iff.rfl

/-- What comes after a check is computed when the check succeeds. -/
theorem after_ok_iff {x : Except ε PUnit} {y : Except ε β} {b : β} :
    (x >>= fun _ => y) = .ok b ↔ x = .ok ⟨⟩ ∧ y = .ok b := by
  rw [bind_ok_iff, exists_and_right]
  exact and_congr_left fun _ => ⟨fun ⟨_, h⟩ => h, fun h => ⟨⟨⟩, h⟩⟩

/-- A check of a list succeeds when that of each element does. -/
theorem forM_ok_iff {γ : Type w} {f : γ → Except ε PUnit} {xs : List γ} {u : PUnit} :
    xs.forM f = .ok u ↔ ∀ x ∈ xs, f x = .ok ⟨⟩ := by
  induction xs with
  | nil => exact iff_of_true rfl nofun
  | cons x xs ih =>
    change (f x >>= fun _ => xs.forM f) = _ ↔ _
    rw [after_ok_iff, List.forall_mem_cons, ih]

/-- A mapped list succeeds when each element does, with the results in order. -/
theorem mapM_ok_iff {γ : Type w} {f : γ → Except ε β} {xs : List γ} {ys : List β} :
    xs.mapM f = .ok ys ↔ List.Forall₂ (fun x y => f x = .ok y) xs ys := by
  induction xs generalizing ys with
  | nil =>
    rw [List.mapM_nil, List.forall₂_nil_left_iff]
    exact ⟨fun h => (Except.ok.inj h).symm, fun h => h ▸ rfl⟩
  | cons x xs ih =>
    rw [List.mapM_cons, bind_ok_iff, List.forall₂_cons_left_iff]
    simp only [bind_ok_iff, ih]
    constructor
    · rintro ⟨y, hy, rest, hrest, ⟨⟩⟩
      exact ⟨y, rest, hy, hrest, rfl⟩
    · rintro ⟨y, rest, hy, hrest, rfl⟩
      exact ⟨y, hy, rest, hrest, rfl⟩

/-- What is undone element by element is undone in a list. -/
theorem mapM_map_ok {γ : Type w} {f : γ → Except ε β} {g : β → γ} {ys : List β}
    (h : ∀ y ∈ ys, f (g y) = .ok y) : (ys.map g).mapM f = .ok ys := by
  rw [mapM_ok_iff, List.forall₂_map_left_iff, List.forall₂_same]
  exact h

/-- In lists that are related element by element, what is on the right is related to something on
the left. -/
theorem exists_rel_of_mem {γ : Type w} {R : γ → β → Prop} {xs : List γ} {ys : List β}
    (h : List.Forall₂ R xs ys) {y : β} (hy : y ∈ ys) : ∃ x ∈ xs, R x y := by
  induction h with
  | nil => cases hy
  | cons hx _ ih =>
    rcases List.mem_cons.mp hy with rfl | hy
    · exact ⟨_, List.mem_cons_self, hx⟩
    · obtain ⟨x, hmem, hR⟩ := ih hy
      exact ⟨x, List.mem_cons_of_mem _ hmem, hR⟩

/-- Every result is that of an element. -/
theorem exists_of_mapM_ok {γ : Type w} {f : γ → Except ε β} {xs : List γ} {ys : List β}
    (h : xs.mapM f = .ok ys) {y : β} (hy : y ∈ ys) : ∃ x ∈ xs, f x = .ok y :=
  exists_rel_of_mem (mapM_ok_iff.mp h) hy

/-- Where a list succeeds, so does every element of it. -/
theorem exists_ok_of_mapM_ok {γ : Type w} {f : γ → Except ε β} {xs : List γ} {ys : List β}
    (h : xs.mapM f = .ok ys) {x : γ} (hx : x ∈ xs) : ∃ y ∈ ys, f x = .ok y :=
  exists_rel_of_mem (mapM_ok_iff.mp h).flip hx

/-- The results are those of the elements, and no others. -/
theorem mem_iff_of_mapM_ok {γ : Type w} {f : γ → Except ε β} {xs : List γ} {ys : List β}
    (h : xs.mapM f = .ok ys) {y : β} : y ∈ ys ↔ ∃ x ∈ xs, f x = .ok y := by
  constructor
  · exact exists_of_mapM_ok h
  · rintro ⟨x, hx, hy⟩
    obtain ⟨y', hy', hx'⟩ := exists_ok_of_mapM_ok h hx
    obtain rfl : y' = y := Except.ok.inj (hx'.symm.trans hy)
    exact hy'

/-- When successes compute `g`, the results are the elements mapped by `g`. -/
theorem eq_map_of_mapM_ok {γ : Type w} {f : γ → Except ε β} {g : γ → β} {xs : List γ} {ys : List β}
    (hf : ∀ x y, f x = .ok y → y = g x) (h : xs.mapM f = .ok ys) : ys = xs.map g := by
  induction mapM_ok_iff.mp h with
  | nil => rfl
  | cons hx hrest ih => rw [List.map_cons, hf _ _ hx, ih (mapM_ok_iff.mpr hrest)]

/-- What is computed for each element by another computation, too, is computed for a list. -/
theorem mapM_ok_of_rel {γ : Type w} {f g : γ → Except ε β} {R : β → β → Prop} {xs : List γ}
    {ys : List β} (h : ∀ x y, f x = .ok y → ∃ z, g x = .ok z ∧ R y z) (hxs : xs.mapM f = .ok ys) :
    ∃ zs, xs.mapM g = .ok zs ∧ List.Forall₂ R ys zs := by
  simp only [mapM_ok_iff] at hxs ⊢
  induction hxs with
  | nil => exact ⟨[], .nil, .nil⟩
  | cons hx _ ih =>
    obtain ⟨z, hz, hR⟩ := h _ _ hx
    obtain ⟨zs, hzs, hRs⟩ := ih
    exact ⟨z :: zs, .cons hz hzs, .cons hR hRs⟩

/-! ## Errors -/

/-- The error of a computation that fails. -/
def errorOf : Except ε α → Option ε
  | .ok _ => none
  | .error e => some e

theorem errorOf_eq_some_iff {x : Except ε α} {e : ε} : errorOf x = some e ↔ x = .error e := by
  cases x <;> simp [errorOf]

theorem errorOf_eq_none_iff {x : Except ε α} : errorOf x = none ↔ ∃ a, x = .ok a := by
  cases x <;> simp [errorOf]

theorem errorOf_bind {x : Except ε α} {f : α → Except ε β} {o : Option ε}
    (h : ∀ a, x = .ok a → errorOf (f a) = o) : errorOf (x >>= f) = (errorOf x).or o := by
  cases x with
  | error e => rfl
  | ok a => exact h a rfl

/-- A mapped list fails with the first error. -/
theorem errorOf_mapM {γ : Type w} (f : γ → Except ε β) (xs : List γ) :
    errorOf (xs.mapM f) = xs.findSome? fun x => errorOf (f x) := by
  induction xs with
  | nil => rfl
  | cons x xs ih =>
    have hrest : ∀ y, f x = .ok y → errorOf (xs.mapM f >>= fun ys => pure (y :: ys)) =
        xs.findSome? fun x => errorOf (f x) := by
      intro y _
      have hpure : ∀ ys, xs.mapM f = .ok ys →
          errorOf (pure (y :: ys) : Except ε (List β)) = none := fun _ _ => rfl
      rw [errorOf_bind hpure, Option.or_none, ih]
    rw [List.mapM_cons, List.findSome?_cons, errorOf_bind hrest]
    cases errorOf (f x) <;> rfl

/-- A list that fails does so at one of its elements. -/
theorem exists_of_mapM_error {γ : Type w} {f : γ → Except ε β} {xs : List γ} {e : ε}
    (h : xs.mapM f = .error e) : ∃ x ∈ xs, f x = .error e := by
  rw [← errorOf_eq_some_iff, errorOf_mapM] at h
  obtain ⟨x, hx, he⟩ := List.exists_of_findSome?_eq_some h
  exact ⟨x, hx, errorOf_eq_some_iff.mp he⟩

variable {γ : Type w} {step : β → γ → Except ε β} {xs : List γ} {a b : β}

/-- A fold that succeeds keeps what each of its steps keeps. -/
theorem foldlM_ok_invariant (I : List γ → β → Prop)
    (hstep : ∀ done x a b, I done a → x ∈ xs → step a x = .ok b → I (done ++ [x]) b)
    (hI : I [] a) (h : xs.foldlM step a = .ok b) : I xs b := by
  suffices go : ∀ rest done a, done ++ rest = xs → I done a → rest.foldlM step a = .ok b → I xs b
    from go xs [] a rfl hI h
  intro rest
  induction rest with
  | nil =>
    rintro done a rfl hd ⟨⟩
    rwa [List.append_nil]
  | cons x rest ih =>
    intro done a hdone hd hrest
    rw [List.foldlM_cons, bind_ok_iff] at hrest
    obtain ⟨c, hc, hrest⟩ := hrest
    have hx : x ∈ xs := hdone ▸ List.mem_append_right done List.mem_cons_self
    exact ih (done ++ [x]) c (by rw [List.append_assoc]; exact hdone) (hstep done x a c hd hx hc)
      hrest

/-- A fold stays where none of its steps goes on. -/
theorem foldlM_ok_of_fixed (hstep : ∀ x ∈ xs, step a x = .ok a) : xs.foldlM step a = .ok a := by
  induction xs with
  | nil => rfl
  | cons x xs ih =>
    rw [List.foldlM_cons, hstep x List.mem_cons_self]
    exact ih fun y hy => hstep y (List.mem_cons_of_mem _ hy)

/-- A fold that fails does so at one of its steps. -/
theorem exists_of_foldlM_error {e : ε} (h : xs.foldlM step a = .error e) :
    ∃ x ∈ xs, ∃ b, step b x = .error e := by
  induction xs generalizing a with
  | nil => cases h
  | cons x xs ih =>
    rw [List.foldlM_cons] at h
    rcases bind_error_iff.mp h with hx | ⟨b, -, hrest⟩
    · exact ⟨x, List.mem_cons_self, a, hx⟩
    · obtain ⟨y, hy, hstep⟩ := ih hrest
      exact ⟨y, List.mem_cons_of_mem _ hy, hstep⟩

/-- A fold goes with a translation when each of its steps does. -/
theorem foldlM_ok_map {g : β → β}
    (hstep : ∀ a x b, step a x = .ok b → step (g a) x = .ok (g b))
    (h : xs.foldlM step a = .ok b) : xs.foldlM step (g a) = .ok (g b) := by
  induction xs generalizing a with
  | nil =>
    cases h
    rfl
  | cons x xs ih =>
    rw [List.foldlM_cons] at h ⊢
    obtain ⟨c, hc, h⟩ := bind_ok_iff.mp h
    exact bind_ok_iff.mpr ⟨g c, hstep a x c hc, ih h⟩

end Ecoa
