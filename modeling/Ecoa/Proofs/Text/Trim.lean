import Mathlib.Data.List.DropRight
import Ecoa.Text.Blank
import Ecoa.Text.Split

/-!
# Texts and the blanks at their ends

A text is what remains of it when it is trimmed, with blanks before and after. What remains has no
more blanks at its ends, so trimming it again leaves it as it is.
-/

namespace Ecoa.Text

variable {cs : List Char} {s : String} {c : Char}

theorem exists_blanks (cs : List Char) : ∃ before after,
    cs = before ++ trimEnds cs ++ after ∧ ∀ c ∈ before ++ after, isBlank c = true := by
  let after := ((cs.dropWhile isBlank).reverse.takeWhile isBlank).reverse
  have hafter : trimEnds cs ++ after = cs.dropWhile isBlank := by
    rw [trimEnds, ← List.reverse_append, List.takeWhile_append_dropWhile, List.reverse_reverse]
  refine ⟨cs.takeWhile isBlank, after, ?_, fun c hc => ?_⟩
  · rw [List.append_assoc, hafter, List.takeWhile_append_dropWhile]
  · rcases List.mem_append.mp hc with hbefore | hc
    · exact List.mem_takeWhile_imp hbefore
    · exact List.mem_takeWhile_imp (List.mem_reverse.mp hc)

theorem trimEnds_sublist (cs : List Char) : (trimEnds cs).Sublist cs := by
  obtain ⟨before, after, h, -⟩ := exists_blanks cs
  conv => rhs; rw [h]
  exact (List.sublist_append_right before _).trans (List.sublist_append_left _ after)

/-- Where no blank is kept, those at the ends do not matter. -/
theorem filter_trimEnds {p : Char → Bool} (h : ∀ c ∈ cs, isBlank c = true → p c = false) :
    (trimEnds cs).filter p = cs.filter p := by
  obtain ⟨before, after, heq, hblank⟩ := exists_blanks cs
  have hnone : ∀ c ∈ before ++ after, p c = false := by
    intro c hc
    refine h c ?_ (hblank c hc)
    rw [heq]
    rcases List.mem_append.mp hc with hc | hc
    · exact List.mem_append_left _ (List.mem_append_left _ hc)
    · exact List.mem_append_right _ hc
  rw [List.forall_mem_append] at hnone
  have hbefore : before.filter p = [] := by simpa using hnone.1
  have hafter : after.filter p = [] := by simpa using hnone.2
  conv => rhs; rw [heq, List.filter_append, List.filter_append, hbefore, hafter]
  rw [List.nil_append, List.append_nil]

theorem isBlank_of_head?_dropWhile (h : (cs.dropWhile isBlank).head? = some c) :
    isBlank c = false := by
  have hfirst := List.head?_dropWhile_not isBlank cs
  rw [h] at hfirst
  exact hfirst

/-- What remains begins with no blank. -/
theorem isBlank_of_head?_trimEnds (h : (trimEnds cs).head? = some c) : isBlank c = false := by
  obtain ⟨rest, hrest⟩ := List.rdropWhile_prefix isBlank (cs.dropWhile isBlank)
  have hkept : (cs.dropWhile isBlank).head? = some c := by
    rw [← hrest, List.head?_append]
    change (trimEnds cs).head?.or rest.head? = some c
    rw [h, Option.some_or]
  exact isBlank_of_head?_dropWhile hkept

/-- What remains ends with no blank. -/
theorem isBlank_of_getLast?_trimEnds (h : (trimEnds cs).getLast? = some c) : isBlank c = false := by
  rw [trimEnds, List.getLast?_reverse] at h
  exact isBlank_of_head?_dropWhile h

/-- A text stays as it is when there is no blank at its ends. -/
theorem trimEnds_eq_self_iff : trimEnds cs = cs ↔
    (∀ c ∈ cs.head?, isBlank c = false) ∧ ∀ c ∈ cs.getLast?, isBlank c = false := by
  constructor
  · intro h
    rw [← h]
    exact ⟨fun _ => isBlank_of_head?_trimEnds, fun _ => isBlank_of_getLast?_trimEnds⟩
  · rintro ⟨hfirst, hlast⟩
    have hkeep : ∀ {ds : List Char}, (∀ c ∈ ds.head?, isBlank c = false) →
        ds.dropWhile isBlank = ds := by
      intro ds hds
      cases ds with
      | nil => rfl
      | cons c ds => rw [List.dropWhile_cons, hds c rfl]; rfl
    rw [← List.head?_reverse] at hlast
    rw [trimEnds, hkeep hfirst, hkeep hlast, List.reverse_reverse]

theorem trimEnds_eq_self (h : ∀ c ∈ cs, isBlank c = false) : trimEnds cs = cs :=
  trimEnds_eq_self_iff.mpr
    ⟨fun c hc => h c (List.mem_of_mem_head? hc), fun c hc => h c (List.mem_of_getLast? hc)⟩

theorem trimEnds_trimEnds (cs : List Char) : trimEnds (trimEnds cs) = trimEnds cs :=
  trimEnds_eq_self_iff.mpr
    ⟨fun _ => isBlank_of_head?_trimEnds, fun _ => isBlank_of_getLast?_trimEnds⟩

theorem trim_trim (s : String) : trim (trim s) = trim s := by
  rw [trim, toList_trim, trimEnds_trimEnds, trim]

/-- Where all blanks go, those at the ends do not matter. -/
theorem remove_trim {p : Char → Bool} (h : ∀ c ∈ s.toList, isBlank c = true → p c = true) :
    remove p (trim s) = remove p s := by
  have hkept : ∀ c ∈ s.toList, isBlank c = true → (!p c) = false := by
    intro c hc hblank
    rw [h c hc hblank, Bool.not_true]
  rw [remove, toList_trim, filter_trimEnds hkept, remove]

theorem trim_eq_self (h : ∀ c ∈ s.toList, isBlank c = false) : trim s = s := by
  rw [trim, trimEnds_eq_self h, String.ofList_toList]

end Ecoa.Text
