import Ecoa.Proofs.Text.Trim
import Ecoa.Property.Check

/-!
# Marks of foreign notations

A text has a foreign mark when somewhere in it a decimal digit or a star stands before a colon. A
reference `%library:name%` has its own colon, so it has one also when the library ends in a digit.
-/

namespace Ecoa

/-- With a colon after it, the character makes a mark. -/
def StartsMark (c : Char) : Prop := Text.isDecimalDigit c = true ∨ c = '*'

/-- Somewhere in the text a decimal digit or a star stands before a colon. -/
def HasMark (cs : List Char) : Prop :=
  ∃ before c after, cs = before ++ c :: ':' :: after ∧ StartsMark c

/-- A colon after the text would make a mark. -/
def EndsBeforeMark (cs : List Char) : Prop := ∃ c, cs.getLast? = some c ∧ StartsMark c

instance (c : Char) : Decidable (StartsMark c) :=
  inferInstanceAs (Decidable (Text.isDecimalDigit c = true ∨ c = '*'))

instance (cs : List Char) : Decidable (EndsBeforeMark cs) :=
  match h : cs.getLast? with
  | none => .isFalse fun ⟨_, hc, _⟩ => nomatch h.symm.trans hc
  | some c => decidable_of_iff (StartsMark c) ⟨fun hc => ⟨c, h, hc⟩, fun ⟨_, hd, hmark⟩ =>
    Option.some.inj (h.symm.trans hd) ▸ hmark⟩

variable {c : Char} {cs before after : List Char}

theorem hasMark_nil : ¬ HasMark [] := by
  rintro ⟨before, c, after, h, -⟩
  simp at h

theorem hasMark_cons : HasMark (c :: cs) ↔ (StartsMark c ∧ cs.head? = some ':') ∨ HasMark cs := by
  constructor
  · rintro ⟨before, d, after, h, hd⟩
    cases before with
    | nil =>
      obtain ⟨rfl, rfl⟩ := List.cons.inj h
      exact .inl ⟨hd, rfl⟩
    | cons e before =>
      obtain ⟨-, rfl⟩ := List.cons.inj h
      exact .inr ⟨before, d, after, rfl, hd⟩
  · rintro (⟨hc, hcolon⟩ | ⟨before, d, after, rfl, hd⟩)
    · obtain ⟨after, rfl⟩ := List.head?_eq_some_iff.mp hcolon
      exact ⟨[], c, after, rfl, hc⟩
    · exact ⟨c :: before, d, after, rfl, hd⟩

theorem not_startsMark_colon : ¬ StartsMark ':' := by
  simp only [StartsMark]
  decide

theorem not_startsMark_percent : ¬ StartsMark '%' := by
  simp only [StartsMark]
  decide

/-- The search finds a mark exactly where there is one. -/
theorem foreignMark?_eq_none_iff : foreignMark? cs = none ↔ ¬ HasMark cs := by
  have hash : ¬ StartsMark '#' := by
    simp only [StartsMark]
    decide
  have test : ∀ d, (Text.isDecimalDigit d || d = '*') = true ↔ StartsMark d := by
    simp [StartsMark]
  fun_induction foreignMark? cs with
  | case1 d rest h => simp [hasMark_cons, (test d).mp h]
  | case2 d rest h ih =>
    refine ih.trans (not_congr ?_)
    rw [hasMark_cons (c := '#'), or_iff_right fun hc => hash hc.1]
  | case3 d rest hne h => simp [hasMark_cons, (test d).mp h]
  | case4 d rest hne h ih =>
    refine ih.trans (not_congr ?_)
    rw [hasMark_cons (c := d), or_iff_right fun hc => h ((test d).mpr hc.1)]
  | case5 d rest hne hne' ih =>
    refine ih.trans (not_congr ?_)
    rw [hasMark_cons (c := d), or_iff_right]
    rintro ⟨-, hcolon⟩
    obtain ⟨after, rfl⟩ := List.head?_eq_some_iff.mp hcolon
    exact hne' after rfl
  | case6 => exact iff_of_true rfl hasMark_nil

instance : Decidable (HasMark cs) :=
  decidable_of_iff (foreignMark? cs ≠ none) ((not_congr foreignMark?_eq_none_iff).trans not_not)

/-! ## Marks in parts of a text -/

theorem hasMark_append_colon :
    HasMark (before ++ ':' :: after) ↔ HasMark before ∨ EndsBeforeMark before ∨ HasMark after := by
  induction before with
  | nil => simp [hasMark_cons, hasMark_nil, not_startsMark_colon, EndsBeforeMark]
  | cons c before ih =>
    rw [List.cons_append, hasMark_cons, hasMark_cons, ih]
    cases before with
    | nil => simp [EndsBeforeMark, hasMark_nil]
    | cons d before => simp [EndsBeforeMark, or_assoc]

/-- What has no colon makes no mark at the end of a text. -/
theorem hasMark_append (h : ':' ∉ after) : HasMark (before ++ after) ↔ HasMark before := by
  induction before with
  | nil =>
    refine iff_of_false ?_ hasMark_nil
    rintro ⟨before, c, rest, rfl, -⟩
    simp at h
  | cons c before ih =>
    rw [List.cons_append, hasMark_cons, hasMark_cons, ih]
    cases before with
    | nil =>
      have hhead : after.head? ≠ some ':' := fun heq => h (List.mem_of_head? heq)
      simp [hhead]
    | cons d before => simp

/-- What starts no mark makes none at the beginning of a text. -/
theorem hasMark_append_right (h : ∀ c ∈ before, ¬ StartsMark c) :
    HasMark (before ++ cs) ↔ HasMark cs := by
  induction before with
  | nil => rfl
  | cons c before ih =>
    rw [List.forall_mem_cons] at h
    rw [List.cons_append, hasMark_cons, ih h.2, or_iff_right fun hc => h.1 hc.1]

theorem ne_colon_of_isBlank (h : Text.isBlank c = true) : c ≠ ':' := by
  intro hcolon
  subst hcolon
  exact absurd h (by decide)

theorem not_startsMark_of_isBlank (h : Text.isBlank c = true) : ¬ StartsMark c := by
  -- no run of ten digits has a blank in it
  have zeros : ∀ z ∈ Text.digitZeros, 0x20 < z ∧ (z + 9 < 0x85 ∨ 0xA0 < z) ∧
      (z + 9 < 0x1680 ∨ 0x1680 < z) ∧ (z + 9 < 0x2000 ∨ 0x3000 < z) := by
    decide
  rintro (hdigit | hstar)
  · simp only [Text.isBlank, Bool.or_eq_true, Bool.and_eq_true, decide_eq_true_eq, beq_iff_eq] at h
    simp only [Text.isDecimalDigit, List.any_eq_true, Bool.and_eq_true, decide_eq_true_eq]
      at hdigit
    obtain ⟨z, hz, hle⟩ := hdigit
    have hzero := zeros z hz
    omega
  · subst hstar
    exact absurd h (by decide)

/-- Blanks around a text make no marks. -/
theorem hasMark_trimEnds : HasMark (Text.trimEnds cs) ↔ HasMark cs := by
  obtain ⟨before, after, heq, hblank⟩ := Text.exists_blanks cs
  rw [List.forall_mem_append] at hblank
  have hafter : ':' ∉ after := fun hcolon => ne_colon_of_isBlank (hblank.2 _ hcolon) rfl
  conv => rhs; rw [heq]
  rw [hasMark_append hafter, hasMark_append_right]
  intro c hc
  exact not_startsMark_of_isBlank (hblank.1 c hc)

theorem hasMark_trim {s : String} : HasMark (Text.trim s).toList ↔ HasMark s.toList := by
  rw [Text.toList_trim, hasMark_trimEnds]

/-- A reference has the marks of its parts, and one more at its colon when its library ends as a
mark begins. -/
theorem hasMark_reference {library name : String} :
    HasMark ("%" ++ library ++ ":" ++ name ++ "%").toList ↔
      HasMark library.toList ∨ EndsBeforeMark library.toList ∨ HasMark name.toList := by
  have hlast : EndsBeforeMark ('%' :: library.toList) ↔ EndsBeforeMark library.toList := by
    cases h : library.toList with
    | nil => simp [EndsBeforeMark, not_startsMark_percent]
    | cons c cs => simp [EndsBeforeMark]
  have hchars : ("%" ++ library ++ ":" ++ name ++ "%").toList =
      ('%' :: library.toList) ++ ':' :: (name.toList ++ ['%']) := by
    simp
  have hlibrary : HasMark ('%' :: library.toList) ↔ HasMark library.toList := by
    rw [hasMark_cons, or_iff_right fun hc => not_startsMark_percent hc.1]
  rw [hchars, hasMark_append_colon, hasMark_append (by decide), hlast, hlibrary]

end Ecoa
