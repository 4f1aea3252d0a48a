import Mathlib.Data.List.Infix
import Ecoa.Language.Basic
import Ecoa.Proofs.Text.Trim

/-!
# Spellings of qualified names

A type name is spelled from the parts of its path, the name of a constant from the text of the
reference to it. `constantReference_eq_qualify_iff` tells for which references both are the same,
and `constantReference_eq_iff` when two references to one constant are spelled alike.
-/

namespace Ecoa

namespace Text

variable {p : Char → Bool} {new s t : String}

theorem replaceIf_append :
    replaceIf p new (s ++ t) = replaceIf p new s ++ replaceIf p new t := by
  rw [← String.toList_inj]
  simp only [toList_replaceIf, String.toList_append, List.flatMap_append]

/-- A replacement of two characters makes a text longer by one for each place. -/
theorem length_replaceIf (h : new.toList.length = 2) :
    (replaceIf p new s).toList.length = s.toList.length + s.toList.countP p := by
  rw [toList_replaceIf]
  induction s.toList with
  | nil => rfl
  | cons c cs ih =>
    rw [List.flatMap_cons, List.length_append, ih, List.length_cons, List.countP_cons]
    by_cases hc : p c = true
    · simp only [hc, if_true, h]
      omega
    · simp only [hc, Bool.false_eq_true, if_false, List.length_singleton]
      omega

theorem not_mem_replaceIf {c : Char} (hc : p c = true) (hnew : c ∉ new.toList) :
    c ∉ (replaceIf p new s).toList := by
  rw [toList_replaceIf, List.mem_flatMap]
  rintro ⟨d, -, hd⟩
  split at hd
  · exact hnew hd
  · next hkeep => exact hkeep (List.mem_singleton.mp hd ▸ hc)

/-- The text with each pair of equal characters, found from the left, replaced. -/
def replaceDouble (sep : Char) (new : List Char) : List Char → List Char
  | [] => []
  | [c] => [c]
  | c :: d :: cs =>
    if c = sep ∧ d = sep then new ++ replaceDouble sep new cs
    else c :: replaceDouble sep new (d :: cs)

section

variable {sep c : Char} {pair cs : List Char}

theorem replaceDouble_cons (h : ¬ (c = sep ∧ cs.head? = some sep)) :
    replaceDouble sep pair (c :: cs) = c :: replaceDouble sep pair cs := by
  cases cs with
  | nil => rfl
  | cons d cs =>
    rw [replaceDouble, if_neg]
    rintro ⟨hc, rfl⟩
    exact h ⟨hc, rfl⟩

theorem replaceDouble_pair :
    replaceDouble sep pair (sep :: sep :: cs) = pair ++ replaceDouble sep pair cs := by
  rw [replaceDouble, if_pos ⟨rfl, rfl⟩]

theorem replaceDouble_self : replaceDouble sep [sep, sep] cs = cs := by
  fun_induction replaceDouble sep [sep, sep] cs with
  | case1 => rfl
  | case2 c => rfl
  | case3 c d cs h ih => rw [ih, h.1, h.2]; rfl
  | case4 c d cs h ih => rw [ih]

theorem length_replaceDouble (h : pair.length = 2) :
    (replaceDouble sep pair cs).length = cs.length := by
  fun_induction replaceDouble sep pair cs with
  | case1 => rfl
  | case2 c => rfl
  | case3 c d cs hc ih =>
    rw [List.length_append, ih, h, List.length_cons, List.length_cons]
    omega
  | case4 c d cs hc ih =>
    rw [List.length_cons, ih]
    rfl

theorem joinWith_cons_ofList {between : String} {w : List Char} {ws : List String} :
    (joinWith between (.ofList (c :: w) :: ws)).toList =
      c :: (joinWith between (.ofList w :: ws)).toList := by
  cases ws with
  | nil => simp [joinWith]
  | cons u us => simp [joinWith]

theorem splitDouble_ne_nil (sep : Char) (cs : List Char) : splitDouble sep cs ≠ [] := by
  fun_cases splitDouble sep cs <;> simp

/-- To join what stands between the pairs is to replace the pairs. -/
theorem toList_joinWith_splitDouble {between : String} :
    (joinWith between ((splitDouble sep cs).map .ofList)).toList =
      replaceDouble sep between.toList cs := by
  fun_induction splitDouble sep cs with
  | case1 => rfl
  | case2 c => simp [joinWith, replaceDouble]
  | case3 c d cs h ih =>
    obtain ⟨w, ws, hw⟩ := List.exists_cons_of_ne_nil (splitDouble_ne_nil sep cs)
    rw [replaceDouble, if_pos h, ← ih, hw]
    simp [joinWith]
  | case4 c d cs h hnil => exact absurd hnil (splitDouble_ne_nil sep (d :: cs))
  | case5 c d cs h w ws hw ih =>
    rw [replaceDouble, if_neg h, ← ih, hw, List.map_cons, joinWith_cons_ofList, List.map_cons]

end

end Text

/-- The nested libraries are set apart by dots alone: no underscore stands before another one or
before a dot. -/
def HasDottedPath (library : List Char) : Prop :=
  ¬ ['_', '_'] <:+: library ∧ ¬ ['_', '.'] <:+: library

instance (library : List Char) : Decidable (HasDottedPath library) :=
  inferInstanceAs (Decidable (_ ∧ _))

theorem hasDottedPath_nil : HasDottedPath [] := by
  constructor <;> exact fun h => absurd (List.eq_nil_of_infix_nil h) (List.cons_ne_nil _ _)

theorem hasDottedPath_cons {c : Char} {cs : List Char} : HasDottedPath (c :: cs) ↔
    ¬ (c = '_' ∧ (cs.head? = some '_' ∨ cs.head? = some '.')) ∧ HasDottedPath cs := by
  have hstart : ∀ d, ['_', d] <:+: c :: cs ↔
      (c = '_' ∧ cs.head? = some d) ∨ ['_', d] <:+: cs := by
    intro d
    rw [List.infix_cons_iff, List.cons_prefix_cons, eq_comm, List.head?_eq_some_iff]
    refine or_congr (and_congr_right fun _ => exists_congr fun rest => ?_) Iff.rfl
    rw [List.singleton_append, eq_comm]
  unfold HasDottedPath
  rw [hstart, hstart]
  tauto

namespace Language

variable {l : Language} {reference library name : String} {t : TypeName}

/-- A label can be read off what is written for it. -/
theorem enumLabel_inj {label label' : String} :
    l.enumLabel t label = l.enumLabel t label' ↔ label = label' := by
  cases l <;> simp [enumLabel, ← String.toList_inj]

theorem length_separator (l : Language) : l.separator.toList.length = 2 := by
  cases l <;> rfl

theorem toList_qualify (l : Language) (t : TypeName) : (l.qualify t).toList =
    Text.replaceDouble '_' l.separator.toList t.library.toList ++ l.separator.toList ++
      t.name.toList := by
  simp only [qualify, TypeName.path, String.toList_append, Text.toList_joinWith_splitDouble]

/-- A character that gives way to the separator in a reference. -/
def isNameSeparator (c : Char) : Bool := c = ':' || c = '.'

theorem constantReference_eq : l.constantReference reference =
    Text.replaceIf isNameSeparator l.separator reference := rfl

theorem not_isNameSeparator_of_isBlank {c : Char} (h : Text.isBlank c = true) :
    isNameSeparator c = false := by
  rw [isNameSeparator, Bool.or_eq_false_iff, decide_eq_false_iff_not, decide_eq_false_iff_not]
  constructor
  · rintro rfl
    exact absurd h (by decide)
  · rintro rfl
    exact absurd h (by decide)

/-- In C the kept spelling of a library is the one that is written. -/
theorem replaceDouble_c (library : List Char) :
    Text.replaceDouble '_' Language.c.separator.toList library = library :=
  Text.replaceDouble_self

/-- A library name with its dots written as pairs of underscores. -/
def normalized (library : List Char) : List Char :=
  library.flatMap fun c => if c = '.' then ['_', '_'] else [c]

/-- A library name with its dots written as the separator. -/
def separated (separator library : List Char) : List Char :=
  library.flatMap fun c => if isNameSeparator c then separator else [c]

theorem head?_normalized {library : List Char} : (normalized library).head? = some '_' ↔
    library.head? = some '_' ∨ library.head? = some '.' := by
  cases library with
  | nil => simp [normalized]
  | cons c cs =>
    by_cases hdot : c = '.'
    · simp [normalized, hdot]
    · simp [normalized, hdot]

/-- In C++ the path of a library is spelled alike from both its spellings when dots alone set it
apart. -/
theorem replaceDouble_normalized_iff {library : List Char} (hcolon : ':' ∉ library) :
    Text.replaceDouble '_' [':', ':'] (normalized library) = separated [':', ':'] library ↔
      HasDottedPath library := by
  induction library with
  | nil => exact iff_of_true rfl hasDottedPath_nil
  | cons c cs ih =>
    rw [List.mem_cons, not_or] at hcolon
    have ih := ih hcolon.2
    rw [hasDottedPath_cons]
    by_cases hdot : c = '.'
    · subst hdot
      change Text.replaceDouble '_' [':', ':'] ('_' :: '_' :: normalized cs) =
        [':', ':'] ++ separated [':', ':'] cs ↔ _
      rw [Text.replaceDouble_pair, List.append_cancel_left_eq, ih]
      simp
    · have hnormalized : normalized (c :: cs) = c :: normalized cs := by
        simp [normalized, hdot]
      have hseparated : separated [':', ':'] (c :: cs) = c :: separated [':', ':'] cs := by
        simp [separated, isNameSeparator, hdot, Ne.symm hcolon.1]
      rw [hnormalized, hseparated]
      by_cases hpair : c = '_' ∧ (normalized cs).head? = some '_'
      · -- the underscore makes a pair with what follows it
        obtain ⟨rest, hrest⟩ := List.head?_eq_some_iff.mp hpair.2
        rw [hrest, hpair.1, Text.replaceDouble_pair]
        refine iff_of_false ?_ fun h => h.1 ⟨rfl, head?_normalized.mp hpair.2⟩
        simp
      · rw [Text.replaceDouble_cons hpair, List.cons_inj_right, ih, ← head?_normalized]
        exact (and_iff_right hpair).symm

/-- Where there is no colon, both spellings write the library of C alike. -/
theorem separated_c {library : List Char} (hcolon : ':' ∉ library) :
    separated ['_', '_'] library = normalized library := by
  unfold separated normalized
  rw [List.flatMap_def, List.flatMap_def]
  refine congrArg List.flatten (List.map_congr_left fun c hc => ?_)
  have hne : c ≠ ':' := fun h => hcolon (h ▸ hc)
  simp [isNameSeparator, hne]

/-- In C++ the separators tell where the dots were. -/
theorem separated_injective {library library' : List Char} (hcolon : ':' ∉ library)
    (hcolon' : ':' ∉ library')
    (h : separated [':', ':'] library = separated [':', ':'] library') : library = library' := by
  have hcons : ∀ {c : Char} {cs : List Char}, ':' ∉ c :: cs → separated [':', ':'] (c :: cs) =
      (if c = '.' then [':', ':'] else [c]) ++ separated [':', ':'] cs := by
    intro c cs hcs
    have hne : c ≠ ':' := fun h => hcs (h ▸ List.mem_cons_self)
    simp [separated, isNameSeparator, hne]
  induction library generalizing library' with
  | nil =>
    cases library' with
    | nil => rfl
    | cons d ds =>
      rw [hcons hcolon'] at h
      split at h <;> cases h
  | cons c cs ih =>
    cases library' with
    | nil =>
      rw [hcons hcolon] at h
      split at h <;> cases h
    | cons d ds =>
      rw [hcons hcolon, hcons hcolon'] at h
      rw [List.mem_cons, not_or] at hcolon hcolon'
      split at h
      · next hc =>
        split at h
        · next hd =>
          rw [hc, hd, ih hcolon.2 hcolon'.2 (List.append_cancel_left h)]
        · exact absurd (List.cons.inj h).1 hcolon'.1
      · split at h
        · exact absurd (List.cons.inj h).1.symm hcolon.1
        · obtain ⟨rfl, hrest⟩ := List.cons.inj h
          rw [ih hcolon.2 hcolon'.2 hrest]

theorem toList_normalizeLibrary (library : String) :
    (normalizeLibrary library).toList = normalized library.toList := by
  rw [normalizeLibrary, Text.toList_replaceIf]
  simp [normalized]

theorem toList_constantReference : (l.constantReference (library ++ ":" ++ name)).toList =
    separated l.separator.toList library.toList ++ l.separator.toList ++
      separated l.separator.toList name.toList := by
  have hcolon : Text.replaceIf isNameSeparator l.separator ":" = l.separator := by
    cases l <;> rfl
  rw [constantReference_eq, Text.replaceIf_append, Text.replaceIf_append, hcolon,
    String.toList_append, String.toList_append, Text.toList_replaceIf, Text.toList_replaceIf]
  rfl

/-- Two references to one constant are spelled alike in C, and in C++ only when they are the same. -/
theorem constantReference_eq_iff {library' : String} (hcolon : ':' ∉ library.toList)
    (hcolon' : ':' ∉ library'.toList)
    (hsame : normalizeLibrary library = normalizeLibrary library') :
    l.constantReference (library ++ ":" ++ name) = l.constantReference (library' ++ ":" ++ name) ↔
      l = .c ∨ library = library' := by
  rw [← String.toList_inj, toList_constantReference, toList_constantReference,
    List.append_cancel_right_eq, List.append_cancel_right_eq]
  cases l with
  | c =>
    refine iff_of_true ?_ (.inl rfl)
    change separated ['_', '_'] _ = separated ['_', '_'] _
    rw [separated_c hcolon, separated_c hcolon', ← toList_normalizeLibrary, hsame,
      toList_normalizeLibrary]
  | cpp =>
    rw [or_iff_right nofun]
    constructor
    · intro h
      exact String.toList_inj.mp (separated_injective hcolon hcolon' h)
    · rintro rfl
      rfl

/-- A reference whose name has no separators is spelled as the type name, in C++ only when dots
alone set the path of its library apart. -/
theorem constantReference_plain_iff (hcolon : ':' ∉ library.toList)
    (hname : ∀ c ∈ name.toList, isNameSeparator c = false) :
    l.constantReference (library ++ ":" ++ name) = l.qualify (.inLibrary library name) ↔
      (l = .cpp → HasDottedPath library.toList) := by
  have hkeep : separated l.separator.toList name.toList = name.toList := by
    have hself : Text.replaceIf isNameSeparator l.separator name = name :=
      Text.replaceIf_eq_self hname
    rwa [← String.toList_inj, Text.toList_replaceIf] at hself
  rw [← String.toList_inj, toList_constantReference, hkeep, toList_qualify, TypeName.inLibrary,
    toList_normalizeLibrary, List.append_cancel_right_eq, List.append_cancel_right_eq]
  cases l with
  | c =>
    refine iff_of_true ?_ nofun
    rw [replaceDouble_c]
    exact separated_c hcolon
  | cpp =>
    rw [eq_comm]
    exact (replaceDouble_normalized_iff hcolon).trans ⟨fun h _ => h, fun h => h rfl⟩

/-! ## All references -/

theorem countP_trim (reference : String) :
    (Text.trim reference).toList.countP isNameSeparator =
      reference.toList.countP isNameSeparator := by
  rw [List.countP_eq_length_filter, List.countP_eq_length_filter, Text.toList_trim,
    Text.filter_trimEnds fun _ _ => not_isNameSeparator_of_isBlank]

theorem length_constantReference : (l.constantReference reference).toList.length =
    reference.toList.length + reference.toList.countP isNameSeparator := by
  rw [constantReference_eq, Text.length_replaceIf (length_separator l)]

theorem length_qualify :
    (l.qualify t).toList.length = t.library.toList.length + 2 + t.name.toList.length := by
  rw [toList_qualify, List.length_append, List.length_append,
    Text.length_replaceDouble (length_separator l), length_separator]

theorem length_normalizeLibrary (hcolon : ':' ∉ library.toList) :
    (normalizeLibrary library).toList.length =
      library.toList.length + library.toList.countP isNameSeparator := by
  have hcount : library.toList.countP (· = '.') = library.toList.countP isNameSeparator := by
    refine List.countP_congr fun c hc => ?_
    have hne : c ≠ ':' := fun h => hcolon (h ▸ hc)
    simp [isNameSeparator, hne]
  rw [normalizeLibrary, Text.length_replaceIf rfl, hcount]

/-- The reference is spelled as the type name that it means exactly when there are no blanks around
it, its name has no separators, and in C++ dots alone set the path of its library apart. -/
theorem constantReference_eq_qualify_iff
    (hreference : Text.trim reference = library ++ ":" ++ name) (hcolon : ':' ∉ library.toList) :
    l.constantReference reference = l.qualify (.inLibrary library name) ↔
      Text.trim reference = reference ∧ (∀ c ∈ name.toList, isNameSeparator c = false) ∧
        (l = .cpp → HasDottedPath library.toList) := by
  have hlength : l.constantReference reference = l.qualify (.inLibrary library name) →
      Text.trim reference = reference ∧ ∀ c ∈ name.toList, isNameSeparator c = false := by
    intro heq
    have hchars := congrArg (fun s => s.toList.length) heq
    have hcount := countP_trim reference
    have htrim := (Text.trimEnds_sublist reference.toList).length_le
    simp only [length_constantReference, length_qualify, TypeName.inLibrary,
      length_normalizeLibrary hcolon] at hchars
    rw [← Text.toList_trim] at htrim
    rw [hreference] at hcount htrim
    simp only [String.toList_append, List.length_append, List.countP_append] at hcount htrim
    have hone : ":".toList.length = 1 ∧ ":".toList.countP isNameSeparator = 1 := by decide
    -- the reference is as long as its trimmed text, and no character of the name counts
    have hname : name.toList.countP isNameSeparator = 0 := by omega
    have hlong : (Text.trimEnds reference.toList).length = reference.toList.length := by
      rw [← Text.toList_trim, hreference]
      simp only [String.toList_append, List.length_append]
      omega
    refine ⟨?_, fun c hc => ?_⟩
    · rw [Text.trim, (Text.trimEnds_sublist reference.toList).eq_of_length hlong,
        String.ofList_toList]
    · exact Bool.eq_false_iff.mpr (List.countP_eq_zero.mp hname c hc)
  constructor
  · intro heq
    obtain ⟨htrim, hname⟩ := hlength heq
    rw [← htrim, hreference, constantReference_plain_iff hcolon hname] at heq
    exact ⟨htrim, hname, heq⟩
  · rintro ⟨htrim, hname, hpath⟩
    rw [← htrim, hreference]
    exact (constantReference_plain_iff hcolon hname).mpr hpath

/-- A reference without a library is never spelled as a type name, which has one. -/
theorem constantReference_ne_qualify (hname : t.name = Text.trim reference)
    (hcolon : ':' ∉ reference.toList) : l.constantReference reference ≠ l.qualify t := by
  intro heq
  have hnone : ∀ c ∈ reference.toList, isNameSeparator c = false := by
    have hname : ∀ c ∈ (Text.trim reference).toList, isNameSeparator c = false := by
      intro c hc
      refine Bool.eq_false_iff.mpr fun hsep => ?_
      have hmem : c ∈ (l.constantReference reference).toList := by
        rw [heq, toList_qualify, hname]
        exact List.mem_append_right _ hc
      rw [Text.toList_trim] at hc
      have hne : c ≠ ':' := fun h => hcolon (h ▸ (Text.trimEnds_sublist _).subset hc)
      have hdot : c = '.' := by simpa [isNameSeparator, hne] using hsep
      subst hdot
      exact Text.not_mem_replaceIf hsep (by cases l <;> decide) hmem
    have hcount := countP_trim reference
    rw [List.countP_eq_zero.mpr fun c hc => Bool.eq_false_iff.mp (hname c hc), eq_comm,
      List.countP_eq_zero] at hcount
    exact fun c hc => Bool.eq_false_iff.mpr (hcount c hc)
  rw [constantReference_eq, Text.replaceIf_eq_self hnone] at heq
  -- the separator is not blank, and so would be left when the reference is trimmed
  have hkept : (Text.trimEnds reference.toList).filter (fun c => !Text.isBlank c) =
      reference.toList.filter fun c => !Text.isBlank c :=
    Text.filter_trimEnds fun c _ hblank => by rw [hblank]; rfl
  rw [← Text.toList_trim, ← hname] at hkept
  have hseparator : (l.separator.toList.filter fun c => !Text.isBlank c).length = 2 := by
    cases l <;> decide
  have hlength := congrArg List.length hkept
  rw [heq, toList_qualify, List.filter_append, List.filter_append, List.length_append,
    List.length_append] at hlength
  omega

end Language

end Ecoa
