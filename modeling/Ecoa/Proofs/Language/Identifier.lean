import Mathlib.Data.Set.Operations
import Ecoa.Proofs.Language.Spelling
import Ecoa.Proofs.Type.Registration

/-!
# Identifiers of types

A type is spelled as its library, the separator and its name. Two types have the same identifier
when one reads part of the other's name as libraries: `a__b__T` is `b__T` of the library `a`, and it
is `T` of the library `a.b`. `qualify_ofCalls` tells for all types of a registry when this happens,
and that it does not as long as no name looks like one with a library.
-/

namespace Ecoa

/-! ## Two readings of one text -/

/-- The library goes on into the other name, at a separator or by its first character: `library'`
is read from `library` and from the text of `name` before `name'`. -/
def ReadsInto (sep : Char) (library name library' name' : List Char) : Prop :=
  (∃ between, library' = library ++ [sep, sep] ++ between ∧
    name = between ++ [sep, sep] ++ name') ∨
  library' = library ++ [sep] ∧ name = sep :: name'

namespace ReadsInto

variable {sep : Char} {library name library' name' : List Char}

theorem append_eq (h : ReadsInto sep library name library' name') :
    library ++ [sep, sep] ++ name = library' ++ [sep, sep] ++ name' := by
  obtain ⟨between, rfl, rfl⟩ | ⟨rfl, rfl⟩ := h
  · simp only [List.append_assoc]
  · simp only [List.append_assoc, List.cons_append, List.nil_append]

/-- The name that is read as libraries has a separator in it or begins with half of one. -/
theorem infix_or_head? (h : ReadsInto sep library name library' name') :
    [sep, sep] <:+: name ∨ name.head? = some sep := by
  obtain ⟨between, -, rfl⟩ | ⟨-, rfl⟩ := h
  · exact .inl ⟨between, name', rfl⟩
  · exact .inr rfl

theorem mem_name (h : ReadsInto sep library name library' name') : sep ∈ name := by
  obtain ⟨between, -, rfl⟩ | ⟨-, rfl⟩ := h
  · simp
  · exact List.mem_cons_self

/-- What the longer library has more, the other name has before the shorter one. -/
theorem of_prefix {more : List Char}
    (h : library ++ [sep, sep] ++ name = library ++ more ++ [sep, sep] ++ name') :
    more = [] ∧ name = name' ∨ ReadsInto sep library name (library ++ more) name' := by
  simp only [List.append_assoc] at h
  have hrest := List.append_cancel_left h
  match more, hrest with
  | [], hrest => exact .inl ⟨rfl, List.append_cancel_left hrest⟩
  | [c], hrest =>
    obtain ⟨hc, hname⟩ := List.cons.inj hrest
    exact .inr (.inr ⟨by rw [← hc], (List.cons.inj hname).2⟩)
  | c :: d :: between, hrest =>
    obtain ⟨hc, hrest⟩ := List.cons.inj hrest
    obtain ⟨hd, hname⟩ := List.cons.inj hrest
    refine .inr (.inl ⟨between, ?_, ?_⟩)
    · rw [← hc, ← hd, List.append_assoc]
      rfl
    · rw [List.append_assoc]
      exact hname

end ReadsInto

/-- A text is read in two ways only when one library goes on into the other name. -/
theorem append_separator_eq_iff {sep : Char} {library name library' name' : List Char} :
    library ++ [sep, sep] ++ name = library' ++ [sep, sep] ++ name' ↔
      library = library' ∧ name = name' ∨ ReadsInto sep library name library' name' ∨
        ReadsInto sep library' name' library name := by
  constructor
  · intro h
    have hfront : ∀ library name : List Char, library <+: library ++ [sep, sep] ++ name := by
      intro library name
      rw [List.append_assoc]
      exact List.prefix_append _ _
    obtain ⟨more, rfl⟩ | ⟨more, rfl⟩ :=
      List.prefix_or_prefix_of_prefix (hfront library name) (h ▸ hfront library' name')
    · obtain ⟨rfl, rfl⟩ | hreads := ReadsInto.of_prefix h
      · exact .inl ⟨(List.append_nil _).symm, rfl⟩
      · exact .inr (.inl hreads)
    · obtain ⟨rfl, rfl⟩ | hreads := ReadsInto.of_prefix h.symm
      · exact .inl ⟨List.append_nil _, rfl⟩
      · exact .inr (.inr hreads)
  · rintro (⟨rfl, rfl⟩ | h | h)
    · rfl
    · exact h.append_eq
    · exact h.append_eq.symm

/-! ## Spellings of types -/

theorem TypeName.eq_iff {t t' : TypeName} : t = t' ↔ t.library = t'.library ∧ t.name = t'.name := by
  cases t
  cases t'
  rw [TypeName.mk.injEq]

namespace Language

variable {t t' : TypeName} {library library' : List Char}

/-- A library as it is spelled in C++. -/
def cppLibrary (t : TypeName) : List Char :=
  Text.replaceDouble '_' [':', ':'] t.library.toList

theorem qualify_c_eq_iff : Language.c.qualify t = Language.c.qualify t' ↔
    t = t' ∨ ReadsInto '_' t.library.toList t.name.toList t'.library.toList t'.name.toList ∨
      ReadsInto '_' t'.library.toList t'.name.toList t.library.toList t.name.toList := by
  rw [← String.toList_inj, toList_qualify, toList_qualify, replaceDouble_c, replaceDouble_c]
  refine append_separator_eq_iff.trans (or_congr ?_ Iff.rfl)
  rw [String.toList_inj, String.toList_inj, TypeName.eq_iff]

theorem qualify_cpp_eq_iff : Language.cpp.qualify t = Language.cpp.qualify t' ↔
    cppLibrary t = cppLibrary t' ∧ t.name = t'.name ∨
      ReadsInto ':' (cppLibrary t) t.name.toList (cppLibrary t') t'.name.toList ∨
      ReadsInto ':' (cppLibrary t') t'.name.toList (cppLibrary t) t.name.toList := by
  rw [← String.toList_inj, toList_qualify, toList_qualify]
  refine append_separator_eq_iff.trans (or_congr ?_ Iff.rfl)
  rw [String.toList_inj]
  rfl

/-- Where there is no colon, the pairs of underscores can be put back. -/
theorem replaceDouble_replaceDouble (hcolon : ':' ∉ library) :
    Text.replaceDouble ':' ['_', '_'] (Text.replaceDouble '_' [':', ':'] library) = library := by
  fun_induction Text.replaceDouble '_' [':', ':'] library with
  | case1 => rfl
  | case2 c => rfl
  | case3 c d cs h ih =>
    rw [List.mem_cons, List.mem_cons, not_or, not_or] at hcolon
    obtain ⟨rfl, rfl⟩ := h
    change Text.replaceDouble ':' ['_', '_']
      (':' :: ':' :: Text.replaceDouble '_' [':', ':'] cs) = _
    rw [Text.replaceDouble_pair, ih hcolon.2.2]
    rfl
  | case4 c d cs h ih =>
    rw [List.mem_cons, not_or] at hcolon
    rw [Text.replaceDouble_cons fun hc => hcolon.1 hc.1.symm, ih hcolon.2]

theorem cppLibrary_inj (hcolon : ':' ∉ t.library.toList) (hcolon' : ':' ∉ t'.library.toList) :
    cppLibrary t = cppLibrary t' ↔ t.library = t'.library := by
  constructor
  · intro h
    have hback := congrArg (Text.replaceDouble ':' ['_', '_']) h
    rw [cppLibrary, cppLibrary, replaceDouble_replaceDouble hcolon,
      replaceDouble_replaceDouble hcolon'] at hback
    exact String.toList_inj.mp hback
  · intro h
    rw [cppLibrary, cppLibrary, h]

end Language

/-! ## Types of a registry -/

/-- The name does not look like one with a library in C: no underscore begins it or stands before
another one. -/
def IsPlainName (name : String) : Prop :=
  ¬ ['_', '_'] <:+: name.toList ∧ name.toList.head? ≠ some '_'

instance (name : String) : Decidable (IsPlainName name) := inferInstanceAs (Decidable (_ ∧ _))

namespace TypeRegistry

variable {calls : List Registration} {t : TypeName} {d : TypeDecl}

/-- A declared type comes from a call that registers its library. -/
theorem exists_registration (h : (ofCalls calls).declaration? t = some d) :
    ∃ c ∈ calls, t.library = normalizeLibrary c.library ∧ d ∈ c.types ∧ t.name = d.name := by
  induction calls using List.reverseRecOn with
  | nil => cases h
  | append_singleton calls c ih =>
    have hearlier : (ofCalls calls).declaration? t = some d → ∃ e ∈ calls ++ [c],
        t.library = normalizeLibrary e.library ∧ d ∈ e.types ∧ t.name = d.name := by
      intro h
      obtain ⟨e, he, hdeclared⟩ := ih h
      exact ⟨e, List.mem_append_left _ he, hdeclared⟩
    obtain ⟨added, -, hadded, heq⟩ := exists_register_eq (ofCalls calls) c.library c.types
    rw [ofCalls_concat, heq, declaration?, OrderedMap.get?_insert] at h
    split at h
    · next hlibrary =>
      rw [Option.bind_some, List.find?_append, Option.or_eq_some_iff] at h
      obtain h | ⟨-, h⟩ := h
      · -- the library has it from before the call
        refine hearlier ?_
        rw [typesOf, libraryTypes?, ← hlibrary] at h
        rw [declaration?]
        cases hget : (ofCalls calls).libraries.get? t.library with
        | none => rw [hget] at h; cases h
        | some types => rw [hget] at h; exact h
      · have hname : d.name = t.name := by simpa using List.find?_some h
        exact ⟨c, List.mem_append_right _ List.mem_cons_self, hlibrary,
          hadded.subset (List.mem_of_find?_eq_some h), hname.symm⟩
    · exact hearlier h

/-- A type that the registry knows comes from a call or is a basic type. -/
theorem exists_registration_or_basic (h : (ofCalls calls).contains t = true) :
    (∃ c ∈ calls, t.library = normalizeLibrary c.library ∧ ∃ d ∈ c.types, t.name = d.name) ∨
      t.library = standardLibrary ∧ t.name ∈ basicTypes.map Prod.fst := by
  rw [contains, classify?] at h
  split at h
  · next d hd =>
    obtain ⟨c, hc, hlibrary, hmem, hname⟩ := exists_registration hd
    exact .inl ⟨c, hc, hlibrary, d, hmem, hname⟩
  · split at h
    · next hstandard =>
      refine .inr ⟨by simpa [TypeName.isStandard] using hstandard, ?_⟩
      simpa [basicCategory?] using h
    · cases h

theorem isPlainName_of_contains (h : (ofCalls calls).contains t = true)
    (hplain : ∀ c ∈ calls, ∀ d ∈ c.types, IsPlainName d.name) : IsPlainName t.name := by
  have hbasic : ∀ name ∈ basicTypes.map Prod.fst, IsPlainName name := by decide
  obtain ⟨c, hc, -, d, hd, hname⟩ | ⟨-, hname⟩ := exists_registration_or_basic h
  · exact hname ▸ hplain c hc d hd
  · exact hbasic t.name hname

theorem colon_not_mem_of_contains (h : (ofCalls calls).contains t = true)
    (hcolon : ∀ c ∈ calls, ':' ∉ c.library.toList ∧ ∀ d ∈ c.types, ':' ∉ d.name.toList) :
    ':' ∉ t.library.toList ∧ ':' ∉ t.name.toList := by
  have hbasic : ∀ name ∈ basicTypes.map Prod.fst, ':' ∉ name.toList := by decide
  obtain ⟨c, hc, hlibrary, d, hd, hname⟩ | ⟨hlibrary, hname⟩ := exists_registration_or_basic h
  · rw [hlibrary, hname]
    exact ⟨mt colon_mem_normalizeLibrary.mp (hcolon c hc).1, (hcolon c hc).2 d hd⟩
  · rw [hlibrary]
    exact ⟨by decide, hbasic t.name hname⟩

/-- After any calls, two types that the registry knows are spelled alike in C exactly when a part of
one name is read as the rest of the other library, and in C++ exactly when this is so of the
libraries as C++ spells them, or those are alike and the names are the same. No two types have the
same identifier in C as long as no declared name looks like one with a library, nor in C++ as long
as there are no colons in the names of libraries and types. -/
theorem qualify_ofCalls (calls : List Registration) :
    (∀ t t', (ofCalls calls).contains t = true → (ofCalls calls).contains t' = true → t ≠ t' →
      (Language.c.qualify t = Language.c.qualify t' ↔
        ReadsInto '_' t.library.toList t.name.toList t'.library.toList t'.name.toList ∨
          ReadsInto '_' t'.library.toList t'.name.toList t.library.toList t.name.toList) ∧
      (Language.cpp.qualify t = Language.cpp.qualify t' ↔
        Language.cppLibrary t = Language.cppLibrary t' ∧ t.name = t'.name ∨
          ReadsInto ':' (Language.cppLibrary t) t.name.toList
            (Language.cppLibrary t') t'.name.toList ∨
          ReadsInto ':' (Language.cppLibrary t') t'.name.toList
            (Language.cppLibrary t) t.name.toList)) ∧
    ((∀ c ∈ calls, ∀ d ∈ c.types, IsPlainName d.name) →
      Set.InjOn Language.c.qualify {t | (ofCalls calls).contains t = true}) ∧
    ((∀ c ∈ calls, ':' ∉ c.library.toList ∧ ∀ d ∈ c.types, ':' ∉ d.name.toList) →
      Set.InjOn Language.cpp.qualify {t | (ofCalls calls).contains t = true}) := by
  refine ⟨fun t t' _ _ hne => ⟨?_, Language.qualify_cpp_eq_iff⟩, ?_, ?_⟩
  · rw [Language.qualify_c_eq_iff, or_iff_right hne]
  · intro hplain t ht t' ht' hsame
    obtain heq | hreads | hreads := Language.qualify_c_eq_iff.mp hsame
    · exact heq
    · exact absurd hreads.infix_or_head? (not_or.mpr (isPlainName_of_contains ht hplain))
    · exact absurd hreads.infix_or_head? (not_or.mpr (isPlainName_of_contains ht' hplain))
  · intro hcolon t ht t' ht' hsame
    have hnone := colon_not_mem_of_contains ht hcolon
    have hnone' := colon_not_mem_of_contains ht' hcolon
    obtain ⟨hlibrary, hname⟩ | hreads | hreads := Language.qualify_cpp_eq_iff.mp hsame
    · rw [Language.cppLibrary_inj hnone.1 hnone'.1] at hlibrary
      exact TypeName.eq_iff.mpr ⟨hlibrary, hname⟩
    · exact absurd hreads.mem_name hnone.2
    · exact absurd hreads.mem_name hnone'.2

/-- A library and a library nested in it, each with a type of the same name. -/
def plainCalls : List Registration := [⟨"a", [.record "T" []]⟩, ⟨"a.b", [.record "T" []]⟩]

/-- Neither language confuses the two. -/
theorem qualify_ofCalls_plainCalls : ∃ t t', t ≠ t' ∧
    (∀ declared ∈ [t, t'], ((ofCalls plainCalls).declaration? declared).isSome) ∧
    Language.c.qualify t ≠ Language.c.qualify t' ∧
    Language.cpp.qualify t ≠ Language.cpp.qualify t' := by
  obtain ⟨-, hc, hcpp⟩ := qualify_ofCalls plainCalls
  have ht : (ofCalls plainCalls).contains (.inLibrary "a" "T") = true := by decide
  have ht' : (ofCalls plainCalls).contains (.inLibrary "a.b" "T") = true := by decide
  have hne : TypeName.inLibrary "a" "T" ≠ .inLibrary "a.b" "T" := by decide
  exact ⟨_, _, hne, by decide, fun h => hne (hc (by decide) ht ht' h),
    fun h => hne (hcpp (by decide) ht ht' h)⟩

/-- The library `a` declares two names that look like `T` of its nested library `b`. -/
def nestedCalls : List Registration :=
  [⟨"a", [.record "b__T" [], .record "b::T" []]⟩, ⟨"a.b", [.record "T" []]⟩]

/-- In each language one of the two has the identifier of the nested type. -/
theorem qualify_nestedCalls : ∃ t u v, t ≠ v ∧ u ≠ v ∧
    (∀ declared ∈ [t, u, v], ((ofCalls nestedCalls).declaration? declared).isSome) ∧
    Language.c.qualify t = Language.c.qualify v ∧
    Language.cpp.qualify u = Language.cpp.qualify v :=
  ⟨.inLibrary "a" "b__T", .inLibrary "a" "b::T", .inLibrary "a.b" "T", by decide, by decide,
    by decide, by decide, by decide⟩

end TypeRegistry

end Ecoa
