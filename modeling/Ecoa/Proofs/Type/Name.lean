import Ecoa.Proofs.Text.Trim
import Ecoa.Type.Name

/-!
# Texts of type names

A text names a type when a library and a name stand in it, with a colon between them. The type is
written with the kept spelling of its library, and the text is read as that type again unless its
first colon stands in the library or blanks at its ends are part of it (`parse?_text_iff`). So what
was read from a text once is read back from its own.
-/

namespace Ecoa

/-! ## Kept spellings of libraries -/

section

variable {library : String} {c : Char}

theorem mem_normalizeLibrary : c ∈ (normalizeLibrary library).toList ↔
    (c ∈ library.toList ∧ c ≠ '.') ∨ (c = '_' ∧ '.' ∈ library.toList) := by
  simp only [normalizeLibrary, Text.toList_replaceIf, List.mem_flatMap, decide_eq_true_eq]
  constructor
  · rintro ⟨d, hd, hc⟩
    split at hc
    · next hdot => exact .inr ⟨by simpa using hc, hdot ▸ hd⟩
    · next hdot =>
      rw [List.mem_singleton] at hc
      exact .inl ⟨hc ▸ hd, hc ▸ hdot⟩
  · rintro (⟨hc, hdot⟩ | ⟨rfl, hdot⟩)
    · exact ⟨c, hc, by rw [if_neg hdot]; exact List.mem_singleton_self c⟩
    · exact ⟨'.', hdot, by decide⟩

theorem dot_not_mem_normalizeLibrary (library : String) :
    '.' ∉ (normalizeLibrary library).toList := by
  rw [mem_normalizeLibrary]
  simp

/-- The kept spellings are those without a dot. -/
theorem normalizeLibrary_eq_self_iff :
    normalizeLibrary library = library ↔ '.' ∉ library.toList := by
  constructor
  · intro h
    rw [← h]
    exact dot_not_mem_normalizeLibrary library
  · intro h
    exact Text.replaceIf_eq_self fun c hc => decide_eq_false fun hdot => h (hdot ▸ hc)

/-- The kept spelling of a library name is kept as it is. -/
theorem normalizeLibrary_normalizeLibrary (library : String) :
    normalizeLibrary (normalizeLibrary library) = normalizeLibrary library :=
  normalizeLibrary_eq_self_iff.mpr (dot_not_mem_normalizeLibrary library)

theorem colon_mem_normalizeLibrary :
    ':' ∈ (normalizeLibrary library).toList ↔ ':' ∈ library.toList := by
  rw [mem_normalizeLibrary]
  simp

theorem toList_normalizeLibrary_of_eq_cons {cs : List Char} (h : library.toList = c :: cs) :
    ∃ ds, (normalizeLibrary library).toList = (if c = '.' then '_' else c) :: ds := by
  rw [normalizeLibrary, Text.toList_replaceIf, h, List.flatMap_cons]
  by_cases hdot : c = '.'
  · simp [hdot]
  · simp [hdot]

end

/-- The reference names a library and a type in it; the library ends at the first colon. -/
structure IsQualified (reference library name : String) : Prop where
  text_eq : Text.trim reference = library ++ ":" ++ name
  colon_not_mem : ':' ∉ library.toList
  library_ne : library ≠ ""
  name_ne : name ≠ ""

namespace TypeName

variable {text library name : String} {t : TypeName}

theorem parse?_trim (text : String) : parse? (Text.trim text) = parse? text := by
  rw [parse?, parse?, Text.trim_trim]

/-- A bare text names no type. -/
theorem parse?_of_colon_not_mem (h : ':' ∉ text.toList) : parse? text = none := by
  have hcut : Text.cutFirst ':' (Text.trim text).toList = none := by
    rw [Text.cutFirst_eq_none_iff, Text.toList_trim]
    exact fun hmem => h ((Text.trimEnds_sublist _).subset hmem)
  rw [parse?, hcut]

/-- A text is read as the type that it names. -/
theorem parse?_eq_some_iff : parse? text = some t ↔
    ∃ library name, IsQualified text library name ∧ t = inLibrary library name := by
  have hcut : ∀ library name : String,
      Text.cutFirst ':' (Text.trim text).toList = some (library.toList, name.toList) ↔
        Text.trim text = library ++ ":" ++ name ∧ ':' ∉ library.toList := by
    intro library name
    rw [Text.cutFirst_eq_some_iff, ← String.toList_inj]
    simp
  constructor
  · intro h
    unfold parse? at h
    split at h
    · next library name heq =>
      split at h
      · cases h
      · next hne =>
        cases h
        obtain ⟨htext, hcolon⟩ := (hcut (.ofList library) (.ofList name)).mp (by simpa using heq)
        exact ⟨_, _, ⟨htext, hcolon, by simpa using (not_or.mp hne).1,
          by simpa using (not_or.mp hne).2⟩, rfl⟩
    · cases h
  · rintro ⟨library, name, h, rfl⟩
    have hne : ¬ (library.toList = [] ∨ name.toList = []) := by
      rw [String.toList_eq_nil_iff, String.toList_eq_nil_iff, not_or]
      exact ⟨h.library_ne, h.name_ne⟩
    rw [parse?, (hcut library name).mpr ⟨h.text_eq, h.colon_not_mem⟩]
    simp only [if_neg hne, String.ofList_toList]

/-- The text of the type is cut between its library and its name, and trimming takes nothing from
it. -/
structure IsReadable (t : TypeName) : Prop where
  library_ne : t.library ≠ ""
  colon_not_mem : ':' ∉ t.library.toList
  head_library : ∀ c ∈ t.library.toList.head?, Text.isBlank c = false
  name_ne : t.name ≠ ""
  last_name : ∀ c ∈ t.name.toList.getLast?, Text.isBlank c = false

/-- The ends of the text are those of its parts. -/
theorem trim_append_eq_self_iff (hlibrary : library ≠ "") (hname : name ≠ "") :
    Text.trim (library ++ ":" ++ name) = library ++ ":" ++ name ↔
      (∀ c ∈ library.toList.head?, Text.isBlank c = false) ∧
        ∀ c ∈ name.toList.getLast?, Text.isBlank c = false := by
  have hchars : (library ++ ":" ++ name).toList = library.toList ++ ':' :: name.toList := by simp
  rw [← String.toList_inj, Text.toList_trim, Text.trimEnds_eq_self_iff, hchars,
    List.head?_append_of_ne_nil _ (mt String.toList_eq_nil_iff.mp hlibrary),
    List.getLast?_append_cons,
    List.getLast?_cons_of_ne_nil (mt String.toList_eq_nil_iff.mp hname)]

theorem IsReadable.isQualified (h : t.IsReadable) : IsQualified t.text t.library t.name where
  text_eq := (trim_append_eq_self_iff h.library_ne h.name_ne).mpr ⟨h.head_library, h.last_name⟩
  colon_not_mem := h.colon_not_mem
  library_ne := h.library_ne
  name_ne := h.name_ne

/-- What is read from a text can be read from its own. -/
theorem isReadable_of_parse? (h : parse? text = some t) : t.IsReadable := by
  obtain ⟨library, name, hq, rfl⟩ := parse?_eq_some_iff.mp h
  have htrim : Text.trim (library ++ ":" ++ name) = library ++ ":" ++ name := by
    rw [← hq.text_eq, Text.trim_trim]
  obtain ⟨hhead, hlast⟩ := (trim_append_eq_self_iff hq.library_ne hq.name_ne).mp htrim
  obtain ⟨c, cs, hc⟩ := List.exists_cons_of_ne_nil (mt String.toList_eq_nil_iff.mp hq.library_ne)
  obtain ⟨ds, hds⟩ := toList_normalizeLibrary_of_eq_cons hc
  refine ⟨fun hempty => ?_, mt colon_mem_normalizeLibrary.mp hq.colon_not_mem, fun d hd => ?_,
    hq.name_ne, hlast⟩
  · rw [← String.toList_eq_nil_iff] at hempty
    cases hds.symm.trans hempty
  · -- a dot at the beginning is kept as an underscore
    have hfirst : (if c = '.' then '_' else c) = d :=
      Option.some.inj ((congrArg List.head? hds).symm.trans hd)
    rw [← hfirst]
    split
    · decide
    · exact hhead c (by rw [hc]; rfl)

/-- Of the type names whose library has its kept spelling, those that are readable are read back. -/
theorem parse?_text_eq_some_iff :
    parse? t.text = some t ↔ '.' ∉ t.library.toList ∧ t.IsReadable := by
  constructor
  · intro h
    refine ⟨?_, isReadable_of_parse? h⟩
    obtain ⟨library, name, -, rfl⟩ := parse?_eq_some_iff.mp h
    exact dot_not_mem_normalizeLibrary library
  · rintro ⟨hdot, h⟩
    refine parse?_eq_some_iff.mpr ⟨t.library, t.name, h.isQualified, ?_⟩
    rw [inLibrary, normalizeLibrary_eq_self_iff.mpr hdot]

/-- The name of a type in any library is read back from its text exactly when its library is not
empty, has no colon and begins with no blank, and its name is not empty and ends with no blank. So a
type that is read from any text is read back from its own. -/
theorem parse?_text_iff :
    (∀ library name, parse? (inLibrary library name).text = some (inLibrary library name) ↔
      (inLibrary library name).IsReadable) ∧
    ∀ text t, parse? text = some t → parse? t.text = some t := by
  have hnew : ∀ library name, parse? (inLibrary library name).text =
      some (inLibrary library name) ↔ (inLibrary library name).IsReadable := fun library _ =>
    parse?_text_eq_some_iff.trans (and_iff_right (dot_not_mem_normalizeLibrary library))
  refine ⟨hnew, fun text t h => ?_⟩
  have hreadable := isReadable_of_parse? h
  obtain ⟨library, name, -, rfl⟩ := parse?_eq_some_iff.mp h
  exact (hnew library name).mpr hreadable

/-- The blanks at the ends of a text are lost and the dots of a library give way; what is read has a
text of its own. -/
theorem parse?_text_iff_position :
    parse? "\t nav.geo:Position 2\u3000" = some ⟨"nav__geo", "Position 2"⟩ ∧
      parse? "nav__geo:Position 2" = some ⟨"nav__geo", "Position 2"⟩ := by
  have hread : parse? "\t nav.geo:Position 2\u3000" = some ⟨"nav__geo", "Position 2"⟩ := by
    decide +kernel
  have hback := parse?_text_iff.2 _ _ hread
  have htext : TypeName.text ⟨"nav__geo", "Position 2"⟩ = "nav__geo:Position 2" := rfl
  rw [htext] at hback
  exact ⟨hread, hback⟩

/-- A blank before the library is lost, so another type is read. -/
example : parse? (inLibrary " geo" "Position").text = some ⟨"geo", "Position"⟩ := by decide +kernel

end TypeName

end Ecoa
