import Ecoa.Proofs.Type.Lookup
import Mathlib.Data.List.Induction

/-!
# Registration of libraries

A call registers the declarations of a library in order, up to the first that the library refuses: a
name is declared only once in it, and the standard library keeps the names of the basic types. What
is registered stays where it is through any later calls, whether they fail or not.
-/

namespace Ecoa

/-- A call that registers declarations of a library. -/
structure Registration where
  library : String
  types : List TypeDecl

namespace TypeRegistry

/-- The registry after calls, those that failed included. -/
def ofCalls (calls : List Registration) : TypeRegistry :=
  calls.foldl (fun r c => (r.register c.library c.types).1) empty

/-- The declarations of a library, none if there is no such library. -/
def typesOf (r : TypeRegistry) (library : String) : List TypeDecl :=
  (r.libraryTypes? library).getD []

/-- After the declarations `before` of the same call, the library has no place for `d`. -/
def Refuses (r : TypeRegistry) (library : String) (before : List TypeDecl) (d : TypeDecl) : Prop :=
  (∃ d' ∈ r.typesOf library, d'.name = d.name) ∨ (∃ d' ∈ before, d'.name = d.name) ∨
    (normalizeLibrary library = standardLibrary ∧ d.name ∈ basicTypes.map Prod.fst)

/-- The library refuses none of the declarations. -/
def Accepts (r : TypeRegistry) (library : String) (types : List TypeDecl) : Prop :=
  ∀ before d after, types = before ++ d :: after → ¬ r.Refuses library before d

/-- The registry has what another has, in the same order, and maybe more after it. -/
structure Extends (r' r : TypeRegistry) : Prop where
  names : r.libraryNames <+: r'.libraryNames
  types : ∀ library types, r.libraries.get? library = some types →
    ∃ more, r'.libraries.get? library = some (types ++ more)

variable {r r' : TypeRegistry} {library key : String} {types present before after : List TypeDecl}
  {d : TypeDecl}

/-! ## One call -/

/-- What the library refuses is what cannot come after all that is there by then. -/
theorem refuses_iff : r.Refuses library before d ↔
    (normalizeLibrary library = standardLibrary ∧ (basicCategory? d.name).isSome) ∨
      declares (r.typesOf library ++ before) d.name = true := by
  have hbasic : (basicCategory? d.name).isSome = true ↔ d.name ∈ basicTypes.map Prod.fst := by
    simp [basicCategory?]
  unfold Refuses declares
  rw [hbasic, ← or_assoc, or_comm]
  simp only [List.any_append, Bool.or_eq_true, List.any_eq_true, decide_eq_true_eq]

theorem accepts_nil : r.Accepts library [] := by
  intro before d after h
  simp at h

/-- The library accepts one more declaration when it accepts those before it, and then it. -/
theorem accepts_concat : r.Accepts library (before ++ [d]) ↔
    r.Accepts library before ∧ ¬ r.Refuses library before d := by
  constructor
  · intro h
    refine ⟨fun earlier e rest hbefore => ?_, h before d [] rfl⟩
    apply h earlier e (rest ++ [d])
    rw [hbefore, List.append_assoc, List.cons_append]
  · rintro ⟨hbefore, hd⟩ earlier e rest heq
    rcases List.eq_nil_or_concat rest with rfl | ⟨rest, last, rfl⟩
    · obtain ⟨rfl, hlast⟩ := List.append_inj' heq rfl
      cases hlast
      exact hd
    · rw [List.concat_eq_append, ← List.cons_append, ← List.append_assoc] at heq
      exact hbefore earlier e rest (List.append_inj' heq rfl).1

/-- What is not accepted has a first declaration that is refused. -/
theorem accepts_or_exists_first (r : TypeRegistry) (library : String) (types : List TypeDecl) :
    r.Accepts library types ∨ ∃ before d after, types = before ++ d :: after ∧
      r.Accepts library before ∧ r.Refuses library before d := by
  induction types using List.reverseRecOn with
  | nil => exact .inl accepts_nil
  | append_singleton types d ih =>
    obtain haccepts | ⟨before, e, after, rfl, hbefore, he⟩ := ih
    · by_cases hd : r.Refuses library types d
      · exact .inr ⟨types, d, [], rfl, haccepts, hd⟩
      · exact .inl (accepts_concat.mpr ⟨haccepts, hd⟩)
    · refine .inr ⟨before, e, after ++ [d], ?_, hbefore, he⟩
      rw [List.append_assoc, List.cons_append]

/-- Declarations that are accepted come after those that are there. -/
theorem addTypes_of_accepts (h : r.Accepts library before) (rest : List TypeDecl) :
    addTypes (normalizeLibrary library) (r.typesOf library) (before ++ rest) =
      addTypes (normalizeLibrary library) (r.typesOf library ++ before) rest := by
  induction before using List.reverseRecOn generalizing rest with
  | nil => rw [List.nil_append, List.append_nil]
  | append_singleton before d ih =>
    obtain ⟨hbefore, hd⟩ := accepts_concat.mp h
    rw [List.append_assoc, List.singleton_append, ih hbefore, addTypes,
      if_neg fun hrefuses => hd (refuses_iff.mpr hrefuses), List.append_assoc]

theorem register_eq : r.register library types =
    (⟨r.libraries.insert (normalizeLibrary library)
      (addTypes (normalizeLibrary library) (r.typesOf library) types).1⟩,
      (addTypes (normalizeLibrary library) (r.typesOf library) types).2) := rfl

theorem register_of_accepts (h : r.Accepts library types) : r.register library types =
    (⟨r.libraries.insert (normalizeLibrary library) (r.typesOf library ++ types)⟩, none) := by
  have hadded := addTypes_of_accepts h []
  rw [List.append_nil] at hadded
  rw [register_eq, hadded]
  rfl

/-- The first declaration that is refused ends the call. -/
theorem register_of_refuses (h : r.Accepts library before) (hd : r.Refuses library before d)
    (after : List TypeDecl) : r.register library (before ++ d :: after) =
      (⟨r.libraries.insert (normalizeLibrary library) (r.typesOf library ++ before)⟩,
        some (.duplicateType (TypeName.inLibrary library d.name).text)) := by
  rw [register_eq, addTypes_of_accepts h, addTypes, if_pos (refuses_iff.mp hd), TypeName.inLibrary,
    normalizeLibrary_normalizeLibrary]
  rfl

/-- A call fails exactly on declarations of which one is refused. -/
theorem register_eq_none_iff : (r.register library types).2 = none ↔ r.Accepts library types := by
  refine ⟨fun h => ?_, fun h => by rw [register_of_accepts h]⟩
  obtain haccepts | ⟨before, d, after, rfl, hbefore, hd⟩ := accepts_or_exists_first r library types
  · exact haccepts
  · rw [register_of_refuses hbefore hd] at h
    cases h

/-- The error of a call is that of the first declaration that is refused. -/
theorem register_eq_some_iff {e : ModelError} : (r.register library types).2 = some e ↔
    ∃ before d after, types = before ++ d :: after ∧ r.Accepts library before ∧
      r.Refuses library before d ∧
      e = .duplicateType (TypeName.inLibrary library d.name).text := by
  constructor
  · intro h
    obtain haccepts | ⟨before, d, after, rfl, hbefore, hd⟩ :=
      accepts_or_exists_first r library types
    · rw [register_of_accepts haccepts] at h
      cases h
    · rw [register_of_refuses hbefore hd] at h
      exact ⟨before, d, after, rfl, hbefore, hd, (Option.some.inj h).symm⟩
  · rintro ⟨before, d, after, rfl, hbefore, hd, rfl⟩
    rw [register_of_refuses hbefore hd]

theorem typesOf_insert (types : List TypeDecl) :
    typesOf ⟨r.libraries.insert (normalizeLibrary library) types⟩ library = types := by
  simp only [typesOf, libraryTypes?, OrderedMap.get?_insert, if_true, Option.getD_some]

/-- Whatever comes of a call, it appends to one library. -/
theorem exists_register_eq (r : TypeRegistry) (library : String) (types : List TypeDecl) :
    ∃ added, r.Accepts library added ∧ added <+: types ∧ (r.register library types).1 =
      ⟨r.libraries.insert (normalizeLibrary library) (r.typesOf library ++ added)⟩ := by
  obtain haccepts | ⟨before, d, after, rfl, hbefore, hd⟩ := accepts_or_exists_first r library types
  · exact ⟨types, haccepts, List.prefix_refl types, by rw [register_of_accepts haccepts]⟩
  · exact ⟨before, hbefore, List.prefix_append before _, by rw [register_of_refuses hbefore hd]⟩

theorem libraryTypes?_register_of_ne {other : String}
    (h : normalizeLibrary other ≠ normalizeLibrary library) :
    (r.register library types).1.libraryTypes? other = r.libraryTypes? other := by
  obtain ⟨added, -, -, heq⟩ := exists_register_eq r library types
  rw [heq, libraryTypes?, OrderedMap.get?_insert, if_neg h]
  rfl

/-! ## Any calls -/

theorem Extends.refl (r : TypeRegistry) : r.Extends r :=
  ⟨List.prefix_refl _, fun _ types h => ⟨[], by rw [h, List.append_nil]⟩⟩

theorem Extends.trans {r'' : TypeRegistry} (h' : r''.Extends r') (h : r'.Extends r) :
    r''.Extends r := by
  refine ⟨h.names.trans h'.names, fun library types htypes => ?_⟩
  obtain ⟨more, hmore⟩ := h.types library types htypes
  obtain ⟨later, hlater⟩ := h'.types library (types ++ more) hmore
  exact ⟨more ++ later, by rw [hlater, List.append_assoc]⟩

/-- A name means the declaration that it meant before. -/
theorem Extends.declaration? (h : r'.Extends r) {t : TypeName} (hd : r.declaration? t = some d) :
    r'.declaration? t = some d := by
  obtain ⟨types, htypes, hfind⟩ := Option.bind_eq_some_iff.mp hd
  obtain ⟨more, hmore⟩ := h.types t.library types htypes
  rw [TypeRegistry.declaration?, hmore, Option.bind_some, List.find?_append, hfind, Option.some_or]

/-- A call leaves everything that is there in its place. -/
theorem register_extends (r : TypeRegistry) (library : String) (types : List TypeDecl) :
    (r.register library types).1.Extends r := by
  obtain ⟨added, -, -, heq⟩ := exists_register_eq r library types
  rw [heq]
  refine ⟨?_, fun other present hpresent => ?_⟩
  · unfold libraryNames
    by_cases hkey : normalizeLibrary library ∈ r.libraries.keys
    · exact ⟨[], by rw [OrderedMap.keys_insert_of_mem hkey, List.append_nil]⟩
    · rw [OrderedMap.keys_insert_of_not_mem hkey]
      exact List.prefix_append _ _
  · rw [OrderedMap.get?_insert]
    split
    · next hother =>
      have hpresent' : r.typesOf library = present := by
        rw [typesOf, libraryTypes?, ← hother, hpresent, Option.getD_some]
      exact ⟨added, by rw [hpresent']⟩
    · exact ⟨[], by rw [hpresent, List.append_nil]⟩

theorem ofCalls_concat (calls : List Registration) (c : Registration) :
    ofCalls (calls ++ [c]) = ((ofCalls calls).register c.library c.types).1 := by
  rw [ofCalls, List.foldl_append]
  rfl

/-- What each call keeps holds after any calls. -/
theorem ofCalls_invariant {I : TypeRegistry → Prop} (hempty : I empty)
    (hregister : ∀ r library types, I r → I (register r library types).1)
    (calls : List Registration) : I (ofCalls calls) := by
  induction calls using List.reverseRecOn with
  | nil => exact hempty
  | append_singleton calls c ih => exact ofCalls_concat calls c ▸ hregister _ c.library c.types ih

theorem ofCalls_extends (calls later : List Registration) :
    (ofCalls (calls ++ later)).Extends (ofCalls calls) := by
  induction later using List.reverseRecOn with
  | nil =>
    rw [List.append_nil]
    exact .refl _
  | append_singleton later c ih =>
    rw [← List.append_assoc, ofCalls_concat]
    exact (register_extends _ c.library c.types).trans ih

/-! ## Basic types -/

/-- The standard library declares no name of a basic type. -/
def KeepsBasic (r : TypeRegistry) : Prop :=
  ∀ d ∈ r.typesOf standardLibrary, d.name ∉ basicTypes.map Prod.fst

theorem normalizeLibrary_standardLibrary : normalizeLibrary standardLibrary = standardLibrary := by
  decide

theorem Accepts.not_basic (h : r.Accepts library types)
    (hlibrary : normalizeLibrary library = standardLibrary) (hd : d ∈ types) :
    d.name ∉ basicTypes.map Prod.fst := by
  obtain ⟨before, after, rfl⟩ := List.append_of_mem hd
  exact fun hbasic => h before d after rfl (.inr (.inr ⟨hlibrary, hbasic⟩))

theorem KeepsBasic.register (h : r.KeepsBasic) (library : String) (types : List TypeDecl) :
    (r.register library types).1.KeepsBasic := by
  intro d hd
  by_cases hlibrary : normalizeLibrary library = standardLibrary
  · obtain ⟨added, haccepts, -, heq⟩ := exists_register_eq r library types
    have hsame : ∀ r : TypeRegistry, r.typesOf library = r.typesOf standardLibrary := by
      intro r
      rw [typesOf, typesOf, libraryTypes?, libraryTypes?, hlibrary,
        normalizeLibrary_standardLibrary]
    rw [heq, ← hsame, typesOf_insert, List.mem_append] at hd
    rcases hd with hd | hd
    · exact h d (hsame r ▸ hd)
    · exact haccepts.not_basic hlibrary hd
  · have hother : normalizeLibrary standardLibrary ≠ normalizeLibrary library := by
      rw [normalizeLibrary_standardLibrary]
      exact Ne.symm hlibrary
    rw [typesOf, libraryTypes?_register_of_ne hother] at hd
    exact h d hd

theorem keepsBasic_ofCalls (calls : List Registration) : (ofCalls calls).KeepsBasic := by
  refine ofCalls_invariant (I := KeepsBasic) ?_ (fun _ library types h => ?_) calls
  · exact nofun
  · exact h.register library types

/-- A basic type has its own category as long as the standard library leaves its name alone. -/
theorem KeepsBasic.classify? (h : r.KeepsBasic) {b : String × TypeCategory} (hb : b ∈ basicTypes) :
    r.classify? (.standard b.1) = some b.2 := by
  have hcategory : ∀ b ∈ basicTypes, basicCategory? b.1 = some b.2 := by decide
  have hnone : r.declaration? (.standard b.1) = none := by
    rw [Option.eq_none_iff_forall_ne_some]
    intro d hd
    obtain ⟨types, htypes, hfind⟩ := Option.bind_eq_some_iff.mp hd
    have hfound := List.find?_some hfind
    have hname : d.name = b.1 := of_decide_eq_true hfound
    have hmem : d ∈ r.typesOf standardLibrary := by
      have hget : r.libraries.get? standardLibrary = some types := htypes
      rw [typesOf, libraryTypes?, normalizeLibrary_standardLibrary, hget, Option.getD_some]
      exact List.mem_of_find?_eq_some hfind
    exact h d hmem (hname ▸ List.mem_map_of_mem hb)
  rw [TypeRegistry.classify?, hnone]
  exact hcategory b hb

/-- After any calls, a call registers the declarations before the first whose name its library
declares already, which comes before in the same call, or which is that of a basic type in the
standard library. The error names that declaration, and there is none when all are registered. No
call changes or moves what is registered, and the basic types keep their categories. -/
theorem register_ofCalls (calls : List Registration) (library : String) (types : List TypeDecl) :
    ((∃ e, ((ofCalls calls).register library types).2 = some e) ↔ ∃ before d after,
      types = before ++ d :: after ∧ (ofCalls calls).Refuses library before d) ∧
    (∀ e, ((ofCalls calls).register library types).2 = some e ↔ ∃ before d after,
      types = before ++ d :: after ∧ (ofCalls calls).Accepts library before ∧
        (ofCalls calls).Refuses library before d ∧
        e = .duplicateType (normalizeLibrary library ++ ":" ++ d.name) ∧
        ((ofCalls calls).register library types).1.typesOf library =
          (ofCalls calls).typesOf library ++ before) ∧
    (((ofCalls calls).register library types).2 = none →
      ((ofCalls calls).register library types).1.typesOf library =
        (ofCalls calls).typesOf library ++ types) ∧
    (∀ other, normalizeLibrary other ≠ normalizeLibrary library →
      ((ofCalls calls).register library types).1.libraryTypes? other =
        (ofCalls calls).libraryTypes? other) ∧
    (∀ later, (ofCalls (calls ++ later)).Extends (ofCalls calls) ∧
      ∀ t d, (ofCalls calls).declaration? t = some d →
        (ofCalls (calls ++ later)).declaration? t = some d) ∧
    ∀ b ∈ basicTypes, (ofCalls calls).classify? (.standard b.1) = some b.2 := by
  refine ⟨?_, fun e => ?_, fun h => ?_, fun other => libraryTypes?_register_of_ne,
    fun later => ⟨ofCalls_extends calls later,
      fun _ _ => (ofCalls_extends calls later).declaration?⟩,
    fun b => (keepsBasic_ofCalls calls).classify?⟩
  · constructor
    · rintro ⟨e, he⟩
      obtain ⟨before, d, after, htypes, -, hd, -⟩ := register_eq_some_iff.mp he
      exact ⟨before, d, after, htypes, hd⟩
    · rintro ⟨before, d, after, htypes, hd⟩
      rw [← Option.ne_none_iff_exists', ne_eq, register_eq_none_iff]
      exact fun haccepts => haccepts before d after htypes hd
  · rw [register_eq_some_iff]
    constructor
    · rintro ⟨before, d, after, rfl, hbefore, hd, rfl⟩
      refine ⟨before, d, after, rfl, hbefore, hd, rfl, ?_⟩
      rw [register_of_refuses hbefore hd, typesOf_insert]
    · rintro ⟨before, d, after, rfl, hbefore, hd, rfl, -⟩
      exact ⟨before, d, after, rfl, hbefore, hd, rfl⟩
  · rw [register_of_accepts (register_eq_none_iff.mp h), typesOf_insert]

end TypeRegistry

end Ecoa
