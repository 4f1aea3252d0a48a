import Ecoa.Component.Entities
import Ecoa.Proofs.Except
import Ecoa.Proofs.Text.Trim
import Ecoa.Proofs.Type.Registration
import Ecoa.Proofs.Type.Underlying

/-!
# What names of types mean

Whichever way the meaning of a name is found, the registry knows it. What uses the meaning asks for
its category, so it never has to report that there is none.
-/

namespace Ecoa

theorem CategorySet.contains_all (c : TypeCategory) : all.contains c = true := by
  cases c <;> decide

namespace TypeRegistry

variable {r : TypeRegistry} {t u : TypeName} {name library context : String} {d : TypeDecl}
  {k : Nat}

theorem isNormalized_ofCalls (calls : List Registration) : (ofCalls calls).IsNormalized :=
  ofCalls_invariant (I := IsNormalized) isNormalized_empty
    (fun _ library types h => h.register library types) calls

/-! ## Declared names -/

/-- No library declares a name twice. -/
def DeclaresOnce (r : TypeRegistry) : Prop :=
  ∀ library, ((r.typesOf library).map (·.name)).Nodup

/-- What a library accepts has names that are new in it. -/
theorem Accepts.nodup {types : List TypeDecl} (h : r.Accepts library types)
    (hr : ((r.typesOf library).map (·.name)).Nodup) :
    ((r.typesOf library ++ types).map (·.name)).Nodup := by
  induction types using List.reverseRecOn with
  | nil => rwa [List.append_nil]
  | append_singleton types d ih =>
    obtain ⟨hbefore, hd⟩ := accepts_concat.mp h
    have hnew : d.name ∉ (r.typesOf library ++ types).map (·.name) := by
      rw [refuses_iff, not_or] at hd
      simpa [declares] using hd.2
    rw [← List.append_assoc, List.map_append]
    exact List.nodup_append.mpr ⟨ih hbefore, List.nodup_singleton _, by grind⟩

theorem DeclaresOnce.register (h : r.DeclaresOnce) (library : String) (types : List TypeDecl) :
    (r.register library types).1.DeclaresOnce := by
  intro other
  by_cases hsame : normalizeLibrary other = normalizeLibrary library
  · obtain ⟨added, haccepts, -, heq⟩ := exists_register_eq r library types
    have htypes : (r.register library types).1.typesOf other = r.typesOf library ++ added := by
      rw [heq, typesOf, libraryTypes?, hsame]
      exact typesOf_insert _
    rw [htypes]
    exact haccepts.nodup (h library)
  · rw [typesOf, libraryTypes?_register_of_ne hsame]
    exact h other

theorem declaresOnce_ofCalls (calls : List Registration) : (ofCalls calls).DeclaresOnce :=
  ofCalls_invariant (I := DeclaresOnce) (fun _ => List.nodup_nil)
    (fun _ library types h => h.register library types) calls

/-- A declaration of a library is what its name means there. -/
theorem DeclaresOnce.declaration? (h : r.DeclaresOnce) (hd : d ∈ r.typesOf library) :
    r.declaration? (.inLibrary library d.name) = some d := by
  have hfind : (r.typesOf library).find? (·.name = d.name) = some d := by
    obtain ⟨e, he⟩ : ∃ e, (r.typesOf library).find? (·.name = d.name) = some e :=
      Option.isSome_iff_exists.mp (List.find?_isSome.mpr ⟨d, hd, decide_eq_true rfl⟩)
    have hname : e.name = d.name := by simpa using List.find?_some he
    have hsame : e = d :=
      List.inj_on_of_nodup_map (h library) (List.mem_of_find?_eq_some he) hd hname
    rw [he, hsame]
  unfold typesOf libraryTypes? at hfind
  rw [TypeRegistry.declaration?, TypeName.inLibrary]
  cases htypes : r.libraries.get? (normalizeLibrary library) with
  | none => rw [htypes] at hfind; cases hfind
  | some types => rwa [htypes] at hfind

/-- A library sees its own declarations first. -/
theorem resolveFrom_of_mem (hd : d ∈ r.typesOf library) (hname : d.name = Text.trim name)
    (hcolon : ':' ∉ (Text.trim name).toList) :
    r.resolveFrom name library context = .ok (.inLibrary library (Text.trim name)) := by
  have howns : r.ownsBare library (Text.trim name) = true := by
    unfold typesOf at hd
    rw [ownsBare, decide_eq_true_eq]
    refine ⟨hcolon, ?_⟩
    cases htypes : r.libraryTypes? library with
    | none => rw [htypes] at hd; cases hd
    | some types =>
      rw [htypes] at hd
      exact List.any_eq_true.mpr ⟨d, hd, decide_eq_true hname⟩
  rw [resolveFrom, if_pos howns]

/-! ## Bare names -/

theorem head?_findAll (r : TypeRegistry) (name : String) :
    (r.findAll none (some name) .all).head? = r.libraries.toList.findSome? fun e =>
      (e.2.find? (·.name = name)).map fun d => (.inLibrary e.1 d.name, d) := by
  simp only [findAll, Option.all_none, List.filter_true, List.head?_filter, List.find?_flatMap,
    List.find?_map, Option.all_some, CategorySet.contains_all, Bool.and_true, Function.comp_def,
    eq_comm]

/-- A bare name means the first declaration of that name, and a basic type when there is none. -/
theorem lookupBare_eq (r : TypeRegistry) (name : String) :
    r.lookupBare name = ((r.findAll none (some name) .all).head?.map Prod.fst).or
      (if (basicCategory? name).isSome then some (.standard name) else none) := by
  rw [head?_findAll, lookupBare]
  induction r.libraries.toList with
  | nil => rfl
  | cons e libraries ih =>
    rw [List.find?_cons, List.findSome?_cons]
    cases hfind : e.2.find? (·.name = name) with
    | none =>
      have hdeclares : declares e.2 name = false := by
        simpa [declares] using hfind
      rw [hdeclares]
      exact ih
    | some d =>
      have hname : d.name = name := by simpa using List.find?_some hfind
      have hdeclares : declares e.2 name = true :=
        List.any_eq_true.mpr ⟨d, List.mem_of_find?_eq_some hfind, decide_eq_true hname⟩
      rw [hdeclares, Option.map_some, hname]
      rfl

theorem lookup_of_parse?_eq_none (h : TypeName.parse? name = none) :
    r.lookup name = r.lookupBare (Text.trim name) := by
  have hparse : TypeName.parse? (Text.trim name) = none := by
    rw [TypeName.parse?_trim, h]
  unfold lookup
  dsimp only
  rw [hparse]

/-! ## Known types -/

theorem contains_of_resolve (hr : r.IsNormalized) (h : r.resolve name context = .ok t) :
    r.contains t = true := by
  unfold resolve at h
  split at h
  · next hlookup =>
    cases h
    exact contains_of_lookup hr hlookup
  · cases h

theorem contains_of_resolveFrom (hr : r.IsNormalized)
    (h : r.resolveFrom name library context = .ok t) : r.contains t = true := by
  unfold resolveFrom at h
  dsimp only at h
  split at h
  · next howns =>
    cases h
    obtain ⟨-, howns⟩ := of_decide_eq_true howns
    obtain ⟨types, htypes, hdeclares⟩ := (Option.any_eq_true _ _).mp howns
    exact contains_of_declaration?
      (declaration?_isSome (OrderedMap.get?_eq_some_iff.mp htypes) hdeclares)
  · exact contains_of_resolve hr h

/-- A chain of constants stays among the known types. -/
theorem contains_of_chain (hr : r.IsNormalized) (ht : r.contains t = true)
    (h : r.chain k t = some u) : r.contains u = true := by
  cases k with
  | zero =>
    cases h
    exact ht
  | succ k =>
    obtain ⟨v, -, hu⟩ := Option.bind_eq_some_iff.mp (chain_succ k t ▸ h)
    obtain ⟨type, -, hresolve⟩ : ∃ type, r.constantType? v = some type ∧
        r.resolveFrom type v.library "" = .ok u := next?_eq_some_iff.mp hu
    exact contains_of_resolveFrom hr hresolve

theorem contains_of_underlying (hr : r.IsNormalized) (ht : r.contains t = true)
    (h : r.underlying t context = .ok u) : r.contains u = true := by
  obtain ⟨k, hu, -⟩ := underlying_eq_ok_iff.mp h
  exact contains_of_chain hr ht hu

/-- Where only known types are found, asking for their categories does not fail. -/
theorem bind_classify?_error_iff {α : Type} {x : Except ModelError TypeName}
    {f : TypeName → TypeCategory → α} {unknown : TypeName → ModelError} {e : ModelError}
    (hx : ∀ t, x = .ok t → r.contains t = true) :
    (x >>= fun t => match r.classify? t with
      | some category => pure (f t category)
      | none => throw (unknown t)) = .error e ↔ x = .error e := by
  rw [bind_error_iff, or_iff_left]
  rintro ⟨t, ht, herror⟩
  obtain ⟨category, hcategory⟩ := Option.isSome_iff_exists.mp (hx t ht)
  rw [hcategory] at herror
  cases herror

end TypeRegistry

namespace ComponentContext

variable {cx : ComponentContext} {name context : String} {t : TypeName} {category : TypeCategory}
  {e : ModelError}

theorem typed_ok_iff : cx.typed name context = .ok (t, category) ↔
    cx.registry.resolve name context = .ok t ∧ cx.registry.classify? t = some category := by
  unfold typed
  rw [bind_ok_iff]
  constructor
  · rintro ⟨u, hu, h⟩
    split at h
    · next hcategory =>
      cases h
      exact ⟨hu, hcategory⟩
    · cases h
  · rintro ⟨ht, hcategory⟩
    refine ⟨t, ht, ?_⟩
    rw [hcategory]
    rfl

theorem typed_error_iff (hr : cx.registry.IsNormalized) : cx.typed name context = .error e ↔
    cx.registry.resolve name context = .error e :=
  TypeRegistry.bind_classify?_error_iff fun _ => TypeRegistry.contains_of_resolve hr

/-- A property has a type unless its name means nothing or its constant has none behind it. -/
theorem propertyType_error_iff (hr : cx.registry.IsNormalized) :
    cx.propertyType name context = .error e ↔ cx.registry.resolve name context = .error e ∨
      ∃ t, cx.registry.resolve name context = .ok t ∧
        cx.registry.classify? t = some .constant ∧ cx.registry.underlying t context = .error e := by
  unfold propertyType
  rw [bind_error_iff, typed_error_iff hr]
  refine or_congr_right ?_
  constructor
  · rintro ⟨⟨t, category⟩, htyped, h⟩
    obtain ⟨hresolve, hcategory⟩ := typed_ok_iff.mp htyped
    dsimp only at h
    split at h
    · next hconstant =>
      have ht := TypeRegistry.contains_of_resolve hr hresolve
      have hknown : ∀ u, cx.registry.underlying t context = .ok u →
          cx.registry.contains u = true := fun u => TypeRegistry.contains_of_underlying hr ht
      exact ⟨t, hresolve, hconstant ▸ hcategory,
        (TypeRegistry.bind_classify?_error_iff hknown).mp h⟩
    · cases h
  · rintro ⟨t, hresolve, hcategory, hunderlying⟩
    refine ⟨(t, .constant), typed_ok_iff.mpr ⟨hresolve, hcategory⟩, ?_⟩
    dsimp only
    rw [if_pos rfl, hunderlying]
    rfl

theorem itemType_error_iff (hr : cx.registry.IsNormalized) :
    cx.itemType t context = .error e ↔
      ∃ item, (cx.registry.declaration? t).bind (·.itemType?) = some item ∧
        cx.registry.resolveFrom item t.library context = .error e := by
  unfold itemType
  cases (cx.registry.declaration? t).bind (·.itemType?) with
  | none => simp [pure, Except.pure]
  | some item =>
    simp only [Option.some.injEq, exists_eq_left']
    exact TypeRegistry.bind_classify?_error_iff fun _ => TypeRegistry.contains_of_resolveFrom hr

end ComponentContext

namespace TypeRegistry

/-- After any calls, the registry knows every type that a name means and every type behind one that
it knows. So the type and the items of a property fail to be found only where a name means nothing
or a constant has nothing behind it, and never for want of a category. A name that is not qualified
means the first declaration of that name, or else a basic type; inside a library that declares it,
it means that declaration. -/
theorem resolution_ofCalls (calls : List Registration) (name library context : String) :
    (∀ t, (ofCalls calls).lookup name = some t → (ofCalls calls).contains t = true) ∧
    (∀ t, (ofCalls calls).resolve name context = .ok t → (ofCalls calls).contains t = true) ∧
    (∀ t, (ofCalls calls).resolveFrom name library context = .ok t →
      (ofCalls calls).contains t = true) ∧
    (∀ t u, (ofCalls calls).contains t = true → (ofCalls calls).underlying t context = .ok u →
      (ofCalls calls).contains u = true) ∧
    (∀ cx : ComponentContext, cx.registry = ofCalls calls →
      (∀ e, cx.typed name context = .error e ↔ (ofCalls calls).resolve name context = .error e) ∧
      (∀ e, cx.propertyType name context = .error e ↔
        (ofCalls calls).resolve name context = .error e ∨
          ∃ t, (ofCalls calls).resolve name context = .ok t ∧
            (ofCalls calls).classify? t = some .constant ∧
              (ofCalls calls).underlying t context = .error e) ∧
      ∀ t e, cx.itemType t context = .error e ↔
        ∃ item, ((ofCalls calls).declaration? t).bind (·.itemType?) = some item ∧
          (ofCalls calls).resolveFrom item t.library context = .error e) ∧
    (TypeName.parse? name = none → (ofCalls calls).lookup name =
      (((ofCalls calls).findAll none (some (Text.trim name)) .all).head?.map Prod.fst).or
        (if (basicCategory? (Text.trim name)).isSome then some (.standard (Text.trim name))
          else none)) ∧
    ∀ d ∈ (ofCalls calls).typesOf library, d.name = Text.trim name →
      ':' ∉ (Text.trim name).toList →
        (ofCalls calls).resolveFrom name library context =
          .ok (.inLibrary library (Text.trim name)) ∧
        (ofCalls calls).declaration? (.inLibrary library (Text.trim name)) = some d := by
  have hr := isNormalized_ofCalls calls
  refine ⟨fun t => contains_of_lookup hr, fun t => contains_of_resolve hr,
    fun t => contains_of_resolveFrom hr, fun t u => contains_of_underlying hr, ?_, ?_, ?_⟩
  · intro cx hcx
    rw [← hcx] at hr ⊢
    exact ⟨fun e => ComponentContext.typed_error_iff hr,
      fun e => ComponentContext.propertyType_error_iff hr,
      fun t e => ComponentContext.itemType_error_iff hr⟩
  · intro hparse
    rw [lookup_of_parse?_eq_none hparse, lookupBare_eq]
  · intro d hd hname hcolon
    refine ⟨resolveFrom_of_mem hd hname hcolon, ?_⟩
    rw [← hname]
    exact (declaresOnce_ofCalls calls).declaration? hd

/-- The first call fails at its last declaration, and the standard library has a type of its own. -/
theorem resolution_ofCalls_of_failed_call :
    let r := ofCalls [
      ⟨"nav.geo", [.constant "Rate" "Speed" "1", .simple "Speed" "int32" none none none,
        .constant "Rate" "int8" "2"]⟩,
      ⟨"ECOA", [.simple "Speed" "int8" none none none]⟩]
    r.contains ⟨"nav__geo", "Rate"⟩ = true ∧ r.contains ⟨"nav__geo", "Speed"⟩ = true ∧
      r.lookup " Speed " = some ⟨"nav__geo", "Speed"⟩ ∧
      r.resolveFrom " Speed " "ECOA" "" = .ok ⟨"ECOA", "Speed"⟩ := by
  intro r
  obtain ⟨hlookup, -⟩ := resolution_ofCalls _ "nav.geo:Rate" "" ""
  obtain ⟨-, -, -, hunderlying, -, hbare, howns⟩ := resolution_ofCalls _ " Speed " "ECOA" ""
  have hrate : r.contains ⟨"nav__geo", "Rate"⟩ = true := hlookup _ (by decide)
  refine ⟨hrate, hunderlying _ ⟨"nav__geo", "Speed"⟩ hrate (by decide), ?_, ?_⟩
  · exact (hbare (by decide)).trans (by decide)
  · exact (howns _ (List.mem_of_getElem? (i := 0) rfl) (by decide) (by decide)).1

end TypeRegistry

end Ecoa
