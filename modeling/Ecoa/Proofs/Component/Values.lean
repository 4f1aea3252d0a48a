import Ecoa.Proofs.Component.Declares
import Ecoa.Proofs.Linking.Routes

/-!
# Values of module instances under components

A module instance that declares a value for a property, or for persistent information, has it under
every component instance under which it is deployed. There `$name` stands for a property that the
component instance has in the assembly. The values of all instances of a module implementation fail
where such a property is missing, and only there; otherwise each has a key of its own.
-/

namespace Ecoa

/-- What begins with a character is that character and what follows it. -/
theorem Text.after_eq_some_iff {first : Char} {s rest : String} :
    after first s = some rest ↔ s = String.singleton first ++ rest := by
  rw [← String.toList_inj, String.toList_append, String.toList_singleton, List.singleton_append]
  unfold after
  cases s.toList with
  | nil => simp
  | cons c cs =>
    by_cases hc : c = first
    · simp [hc, ← String.toList_inj]
    · simp [hc]

namespace OrderedMap

variable {κ ν : Type} [DecidableEq κ] {entries : List (κ × ν)}

theorem mem_of_get?_ofList {k : κ} {v : ν} (h : (ofList entries).get? k = some v) :
    (k, v) ∈ entries := by
  rw [get?_ofList, Option.map_eq_some_iff] at h
  obtain ⟨⟨k', v'⟩, hfind, rfl⟩ := h
  obtain rfl : k' = k := by simpa using List.find?_some hfind
  exact List.mem_reverse.mp (List.mem_of_find?_eq_some hfind)

/-- Where a key has the same value each time, a map of entries has all of them. -/
theorem get?_ofList_eq_some_iff (h : ∀ e ∈ entries, ∀ e' ∈ entries, e.1 = e'.1 → e = e') {k : κ}
    {v : ν} : (ofList entries).get? k = some v ↔ (k, v) ∈ entries := by
  refine ⟨mem_of_get?_ofList, fun hmem => ?_⟩
  cases hget : (ofList entries).get? k with
  | some v' =>
    obtain ⟨-, rfl⟩ := Prod.ext_iff.mp (h _ (mem_of_get?_ofList hget) _ hmem rfl)
    rfl
  | none =>
    rw [get?_ofList, Option.map_eq_none_iff, List.find?_eq_none] at hget
    exact absurd (decide_eq_true rfl) (hget _ (List.mem_reverse.mpr hmem))

theorem mem_keys_iff {m : OrderedMap κ ν} {k : κ} : k ∈ m.keys ↔ ∃ v, m.get? k = some v := by
  rw [← Option.ne_none_iff_exists', ne_eq, get?_eq_none_iff, not_not]

end OrderedMap

namespace Deployment

/-- What a text stands for under a component instance: `$name` for a property of it, if it has that
property, and any other text for itself. -/
def expand? (d : Deployment) (component text : String) : Option String :=
  match Text.after '$' text with
  | none => some text
  | some property => d.componentProperty? component property

variable {d : Deployment} {component text : String}

theorem expand?_dollar (property : String) :
    d.expand? component ("$" ++ property) = d.componentProperty? component property := by
  have hafter : Text.after '$' ("$" ++ property) = some property := Text.after_eq_some_iff.mpr rfl
  rw [expand?, hafter]

theorem expand?_of_ne (h : ∀ property, text ≠ "$" ++ property) :
    d.expand? component text = some text := by
  have hafter : Text.after '$' text = none := by
    rw [Option.eq_none_iff_forall_ne_some]
    intro property hp
    exact h property (Text.after_eq_some_iff.mp hp)
  rw [expand?, hafter]

theorem expand?_eq_none_iff : d.expand? component text = none ↔
    ∃ property, text = "$" ++ property ∧ d.componentProperty? component property = none := by
  constructor
  · intro h
    by_cases htext : ∃ property, text = "$" ++ property
    · obtain ⟨property, rfl⟩ := htext
      exact ⟨property, rfl, expand?_dollar property ▸ h⟩
    · rw [expand?_of_ne (not_exists.mp htext)] at h
      cases h
  · rintro ⟨property, rfl, h⟩
    rw [expand?_dollar, h]

end Deployment

namespace Declared.Component

variable (c : Component) (values : ModuleInstance → List NamedValue) (name : String)

/-- The value of a name that the module instance declares, without blanks around it. Of several
instances of this name the first counts, and so does the first of several values. -/
def valueOf? (moduleInstance : String) : Option String :=
  ((c.moduleInstance? moduleInstance).bind fun i => (values i).find? (·.name = name)).map
    (Text.trim ·.value)

/-- An instance `i` of the implementation runs under the component instance `u`, and declares the
text as value. -/
structure HasValue (d : Ecoa.Deployment) (implementation i u text : String) : Prop where
  runs : d.Runs c implementation i u
  value : c.valueOf? values name i = some text

end Declared.Component

namespace ComponentContext

variable {cx : ComponentContext} {site : ModuleSite} {i name text u : String}

/-- The value under a component instance is what the text stands for there, and there is none
where that is missing. -/
theorem deployedValue_ok_iff {e : String × String} :
    cx.deployedValue site i name text u = .ok e ↔
      e.1 = site.scope.component ++ ":" ++ i ++ ":" ++ u ∧
        cx.deployment.expand? u text = some e.2 := by
  obtain ⟨key, v⟩ := e
  unfold deployedValue Deployment.expand?
  dsimp only
  cases Text.after '$' text with
  | none => simp [eq_comm]
  | some property =>
    dsimp only
    cases cx.deployment.componentProperty? u property with
    | none => simp
    | some w => simp [eq_comm]

theorem exists_of_deployedValue_error {e : ModelError}
    (h : cx.deployedValue site i name text u = .error e) : ∃ property,
      text = "$" ++ property ∧ cx.deployment.componentProperty? u property = none ∧
        e = .unknownAssemblyProperty property u
          (site.scope.component ++ ":" ++ i ++ ":" ++ name) := by
  unfold deployedValue at h
  split at h
  · cases h
  · next property hafter =>
    split at h
    · cases h
    · next hnone =>
      cases h
      exact ⟨property, Text.after_eq_some_iff.mp hafter, hnone, rfl⟩

variable {values : Declared.ModuleInstance → List Declared.NamedValue}

/-- An instance has the value that it declares, if any, under each of its component instances. -/
theorem instanceValues_eq : cx.instanceValues site name values i =
    match cx.component.valueOf? values name i with
    | none => .ok []
    | some text => (cx.deployment.componentNames site.scope.component i).mapM
        (cx.deployedValue site i name text) := by
  unfold instanceValues Declared.Component.valueOf?
  dsimp only
  split <;> next h => rw [h]; rfl

theorem mem_iff_of_instanceValues_ok {found : List (String × String)}
    (h : cx.instanceValues site name values i = .ok found) {e : String × String} :
    e ∈ found ↔ ∃ text u, cx.component.valueOf? values name i = some text ∧
      u ∈ cx.deployment.componentNames site.scope.component i ∧
        cx.deployedValue site i name text u = .ok e := by
  rw [instanceValues_eq] at h
  split at h
  · next hvalue =>
    cases h
    simp [hvalue]
  · next hvalue =>
    rw [mem_iff_of_mapM_ok h]
    simp [hvalue]

theorem exists_ok_of_instanceValues_ok {found : List (String × String)}
    (h : cx.instanceValues site name values i = .ok found)
    (hvalue : cx.component.valueOf? values name i = some text)
    (hu : u ∈ cx.deployment.componentNames site.scope.component i) :
    ∃ e, cx.deployedValue site i name text u = .ok e := by
  rw [instanceValues_eq, hvalue] at h
  obtain ⟨e, -, he⟩ := exists_ok_of_mapM_ok h hu
  exact ⟨e, he⟩

theorem exists_of_instanceValues_error {e : ModelError}
    (h : cx.instanceValues site name values i = .error e) :
    ∃ text u, cx.component.valueOf? values name i = some text ∧
      u ∈ cx.deployment.componentNames site.scope.component i ∧
        cx.deployedValue site i name text u = .error e := by
  rw [instanceValues_eq] at h
  split at h
  · cases h
  · next hvalue =>
    obtain ⟨u, hu, he⟩ := exists_of_mapM_error h
    exact ⟨_, u, hvalue, hu, he⟩

end ComponentContext

/-- Texts without colons can be told from one another in the middle of a key. -/
theorem key_inj {implementation i j u v : String} (hi : ':' ∉ i.toList) (hj : ':' ∉ j.toList)
    (h : implementation ++ ":" ++ i ++ ":" ++ u = implementation ++ ":" ++ j ++ ":" ++ v) :
    i = j ∧ u = v := by
  have hrest : i.toList ++ ':' :: u.toList = j.toList ++ ':' :: v.toList := by
    simpa [← String.toList_inj] using h
  have hcut := congrArg (Text.cutFirst ':') hrest
  rw [Text.cutFirst_append hi, Text.cutFirst_append hj] at hcut
  simpa [String.toList_inj] using hcut

theorem ModuleSite.moduleImplementation_of_ofImplementation {c : Declared.Component}
    {m : Declared.ModuleImplementation} {site : ModuleSite} (h : ofImplementation c m = .ok site) :
    site.scope.moduleImplementation = m.name := by
  unfold ofImplementation at h
  split at h
  · cases h
  · split at h
    · cases h
    · cases h
      rfl

namespace Declared.Component

variable {c : Component} {r : TypeRegistry} {d : Ecoa.Deployment} {layout : Layout}
  {sites : List ModuleSite} {site : ModuleSite} {name : String}
  {values : ModuleInstance → List NamedValue}

section

variable (hsite : site.IsOf c)

include hsite

theorem exists_of_deployedValues_error {e : ModelError}
    (h : (c.context r d layout sites).deployedValues site name values = .error e) :
    ∃ i u property,
      c.HasValue values name d site.scope.moduleImplementation i u ("$" ++ property) ∧
        d.componentProperty? u property = none ∧
          e = .unknownAssemblyProperty property u (c.name ++ ":" ++ i ++ ":" ++ name) := by
  rcases bind_error_iff.mp h with h | ⟨_, -, h⟩
  · obtain ⟨i, hi, h⟩ := exists_of_mapM_error h
    obtain ⟨_, u, hvalue, hu, h⟩ := ComponentContext.exists_of_instanceValues_error h
    obtain ⟨property, rfl, hnone, rfl⟩ := ComponentContext.exists_of_deployedValue_error h
    rw [hsite.component] at hu ⊢
    rw [hsite.instances] at hi
    exact ⟨i, u, property, ⟨⟨hi, hu⟩, hvalue⟩, hnone, rfl⟩
  · cases h

/-- The entries of the values, one for each component instance under which an instance has a
value. -/
theorem exists_entries_of_deployedValues_ok {found : OrderedMap String String}
    (h : (c.context r d layout sites).deployedValues site name values = .ok found) :
    ∃ entries, found = .ofList entries ∧ ∀ e : String × String, e ∈ entries ↔ ∃ i u text,
      c.HasValue values name d site.scope.moduleImplementation i u text ∧
        e.1 = c.name ++ ":" ++ i ++ ":" ++ u ∧ d.expand? u text = some e.2 := by
  obtain ⟨lists, hlists, ⟨⟩⟩ := bind_ok_iff.mp h
  refine ⟨lists.flatten, rfl, fun e => ?_⟩
  rw [List.mem_flatten]
  constructor
  · rintro ⟨list, hlist, he⟩
    obtain ⟨i, hi, hok⟩ := exists_of_mapM_ok hlists hlist
    obtain ⟨text, u, hvalue, hu, he⟩ :=
      (ComponentContext.mem_iff_of_instanceValues_ok hok).mp he
    rw [ComponentContext.deployedValue_ok_iff, hsite.component] at he
    rw [hsite.instances] at hi
    rw [hsite.component] at hu
    exact ⟨i, u, text, ⟨⟨hi, hu⟩, hvalue⟩, he⟩
  · rintro ⟨i, u, text, ⟨⟨hi, hu⟩, hvalue⟩, he⟩
    rw [← hsite.instances] at hi
    rw [← hsite.component] at hu he
    obtain ⟨list, hlist, hok⟩ := exists_ok_of_mapM_ok hlists hi
    exact ⟨list, hlist, (ComponentContext.mem_iff_of_instanceValues_ok hok).mpr
      ⟨text, u, hvalue, hu, ComponentContext.deployedValue_ok_iff.mpr he⟩⟩

/-- A value is what the text of some instance stands for, whichever instances share its key. -/
theorem exists_hasValue_of_deployedValues_ok {found : OrderedMap String String}
    (h : (c.context r d layout sites).deployedValues site name values = .ok found)
    {key v : String} (hv : found.get? key = some v) : ∃ i u text,
      c.HasValue values name d site.scope.moduleImplementation i u text ∧
        key = c.name ++ ":" ++ i ++ ":" ++ u ∧ d.expand? u text = some v := by
  obtain ⟨entries, rfl, hmem⟩ := exists_entries_of_deployedValues_ok hsite h
  exact (hmem (key, v)).mp (OrderedMap.mem_of_get?_ofList hv)

theorem get?_of_deployedValues_ok (hcolon : ∀ i ∈ site.instances, ':' ∉ i.toList)
    {found : OrderedMap String String}
    (h : (c.context r d layout sites).deployedValues site name values = .ok found)
    {key v : String} : found.get? key = some v ↔ ∃ i u text,
      c.HasValue values name d site.scope.moduleImplementation i u text ∧
        key = c.name ++ ":" ++ i ++ ":" ++ u ∧ d.expand? u text = some v := by
  obtain ⟨entries, rfl, hmem⟩ := exists_entries_of_deployedValues_ok hsite h
  rw [OrderedMap.get?_ofList_eq_some_iff, hmem]
  -- entries with one key are of one instance under one component instance
  intro e he e' he' heq
  obtain ⟨i, u, text, ⟨⟨hi, -⟩, hvalue⟩, hkey, hv⟩ := (hmem e).mp he
  obtain ⟨j, w, text', ⟨⟨hj, -⟩, hvalue'⟩, hkey', hv'⟩ := (hmem e').mp he'
  obtain ⟨rfl, rfl⟩ := key_inj (hcolon i (hsite.instances ▸ hi)) (hcolon j (hsite.instances ▸ hj))
    (hkey.symm.trans (heq.trans hkey'))
  obtain rfl : text = text' := Option.some.inj (hvalue.symm.trans hvalue')
  exact Prod.ext heq (Option.some.inj (hv.symm.trans hv'))

theorem HasValue.exists_expand? {found : OrderedMap String String} {i u text : String}
    (hvalue : c.HasValue values name d site.scope.moduleImplementation i u text)
    (h : (c.context r d layout sites).deployedValues site name values = .ok found) :
    ∃ v, d.expand? u text = some v := by
  obtain ⟨lists, hlists, -⟩ := bind_ok_iff.mp h
  obtain ⟨list, -, hok⟩ := exists_ok_of_mapM_ok hlists (hsite.instances ▸ hvalue.runs.1)
  have hu : u ∈ d.componentNames site.scope.component i := hsite.component ▸ hvalue.runs.2
  obtain ⟨e, he⟩ := ComponentContext.exists_ok_of_instanceValues_ok hok hvalue.value hu
  exact ⟨e.2, (ComponentContext.deployedValue_ok_iff.mp he).2⟩

/-- Under its key an instance has what its text stands for. -/
theorem HasValue.get?_eq (hcolon : ∀ i ∈ site.instances, ':' ∉ i.toList)
    {found : OrderedMap String String} {i u text : String}
    (hvalue : c.HasValue values name d site.scope.moduleImplementation i u text)
    (h : (c.context r d layout sites).deployedValues site name values = .ok found) :
    found.get? (c.name ++ ":" ++ i ++ ":" ++ u) = d.expand? u text := by
  obtain ⟨v, hv⟩ := hvalue.exists_expand? hsite h
  rw [hv, get?_of_deployedValues_ok hsite hcolon h]
  exact ⟨i, u, text, hvalue, rfl, hv⟩

theorem mem_keys_of_deployedValues_ok (hcolon : ∀ i ∈ site.instances, ':' ∉ i.toList)
    {found : OrderedMap String String}
    (h : (c.context r d layout sites).deployedValues site name values = .ok found) {key : String} :
    key ∈ found.keys ↔ ∃! place : String × String,
      (∃ text, c.HasValue values name d site.scope.moduleImplementation place.1 place.2 text) ∧
        key = c.name ++ ":" ++ place.1 ++ ":" ++ place.2 := by
  simp only [OrderedMap.mem_keys_iff, get?_of_deployedValues_ok hsite hcolon h]
  constructor
  · rintro ⟨-, i, u, text, hvalue, rfl, -⟩
    refine ⟨(i, u), ⟨⟨text, hvalue⟩, rfl⟩, ?_⟩
    rintro ⟨j, w⟩ ⟨⟨text', hvalue'⟩, hkey⟩
    obtain ⟨rfl, rfl⟩ := key_inj (hcolon i (hsite.instances ▸ hvalue.runs.1))
      (hcolon j (hsite.instances ▸ hvalue'.runs.1)) hkey
    rfl
  · rintro ⟨⟨i, u⟩, ⟨⟨text, hvalue⟩, rfl⟩, -⟩
    obtain ⟨v, hv⟩ := hvalue.exists_expand? hsite h
    exact ⟨v, i, u, text, hvalue, rfl, hv⟩

end

variable {m : ModuleImplementation}

/-- The values of a property or of persistent information, for all instances of a module
implementation, cannot be had when some instance that is deployed declares `$property` and its
component instance lacks that property, and then such a property is reported. Otherwise each
instance that declares a value has a key of its own for every component instance under which it is
deployed, with what its text stands for there, and there are no other keys. -/
theorem deployedValues_ofImplementation (hsite : ModuleSite.ofImplementation c m = .ok site)
    (hcolon : ∀ i ∈ c.instancesOf m.name, ':' ∉ i.toList) (r : TypeRegistry) (d : Ecoa.Deployment)
    (layout : Layout) (sites : List ModuleSite) (values : ModuleInstance → List NamedValue)
    (name : String) :
    let result := (c.context r d layout sites).deployedValues site name values
    let Lacks := fun i u property => c.HasValue values name d m.name i u ("$" ++ property) ∧
      d.componentProperty? u property = none
    ((∃ property u place, result = .error (.unknownAssemblyProperty property u place)) ↔
      ∃ i u property, Lacks i u property) ∧
    (∀ e, result = .error e → ∃ i u property, Lacks i u property ∧
      e = .unknownAssemblyProperty property u (c.name ++ ":" ++ i ++ ":" ++ name)) ∧
    ((¬ ∃ i u property, Lacks i u property) → ∃ found, result = .ok found ∧ found.keys.Nodup ∧
      (∀ key, key ∈ found.keys ↔ ∃! place : String × String,
        (∃ text, c.HasValue values name d m.name place.1 place.2 text) ∧
          key = c.name ++ ":" ++ place.1 ++ ":" ++ place.2) ∧
      ∀ i u text, c.HasValue values name d m.name i u text →
        (∀ property, text = "$" ++ property →
          found.get? (c.name ++ ":" ++ i ++ ":" ++ u) = d.componentProperty? u property) ∧
        ((∀ property, text ≠ "$" ++ property) →
          found.get? (c.name ++ ":" ++ i ++ ":" ++ u) = some text)) := by
  have hof := ModuleSite.isOf_of_ofImplementation hsite
  rw [← ModuleSite.moduleImplementation_of_ofImplementation hsite] at hcolon ⊢
  rw [← hof.instances] at hcolon
  intro result Lacks
  have herror : ∀ e, result = .error e → ∃ i u property, Lacks i u property ∧
      e = .unknownAssemblyProperty property u (c.name ++ ":" ++ i ++ ":" ++ name) := by
    intro e he
    obtain ⟨i, u, property, hvalue, hnone, rfl⟩ := exists_of_deployedValues_error hof he
    exact ⟨i, u, property, ⟨hvalue, hnone⟩, rfl⟩
  refine ⟨⟨?_, fun hlacks => ?_⟩, herror, fun hlacks => ?_⟩
  · rintro ⟨property, u, place, he⟩
    obtain ⟨i, u, property, hlacks, -⟩ := herror _ he
    exact ⟨i, u, property, hlacks⟩
  · cases hresult : result with
    | error e =>
      obtain ⟨i, u, property, -, rfl⟩ := herror e hresult
      exact ⟨property, u, _, rfl⟩
    | ok found =>
      -- all texts stand for something
      obtain ⟨i, u, property, hvalue, hnone⟩ := hlacks
      obtain ⟨v, hv⟩ := hvalue.exists_expand? hof hresult
      rw [Deployment.expand?_dollar, hnone] at hv
      cases hv
  · cases hresult : result with
    | error e =>
      obtain ⟨i, u, property, h, -⟩ := herror e hresult
      exact absurd ⟨i, u, property, h⟩ hlacks
    | ok found =>
      refine ⟨found, rfl, found.nodup_keys,
        fun key => mem_keys_of_deployedValues_ok hof hcolon hresult, fun i u text hvalue => ?_⟩
      rw [hvalue.get?_eq hof hcolon hresult]
      constructor
      · rintro property rfl
        exact Deployment.expand?_dollar property
      · exact Deployment.expand?_of_ne

/-- Of three instances the last asks for a property that no component instance has, but it is not
deployed. -/
theorem deployedValues_ofImplementation_of_spare :
    let c : Component := {
      name := "C", directory := "C", uses := []
      moduleTypes := [⟨"Measuring", .none, [⟨"unit", "int32"⟩], [], []⟩]
      moduleImplementations := [⟨"measuring", "Measuring", "C"⟩]
      moduleInstances := [⟨"left", "measuring", [⟨"unit", " $unit "⟩], []⟩,
        ⟨"right", "measuring", [⟨"unit", "2"⟩, ⟨"unit", "$lost"⟩], []⟩,
        ⟨"spare", "measuring", [⟨"unit", "$lost"⟩], []⟩]
      triggerInstances := [], dynamicTriggerInstances := []
      eventLinks := [], requestLinks := [], dataLinks := [] }
    let d : Ecoa.Deployment := {
      components := .ofList [("a", ⟨"a", "C", .ofList [("unit", "3")]⟩),
        ("b", ⟨"b", "C", .ofList [("unit", "5")]⟩)]
      placements := [("C:left", "a"), ("C:left", "b"), ("C:right", "b")], wires := [] }
    ∃ site found, ModuleSite.ofImplementation c ⟨"measuring", "Measuring", "C"⟩ = .ok site ∧
      (c.context .empty d ⟨"", ""⟩ [site]).deployedValues site "unit" (·.propertyValues) =
        .ok found ∧ found.get? "C:left:a" = some "3" ∧ found.get? "C:left:b" = some "5" ∧
          found.get? "C:right:b" = some "2" ∧ "C:spare:a" ∉ found.keys := by
  intro c d
  let site : ModuleSite := ⟨⟨"C", "Measuring", "measuring", .c⟩,
    ⟨"Measuring", .none, [⟨"unit", "int32"⟩], [], []⟩, ["left", "right", "spare"]⟩
  have hsite : ModuleSite.ofImplementation c ⟨"measuring", "Measuring", "C"⟩ = .ok site := rfl
  obtain ⟨-, -, hfound⟩ := deployedValues_ofImplementation hsite (by decide) .empty d ⟨"", ""⟩
    [site] (·.propertyValues) "unit"
  have hexpand : ∀ i ∈ c.instancesOf "measuring", ∀ u ∈ d.componentNames "C" i,
      ∀ text ∈ c.valueOf? (·.propertyValues) "unit" i, d.expand? u text ≠ none := by decide
  have hkeys : ∀ i ∈ c.instancesOf "measuring", ∀ u ∈ d.componentNames "C" i,
      "C:spare:a" ≠ "C" ++ ":" ++ i ++ ":" ++ u := by decide
  obtain ⟨found, hok, -, hmem, hget⟩ := hfound (by
    rintro ⟨i, u, property, hvalue, hnone⟩
    exact hexpand i hvalue.runs.1 u hvalue.runs.2 _ hvalue.value
      (Deployment.expand?_eq_none_iff.mpr ⟨property, rfl, hnone⟩))
  refine ⟨site, found, hsite, hok, ?_, ?_, ?_, ?_⟩
  · have hvalue := hget "left" "a" "$unit" ⟨⟨by decide, by decide⟩, by decide⟩
    exact (hvalue.1 "unit" rfl).trans (by decide)
  · have hvalue := hget "left" "b" "$unit" ⟨⟨by decide, by decide⟩, by decide⟩
    exact (hvalue.1 "unit" rfl).trans (by decide)
  · refine (hget "right" "b" "2" ⟨⟨by decide, by decide⟩, by decide⟩).2 fun property h => ?_
    exact absurd (congrArg (·.toList.head?) h) (by simp)
  · intro h
    obtain ⟨⟨i, u⟩, ⟨⟨text, hvalue⟩, hkey⟩, -⟩ := (hmem _).mp h
    exact hkeys i hvalue.runs.1 u hvalue.runs.2 hkey

end Declared.Component

end Ecoa
