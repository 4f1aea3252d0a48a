import Ecoa.Proofs.Component.Kinds
import Ecoa.Proofs.Linking.Steps
import Ecoa.Proofs.Property.Accepted
import Ecoa.Proofs.Type.Resolution

/-!
# The labels of properties

A property keeps the labels against which its values are checked. In a model that is built these are
the labels that its enumeration declares, or the one of its items.
-/

namespace Ecoa

/-- The names of the labels that a type declares. -/
def TypeRegistry.labelsOf (r : TypeRegistry) (t : TypeName) : List String :=
  (((r.declaration? t).bind (·.labels?)).getD []).map (·.name)

/-- The values of the property are labels of the type, or arrays of them. -/
def Property.TakesLabelsOf (p : Property) (t : TypeName) : Prop :=
  (p.category = .enum ∧ p.type = t) ∨ (p.IsArray ∧ p.item = some ⟨t, .enum⟩)

namespace Property

variable {p : Property} {t : TypeName}

theorem TakesLabelsOf.type_eq (h : p.TakesLabelsOf t) (hcategory : p.category = .enum) :
    p.type = t := by
  rcases h with ⟨-, htype⟩ | ⟨harray | harray, -⟩
  · exact htype
  · cases hcategory.symm.trans harray
  · cases hcategory.symm.trans harray

theorem TakesLabelsOf.item_eq (h : p.TakesLabelsOf t) (harray : p.IsArray) :
    p.item = some ⟨t, .enum⟩ := by
  rcases h with ⟨hcategory, -⟩ | ⟨-, hitem⟩
  · rcases harray with harray | harray
    · cases hcategory.symm.trans harray
    · cases hcategory.symm.trans harray
  · exact hitem

end Property

/-- No basic type is an enumeration, so one that is known is declared. -/
theorem TypeRegistry.exists_of_classify?_enum {r : TypeRegistry} {t : TypeName}
    (h : r.classify? t = some .enum) : ∃ d, r.declaration? t = some d ∧ d.category = .enum := by
  unfold classify? at h
  split at h
  · next d hd => exact ⟨d, hd, Option.some.inj h⟩
  · split at h
    · have hbasic : ∀ e ∈ basicTypes, e.2 ≠ .enum := by decide
      obtain ⟨e, he, hcategory⟩ := Option.map_eq_some_iff.mp h
      exact absurd hcategory (hbasic e (List.mem_of_find?_eq_some he))
    · cases h

namespace ComponentContext

variable {cx : ComponentContext} {site : ModuleSite} {d : Declared.Property}
  {name context group : String} {p : Property} {t : TypeName} {category : TypeCategory}

theorem classify?_of_propertyType (h : cx.propertyType name context = .ok (t, category)) :
    cx.registry.classify? t = some category := by
  obtain ⟨⟨t', category'⟩, htyped, h⟩ := bind_ok_iff.mp h
  dsimp only at h
  split at h
  · obtain ⟨u, -, h⟩ := bind_ok_iff.mp h
    split at h
    · next hknown => cases h; exact hknown
    · cases h
  · cases h
    exact (typed_ok_iff.mp htyped).2

/-- An enumeration has no items. -/
theorem itemType_of_enum {item : Option ItemType} (ht : cx.registry.classify? t = some .enum)
    (h : cx.itemType t context = .ok item) : item = none := by
  obtain ⟨d, hd, hcategory⟩ := TypeRegistry.exists_of_classify?_enum ht
  have hitem : (cx.registry.declaration? t).bind (·.itemType?) = none := by
    rw [hd]
    cases d <;> first | rfl | cases hcategory
  unfold itemType at h
  rw [hitem] at h
  exact (Except.ok.inj h).symm

/-- A property keeps the labels of the type that its values take them from. -/
theorem labels_of_propertyEntry (h : cx.propertyEntry site d = .ok ⟨.property, group, p⟩)
    (ht : p.TakesLabelsOf t) : p.labels = cx.registry.labelsOf t := by
  obtain ⟨⟨type, category⟩, htype, h⟩ := bind_ok_iff.mp h
  obtain ⟨item, hitem, h⟩ := bind_ok_iff.mp h
  obtain ⟨values, -, ⟨⟩⟩ := bind_ok_iff.mp h
  rcases ht with ⟨hcategory, rfl⟩ | ⟨-, rfl⟩
  · cases hcategory
    cases itemType_of_enum (classify?_of_propertyType htype) hitem
    rfl
  · rfl

end ComponentContext

/-- Whatever takes labels in a model keeps those that its type declares. -/
theorem Model.IsPopulated.labels_eq {m : Model} {project : Declared.Project}
    (h : m.IsPopulated project) {p : Property} (hp : p ∈ m.properties.items) {t : TypeName}
    (ht : p.TakesLabelsOf t) : p.labels = m.registry.labelsOf t := by
  obtain ⟨⟨group, _⟩, hentry, rfl⟩ := List.mem_map.mp hp
  obtain ⟨c, -, found, layout, ⟨sites, -, hfound⟩, hmem⟩ :=
    h.origin ⟨.property, group, _⟩ (Array.mem_toList_iff.mp hentry)
  have hbuilt := hfound ▸ List.mem_map_of_mem (f := Except.ok) hmem
  obtain ⟨site, d, hd⟩ := ComponentContext.exists_propertyEntry hbuilt rfl
  exact ComponentContext.labels_of_propertyEntry hd ht

/-- Linking leaves the properties and the types. -/
theorem Builder.Builds.labels_eq {b : Builder} {m : Model} (hb : b.Builds m) {p : Property}
    (hp : p ∈ m.properties.items) {t : TypeName} (ht : p.TakesLabelsOf t) :
    p.labels = m.registry.labelsOf t := by
  obtain ⟨m₀, hm₀, _, _, _, _, rfl⟩ := hb.exists_linked
  exact hm₀.labels_eq hp ht

end Ecoa
