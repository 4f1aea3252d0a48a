import Ecoa.Proofs.Component.Properties
import Ecoa.Proofs.Language.Spelling
import Ecoa.Proofs.Property.Elements

/-!
# Labels in generated code

A label of an enumeration is written under the name of its type. The check looks an item of an array
up without any of its spaces, while conversion takes off only the blanks around it, so that what is
written is a label of the type when no space stands inside the item.
-/

namespace Ecoa

namespace Property

/-- No label has a blank in it. -/
def HasPlainLabels (p : Property) : Prop :=
  ∀ label ∈ p.labels, ∀ c ∈ label.toList, Text.isBlank c = false

variable {p : Property} {r : TypeRegistry} {t : TypeName} {place value item inner : String}

/-- The items of an array value are checked as labels. -/
theorem checkItem_of_enum (h : p.item = some ⟨t, .enum⟩) :
    p.checkItem r place item = p.checkLabel place item := by
  unfold checkItem
  rw [h]
  rfl

theorem convertValue_of_enum {l : Language} (h : p.category = .enum) :
    p.convertValue value l = l.enumLabel p.type (Text.trim value) := by
  unfold convertValue
  rw [h]

theorem mem_labels_of_checkValue (hcategory : p.category = .enum)
    (h : p.checkValue r place value = .ok ()) : value ∈ p.labels := by
  unfold checkValue at h
  simp only [hcategory] at h
  exact (checkLabel_ok_iff.mp h).2

/-- An array of labels that is accepted has a label in each item, once its spaces are removed. -/
theorem remove_mem_labels (harray : p.IsArray) (hlabels : p.item = some ⟨t, .enum⟩)
    (h : p.checkValue r place value = .ok ()) (hinner : Text.trim value = "[" ++ inner ++ "]")
    (hitem : item ∈ Text.fieldsOf ',' inner) : Text.remove (· = ' ') item ∈ p.labels := by
  have hchecked := ((checkValue_list_ok_iff harray hinner).mp h).1 item hitem
  rw [checkItem_of_enum hlabels] at hchecked
  exact (checkLabel_ok_iff.mp hchecked).2

/-- What is left of such an item between its blanks is a label, unless there is a space in it. -/
theorem trim_mem_labels_iff (hplain : p.HasPlainLabels)
    (hchecked : Text.remove (· = ' ') item ∈ p.labels) :
    Text.trim item ∈ p.labels ↔ ' ' ∉ (Text.trim item).toList := by
  constructor
  · intro hmem hspace
    have hnotBlank : Text.isBlank ' ' = false := hplain _ hmem ' ' hspace
    exact absurd hnotBlank (by decide)
  · intro hspace
    -- without its spaces the item has no blank at all, so all its blanks are spaces
    have hblanks : ∀ c ∈ item.toList, Text.isBlank c = true → decide (c = ' ') = true := by
      intro c hc hblank
      by_contra hother
      have hkept : c ∈ (Text.remove (· = ' ') item).toList := by
        rw [Text.remove, String.toList_ofList, List.mem_filter]
        exact ⟨hc, by simpa using hother⟩
      rw [hplain _ hchecked c hkept] at hblank
      cases hblank
    have htrim : Text.remove (· = ' ') (Text.trim item) = Text.trim item :=
      Text.remove_eq_self fun c hc => decide_eq_false fun heq => hspace (heq ▸ hc)
    rwa [← htrim, Text.remove_trim hblanks]

/-- The labels of an array as they are written. -/
def writtenLabels (l : Language) (t : TypeName) (items : List String) : String :=
  "\x7b" ++ Text.joinWith "," (items.map fun item => l.enumLabel t (Text.trim item)) ++ "\x7d"

theorem writtenElements_of_enum (l : Language) (items : List String)
    (h : p.item = some ⟨t, .enum⟩) : p.writtenElements l (.list items) = writtenLabels l t items := by
  unfold writtenElements convertItem writtenLabels
  simp only [h, if_true]

/-- A label that is accepted as a value is written as a label of its type. In an array each item is
written without the blanks around it: it is a label once all its spaces are removed, and what is
written is one exactly when no space is left in it. In a model that is built the labels are those
that the type declares. -/
theorem convertValue_labels (h : p.check r = .ok ()) (ht : p.TakesLabelsOf t)
    {e : String × String} (he : e ∈ p.values.toList) (l : Language) :
    (p.category = .enum → e.2 ∈ p.labels ∧ p.convertValue e.2 l = l.enumLabel t (Text.trim e.2) ∧
      (p.HasPlainLabels → p.convertValue e.2 l = l.enumLabel t e.2)) ∧
    (p.IsArray → ∀ inner, Text.trim e.2 = "[" ++ inner ++ "]" →
      (p.category = .fixedArray →
        p.convertValue e.2 l = writtenLabels l t (Text.fieldsOf ',' inner)) ∧
      (p.category = .array → p.convertValue e.2 l = "\x7b" ++
        (Text.fieldsOf ',' inner).length.repr ++ ", " ++
          writtenLabels l t (Text.fieldsOf ',' inner) ++ "\x7d") ∧
      ∀ item ∈ Text.fieldsOf ',' inner, Text.remove (· = ' ') item ∈ p.labels ∧
        (p.HasPlainLabels →
          ((∃ label ∈ p.labels, l.enumLabel t (Text.trim item) = l.enumLabel t label) ↔
            ' ' ∉ (Text.trim item).toList))) ∧
    ∀ (b : Builder) (m : Model), b.Builds m → m.registry = r → p ∈ m.properties.items →
      p.labels = r.labelsOf t := by
  obtain ⟨-, hvalues⟩ := check_ok_iff.mp h
  have hvalue := hvalues e he
  refine ⟨fun hcategory => ?_, fun harray inner hinner => ?_, ?_⟩
  · have hmem := mem_labels_of_checkValue hcategory hvalue
    have hwritten : p.convertValue e.2 l = l.enumLabel t (Text.trim e.2) := by
      rw [convertValue_of_enum hcategory, ht.type_eq hcategory]
    refine ⟨hmem, hwritten, fun hplain => ?_⟩
    rw [hwritten, Text.trim_eq_self (hplain _ hmem)]
  · have hitems := ht.item_eq harray
    have hform : (ArrayForm.list (Text.fieldsOf ',' inner)).IsOf (Text.trim e.2) :=
      ⟨inner, hinner, rfl⟩
    have hwritten := writtenElements_of_enum l (Text.fieldsOf ',' inner) hitems
    refine ⟨fun hcategory => ?_, fun hcategory => ?_, fun item hitem => ?_⟩
    · rw [convertValue_of_fixedArray hcategory hform, hwritten]
    · rw [convertValue_of_array hcategory hform, hwritten]
      rfl
    · have hchecked := remove_mem_labels harray hitems hvalue hinner hitem
      refine ⟨hchecked, fun hplain => ?_⟩
      simp only [Language.enumLabel_inj, exists_eq_right']
      exact trim_mem_labels_iff hplain hchecked
  · rintro b m hb rfl hp
    exact hb.labels_eq hp ht

/-! ## A space inside a label -/

/-- A library with the modes `ON` and `OFF` and with arrays of two and of one of them. -/
def modeRegistry : TypeRegistry where
  libraries := .ofList [("lib", [
    .enum "Mode" "uint32" [⟨"ON", none⟩, ⟨"OFF", none⟩], .fixedArray "Modes" "Mode" "2"])]

/-- A property of two modes, with this value in one instance. -/
def modesProperty (value : String) : Property where
  scope := ⟨"C", "Switch_t", "Switch", .c⟩
  name := "modes"
  type := ⟨"lib", "Modes"⟩
  category := .fixedArray
  item := some ⟨⟨"lib", "Mode"⟩, .enum⟩
  maxNumber := some "2"
  labels := ["ON", "OFF"]
  values := .ofList [("C:M1:A", value)]

theorem convertValue_labels_modesProperty :
    (modesProperty "[ ON,OFF ]").check modeRegistry = .ok () ∧
      (modesProperty "[ ON,OFF ]").TakesLabelsOf ⟨"lib", "Mode"⟩ ∧
      (modesProperty "[ ON,OFF ]").convertValue "[ ON,OFF ]" .c =
        writtenLabels .c ⟨"lib", "Mode"⟩ (Text.fieldsOf ',' " ON,OFF ") ∧
      ∃ label ∈ ["ON", "OFF"], Language.c.enumLabel ⟨"lib", "Mode"⟩ (Text.trim "OFF ") =
        Language.c.enumLabel ⟨"lib", "Mode"⟩ label := by
  have hcheck : (modesProperty "[ ON,OFF ]").check modeRegistry = .ok () := by decide +kernel
  have htakes : (modesProperty "[ ON,OFF ]").TakesLabelsOf ⟨"lib", "Mode"⟩ := .inr ⟨.inr rfl, rfl⟩
  have hplain : (modesProperty "[ ON,OFF ]").HasPlainLabels := by
    unfold HasPlainLabels modesProperty
    simp [Text.isBlank]
  obtain ⟨-, harray, -⟩ := convertValue_labels hcheck htakes (e := ("C:M1:A", "[ ON,OFF ]"))
    List.mem_cons_self .c
  obtain ⟨hfixed, -, hitems⟩ := harray (.inr rfl) " ON,OFF " (by decide +kernel)
  obtain ⟨-, hlabel⟩ := hitems "OFF " (by decide +kernel)
  exact ⟨hcheck, htakes, hfixed rfl, (hlabel hplain).mpr (by decide +kernel)⟩

/-- The check takes the space out of `O N`, and conversion leaves it in. -/
theorem convertValue_labels_space :
    (modesProperty "[O N,OFF]").check modeRegistry = .ok () ∧
      (modesProperty "[O N,OFF]").labels = modeRegistry.labelsOf ⟨"lib", "Mode"⟩ ∧
      (modesProperty "[O N,OFF]").convertValue "[O N,OFF]" .c =
        "\x7blib__Mode_O N,lib__Mode_OFF\x7d" ∧
      ∀ label ∈ modeRegistry.labelsOf ⟨"lib", "Mode"⟩,
        "lib__Mode_O N" ≠ Language.c.enumLabel ⟨"lib", "Mode"⟩ label := by
  decide +kernel

end Property

end Ecoa
