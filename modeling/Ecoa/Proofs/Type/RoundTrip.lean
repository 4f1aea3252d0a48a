import Ecoa.Proofs.Json.Decoding
import Ecoa.Type.Json

/-!
# Type declarations read back

A type declaration is read back from what is written of it: the category at its head tells the
fields of the other members.
-/

namespace Ecoa

open Json Fields

theorem restores_optionalText : Restores (Decoder.option Decoder.text) optionalText :=
  Restores.text.option rfl (fun _ => rfl) nofun

/-- A label without a number is written without that member. -/
theorem EnumLabel.restores : Restores EnumLabel.fields.decoder EnumLabel.toJson :=
  Fields.restores (by decide) (fun l =>
    (Takes.required "name" .text l.name).map EnumLabel.mk
      |>.seq (.optional "valnum" .text nofun l.number))
    fun ⟨_, number⟩ => by cases number <;> rfl

theorem RecordField.restores : Restores RecordField.fields.decoder RecordField.toJson :=
  Fields.restores (by decide) (fun f =>
    (Takes.required "name" .text f.name).map RecordField.mk
      |>.seq (.required "type" .text f.type))
    fun _ => rfl

theorem Variant.restores : Restores Variant.fields.decoder Variant.toJson :=
  Fields.restores (by decide) (fun v =>
    (Takes.required "name" .text v.name).map Variant.mk
      |>.seq (.required "type" .text v.type)
      |>.seq (.required "when" .text v.whenValue))
    fun _ => rfl

namespace TypeDecl

/-- The members of a declaration are those of its category. -/
theorem exists_takes (d : TypeDecl) :
    ∃ slots, (fieldsOf d.category).Takes slots d ∧ d.members = present slots := by
  cases d with
  | constant name type value =>
    exact ⟨_, (Takes.required "name" .text name).map TypeDecl.constant
      |>.seq (.required "type" .text type)
      |>.seq (.required "value" .text value), rfl⟩
  | simple name type lo hi precision =>
    exact ⟨_, (Takes.required "name" .text name).map TypeDecl.simple
      |>.seq (.required "type" .text type)
      |>.seq (.defaulted "min_range" restores_optionalText none lo)
      |>.seq (.defaulted "max_range" restores_optionalText none hi)
      |>.seq (.defaulted "precision" restores_optionalText none precision), rfl⟩
  | enum name type labels =>
    exact ⟨_, (Takes.required "name" .text name).map TypeDecl.enum
      |>.seq (.required "type" .text type)
      |>.seq (.defaulted "values" EnumLabel.restores.list [] labels), rfl⟩
  | array name item bound =>
    exact ⟨_, (Takes.required "name" .text name).map TypeDecl.array
      |>.seq (.required "item_type" .text item)
      |>.seq (.required "max_number" .text bound), rfl⟩
  | fixedArray name item bound =>
    exact ⟨_, (Takes.required "name" .text name).map TypeDecl.fixedArray
      |>.seq (.required "item_type" .text item)
      |>.seq (.required "max_number" .text bound), rfl⟩
  | record name fs =>
    exact ⟨_, (Takes.required "name" .text name).map TypeDecl.record
      |>.seq (.defaulted "fields" RecordField.restores.list [] fs), rfl⟩
  | variantRecord name selectName selectType fs vs =>
    exact ⟨_, (Takes.required "name" .text name).map TypeDecl.variantRecord
      |>.seq (.required "select_name" .text selectName)
      |>.seq (.required "select_type" .text selectType)
      |>.seq (.defaulted "fields" RecordField.restores.list [] fs)
      |>.seq (.defaulted "unions" Variant.restores.list [] vs), rfl⟩

theorem nodup_names_fieldsOf (c : TypeCategory) : (fieldsOf c).names.Nodup := by
  cases c <;> decide

theorem category_not_mem_names (c : TypeCategory) : "category" ∉ (fieldsOf c).names := by
  cases c <;> decide

/-- The category is read at the head, and no other member is one. -/
theorem findCategory_members {c : TypeCategory} {ms : List (String × Json)}
    (hnames : ∀ m ∈ ms, m.1 ≠ "category") (hplain : ∀ m ∈ ms, m.2.Plain) :
    findCategory none (("category", .text c.keyword) :: ms) = .ok (some c) := by
  have hcategory : categoryDecoder (.text c.keyword) = .ok c := by
    cases c <;> rfl
  have hrest : findCategory (some c) ms = .ok (some c) := by
    induction ms with
    | nil => rfl
    | cons m ms ih =>
      rw [List.forall_mem_cons] at hnames hplain
      rw [findCategory, if_neg hnames.1, if_pos hplain.1.readable, ih hnames.2 hplain.2]
  simp only [findCategory, if_pos, hcategory]
  exact hrest

theorem restores : Restores TypeDecl.decoder TypeDecl.toJson where
  plain d := by
    obtain ⟨slots, htakes, hmembers⟩ := d.exists_takes
    refine .object (List.forall_mem_cons.mpr ⟨.text _, ?_⟩)
    rw [hmembers]
    exact fun m hm => (htakes.of_mem_present hm).2
  decode d := by
    obtain ⟨slots, htakes, hmembers⟩ := d.exists_takes
    have hnames : ∀ m ∈ present slots, m.1 ≠ "category" := fun m hm heq =>
      category_not_mem_names d.category (heq ▸ (htakes.of_mem_present hm).1)
    have hcategory := findCategory_members (c := d.category) hnames fun m hm =>
      (htakes.of_mem_present hm).2
    have hothers : (("category", Json.text d.category.keyword) :: present slots).filter
        (·.1 ≠ "category") = present slots := by
      rw [List.filter_cons_of_neg (by simp), List.filter_eq_self]
      exact fun m hm => decide_eq_true (hnames m hm)
    have hbody : ofCategory d.category (.record (present slots)) = .ok d := by
      rw [ofCategory, htakes.decode (nodup_names_fieldsOf d.category)]
      rfl
    rw [toJson, hmembers]
    simp only [decoder, Json.record, bind_ok_iff]
    refine ⟨some d.category, hcategory, ?_⟩
    change ofCategory d.category (.record (List.filter _ _)) = .ok d
    rw [hothers, hbody]

end TypeDecl

end Ecoa
