import Ecoa.Proofs.Component.Declares

/-!
# The kinds of the entities of a component

The entities of a component come in five lists, and no kind is in two of them. So an entity that is
known by its kind comes from a declared operation or property of that kind.
-/

namespace Ecoa

namespace ComponentContext

variable {cx : ComponentContext} {x : Entry}

theorem kind_of_mem_eventEntries (h : .ok x ∈ cx.eventEntries) :
    x.kind ∈ [EntityKind.eventSend, .eventReceived, .external, .trigger, .dynamicTriggerSend,
      .dynamicTriggerReceived] := by
  unfold eventEntries at h
  simp only [List.mem_append, List.mem_flatMap, List.mem_map] at h
  rcases h with ((⟨site, -, ⟨e, -, he⟩ | ⟨e, -, he⟩⟩ | h) | ⟨t, -, ⟨⟩⟩) | ⟨t, -, h⟩
  · obtain ⟨inputs, -, ⟨⟩⟩ := bind_ok_iff.mp he
    simp
  · obtain ⟨inputs, -, ⟨⟩⟩ := bind_ok_iff.mp he
    simp
  · unfold externalEntries at h
    split at h
    · simp at h
    · obtain ⟨e, -, ⟨⟩⟩ := List.mem_map.mp h
      simp
  · simp [triggerEntry]
  · unfold dynamicTriggerEntries at h
    split at h
    · simp at h
    · rcases List.mem_pair.mp h with h | h
      · cases h; simp
      · cases h; simp

theorem kind_of_mem_requestEntries (h : .ok x ∈ cx.requestEntries) :
    x.kind ∈ [EntityKind.requestSend, .requestReceived] := by
  unfold requestEntries at h
  simp only [List.mem_append, List.mem_flatMap, List.mem_map] at h
  rcases h with ⟨site, -, ⟨e, -, he⟩ | ⟨e, -, he⟩⟩
  · obtain ⟨inputs, -, he⟩ := bind_ok_iff.mp he
    obtain ⟨outputs, -, ⟨⟩⟩ := bind_ok_iff.mp he
    simp
  · obtain ⟨inputs, -, he⟩ := bind_ok_iff.mp he
    obtain ⟨outputs, -, ⟨⟩⟩ := bind_ok_iff.mp he
    simp

theorem kind_of_dataReadEntry {site : ModuleSite} {d : Declared.DataRead}
    (h : cx.dataReadEntry site d = .ok x) : x.kind = .dataRead := by
  obtain ⟨⟨type, category⟩, -, ⟨⟩⟩ := bind_ok_iff.mp h
  rfl

theorem kind_of_dataWrittenEntry {site : ModuleSite} {d : Declared.DataWritten}
    (h : cx.dataWrittenEntry site d = .ok x) : x.kind = .dataWritten := by
  obtain ⟨⟨type, category⟩, -, ⟨⟩⟩ := bind_ok_iff.mp h
  rfl

theorem kind_of_mem_dataEntries (h : .ok x ∈ cx.dataEntries) :
    x.kind ∈ [EntityKind.dataRead, .dataWritten] := by
  unfold dataEntries at h
  simp only [List.mem_append, List.mem_flatMap, List.mem_map] at h
  rcases h with ⟨site, -, ⟨e, -, he⟩ | ⟨e, -, he⟩⟩
  · simp [kind_of_dataReadEntry he]
  · simp [kind_of_dataWrittenEntry he]

theorem exists_of_mem_propertyEntries (h : .ok x ∈ cx.propertyEntries) :
    ∃ site d, cx.propertyEntry site d = .ok x := by
  unfold propertyEntries at h
  simp only [List.mem_flatMap, List.mem_map] at h
  obtain ⟨site, -, d, -, hd⟩ := h
  exact ⟨site, d, hd⟩

theorem kind_of_mem_propertyEntries (h : .ok x ∈ cx.propertyEntries) : x.kind = .property := by
  obtain ⟨site, d, h⟩ := exists_of_mem_propertyEntries h
  obtain ⟨⟨type, category⟩, -, h⟩ := bind_ok_iff.mp h
  obtain ⟨item, -, h⟩ := bind_ok_iff.mp h
  obtain ⟨values, -, ⟨⟩⟩ := bind_ok_iff.mp h
  rfl

theorem kind_of_mem_pinfoEntries (h : .ok x ∈ cx.pinfoEntries) : x.kind = .pinfo := by
  unfold pinfoEntries at h
  simp only [List.mem_append, List.mem_flatMap, List.mem_map] at h
  rcases h with ⟨site, -, ⟨e, -, he⟩ | ⟨e, -, he⟩⟩
  · obtain ⟨values, -, ⟨⟩⟩ := bind_ok_iff.mp he
    rfl
  · obtain ⟨values, -, ⟨⟩⟩ := bind_ok_iff.mp he
    rfl

/-- A property among the entities is one that a module type declares. -/
theorem exists_propertyEntry (h : .ok x ∈ cx.entries) (hkind : x.kind = .property) :
    ∃ site d, cx.propertyEntry site d = .ok x := by
  unfold entries at h
  simp only [List.mem_append] at h
  rcases h with (((h | h) | h) | h) | h
  · simpa [hkind] using kind_of_mem_eventEntries h
  · simpa [hkind] using kind_of_mem_requestEntries h
  · simpa [hkind] using kind_of_mem_dataEntries h
  · exact exists_of_mem_propertyEntries h
  · cases hkind.symm.trans (kind_of_mem_pinfoEntries h)

/-- Persistent information among the entities is what the type of a site declares. -/
theorem exists_pinfoEntry (h : .ok x ∈ cx.entries) (hkind : x.kind = .pinfo) :
    ∃ site ∈ cx.sites, ∃ isPrivate d, cx.pinfoEntry site isPrivate d = .ok x := by
  unfold entries at h
  simp only [List.mem_append] at h
  rcases h with (((h | h) | h) | h) | h
  · simpa [hkind] using kind_of_mem_eventEntries h
  · simpa [hkind] using kind_of_mem_requestEntries h
  · simpa [hkind] using kind_of_mem_dataEntries h
  · cases hkind.symm.trans (kind_of_mem_propertyEntries h)
  · unfold pinfoEntries at h
    simp only [List.mem_append, List.mem_flatMap, List.mem_map] at h
    obtain ⟨site, hsite, ⟨d, -, h⟩ | ⟨d, -, h⟩⟩ := h
    · exact ⟨site, hsite, false, d, h⟩
    · exact ⟨site, hsite, true, d, h⟩

/-- A writer among the entities is one that the type of a site declares. -/
theorem exists_dataWrittenEntry (h : .ok x ∈ cx.entries) (hkind : x.kind = .dataWritten) :
    ∃ site ∈ cx.sites, ∃ d ∈ site.moduleType.operations.dataWritten,
      cx.dataWrittenEntry site d = .ok x := by
  unfold entries at h
  simp only [List.mem_append] at h
  rcases h with (((h | h) | h) | h) | h
  · simpa [hkind] using kind_of_mem_eventEntries h
  · simpa [hkind] using kind_of_mem_requestEntries h
  · unfold dataEntries at h
    simp only [List.mem_append, List.mem_flatMap, List.mem_map] at h
    rcases h with ⟨site, hsite, ⟨d, -, h⟩ | ⟨d, hd, h⟩⟩
    · cases hkind.symm.trans (kind_of_dataReadEntry h)
    · exact ⟨site, hsite, d, hd, h⟩
  · cases hkind.symm.trans (kind_of_mem_propertyEntries h)
  · cases hkind.symm.trans (kind_of_mem_pinfoEntries h)

end ComponentContext

end Ecoa
