import Ecoa.Proofs.Linking.Tables

/-!
# Projects with one more component

When a component of a new name is put last in a project, what the project had before keeps its
numbers. The new entities can be bound among each other and, over wires, to the old ones, but
between the old ones they change nothing.
-/

namespace Ecoa

/-- The project with one more component, the last. -/
def Declared.Project.withComponent (p : Declared.Project) (c : Declared.Component) :
    Declared.Project :=
  { p with components := p.components ++ [c] }

/-- The second entity is the first, except that a data operation may have further keys stamped. -/
def Entity.IsKeptAs : (kind : EntityKind) → Entity kind → Entity kind → Prop
  | .dataRead, (e : DataRead), (e' : DataRead) => e' = { e with controlled := e'.controlled } ∧
      ∀ key flag, e.controlled.get? key = some flag → e'.controlled.get? key = some flag
  | .dataWritten, (e : DataWritten), (e' : DataWritten) =>
      e' = { e with controlled := e'.controlled } ∧
        ∀ key flag, e.controlled.get? key = some flag → e'.controlled.get? key = some flag
  | _, e, e' => e' = e

theorem Store.get?_of_append {α : Type} {s s' : Store α} {xs : List (String × α)} {i : Nat} {a : α}
    (h : s'.entries.toList = s.entries.toList ++ xs) (hi : s.get? i = some a) :
    s'.get? i = some a := by
  obtain ⟨g, hg⟩ := get?_eq_some_iff.mp hi
  rw [← Array.getElem?_toList] at hg
  rw [get?_eq_some_iff]
  refine ⟨g, ?_⟩
  rw [← Array.getElem?_toList, h, List.getElem?_append_left (List.getElem?_eq_some_iff.mp hg).1, hg]

namespace DataLinking

/-- More keys leave the flags that are stamped. -/
theorem get?_stamp_of_subset {links : Links} {keys keys' : List String} {key : String} {flag : Bool}
    (hsub : ∀ key ∈ keys, key ∈ keys') (h : (stamp links ∅ keys).get? key = some flag) :
    (stamp links ∅ keys').get? key = some flag := by
  rw [get?_stamp] at h ⊢
  split at h
  · next hkey => rw [if_pos (hsub key hkey), h]
  · cases h

end DataLinking

namespace Model

variable {m m' : Model} {p : Declared.Project} {c : Declared.Component} {layout : Layout}

theorem IsPopulated.exists_component (h : m.IsPopulated p) {kind : EntityKind}
    (hlinked : kind.isLinked = true) {i : Nat} {e : Entity kind}
    (he : (m.store kind).get? i = some e) : ∃ d ∈ p.components, e.component kind = d.name := by
  obtain ⟨d, hd, g, hdeclared⟩ := h.exists_declares kind he
  exact ⟨d, hd, hdeclared.component_eq hlinked⟩

section

variable (h : m.IsFilled p layout) (h' : m'.IsFilled (p.withComponent c) layout)

include h h'

theorem IsFilled.withComponent_registry : m'.registry = m.registry :=
  Except.ok.inj (h'.registry.symm.trans h.registry)

theorem IsFilled.withComponent_deployment : m'.deployment = m.deployment :=
  Except.ok.inj (h'.deployment.symm.trans h.deployment)

/-- The new entities come last. -/
theorem IsFilled.withComponent_entries (kind : EntityKind) :
    (m'.store kind).entries.toList = (m.store kind).entries.toList ++
      (c.built m.registry m.deployment layout).filterMap (Entry.of? kind) := by
  rw [h'.entries, h.entries, h.withComponent_registry h', h.withComponent_deployment h',
    Declared.Project.withComponent, List.flatMap_append, List.flatMap_singleton,
    List.filterMap_append]

theorem IsFilled.withComponent_get? {kind : EntityKind} {i : Nat} {e : Entity kind}
    (he : (m.store kind).get? i = some e) : (m'.store kind).get? i = some e :=
  Store.get?_of_append (h.withComponent_entries h' kind) he

/-- The models agree on all components but the new one. -/
theorem IsFilled.withComponent_agreesOn : m.AgreesOn m' (· ≠ c.name) where
  deployment := h.withComponent_deployment h' ▸ Deployment.Agrees.refl m.deployment
  ofComponent kind hlinked name hname := by
    have hnew : [c].filter (·.name = name) = [] :=
      List.filter_cons_of_neg fun heq => hname (of_decide_eq_true heq).symm
    rw [h.ofComponent_eq hlinked, h'.ofComponent_eq hlinked, h.withComponent_registry h',
      h.withComponent_deployment h', Declared.Project.withComponent, List.filter_append, hnew,
      List.append_nil]

/-- What data is found bound stays so. -/
theorem IsFilled.withComponent_mem_bindings {x : Binding EntityId}
    (hx : x ∈ DataLinking.bindings m) : x ∈ DataLinking.bindings m' := by
  obtain ⟨hs, hr⟩ := DataLinking.kinds_of_mem_bindings hx
  obtain ⟨⟨hsender, hreceiver⟩, -⟩ := joinsStored_of_mem_flatMap (DataLinking.bindings_eq ▸ hx)
  obtain ⟨⟨_, s⟩, k, ⟨_, r⟩, k'⟩ := x
  cases hs
  cases hr
  obtain ⟨e, he⟩ := Option.isSome_iff_exists.mp hsender
  obtain ⟨f, hf⟩ := Option.isSome_iff_exists.mp hreceiver
  exact (DataLinking.mem_bindings_congr (h.withComponent_agreesOn h').deployment he
    (h.withComponent_get? h' he) hf (h.withComponent_get? h' hf)).mp hx

/-- Linking makes the same of an entity of the project, except that data may have further keys. -/
theorem IsFilled.isKeptAs_linkedEntity (hc : ∀ d ∈ p.components, d.name ≠ c.name)
    {kind : EntityKind} {i : Nat} {e : Entity kind} (he : (m.store kind).get? i = some e) :
    Entity.IsKeptAs kind (m.linkedEntity kind i e) (m'.linkedEntity kind i e) := by
  have hsub : ∀ {own : Binding EntityId → String} {q : Binding EntityId → Bool},
      ∀ key ∈ ((DataLinking.bindings m).filter q).map own,
        key ∈ ((DataLinking.bindings m').filter q).map own := by
    intro own q key hkey
    obtain ⟨x, hx, rfl⟩ := List.mem_map.mp hkey
    obtain ⟨hx, hq⟩ := List.mem_filter.mp hx
    exact List.mem_map_of_mem
      (List.mem_filter.mpr ⟨h.withComponent_mem_bindings h' hx, hq⟩)
  cases kind with
  | external =>
    obtain ⟨d, hd, hname⟩ := h.isPopulated.exists_component rfl he
    have hinputs := EventLinking.externalInputs_congr (h.withComponent_agreesOn h') he
      (h.withComponent_get? h' he) (hname.trans_ne (hc d hd))
    simp only [Entity.IsKeptAs, linkedEntity, hinputs]
  | dataRead =>
    obtain ⟨d, -, g, -, hflags⟩ := h.isPopulated.exists_declares .dataRead he
    refine ⟨rfl, fun key flag hflag => ?_⟩
    simp only [linkedEntity] at hflag ⊢
    rw [hflags] at hflag ⊢
    exact DataLinking.get?_stamp_of_subset hsub hflag
  | dataWritten =>
    obtain ⟨d, -, g, -, hflags⟩ := h.isPopulated.exists_declares .dataWritten he
    refine ⟨rfl, fun key flag hflag => ?_⟩
    simp only [linkedEntity] at hflag ⊢
    rw [hflags] at hflag ⊢
    exact DataLinking.get?_stamp_of_subset hsub hflag
  | _ => exact rfl

/-- The old entities are bound as before. -/
theorem IsFilled.withComponent_mem_table (hc : ∀ d ∈ p.components, d.name ≠ c.name)
    {table : Model → BindingTable EntityId}
    (htable : table ∈ [Model.events, Model.requests, Model.data]) {x : Binding EntityId}
    (hstored : m.JoinsStored x) (hlinked : x.sender.kind.isLinked = true) :
    x ∈ (table m.link.1).toList ↔ x ∈ (table m'.link.1).toList := by
  obtain ⟨⟨kind, s⟩, k, ⟨kind', r⟩, k'⟩ := x
  obtain ⟨e, he⟩ : ∃ e, (m.store kind).get? s = some e := Option.isSome_iff_exists.mp hstored.1
  obtain ⟨f, hf⟩ : ∃ f, (m.store kind').get? r = some f := Option.isSome_iff_exists.mp hstored.2
  obtain ⟨d, hd, hname⟩ := h.isPopulated.exists_component hlinked he
  exact (h.withComponent_agreesOn h').mem_table_iff h.isPopulated h'.isPopulated he
    (h.withComponent_get? h' he) hf (h.withComponent_get? h' hf) (hname.trans_ne (hc d hd)) htable

end

end Model

/-- A component of a new name, put last, leaves every entity under its id and as it is, and leaves
what is bound between these entities. -/
theorem Builder.Builds.withComponent {b : Builder} {m m' : Model} {c : Declared.Component}
    (hb : b.Builds m) (hb' : { b with project := b.project.withComponent c }.Builds m')
    (hc : ∀ d ∈ b.project.components, d.name ≠ c.name) :
    (∀ id e, m.entity? id = some e →
      ∃ e', m'.entity? id = some e' ∧ Entity.IsKeptAs id.kind e e') ∧
    ∀ table ∈ [Model.events, Model.requests, Model.data], ∀ x,
      x ∈ (table m).toList ↔ x ∈ (table m').toList ∧ m.JoinsStored x := by
  obtain ⟨m₀, hm₀, hlink⟩ := hb.exists_filled
  obtain ⟨m₀', hm₀', hlink'⟩ := hb'.exists_filled
  rw [hlink, hlink']
  constructor
  · rintro ⟨kind, i⟩ e he
    obtain ⟨e₀, he₀, rfl⟩ := Option.map_eq_some_iff.mp ((m₀.get?_store_link kind i).symm.trans he)
    refine ⟨m₀'.linkedEntity kind i e₀, ?_, hm₀.isKeptAs_linkedEntity hm₀' hc he₀⟩
    exact (m₀'.get?_store_link kind i).trans
      (congrArg _ (hm₀.withComponent_get? hm₀' he₀))
  · intro table htable x
    have hwell : m₀.link.1.IsWellBound := hm₀.isPopulated.isWellBound rfl
    have hwell' : m₀'.link.1.IsWellBound := hm₀'.isPopulated.isWellBound rfl
    have hstored : m₀.link.1.JoinsStored x ↔ m₀.JoinsStored x := by
      simp only [Model.JoinsStored, Model.isSome_entity?_link]
    rw [hstored]
    constructor
    · intro hx
      obtain ⟨hjoins, hlinked, -⟩ := hwell.isLinked htable hx
      have hjoins := hstored.mp hjoins
      exact ⟨(hm₀.withComponent_mem_table hm₀' hc htable hjoins hlinked).mp hx, hjoins⟩
    · rintro ⟨hx, hjoins⟩
      obtain ⟨-, hlinked, -⟩ := hwell'.isLinked htable hx
      exact (hm₀.withComponent_mem_table hm₀' hc htable hjoins hlinked).mpr hx

/-! ## A further reader -/

namespace Declared

/-- A writer with a reader in its own component; a wire takes its data to a component that is not
there. -/
def meteringProject : Project where
  libraries := []
  components := [gaugingComponent false false]
  deployment := ⟨[⟨"pd", [⟨"a", "gauge"⟩, ⟨"a", "dial"⟩, ⟨"b", "dial"⟩]⟩]⟩
  assembly := ⟨[⟨"a", "A", ∅⟩, ⟨"b", "B", ∅⟩], [⟨⟨"b", "r"⟩, ⟨"a", "s"⟩⟩]⟩

end Declared

open Declared in
/-- With that component the writer is bound to two readers, and to the first as before. -/
theorem Builder.Builds.withComponent_meteringProject :
    ∃ m m', (Builder.new meteringProject).Builds m ∧
      (Builder.new (meteringProject.withComponent showingComponent)).Builds m' ∧
      (∀ d ∈ meteringProject.components, d.name ≠ showingComponent.name) ∧
      ⟨⟨.dataWritten, 0⟩, "gauge:a:height", ⟨.dataRead, 0⟩, "dial:a:shown"⟩ ∈ m.data.toList ∧
      ⟨⟨.dataWritten, 0⟩, "gauge:a:height", ⟨.dataRead, 0⟩, "dial:a:shown"⟩ ∈ m'.data.toList ∧
      ⟨⟨.dataWritten, 0⟩, "gauge:a:height", ⟨.dataRead, 1⟩, "dial:b:shown"⟩ ∈ m'.data.toList ∧
      ⟨⟨.dataWritten, 0⟩, "gauge:a:height", ⟨.dataRead, 1⟩, "dial:b:shown"⟩ ∉ m.data.toList := by
  have hb : (Builder.new meteringProject).Builds _ := ⟨_, _, rfl, rfl⟩
  have hb' : (Builder.new (meteringProject.withComponent showingComponent)).Builds _ :=
    ⟨_, _, rfl, rfl⟩
  have hname : ∀ d ∈ meteringProject.components, d.name ≠ showingComponent.name := by decide
  obtain ⟨-, htables⟩ := withComponent hb hb' hname
  have hdata := htables Model.data (by simp)
  have hnear := (hdata ⟨⟨.dataWritten, 0⟩, "gauge:a:height", ⟨.dataRead, 0⟩, "dial:a:shown"⟩).mpr
    ⟨BindingTable.mem_toList.mpr rfl, rfl, rfl⟩
  refine ⟨_, _, hb, hb', hname, hnear, ((hdata _).mp hnear).1, BindingTable.mem_toList.mpr rfl,
    fun hfar => ?_⟩
  exact Bool.false_ne_true ((hdata _).mp hfar).2.2

end Ecoa
