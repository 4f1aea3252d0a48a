import Ecoa.Component.Entities
import Ecoa.Proofs.Endpoint.Index
import Ecoa.Proofs.Except
import Ecoa.Proofs.Language.Case

/-!
# The externals of a component

Senders of events outside the modules are gathered by their operation and language: an external
has the endpoints of all of them, in order, and there is one for each operation and language that
some endpoint has. Links keep languages in lower case, which does not change what they are read as.
-/

namespace Ecoa

/-! ## Endpoints outside the modules -/

namespace Declared

/-- Some sender of the link is this operation of code outside, in a language that is read as this
one. Its instance does not matter. -/
def EventLink.HasExternalSender (l : EventLink) (operation : String) (language : Language) : Prop :=
  ∃ g ∈ l.senders.toList, g.1 = .external ∧
    ∃ e ∈ g.2, e.operation = operation ∧ e.language.bind Language.parse? = some language

/-- An event link has such a sender, and the port among its receivers. -/
def Component.SendsFromOutside (c : Component) (operation : String) (language : Language)
    (receiver : Port) : Prop :=
  ∃ l ∈ c.eventLinks, l.HasExternalSender operation language ∧ receiver ∈ l.receivers.ports

end Declared

/-- The endpoint stands for this operation of code outside, in this language. -/
def EndpointId.IsExternal (a : EndpointId) (operation : String) (language : Language) : Prop :=
  a.kind = .external ∧ a.operation = operation ∧
    Language.parse? (a.language.getD "") = some language

instance (a : EndpointId) (operation : String) (language : Language) :
    Decidable (a.IsExternal operation language) := by
  unfold EndpointId.IsExternal
  infer_instance

theorem hasEndpoint_endpointsOf {groups : Declared.EndpointGroups}
    {attributes : Declared.Endpoint → Endpoint → Endpoint} {a : EndpointId} :
    HasEndpoint (endpointsOf groups attributes) a ↔ ∃ g ∈ groups.toList, ∃ e ∈ g.2,
      (attributes e (.new g.1 e.instanceName e.operation)).id = a := by
  simp only [HasEndpoint, endpointsOf, List.mem_flatMap, List.mem_map]
  constructor
  · rintro ⟨_, ⟨g, hg, e, he, rfl⟩, ha⟩
    exact ⟨g, hg, e, he, ha⟩
  · rintro ⟨g, hg, e, he, ha⟩
    exact ⟨_, ⟨g, hg, e, he, rfl⟩, ha⟩

theorem hasEndpoint_eventSenders {l : Declared.EventLink} {a : EndpointId} :
    HasEndpoint l.join.left a ↔ ∃ g ∈ l.senders.toList, ∃ e ∈ g.2,
      ⟨g.1, e.instanceName, e.operation, e.language.map Text.lowerAscii⟩ = a := by
  rw [Declared.EventLink.join, hasEndpoint_endpointsOf]
  refine exists_congr fun g => and_congr_right fun _ => exists_congr fun e => and_congr_right
    fun _ => ?_
  cases e.language <;> rfl

theorem exists_external_iff {l : Declared.EventLink} {operation : String} {language : Language} :
    (∃ a, HasEndpoint l.join.left a ∧ a.IsExternal operation language) ↔
      l.HasExternalSender operation language := by
  have hlanguage : ∀ written : Option String,
      Language.parse? ((written.map Text.lowerAscii).getD "") = some language ↔
        written.bind Language.parse? = some language := by
    intro written
    cases written with
    | none => rw [Option.map_none, Option.getD_none, Option.bind_none, Language.parse?_empty]
    | some text => rw [Option.map_some, Option.getD_some, Language.parse?_lowerAscii,
        Option.bind_some]
  simp only [hasEndpoint_eventSenders]
  constructor
  · rintro ⟨_, ⟨g, hg, e, he, rfl⟩, hkind, hoperation, hl⟩
    exact ⟨g, hg, hkind, e, he, hoperation, (hlanguage _).mp hl⟩
  · rintro ⟨g, hg, hkind, e, he, hoperation, hl⟩
    exact ⟨_, ⟨g, hg, e, he, rfl⟩, hkind, hoperation, (hlanguage _).mpr hl⟩

/-- The index joins endpoints outside the modules to what the links send to from there. -/
theorem EndpointIndex.exists_joins_external {c : Declared.Component} {operation : String}
    {language : Language} {q : Port} :
    (∃ a b, (build c).eventSenders.Joins a b ∧ a.IsExternal operation language ∧ b.port = q) ↔
      c.SendsFromOutside operation language q :=
  exists_joins_iff (A := fun a => a.IsExternal operation language) (fun _ => exists_external_iff)
    (fun _ => exists_hasEndpoint_endpointsOf port_withActivation)

/-- The endpoints of an operation of code outside, in one language. -/
def EndpointIndex.selectExternal (links : Links) (operation : String) (language : Language) :
    Links :=
  links.filter fun e => e.1.id.IsExternal operation language

theorem EndpointIndex.joins_selectExternal {links : Links} {operation : String}
    {language : Language} {a b : EndpointId} :
    (selectExternal links operation language).Joins a b ↔
      links.Joins a b ∧ a.IsExternal operation language :=
  Links.joins_filter (q := fun a => a.IsExternal operation language)

theorem EndpointIndex.selectExternal_concat (links : Links) (e : Endpoint × List Endpoint)
    (operation : String) (language : Language) :
    selectExternal (links ++ [e]) operation language =
      if e.1.id.IsExternal operation language then selectExternal links operation language ++ [e]
      else selectExternal links operation language := by
  simp only [selectExternal, List.filter_append, List.filter_singleton]
  split
  · next h => simp [h]
  · next h => simp [h]

/-- Endpoints of other kinds are not picked anyway. -/
theorem EndpointIndex.selectExternal_filter (links : Links) (operation : String)
    (language : Language) :
    selectExternal (links.filter (·.1.kind = .external)) operation language =
      selectExternal links operation language := by
  rw [selectExternal, List.filter_filter, selectExternal]
  refine List.filter_congr fun e _ => ?_
  rw [← Bool.decide_and, decide_eq_decide]
  exact and_iff_left_of_imp And.left

namespace ComponentContext

variable {cx : ComponentContext} {found : OrderedMap (String × Language) Links}

/-- What the first senders give: for each operation and language their endpoints. -/
def Gathers (done : Links) (found : OrderedMap (String × Language) Links) : Prop :=
  ∀ operation language, (found.get? (operation, language)).getD [] =
    EndpointIndex.selectExternal done operation language

theorem gathers_nil : Gathers [] ∅ := fun _ _ => rfl

theorem Gathers.concat {done : Links} (h : Gathers done found) {e : Endpoint × List Endpoint}
    (hdistinct : Links.IsDistinct (done ++ [e])) {language : Language}
    (he : e.1.id.IsExternal e.1.operation language) :
    Gathers (done ++ [e]) (found.alter (e.1.operation, language) fun links =>
      (links.getD []).insert e.1 e.2) := by
  have hinsert : ((found.get? (e.1.operation, language)).getD []).insert e.1 e.2 =
      EndpointIndex.selectExternal done e.1.operation language ++ [e] := by
    rw [h]
    refine Links.insert_of_isDistinct (hdistinct.sublist ?_)
    exact (List.filter_sublist.append_right [e]).map _
  intro operation' language'
  rw [OrderedMap.alter, OrderedMap.get?_insert, hinsert, EndpointIndex.selectExternal_concat]
  by_cases hkey : (operation', language') = (e.1.operation, language)
  · cases hkey
    rw [if_pos rfl, if_pos he, Option.getD_some]
  · have hother : ¬ e.1.id.IsExternal operation' language' := by
      rintro ⟨-, rfl, hl⟩
      cases he.2.2.symm.trans hl
      exact hkey rfl
    rw [if_neg hkey, if_neg hother]
    exact h operation' language'

theorem gathers_of_externalLinks (hdistinct : cx.index.eventSenders.IsDistinct)
    (h : cx.externalLinks = .ok found) : Gathers cx.index.eventSenders found := by
  unfold externalLinks at h
  have hgathers := foldlM_ok_invariant
    (fun done found => Links.IsDistinct done → Gathers done found) ?_ (fun _ => gathers_nil) h
  · intro operation language
    have hall := hgathers (hdistinct.sublist (List.filter_sublist.map _)) operation language
    rwa [EndpointIndex.selectExternal_filter] at hall
  · rintro done e found found' hdone he hstep hdistinct
    have hkind : e.1.kind = .external := of_decide_eq_true (List.mem_filter.mp he).2
    dsimp only at hstep
    split at hstep
    · next language hlanguage =>
      cases hstep
      exact (hdone (Links.isDistinct_concat.mp hdistinct).1).concat hdistinct
        ⟨hkind, rfl, hlanguage⟩
    · cases hstep

/-- An external has the endpoints of its operation and language. -/
theorem links_of_mem_toList (hdistinct : cx.index.eventSenders.IsDistinct)
    (h : cx.externalLinks = .ok found) {x : (String × Language) × Links} (hx : x ∈ found.toList) :
    x.2 = EndpointIndex.selectExternal cx.index.eventSenders x.1.1 x.1.2 := by
  have hget : found.get? (x.1.1, x.1.2) = some x.2 := OrderedMap.get?_eq_some_iff.mpr hx
  rw [← gathers_of_externalLinks hdistinct h, hget, Option.getD_some]

/-- Where an endpoint has an operation and a language, there is an external of these. -/
theorem exists_mem_toList (hdistinct : cx.index.eventSenders.IsDistinct)
    (h : cx.externalLinks = .ok found) {a b : EndpointId} (hab : cx.index.eventSenders.Joins a b)
    {operation : String} {language : Language} (ha : a.IsExternal operation language) :
    ∃ links, ((operation, language), links) ∈ found.toList := by
  have hlinks := gathers_of_externalLinks hdistinct h operation language
  cases hget : found.get? (operation, language) with
  | some links => exact ⟨links, OrderedMap.get?_eq_some_iff.mp hget⟩
  | none =>
    rw [hget, Option.getD_none] at hlinks
    exact absurd (EndpointIndex.joins_selectExternal.mpr ⟨hab, ha⟩) (hlinks ▸ Links.joins_nil a b)

end ComponentContext

end Ecoa
