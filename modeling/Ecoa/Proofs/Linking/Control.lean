import Ecoa.Proofs.Endpoint.Order
import Ecoa.Proofs.Linking.Data

/-!
# Which data is controlled

A key of a writer or a reader is stamped with the flag that its endpoint keeps in the index of the
component. There the endpoint stands as the first data link declares it that lists it on that side
and joins something. The two ends of a binding agree when these first links do; the link that binds
them need not be one of these.
-/

namespace Ecoa

/-! ## Own endpoints of an index -/

namespace Links

variable {es acc : List Endpoint}

/-- Of endpoints with one id the first stands for all, so by their ids the same are found. -/
theorem find?_foldl_addEndpoint {q : EndpointId → Bool} :
    (es.foldl addEndpoint acc).find? (fun e => q e.id) = (acc ++ es).find? (fun e => q e.id) := by
  induction es generalizing acc with
  | nil => rw [List.foldl_nil, List.append_nil]
  | cons e es ih =>
    rw [List.foldl_cons, ih, addEndpoint]
    split
    · next hpresent =>
      obtain ⟨e', he', hid⟩ := List.any_eq_true.mp hpresent
      rw [decide_eq_true_eq] at hid
      rw [List.find?_append, List.find?_append]
      cases hfound : acc.find? (fun e => q e.id) with
      | some found => rfl
      | none =>
        have hno : q e.id = false := by
          rw [← hid]
          exact Bool.eq_false_iff.mpr (List.find?_eq_none.mp hfound e' he')
        simp only [List.find?_cons, hno]
    · rw [List.append_assoc, List.singleton_append]

/-- An endpoint of an index is as the first of its joins declares it. -/
theorem find?_ofJoins (js : List Join) (q : EndpointId → Bool) :
    ((ofJoins js).find? fun e => q e.1.id).map Prod.fst =
      (js.flatMap Join.left).find? fun e => q e.id := by
  have hmap := List.find?_map (l := ofJoins js) (f := Prod.fst) (p := fun e : Endpoint => q e.id)
  rw [map_fst_ofJoins, find?_foldl_addEndpoint, List.nil_append] at hmap
  exact hmap.symm

end Links

/-! ## Flags of declared links -/

namespace Declared

/-- The link has endpoints on both its sides. -/
def DataLink.Joins (l : DataLink) : Prop := l.writers.ports ≠ [] ∧ l.readers.ports ≠ []

instance (l : DataLink) : Decidable l.Joins := inferInstanceAs (Decidable (_ ∧ _))

/-- The flag of the first data link that joins something and has the port on that side. -/
def Component.flagOf (c : Component) (side : DataLink → EndpointGroups) (p : Port) : Option Bool :=
  (c.dataLinks.find? fun l => l.Joins ∧ p ∈ (side l).ports).map (·.controlled)

/-- A port that a link lists has the flag of some link that lists it. -/
theorem Component.exists_flagOf {c : Component} (side : DataLink → EndpointGroups) {p : Port}
    {l : DataLink} (hl : l ∈ c.dataLinks) (hjoins : l.Joins) (hp : p ∈ (side l).ports) :
    ∃ first ∈ c.dataLinks, first.Joins ∧ p ∈ (side first).ports ∧
      c.flagOf side p = some first.controlled := by
  unfold flagOf
  cases hfound : c.dataLinks.find? fun l => l.Joins ∧ p ∈ (side l).ports with
  | none =>
    have hno := List.find?_eq_none.mp hfound l hl
    exact absurd (decide_eq_true ⟨hjoins, hp⟩) hno
  | some first =>
    have hfirst : first.Joins ∧ p ∈ (side first).ports := by
      simpa using List.find?_some hfound
    exact ⟨first, List.mem_of_find?_eq_some hfound, hfirst.1, hfirst.2, rfl⟩

end Declared

/-- Of the endpoints of some links, each with the flag of its link, the first for a port has the
flag of the first link that has the port. -/
theorem bind_controlled_find? {ls : List Declared.DataLink}
    {ends : Declared.DataLink → List Endpoint} {side : Declared.DataLink → Declared.EndpointGroups}
    {p : Port} (hports : ∀ l, (ends l).map (·.id.port) = (side l).ports)
    (hflags : ∀ l, ∀ e ∈ ends l, e.controlled = some l.controlled) :
    ((ls.flatMap ends).find? fun e => e.id.port = p).bind (·.controlled) =
      (ls.find? fun l => p ∈ (side l).ports).map (·.controlled) := by
  induction ls with
  | nil => rfl
  | cons l ls ih =>
    have hmem : p ∈ (side l).ports ↔ ∃ e ∈ ends l, e.id.port = p := by
      rw [← hports, List.mem_map]
    rw [List.flatMap_cons, List.find?_append, List.find?_cons]
    by_cases hp : p ∈ (side l).ports
    · obtain ⟨e, he, hport⟩ := hmem.mp hp
      rw [decide_eq_true hp]
      cases hfound : (ends l).find? fun e => e.id.port = p with
      | none => exact absurd (decide_eq_true hport) (List.find?_eq_none.mp hfound e he)
      | some first => exact hflags l first (List.mem_of_find?_eq_some hfound)
    · have hnone : ((ends l).find? fun e => e.id.port = p) = none := by
        refine List.find?_eq_none.mpr fun e he hport => hp (hmem.mpr ⟨e, he, ?_⟩)
        exact of_decide_eq_true hport
      rw [hnone, Option.none_or, ih, decide_eq_false hp]

namespace EndpointIndex

variable {c : Declared.Component} {l : Declared.DataLink} {e : Endpoint} {p : Port}

theorem map_port_left (l : Declared.DataLink) : l.join.left.map (·.id.port) = l.writers.ports := by
  simp only [Declared.DataLink.join]
  apply map_port_endpointsOf
  intro _ _
  rfl

theorem map_port_right (l : Declared.DataLink) :
    l.join.right.map (·.id.port) = l.readers.ports := by
  simp only [Declared.DataLink.join]
  apply map_port_endpointsOf
  intro _ _
  rfl

theorem controlled_of_mem_left (h : e ∈ l.join.left) : e.controlled = some l.controlled := by
  simp only [Declared.DataLink.join, endpointsOf, List.mem_flatMap, List.mem_map] at h
  obtain ⟨g, -, e, -, rfl⟩ := h
  rfl

theorem controlled_of_mem_right (h : e ∈ l.join.right) : e.controlled = some l.controlled := by
  simp only [Declared.DataLink.join, endpointsOf, List.mem_flatMap, List.mem_map] at h
  obtain ⟨g, -, e, -, rfl⟩ := h
  rfl

theorem isProper_join : l.join.isProper = true ↔ l.Joins := by
  unfold Join.isProper Declared.DataLink.Joins
  rw [← map_port_left, ← map_port_right]
  simp

/-- The links that the index takes in are those that join something. -/
theorem filter_isProper (ls : List Declared.DataLink) :
    (ls.map (·.join)).filter Join.isProper = (ls.filter (·.Joins)).map (·.join) := by
  rw [List.filter_map]
  congr 2
  funext l
  rw [Function.comp_apply, Bool.eq_iff_iff, isProper_join, decide_eq_true_iff]

/-- An endpoint of an index of data links has the flag of its port. -/
theorem bind_controlled_ofJoins {join : Declared.DataLink → Join}
    {side : Declared.DataLink → Declared.EndpointGroups}
    (hports : ∀ l, (join l).left.map (·.id.port) = (side l).ports)
    (hflags : ∀ l, ∀ e ∈ (join l).left, e.controlled = some l.controlled) :
    ((Links.ofJoins ((c.dataLinks.filter (·.Joins)).map join)).find?
      fun e => e.1.id.port = p).bind (·.1.controlled) = c.flagOf side p := by
  have hfirst := Links.find?_ofJoins ((c.dataLinks.filter (·.Joins)).map join) (·.port = p)
  rw [List.flatMap_map] at hfirst
  calc _ = (((Links.ofJoins ((c.dataLinks.filter (·.Joins)).map join)).find?
        fun e => e.1.id.port = p).map Prod.fst).bind (·.controlled) := by
        rw [Option.bind_map]; rfl
    _ = ((c.dataLinks.filter (·.Joins)).find? fun l => p ∈ (side l).ports).map (·.controlled) := by
        rw [hfirst, bind_controlled_find? hports hflags]
    _ = c.flagOf side p := by
        rw [List.find?_filter]
        simp only [decide_eq_true_eq]
        rfl

theorem flagOf_writers : ((build c).dataWriters.find? fun e => e.1.id.port = p).bind
    (·.1.controlled) = c.flagOf (·.writers) p := by
  unfold build
  dsimp only
  rw [filter_isProper]
  exact bind_controlled_ofJoins map_port_left fun _ _ => controlled_of_mem_left

theorem flagOf_readers : ((build c).dataReaders.find? fun e => e.1.id.port = p).bind
    (·.1.controlled) = c.flagOf (·.readers) p := by
  unfold build
  dsimp only
  rw [filter_isProper, List.map_map]
  exact bind_controlled_ofJoins map_port_right fun _ _ => controlled_of_mem_right

end EndpointIndex

/-! ## Stamped keys -/

namespace DataLinking

variable {links : Links} {key : String}

theorem get?_stamp {flags : OrderedMap String Bool} {keys : List String} :
    (stamp links flags keys).get? key =
      if key ∈ keys then some (isControlled links key) else flags.get? key := by
  unfold stamp
  induction keys generalizing flags with
  | nil => simp
  | cons k keys ih =>
    rw [List.foldl_cons, ih, OrderedMap.get?_insert]
    by_cases hk : k = key
    · subst hk
      simp
    · simp [Ne.symm hk]

/-- A key without colons in its instance has the flag of the endpoint of this instance. -/
theorem isControlled_select {side : Links} {instances : List String} {i u name : String}
    {flag : Bool} (hi : i ∈ instances) (hcolon : ':' ∉ i.toList)
    (hflag : (side.find? fun e => e.1.id.port = ⟨.moduleInstance, i, name⟩).bind
      (·.1.controlled) = some flag) :
    isControlled (EndpointIndex.select side instances name)
      (KeyForm.withOperation.text i u name) = flag := by
  have hfields : Text.fieldsOf ':' (KeyForm.withOperation.text i u name) =
      i :: Text.fieldsOf ':' (u ++ ":" ++ name) := by
    rw [← Text.fieldsOf_append hcolon]
    simp only [KeyForm.text, String.append_assoc]
    rfl
  have hown : (EndpointIndex.select side instances name).find? (·.1.instanceName = i) =
      side.find? fun e => e.1.id.port = ⟨.moduleInstance, i, name⟩ := by
    unfold EndpointIndex.select
    rw [List.find?_filter]
    congr 1
    funext e
    rw [decide_eq_decide]
    simp only [decide_eq_true_eq, EndpointId.port_eq_iff]
    constructor
    · rintro ⟨⟨hkind, hname, -⟩, hinstance⟩
      exact ⟨hkind, hinstance, hname⟩
    · rintro ⟨hkind, hinstance, hname⟩
      exact ⟨⟨hkind, hname, hinstance ▸ hi⟩, hinstance⟩
  obtain ⟨e, he, hcontrolled⟩ := Option.bind_eq_some_iff.mp hflag
  unfold isControlled
  rw [hfields, List.headD_cons]
  dsimp only
  rw [hown, he]
  dsimp only
  rw [hcontrolled, Option.getD_some]

/-- A bound key of an operation is stamped with the flag of its port in the index. -/
theorem get?_stamp_operation {c : Declared.Component} {side : Links} {scope : ModuleScope}
    {name i u : String} {flag : Bool} {keys : List String}
    (hoperation : c.HasOperation side scope name links)
    (hi : i ∈ c.instancesOf scope.moduleImplementation) (hcolon : ':' ∉ i.toList)
    (hflag : (side.find? fun e => e.1.id.port = ⟨.moduleInstance, i, name⟩).bind
      (·.1.controlled) = some flag)
    (hkey : KeyForm.withOperation.text i u name ∈ keys) :
    (stamp links ∅ keys).get? (KeyForm.withOperation.text i u name) = some flag := by
  rw [get?_stamp, if_pos hkey, hoperation.links, isControlled_select hi hcolon hflag]

end DataLinking

/-- Operations of one component that a data link joins are bound under all their keys. -/
theorem DataLinking.mem_bindings_of_shares {m : Model} {p : Declared.Project}
    (hm : m.IsPopulated p) {c : Declared.Component} {s r : Nat} {w : DataWritten} {f : DataRead}
    (hw : m.dataWritten.get? s = some w) (hf : m.dataRead.get? r = some f)
    (hwriter : c.HasOperation (EndpointIndex.build c).dataWriters w.scope w.name w.links)
    (hreader : c.HasOperation (EndpointIndex.build c).dataReaders f.scope f.name f.links)
    {i u j v : String} (hi : m.deployment.Runs c w.scope.moduleImplementation i u)
    (hj : m.deployment.Runs c f.scope.moduleImplementation j v)
    (hshares : c.Shares ⟨.moduleInstance, i, w.name⟩ ⟨.moduleInstance, j, f.name⟩) :
    ⟨⟨.dataWritten, s⟩, KeyForm.withOperation.text i u w.name, ⟨.dataRead, r⟩,
      KeyForm.withOperation.text j v f.name⟩ ∈ bindings m := by
  have hx : Party.IsOperation (.of .dataWritten s w) LinkFamily.data.senders c
      w.scope.moduleImplementation w.name := hwriter.isOperation ⟨.dataWritten, s⟩
  have hy : Party.IsOperation (.of .dataRead r f) LinkFamily.data.receivers c
      f.scope.moduleImplementation f.name := hreader.isOperation ⟨.dataRead, r⟩
  rw [mem_bindings hw hf]
  refine (mem_keys hm hx hy fun _ => rfl).mpr ?_
  exact ⟨i, u, j, v, hi, hj, rfl, .inl ⟨rfl, hshares⟩⟩

/-- Every writer and reader of a model is an operation of a component. Operations of one component
that a data link joins are bound, and each of their keys has the flag of the first link that lists
its own operation; a colon in the name of the instance would cut the name short. If all links that
list either operation have one flag, both ends have it. -/
theorem Builder.Builds.controlled_eq_flagOf {b : Builder} {m : Model} (hb : b.Builds m) :
    (∀ s w, m.dataWritten.get? s = some w → ∃ c ∈ b.project.components,
      c.HasOperation (EndpointIndex.build c).dataWriters w.scope w.name w.links) ∧
    (∀ r f, m.dataRead.get? r = some f → ∃ c ∈ b.project.components,
      c.HasOperation (EndpointIndex.build c).dataReaders f.scope f.name f.links) ∧
    ∀ (c : Declared.Component) s r w f,
      m.dataWritten.get? s = some w → m.dataRead.get? r = some f →
      c.HasOperation (EndpointIndex.build c).dataWriters w.scope w.name w.links →
      c.HasOperation (EndpointIndex.build c).dataReaders f.scope f.name f.links →
      ∀ i u j v, m.deployment.Runs c w.scope.moduleImplementation i u →
        m.deployment.Runs c f.scope.moduleImplementation j v →
        c.Shares ⟨.moduleInstance, i, w.name⟩ ⟨.moduleInstance, j, f.name⟩ →
        m.data.contains ⟨⟨.dataWritten, s⟩, KeyForm.withOperation.text i u w.name,
          ⟨.dataRead, r⟩, KeyForm.withOperation.text j v f.name⟩ = true ∧
        (':' ∉ i.toList → w.controlled.get? (KeyForm.withOperation.text i u w.name) =
          c.flagOf (·.writers) ⟨.moduleInstance, i, w.name⟩) ∧
        (':' ∉ j.toList → f.controlled.get? (KeyForm.withOperation.text j v f.name) =
          c.flagOf (·.readers) ⟨.moduleInstance, j, f.name⟩) ∧
        ∀ flag, (∀ l ∈ c.dataLinks, l.Joins → ⟨.moduleInstance, i, w.name⟩ ∈ l.writers.ports ∨
          ⟨.moduleInstance, j, f.name⟩ ∈ l.readers.ports → l.controlled = flag) →
          (':' ∉ i.toList →
            w.controlled.get? (KeyForm.withOperation.text i u w.name) = some flag) ∧
          (':' ∉ j.toList →
            f.controlled.get? (KeyForm.withOperation.text j v f.name) = some flag) := by
  obtain ⟨m₀, hm₀, rfl⟩ := hb.exists_steps
  dsimp only
  simp only [hm₀.contains_data]
  refine ⟨fun s w hs => ?_, fun r f hr => ?_, fun c s r w f hs hr hwriter hreader => ?_⟩
  · obtain ⟨w, hw, rfl⟩ := hm₀.exists_writer hs
    obtain ⟨c, hc, g, hdeclared⟩ := hm₀.exists_declares .dataWritten hw
    exact ⟨c, hc, hdeclared.1⟩
  · obtain ⟨f, hf, rfl⟩ := hm₀.exists_reader hr
    obtain ⟨c, hc, g, hdeclared⟩ := hm₀.exists_declares .dataRead hf
    exact ⟨c, hc, hdeclared.1⟩
  · obtain ⟨w, hw, rfl⟩ := hm₀.exists_writer hs
    obtain ⟨f, hf, rfl⟩ := hm₀.exists_reader hr
    dsimp only at hwriter hreader ⊢
    intro i u j v hi hj hshares
    have hbound := DataLinking.mem_bindings_of_shares hm₀ hw hf hwriter hreader hi hj hshares
    have hwkey : KeyForm.withOperation.text i u w.name ∈
        ((DataLinking.bindings m₀).filter (·.sender.index = s)).map (·.senderKey) :=
      List.mem_map.mpr ⟨_, List.mem_filter.mpr ⟨hbound, decide_eq_true rfl⟩, rfl⟩
    have hrkey : KeyForm.withOperation.text j v f.name ∈
        ((DataLinking.bindings m₀).filter (·.receiver.index = r)).map (·.receiverKey) :=
      List.mem_map.mpr ⟨_, List.mem_filter.mpr ⟨hbound, decide_eq_true rfl⟩, rfl⟩
    -- the link that joins both gives a flag to either
    obtain ⟨l, hl, hlw, hlr⟩ := hshares
    have hjoins : l.Joins := ⟨List.ne_nil_of_mem hlw, List.ne_nil_of_mem hlr⟩
    obtain ⟨lw, hlw, hlwjoins, hlwports, hwflag⟩ :=
      Declared.Component.exists_flagOf (·.writers) hl hjoins hlw
    obtain ⟨lr, hlr, hlrjoins, hlrports, hrflag⟩ :=
      Declared.Component.exists_flagOf (·.readers) hl hjoins hlr
    have hwstamp := fun hcolon => DataLinking.get?_stamp_operation hwriter hi.1 hcolon
      (EndpointIndex.flagOf_writers.trans hwflag) hwkey
    have hrstamp := fun hcolon => DataLinking.get?_stamp_operation hreader hj.1 hcolon
      (EndpointIndex.flagOf_readers.trans hrflag) hrkey
    rw [hwflag, hrflag]
    refine ⟨hbound, hwstamp, hrstamp, fun flag hall => ?_⟩
    rw [hall lw hlw hlwjoins (.inl hlwports)] at hwstamp
    rw [hall lr hlr hlrjoins (.inr hlrports)] at hrstamp
    exact ⟨hwstamp, hrstamp⟩

/-! ## A writer that two links list -/

namespace Declared

/-- A component that writes its data to the service `s` and shows it itself, by a link for each. -/
def gaugingComponent (offered shown : Bool) : Component where
  name := "A"
  directory := "A"
  uses := []
  moduleTypes := [
    ⟨"Measuring", { Operations.none with dataWritten := [⟨"height", "int32", none, false⟩] },
      [], [], []⟩,
    ⟨"Showing", { Operations.none with dataRead := [⟨"shown", "int32", none, false⟩] },
      [], [], []⟩]
  moduleImplementations := [⟨"measuring", "Measuring", "C"⟩, ⟨"showing", "Showing", "C"⟩]
  moduleInstances := [⟨"gauge", "measuring", [], []⟩, ⟨"dial", "showing", [], []⟩]
  triggerInstances := []
  dynamicTriggerInstances := []
  eventLinks := []
  requestLinks := []
  dataLinks := [
    ⟨.ofList [(.moduleInstance, [⟨"gauge", "height", none, none⟩])],
      .ofList [(.service, [⟨"s", "level", none, none⟩])], offered⟩,
    ⟨.ofList [(.moduleInstance, [⟨"gauge", "height", none, none⟩])],
      .ofList [(.moduleInstance, [⟨"dial", "shown", none, none⟩])], shown⟩]

def gaugingProject (offered shown : Bool) : Project where
  libraries := []
  components := [gaugingComponent offered shown]
  deployment := ⟨[⟨"pd", [⟨"a", "gauge"⟩, ⟨"a", "dial"⟩]⟩]⟩
  assembly := ⟨[⟨"a", "A", ∅⟩], []⟩

end Declared

open Declared in
theorem Builder.Builds.controlled_eq_flagOf_gaugingProject :
    ∃ m, (Builder.new (gaugingProject false false)).Builds m ∧
      ∃ w f, m.dataWritten.get? 0 = some w ∧ m.dataRead.get? 0 = some f ∧
        m.data.contains
          ⟨⟨.dataWritten, 0⟩, "gauge:a:height", ⟨.dataRead, 0⟩, "dial:a:shown"⟩ = true ∧
        w.controlled.get? "gauge:a:height" = some false ∧
        f.controlled.get? "dial:a:shown" = some false := by
  refine ⟨_, ⟨_, _, rfl, rfl⟩, _, _, rfl, rfl, ?_⟩
  obtain ⟨-, -, hstamped⟩ :=
    controlled_eq_flagOf (b := Builder.new (gaugingProject false false)) ⟨_, _, rfl, rfl⟩
  obtain ⟨hbound, -, -, hflags⟩ := hstamped (gaugingComponent false false) 0 0 _ _ rfl rfl
    ⟨rfl, rfl⟩ ⟨rfl, rfl⟩ "gauge" "a" "dial" "a" ⟨by decide, by decide⟩ ⟨by decide, by decide⟩
    ⟨_, List.mem_cons_of_mem _ List.mem_cons_self, by decide, by decide⟩
  obtain ⟨hw, hf⟩ := hflags false (by decide)
  exact ⟨hbound, hw (by decide), hf (by decide)⟩

/-- The writer has the flag of the link to the service, the reader that of the link between both. -/
theorem Builder.Builds.controlled_gaugingProject :
    ∃ m, (Builder.new (Declared.gaugingProject true false)).Builds m ∧
      (∀ l ∈ (Declared.gaugingComponent true false).dataLinks,
        ⟨.moduleInstance, "gauge", "height"⟩ ∈ l.writers.ports →
          ⟨.moduleInstance, "dial", "shown"⟩ ∈ l.readers.ports → l.controlled = false) ∧
      ∃ w f, m.dataWritten.get? 0 = some w ∧ m.dataRead.get? 0 = some f ∧
        m.data.contains
          ⟨⟨.dataWritten, 0⟩, "gauge:a:height", ⟨.dataRead, 0⟩, "dial:a:shown"⟩ = true ∧
        w.controlled.get? "gauge:a:height" = some true ∧
        f.controlled.get? "dial:a:shown" = some false :=
  ⟨_, ⟨_, _, rfl, rfl⟩, by decide, _, _, rfl, rfl, rfl, rfl, rfl⟩

end Ecoa
