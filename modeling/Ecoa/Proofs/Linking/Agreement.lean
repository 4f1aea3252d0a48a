import Ecoa.Proofs.Linking.Contents
import Ecoa.Proofs.Linking.Kinds
import Mathlib.Data.List.Nodup

/-!
# Models that agree on components

Relaying takes the first `out` key of a dynamic trigger, and an external the first receiver to which
it is bound. Both look within one component only, so two models that have the same entities of a
component, in the same order, choose alike. Their bindings between these entities are the same then.
-/

namespace Ecoa

/-- Elements that give nothing can be left out. -/
theorem flatMap_filter_of_nil {α β : Type} {f : α → List β} {q : α → Bool} {xs : List α}
    (h : ∀ x ∈ xs, q x = false → f x = []) : (xs.filter q).flatMap f = xs.flatMap f := by
  induction xs with
  | nil => rfl
  | cons x xs ih =>
    rw [List.forall_mem_cons] at h
    rw [List.filter_cons]
    split
    · rw [List.flatMap_cons, List.flatMap_cons, ih h.2]
    · next hx => rw [ih h.2, List.flatMap_cons, h.1 (Bool.eq_false_iff.mpr hx), List.nil_append]

/-- Lists with the same contents give the same, when contents alone matter. -/
theorem flatMap_eq_of_map_snd {ι α β : Type} {f g : ι × α → List β} {xs ys : List (ι × α)}
    (h : xs.map Prod.snd = ys.map Prod.snd)
    (hfg : ∀ x ∈ xs, ∀ y ∈ ys, x.2 = y.2 → f x = g y) : xs.flatMap f = ys.flatMap g := by
  induction xs generalizing ys with
  | nil => rw [List.map_eq_nil_iff.mp h.symm, List.flatMap_nil, List.flatMap_nil]
  | cons x xs ih =>
    obtain ⟨y, ys, rfl, hxy, hrest⟩ := List.map_eq_cons_iff.mp h.symm
    rw [List.flatMap_cons, List.flatMap_cons,
      hfg x List.mem_cons_self y List.mem_cons_self hxy.symm,
      ih hrest.symm fun x' hx' y' hy' =>
        hfg x' (List.mem_cons_of_mem _ hx') y' (List.mem_cons_of_mem _ hy')]

/-- What comes again is not found any more. -/
theorem find?_append_cons_of_mem {α : Type} {xs ys : List α} {x : α} (hx : x ∈ xs)
    (q : α → Bool) : (xs ++ x :: ys).find? q = (xs ++ ys).find? q := by
  rw [List.find?_append, List.find?_append]
  cases hfound : xs.find? q with
  | some _ => rfl
  | none =>
    have hno : ¬ q x = true := List.find?_eq_none.mp hfound x hx
    rw [List.find?_cons_of_neg hno]

/-! ## The first key of a sender -/

namespace BindingTable

variable {ι : Type} [DecidableEq ι]

theorem senderKeys_bind (t : BindingTable ι) (b : Binding ι) (sender : ι) :
    (t.bind b).1.senderKeys sender =
      if sender = b.sender ∧ b.senderKey ∉ t.senderKeys sender then
        t.senderKeys sender ++ [b.senderKey]
      else t.senderKeys sender := by
  simp only [senderKeys_eq, bind, BindingListing.insert, OrderedMap.inner_grow]
  by_cases hsender : sender = b.sender
  · subst hsender
    rw [if_pos rfl, OrderedMap.grow]
    by_cases hkey : b.senderKey ∈ (t.bySender.owners.inner b.sender).keys
    · rw [OrderedMap.keys_insert_of_mem hkey, if_neg fun h => h.2 hkey]
    · rw [OrderedMap.keys_insert_of_not_mem hkey, if_pos ⟨rfl, hkey⟩]
  · rw [if_neg hsender, if_neg fun h => hsender h.1]

/-- Keys stand in the order in which they are first bound. -/
theorem find?_senderKeys_bindAll (bs : List (Binding ι)) (t : BindingTable ι) (sender : ι)
    (q : String → Bool) : ((t.bindAll bs).1.senderKeys sender).find? q =
      (t.senderKeys sender ++ (bs.filter (·.sender = sender)).map (·.senderKey)).find? q := by
  have loop : ∀ state : BindingTable ι × Nat, ((bs.foldl (fun s b => ((s.1.bind b).1,
      if (s.1.bind b).2 then s.2 + 1 else s.2)) state).1.senderKeys sender).find? q =
        (state.1.senderKeys sender ++
          (bs.filter (·.sender = sender)).map (·.senderKey)).find? q := by
    induction bs with
    | nil => simp
    | cons b bs ih =>
      intro state
      rw [List.foldl_cons, ih]
      dsimp only
      rw [senderKeys_bind]
      by_cases hsender : sender = b.sender
      · have hcons : (b :: bs).filter (·.sender = sender) = b :: bs.filter (·.sender = sender) :=
          List.filter_cons_of_pos (decide_eq_true hsender.symm)
        rw [hcons, List.map_cons]
        by_cases hkey : b.senderKey ∈ state.1.senderKeys sender
        · rw [if_neg fun h => h.2 hkey, find?_append_cons_of_mem hkey]
        · rw [if_pos ⟨hsender, hkey⟩, List.append_assoc, List.singleton_append]
      · have hcons : (b :: bs).filter (·.sender = sender) = bs.filter (·.sender = sender) :=
          List.filter_cons_of_neg fun h => hsender (of_decide_eq_true h).symm
        rw [if_neg fun h => hsender h.1, hcons]
  exact loop (t, 0)

end BindingTable

/-! ## Entities of one component -/

namespace Model

/-- The entities of a kind that are of one component, in order. -/
def ofComponent (m : Model) (kind : EntityKind) (name : String) : List (Entity kind) :=
  (m.store kind).items.filter fun e => e.component kind = name

theorem map_snd_filter_numbered (m : Model) (kind : EntityKind) (name : String) :
    ((m.store kind).numbered.filter fun e => e.2.component kind = name).map Prod.snd =
      m.ofComponent kind name := by
  rw [ofComponent, ← Store.map_snd_numbered, List.filter_map]
  rfl

/-- The entities of a name come from the components of this name. -/
theorem IsFilled.ofComponent_eq {m : Model} {p : Declared.Project} {layout : Layout}
    (h : m.IsFilled p layout) {kind : EntityKind} (hlinked : kind.isLinked = true) (name : String) :
    m.ofComponent kind name = (p.components.filter (·.name = name)).flatMap fun c =>
      ((c.built m.registry m.deployment layout).filterMap (Entry.of? kind)).map Prod.snd := by
  have hcomponent : ∀ c ∈ p.components, ∀ e ∈ ((c.built m.registry m.deployment layout).filterMap
      (Entry.of? kind)).map Prod.snd, e.component kind = c.name := by
    intro c hc e he
    obtain ⟨⟨g, _⟩, hentry, rfl⟩ := List.mem_map.mp he
    obtain ⟨x, hx, hkind⟩ := List.mem_filterMap.mp hentry
    cases Entry.of?_eq_some_iff.mp hkind
    exact ((h.buildable c hc).hasEntries.declares hx).component_eq hlinked
  rw [ofComponent, Store.items, h.entries, List.filterMap_flatMap, List.map_flatMap,
    List.filter_flatMap, ← flatMap_filter_of_nil (q := (·.name = name))]
  · refine List.flatMap_congr fun c hc => List.filter_eq_self.mpr fun e he => decide_eq_true ?_
    obtain ⟨hc, hname⟩ := List.mem_filter.mp hc
    exact (hcomponent c hc e he).trans (of_decide_eq_true hname)
  · refine fun c hc hname => List.filter_eq_nil_iff.mpr fun e he heq => of_decide_eq_false hname ?_
    exact (hcomponent c hc e he).symm.trans (of_decide_eq_true heq)

/-- The deployments agree, and the components of these names have the same entities that are linked,
in the same order. -/
structure AgreesOn (m m' : Model) (names : String → Prop) : Prop where
  deployment : m.deployment.Agrees m'.deployment
  ofComponent : ∀ kind, kind.isLinked = true → ∀ name, names name →
    m.ofComponent kind name = m'.ofComponent kind name

variable {m m' : Model} {names : String → Prop} {p p' : Declared.Project} {kind : EntityKind}
  {s s' : Nat} {e : Entity kind}

theorem AgreesOn.refl (m : Model) (names : String → Prop) : m.AgreesOn m names :=
  ⟨.refl m.deployment, fun _ _ _ _ => rfl⟩

theorem AgreesOn.symm (h : m.AgreesOn m' names) : m'.AgreesOn m names :=
  ⟨h.deployment.symm, fun kind hkind name hname => (h.ofComponent kind hkind name hname).symm⟩

/-- An entity of these components is in the other model, too. -/
theorem AgreesOn.exists_get? (h : m.AgreesOn m' names) (kind : EntityKind)
    (hkind : kind.isLinked = true) {s : Nat} {e : Entity kind}
    (hs : (m.store kind).get? s = some e) (hname : names (e.component kind)) :
    ∃ s', (m'.store kind).get? s' = some e := by
  have hmem : e ∈ m.ofComponent kind (e.component kind) :=
    List.mem_filter.mpr ⟨Store.mem_items.mpr ⟨s, hs⟩, decide_eq_true rfl⟩
  rw [h.ofComponent kind hkind _ hname] at hmem
  exact Store.mem_items.mp (List.mem_filter.mp hmem).1

end Model

/-! ## What one sender is found bound to -/

theorem Model.filter_parties {m : Model} {kind : EntityKind} {s : Nat} {e : Entity kind}
    (hs : (m.store kind).get? s = some e) :
    (m.parties kind).filter (·.id = ⟨kind, s⟩) = [.of kind s e] := by
  have hnodup : (m.parties kind).Nodup := by
    refine List.Nodup.of_map (·.id.index) ?_
    rw [parties, List.map_map]
    exact Store.nodup_numbered
  refine List.perm_singleton.mp
    ((List.perm_ext_iff_of_nodup (hnodup.filter _) (List.nodup_singleton _)).mpr fun x => ?_)
  rw [List.mem_filter, decide_eq_true_eq, mem_parties_and_id hs, List.mem_singleton]

namespace EventLinking

variable {m m' : Model} {x y : Party} {phase : EntityKind × EntityKind}

def pairMatches (m : Model) (x y : Party) : List Match :=
  (LinkPair.all x.links y.links).filterMap (matchPair m x y)

theorem phaseMatches_eq : phaseMatches m phase =
    (m.parties phase.1).flatMap fun x => (m.parties phase.2).flatMap (pairMatches m x) := rfl

theorem ids_of_mem_pairMatches {q : Match} (h : q ∈ pairMatches m x y) :
    q.sender = x.id ∧ q.receiver = y.id := by
  obtain ⟨p, -, hmatch⟩ := List.mem_filterMap.mp h
  exact ids_of_matchPair hmatch

/-- Only operations of modules are matched with what is of another component. -/
theorem pairMatches_eq_nil (hkind : x.id.kind ≠ .eventSend) (hne : y.component ≠ x.component) :
    pairMatches m x y = [] := by
  refine List.filterMap_eq_nil_iff.mpr fun p _ => ?_
  refine Option.eq_none_iff_forall_ne_some.mpr fun q hq => ?_
  obtain ⟨route, hroute, hq⟩ := Option.bind_eq_some_iff.mp hq
  obtain ⟨hadmitted, -⟩ := Option.ite_none_right_eq_some.mp hq
  rcases isAdmitted_iff.mp hadmitted with rfl | ⟨-, hcomponent⟩
  · exact hkind (senderKind_of_route? hroute)
  · exact hne hcomponent.symm

variable {kind : EntityKind} {s s' : Nat} {e : Entity kind}

/-- The matches of a sender that is no operation of a module: all are within its component. -/
theorem filter_phaseMatches (hs : (m.store kind).get? s = some e) (hkind : kind ≠ .eventSend)
    (receiverKind : EntityKind) :
    (phaseMatches m (kind, receiverKind)).filter (·.sender = ⟨kind, s⟩) =
      ((m.store receiverKind).numbered.filter fun f =>
        f.2.component receiverKind = e.component kind).flatMap fun f =>
          pairMatches m (.of kind s e) (.of receiverKind f.1 f.2) := by
  have hsame : ∀ x : Party, x.id = ⟨kind, s⟩ → ∀ q ∈ (m.parties receiverKind).flatMap
      (pairMatches m x), decide (q.sender = ⟨kind, s⟩) = true := by
    intro x hx q hq
    obtain ⟨y, -, hq⟩ := List.mem_flatMap.mp hq
    exact decide_eq_true ((ids_of_mem_pairMatches hq).1.trans hx)
  have hother : ∀ x ∈ m.parties kind, decide (x.id = ⟨kind, s⟩) = false →
      ((m.parties receiverKind).flatMap (pairMatches m x)).filter (·.sender = ⟨kind, s⟩) = [] := by
    intro x _ hx
    refine List.filter_eq_nil_iff.mpr fun q hq hsender => of_decide_eq_false hx ?_
    obtain ⟨y, -, hq⟩ := List.mem_flatMap.mp hq
    exact (ids_of_mem_pairMatches hq).1.symm.trans (of_decide_eq_true hsender)
  calc (phaseMatches m (kind, receiverKind)).filter (·.sender = ⟨kind, s⟩)
    _ = (m.parties kind).flatMap fun x => ((m.parties receiverKind).flatMap
          (pairMatches m x)).filter (·.sender = ⟨kind, s⟩) := by
        rw [phaseMatches_eq, List.filter_flatMap]
    _ = (m.parties receiverKind).flatMap (pairMatches m (.of kind s e)) := by
        rw [← flatMap_filter_of_nil hother, Model.filter_parties hs, List.flatMap_singleton,
          List.filter_eq_self.mpr (hsame _ rfl)]
    _ = _ := by
        rw [Model.parties, List.flatMap_map]
        refine (flatMap_filter_of_nil fun f _ hf => ?_).symm
        exact pairMatches_eq_nil hkind (of_decide_eq_false hf)

/-- The sender has no matches in the phases of other kinds. -/
theorem filter_phaseMatches_of_ne (hne : phase.1 ≠ kind) :
    (phaseMatches m phase).filter (·.sender = ⟨kind, s⟩) = [] := by
  refine List.filter_eq_nil_iff.mpr fun q hq hsender => hne ?_
  simp only [phaseMatches_eq, List.mem_flatMap] at hq
  obtain ⟨x, hx, y, -, hq⟩ := hq
  obtain ⟨i, e', -, rfl⟩ := Model.mem_parties.mp hx
  exact congrArg EntityId.kind
    ((ids_of_mem_pairMatches hq).1.symm.trans (of_decide_eq_true hsender))

/-- What the sender learns of a match: the inputs of the receiver, and its own keys. -/
def Match.seen (m : Model) (q : Match) : Option (List Parameter) × List String :=
  (receiverInputs m q.receiver, q.keys.map Prod.fst)

/-- The inputs of a receiver are its own, whatever its number. -/
theorem receiverInputs_congr {r r' : Nat} {f : Entity kind} (hr : (m.store kind).get? r = some f)
    (hr' : (m'.store kind).get? r' = some f) :
    receiverInputs m ⟨kind, r⟩ = receiverInputs m' ⟨kind, r'⟩ := by
  cases kind with
  | eventReceived =>
    have hr : m.eventsReceived.get? r = some f := hr
    have hr' : m'.eventsReceived.get? r' = some f := hr'
    simp only [receiverInputs, hr, hr']
  | dynamicTriggerReceived =>
    have hr : m.dynamicTriggersReceived.get? r = some f := hr
    have hr' : m'.dynamicTriggersReceived.get? r' = some f := hr'
    simp only [receiverInputs, hr, hr']
  | _ => rfl

theorem map_seen_pairMatches_congr (h : m.deployment.Agrees m'.deployment)
    (hs : (m.store kind).get? s = some e) (hs' : (m'.store kind).get? s' = some e)
    (hne : kind ≠ .eventSend) {kind' : EntityKind} {r r' : Nat} {f : Entity kind'}
    (hr : (m.store kind').get? r = some f) (hr' : (m'.store kind').get? r' = some f) :
    (pairMatches m (.of kind s e) (.of kind' r f)).map (Match.seen m) =
      (pairMatches m' (.of kind s' e) (.of kind' r' f)).map (Match.seen m') := by
  unfold pairMatches
  rw [List.map_filterMap, List.map_filterMap]
  refine List.filterMap_congr fun p _ => ?_
  have hadmitted : ∀ route, isAdmitted route (.of kind s e) (.of kind' r f) p =
      isAdmitted route (.of kind s' e) (.of kind' r' f) p := fun _ => rfl
  unfold matchPair
  change Option.map _ ((route? kind kind' _ _).bind _) =
    Option.map _ ((route? kind kind' _ _).bind _)
  cases hroute : route? kind kind' p.senderDeclared.kind p.receiverDeclared.kind with
  | none => rfl
  | some route =>
    rw [Option.bind_some, Option.bind_some, ← hadmitted]
    split
    · exact congrArg some (Prod.ext (receiverInputs_congr hr hr')
        (map_fst_routeKeys_congr h hs hs' hroute hne))
    · rfl

/-- A sender that is no operation of a module learns the same in models that agree on its component,
match by match. -/
theorem map_seen_allMatches_congr {names : String → Prop} (h : m.AgreesOn m' names)
    (kind : EntityKind) {s s' : Nat} {e : Entity kind} (hs : (m.store kind).get? s = some e)
    (hs' : (m'.store kind).get? s' = some e)
    (hne : kind ≠ .eventSend) (hname : names (e.component kind)) :
    ((allMatches m).filter (·.sender = ⟨kind, s⟩)).map (Match.seen m) =
      ((allMatches m').filter (·.sender = ⟨kind, s'⟩)).map (Match.seen m') := by
  simp only [allMatches, List.filter_flatMap, List.map_flatMap]
  refine List.flatMap_congr fun phase hphase => ?_
  by_cases hkind : phase.1 = kind
  · obtain ⟨_, receiverKind⟩ := phase
    cases hkind
    have hlinked : receiverKind.isLinked = true := by
      have hphases : ∀ k ∈ phases, k.2.isLinked = true := by decide
      exact hphases _ hphase
    rw [filter_phaseMatches hs hne, filter_phaseMatches hs' hne, List.map_flatMap, List.map_flatMap]
    refine flatMap_eq_of_map_snd ?_ ?_
    · rw [Model.map_snd_filter_numbered, Model.map_snd_filter_numbered]
      exact h.ofComponent receiverKind hlinked _ hname
    · rintro ⟨r, f⟩ hf ⟨r', f'⟩ hf' heq
      cases heq
      exact map_seen_pairMatches_congr h.deployment hs hs' hne
        (Store.mem_numbered.mp (List.mem_filter.mp hf).1)
        (Store.mem_numbered.mp (List.mem_filter.mp hf').1)
  · rw [filter_phaseMatches_of_ne hkind, filter_phaseMatches_of_ne hkind, List.map_nil,
      List.map_nil]

/-- An external without inputs takes those of the first match of which it has a key. -/
theorem externalInputs_eq (m : Model) (s : Nat) (e : External) :
    externalInputs m (allMatches m) s e = if e.inputs.isEmpty then
      ((((allMatches m).filter (·.sender = ⟨.external, s⟩)).map (Match.seen m)).find?
        (!·.2.isEmpty)).elim [] (·.1.getD []) else e.inputs := by
  have hfirst : (((allMatches m).filter (·.sender = ⟨.external, s⟩)).map (Match.seen m)).find?
      (!·.2.isEmpty) = ((allMatches m).find? fun x =>
        x.sender = ⟨.external, s⟩ && !x.keys.isEmpty).map (Match.seen m) := by
    rw [List.find?_map, List.find?_filter]
    congr 2
    funext x
    simp only [Match.seen, Function.comp_apply, List.isEmpty_map, Bool.decide_and,
      Bool.decide_eq_true]
  rw [hfirst]
  unfold externalInputs
  cases (allMatches m).find? fun x => x.sender = ⟨.external, s⟩ && !x.keys.isEmpty <;> rfl

/-- An external takes the same inputs in models that agree on its component. -/
theorem externalInputs_congr {names : String → Prop} (h : m.AgreesOn m' names) {e : External}
    (hs : m.externals.get? s = some e) (hs' : m'.externals.get? s' = some e)
    (hname : names e.component) :
    externalInputs m (allMatches m) s e = externalInputs m' (allMatches m') s' e := by
  rw [externalInputs_eq, externalInputs_eq,
    map_seen_allMatches_congr h .external hs hs' nofun hname]

/-- The keys of a sender in the events that are found are those of its matches. -/
theorem map_senderKey_bindings (m : Model) (sender : EntityId) :
    (((allMatches m).flatMap (·.bindings)).filter (·.sender = sender)).map (·.senderKey) =
      (((allMatches m).filter (·.sender = sender)).map (Match.seen m)).flatMap (·.2) := by
  have hother : ∀ q ∈ allMatches m, decide (q.sender = sender) = false →
      q.bindings.filter (·.sender = sender) = [] := by
    intro q _ hq
    refine List.filter_eq_nil_iff.mpr fun b hb hsender => of_decide_eq_false hq ?_
    obtain ⟨k, -, rfl⟩ := List.mem_map.mp hb
    exact of_decide_eq_true hsender
  rw [List.filter_flatMap, ← flatMap_filter_of_nil hother, List.map_flatMap, List.flatMap_map]
  refine List.flatMap_congr fun q hq => ?_
  have hown : q.bindings.filter (·.sender = sender) = q.bindings := by
    refine List.filter_eq_self.mpr fun b hb => ?_
    obtain ⟨k, -, rfl⟩ := List.mem_map.mp hb
    exact (List.mem_filter.mp hq).2
  rw [hown, Match.bindings, bindingsUnder, List.map_map]
  rfl

end EventLinking

namespace Model

open EventLinking

variable {m m' : Model} {names : String → Prop} {p p' : Declared.Project}

theorem IsPopulated.linkEvents_events (h : m.IsPopulated p) : m.linkEvents.1.events =
    (BindingTable.empty.bindAll ((allMatches m).flatMap (·.bindings))).1 := by
  rw [linkEvents_fst, h.events]

/-- A sender that is no operation of a module has its keys in the same order in models that agree on
its component. -/
theorem AgreesOn.find?_senderKeys (h : m.AgreesOn m' names) (hm : m.IsPopulated p)
    (hm' : m'.IsPopulated p') (kind : EntityKind) {s s' : Nat} {e : Entity kind}
    (hs : (m.store kind).get? s = some e) (hs' : (m'.store kind).get? s' = some e)
    (hne : kind ≠ .eventSend) (hname : names (e.component kind)) (q : String → Bool) :
    (m.linkEvents.1.events.senderKeys ⟨kind, s⟩).find? q =
      (m'.linkEvents.1.events.senderKeys ⟨kind, s'⟩).find? q := by
  rw [hm.linkEvents_events, hm'.linkEvents_events, BindingTable.find?_senderKeys_bindAll,
    BindingTable.find?_senderKeys_bindAll, map_senderKey_bindings, map_senderKey_bindings,
    map_seen_allMatches_congr h kind hs hs' hne hname]
  rfl

/-- The sending sides of dynamic triggers are filed under their component. -/
theorem IsPopulated.group_eq_component (h : m.IsPopulated p) {name : String} {e : DynamicTrigger}
    (he : (name, e) ∈ m.dynamicTriggersSend.entries.toList) : name = e.component := by
  obtain ⟨c, -, hdeclared⟩ :=
    h.declared ⟨.dynamicTriggerSend, name, e⟩ (Array.mem_toList_iff.mp he)
  exact hdeclared.group.trans hdeclared.component.symm

theorem IsPopulated.map_find?_group (h : m.IsPopulated p) (name : String)
    (q : DynamicTrigger → Bool) :
    ((m.dynamicTriggersSend.group name).find? fun e => q e.2).map Prod.snd =
      (m.ofComponent .dynamicTriggerSend name).find? q := by
  have hgroup : (m.dynamicTriggersSend.group name).map Prod.snd =
      m.ofComponent .dynamicTriggerSend name := by
    rw [Store.map_snd_group, ofComponent, Store.items, List.filter_map]
    refine congrArg _ (List.filter_congr fun e he => ?_)
    rw [h.group_eq_component he]
    rfl
  rw [← hgroup, List.find?_map]
  rfl

/-- The sending side of a dynamic trigger is the same in models that agree on its component. -/
theorem AgreesOn.exists_sendingSide? (h : m.AgreesOn m' names) (hm : m.IsPopulated p)
    (hm' : m'.IsPopulated p') {n n' i : Nat} {g : DynamicTrigger}
    (hn : m.dynamicTriggersReceived.get? n = some g)
    (hn' : m'.dynamicTriggersReceived.get? n' = some g) (hname : names g.component)
    (hsending : Relay.sendingSide? m ⟨.dynamicTriggerReceived, n⟩ = some ⟨.dynamicTriggerSend, i⟩) :
    ∃ i' sent, m.dynamicTriggersSend.get? i = some sent ∧
      m'.dynamicTriggersSend.get? i' = some sent ∧ sent.component = g.component ∧
        Relay.sendingSide? m' ⟨.dynamicTriggerReceived, n'⟩ = some ⟨.dynamicTriggerSend, i'⟩ := by
  have hfirst : ((m.dynamicTriggersSend.group g.component).find? (·.2.name = g.name)).map Prod.snd =
      ((m'.dynamicTriggersSend.group g.component).find? (·.2.name = g.name)).map Prod.snd := by
    rw [hm.map_find?_group _ (·.name = g.name), hm'.map_find?_group _ (·.name = g.name),
      h.ofComponent .dynamicTriggerSend rfl _ hname]
  unfold Relay.sendingSide? at hsending ⊢
  rw [hn, Option.bind_some, Option.map_eq_some_iff] at hsending
  obtain ⟨⟨_, sent⟩, hfound, ⟨⟩⟩ := hsending
  rw [hfound, Option.map_some] at hfirst
  obtain ⟨⟨i', sent'⟩, hfound', heq⟩ := Option.map_eq_some_iff.mp hfirst.symm
  obtain rfl : sent = sent' := heq.symm
  have hentry := Store.mem_group.mp (List.mem_of_find?_eq_some hfound)
  have hentry' := Store.mem_group.mp (List.mem_of_find?_eq_some hfound')
  refine ⟨i', sent, Store.get?_eq_some_iff.mpr ⟨_, hentry⟩, Store.get?_eq_some_iff.mpr ⟨_, hentry'⟩,
    ?_, by rw [hn', Option.bind_some, hfound', Option.map_some]⟩
  exact (hm.group_eq_component (Array.mem_toList_iff.mpr (Array.mem_of_getElem? hentry))).symm

/-- What is found bound between two entities is bound between them in any model that has them. -/
theorem AgreesOn.mem_linkEvents (h : m.AgreesOn m' names) (hm : m.IsPopulated p)
    (hm' : m'.IsPopulated p') (kind kind' : EntityKind) {s s' r r' : Nat} {e : Entity kind}
    {f : Entity kind'} (hs : (m.store kind).get? s = some e)
    (hs' : (m'.store kind).get? s' = some e) (hr : (m.store kind').get? r = some f)
    (hr' : (m'.store kind').get? r' = some f) {k k' : String} :
    ⟨⟨kind, s⟩, k, ⟨kind', r⟩, k'⟩ ∈ m.linkEvents.1.events.toList ↔
      ⟨⟨kind, s'⟩, k, ⟨kind', r'⟩, k'⟩ ∈ m'.linkEvents.1.events.toList := by
  rw [hm.isEventLinked.mem_events, hm'.isEventLinked.mem_events,
    mem_bindings_iff kind kind' hs hr, mem_bindings_iff kind kind' hs' hr']
  exact mem_partyKeys_congr h.deployment hs hs'

theorem IsPopulated.noEmptyGroup (h : m.IsPopulated p) :
    m.linkEvents.1.events.bySender.NoEmptyGroup := by
  rw [h.linkEvents_events]
  exact (BindingTable.represents_empty.bindAll _).1.senders_filled

/-- A dynamic trigger sends out to the same entities in models that agree on its component. -/
theorem AgreesOn.mem_outBindings (h : m.AgreesOn m' names) (hm : m.IsPopulated p)
    (hm' : m'.IsPopulated p') {kind : EntityKind} {i i' r r' : Nat} {sent : DynamicTrigger}
    {f : Entity kind} (hi : m.dynamicTriggersSend.get? i = some sent)
    (hi' : m'.dynamicTriggersSend.get? i' = some sent) (hname : names sent.component)
    (hr : (m.store kind).get? r = some f) (hr' : (m'.store kind).get? r' = some f)
    {k k' : String} (hmem : ⟨⟨.dynamicTriggerSend, i⟩, k, ⟨kind, r⟩, k'⟩ ∈
      Relay.outBindings m.linkEvents.1 ⟨.dynamicTriggerSend, i⟩) :
    ⟨⟨.dynamicTriggerSend, i'⟩, k, ⟨kind, r'⟩, k'⟩ ∈
      Relay.outBindings m'.linkEvents.1 ⟨.dynamicTriggerSend, i'⟩ := by
  rw [Relay.outBindings_eq hm.noEmptyGroup, List.mem_filter, decide_eq_true_eq] at hmem
  rw [Relay.outBindings_eq hm'.noEmptyGroup, List.mem_filter, decide_eq_true_eq]
  obtain ⟨hbound, -, hfirst⟩ := hmem
  refine ⟨(h.mem_linkEvents hm hm' .dynamicTriggerSend kind hi hi' hr hr').mp hbound, rfl, ?_⟩
  rw [h.find?_senderKeys hm hm' .dynamicTriggerSend hi hi' nofun hname] at hfirst
  exact hfirst

/-- Only within a component are dynamic triggers reached. -/
theorem component_eq_of_mem_linkEvents (hm : m.IsPopulated p) {kind : EntityKind} {s n : Nat}
    {e : Entity kind} {g : DynamicTrigger} (hs : (m.store kind).get? s = some e)
    (hn : m.dynamicTriggersReceived.get? n = some g) {k k' : String}
    (hmem : ⟨⟨kind, s⟩, k, ⟨.dynamicTriggerReceived, n⟩, k'⟩ ∈ m.linkEvents.1.events.toList) :
    e.component kind = g.component := by
  rw [hm.isEventLinked.mem_events, mem_bindings_iff kind .dynamicTriggerReceived hs hn] at hmem
  obtain ⟨q, -, route, hroute, hadmitted, -⟩ := mem_partyKeys.mp hmem
  rcases isAdmitted_iff.mp hadmitted with rfl | ⟨-, hcomponent⟩
  · cases senderKind_of_route? hroute
    simp [Party.of, route?] at hroute
  · exact hcomponent

/-- What is bound after relaying between two entities is bound between them in the other model, when
the models agree on the component of the sender. -/
theorem AgreesOn.mem_relayed_of_mem (h : m.AgreesOn m' names) (hm : m.IsPopulated p)
    (hm' : m'.IsPopulated p') {kind kind' : EntityKind} {s s' r r' : Nat} {e : Entity kind}
    {f : Entity kind'} (hs : (m.store kind).get? s = some e)
    (hs' : (m'.store kind).get? s' = some e) (hr : (m.store kind').get? r = some f)
    (hr' : (m'.store kind').get? r' = some f) (hname : names (e.component kind)) {k k' : String}
    (hmem : ⟨⟨kind, s⟩, k, ⟨kind', r⟩, k'⟩ ∈ m.linkEvents.1.relayed.toList) :
    ⟨⟨kind, s'⟩, k, ⟨kind', r'⟩, k'⟩ ∈ m'.linkEvents.1.relayed.toList := by
  rw [mem_relayed fun _ _ _ _ => hm.isEventLinked.not_isInbound_of_mem_replacements] at hmem
  rw [mem_relayed fun _ _ _ _ => hm'.isEventLinked.not_isInbound_of_mem_replacements]
  rcases hmem with ⟨hbound, hinbound⟩ | ⟨⟨x, key, ⟨_, n⟩, key'⟩, hb, hinbound, hreplaces⟩
  · exact .inl ⟨(h.mem_linkEvents hm hm' kind kind' hs hs' hr hr').mp hbound, hinbound⟩
  · -- the dynamic trigger on the way and its sending side have counterparts, as they are of the
    -- component of the sender
    obtain ⟨hkind, htrigger, hin⟩ := Relay.isInbound_iff.mp hinbound
    obtain ⟨hx, hkey, ⟨ti, tk, tr, tk'⟩, ht, hreceiver, htk'⟩ := Relay.mem_replacements.mp hreplaces
    cases htrigger
    cases hx
    cases hkey
    cases hreceiver
    cases htk'
    obtain ⟨-, -, g, hn⟩ := exists_of_mem_bindings ((hm.isEventLinked.mem_events _).mp hb)
    have hcomponent := component_eq_of_mem_linkEvents hm hs hn hb
    rw [hcomponent] at hname
    obtain ⟨n', hn'⟩ := h.exists_get? .dynamicTriggerReceived rfl hn hname
    obtain ⟨sender, hsending, hsent⟩ := Relay.mem_targets.mp ht
    obtain ⟨-, i, -, -, rfl, -⟩ := Relay.sendingSide?_eq_some hsending
    obtain ⟨i', sent, hi, hi', hsame, hsending'⟩ :=
      h.exists_sendingSide? hm hm' hn hn' hname hsending
    cases (Relay.of_mem_outBindings hsent).2.1
    have hsent' := h.mem_outBindings hm hm' hi hi' (hsame ▸ hname) hr hr' hsent
    refine .inr ⟨⟨⟨kind, s'⟩, k, ⟨.dynamicTriggerReceived, n'⟩, key'⟩,
      (h.mem_linkEvents hm hm' kind .dynamicTriggerReceived hs hs' hn hn').mp hb,
      Relay.isInbound_iff.mpr ⟨hkind, rfl, hin⟩, Relay.mem_replacements.mpr ⟨rfl, rfl, _,
        Relay.mem_targets.mpr ⟨_, hsending', hsent'⟩, rfl, rfl⟩⟩

/-- Two entities of components on which the models agree are bound alike after relaying. -/
theorem AgreesOn.mem_relayed_iff (h : m.AgreesOn m' names) (hm : m.IsPopulated p)
    (hm' : m'.IsPopulated p') {kind kind' : EntityKind} {s s' r r' : Nat} {e : Entity kind}
    {f : Entity kind'} (hs : (m.store kind).get? s = some e)
    (hs' : (m'.store kind).get? s' = some e) (hr : (m.store kind').get? r = some f)
    (hr' : (m'.store kind').get? r' = some f) (hname : names (e.component kind)) {k k' : String} :
    ⟨⟨kind, s⟩, k, ⟨kind', r⟩, k'⟩ ∈ m.linkEvents.1.relayed.toList ↔
      ⟨⟨kind, s'⟩, k, ⟨kind', r'⟩, k'⟩ ∈ m'.linkEvents.1.relayed.toList :=
  ⟨h.mem_relayed_of_mem hm hm' hs hs' hr hr' hname,
    h.symm.mem_relayed_of_mem hm' hm hs' hs hr' hr hname⟩

end Model

end Ecoa
