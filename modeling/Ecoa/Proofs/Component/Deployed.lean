import Ecoa.Proofs.Build.Deployment
import Ecoa.Proofs.Component.Values
import Ecoa.Proofs.Property.Accepted

/-!
# Components in deployments that agree

Of the entities of a component only properties and persistent information depend on the deployment:
they have a value under each component instance under which a module instance is deployed. In
deployments that agree these are the same values under the same keys.
-/

namespace Ecoa

/-! ## Maps of entries in another order -/

namespace OrderedMap

variable {κ ν : Type} [DecidableEq κ]

/-- Where keys are not repeated the order is of no account. -/
theorem find?_congr_of_perm {xs ys : List (κ × ν)} (h : xs.Perm ys)
    (hnodup : (xs.map Prod.fst).Nodup) (k : κ) :
    xs.find? (·.1 = k) = ys.find? (·.1 = k) := by
  refine Option.ext fun e => ?_
  rw [find?_eq_some_iff_mem hnodup, find?_eq_some_iff_mem ((h.map _).nodup_iff.mp hnodup),
    h.mem_iff]

/-- Keys may be repeated from one list to the next, in which case the last list decides. -/
theorem get?_ofList_flatten_congr {xss yss : List (List (κ × ν))}
    (h : List.Forall₂ (fun xs ys => xs.Perm ys ∧ (xs.map Prod.fst).Nodup) xss yss) (k : κ) :
    (ofList xss.flatten).get? k = (ofList yss.flatten).get? k := by
  rw [get?_ofList, get?_ofList]
  refine congrArg (Option.map Prod.snd) ?_
  induction h with
  | nil => rfl
  | @cons xs ys xss yss hxy _ ih =>
    have hnodup : (xs.reverse.map Prod.fst).Nodup := by
      rw [List.map_reverse]
      exact List.nodup_reverse.mpr hxy.2
    have hperm : xs.reverse.Perm ys.reverse :=
      (xs.reverse_perm.trans hxy.1).trans ys.reverse_perm.symm
    rw [List.flatten_cons, List.flatten_cons, List.reverse_append, List.reverse_append,
      List.find?_append, List.find?_append, ih, find?_congr_of_perm hperm hnodup]

end OrderedMap

/-! ## Entities deployed anew -/

/-- The second entity is the first, except for the order of the values of a property and for the
files of persistent information. -/
def Entry.IsRedeployedAs : Entry → Entry → Prop
  | ⟨.property, g, (p : Property)⟩, y => ∃ values : OrderedMap String String,
      (∀ key, p.values.get? key = values.get? key) ∧
        y = ⟨.property, g, ({ p with values := values } : Property)⟩
  | ⟨.pinfo, g, _⟩, y => ∃ q, y = ⟨.pinfo, g, q⟩
  | x, y => y = x

/-- When the first can be built so can the second, which is the first deployed anew. -/
def RedeploysTo (a b : Built) : Prop := ∀ x, a = .ok x → ∃ y, b = .ok y ∧ x.IsRedeployedAs y

theorem Entry.IsRedeployedAs.refl (x : Entry) : x.IsRedeployedAs x := by
  obtain ⟨kind, g, e⟩ := x
  cases kind with
  | property => exact ⟨_, fun _ => rfl, rfl⟩
  | pinfo => exact ⟨e, rfl⟩
  | _ => exact rfl

theorem RedeploysTo.of_eq {a b : Built} (h : b = a) : RedeploysTo a b :=
  fun x hx => ⟨x, h.trans hx, .refl x⟩

/-- What is bound stays as it is. -/
theorem Entry.IsRedeployedAs.of?_eq {x y : Entry} (h : x.IsRedeployedAs y) {kind : EntityKind}
    (hkind : kind.isLinked = true) : y.of? kind = x.of? kind := by
  obtain ⟨k, g, e⟩ := x
  cases k with
  | property =>
    obtain ⟨values, -, rfl⟩ := h
    cases kind <;> first | rfl | cases hkind
  | pinfo =>
    obtain ⟨q, rfl⟩ := h
    cases kind <;> first | rfl | cases hkind
  | _ =>
    cases h
    rfl

namespace Property

variable {p : Property} {values : OrderedMap String String} {r : TypeRegistry}
  {place value : String}

/-! How one value is checked depends on the property, but not on its other values. -/

theorem checkLength_withValues {length : Nat} :
    checkLength { p with values := values } r place length = p.checkLength r place length := by
  unfold checkLength bound
  dsimp only

theorem checkArray_withValues :
    checkArray { p with values := values } r place value = p.checkArray r place value := by
  have hitem : ∀ item, checkItem { p with values := values } r place item =
      p.checkItem r place item := fun _ => rfl
  unfold checkArray
  simp only [checkLength_withValues, funext hitem]

theorem checkValue_withValues :
    checkValue { p with values := values } r place value = p.checkValue r place value := by
  unfold checkValue
  rw [checkArray_withValues]
  rfl

/-- The order of the values is of no account to the check. -/
theorem check_withValues_ok (h : ∀ key, p.values.get? key = values.get? key)
    (hp : p.check r = .ok ()) : check { p with values := values } r = .ok () := by
  obtain ⟨hsupported, hvalues⟩ := check_ok_iff.mp hp
  refine check_ok_iff.mpr ⟨hsupported, fun e he => ?_⟩
  have hmem : e ∈ p.values.toList :=
    OrderedMap.get?_eq_some_iff.mp ((h e.1).trans (OrderedMap.get?_eq_some_iff.mpr he))
  rw [checkValue_withValues]
  exact hvalues e hmem

end Property

theorem exists_of_forall₂_redeploysTo {found : List Entry} {ys : List Built}
    (h : List.Forall₂ RedeploysTo (found.map .ok) ys) :
    ∃ found', ys = found'.map .ok ∧ List.Forall₂ Entry.IsRedeployedAs found found' := by
  rw [List.forall₂_map_left_iff] at h
  induction h with
  | nil => exact ⟨[], rfl, .nil⟩
  | cons hx _ ih =>
    obtain ⟨y, rfl, hy⟩ := hx _ rfl
    obtain ⟨found', rfl, hfound'⟩ := ih
    exact ⟨y :: found', rfl, .cons hy hfound'⟩

namespace Declared.Component

variable {c : Component} {r : TypeRegistry} {d d' : Ecoa.Deployment} {layout : Layout}
  {sites : List ModuleSite} {site : ModuleSite} {name : String}
  {values : ModuleInstance → List NamedValue}

section

variable (h : d.Agrees d')

include h

theorem deployedValue_congr {moduleInstance value component : String} :
    (c.context r d layout sites).deployedValue site moduleInstance name value component =
      (c.context r d' layout sites).deployedValue site moduleInstance name value component := by
  unfold ComponentContext.deployedValue context Deployment.componentProperty?
  rw [h.components]

/-- One instance has the same values, in the order in which it is deployed. -/
theorem instanceValues_ok {moduleInstance : String} {found : List (String × String)}
    (hfound : (c.context r d layout sites).instanceValues site name values moduleInstance =
      .ok found) :
    ∃ found', (c.context r d' layout sites).instanceValues site name values moduleInstance =
      .ok found' ∧ found.Perm found' ∧ (found.map Prod.fst).Nodup := by
  unfold ComponentContext.instanceValues at hfound ⊢
  dsimp only [context] at hfound ⊢
  split at hfound
  · cases hfound
    exact ⟨[], rfl, .refl _, .nil⟩
  · have hkeys : (d.componentNames site.scope.component moduleInstance).map
        ((site.scope.component ++ ":" ++ moduleInstance ++ ":") ++ ·) = found.map Prod.fst := by
      rw [← List.forall₂_eq_eq_eq, List.forall₂_map_left_iff, List.forall₂_map_right_iff]
      exact (mapM_ok_iff.mp hfound).imp fun _ _ he =>
        (ComponentContext.deployedValue_ok_iff.mp he).1.symm
    obtain ⟨found', hfound', hperm⟩ :=
      mapM_ok_of_perm (h.componentNames site.scope.component moduleInstance) hfound
    refine ⟨found', ?_, hperm, ?_⟩
    · rw [← hfound']
      exact congrArg (List.mapM · _) (funext fun _ => (deployedValue_congr h).symm)
    · rw [← hkeys]
      exact (Deployment.nodup_componentNames _ _ _).map
        fun _ _ => (String.append_right_inj _).mp

theorem deployedValues_ok {found : OrderedMap String String}
    (hfound : (c.context r d layout sites).deployedValues site name values = .ok found) :
    ∃ found', (c.context r d' layout sites).deployedValues site name values = .ok found' ∧
      ∀ key, found.get? key = found'.get? key := by
  obtain ⟨lists, hlists, ⟨⟩⟩ := bind_ok_iff.mp hfound
  obtain ⟨lists', hlists', hrel⟩ := mapM_ok_of_rel (fun _ _ => instanceValues_ok h) hlists
  exact ⟨_, bind_ok_iff.mpr ⟨lists', hlists', rfl⟩, OrderedMap.get?_ofList_flatten_congr hrel⟩

theorem redeploysTo_propertyEntry (p : Declared.Property) :
    RedeploysTo ((c.context r d layout sites).propertyEntry site p)
      ((c.context r d' layout sites).propertyEntry site p) := by
  intro x hx
  obtain ⟨⟨type, category⟩, htype, hx⟩ := bind_ok_iff.mp hx
  obtain ⟨item, hitem, hx⟩ := bind_ok_iff.mp hx
  obtain ⟨values, hvalues, ⟨⟩⟩ := bind_ok_iff.mp hx
  obtain ⟨values', hvalues', heq⟩ := deployedValues_ok h hvalues
  exact ⟨_, bind_ok_iff.mpr ⟨(type, category), htype, bind_ok_iff.mpr ⟨item, hitem,
    bind_ok_iff.mpr ⟨values', hvalues', rfl⟩⟩⟩, values', heq, rfl⟩

theorem redeploysTo_pinfoEntry (isPrivate : Bool) (p : Declared.Pinfo) :
    RedeploysTo ((c.context r d layout sites).pinfoEntry site isPrivate p)
      ((c.context r d' layout sites).pinfoEntry site isPrivate p) := by
  intro x hx
  obtain ⟨values, hvalues, ⟨⟩⟩ := bind_ok_iff.mp hx
  obtain ⟨values', hvalues', -⟩ := deployedValues_ok h hvalues
  exact ⟨_, bind_ok_iff.mpr ⟨values', hvalues', rfl⟩, _, rfl⟩

omit h in
theorem eventEntries_congr : (c.context r d layout sites).eventEntries =
    (c.context r d' layout sites).eventEntries := by
  unfold ComponentContext.eventEntries ComponentContext.externalEntries
    ComponentContext.externalLinks context
  dsimp only
  rfl

/-- One by one the entities are deployed anew. -/
theorem redeploysTo_entries : List.Forall₂ RedeploysTo (c.context r d layout sites).entries
    (c.context r d' layout sites).entries := by
  have hsame : ∀ {xs ys : List Built}, ys = xs → List.Forall₂ RedeploysTo xs ys := by
    rintro xs _ rfl
    exact List.forall₂_same.mpr fun _ _ => .of_eq rfl
  have hmap : ∀ {α : Type} {f g : α → Built} (xs : List α), (∀ x, RedeploysTo (f x) (g x)) →
      List.Forall₂ RedeploysTo (xs.map f) (xs.map g) := by
    intro α f g xs hfg
    rw [List.forall₂_map_left_iff, List.forall₂_map_right_iff, List.forall₂_same]
    exact fun x _ => hfg x
  have hsites : ∀ {f g : ModuleSite → List Built}, (∀ s, List.Forall₂ RedeploysTo (f s) (g s)) →
      List.Forall₂ RedeploysTo (sites.flatMap f) (sites.flatMap g) := fun hfg =>
    List.rel_flatMap (R := Eq) (List.forall₂_same.mpr fun _ _ => rfl) fun _ s hs => hs ▸ hfg s
  have hproperties : List.Forall₂ RedeploysTo (c.context r d layout sites).propertyEntries
      (c.context r d' layout sites).propertyEntries :=
    hsites fun s => hmap s.moduleType.properties (redeploysTo_propertyEntry h)
  have hpinfos : List.Forall₂ RedeploysTo (c.context r d layout sites).pinfoEntries
      (c.context r d' layout sites).pinfoEntries :=
    hsites fun s => List.rel_append
      (hmap s.moduleType.publicPinfos (redeploysTo_pinfoEntry h false))
      (hmap s.moduleType.privatePinfos (redeploysTo_pinfoEntry h true))
  exact List.rel_append (List.rel_append (List.rel_append (List.rel_append
    (hsame eventEntries_congr) (hsame rfl)) (hsame rfl)) hproperties) hpinfos

/-- A component that can be built can be built in the other deployment. -/
theorem HasEntries.redeploy {found : List Entry} (hfound : c.HasEntries r d layout found) :
    ∃ found', c.HasEntries r d' layout found' ∧
      List.Forall₂ Entry.IsRedeployedAs found found' := by
  obtain ⟨sites, hsites, hentries⟩ := hfound
  have hrel : List.Forall₂ RedeploysTo (c.context r d layout sites).entries
      (c.context r d' layout sites).entries := redeploysTo_entries h
  rw [hentries] at hrel
  obtain ⟨found', hentries', hrel⟩ := exists_of_forall₂_redeploysTo hrel
  exact ⟨found', ⟨sites, hsites, hentries'⟩, hrel⟩

theorem IsBuildable.redeploy (hbuildable : c.IsBuildable r d layout) :
    c.IsBuildable r d' layout ∧ List.Forall₂ Entry.IsRedeployedAs (c.built r d layout)
      (c.built r d' layout) := by
  obtain ⟨found', hfound', hrel⟩ := hbuildable.hasEntries.redeploy h
  obtain rfl := hfound'.eq_built
  exact ⟨⟨_, hfound'⟩, hrel⟩

/-- What is bound is the same in both deployments. -/
theorem IsBuildable.filterMap_built_eq (hbuildable : c.IsBuildable r d layout) {kind : EntityKind}
    (hkind : kind.isLinked = true) : (c.built r d' layout).filterMap (Entry.of? kind) =
      (c.built r d layout).filterMap (Entry.of? kind) := by
  have hrel := (hbuildable.redeploy h).2
  generalize c.built r d layout = found, c.built r d' layout = found' at hrel
  induction hrel with
  | nil => rfl
  | cons hx _ ih => rw [List.filterMap_cons, List.filterMap_cons, hx.of?_eq hkind, ih]

end

end Declared.Component

end Ecoa
