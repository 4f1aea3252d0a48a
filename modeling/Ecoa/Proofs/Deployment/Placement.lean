import Ecoa.Deployment
import Ecoa.Proofs.Except
import Mathlib.Data.List.Induction

/-!
# Where modules are deployed

A deployment is built when every component instance is declared that a deployed module or the end of
a wire names; otherwise the first one that is not is reported, those of deployed modules before
those of wires. Under the key of a module instance it lists the component instances that are first
deployed under that key, in this order.
-/

namespace Ecoa

/-! ## Names that are listed once -/

/-- The names of the elements with `q`, each once, in the order of the first that have them. -/
structure ListsFirsts {α : Type} (xs : List α) (q : α → Prop) [DecidablePred q] (f : α → String)
    (names : List String) : Prop where
  mem_iff : ∀ c, c ∈ names ↔ ∃ x ∈ xs, q x ∧ f x = c
  ordered : names.Pairwise fun c c' =>
    xs.findIdx (fun x => q x ∧ f x = c) < xs.findIdx fun x => q x ∧ f x = c'

namespace ListsFirsts

variable {α β : Type} {xs : List α} {ys : List β} {q : α → Prop} [DecidablePred q] {q' : β → Prop}
  [DecidablePred q'] {f : α → String} {f' : β → String} {names : List String}

theorem nil : ListsFirsts [] q f [] := ⟨by simp, .nil⟩

theorem nodup (h : ListsFirsts xs q f names) : names.Nodup := by
  refine List.Pairwise.imp (fun hlt heq => ?_) h.ordered
  rw [heq] at hlt
  exact Nat.lt_irrefl _ hlt

/-- What comes after the elements does not change where a name first stands. -/
theorem findIdx_concat (h : ListsFirsts xs q f names) {c : String} (hc : c ∈ names) (x : α) :
    (xs ++ [x]).findIdx (fun x => q x ∧ f x = c) = xs.findIdx (fun x => q x ∧ f x = c) ∧
      xs.findIdx (fun x => q x ∧ f x = c) < xs.length := by
  obtain ⟨y, hy, hq⟩ := (h.mem_iff c).mp hc
  have hlt : xs.findIdx (fun x => q x ∧ f x = c) < xs.length :=
    List.findIdx_lt_length_of_exists ⟨y, hy, decide_eq_true hq⟩
  rw [List.findIdx_append, if_pos hlt]
  exact ⟨rfl, hlt⟩

/-- One more element adds its name, if it has `q` and the name is new. -/
theorem concat (h : ListsFirsts xs q f names) (x : α) : ListsFirsts (xs ++ [x]) q f
    (if q x then Deployment.addName names (f x) else names) := by
  have hkept : names.Pairwise fun c c' => (xs ++ [x]).findIdx (fun x => q x ∧ f x = c) <
      (xs ++ [x]).findIdx fun x => q x ∧ f x = c' := by
    refine h.ordered.imp_of_mem fun hc hc' hlt => ?_
    rwa [(h.findIdx_concat hc x).1, (h.findIdx_concat hc' x).1]
  have hmem : ∀ c, (∃ y ∈ xs ++ [x], q y ∧ f y = c) ↔ c ∈ names ∨ (q x ∧ f x = c) := by
    intro c
    simp only [List.mem_append, List.mem_singleton, or_and_right, exists_or, exists_eq_left,
      h.mem_iff]
  unfold Deployment.addName
  by_cases hq : q x
  · by_cases hx : f x ∈ names
    · rw [if_pos hq, if_pos hx]
      refine ⟨fun c => ?_, hkept⟩
      rw [hmem, or_iff_left_of_imp]
      rintro ⟨-, rfl⟩
      exact hx
    · rw [if_pos hq, if_neg hx]
      refine ⟨fun c => ?_, List.pairwise_append.mpr ⟨hkept, List.pairwise_singleton _ _, ?_⟩⟩
      · rw [hmem, List.mem_append, List.mem_singleton, and_iff_right hq, eq_comm]
      · intro c hc c' hc'
        have hnew : xs.findIdx (fun y => q y ∧ f y = f x) = xs.length := by
          rw [List.findIdx_eq_length]
          exact fun y hy => decide_eq_false fun hqy => hx ((h.mem_iff _).mpr ⟨y, hy, hqy⟩)
        rw [List.mem_singleton.mp hc', (h.findIdx_concat hc x).1, List.findIdx_append, hnew,
          if_neg (Nat.lt_irrefl _)]
        exact Nat.lt_add_left _ (h.findIdx_concat hc x).2
  · rw [if_neg hq]
    refine ⟨fun c => ?_, hkept⟩
    rw [hmem, or_iff_left fun hx => hq hx.1]

/-- Lists that correspond element by element have the same names. -/
theorem congr (h : ListsFirsts xs q f names)
    (hrel : List.Forall₂ (fun x y => (q x ↔ q' y) ∧ f x = f' y) xs ys) :
    ListsFirsts ys q' f' names := by
  have hmem : ∀ c, (∃ x ∈ xs, q x ∧ f x = c) ↔ ∃ y ∈ ys, q' y ∧ f' y = c := by
    intro c
    clear h
    induction hrel with
    | nil => simp
    | cons hxy _ ih => simp only [List.mem_cons, or_and_right, exists_or, exists_eq_left, ih, hxy]
  have hplace : ∀ c, xs.findIdx (fun x => q x ∧ f x = c) = ys.findIdx fun y => q' y ∧ f' y = c := by
    intro c
    clear h hmem
    induction hrel with
    | nil => rfl
    | cons hxy _ ih => simp only [List.findIdx_cons, ih, hxy.1, hxy.2]
  exact ⟨fun c => (h.mem_iff c).trans (hmem c), by simpa only [hplace] using h.ordered⟩

end ListsFirsts

namespace Deployment

/-- Under a key those are listed that are placed there. -/
theorem listsFirsts_componentNames (d : Deployment) (implementation moduleInstance : String) :
    ListsFirsts d.placements (·.1 = instanceKey implementation moduleInstance) Prod.snd
      (d.componentNames implementation moduleInstance) := by
  unfold componentNames names
  generalize instanceKey implementation moduleInstance = key
  induction d.placements using List.reverseRecOn with
  | nil => exact .nil
  | append_singleton placements p ih =>
    rw [List.foldl_append, List.foldl_cons, List.foldl_nil, OrderedMap.alter,
      OrderedMap.get?_insert]
    have hnext := ih.concat p
    by_cases hkey : p.1 = key
    · rw [if_pos hkey] at hnext
      rw [if_pos hkey.symm, hkey]
      exact hnext
    · rw [if_neg hkey] at hnext
      rwa [if_neg (Ne.symm hkey)]

theorem mem_componentNames {d : Deployment} {implementation moduleInstance c : String} :
    c ∈ d.componentNames implementation moduleInstance ↔
      (instanceKey implementation moduleInstance, c) ∈ d.placements := by
  rw [(d.listsFirsts_componentNames implementation moduleInstance).mem_iff]
  constructor
  · rintro ⟨p, hp, hkey, rfl⟩
    rwa [← hkey]
  · intro h
    exact ⟨_, h, rfl, rfl⟩

end Deployment

/-! ## What is declared -/

namespace Declared

def Assembly.HasComponent (a : Assembly) (name : String) : Prop := ∃ c ∈ a.components, c.name = name

instance (a : Assembly) : DecidablePred a.HasComponent :=
  fun name => inferInstanceAs (Decidable (∃ c ∈ a.components, c.name = name))

/-- The implementation of a component instance; of several declarations the last one counts. -/
def Assembly.implementation? (a : Assembly) (name : String) : Option String :=
  ((a.components.filter (·.name = name)).getLast?).map (·.implementation)

/-- A deployed module stands under the key of a module instance. -/
def Assembly.Places (a : Assembly) (implementation moduleInstance : String)
    (m : DeployedModule) : Prop :=
  ∃ i, a.implementation? m.component = some i ∧
    instanceKey i m.moduleInstance = instanceKey implementation moduleInstance

instance (a : Assembly) (implementation moduleInstance : String) :
    DecidablePred (a.Places implementation moduleInstance) :=
  fun m => decidable_of_iff ((a.implementation? m.component).map (instanceKey · m.moduleInstance) =
    some (instanceKey implementation moduleInstance)) Option.map_eq_some_iff

/-- The deployed modules of all protection domains. -/
def Deployment.modules (d : Deployment) : List DeployedModule :=
  d.protectionDomains.flatMap (·.deployedModules)

/-- The component instances that deployed modules name, each with its place for messages. -/
def Deployment.mentions (d : Deployment) : List (String × String) :=
  d.protectionDomains.flatMap fun domain => domain.deployedModules.map fun m =>
    (m.component, "protection domain " ++ domain.name)

/-- The component instances at the ends of a wire, each with its place for messages. -/
def Wire.mentions (w : Wire) (number : Nat) : List (String × String) :=
  [w.source, w.target].map fun s =>
    (s.component, "wire #" ++ number.repr ++ " (" ++ s.service ++ ")")

def Assembly.mentions (a : Assembly) : List (String × String) :=
  a.wires.zipIdx.flatMap fun w => w.1.mentions w.2

/-- The first mentioned component instance that is not declared. -/
def Assembly.firstUnknown? (a : Assembly) (mentions : List (String × String)) : Option ModelError :=
  (mentions.find? fun x => ¬ a.HasComponent x.1).map fun x => .unknownComponentInstance x.1 x.2

variable {a : Assembly}

theorem Assembly.firstUnknown?_append (xs ys : List (String × String)) :
    a.firstUnknown? (xs ++ ys) = (a.firstUnknown? xs).or (a.firstUnknown? ys) := by
  rw [firstUnknown?, List.find?_append, Option.map_or]
  rfl

theorem Assembly.firstUnknown?_flatMap {α : Type} (xs : List α) (f : α → List (String × String)) :
    a.firstUnknown? (xs.flatMap f) = xs.findSome? fun x => a.firstUnknown? (f x) := by
  rw [firstUnknown?, List.find?_flatMap, List.map_findSome?]
  rfl

end Declared

namespace Deployment

open Declared

variable {deployment : Declared.Deployment} {a : Assembly} {d : Deployment} {name : String}

/-- The component instances of an assembly by their names. -/
abbrev instancesOf (a : Assembly) : OrderedMap String ComponentInstance :=
  .ofList (a.components.map fun c => (c.name, c))

theorem get?_instancesOf (a : Assembly) (name : String) :
    (instancesOf a).get? name = (a.components.filter (·.name = name)).getLast? := by
  rw [OrderedMap.get?_ofList, List.getLast?_filter, ← List.map_reverse, List.find?_map,
    Option.map_map]
  exact Option.map_id'

theorem get?_instancesOf_eq_none_iff :
    (instancesOf a).get? name = none ↔ ¬ a.HasComponent name := by
  simp [get?_instancesOf, Assembly.HasComponent]

theorem contains_instancesOf : (instancesOf a).contains name = true ↔ a.HasComponent name := by
  rw [OrderedMap.contains_eq_true, ← not_iff_not, ← get?_instancesOf_eq_none_iff,
    OrderedMap.get?_eq_none_iff]

theorem errorOf_place (domain : String) (m : DeployedModule) :
    errorOf (place (instancesOf a) domain m) =
      a.firstUnknown? [(m.component, "protection domain " ++ domain)] := by
  unfold place Assembly.firstUnknown?
  split
  · next c hc =>
    have hknown : a.HasComponent m.component := by
      by_contra hunknown
      exact nomatch hc.symm.trans (get?_instancesOf_eq_none_iff.mpr hunknown)
    simp [hknown, errorOf]
  · next hnone =>
    simp [get?_instancesOf_eq_none_iff.mp hnone, errorOf]

theorem connect_eq (components : OrderedMap String ComponentInstance) (w : Wire) (number : Nat) :
    connect components w number =
      if components.contains w.source.component then
        if components.contains w.target.component then .ok (w.source, w.target)
        else .error (.unknownComponentInstance w.target.component
          ("wire #" ++ number.repr ++ " (" ++ w.target.service ++ ")"))
      else .error (.unknownComponentInstance w.source.component
        ("wire #" ++ number.repr ++ " (" ++ w.source.service ++ ")")) := by
  simp only [connect, List.forIn_cons, List.forIn_nil]
  cases components.contains w.source.component
  · rfl
  · cases components.contains w.target.component <;> rfl

theorem connect_ok_iff {components : OrderedMap String ComponentInstance} {w : Wire} {number : Nat}
    {y : ComponentService × ComponentService} : connect components w number = .ok y ↔
      components.contains w.source.component = true ∧
        components.contains w.target.component = true ∧ y = (w.source, w.target) := by
  rw [connect_eq]
  split
  · next hsource =>
    split
    · next htarget => simp [hsource, htarget, eq_comm]
    · next htarget => simp [htarget]
  · next hsource => simp [hsource]

theorem errorOf_connect (w : Wire) (number : Nat) :
    errorOf (connect (instancesOf a) w number) = a.firstUnknown? (w.mentions number) := by
  rw [connect_eq, Assembly.firstUnknown?, Wire.mentions]
  by_cases hsource : a.HasComponent w.source.component
  · rw [if_pos (contains_instancesOf.mpr hsource)]
    by_cases htarget : a.HasComponent w.target.component
    · rw [if_pos (contains_instancesOf.mpr htarget)]
      simp [hsource, htarget, errorOf]
    · rw [if_neg (mt contains_instancesOf.mp htarget)]
      simp [hsource, htarget, errorOf]
  · rw [if_neg (mt contains_instancesOf.mp hsource)]
    simp [hsource, errorOf]

/-- A deployment fails with the first component instance that is mentioned and not declared. -/
theorem errorOf_build (deployment : Declared.Deployment) (a : Assembly) :
    errorOf (build deployment a) = a.firstUnknown? (deployment.mentions ++ a.mentions) := by
  have hplaced : deployment.mentions = (deployment.protectionDomains.flatMap fun domain =>
      domain.deployedModules.map (domain.name, ·)).flatMap fun m =>
        [(m.2.component, "protection domain " ++ m.1)] := by
    simp only [Deployment.mentions, List.flatMap_assoc, List.map_eq_flatMap]
    rfl
  rw [a.firstUnknown?_append, hplaced, a.firstUnknown?_flatMap, Assembly.mentions,
    a.firstUnknown?_flatMap]
  simp only [← errorOf_place, ← errorOf_connect, ← errorOf_mapM]
  refine errorOf_bind fun placements _ => ?_
  refine (errorOf_bind fun wires _ => ?_).trans Option.or_none
  rfl

/-! ## What is built -/

theorem place_ok_iff {domain : String} {m : DeployedModule} {p : String × String} :
    place (instancesOf a) domain m = .ok p ↔
      ∃ i, a.implementation? m.component = some i ∧
        p = (instanceKey i m.moduleInstance, m.component) := by
  unfold place Assembly.implementation?
  rw [get?_instancesOf]
  cases (a.components.filter (·.name = m.component)).getLast? with
  | none => simp
  | some c => simp [eq_comm]

/-- A deployment has its placements from its modules, one by one. -/
theorem placements_of_build (h : build deployment a = .ok d)
    (implementation moduleInstance : String) :
    List.Forall₂ (fun p m => (p.1 = instanceKey implementation moduleInstance ↔
      a.Places implementation moduleInstance m) ∧ p.2 = m.component) d.placements
        deployment.modules := by
  obtain ⟨placements, hplacements, h⟩ := bind_ok_iff.mp h
  obtain ⟨wires, -, ⟨⟩⟩ := bind_ok_iff.mp h
  have hmodules : deployment.modules = (deployment.protectionDomains.flatMap fun domain =>
      domain.deployedModules.map (domain.name, ·)).map Prod.snd := by
    simp only [Deployment.modules, List.map_flatMap, List.map_map, Function.comp_def, List.map_id']
  rw [hmodules, List.forall₂_map_right_iff]
  refine (mapM_ok_iff.mp hplacements).flip.imp fun p m hp => ?_
  obtain ⟨i, hi, rfl⟩ := place_ok_iff.mp hp
  refine ⟨⟨fun hkey => ⟨i, hi, hkey⟩, ?_⟩, rfl⟩
  rintro ⟨j, hj, hkey⟩
  cases hi.symm.trans hj
  exact hkey

theorem implementationOf?_of_build (h : build deployment a = .ok d) (c : String) :
    d.implementationOf? c = a.implementation? c := by
  obtain ⟨placements, -, h⟩ := bind_ok_iff.mp h
  obtain ⟨wires, -, ⟨⟩⟩ := bind_ok_iff.mp h
  exact congrArg (Option.map _) (get?_instancesOf a c)

theorem exists_build_iff : (∃ d, build deployment a = .ok d) ↔
    (∀ m ∈ deployment.modules, a.HasComponent m.component) ∧
      ∀ w ∈ a.wires, a.HasComponent w.source.component ∧ a.HasComponent w.target.component := by
  have hmodules : (∀ x ∈ deployment.mentions, a.HasComponent x.1) ↔
      ∀ m ∈ deployment.modules, a.HasComponent m.component := by
    simp only [Deployment.mentions, Deployment.modules, List.forall_mem_flatMap,
      List.forall_mem_map]
  have hwires : (∀ x ∈ a.mentions, a.HasComponent x.1) ↔
      ∀ w ∈ a.wires, a.HasComponent w.source.component ∧ a.HasComponent w.target.component := by
    have hends : ∀ (w : Wire) (number : Nat), (∀ x ∈ w.mentions number, a.HasComponent x.1) ↔
        a.HasComponent w.source.component ∧ a.HasComponent w.target.component := by
      simp [Wire.mentions]
    simp only [Assembly.mentions, List.forall_mem_flatMap, hends]
    conv_rhs => rw [← List.zipIdx_map_fst 0 a.wires, List.forall_mem_map]
  rw [← errorOf_eq_none_iff, errorOf_build, Assembly.firstUnknown?, Option.map_eq_none_iff,
    List.find?_eq_none, ← hmodules, ← hwires, ← List.forall_mem_append]
  simp only [decide_eq_true_eq, not_not]

theorem build_error_iff {e : ModelError} : build deployment a = .error e ↔
    ∃ before x after, deployment.mentions ++ a.mentions = before ++ x :: after ∧
      (∀ y ∈ before, a.HasComponent y.1) ∧ ¬ a.HasComponent x.1 ∧
        e = .unknownComponentInstance x.1 x.2 := by
  rw [← errorOf_eq_some_iff, errorOf_build, Assembly.firstUnknown?, Option.map_eq_some_iff]
  simp only [List.find?_eq_some_iff_append, decide_eq_true_eq, Bool.not_eq_true',
    decide_eq_false_iff_not, not_not]
  constructor
  · rintro ⟨x, ⟨hx, before, after, hsplit, hbefore⟩, rfl⟩
    exact ⟨before, x, after, hsplit, hbefore, hx, rfl⟩
  · rintro ⟨before, x, after, hsplit, hbefore, hx, rfl⟩
    exact ⟨x, ⟨hx, before, after, hsplit, hbefore⟩, rfl⟩

/-- A deployment is built when every component instance is declared that a deployed module or a wire
names, and otherwise the first that is not is reported with its place. What is built lists under the
key of each module instance the component instances of which some deployed module has that key, each
once and in the order of the first such module. -/
theorem build_componentNames (deployment : Declared.Deployment) (a : Assembly) :
    ((∃ d, build deployment a = .ok d) ↔
      (∀ m ∈ deployment.modules, a.HasComponent m.component) ∧
        ∀ w ∈ a.wires, a.HasComponent w.source.component ∧ a.HasComponent w.target.component) ∧
    (∀ e, build deployment a = .error e ↔
      ∃ before x after, deployment.mentions ++ a.mentions = before ++ x :: after ∧
        (∀ y ∈ before, a.HasComponent y.1) ∧ ¬ a.HasComponent x.1 ∧
          e = .unknownComponentInstance x.1 x.2) ∧
    ∀ d, build deployment a = .ok d → (∀ c, d.implementationOf? c = a.implementation? c) ∧
      ∀ implementation moduleInstance,
        (d.componentNames implementation moduleInstance).Nodup ∧
        (∀ c, c ∈ d.componentNames implementation moduleInstance ↔
          ∃ m ∈ deployment.modules, m.component = c ∧ ∃ i, a.implementation? c = some i ∧
            i ++ ":" ++ m.moduleInstance = implementation ++ ":" ++ moduleInstance) ∧
        (d.componentNames implementation moduleInstance).Pairwise fun c c' =>
          deployment.modules.findIdx
              (fun m => a.Places implementation moduleInstance m ∧ m.component = c) <
            deployment.modules.findIdx
              (fun m => a.Places implementation moduleInstance m ∧ m.component = c') := by
  refine ⟨exists_build_iff, fun e => build_error_iff, fun d h => ⟨implementationOf?_of_build h, ?_⟩⟩
  intro implementation moduleInstance
  have hlists := (d.listsFirsts_componentNames implementation moduleInstance).congr
    (placements_of_build h implementation moduleInstance)
  refine ⟨hlists.nodup, fun c => (hlists.mem_iff c).trans ?_, hlists.ordered⟩
  refine exists_congr fun m => and_congr_right fun _ => ?_
  constructor
  · rintro ⟨hplaces, rfl⟩
    exact ⟨rfl, hplaces⟩
  · rintro ⟨rfl, hplaces⟩
    exact ⟨hplaces, rfl⟩

/-- Two domains deploy the same module instance, and a component instance is declared twice. -/
theorem build_componentNames_of_two_domains :
    let deployment : Declared.Deployment :=
      ⟨[⟨"left", [⟨"b", "m"⟩, ⟨"a", "n"⟩]⟩, ⟨"right", [⟨"a", "m"⟩, ⟨"b", "m"⟩]⟩]⟩
    let assembly : Assembly :=
      ⟨[⟨"a", "C", ∅⟩, ⟨"b", "D", ∅⟩, ⟨"b", "C", ∅⟩], [⟨⟨"a", "s"⟩, ⟨"b", "t"⟩⟩]⟩
    ∃ d, build deployment assembly = .ok d ∧ d.implementationOf? "b" = some "C" ∧
      (d.componentNames "C" "m").Nodup ∧ "b" ∈ d.componentNames "C" "m" ∧
        "a" ∈ d.componentNames "C" "m" ∧ "b" ∉ d.componentNames "D" "m" := by
  intro deployment assembly
  obtain ⟨hsuccess, -, hbuilt⟩ := build_componentNames deployment assembly
  obtain ⟨d, hd⟩ := hsuccess.mpr ⟨by decide, by decide⟩
  obtain ⟨himplementation, hnames⟩ := hbuilt d hd
  obtain ⟨hnodup, hmem, -⟩ := hnames "C" "m"
  exact ⟨d, hd, (himplementation "b").trans (by decide), hnodup, (hmem "b").mpr (by decide),
    (hmem "a").mpr (by decide), mt ((hnames "D" "m").2.1 "b").mp (by decide)⟩

end Deployment

end Ecoa
