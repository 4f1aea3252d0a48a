import Ecoa.Proofs.Binding.Order
import Ecoa.Proofs.Linking.Control
import Ecoa.Proofs.Linking.Redirection

/-!
# Linking again

The events, the requests and the data are linked by one linker each, with a table of its own. What a
linker finds does not depend on what linkers have changed, so different linkers do not get in each
other's way (`Linker.run_comm`), and one that has run finds nothing new when it runs again
(`Linker.isDone_run`). By induction over the linkers that run, nothing changes after the first run of
each.
-/

namespace Ecoa

/-! ## Repeating a change -/

namespace BindingTable

variable {ι : Type} [DecidableEq ι] {t : BindingTable ι} {s : Finset (Binding ι)}

theorem Represents.bind_eq_self (h : t.Represents s) {b : Binding ι} (hb : b ∈ s) :
    t.bind b = (t, false) :=
  Prod.ext (h.bind_of_mem hb) ((h.command (.bind b)).2.trans (decide_eq_false (not_not.mpr hb)))

/-- Binding what is bound changes nothing and counts nothing. -/
theorem Represents.bindAll_eq_self (h : t.Represents s) {bs : List (Binding ι)}
    (hbs : ∀ b ∈ bs, b ∈ s) : t.bindAll bs = (t, 0) := by
  unfold BindingTable.bindAll
  induction bs with
  | nil => rfl
  | cons b bs ih =>
    obtain ⟨hb, hrest⟩ := List.forall_mem_cons.mp hbs
    rw [List.foldl_cons, h.bind_eq_self hb]
    exact ih hrest

theorem Represents.bindAll_bindAll (h : t.Represents s) (bs : List (Binding ι)) :
    (t.bindAll bs).1.bindAll bs = ((t.bindAll bs).1, 0) :=
  (h.bindAll bs).1.bindAll_eq_self fun _ hb =>
    Finset.mem_union_right _ (List.mem_toFinset.mpr hb)

/-- What is bound from nothing is counted by the size of the table. -/
theorem bindAll_empty_snd (bs : List (Binding ι)) :
    ((empty : BindingTable ι).bindAll bs).2 = ((empty : BindingTable ι).bindAll bs).1.size := by
  obtain ⟨hrepresents, hcount⟩ := represents_empty.bindAll bs
  rw [hrepresents.size_eq, hcount, Finset.empty_union, Finset.sdiff_empty]

end BindingTable

theorem DataLinking.stamp_stamp (links : Links) (flags : OrderedMap String Bool)
    (keys : List String) :
    stamp links (stamp links flags keys) keys = stamp links flags keys := by
  have hself : ∀ {flags : OrderedMap String Bool} {keys : List String},
      (∀ k ∈ keys, flags.get? k = some (isControlled links k)) → stamp links flags keys = flags := by
    intro flags keys h
    unfold stamp
    induction keys with
    | nil => rfl
    | cons k keys ih =>
      obtain ⟨hk, hrest⟩ := List.forall_mem_cons.mp h
      rw [List.foldl_cons, OrderedMap.insert_of_get? hk]
      exact ih hrest
  exact hself fun k hk => by rw [get?_stamp, if_pos hk]

/-- An external that has taken its inputs keeps them. -/
theorem EventLinking.externalInputs_externalInputs (m : Model) (found : List Match) (i : Nat)
    (e : External) :
    externalInputs m found i { e with inputs := externalInputs m found i e } =
      externalInputs m found i e := by
  by_cases he : e.inputs.isEmpty = true
  · rw [externalInputs]
    dsimp only
    split
    · rw [externalInputs, if_pos he]
    · rfl
  · have hkeeps : externalInputs m found i e = e.inputs := by
      rw [externalInputs, if_neg he]
    rw [hkeeps]
    exact hkeeps

/-! ## Linkers -/

namespace Model

variable (m : Model) (events requests data : BindingTable EntityId) (externals : Store External)
  (dataWritten : Store DataWritten) (dataRead : Store DataRead)

/-- The events are linked alike whatever becomes of the requests and the data. -/
theorem linkEvents_frame :
    linkEvents { m with
      requests := requests, data := data, dataWritten := dataWritten, dataRead := dataRead } =
    ({ m.linkEvents.1 with
      requests := requests, data := data, dataWritten := dataWritten, dataRead := dataRead },
      m.linkEvents.2) := rfl

/-- The requests are linked alike whatever becomes of the events and the data. -/
theorem linkRequests_frame :
    linkRequests { m with
      events := events, externals := externals, data := data, dataWritten := dataWritten,
      dataRead := dataRead } =
    ({ m.linkRequests.1 with
      events := events, externals := externals, data := data, dataWritten := dataWritten,
      dataRead := dataRead }, m.linkRequests.2) := rfl

/-- The data is linked alike whatever becomes of the events and the requests. -/
theorem linkData_frame :
    linkData { m with events := events, externals := externals, requests := requests } =
    ({ m.linkData.1 with events := events, externals := externals, requests := requests },
      m.linkData.2) := rfl

end Model

/-! ## Each linker again -/

/-- Events are found alike when code outside has taken its inputs. -/
theorem EventLinking.allMatches_linkEvents (m : Model) :
    allMatches m.linkEvents.1 = allMatches m := by
  have hparties : ∀ kind, m.linkEvents.1.parties kind = m.parties kind := by
    intro kind
    rw [Model.linkEvents_fst]
    cases kind with
    | external =>
      simp only [Model.parties, Model.store, Store.numbered_mapWithIndex, List.map_map]
      rfl
    | _ => rfl
  have hkey : externalKey m.linkEvents.1 = externalKey m := by
    funext x
    rw [Model.linkEvents_fst]
    simp only [externalKey, Store.get?_mapWithIndex, Option.map_map]
    rfl
  have hdeployment : m.linkEvents.1.deployment = m.deployment := by rw [Model.linkEvents_fst]
  have hmatch : matchPair m.linkEvents.1 = matchPair m := by
    funext x y p
    simp only [matchPair, routeKeys, hkey, hdeployment]
  have hphase : phaseMatches m.linkEvents.1 = phaseMatches m := by
    funext phase
    simp only [phaseMatches, hparties, hmatch]
  rw [allMatches, hphase, allMatches]

/-- Data is found alike when keys are stamped. -/
theorem DataLinking.bindings_linkData (m : Model) : bindings m.linkData.1 = bindings m := by
  have hwriters : m.linkData.1.parties .dataWritten = m.parties .dataWritten := by
    rw [Model.linkData_fst]
    simp only [Model.parties, Model.store, Model.stampedWriters, Store.numbered_mapWithIndex,
      List.map_map]
    rfl
  have hreaders : m.linkData.1.parties .dataRead = m.parties .dataRead := by
    rw [Model.linkData_fst]
    simp only [Model.parties, Model.store, Model.stampedReaders, Store.numbered_mapWithIndex,
      List.map_map]
    rfl
  have hdeployment : m.linkData.1.deployment = m.deployment := by rw [Model.linkData_fst]
  simp only [bindings, pairKeys, hwriters, hreaders, hdeployment]

namespace Model

variable {m : Model} {s : Finset (Binding EntityId)}

theorem linkEvents_linkEvents (h : m.events.Represents s) :
    m.linkEvents.1.linkEvents = (m.linkEvents.1, 0) := by
  have hevents : m.linkEvents.1.events.bindAll
      ((EventLinking.allMatches m).flatMap (·.bindings)) = (m.linkEvents.1.events, 0) := by
    rw [linkEvents_fst]
    exact h.bindAll_bindAll _
  have hexternals : (m.linkEvents.1.externals.mapWithIndex fun i e =>
      { e with inputs := EventLinking.externalInputs m (EventLinking.allMatches m) i e }) =
      m.linkEvents.1.externals := by
    rw [linkEvents_fst]
    refine Store.mapWithIndex_mapWithIndex fun i e => ?_
    rw [EventLinking.externalInputs_externalInputs]
  have hinputs : EventLinking.externalInputs m.linkEvents.1 = EventLinking.externalInputs m := rfl
  rw [linkEvents, EventLinking.allMatches_linkEvents, hevents, hinputs, hexternals]

theorem linkRequests_linkRequests (h : m.requests.Represents s) :
    m.linkRequests.1.linkRequests = (m.linkRequests.1, 0) := by
  have hbindings : RequestLinking.bindings m.linkRequests.1 = RequestLinking.bindings m := rfl
  have hrequests : m.linkRequests.1.requests.bindAll (RequestLinking.bindings m) =
      (m.linkRequests.1.requests, 0) := by
    rw [linkRequests_fst]
    exact h.bindAll_bindAll _
  rw [linkRequests, hbindings, hrequests]

theorem linkData_linkData (h : m.data.Represents s) :
    m.linkData.1.linkData = (m.linkData.1, 0) := by
  have hdata : m.linkData.1.data.bindAll (DataLinking.bindings m) = (m.linkData.1.data, 0) := by
    rw [linkData_fst]
    exact h.bindAll_bindAll _
  have hwriters : m.linkData.1.stampedWriters = m.linkData.1.dataWritten := by
    rw [stampedWriters, DataLinking.bindings_linkData, linkData_fst]
    refine Store.mapWithIndex_mapWithIndex fun i w => ?_
    dsimp only
    rw [DataLinking.stamp_stamp]
  have hreaders : m.linkData.1.stampedReaders = m.linkData.1.dataRead := by
    rw [stampedReaders, DataLinking.bindings_linkData, linkData_fst]
    refine Store.mapWithIndex_mapWithIndex fun i r => ?_
    dsimp only
    rw [DataLinking.stamp_stamp]
  have hlinked : m.linkData.1.linkData =
      ({ m.linkData.1 with
        data := (m.linkData.1.data.bindAll (DataLinking.bindings m.linkData.1)).1
        dataWritten := m.linkData.1.stampedWriters
        dataRead := m.linkData.1.stampedReaders },
        (m.linkData.1.data.bindAll (DataLinking.bindings m.linkData.1)).2) := rfl
  rw [hlinked, DataLinking.bindings_linkData, hdata, hwriters, hreaders]

end Model

inductive Linker where
  | events
  | requests
  | data
  deriving DecidableEq

namespace Linker

open Model

def run : Linker → Model → Model × Nat
  | .events, m => m.linkEvents
  | .requests, m => m.linkRequests
  | .data, m => m.linkData

/-- The table into which the linker binds. -/
def table : Linker → Model → BindingTable EntityId
  | .events, m => m.events
  | .requests, m => m.requests
  | .data, m => m.data

/-- Running the linker binds nothing and changes nothing. -/
def IsDone (l : Linker) (m : Model) : Prop := l.run m = (m, 0)

variable {l l' : Linker}

/-- Different linkers can run in either order, and bind as many in each. -/
theorem run_comm (h : l ≠ l') (m : Model) :
    l'.run (l.run m).1 = ((l.run (l'.run m).1).1, (l'.run m).2) := by
  cases l <;> cases l'
  case events.events | requests.requests | data.data => exact absurd rfl h
  all_goals simp only [run]
  case events.requests =>
    rw [linkEvents_fst, linkRequests_frame, linkRequests_fst, linkEvents_frame, linkEvents_fst]
  case requests.events =>
    rw [linkRequests_fst, linkEvents_frame, linkEvents_fst, linkRequests_frame, linkRequests_fst]
  case events.data =>
    rw [linkEvents_fst, linkData_frame, linkData_fst, linkEvents_frame, linkEvents_fst]
  case data.events =>
    rw [linkData_fst, linkEvents_frame, linkEvents_fst, linkData_frame, linkData_fst]
  case requests.data =>
    rw [linkRequests_fst, linkData_frame, linkData_fst, linkRequests_frame, linkRequests_fst]
  case data.requests =>
    rw [linkData_fst, linkRequests_frame, linkRequests_fst, linkData_frame, linkData_fst]

/-- A linker binds what it finds. -/
theorem exists_bindAll (l : Linker) (m : Model) : ∃ found,
    l.table (l.run m).1 = ((l.table m).bindAll found).1 ∧
      (l.run m).2 = ((l.table m).bindAll found).2 := by
  cases l <;> exact ⟨_, rfl, rfl⟩

/-- A linker leaves the tables of the others. -/
theorem table_run (h : l ≠ l') (m : Model) : l.table (l'.run m).1 = l.table m := by
  cases l <;> cases l' <;> first | exact absurd rfl h | rfl

/-- A linker that has run is done. -/
theorem isDone_run {s : Finset (Binding EntityId)} {m : Model} (h : (l.table m).Represents s) :
    l.IsDone (l.run m).1 := by
  cases l <;> simp only [IsDone, run]
  case events => exact linkEvents_linkEvents h
  case requests => exact linkRequests_linkRequests h
  case data => exact linkData_linkData h

/-- A linker that is done stays so, whichever runs. -/
theorem IsDone.run {m : Model} (h : l.IsDone m) (l' : Linker) : l.IsDone (l'.run m).1 := by
  unfold IsDone at h ⊢
  by_cases hl : l' = l
  · subst hl
    rw [h, h]
  · rw [run_comm hl, h]

end Linker

namespace Model

open Linker

/-- Run linkers one after the other, and collect what they count. -/
def linkWith (m : Model) : List Linker → Model × List Nat
  | [] => (m, [])
  | l :: ls =>
    let (m, n) := l.run m
    let (m, ns) := linkWith m ls
    (m, n :: ns)

theorem linkWith_cons (m : Model) (l : Linker) (ls : List Linker) :
    m.linkWith (l :: ls) = (((l.run m).1.linkWith ls).1, (l.run m).2 :: ((l.run m).1.linkWith ls).2) :=
  rfl

variable {m : Model} {l : Linker} {ls : List Linker}

theorem table_linkWith (hl : l ∉ ls) : l.table (m.linkWith ls).1 = l.table m := by
  induction ls generalizing m with
  | nil => rfl
  | cons l' ls ih =>
    obtain ⟨hne, hrest⟩ := not_or.mp (mt List.mem_cons.mpr hl)
    rw [linkWith_cons, ih hrest, table_run hne]

theorem isDone_linkWith (h : l.IsDone m) : l.IsDone (m.linkWith ls).1 := by
  induction ls generalizing m with
  | nil => exact h
  | cons l' ls ih => exact ih (h.run l')

/-- When all linkers are done, nothing changes however often they run. -/
theorem linkWith_eq_self (h : ∀ l : Linker, l.IsDone m) (ls : List Linker) :
    m.linkWith ls = (m, ls.map fun _ => 0) := by
  induction ls with
  | nil => rfl
  | cons l ls ih => rw [linkWith_cons, h l, ih, List.map_cons]

/-- Different linkers whose tables are empty count what these have in the end, and are done. -/
theorem linkWith_of_empty (hnodup : ls.Nodup) (hempty : ∀ l ∈ ls, l.table m = .empty) :
    (m.linkWith ls).2 = ls.map (fun l => (l.table (m.linkWith ls).1).size) ∧
      ∀ l ∈ ls, l.IsDone (m.linkWith ls).1 := by
  induction ls generalizing m with
  | nil => exact ⟨rfl, nofun⟩
  | cons l ls ih =>
    obtain ⟨hl, hrest⟩ := List.nodup_cons.mp hnodup
    rw [List.forall_mem_cons] at hempty ⊢
    have hempty' : ∀ l' ∈ ls, l'.table (l.run m).1 = .empty := fun l' hl' => by
      rw [table_run (ne_of_mem_of_not_mem hl' hl), hempty.2 l' hl']
    obtain ⟨hcounts, hdone⟩ := ih hrest hempty'
    have hrepresents : (l.table m).Represents ∅ := hempty.1 ▸ BindingTable.represents_empty
    have hcount : (l.run m).2 = (l.table (l.run m).1).size := by
      obtain ⟨found, htable, hcount⟩ := l.exists_bindAll m
      rw [htable, hcount, hempty.1, BindingTable.bindAll_empty_snd]
    rw [linkWith_cons, List.map_cons, table_linkWith hl, hcount, hcounts]
    exact ⟨rfl, isDone_linkWith (isDone_run hrepresents), hdone⟩

/-- Types have been sorted and components been added, also some that fail on the way. -/
inductive IsParsed : Model → Prop where
  | empty (registry : TypeRegistry) (deployment : Deployment) :
    IsParsed (Model.empty registry deployment)
  | sortTypes {m m' : Model} (h : IsParsed m) (hsorted : m.sortTypes = .ok m') : IsParsed m'
  | addComponent {m : Model} (h : IsParsed m) (layout : Layout) (c : Declared.Component) :
    IsParsed (m.addComponent layout c).1

theorem extends_addComponent (m : Model) (layout : Layout) (c : Declared.Component) :
    m.Extends (m.addComponent layout c).1 := by
  unfold addComponent
  split
  · exact .refl m
  · next sites _ =>
    dsimp only
    split <;> exact (m.extends_addModules c sites).trans (extends_insertAll _ _)

theorem IsParsed.table_eq_empty (h : m.IsParsed) (l : Linker) : l.table m = .empty := by
  have htable : ∀ {m m' : Model}, m.Extends m' → l.table m' = l.table m := by
    intro m m' h
    cases l with
    | events => exact h.events
    | requests => exact h.requests
    | data => exact h.data
  induction h with
  | empty => cases l <;> rfl
  | sortTypes _ hsorted ih => rw [htable (sortTypes_ok hsorted).1, ih]
  | addComponent _ layout c ih => rw [htable (extends_addComponent _ layout c), ih]

/-- When each linker has run once on a model made of components, in whatever order, each has counted
the bindings that its table then has. Whatever linkers run after that bind nothing and change
nothing: neither the tables nor the inputs of code outside nor the stamped keys. -/
theorem IsParsed.linkWith_again (h : m.IsParsed) {first : List Linker}
    (hfirst : first.Perm [.events, .requests, .data]) (again : List Linker) :
    let linked := (m.linkWith first).1
    (m.linkWith first).2 = first.map (fun l => (l.table linked).size) ∧
      linked.linkWith again = (linked, again.map fun _ => 0) := by
  intro linked
  have hnodup : first.Nodup := hfirst.nodup_iff.mpr (by decide)
  have hall : ∀ l : Linker, l ∈ first := by
    intro l
    rw [hfirst.mem_iff]
    cases l <;> decide
  obtain ⟨hcounts, hdone⟩ := linkWith_of_empty hnodup fun l _ => h.table_eq_empty l
  exact ⟨hcounts, linkWith_eq_self (fun l => hdone l (hall l)) again⟩

open Declared in
/-- A writer and a reader that a wire joins. -/
def measuringModel : Model :=
  let gauge := ((Model.empty .empty ⟨∅, [("A:gauge", "a"), ("B:dial", "b")],
    [(⟨"b", "r"⟩, ⟨"a", "s"⟩)]⟩).addComponent BuildConfig.default.layout measuringComponent).1
  (gauge.addComponent BuildConfig.default.layout showingComponent).1

theorem IsParsed.linkWith_again_measuringModel : ∃ linked : Model, measuringModel.IsParsed ∧
    [Linker.data, .events, .requests].Perm [.events, .requests, .data] ∧
      measuringModel.linkWith [.data, .events, .requests] = (linked, [1, 0, 0]) ∧
      linked.linkWith [.data, .data, .events] = (linked, [0, 0, 0]) := by
  have hparsed : measuringModel.IsParsed := .addComponent (.addComponent (.empty _ _) _ _) _ _
  have hperm : [Linker.data, .events, .requests].Perm [.events, .requests, .data] := by decide
  obtain ⟨hcounts, hagain⟩ := hparsed.linkWith_again hperm [.data, .data, .events]
  have hsizes : [Linker.data, .events, .requests].map (fun l => (l.table
      (measuringModel.linkWith [.data, .events, .requests]).1).size) = [1, 0, 0] := by
    decide +kernel
  exact ⟨_, hparsed, hperm, Prod.ext rfl (hcounts.trans hsizes), hagain⟩

end Model

end Ecoa
