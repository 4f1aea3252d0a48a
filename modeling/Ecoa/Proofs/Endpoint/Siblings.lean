import Ecoa.Proofs.Endpoint.Order

/-!
# Writers of the same data

The writers of a data link write the same data. `Collects` says what the groups of writers tell of
the links: the numbers of a writer are those of the links that list it. Two writers have a number in
common when a link lists both, whichever of them is asked for the other.
-/

namespace Ecoa

namespace WriterGroups

variable {groups : WriterGroups} {listings : List (Endpoint × Nat)} {writer : Endpoint} {m n : Nat}
  {numbers : List Nat} {a b : EndpointId} {js : List Join}

/-- A link of this number lists the writer. -/
def IsListed (listings : List (Endpoint × Nat)) (a : EndpointId) (n : Nat) : Prop :=
  ∃ x ∈ listings, x.1.id = a ∧ x.2 = n

/-- Each writer that is listed has one group, the numbers of the links that list it. -/
structure Collects (groups : WriterGroups) (listings : List (Endpoint × Nat)) : Prop where
  own : KeepsFirsts (listings.map Prod.fst) (groups.map Prod.fst)
  numbers : ∀ e ∈ groups, ∀ n, n ∈ e.2 ↔ IsListed listings e.1.id n

theorem mem_addNumber : m ∈ addNumber numbers n ↔ m ∈ numbers ∨ m = n := by
  unfold addNumber
  split
  · next hn =>
    refine ⟨.inl, fun h => h.elim id ?_⟩
    rintro rfl
    exact hn
  · rw [List.mem_append, List.mem_singleton]

theorem isListed_concat : IsListed (listings ++ [(writer, m)]) a n ↔
    IsListed listings a n ∨ (writer.id = a ∧ m = n) := by
  simp only [IsListed, List.mem_append, List.mem_singleton, or_and_right, exists_or,
    exists_eq_left]

/-- A writer that is listed has a group. -/
theorem Collects.hasEndpoint (h : groups.Collects listings) (ha : IsListed listings a n) :
    ∃ e ∈ groups, e.1.id = a := by
  obtain ⟨x, hx, hid, -⟩ := ha
  obtain ⟨_, hmem, hid'⟩ := h.own.hasEndpoint_iff.mpr ⟨x.1, List.mem_map_of_mem hx, hid⟩
  obtain ⟨e, he, rfl⟩ := List.mem_map.mp hmem
  exact ⟨e, he, hid'⟩

/-- One more link lists a writer. -/
theorem Collects.add (h : groups.Collects listings) (writer : Endpoint) (n : Nat) :
    (groups.add writer n).Collects (listings ++ [(writer, n)]) := by
  have hown : (groups.add writer n).map Prod.fst =
      Links.addEndpoint (groups.map Prod.fst) writer :=
    Links.map_fst_alter groups writer (addNumber · n) [n]
  refine ⟨?_, fun e he m => ?_⟩
  · rw [hown, List.map_append]
    exact h.own.concat writer
  rw [isListed_concat]
  unfold WriterGroups.add at he
  split at he
  · obtain ⟨x, hx, rfl⟩ := List.mem_map.mp he
    split
    · next hid => rw [mem_addNumber, h.numbers x hx, hid, and_iff_right rfl, eq_comm (a := n)]
    · next hid => rw [h.numbers x hx, or_iff_left fun hw => hid hw.1.symm]
  · next hnew =>
    have habsent : ∀ e ∈ groups, e.1.id ≠ writer.id := by simpa using hnew
    rcases List.mem_append.mp he with he | he
    · rw [h.numbers e he, or_iff_left fun hw => habsent e he hw.1.symm]
    · rw [List.mem_singleton.mp he, List.mem_singleton, or_iff_right, and_iff_right rfl, eq_comm]
      intro hlisted
      obtain ⟨e, he, hid⟩ := h.hasEndpoint hlisted
      exact habsent e he hid

/-- The writers on the left of the joins that join something, with the numbers of these. -/
def listingsOf (js : List Join) : List (Endpoint × Nat) :=
  (js.zipIdx.filter (·.1.isProper)).flatMap fun j => j.1.left.map (·, j.2)

theorem collects_ofJoins (js : List Join) : (ofJoins js).Collects (listingsOf js) := by
  have hfold : ofJoins js = (listingsOf js).foldl (fun groups x => add groups x.1 x.2) [] := by
    simp only [ofJoins, listingsOf, List.foldl_flatMap, List.foldl_map]
  rw [hfold]
  induction listingsOf js using List.reverseRecOn with
  | nil => exact ⟨.nil, nofun⟩
  | append_singleton listings x ih =>
    rw [List.foldl_append]
    exact ih.add x.1 x.2

theorem map_fst_listingsOf :
    (listingsOf js).map Prod.fst = (js.filter Join.isProper).flatMap Join.left := by
  have hproper : js.filter Join.isProper = (js.zipIdx.filter (·.1.isProper)).map Prod.fst := by
    conv_lhs => rw [← List.zipIdx_map_fst 0 js, List.filter_map]
    rfl
  rw [hproper, List.flatMap_map, listingsOf, List.map_flatMap]
  simp only [List.map_map, Function.comp_def, List.map_id']

theorem isListed_listingsOf : IsListed (listingsOf js) a n ↔
    ∃ j, js[n]? = some j ∧ j.isProper = true ∧ HasEndpoint j.left a := by
  simp only [IsListed, listingsOf, HasEndpoint, List.mem_flatMap, List.mem_filter, List.mem_map,
    List.mem_zipIdx_iff_getElem?]
  constructor
  · rintro ⟨_, ⟨⟨j, m⟩, ⟨hj, hproper⟩, e, he, rfl⟩, hid, rfl⟩
    exact ⟨j, hj, hproper, e, he, hid⟩
  · rintro ⟨j, hj, hproper, e, he, hid⟩
    exact ⟨(e, n), ⟨(j, n), ⟨hj, hproper⟩, e, he, rfl⟩, hid, rfl⟩

theorem exists_isListed_iff : (∃ n, IsListed (listingsOf js) a n ∧ IsListed (listingsOf js) b n) ↔
    ∃ j ∈ js, j.isProper = true ∧ HasEndpoint j.left a ∧ HasEndpoint j.left b := by
  simp only [isListed_listingsOf, List.mem_iff_getElem?]
  constructor
  · rintro ⟨n, ⟨j, hj, hproper, ha⟩, ⟨j', hj', -, hb⟩⟩
    cases hj.symm.trans hj'
    exact ⟨j, ⟨n, hj⟩, hproper, ha, hb⟩
  · rintro ⟨j, ⟨n, hj⟩, hproper, ha, hb⟩
    exact ⟨n, ⟨j, hj, hproper, ha⟩, ⟨j, hj, hproper, hb⟩⟩

end WriterGroups

/-! ## What is declared -/

namespace Declared

/-- A data link that has readers lists both writers. -/
def Component.WritesTogether (c : Component) (a b : EndpointId) : Prop :=
  ∃ l ∈ c.dataLinks, l.readers.ids Endpoint.noLanguage ≠ [] ∧
    a ∈ l.writers.ids Endpoint.noLanguage ∧ b ∈ l.writers.ids Endpoint.noLanguage

/-- The writers of the data links that have readers, in order of declaration. -/
def Component.readWriters (c : Component) : List EndpointId :=
  (c.dataLinks.filter fun l => l.readers.ids Endpoint.noLanguage ≠ []).flatMap
    (·.writers.ids Endpoint.noLanguage)

variable {c : Component} {a b : EndpointId}

theorem Component.WritesTogether.symm (h : c.WritesTogether a b) : c.WritesTogether b a := by
  obtain ⟨l, hl, hreaders, ha, hb⟩ := h
  exact ⟨l, hl, hreaders, hb, ha⟩

theorem DataLink.map_id_left (l : DataLink) :
    l.join.left.map (·.id) = l.writers.ids Endpoint.noLanguage := by
  simp only [DataLink.join]
  exact map_id_endpointsOf fun _ _ => rfl

theorem DataLink.map_id_right (l : DataLink) :
    l.join.right.map (·.id) = l.readers.ids Endpoint.noLanguage := by
  simp only [DataLink.join]
  exact map_id_endpointsOf fun _ _ => rfl

theorem DataLink.hasEndpoint_left (l : DataLink) :
    HasEndpoint l.join.left a ↔ a ∈ l.writers.ids Endpoint.noLanguage := by
  rw [hasEndpoint_iff_mem, l.map_id_left]

theorem DataLink.isProper_join_iff (l : DataLink) : l.join.isProper = true ↔
    l.writers.ids Endpoint.noLanguage ≠ [] ∧ l.readers.ids Endpoint.noLanguage ≠ [] := by
  simp [Join.isProper, ← l.map_id_left, ← l.map_id_right]

theorem Component.exists_proper_iff : (∃ j ∈ c.dataLinks.map (·.join), j.isProper = true ∧
    HasEndpoint j.left a ∧ HasEndpoint j.left b) ↔ c.WritesTogether a b := by
  simp only [List.mem_map, exists_exists_and_eq_and, WritesTogether, DataLink.hasEndpoint_left,
    DataLink.isProper_join_iff]
  refine exists_congr fun l => and_congr_right fun _ => ?_
  constructor
  · rintro ⟨⟨-, hreaders⟩, ha, hb⟩
    exact ⟨hreaders, ha, hb⟩
  · rintro ⟨hreaders, ha, hb⟩
    exact ⟨⟨List.ne_nil_of_mem ha, hreaders⟩, ha, hb⟩

/-- The links that join something have all writers of the links that have readers. -/
theorem Component.map_id_proper (c : Component) :
    (((c.dataLinks.map (·.join)).filter Join.isProper).flatMap Join.left).map (·.id) =
      c.readWriters := by
  unfold readWriters
  induction c.dataLinks with
  | nil => rfl
  | cons l links ih =>
    rw [List.map_cons, List.filter_cons, List.filter_cons]
    by_cases hreaders : l.readers.ids Endpoint.noLanguage = []
    · have hproper : l.join.isProper = false :=
        Bool.eq_false_iff.mpr fun h => (l.isProper_join_iff.mp h).2 hreaders
      simpa [hproper, hreaders] using ih
    · by_cases hwriters : l.writers.ids Endpoint.noLanguage = []
      · have hproper : l.join.isProper = false :=
          Bool.eq_false_iff.mpr fun h => (l.isProper_join_iff.mp h).1 hwriters
        simpa [hproper, hreaders, hwriters] using ih
      · have hproper : l.join.isProper = true := l.isProper_join_iff.mpr ⟨hwriters, hreaders⟩
        simpa [hproper, hreaders, l.map_id_left] using ih

end Declared

namespace EndpointIndex

variable {index : EndpointIndex} {listings : List (Endpoint × Nat)} {a : Endpoint} {b : EndpointId}

theorem hasEndpoint_siblings (h : index.writerGroups.Collects listings) :
    HasEndpoint (index.siblings a) b ↔ a.instanceName = b.instanceName ∧
      a.operation ≠ b.operation ∧
        ∃ n, WriterGroups.IsListed listings a.id n ∧ WriterGroups.IsListed listings b n := by
  unfold siblings
  split
  · next hnone =>
    refine iff_of_false (hasEndpoint_nil b) ?_
    rintro ⟨-, -, n, ha, -⟩
    obtain ⟨e, he, hid⟩ := h.hasEndpoint ha
    exact List.find?_eq_none.mp hnone e he (decide_eq_true hid)
  · next own numbers hfound =>
    have hown : own.id = a.id := by simpa using List.find?_some hfound
    have hnumbers : ∀ n, n ∈ numbers ↔ WriterGroups.IsListed listings a.id n :=
      fun n => hown ▸ h.numbers _ (List.mem_of_find?_eq_some hfound) n
    simp only [HasEndpoint, List.mem_map, List.mem_filter, decide_eq_true_eq]
    constructor
    · rintro ⟨_, ⟨e, ⟨he, -, hinstance, hoperation, n, hn, hmem⟩, rfl⟩, rfl⟩
      exact ⟨hinstance.symm, Ne.symm hoperation, n, (hnumbers n).mp hmem, (h.numbers e he n).mp hn⟩
    · rintro ⟨hinstance, hoperation, n, ha, hb⟩
      obtain ⟨e, he, rfl⟩ := h.hasEndpoint hb
      refine ⟨e.1, ⟨e, ⟨he, ?_, hinstance.symm, Ne.symm hoperation, n, (h.numbers e he n).mpr hb,
        (hnumbers n).mpr ha⟩, rfl⟩, rfl⟩
      exact fun hid => hoperation (congrArg EndpointId.operation hid.symm)

/-- Siblings stand in the order of the groups. -/
theorem siblings_sublist (index : EndpointIndex) (a : Endpoint) :
    (index.siblings a).Sublist (index.writerGroups.map Prod.fst) := by
  unfold siblings
  split
  · exact List.nil_sublist _
  · exact List.filter_sublist.map _

theorem collects_build (c : Declared.Component) : (build c).writerGroups.Collects
    (WriterGroups.listingsOf (c.dataLinks.map (·.join))) :=
  WriterGroups.collects_ofJoins _

theorem siblings_build_iff {c : Declared.Component} {a b : Endpoint} :
    HasEndpoint ((build c).siblings a) b.id ↔
      a.instanceName = b.instanceName ∧ a.operation ≠ b.operation ∧ c.WritesTogether a.id b.id := by
  rw [hasEndpoint_siblings (collects_build c), WriterGroups.exists_isListed_iff,
    Declared.Component.exists_proper_iff]

/-- Siblings stand in the order in which the links that have readers first list them. -/
theorem pairwise_siblings (c : Declared.Component) (a : Endpoint) :
    ((build c).siblings a).Pairwise fun x y =>
      c.readWriters.idxOf x.id < c.readWriters.idxOf y.id := by
  have hplace : ∀ (declared : List Endpoint) (x : EndpointId),
      declared.findIdx (·.id = x) = (declared.map (·.id)).idxOf x := by
    intro declared x
    rw [List.idxOf, List.findIdx_map]
    rfl
  have hordered := (collects_build c).own.ordered
  simp only [hplace, WriterGroups.map_fst_listingsOf, c.map_id_proper] at hordered
  exact hordered.sublist (siblings_sublist (build c) a)

/-- The siblings of a writer are the writers of the same instance and of other operations that some
data link with readers lists together with it. Each is listed once, in the order in which the data
links with readers first list them. -/
theorem siblings_build (c : Declared.Component) (a : Endpoint) :
    (∀ b : Endpoint,
      (HasEndpoint ((build c).siblings a) b.id ↔ HasEndpoint ((build c).siblings b) a.id) ∧
      (HasEndpoint ((build c).siblings a) b.id ↔ a.instanceName = b.instanceName ∧
        a.operation ≠ b.operation ∧ c.WritesTogether a.id b.id)) ∧
    (((build c).siblings a).map (·.id)).Nodup ∧
    ¬ HasEndpoint ((build c).siblings a) a.id ∧
    ((build c).siblings a).Pairwise fun x y =>
      c.readWriters.idxOf x.id < c.readWriters.idxOf y.id := by
  refine ⟨fun b => ⟨?_, siblings_build_iff⟩, ?_, ?_, pairwise_siblings c a⟩
  · rw [siblings_build_iff, siblings_build_iff]
    constructor
    · rintro ⟨hinstance, hoperation, htogether⟩
      exact ⟨hinstance.symm, hoperation.symm, htogether.symm⟩
    · rintro ⟨hinstance, hoperation, htogether⟩
      exact ⟨hinstance.symm, hoperation.symm, htogether.symm⟩
  · exact ((siblings_sublist (build c) a).map _).nodup (collects_build c).own.nodup
  · rw [siblings_build_iff]
    exact fun h => h.2.1 rfl

/-- A link without readers declares the writer `depth` first, and does not count. -/
theorem siblings_build_unreadLink :
    let ports (instanceName : String) (operations : List String) : Declared.EndpointGroups :=
      .ofList [(.moduleInstance, operations.map fun operation =>
        ⟨instanceName, operation, none, none⟩)]
    let c : Declared.Component := ⟨"A", "A", [], [], [], [], [], [], [], [],
      [⟨ports "gauge" ["depth"], ∅, true⟩,
        ⟨ports "gauge" ["height", "width", "depth"], ports "dial" ["shown"], true⟩]⟩
    let declared := c.dataLinks.flatMap (·.writers.ids Declared.Endpoint.noLanguage)
    ¬ ((build c).siblings (.new .moduleInstance "gauge" "height")).Pairwise fun x y =>
      declared.idxOf x.id < declared.idxOf y.id := by
  decide

end EndpointIndex

end Ecoa
