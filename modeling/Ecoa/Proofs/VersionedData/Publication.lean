import Ecoa.Proofs.VersionedData.Session

/-!
# What publications leave in a store

The version of a store counts its publications, as far as they fit into 64 bits. A writer is past
its first write when one of them went through it, or through a writer that had it as a sibling at
that time. Declaring a writer again takes nothing back, and a publication that fails leaves the
store as it was.
-/

namespace Ecoa

namespace VersionedData

variable {α : Type} {d : VersionedData} {v w writer : String} {others : List String}

/-! ## One call -/

/-- A declared writer keeps its state, and a new one is in its first write. -/
theorem isFirstWrite?_withWriter : (d.withWriter writer).isFirstWrite? w =
    if w = writer then some ((d.isFirstWrite? w).getD true) else d.isFirstWrite? w := by
  simp only [isFirstWrite?, withWriter, OrderedMap.alter, OrderedMap.get?_insert]
  split
  · next h => rw [h]
  · rfl

/-- Declaring ends no first write, and takes back no end of one. -/
theorem isFirstWrite?_withWriter_eq_false :
    (d.withWriter writer).isFirstWrite? w = some false ↔ d.isFirstWrite? w = some false := by
  rw [isFirstWrite?_withWriter]
  split
  · cases d.isFirstWrite? w <;> simp
  · rfl

theorem isFirstWrite?_withSiblings_eq_false :
    (d.withSiblings writer others).isFirstWrite? w = some false ↔
      d.isFirstWrite? w = some false := by
  have loop : ∀ d : VersionedData,
      (others.foldl (fun d other => d.joined writer other) d).isFirstWrite? w = some false ↔
        d.isFirstWrite? w = some false := by
    induction others with
    | nil => exact fun _ => Iff.rfl
    | cons other others ih =>
      intro d
      rw [List.foldl_cons, ih]
      exact isFirstWrite?_withWriter_eq_false
  rw [withSiblings_eq, loop, isFirstWrite?_withWriter_eq_false]

/-- Declaring changes what is known of writers, and nothing else. -/
theorem exists_withSiblings_eq (d : VersionedData) (writer : String) (others : List String) :
    ∃ flags siblings, d.withSiblings writer others =
      { d with firstWrite := flags, siblings := siblings } := by
  have loop : ∀ d : VersionedData, ∃ flags siblings,
      others.foldl (fun d other => d.joined writer other) d =
        { d with firstWrite := flags, siblings := siblings } := by
    induction others with
    | nil => exact fun d => ⟨_, _, rfl⟩
    | cons other others ih => exact fun d => ih (d.joined writer other)
  exact loop (d.withWriter writer)

namespace Call

variable {s : Cells α × VersionedData} {x : Call α} {handle : Access α}

theorem publication?_eq_some_iff {p : Publication α} : x.publication? s = some p ↔
    ∃ writer handle, x = .publish writer handle ∧ writer ∈ s.2.firstWrite.keys ∧
      p = ⟨writer, s.2.siblingsOf writer, handle.get? s.1⟩ := by
  cases x with
  | declare writer => exact iff_of_false nofun fun ⟨_, _, h, _⟩ => nomatch h
  | declareTogether writer others => exact iff_of_false nofun fun ⟨_, _, h, _⟩ => nomatch h
  | publish writer handle =>
    simp only [publication?, Option.map_eq_some_iff, publish?_eq_some_iff]
    constructor
    · rintro ⟨_, ⟨hwriter, -⟩, rfl⟩
      exact ⟨writer, handle, rfl, hwriter, rfl⟩
    · rintro ⟨_, _, ⟨⟩, hwriter, rfl⟩
      exact ⟨_, ⟨hwriter, rfl⟩, rfl⟩

/-- A call that is a publication counts and ends first writes; any other call does neither. -/
theorem run_cases (s : Cells α × VersionedData) (x : Call α) :
    (∃ p, x.publication? s = some p ∧ (x.run s).2.version = s.2.version + 1 ∧
      ∀ w, (x.run s).2.isFirstWrite? w = if p.Ends w then some false else s.2.isFirstWrite? w) ∨
    (x.publication? s = none ∧ (x.run s).2.version = s.2.version ∧
      ∀ w, (x.run s).2.isFirstWrite? w = some false ↔ s.2.isFirstWrite? w = some false) := by
  cases x with
  | declare writer => exact .inr ⟨rfl, rfl, fun w => isFirstWrite?_withWriter_eq_false⟩
  | declareTogether writer others =>
    obtain ⟨flags, siblings, h⟩ := exists_withSiblings_eq s.2 writer others
    have hversion : (s.2.withSiblings writer others).version = s.2.version := by rw [h]
    exact .inr ⟨rfl, hversion, fun w => isFirstWrite?_withSiblings_eq_false⟩
  | publish writer handle =>
    cases hp : s.2.publish? s.1 writer handle with
    | none =>
      have hrun : (publish writer handle).run s = s := by rw [run, hp, Option.getD_none]
      have hnone : (publish writer handle).publication? s = none := by
        rw [publication?, hp, Option.map_none]
      rw [hrun]
      exact .inr ⟨hnone, rfl, fun w => Iff.rfl⟩
    | some t =>
      obtain ⟨-, rfl⟩ := publish?_eq_some_iff.mp hp
      have hsome : (publish writer handle).publication? s =
          some ⟨writer, s.2.siblingsOf writer, handle.get? s.1⟩ := by
        rw [publication?, hp, Option.map_some]
      refine .inl ⟨_, hsome, ?_, fun w => ?_⟩
      · rw [run, hp, Option.getD_some]
        rfl
      · rw [run, hp, Option.getD_some, isFirstWrite?_clearFirstWrite]
        exact if_congr List.mem_cons rfl rfl

end Call

/-! ## A session -/

namespace Session

variable {s : Session α} {x : Action α} {done : List (Action α)} {log : List (Publication α)}

/-- What the store of a session keeps of the actions before, and of the publications among them. -/
structure IsRecorded (s : Session α) (done : List (Action α)) (log : List (Publication α)) :
    Prop where
  made : ∃ calls : List (Call α), s.store.IsMadeBy calls ∧
    ∀ w, (∃ y ∈ calls, w ∈ y.declared) ↔ ∃ y ∈ done, w ∈ y.declared
  version : s.store.version = UInt64.ofNat log.length
  ended : ∀ w, s.store.isFirstWrite? w = some false ↔ ∃ p ∈ log, p.Ends w

theorem isRecorded_start (c : Cells α) (initial : α) (controlled : Bool) :
    (start c initial controlled).IsRecorded [] [] where
  made := ⟨[], isMadeBy_new c initial controlled, fun w => by simp⟩
  version := rfl
  ended w := iff_of_false nofun (by simp)

theorem IsRecorded.step (h : s.IsRecorded done log) (x : Action α) :
    (s.step x).IsRecorded (done ++ [x]) (log ++ (s.publication? x).toList) := by
  obtain ⟨calls, hmade, hdeclared⟩ := h.made
  have hx := s.declared_eq x
  have hstore := s.store_step x
  have hp : s.publication? x = (s.call? x).bind (·.publication? (s.cells, s.store)) := rfl
  have hdone : ∀ w, (∃ y ∈ done ++ [x], w ∈ y.declared) ↔
      (∃ y ∈ done, w ∈ y.declared) ∨ w ∈ x.declared := by
    simp [or_and_right, exists_or]
  cases hcall : s.call? x with
  | none =>
    rw [hcall] at hx hstore hp
    rw [Option.elim_none] at hx hstore
    rw [hp, Option.bind_none, Option.toList_none, List.append_nil]
    refine ⟨⟨calls, hstore ▸ hmade, fun w => ?_⟩, hstore ▸ h.version, hstore ▸ h.ended⟩
    rw [hdone, hx, hdeclared, or_iff_left List.not_mem_nil]
  | some y =>
    rw [hcall] at hx hstore hp
    rw [Option.elim_some] at hx hstore
    rw [Option.bind_some] at hp
    have hcalls : ∀ w, (∃ z ∈ calls ++ [y], w ∈ z.declared) ↔
        ∃ z ∈ done ++ [x], w ∈ z.declared := by
      intro w
      rw [hdone, hx, ← hdeclared]
      simp [or_and_right, exists_or]
    rw [hp]
    rcases Call.run_cases (s.cells, s.store) y with
      ⟨p, hpub, hversion, hflags⟩ | ⟨hpub, hversion, hflags⟩
    · rw [hpub, Option.toList_some]
      refine ⟨⟨calls ++ [y], hstore ▸ hmade.run y, hcalls⟩, ?_, fun w => ?_⟩
      · rw [hstore, hversion, List.length_append, List.length_singleton, UInt64.ofNat_add]
        exact congrArg (· + 1) h.version
      · rw [hstore, hflags]
        simp only [List.mem_append, List.mem_singleton, or_and_right, exists_or, exists_eq_left,
          ← h.ended]
        split
        · next hends => exact iff_of_true rfl (.inr hends)
        · next hends => exact (or_iff_left hends).symm
    · rw [hpub, Option.toList_none, List.append_nil]
      exact ⟨⟨calls ++ [y], hstore ▸ hmade.run y, hcalls⟩, hstore ▸ hversion.trans h.version,
        fun w => hstore ▸ (hflags w).trans (h.ended w)⟩

theorem IsRecorded.run (h : s.IsRecorded done log) (actions : List (Action α)) :
    (s.run actions).IsRecorded (done ++ actions) (log ++ s.publications actions) :=
  run_invariant (I := IsRecorded) (fun _ _ _ x _ h => h.step x) h

/-- As long as it fits into 64 bits, the version is the number of publications. -/
theorem IsRecorded.toNat_version (h : s.IsRecorded done log) (hcount : log.length < UInt64.size) :
    (s.store.version : Nat) = log.length := by
  rw [h.version, UInt64.toNat_ofNat_of_lt' hcount]

theorem IsRecorded.mem_keys_iff (h : s.IsRecorded done log) :
    w ∈ s.store.firstWrite.keys ↔ ∃ x ∈ done, w ∈ x.declared := by
  obtain ⟨calls, hmade, hdeclared⟩ := h.made
  rw [hmade.writers, hdeclared]

/-- A publication through a declared writer succeeds, and any other fails and only costs the
handle. -/
theorem IsRecorded.answer?_publish (h : s.IsRecorded done log) {n : Nat}
    (hlive : (s.handle? n).isSome) (w : String) :
    ((∃ x ∈ done, w ∈ x.declared) → (s.publish w n).store.version = s.store.version + 1 ∧
      s.answer? w n = some (.ok (s.publish w n).store.version)) ∧
    (¬ (∃ x ∈ done, w ∈ x.declared) →
      s.answer? w n = some (.error (unknownWriterMessage w)) ∧
        s.publish w n = { s with handles := s.handles.set n none }) := by
  obtain ⟨a, ha⟩ := Option.isSome_iff_exists.mp hlive
  rw [← h.mem_keys_iff]
  unfold answer? publish
  rw [ha]
  simp only [Option.map_some, call, Call.run]
  constructor
  · intro hw
    have hp : s.store.publish? s.cells w a = some _ := publish?_eq_some_iff.mpr ⟨hw, rfl⟩
    rw [hp]
    exact ⟨rfl, rfl⟩
  · intro hw
    have hp : s.store.publish? s.cells w a = none :=
      Option.eq_none_iff_forall_ne_some.mpr fun t ht => hw (publish?_eq_some_iff.mp ht).1
    rw [hp]
    exact ⟨rfl, rfl⟩

/-- As long as it fits into 64 bits, the version of a store is the number of the publications that
succeeded. Those through declared writers do, and answer the new version; any other answers what is
wrong and leaves everything but the handle as it was. A writer is known when it was declared, and
past its first write when a publication went through it or through one that had it as a sibling at
that time; whatever follows, it stays so. -/
theorem run_publications (c : Cells α) (initial : α) (controlled : Bool)
    (actions : List (Action α))
    (hcount : ((start c initial controlled).publications actions).length < UInt64.size) :
    let s := (start c initial controlled).run actions
    let log := (start c initial controlled).publications actions
    (s.store.version : Nat) = log.length ∧
    (∀ w, s.store.isFirstWrite? w = none ↔ ∀ x ∈ actions, w ∉ x.declared) ∧
    (∀ w, s.store.isFirstWrite? w = some false ↔ ∃ p ∈ log, w = p.writer ∨ w ∈ p.siblings) ∧
    (∀ w n, (s.handle? n).isSome →
      (s.answer? w n = some (.error (unknownWriterMessage w)) ↔ ∀ x ∈ actions, w ∉ x.declared) ∧
      (∀ v, s.answer? w n = some (.ok v) ↔
        (∃ x ∈ actions, w ∈ x.declared) ∧ v = s.store.version + 1) ∧
      (∀ v, s.answer? w n = some (.ok v) → (s.publish w n).store.version = v ∧
        (log.length + 1 < UInt64.size → (v : Nat) = log.length + 1)) ∧
      ((∀ x ∈ actions, w ∉ x.declared) →
        s.publish w n = { s with handles := s.handles.set n none })) ∧
    ∀ w more, s.store.isFirstWrite? w = some false →
      (s.run more).store.isFirstWrite? w = some false := by
  intro s log
  have h : s.IsRecorded actions log := (isRecorded_start c initial controlled).run actions
  have hnever : ∀ w, (∀ x ∈ actions, w ∉ x.declared) ↔ ¬ ∃ x ∈ actions, w ∈ x.declared := by simp
  refine ⟨h.toNat_version hcount, fun w => ?_, h.ended, fun w n hlive => ?_, fun w more hw => ?_⟩
  · rw [hnever, ← h.mem_keys_iff]
    exact OrderedMap.get?_eq_none_iff
  · obtain ⟨hknown, hunknown⟩ := h.answer?_publish hlive w
    rw [hnever]
    by_cases hw : ∃ x ∈ actions, w ∈ x.declared
    · obtain ⟨hversion, hanswer⟩ := hknown hw
      rw [hanswer]
      refine ⟨iff_of_false nofun (not_not_intro hw), fun v => ?_, fun v hv => ?_, (absurd hw ·)⟩
      · rw [hversion, and_iff_right hw, Option.some.injEq, Except.ok.injEq, eq_comm]
      · obtain rfl := Except.ok.inj (Option.some.inj hv)
        refine ⟨rfl, fun hnext => ?_⟩
        rw [hversion, UInt64.toNat_add, h.toNat_version hcount]
        exact Nat.mod_eq_of_lt hnext
    · obtain ⟨hanswer, hsame⟩ := hunknown hw
      rw [hanswer]
      exact ⟨iff_of_true rfl hw, fun v => iff_of_false nofun fun hv => hw hv.1, nofun,
        fun _ => hsame⟩
  · obtain ⟨p, hp, hends⟩ := (h.ended w).mp hw
    exact ((h.run more).ended w).mpr ⟨p, List.mem_append_left _ hp, hends⟩

/-- Declared once more after a publication through its neighbour, a writer stays past its first
write. -/
theorem run_publications_neighbour :
    let actions : List (Action String) := [.declareTogether "left" ["right"], .take,
      .publish "left" 0, .declare "right", .declare "alone", .take]
    let s := (start .empty "" true).run actions
    ((start .empty "" true).publications actions).length < UInt64.size ∧ (s.handle? 1).isSome ∧
      (s.store.version : Nat) = 1 ∧ s.store.isFirstWrite? "right" = some false ∧
      s.store.isFirstWrite? "unknown" = none ∧ s.answer? "alone" 1 = some (.ok 2) ∧
      s.answer? "unknown" 1 = some (.error "unknown write port 'unknown'") := by
  intro actions s
  have hcount : ((start .empty "" true).publications actions).length < UInt64.size := by decide
  have hlive : (s.handle? 1).isSome := by decide
  obtain ⟨hversion, hnone, hfalse, hanswer, -⟩ := run_publications .empty "" true actions hcount
  exact ⟨hcount, hlive, hversion, (hfalse "right").mpr (by decide),
    (hnone "unknown").mpr (by decide), ((hanswer "alone" 1 hlive).2.1 2).mpr (by decide),
    (hanswer "unknown" 1 hlive).1.mpr (by decide)⟩

end Session

end VersionedData

end Ecoa
