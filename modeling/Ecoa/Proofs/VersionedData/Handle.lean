import Ecoa.Proofs.VersionedData.Publication

/-!
# Copies and shared cells

A controlled store hands out copies: what is written through one is seen nowhere else, and the store
takes its value from the copies that are published. Any other store hands out its cell: what is
written through one handle is the value of the store and the content of all handles at once, and a
publication only counts.
-/

namespace Ecoa

variable {α : Type}

theorem Cells.get?_set {c : Cells α} {i : Nat} {v : α} (h : c.get? i = some v) (w : α) :
    (c.set i w).get? i = some w := by
  obtain ⟨hlt, -⟩ := List.getElem?_eq_some_iff.mp h
  exact List.getElem?_set_self hlt

/-- To set a handle is to change its content, whatever it was. -/
theorem Access.set_eq_modify (a : Access α) (c : Cells α) (v : α) :
    a.set c v = a.modify c fun _ => v := by
  unfold Access.modify
  cases h : a.get? c with
  | some w => rfl
  | none =>
    cases a with
    | owned w => cases h
    | shared cell =>
      have hlen : c.contents.length ≤ cell := List.getElem?_eq_none_iff.mp h
      exact congrArg (fun l => (Access.shared cell, Cells.mk l)) (List.set_eq_of_length_le hlen)

namespace VersionedData

variable {d : VersionedData}

/-- The handle is of the kind that the store hands out: a copy, or its own cell. -/
def HandsOut (d : VersionedData) : Access α → Prop
  | .owned _ => d.controlled = true
  | .shared cell => d.controlled = false ∧ cell = d.cell

theorem HandsOut.exists_eq_owned {a : Access α} (h : d.HandsOut a) (hd : d.controlled = true) :
    ∃ v, a = .owned v := by
  cases a with
  | owned v => exact ⟨v, rfl⟩
  | shared cell => exact nomatch hd.symm.trans h.1

theorem HandsOut.eq_shared {a : Access α} (h : d.HandsOut a) (hd : d.controlled = false) :
    a = .shared d.cell := by
  cases a with
  | owned v => exact nomatch hd.symm.trans h
  | shared cell => exact congrArg _ h.2

/-- No call gives a store another cell or makes it hand out other handles. -/
theorem Call.run_frame (s : Cells α × VersionedData) (x : Call α) :
    (x.run s).2.cell = s.2.cell ∧ (x.run s).2.controlled = s.2.controlled := by
  cases x with
  | declare writer => exact ⟨rfl, rfl⟩
  | declareTogether writer others =>
    obtain ⟨flags, siblings, h⟩ := exists_withSiblings_eq s.2 writer others
    show (s.2.withSiblings writer others).cell = _ ∧
      (s.2.withSiblings writer others).controlled = _
    rw [h]
    exact ⟨rfl, rfl⟩
  | publish writer handle =>
    show ((s.2.publish? s.1 writer handle).getD s).2.cell = _ ∧
      ((s.2.publish? s.1 writer handle).getD s).2.controlled = _
    cases hp : s.2.publish? s.1 writer handle with
    | none => exact ⟨rfl, rfl⟩
    | some t =>
      obtain ⟨-, rfl⟩ := publish?_eq_some_iff.mp hp
      exact ⟨rfl, rfl⟩

namespace Session

variable {s : Session α} {x : Action α} {n : Nat} {a : Access α}

/-! ## Places of handles -/

theorem handle?_set (ha : s.handle? n = some a) (o : Option (Access α)) (c : Cells α)
    (d : VersionedData) (k : Nat) :
    (Session.mk c d (s.handles.set n o)).handle? k = if k = n then o else s.handle? k := by
  have hlt : n < s.handles.length := by
    rcases Nat.lt_or_ge n s.handles.length with hlt | hge
    · exact hlt
    · rw [handle?, List.getElem?_eq_none hge] at ha
      cases ha
  unfold handle?
  rw [List.getElem?_set]
  by_cases hk : k = n
  · rw [if_pos hk, if_pos hk.symm, if_pos hlt, Option.join_some]
  · rw [if_neg hk, if_neg (Ne.symm hk)]

theorem handle?_adopt (s : Session α) (a : Access α) (k : Nat) :
    (s.adopt a).handle? k = if k = s.handles.length then some a else s.handle? k := by
  unfold handle? adopt
  rcases Nat.lt_trichotomy k s.handles.length with hlt | heq | hgt
  · rw [List.getElem?_append_left hlt, if_neg (Nat.ne_of_lt hlt)]
  · rw [if_pos heq, heq, List.getElem?_concat_length, Option.join_some]
  · have hout : (s.handles ++ [some a]).length ≤ k := by
      rw [List.length_append]
      exact hgt
    rw [if_neg (Nat.ne_of_gt hgt), List.getElem?_eq_none hout,
      List.getElem?_eq_none (Nat.le_of_lt hgt)]

/-! ## Handles of the store itself -/

/-- The store has a value, and all handles of the session are of the kind that it hands out. -/
structure IsOwn (s : Session α) : Prop where
  value : ∃ v, s.value? = some v
  handles : ∀ n a, s.handle? n = some a → s.store.HandsOut a

theorem isOwn_start (c : Cells α) (initial : α) (controlled : Bool) :
    (start c initial controlled).IsOwn where
  value := ⟨initial, by simp [start, new, Cells.allocate, value?, VersionedData.value?, Cells.get?]⟩
  handles n a ha := by cases ha

theorem step_change {f : α → α} (hx : x.change? = some (n, f)) :
    s.step x = s.write n (·.modify s.cells f) := by
  cases x with
  | set h v =>
    cases hx
    exact congrArg (s.write n) (funext fun a => a.set_eq_modify s.cells v)
  | modify h g =>
    cases hx
    rfl
  | _ => cases hx

/-- Writing through a copy changes that copy. -/
theorem write_owned {v : α} (ha : s.handle? n = some (.owned v)) (f : α → α) :
    s.write n (·.modify s.cells f) =
      { s with handles := s.handles.set n (some (.owned (f v))) } := by
  unfold write
  rw [ha]
  rfl

/-- Writing through the cell of a store changes the cell. -/
theorem write_shared {v : α} {cell : Nat} (ha : s.handle? n = some (.shared cell))
    (hv : s.cells.get? cell = some v) (f : α → α) :
    s.write n (·.modify s.cells f) =
      { s with
        cells := s.cells.set cell (f v)
        handles := s.handles.set n (some (.shared cell)) } := by
  have hmodify : (Access.shared cell).modify s.cells f =
      (.shared cell, s.cells.set cell (f v)) := by
    simp only [Access.modify, Access.get?, hv, Access.set]
  unfold write
  rw [ha]
  simp only [hmodify]

/-- A session stays with its own handles when it comes by no others. -/
theorem IsOwn.of_frame {t : Session α} (h : s.IsOwn) (hvalue : ∃ v, t.value? = some v)
    (hcell : t.store.cell = s.store.cell) (hcontrolled : t.store.controlled = s.store.controlled)
    (hhandles : ∀ k a, t.handle? k = some a → s.handle? k = some a ∨ s.store.HandsOut a) :
    t.IsOwn where
  value := hvalue
  handles k a ha := by
    have hs : s.store.HandsOut a := (hhandles k a ha).elim (h.handles k a) id
    cases a with
    | owned v => exact hcontrolled.trans hs
    | shared cell => exact ⟨hcontrolled.trans hs.1, hs.2.trans hcell.symm⟩

/-- The same where something was written through one handle. -/
theorem IsOwn.of_set (h : s.IsOwn) (ha : s.handle? n = some a) {b : Access α}
    (hb : s.store.HandsOut b) {c : Cells α} (hvalue : ∃ v, s.store.value? c = some v) :
    (Session.mk c s.store (s.handles.set n (some b))).IsOwn := by
  refine h.of_frame hvalue rfl rfl fun k b' hb' => ?_
  rw [handle?_set ha] at hb'
  split at hb'
  · cases hb'
    exact .inr hb
  · exact .inl hb'

/-- Every handle has a content; a shared one has the value of the store. -/
theorem IsOwn.exists_get? (h : s.IsOwn) (ha : s.handle? n = some a) :
    ∃ v, a.get? s.cells = some v ∧ (s.store.controlled = false → s.value? = some v) := by
  obtain ⟨v, hv⟩ := h.value
  cases hc : s.store.controlled with
  | true =>
    obtain ⟨w, rfl⟩ := (h.handles n a ha).exists_eq_owned hc
    exact ⟨w, rfl, nofun⟩
  | false =>
    obtain rfl := (h.handles n a ha).eq_shared hc
    exact ⟨v, hv, fun _ => hv⟩

/-- A handle that is taken is of the kind that the store hands out, and holds its value. -/
theorem exists_take {v : α} (hv : s.value? = some v) :
    ∃ a, s.take = s.adopt a ∧ s.store.HandsOut a ∧ a.get? s.cells = some v := by
  have hv' : s.store.value? s.cells = some v := hv
  unfold take VersionedData.access?
  cases hc : s.store.controlled with
  | true =>
    rw [if_pos rfl, hv']
    exact ⟨.owned v, rfl, hc, rfl⟩
  | false =>
    rw [if_neg Bool.false_ne_true]
    exact ⟨.shared s.store.cell, rfl, ⟨hc, rfl⟩, hv⟩

/-! ## Publications -/

theorem publication?_publish (ha : s.handle? n = some a) (w : String) :
    s.publication? (.publish w n) = (s.store.publish? s.cells w a).map fun _ =>
      ⟨w, s.store.siblingsOf w, a.get? s.cells⟩ := by
  simp only [publication?, call?, ha, Option.map_some, Option.bind_some, Call.publication?]

theorem publish_of_handle? (ha : s.handle? n = some a) (w : String) :
    s.publish w n = { s.call (.publish w a) with handles := s.handles.set n none } := by
  rw [publish, ha]

/-- After a publication the store has the value that the handle held, and the value that it had if
the publication fails. -/
theorem IsOwn.value?_publish (h : s.IsOwn) (w : String) (n : Nat) :
    (s.publish w n).value? = (s.publication? (.publish w n)).elim s.value? (·.content) := by
  obtain ⟨v, hv⟩ := h.value
  cases ha : s.handle? n with
  | none =>
    have hnone : s.publication? (.publish w n) = none := by simp only [publication?, call?, ha]; rfl
    rw [publish, ha, hnone, Option.elim_none]
  | some a =>
    rw [publish_of_handle? ha, publication?_publish ha]
    show (s.call (.publish w a)).value? = _
    have hframe := (Call.run_frame (s.cells, s.store) (.publish w a)).1
    simp only [value?, VersionedData.value?, call]
    rw [hframe]
    simp only [Call.run]
    cases hp : s.store.publish? s.cells w a with
    | none => rfl
    | some t =>
      obtain ⟨-, rfl⟩ := publish?_eq_some_iff.mp hp
      rw [Option.getD_some, Option.map_some, Option.elim_some]
      cases a with
      | owned u => exact Cells.get?_set hv u
      | shared cell =>
        obtain ⟨-, rfl⟩ := h.handles n _ ha
        rfl

/-- What is published has a content, and the one of a shared handle is the value of the store. -/
theorem IsOwn.exists_content (h : s.IsOwn) {w : String} {p : Publication α}
    (hp : s.publication? (.publish w n) = some p) :
    ∃ v, p.content = some v ∧ (s.store.controlled = false → s.value? = some v) := by
  cases ha : s.handle? n with
  | none => simp [publication?, call?, ha] at hp
  | some a =>
    rw [publication?_publish ha] at hp
    obtain ⟨_, -, rfl⟩ := Option.map_eq_some_iff.mp hp
    exact h.exists_get? ha

/-- A handle that is published is given up, and the others are kept. -/
theorem handle?_publish (s : Session α) (w : String) (n k : Nat) :
    (s.publish w n).handle? k = if k = n then none else s.handle? k := by
  cases ha : s.handle? n with
  | none =>
    have hsame : s.publish w n = s := by rw [publish, ha]
    rw [hsame]
    split
    · next hk => rw [hk, ha]
    · rfl
  | some a =>
    rw [publish_of_handle? ha]
    exact handle?_set ha none _ _ k

/-! ## Steps -/

/-- No action gives the store another cell or makes it hand out other handles. -/
theorem step_frame (s : Session α) (x : Action α) :
    (s.step x).store.cell = s.store.cell ∧
      (s.step x).store.controlled = s.store.controlled := by
  rw [store_step]
  cases s.call? x with
  | none => exact ⟨rfl, rfl⟩
  | some y => exact Call.run_frame (s.cells, s.store) y

/-- A session that comes by no other handles keeps to its own. -/
theorem IsOwn.step (h : s.IsOwn) (hx : x.IsOwn) : (s.step x).IsOwn := by
  obtain ⟨v, hv⟩ := h.value
  -- what is written goes into a copy or into the cell, and the handle is of its kind as before
  have hwrite : ∀ n f, x.change? = some (n, f) → (s.step x).IsOwn := by
    intro n f hchange
    rw [step_change hchange]
    cases ha : s.handle? n with
    | none => rwa [write, ha]
    | some a =>
      have hout : s.store.HandsOut a := h.handles n a ha
      cases a with
      | owned u =>
        have hout' : s.store.HandsOut (.owned (f u)) := hout
        rw [write_owned ha]
        exact h.of_set ha hout' ⟨v, hv⟩
      | shared cell =>
        obtain rfl : cell = s.store.cell := hout.2
        rw [write_shared ha hv]
        exact h.of_set ha hout ⟨f v, Cells.get?_set hv (f v)⟩
  have hcall : ∀ y : Call α, (y.run (s.cells, s.store)).1 = s.cells → (s.call y).IsOwn := by
    intro y hcells
    obtain ⟨hcell, hcontrolled⟩ := Call.run_frame (s.cells, s.store) y
    refine h.of_frame ⟨v, ?_⟩ hcell hcontrolled fun k a ha => .inl ha
    simp only [value?, VersionedData.value?, call, hcells, hcell]
    exact hv
  cases x with
  | declare writer => exact hcall _ rfl
  | declareTogether writer others => exact hcall _ rfl
  | take =>
    obtain ⟨a, htake, ha, -⟩ := exists_take hv
    show s.take.IsOwn
    rw [htake]
    refine h.of_frame ⟨v, hv⟩ rfl rfl fun k b hb => ?_
    rw [handle?_adopt] at hb
    split at hb
    · cases hb
      exact .inr ha
    · exact .inl hb
  | adopt a => exact hx.elim
  | set n value => exact hwrite n _ rfl
  | modify n f => exact hwrite n f rfl
  | publish writer n =>
    have hvalue : ∃ v, (s.publish writer n).value? = some v := by
      rw [h.value?_publish writer n]
      cases hp : s.publication? (.publish writer n) with
      | none => exact h.value
      | some p =>
        obtain ⟨u, hu, -⟩ := h.exists_content hp
        exact ⟨u, hu⟩
    obtain ⟨hcell, hcontrolled⟩ := s.step_frame (.publish writer n)
    refine h.of_frame hvalue hcell hcontrolled fun k b hb => ?_
    have hb : (s.publish writer n).handle? k = some b := hb
    rw [handle?_publish] at hb
    split at hb
    · cases hb
    · exact .inl hb

/-- In a controlled session only publications change the value. -/
theorem IsOwn.value?_step (h : s.IsOwn) (hc : s.store.controlled = true) (x : Action α) :
    (s.step x).value? = (s.publication? x).elim s.value? (·.content) := by
  have hwrite : ∀ n f, x.change? = some (n, f) → (s.step x).value? = s.value? := by
    intro n f hchange
    rw [step_change hchange]
    cases ha : s.handle? n with
    | none => rw [write, ha]
    | some a =>
      obtain ⟨u, rfl⟩ := (h.handles n a ha).exists_eq_owned hc
      rw [write_owned ha]
      rfl
  cases x with
  | declare writer => rfl
  | declareTogether writer others =>
    have hframe := (Call.run_frame (s.cells, s.store) (.declareTogether writer others)).1
    exact congrArg s.cells.get? hframe
  | take =>
    obtain ⟨v, hv⟩ := h.value
    obtain ⟨a, htake, -⟩ := exists_take hv
    show s.take.value? = _
    rw [htake]
    rfl
  | adopt a => rfl
  | set n value => exact hwrite n _ rfl
  | modify n f => exact hwrite n f rfl
  | publish writer n => exact h.value?_publish writer n

/-- What a run keeps: its handles are those of the store, and a controlled store has the value of
the last publication, or the first one. -/
theorem isOwn_run (c : Cells α) (initial : α) (controlled : Bool) {actions : List (Action α)}
    (hown : ∀ x ∈ actions, x.IsOwn) :
    let s := (start c initial controlled).run actions
    let log := (start c initial controlled).publications actions
    s.IsOwn ∧ s.store.controlled = controlled ∧
      (controlled = true → s.value? = log.getLast?.elim (some initial) (·.content)) := by
  let I (t : Session α) (_ : List (Action α)) (log : List (Publication α)) : Prop :=
    t.IsOwn ∧ t.store.controlled = controlled ∧
      (controlled = true → t.value? = log.getLast?.elim (some initial) (·.content))
  suffices h : I ((start c initial controlled).run actions) ([] ++ actions)
      ([] ++ (start c initial controlled).publications actions) from h
  refine run_invariant ?_ ?_
  · rintro t before log x hx ⟨ht, hcontrolled, hvalue⟩
    refine ⟨ht.step (hown x hx), (t.step_frame x).2.trans hcontrolled, fun hc => ?_⟩
    rw [ht.value?_step (hcontrolled.trans hc), hvalue hc]
    cases t.publication? x with
    | none => rw [Option.toList_none, List.append_nil, Option.elim_none]
    | some p => rw [Option.toList_some, List.getLast?_concat, Option.elim_some, Option.elim_some]
  · refine ⟨isOwn_start c initial controlled, rfl, fun _ => ?_⟩
    simp [start, new, Cells.allocate, value?, VersionedData.value?, Cells.get?]

/-- A copy that is written through changes alone. -/
theorem IsOwn.get?_step (h : s.IsOwn) (hc : s.store.controlled = true) {f : α → α}
    (hx : x.change? = some (n, f)) (k : Nat) :
    (s.step x).get? k = if k = n then (s.get? k).map f else s.get? k := by
  rw [step_change hx]
  cases ha : s.handle? n with
  | none =>
    have hsame : s.write n (·.modify s.cells f) = s := by rw [write, ha]
    rw [hsame]
    split
    · next hk => rw [get?, hk, ha, Option.bind_none, Option.map_none]
    · rfl
  | some a =>
    obtain ⟨u, rfl⟩ := (h.handles n a ha).exists_eq_owned hc
    rw [write_owned ha, get?, handle?_set ha]
    split
    · next hk => rw [get?, hk, ha]; rfl
    · rfl

/-- What is written through a shared handle is the value of the store. -/
theorem IsOwn.value?_step_shared (h : s.IsOwn) (hc : s.store.controlled = false) {f : α → α}
    (hx : x.change? = some (n, f)) (ha : s.handle? n = some a) :
    (s.step x).value? = s.value?.map f := by
  obtain ⟨v, hv⟩ := h.value
  obtain rfl := (h.handles n a ha).eq_shared hc
  rw [step_change hx, write_shared ha hv, hv]
  exact Cells.get?_set hv (f v)

/-- A publication counts, and ends first writes. -/
theorem store_publish {w : String} {p : Publication α}
    (hp : s.publication? (.publish w n) = some p) :
    (s.publish w n).store.version = s.store.version + 1 ∧
      ∀ u, (s.publish w n).store.isFirstWrite? u =
        if u = w ∨ u ∈ s.store.siblingsOf w then some false else s.store.isFirstWrite? u := by
  obtain ⟨y, hy, hpub⟩ := Option.bind_eq_some_iff.mp hp
  have hstore : (s.publish w n).store = (y.run (s.cells, s.store)).2 := by
    have hstep := s.store_step (.publish w n)
    rwa [hy] at hstep
  obtain ⟨a, -, rfl⟩ := Option.map_eq_some_iff.mp hy
  obtain ⟨_, _, ⟨⟩, -, rfl⟩ := Call.publication?_eq_some_iff.mp hpub
  rcases Call.run_cases (s.cells, s.store) (.publish w a) with
    ⟨p, hpub', hversion, hflags⟩ | ⟨hnone, -⟩
  · cases hpub.symm.trans hpub'
    rw [hstore]
    exact ⟨hversion, hflags⟩
  · cases hpub.symm.trans hnone

/-- A store and the handles that are taken of it, each with the value at that time. If the store is
controlled, its value is what the handle of the last publication held then, or the first value, and
writing through a handle changes neither the value nor another handle. In any other store all
handles have its value, so that writing through one changes all, and a publication counts and ends
first writes but leaves the value. -/
theorem run_values (c : Cells α) (initial : α) (controlled : Bool) {actions : List (Action α)}
    (hown : ∀ x ∈ actions, x.IsOwn) :
    let s := (start c initial controlled).run actions
    let log := (start c initial controlled).publications actions
    ∃ v, s.value? = some v ∧ s.take.get? s.handles.length = some v ∧
    (controlled = true → some v = log.getLast?.elim (some initial) (·.content) ∧
      ∀ x n f, x.change? = some (n, f) → (s.step x).value? = some v ∧
        ∀ k, (s.step x).get? k = if k = n then (s.get? k).map f else s.get? k) ∧
    (controlled = false → (∀ n, (s.handle? n).isSome → s.get? n = some v) ∧
      (∀ x n f, x.change? = some (n, f) → (s.handle? n).isSome →
        (s.step x).value? = some (f v)) ∧
      ∀ w n, (s.publication? (.publish w n)).isSome →
        (s.publish w n).value? = some v ∧ (s.publish w n).store.version = s.store.version + 1 ∧
        ∀ u, (s.publish w n).store.isFirstWrite? u =
          if u = w ∨ u ∈ s.store.siblingsOf w then some false
          else s.store.isFirstWrite? u) := by
  intro s log
  obtain ⟨h, hcontrolled, hlast⟩ := isOwn_run c initial controlled hown
  obtain ⟨v, hv⟩ := h.value
  have hget : s.store.controlled = false → ∀ n, (s.handle? n).isSome → s.get? n = some v := by
    intro hc n hlive
    obtain ⟨a, ha⟩ := Option.isSome_iff_exists.mp hlive
    obtain ⟨u, hu, hshared⟩ := h.exists_get? ha
    rw [get?, ha, Option.bind_some, hu, ← hshared hc, hv]
  have htaken : s.take.get? s.handles.length = some v := by
    obtain ⟨a, htake, -, ha⟩ := exists_take hv
    rw [htake, get?, handle?_adopt, if_pos rfl]
    exact ha
  refine ⟨v, hv, htaken, fun hc => ?_, fun hc => ?_⟩
  · refine ⟨hv ▸ hlast hc, fun x n f hx => ?_⟩
    have hcs : s.store.controlled = true := hcontrolled.trans hc
    -- an action that writes is no publication
    have hnone : s.publication? x = none := by
      cases x with
      | set _ _ | modify _ _ => rfl
      | _ => cases hx
    refine ⟨?_, h.get?_step hcs hx⟩
    rw [h.value?_step hcs, hnone]
    exact hv
  · have hcs : s.store.controlled = false := hcontrolled.trans hc
    refine ⟨hget hcs, fun x n f hx hlive => ?_, fun w n hpub => ?_⟩
    · obtain ⟨a, ha⟩ := Option.isSome_iff_exists.mp hlive
      rw [h.value?_step_shared hcs hx ha, hv, Option.map_some]
    · obtain ⟨p, hp⟩ := Option.isSome_iff_exists.mp hpub
      obtain ⟨u, hu, hshared⟩ := h.exists_content hp
      refine ⟨?_, store_publish hp⟩
      rw [h.value?_publish w n, hp, Option.elim_some]
      exact hu.trans ((hshared hcs).symm.trans hv)

/-- What is set through the first of two handles stays there, or is what both hold. -/
theorem run_values_draft :
    let actions : List (Action String) := [.declare "w", .take, .take, .set 0 "draft"]
    let copies := (start .empty "first" true).run actions
    let shared := (start .empty "first" false).run actions
    (∀ x ∈ actions, x.IsOwn) ∧
    (copies.value? = some "first" ∧ (copies.step (.set 1 "other")).value? = some "first" ∧
      (copies.step (.set 1 "other")).get? 0 = some "draft") ∧
    (shared.get? 1 = some "draft" ∧ (shared.publish "w" 0).value? = some "draft") := by
  intro actions copies shared
  have hown : ∀ x ∈ actions, x.IsOwn := by decide
  refine ⟨hown, ?_, ?_⟩
  · obtain ⟨v, hv, -, hcopies, -⟩ := run_values .empty "first" true hown
    obtain ⟨hlast, hchange⟩ := hcopies rfl
    obtain rfl : v = "first" := Option.some.inj hlast
    obtain ⟨hvalue, hget⟩ := hchange (.set 1 "other") 1 _ rfl
    exact ⟨hv, hvalue, (hget 0).trans (by decide)⟩
  · obtain ⟨v, hv, -, -, hcell⟩ := run_values .empty "first" false hown
    obtain ⟨hget, -, hpublish⟩ := hcell rfl
    obtain rfl : v = "draft" := Option.some.inj (hv.symm.trans (by decide))
    exact ⟨hget 1 (by decide), (hpublish "w" 0 (by decide)).1⟩

end Session

end VersionedData

end Ecoa
