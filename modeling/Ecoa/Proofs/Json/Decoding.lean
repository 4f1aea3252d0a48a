import Ecoa.Json.Decoder
import Ecoa.OrderedMap
import Ecoa.Proofs.Except
import Ecoa.Proofs.Json.Scan

/-!
# Decoders of what an encoder writes

`Restores` relates a decoder to an encoder whose data it makes again. For a record the members are
given as slots, one for each field and in its order, some of which are left out: `Fields.Takes`
holds field by field, and `Fields.restores` makes of it a statement on the whole record.
-/

namespace Ecoa.Json

theorem readableItems_of_forall {items : List Json} (h : ∀ v ∈ items, v.readable = true) :
    readableItems items = true := by
  induction items with
  | nil => rfl
  | cons v items ih =>
    rw [List.forall_mem_cons] at h
    rw [readableItems, h.1, ih h.2]
    rfl

theorem readableMembers_of_forall {members : List (String × Json)}
    (h : ∀ m ∈ members, m.2.readable = true) : readableMembers members = true := by
  induction members with
  | nil => rfl
  | cons m members ih =>
    rw [List.forall_mem_cons] at h
    rw [readableMembers, h.1, ih h.2]
    rfl

/-- A plain value ends in its text, and all of it can be read. -/
theorem Plain.readable {v : Json} (h : v.Plain) : v.readable = true := by
  induction h with
  | array _ ih => rw [Json.readable, readableItems_of_forall ih, Bool.and_self]
  | object _ ih => rw [Json.readable, readableMembers_of_forall ih, Bool.and_self]
  | _ => rfl

/-- The encoder writes plain values, of each of which the decoder makes the datum again. -/
structure Restores {α : Type} (d : Decoder α) (encode : α → Json) : Prop where
  plain : ∀ a, (encode a).Plain
  decode : ∀ a, d (encode a) = .ok a

variable {α β κ : Type} {d : Decoder α} {encode : α → Json}

namespace Restores

theorem text : Restores Decoder.text .text := ⟨.text, fun _ => rfl⟩

theorem bool : Restores Decoder.bool .bool := ⟨.bool, fun _ => rfl⟩

theorem decode_option (h : Restores d encode) (hnull : ∀ a, encode a ≠ .null) (a : α) :
    Decoder.option d (encode a) = .ok (some a) := by
  unfold Decoder.option
  split
  · next heq => exact absurd heq (hnull a)
  · rw [h.decode]
    rfl

/-- What is missing is written as `null`. -/
theorem option {write : Option α → Json} (h : Restores d encode) (hnone : write none = .null)
    (hsome : ∀ a, write (some a) = encode a) (hnull : ∀ a, encode a ≠ .null) :
    Restores (Decoder.option d) write where
  plain o := by
    cases o with
    | none => rw [hnone]; exact .null
    | some a => rw [hsome]; exact h.plain a
  decode o := by
    cases o with
    | none => rw [hnone]; rfl
    | some a => rw [hsome]; exact h.decode_option hnull a

theorem list (h : Restores d encode) :
    Restores (Decoder.list d) fun as => .list (as.map encode) where
  plain as := by
    refine .array fun v hv => ?_
    obtain ⟨a, -, rfl⟩ := List.mem_map.mp hv
    exact h.plain a
  decode as := by
    have hitems : (as.map encode).mapM d = .ok as := mapM_map_ok fun a _ => h.decode a
    simp only [Decoder.list, Json.list, hitems]
    rfl

/-- A map is restored with its keys in their order. -/
theorem map [DecidableEq κ] {key : String → Option κ} {word : κ → String}
    (hkey : ∀ k, key (word k) = some k) (h : Restores d encode) :
    Restores (fun v => OrderedMap.ofList <$> Decoder.entries key d v)
      fun m => .record (m.toList.map fun e => (word e.1, encode e.2)) where
  plain m := by
    refine .object fun e he => ?_
    obtain ⟨e, -, rfl⟩ := List.mem_map.mp he
    exact h.plain e.2
  decode m := by
    have hentries : Decoder.entries key d
        (.record (m.toList.map fun e => (word e.1, encode e.2))) = .ok m.toList := by
      simp only [Decoder.entries, Json.record]
      rw [mapM_map_ok fun e _ => by simp only [hkey, h.decode]; rfl]
      rfl
    rw [hentries]
    exact congrArg Except.ok m.ofList_toList

end Restores

namespace Fields

/-- The members of a record that are not left out. -/
def present (slots : List (String × Option Json)) : List (String × Json) :=
  slots.filterMap fun s => s.2.map (s.1, ·)

/-- The fields are those of the slots, and make the datum of members that have in each slot what
stands there. -/
structure Takes (f : Fields α) (slots : List (String × Option Json)) (a : α) : Prop where
  names : f.names = slots.map Prod.fst
  plain : ∀ s ∈ slots, ∀ v, s.2 = some v → v.Plain
  read : ∀ ms, (∀ s ∈ slots, (find s.1 0 ms).map Prod.snd = s.2) → f.read ms = .ok a

variable {f : Fields (α → β)} {x : Fields α} {slots slots' : List (String × Option Json)}
  {g : α → β} {a : α} {name : String} {i : Nat} {ms : List (String × Json)}

namespace Takes

/-- A field with one member, which is written. -/
theorem written {v : Json} (hnames : x.names = [name]) (hplain : v.Plain)
    (hread : ∀ ms i, find name 0 ms = some (i, v) → x.read ms = .ok a) :
    x.Takes [(name, some v)] a where
  names := hnames
  plain := by
    simpa using hplain
  read ms hms := by
    obtain ⟨⟨i, w⟩, hfind, hw⟩ := Option.map_eq_some_iff.mp (hms _ List.mem_cons_self)
    cases hw
    exact hread ms i hfind

theorem required (name : String) (h : Restores d encode) (a : α) :
    (required name d).Takes [(name, some (encode a))] a := by
  refine written rfl (h.plain a) fun ms i hfind => ?_
  simp only [Fields.required, hfind, h.decode]
  rfl

theorem defaulted (name : String) (h : Restores d encode) (value a : α) :
    (defaulted name d value).Takes [(name, some (encode a))] a := by
  refine written rfl (h.plain a) fun ms i hfind => ?_
  simp only [Fields.defaulted, hfind, h.decode]
  rfl

/-- A member that is left out has its default. -/
theorem omitted (name : String) (d : Decoder α) (value : α) :
    (Fields.defaulted name d value).Takes [(name, none)] value where
  names := rfl
  plain := by
    simp
  read ms hms := by
    have hfind := Option.map_eq_none_iff.mp (hms _ List.mem_cons_self)
    simp only [Fields.defaulted, hfind]

/-- A member that is left out when there is nothing to write. -/
theorem optional (name : String) (h : Restores d encode) (hnull : ∀ a, encode a ≠ .null)
    (o : Option α) : (Fields.optional name d).Takes [(name, o.map encode)] o := by
  cases o with
  | none => exact omitted name d.option none
  | some a =>
    refine written rfl (h.plain a) fun ms i hfind => ?_
    simp only [Fields.optional, Fields.defaulted, hfind, h.decode_option hnull]
    rfl

theorem map (h : x.Takes slots a) (g : α → β) : (g <$> x).Takes slots (g a) where
  names := h.names
  plain := h.plain
  read ms hms := by
    change g <$> x.read ms = _
    rw [h.read ms hms]
    rfl

theorem seq (hf : f.Takes slots g) (hx : x.Takes slots' a) :
    (f <*> x).Takes (slots ++ slots') (g a) where
  names := by
    rw [List.map_append, ← hf.names, ← hx.names]
    rfl
  plain s hs := (List.mem_append.mp hs).elim (hf.plain s) (hx.plain s)
  read ms hms := by
    have hg := hf.read ms fun s hs => hms s (List.mem_append_left _ hs)
    have ha := hx.read ms fun s hs => hms s (List.mem_append_right _ hs)
    change (Fields.seq f x).read ms = _
    simp only [Fields.seq, hg, ha]

end Takes

/-! ## Whole records -/

theorem find_eq_none (h : name ∉ ms.map Prod.fst) : find name i ms = none := by
  induction ms generalizing i with
  | nil => rfl
  | cons m ms ih =>
    rw [List.map_cons, List.mem_cons, not_or] at h
    rw [find, if_neg (Ne.symm h.1), ih h.2]

theorem map_present_sublist (slots : List (String × Option Json)) :
    ((present slots).map Prod.fst).Sublist (slots.map Prod.fst) := by
  induction slots with
  | nil => exact .slnil
  | cons s slots ih =>
    obtain ⟨k, v⟩ := s
    cases v with
    | none => exact .cons k ih
    | some v => exact .cons_cons k ih

/-- A member is found in its slot. -/
theorem find_present {s : String × Option Json} (hdistinct : (slots.map Prod.fst).Nodup)
    (hs : s ∈ slots) : (find s.1 i (present slots)).map Prod.snd = s.2 := by
  induction slots generalizing i with
  | nil => cases hs
  | cons t slots ih =>
    rw [List.map_cons, List.nodup_cons] at hdistinct
    rcases List.mem_cons.mp hs with rfl | hrest
    · obtain ⟨k, v⟩ := s
      cases v with
      | none =>
        have hleft : k ∉ (present slots).map Prod.fst :=
          fun hk => hdistinct.1 ((map_present_sublist slots).subset hk)
        exact congrArg (Option.map Prod.snd) (find_eq_none hleft)
      | some v =>
        change (find k i ((k, v) :: present slots)).map Prod.snd = some v
        rw [find, if_pos rfl, Option.map_some]
    · have hne : t.1 ≠ s.1 := fun heq => hdistinct.1 (heq ▸ List.mem_map_of_mem hrest)
      obtain ⟨k, v⟩ := t
      cases v with
      | none => exact ih hdistinct.2 hrest
      | some v =>
        change (find s.1 i ((k, v) :: present slots)).map Prod.snd = s.2
        rw [find, if_neg hne, ih hdistinct.2 hrest]

theorem misplaced_eq_none {names seen : List String} (hnames : ∀ m ∈ ms, m.1 ∈ names)
    (hdistinct : (ms.map Prod.fst).Nodup) (hseen : ∀ m ∈ ms, m.1 ∉ seen) :
    misplaced names i seen ms = none := by
  induction ms generalizing i seen with
  | nil => rfl
  | cons m ms ih =>
    rw [List.forall_mem_cons] at hnames hseen
    rw [List.map_cons, List.nodup_cons] at hdistinct
    rw [misplaced, if_pos hnames.1, if_neg hseen.1]
    refine ih hnames.2 hdistinct.2 fun m' hm' => ?_
    rw [List.mem_cons, not_or]
    exact ⟨fun heq => hdistinct.1 (heq ▸ List.mem_map_of_mem hm'), hseen.2 m' hm'⟩

theorem Takes.of_mem_present {f : Fields α} (h : f.Takes slots a) {m : String × Json}
    (hm : m ∈ present slots) : m.1 ∈ f.names ∧ m.2.Plain := by
  constructor
  · rw [h.names]
    exact (map_present_sublist slots).subset (List.mem_map_of_mem hm)
  · obtain ⟨s, hs, hsome⟩ := List.mem_filterMap.mp hm
    obtain ⟨v, hv, rfl⟩ := Option.map_eq_some_iff.mp hsome
    exact h.plain s hs v hv

/-- Where no name comes twice, a record of the slots is decoded to what the fields make of them. -/
theorem Takes.decode {f : Fields α} (h : f.Takes slots a) (hdistinct : f.names.Nodup) :
    f.decoder (.record (present slots)) = .ok a := by
  have hslots : (slots.map Prod.fst).Nodup := h.names ▸ hdistinct
  have hread := h.read (present slots) fun s hs => find_present hslots hs
  have hmisplaced : misplaced f.names 0 [] (present slots) = none :=
    misplaced_eq_none (fun _ hm => (h.of_mem_present hm).1)
      ((map_present_sublist slots).nodup hslots) fun _ _ => List.not_mem_nil
  simp only [decoder, Json.record, hread, hmisplaced]
  rfl

/-- A record is restored when each of its fields takes what the encoder writes in its slot. -/
theorem restores {f : Fields α} {slots : α → List (String × Option Json)}
    (hdistinct : f.names.Nodup) (h : ∀ a, f.Takes (slots a) a)
    (hencode : ∀ a, encode a = .record (present (slots a))) : Restores f.decoder encode where
  plain a := by
    rw [hencode]
    exact .object fun m hm => ((h a).of_mem_present hm).2
  decode a := by
    rw [hencode]
    exact (h a).decode hdistinct

end Fields

end Ecoa.Json
