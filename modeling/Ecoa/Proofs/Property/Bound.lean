import Mathlib.Data.List.Perm.Subperm
import Mathlib.Data.Nat.Find
import Ecoa.Property.Check
import Ecoa.Proofs.Except
import Ecoa.Proofs.Type.Lookup

/-!
# Bounds of arrays

The bound of an array is a number or leads to one through constants. `Denotes` follows the
constants, with a parameter for the library in which the value of each is read. The check of
properties reads all of them in the library of the array; `ReadsAlike` tells when this is the number
that is reached where each constant is read in its own library, as the order of declarations reads
it.
-/

namespace Ecoa.TypeRegistry

/-- The text, read in the library, is no number but stands for the constant `t` with this value. -/
def Refers (r : TypeRegistry) (library text : String) (t : TypeName) (value : String) : Prop :=
  parseSize? (Text.trim text) = none ∧
    ∃ reference, constantReference? text = some reference ∧
      r.resolveFrom reference library "" = .ok t ∧ (r.declaration? t).bind (·.value?) = some value

/-- The number to which a text leads through constants, the value of each of which is read in the
library that `home` tells. -/
inductive Denotes (r : TypeRegistry) (home : TypeName → String) : String → String → Nat → Prop
  | number {library text : String} {n : Nat} (h : parseSize? (Text.trim text) = some n) :
    Denotes r home library text n
  | constant {library text value : String} {t : TypeName} {n : Nat}
    (h : r.Refers library text t value) (hvalue : Denotes r home (home t) value n) :
    Denotes r home library text n

/-- Read in this library all along, the text leads through the constant `t` with this value. -/
inductive LeadsTo (r : TypeRegistry) (library : String) : String → TypeName → String → Prop
  | here {text value : String} {t : TypeName} (h : r.Refers library text t value) :
    LeadsTo r library text t value
  | later {text value value' : String} {t t' : TypeName} (h : r.Refers library text t value)
    (hvalue : LeadsTo r library value t' value') : LeadsTo r library text t' value'

/-- Each constant through which a text leads is read in its own library as in that of the text. -/
def ReadsAlike (r : TypeRegistry) (library text : String) : Prop :=
  ∀ t value, r.LeadsTo library text t value →
    ∀ t' value', r.Refers t.library value t' value' ↔ r.Refers library value t' value'

variable {r : TypeRegistry} {library text value : String} {t : TypeName} {n k : Nat}

/-- A text stands for one constant. -/
theorem Refers.unique {t' : TypeName} {value' : String} (h : r.Refers library text t value)
    (h' : r.Refers library text t' value') : t = t' ∧ value = value' := by
  obtain ⟨-, reference, hreference, ht, hvalue⟩ := h
  obtain ⟨-, reference', hreference', ht', hvalue'⟩ := h'
  cases hreference.symm.trans hreference'
  cases ht.symm.trans ht'
  exact ⟨rfl, Option.some.inj (hvalue.symm.trans hvalue')⟩

theorem not_refers_of_number {m : Nat} (hnumber : parseSize? (Text.trim text) = some m) :
    ¬ r.Refers library text t value :=
  fun h => nomatch hnumber.symm.trans h.1

/-- A text leads to one number at most. -/
theorem Denotes.unique {home : TypeName → String} {n' : Nat} (h : r.Denotes home library text n)
    (h' : r.Denotes home library text n') : n = n' := by
  induction h with
  | number hnumber =>
    cases h' with
    | number hnumber' => exact Option.some.inj (hnumber.symm.trans hnumber')
    | constant hrefers' _ => exact absurd hrefers' (not_refers_of_number hnumber)
  | constant hrefers _ ih =>
    cases h' with
    | number hnumber' => exact absurd hrefers (not_refers_of_number hnumber')
    | constant hrefers' hvalue' =>
      obtain ⟨rfl, rfl⟩ := hrefers.unique hrefers'
      exact ih hvalue'

/-! ## With a bound on the constants -/

/-- What one step of the check does. -/
theorem numberWithin_succ_eq_some_iff :
    r.numberWithin library (k + 1) text = some n ↔ parseSize? (Text.trim text) = some n ∨
      ∃ t value, r.Refers library text t value ∧ r.numberWithin library k value = some n := by
  conv_lhs => unfold numberWithin
  cases hnumber : parseSize? (Text.trim text) with
  | some n' => simp [Refers, hnumber]
  | none =>
    cases hreference : constantReference? text with
    | none => simp [Refers, hreference]
    | some reference =>
      cases ht : r.resolveFrom reference library "" with
      | error e => simp [Refers, hreference, ht]
      | ok t =>
        cases hvalue : (r.declaration? t).bind (·.value?) with
        | none => simp [Refers, hreference, ht, hvalue]
        | some value => simp [Refers, hnumber, hreference, ht, hvalue]

theorem numberWithin_mono {k' : Nat} (h : r.numberWithin library k text = some n) (hle : k ≤ k') :
    r.numberWithin library k' text = some n := by
  induction k generalizing k' text with
  | zero => cases h
  | succ k ih =>
    obtain ⟨k', rfl⟩ := Nat.exists_eq_add_of_le' (Nat.one_le_of_lt hle)
    rw [numberWithin_succ_eq_some_iff] at h ⊢
    rcases h with hnumber | ⟨t, value, hrefers, hvalue⟩
    · exact .inl hnumber
    · exact .inr ⟨t, value, hrefers, ih hvalue (Nat.le_of_succ_le_succ hle)⟩

theorem exists_numberWithin_iff : (∃ k, r.numberWithin library k text = some n) ↔
    r.Denotes (fun _ => library) library text n := by
  constructor
  · rintro ⟨k, h⟩
    induction k generalizing text with
    | zero => cases h
    | succ k ih =>
      rcases numberWithin_succ_eq_some_iff.mp h with hnumber | ⟨t, value, hrefers, hvalue⟩
      · exact .number hnumber
      · exact .constant hrefers (ih hvalue)
  · have loop : ∀ place text, r.Denotes (fun _ => library) place text n → place = library →
        ∃ k, r.numberWithin library k text = some n := by
      intro place text h
      induction h with
      | number hnumber => exact fun _ => ⟨1, numberWithin_succ_eq_some_iff.mpr (.inl hnumber)⟩
      | constant hrefers _ ih =>
        rintro rfl
        obtain ⟨k, hk⟩ := ih rfl
        exact ⟨k + 1, numberWithin_succ_eq_some_iff.mpr (.inr ⟨_, _, hrefers, hk⟩)⟩
    exact fun h => loop library text h rfl

/-! ## Why the bound is large enough -/

/-- Through exactly `k` constants, the text leads to a number. -/
def EndsAfter (r : TypeRegistry) (library : String) (k : Nat) (text : String) (n : Nat) : Prop :=
  r.numberWithin library (k + 1) text = some n ∧ r.numberWithin library k text = none

theorem EndsAfter.unique {k' n' : Nat} (h : r.EndsAfter library k text n)
    (h' : r.EndsAfter library k' text n') : k = k' := by
  rcases Nat.lt_trichotomy k k' with hlt | heq | hgt
  · cases (numberWithin_mono h.1 hlt).symm.trans h'.2
  · exact heq
  · cases (numberWithin_mono h'.1 hgt).symm.trans h.2

/-- No constant comes twice on the way to a number, as the way from it on would be longer than
itself. -/
theorem EndsAfter.exists_constants (h : r.EndsAfter library k text n) :
    ∃ ts : List TypeName, ts.length = k ∧ ts.Nodup ∧ ∀ t ∈ ts,
      ∃ value j, (r.declaration? t).bind (·.value?) = some value ∧ j < k ∧
        r.EndsAfter library j value n := by
  induction k generalizing text with
  | zero => exact ⟨[], rfl, .nil, nofun⟩
  | succ k ih =>
    obtain ⟨hends, hearly⟩ := h
    rcases numberWithin_succ_eq_some_iff.mp hends with hnumber | ⟨t, value, hrefers, hvalue⟩
    · cases hearly.symm.trans (numberWithin_succ_eq_some_iff.mpr (.inl hnumber))
    · have hend : r.EndsAfter library k value n := by
        refine ⟨hvalue, Option.eq_none_iff_forall_ne_some.mpr fun n' hn' => ?_⟩
        cases hearly.symm.trans (numberWithin_succ_eq_some_iff.mpr (.inr ⟨t, value, hrefers, hn'⟩))
      obtain ⟨ts, hlength, hnodup, hall⟩ := ih hend
      obtain ⟨-, reference, -, -, hdeclared⟩ := hrefers
      have hnew : t ∉ ts := by
        intro ht
        obtain ⟨value', j, hdeclared', hj, hend'⟩ := hall t ht
        cases hdeclared.symm.trans hdeclared'
        exact absurd (hend.unique hend') (Nat.ne_of_gt hj)
      refine ⟨t :: ts, by rw [List.length_cons, hlength], List.nodup_cons.mpr ⟨hnew, hnodup⟩, ?_⟩
      rw [List.forall_mem_cons]
      refine ⟨⟨value, k, hdeclared, Nat.lt_succ_self k, hend⟩, fun t' ht' => ?_⟩
      obtain ⟨value', j, hdeclared', hj, hend'⟩ := hall t' ht'
      exact ⟨value', j, hdeclared', Nat.lt_succ_of_lt hj, hend'⟩

/-- As many steps as there are types lead to the number, if there is one. -/
theorem number?_eq_some_iff :
    r.number? library text = some n ↔ r.Denotes (fun _ => library) library text n := by
  rw [← exists_numberWithin_iff, number?]
  refine ⟨fun h => ⟨_, h⟩, fun hexists => ?_⟩
  -- the least number of steps that lead to the number is one more than that of the constants
  cases hleast : Nat.find hexists with
  | zero =>
    have hzero := Nat.find_spec hexists
    rw [hleast] at hzero
    cases hzero
  | succ k =>
    have hk := Nat.find_spec hexists
    rw [hleast] at hk
    have hends : r.EndsAfter library k text n := by
      refine ⟨hk, Option.eq_none_iff_forall_ne_some.mpr fun n' hn' => ?_⟩
      cases (numberWithin_mono hn' (Nat.le_succ k)).symm.trans hk
      exact Nat.find_min hexists (by rw [hleast]; exact Nat.lt_succ_self k) hn'
    obtain ⟨ts, hlength, hnodup, hall⟩ := hends.exists_constants
    have hnames : ts ⊆ r.names := by
      intro t ht
      obtain ⟨value, -, hdeclared, -⟩ := hall t ht
      obtain ⟨d, hd, -⟩ := Option.bind_eq_some_iff.mp hdeclared
      exact mem_names_of_declaration? hd
    have hle : k ≤ r.size := by
      rw [← hlength, ← length_names]
      exact (hnodup.subperm hnames).length_le
    exact numberWithin_mono hk (Nat.succ_le_succ hle)

/-! ## In the library of each constant -/

theorem ReadsAlike.later (h : r.ReadsAlike library text) (hrefers : r.Refers library text t value) :
    r.ReadsAlike library value :=
  fun t' value' hleads => h t' value' (.later hrefers hleads)

/-- Only what a text itself refers to is read in the library of the text. -/
theorem Denotes.congr {home : TypeName → String} {library' : String}
    (hrefers : ∀ t value, r.Refers library text t value → r.Refers library' text t value)
    (h : r.Denotes home library text n) : r.Denotes home library' text n := by
  cases h with
  | number hnumber => exact .number hnumber
  | constant hconstant hvalue => exact .constant (hrefers _ _ hconstant) hvalue

/-- Where all constants on the way are read alike, it leads to the same number. -/
theorem denotes_iff_of_readsAlike (h : r.ReadsAlike library text) :
    r.Denotes (fun _ => library) library text n ↔ r.Denotes TypeName.library library text n := by
  constructor
  · have loop : ∀ place text, r.Denotes (fun _ => library) place text n → place = library →
        r.ReadsAlike library text → r.Denotes TypeName.library library text n := by
      intro place text hdenotes
      induction hdenotes with
      | number hnumber => exact fun _ _ => .number hnumber
      | constant hrefers _ ih =>
        rintro rfl halike
        have hvalue := ih rfl (halike.later hrefers)
        exact .constant hrefers (hvalue.congr fun t' value' =>
          (halike _ _ (.here hrefers) t' value').mpr)
    exact fun hdenotes => loop library text hdenotes rfl h
  · have loop : ∀ place text, r.Denotes TypeName.library place text n →
        (∀ t value, r.Refers place text t value → r.Refers library text t value) →
          r.ReadsAlike library text → r.Denotes (fun _ => library) library text n := by
      intro place text hdenotes
      induction hdenotes with
      | number hnumber => exact fun _ _ => .number hnumber
      | constant hrefers _ ih =>
        intro hsame halike
        have hhere := hsame _ _ hrefers
        exact .constant hhere (ih (fun t' value' => (halike _ _ (.here hhere) t' value').mp)
          (halike.later hhere))
    exact fun hdenotes => loop library text hdenotes (fun _ _ => id) h

end Ecoa.TypeRegistry

namespace Ecoa.Property

/-- So many elements are as many as the type of the property admits with this bound. -/
def Admits (p : Property) (length max : Nat) : Prop :=
  (p.category = .array → length ≤ max) ∧ (p.category = .fixedArray → length = max)

variable {p : Property} {r : TypeRegistry} {place : String} {length : Nat}

theorem checkLength_ok_iff_number? : p.checkLength r place length = .ok () ↔
    ∃ max, r.number? p.type.library p.bound = some max ∧ p.Admits length max := by
  unfold checkLength
  cases r.number? p.type.library p.bound with
  | none => simp
  | some max =>
    simp only [Option.some.injEq, exists_eq_left', Admits]
    split
    · next h => simp [h.1, Nat.not_le.mpr h.2]
    · next h =>
      split
      · next h' => simp [h'.1, h'.2]
      · next h' =>
        refine iff_of_true rfl ⟨fun harray => Nat.not_lt.mp fun hlt => h ⟨harray, hlt⟩, ?_⟩
        exact fun hfixed => Classical.byContradiction fun hne => h' ⟨hfixed, hne⟩

/-- A value is as long as the number admits to which the bound of its type leads, with all constants
on the way read in the library of the type; where these are read alike in their own libraries, this
is the number to which they lead there. -/
theorem checkLength_ok_iff :
    (p.checkLength r place length = .ok () ↔ ∃ max,
      r.Denotes (fun _ => p.type.library) p.type.library p.bound max ∧ p.Admits length max) ∧
    (r.ReadsAlike p.type.library p.bound → (p.checkLength r place length = .ok () ↔ ∃ max,
      r.Denotes TypeName.library p.type.library p.bound max ∧ p.Admits length max)) := by
  simp only [checkLength_ok_iff_number?, TypeRegistry.number?_eq_some_iff, true_and]
  intro halike
  simp only [TypeRegistry.denotes_iff_of_readsAlike halike]

/-! ## Constants of two libraries -/

/-- Both libraries declare `LEN`, to which `POINTS` of `geo` refers. -/
def crossingRegistry : TypeRegistry where
  libraries := .ofList [
    ("geo", [.constant "LEN" "ECOA:uint32" "3", .constant "POINTS" "ECOA:uint32" "%LEN%"]),
    ("nav", [.constant "LEN" "ECOA:uint32" "5", .fixedArray "Track" "ECOA:int32" "%geo:POINTS%",
      .fixedArray "Path" "ECOA:int32" "%geo:LEN%"])]

/-- A property of a fixed array in `nav` with this bound. -/
def boundedProperty (name bound : String) : Property where
  scope := ⟨"C", "Tracker_t", "Tracker", .c⟩
  name := "track"
  type := ⟨"nav", name⟩
  category := .fixedArray
  item := some ⟨.standard "int32", .simple⟩
  maxNumber := some bound
  labels := []
  values := ∅

theorem crossingRegistry_refers_len :
    crossingRegistry.Refers "nav" "%geo:LEN%" ⟨"geo", "LEN"⟩ "3" :=
  ⟨by decide +kernel, "geo:LEN", by decide +kernel, rfl, rfl⟩

/-- A number is read alike in all libraries. -/
theorem crossingRegistry_readsAlike_len : crossingRegistry.ReadsAlike "nav" "%geo:LEN%" := by
  have hnumber : parseSize? (Text.trim "3") = some 3 := by decide +kernel
  intro t value hleads
  cases hleads with
  | here hrefers =>
    obtain ⟨-, rfl⟩ := hrefers.unique crossingRegistry_refers_len
    exact fun _ _ => iff_of_false (TypeRegistry.not_refers_of_number hnumber)
      (TypeRegistry.not_refers_of_number hnumber)
  | later hrefers hvalue =>
    obtain ⟨-, rfl⟩ := hrefers.unique crossingRegistry_refers_len
    cases hvalue with
    | here hthree => exact absurd hthree (TypeRegistry.not_refers_of_number hnumber)
    | later hthree _ => exact absurd hthree (TypeRegistry.not_refers_of_number hnumber)

theorem checkLength_ok_iff_crossingRegistry :
    crossingRegistry.ReadsAlike "nav" "%geo:LEN%" ∧
      (boundedProperty "Path" "%geo:LEN%").checkLength crossingRegistry "C:M1:path" 3 = .ok () := by
  refine ⟨crossingRegistry_readsAlike_len,
    (checkLength_ok_iff.2 crossingRegistry_readsAlike_len).mpr ⟨3, ?_, nofun, fun _ => rfl⟩⟩
  exact .constant crossingRegistry_refers_len (.number (by decide +kernel))

theorem crossingRegistry_denotes_points :
    crossingRegistry.Denotes TypeName.library "nav" "%geo:POINTS%" 3 := by
  have hpoints : crossingRegistry.Refers "nav" "%geo:POINTS%" ⟨"geo", "POINTS"⟩ "%LEN%" :=
    ⟨by decide +kernel, "geo:POINTS", by decide +kernel, rfl, rfl⟩
  have hlen : crossingRegistry.Refers "geo" "%LEN%" ⟨"geo", "LEN"⟩ "3" :=
    ⟨by decide +kernel, "LEN", by decide +kernel, rfl, rfl⟩
  exact .constant hpoints (.constant hlen (.number (by decide +kernel)))

/-- Read in their own libraries, the constants lead to three. The check reads `LEN` in the library
of the array: it sees five in `nav` and three in `geo`, and admits five elements in `nav`. -/
theorem checkLength_crossingRegistry :
    crossingRegistry.Denotes TypeName.library "nav" "%geo:POINTS%" 3 ∧
      ¬ crossingRegistry.Denotes TypeName.library "nav" "%geo:POINTS%" 5 ∧
      crossingRegistry.number? "nav" "%geo:POINTS%" = some 5 ∧
      crossingRegistry.number? "geo" "%geo:POINTS%" = some 3 ∧
      (boundedProperty "Track" "%geo:POINTS%").checkLength crossingRegistry "C:M1:track" 5 =
        .ok () := by
  refine ⟨crossingRegistry_denotes_points, fun h => ?_, by decide +kernel, by decide +kernel, rfl⟩
  cases crossingRegistry_denotes_points.unique h

end Ecoa.Property
