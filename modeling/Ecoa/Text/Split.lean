/-!
# Cutting and joining texts

Every function is given on characters first; the one on texts is its image. `fieldsOf` keeps
empty fields, so a text without the separator is its own single field.
-/

namespace Ecoa.Text

/-- The pieces between separators, empty pieces included. -/
def splitAll (sep : Char) : List Char → List (List Char)
  | [] => [[]]
  | c :: cs =>
    if c = sep then [] :: splitAll sep cs
    else match splitAll sep cs with
      | [] => [[c]]
      | w :: ws => (c :: w) :: ws

def fieldsOf (sep : Char) (s : String) : List String := (splitAll sep s.toList).map .ofList

/-- The pieces between separators of two equal characters, found from the left without overlap. -/
def splitDouble (sep : Char) : List Char → List (List Char)
  | [] => [[]]
  | [c] => [[c]]
  | c :: d :: cs =>
    if c = sep ∧ d = sep then [] :: splitDouble sep cs
    else match splitDouble sep (d :: cs) with
      | [] => [[c]]
      | w :: ws => (c :: w) :: ws

/-- What stands before and after the first separator. -/
def cutFirst (sep : Char) : List Char → Option (List Char × List Char)
  | [] => none
  | c :: cs => if c = sep then some ([], cs) else (cutFirst sep cs).map fun p => (c :: p.1, p.2)

/-- What stands between a first and a last character, when they are these two. -/
def between (first last : Char) (s : String) : Option String :=
  match s.toList with
  | [] => none
  | c :: cs => if c = first ∧ cs.getLast? = some last then some (.ofList cs.dropLast) else none

/-- What follows a leading character. -/
def after (first : Char) (s : String) : Option String :=
  match s.toList with
  | [] => none
  | c :: cs => if c = first then some (.ofList cs) else none

/-- Every character that satisfies `p` gives way to `new`. -/
def replaceIf (p : Char → Bool) (new : String) (s : String) : String :=
  .ofList (s.toList.flatMap fun c => if p c then new.toList else [c])

/-- The text without the characters that satisfy `p`. -/
def remove (p : Char → Bool) (s : String) : String := .ofList (s.toList.filter (!p ·))

def joinWith (sep : String) : List String → String
  | [] => ""
  | [s] => s
  | s :: t :: rest => s ++ sep ++ joinWith sep (t :: rest)

def lowerAscii (s : String) : String := .ofList (s.toList.map Char.toLower)

theorem splitAll_ne_nil (sep : Char) (cs : List Char) : splitAll sep cs ≠ [] := by
  cases cs with
  | nil => simp [splitAll]
  | cons c cs =>
    simp only [splitAll]
    split
    · simp
    · split <;> simp

theorem splitAll_of_not_mem {sep : Char} {cs : List Char} (h : sep ∉ cs) :
    splitAll sep cs = [cs] := by
  induction cs with
  | nil => rfl
  | cons c cs ih =>
    simp only [List.mem_cons, not_or] at h
    simp [splitAll, Ne.symm h.1, ih h.2]

theorem splitAll_append {sep : Char} {a b : List Char} (h : sep ∉ a) :
    splitAll sep (a ++ sep :: b) = a :: splitAll sep b := by
  induction a with
  | nil => simp [splitAll]
  | cons c a ih =>
    simp only [List.mem_cons, not_or] at h
    simp [splitAll, Ne.symm h.1, ih h.2]

/-- The first field ends at the first separator. -/
theorem fieldsOf_append {sep : Char} {s t : String} (hs : sep ∉ s.toList) :
    fieldsOf sep (s ++ String.singleton sep ++ t) = s :: fieldsOf sep t := by
  simp [fieldsOf, splitAll_append hs]

/-- A text of two fields without the separator. -/
theorem fieldsOf_pair {sep : Char} {s t : String} (hs : sep ∉ s.toList) (ht : sep ∉ t.toList) :
    fieldsOf sep (s ++ String.singleton sep ++ t) = [s, t] := by
  rw [fieldsOf_append hs, fieldsOf, splitAll_of_not_mem ht, List.map_singleton,
    String.ofList_toList]

theorem cutFirst_eq_none_iff {sep : Char} {cs : List Char} : cutFirst sep cs = none ↔ sep ∉ cs := by
  induction cs with
  | nil => simp [cutFirst]
  | cons c cs ih =>
    by_cases h : c = sep
    · simp [cutFirst, h]
    · simp [cutFirst, h, ih, Ne.symm h]

theorem cutFirst_append {sep : Char} {a b : List Char} (h : sep ∉ a) :
    cutFirst sep (a ++ sep :: b) = some (a, b) := by
  induction a with
  | nil => simp [cutFirst]
  | cons c a ih =>
    simp only [List.mem_cons, not_or] at h
    simp [cutFirst, Ne.symm h.1, ih h.2]

theorem cutFirst_eq_some_iff {sep : Char} {cs a b : List Char} :
    cutFirst sep cs = some (a, b) ↔ cs = a ++ sep :: b ∧ sep ∉ a := by
  constructor
  · intro h
    induction cs generalizing a with
    | nil => cases h
    | cons c cs ih =>
      rw [cutFirst] at h
      split at h
      · next hsep =>
        cases h
        exact ⟨by rw [hsep, List.nil_append], List.not_mem_nil⟩
      · next hsep =>
        obtain ⟨⟨a, b⟩, hrest, ⟨⟩⟩ := Option.map_eq_some_iff.mp h
        obtain ⟨rfl, hmem⟩ := ih hrest
        exact ⟨rfl, List.not_mem_cons_of_ne_of_not_mem (Ne.symm hsep) hmem⟩
  · rintro ⟨rfl, h⟩
    exact cutFirst_append h

/-- Fields that are joined with the separator come apart again. -/
theorem fieldsOf_joinWith {sep : Char} {fields : List String} (hne : fields ≠ [])
    (h : ∀ field ∈ fields, sep ∉ field.toList) :
    fieldsOf sep (joinWith (String.singleton sep) fields) = fields := by
  fun_induction joinWith (String.singleton sep) fields with
  | case1 => exact absurd rfl hne
  | case2 s => simp [fieldsOf, splitAll_of_not_mem (h s List.mem_cons_self)]
  | case3 s t rest ih =>
    rw [List.forall_mem_cons] at h
    have hrest := ih (List.cons_ne_nil t rest) h.2
    rw [fieldsOf_append h.1, hrest]

theorem between_eq_some_iff {first last : Char} {s inner : String} :
    between first last s = some inner ↔ s.toList = first :: inner.toList ++ [last] := by
  unfold between
  cases s.toList with
  | nil => simp
  | cons c cs =>
    dsimp only
    constructor
    · intro h
      split at h
      · next hends =>
        obtain ⟨rest, rfl⟩ := List.getLast?_eq_some_iff.mp hends.2
        cases h
        simp [hends.1]
      · cases h
    · intro h
      obtain ⟨rfl, rfl⟩ := List.cons.inj h
      simp

/-- The same as an equation of texts. -/
theorem between_eq_some_iff_eq {first last : Char} {s inner : String} :
    between first last s = some inner ↔
      s = String.singleton first ++ inner ++ String.singleton last := by
  rw [between_eq_some_iff, ← String.toList_inj]
  simp

/-- What has none of the characters loses none. -/
theorem remove_eq_self {p : Char → Bool} {s : String} (h : ∀ c ∈ s.toList, p c = false) :
    remove p s = s := by
  have hall : s.toList.filter (!p ·) = s.toList := by
    rw [List.filter_eq_self]
    intro c hc
    rw [h c hc, Bool.not_false]
  rw [remove, hall, String.ofList_toList]

theorem toList_replaceIf {p : Char → Bool} {new s : String} : (replaceIf p new s).toList =
    s.toList.flatMap fun c => if p c then new.toList else [c] := String.toList_ofList

theorem replaceIf_eq_self {p : Char → Bool} {new s : String} (h : ∀ c ∈ s.toList, p c = false) :
    replaceIf p new s = s := by
  have hkeep : s.toList.map (fun c => if p c then new.toList else [c]) = s.toList.map ([·]) := by
    refine List.map_congr_left fun c hc => ?_
    rw [h c hc]
    rfl
  rw [replaceIf, List.flatMap_def, hkeep, ← List.flatMap_def, List.flatMap_singleton',
    String.ofList_toList]

example : fieldsOf ':' "a::b" = ["a", "", "b"] := by decide
example : splitDouble '_' "a____b".toList = ["a".toList, [], "b".toList] := by decide
example : between '"' '"' "\"" = none := by decide

end Ecoa.Text
