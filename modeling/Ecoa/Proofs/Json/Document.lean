import Ecoa.Json.Document
import Ecoa.Proofs.Json.Scan

/-!
# Reading a written value

The reader makes a plain value of its tokens again, whatever is open around it.
-/

namespace Ecoa.Json.Document

variable {stack : List Frame}

/-- The reader that waits for a value comes to stand after this one. -/
def Reads (v : Json) : Prop := ∀ stack, v.tokens.foldl step (.value stack) = .after stack v

/-- The first item of an array is read as any value. -/
theorem foldl_firstItem (v : Json) (stack : List Frame) :
    v.tokens.foldl step (.firstItem stack) = v.tokens.foldl step (.value (.array [] :: stack)) := by
  cases v with
  | array items closed => cases items <;> rfl
  | object members closed => cases members <;> rfl
  | _ => rfl

theorem foldl_itemTokens {items : List Json} (h : ∀ v ∈ items, Reads v) (done : List Json)
    (v : Json) : (itemTokens items).foldl step (.after (.array done :: stack) v) =
      .after stack (.array (done.reverse ++ v :: items) true) := by
  induction items generalizing done v with
  | nil => simp [itemTokens, step, afterValue]
  | cons w items ih =>
    rw [List.forall_mem_cons] at h
    have hcomma : step (.after (.array done :: stack) v) .comma =
        .value (.array (v :: done) :: stack) := rfl
    rw [itemTokens, List.foldl_cons, hcomma, List.foldl_append, h.1, ih h.2]
    simp

theorem foldl_memberTokens {members : List (String × Json)} (h : ∀ m ∈ members, Reads m.2)
    (done : List (String × Json)) (k : String) (v : Json) :
    (memberTokens members).foldl step (.after (.object done k :: stack) v) =
      .after stack (.object (done.reverse ++ (k, v) :: members) true) := by
  induction members generalizing done k v with
  | nil => simp [memberTokens, step, afterValue]
  | cons m members ih =>
    rw [List.forall_mem_cons] at h
    have hcomma : step (.after (.object done k :: stack) v) .comma = .key stack ((k, v) :: done) :=
      rfl
    have hkey : step (.key stack ((k, v) :: done)) (.scalar (.text m.1)) =
        .colon stack ((k, v) :: done) m.1 := rfl
    have hcolon : step (.colon stack ((k, v) :: done) m.1) .colon =
        .value (.object ((k, v) :: done) m.1 :: stack) := rfl
    rw [memberTokens, List.foldl_cons, hcomma, List.foldl_cons, hkey, List.foldl_cons, hcolon,
      List.foldl_append, h.1, ih h.2]
    simp

end Ecoa.Json.Document

namespace Ecoa.Json

theorem Plain.reads {v : Json} (h : v.Plain) : Document.Reads v := by
  intro stack
  induction h generalizing stack with
  | null => rfl
  | bool b => rfl
  | int h => rfl
  | text s => rfl
  | @array items _ ih =>
    cases items with
    | nil => rfl
    | cons v items =>
      rw [List.forall_mem_cons] at ih
      have hopen : Document.step (.value stack) .openArray = .firstItem stack := rfl
      rw [tokens, List.foldl_cons, hopen, List.foldl_append, Document.foldl_firstItem, ih.1,
        Document.foldl_itemTokens ih.2]
      rfl
  | @object members _ ih =>
    cases members with
    | nil => rfl
    | cons m members =>
      rw [List.forall_mem_cons] at ih
      have hopen : Document.step (.value stack) .openObject = .firstKey stack := rfl
      have hkey : Document.step (.firstKey stack) (.scalar (.text m.1)) = .colon stack [] m.1 := rfl
      have hcolon : Document.step (.colon stack [] m.1) .colon =
          .value (.object [] m.1 :: stack) := rfl
      rw [tokens, List.foldl_cons, hopen, List.foldl_cons, hkey, List.foldl_cons, hcolon,
        List.foldl_append, ih.1, Document.foldl_memberTokens ih.2]
      rfl

/-- A plain value is read back from its text. -/
theorem Plain.read_compact {v : Json} (h : v.Plain) : Document.read v.compact = ⟨v, true⟩ := by
  rw [Document.read, h.scan_compact, Document.ofTokens, h.reads]
  rfl

end Ecoa.Json
