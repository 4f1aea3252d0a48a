import Mathlib.Data.List.TakeWhile
import Ecoa.Json.Printer
import Ecoa.Json.Token

/-!
# Scanning a written value

The text of a plain value is cut into the tokens of the value again. A number alone does not know
where it ends: `Token.Gives` says of a state of the scan which tokens it stands for once the text
ends or goes on with a comma or a closing bracket.
-/

namespace Ecoa.Json

/-- A value that a text can hold: everything in it is closed, and its numbers are finite doubles. -/
inductive Plain : Json → Prop
  | null : Plain .null
  | bool (b : Bool) : Plain (.bool b)
  | int {n : Int} (h : n.natAbs < Token.doubleLimit) : Plain (.int n)
  | text (s : String) : Plain (.text s)
  | array {items : List Json} (h : ∀ v ∈ items, Plain v) : Plain (.array items true)
  | object {members : List (String × Json)} (h : ∀ m ∈ members, Plain m.2) :
    Plain (.object members true)

mutual

/-- The tokens of a value, as they are written. -/
def tokens : Json → List Token
  | .array [] _ => [.openArray, .closeArray]
  | .array (v :: vs) _ => .openArray :: (v.tokens ++ itemTokens vs)
  | .object [] _ => [.openObject, .closeObject]
  | .object ((k, v) :: ms) _ =>
    .openObject :: .scalar (.text k) :: .colon :: (v.tokens ++ memberTokens ms)
  | v => [.scalar v]

/-- The tokens of the items after the first, with the closing bracket. -/
def itemTokens : List Json → List Token
  | [] => [.closeArray]
  | v :: vs => .comma :: (v.tokens ++ itemTokens vs)

/-- The tokens of the members after the first, with the closing brace. -/
def memberTokens : List (String × Json) → List Token
  | [] => [.closeObject]
  | (k, v) :: ms => .comma :: .scalar (.text k) :: .colon :: (v.tokens ++ memberTokens ms)

end

namespace Token

/-- The tokens for which a state of the scan stands, whether the text ends there or a comma or a
closing bracket follows. -/
structure Gives (state : Mode × List Token) (out : List Token) : Prop where
  finish : finish state = out
  step : ∀ c, c = ',' ∨ c = ']' ∨ c = '}' → step state c = begin out c

variable {out : List Token} {seen cs : List Char} {c : Char} {m : Nat} {n : Int}

theorem gives_between : Gives (.between, out) out := ⟨rfl, fun _ _ => rfl⟩

/-! ## Texts -/

theorem hexDigit?_hexDigit {d : Nat} (h : d < 16) : hexDigit? (hexDigit d) = some d := by
  have hall : ∀ d < 16, hexDigit? (hexDigit d) = some d := by decide
  exact hall d h

/-- A character of a text is read back from its escape. -/
theorem foldl_escapeChar (seen : List Char) (out : List Token) (c : Char) :
    (escapeChar c).foldl step (.text seen true, out) = (.text (c :: seen) true, out) := by
  by_cases hquote : c = '"'
  · subst hquote; rfl
  by_cases hslash : c = '\\'
  · subst hslash; rfl
  by_cases hb : c = '\x08'
  · subst hb; rfl
  by_cases hf : c = '\x0c'
  · subst hf; rfl
  by_cases hn : c = '\n'
  · subst hn; rfl
  by_cases hr : c = '\r'
  · subst hr; rfl
  by_cases ht : c = '\t'
  · subst ht; rfl
  by_cases hcontrol : c.toNat < 0x20
  · have hupper := hexDigit?_hexDigit (d := c.toNat / 16) (by omega)
    have hlower := hexDigit?_hexDigit (d := c.toNat % 16) (by omega)
    have hnumber : 16 * (c.toNat / 16) + c.toNat % 16 = c.toNat := by omega
    have hzero : hexDigit? '0' = some 0 := rfl
    have hafter : afterHex seen true none c.toNat = .text (c :: seen) true := by
      rw [afterHex, if_neg (by omega), if_neg (by omega), Char.ofNat_toNat]
    simp [escapeChar, hquote, hslash, hb, hf, hn, hr, ht, hcontrol, step, inText, inEscape, hzero,
      hupper, hlower, hnumber, hafter]
  · simp [escapeChar, hquote, hslash, hb, hf, hn, hr, ht, hcontrol, step, inText]

theorem foldl_escapeChars (seen cs : List Char) (out : List Token) :
    (cs.flatMap escapeChar).foldl step (.text seen true, out) =
      (.text (cs.reverse ++ seen) true, out) := by
  induction cs generalizing seen with
  | nil => rfl
  | cons c cs ih =>
    rw [List.flatMap_cons, List.foldl_append, foldl_escapeChar, ih, List.reverse_cons,
      List.append_assoc, List.singleton_append]

theorem foldl_quoted (s : String) (out : List Token) :
    (quoted s).foldl step (.between, out) = (.between, .scalar (.text s) :: out) := by
  have hopen : step (.between, out) '"' = (.text [] true, out) := rfl
  rw [quoted, List.foldl_cons, hopen, List.foldl_append, foldl_escapeChars]
  simp [step, inText]

/-! ## Numbers -/

theorem ofDigits_toDigits (m : Nat) : ofDigits (Nat.toDigits 10 m) = m := by
  rw [ofDigits, ← Nat.ofDigitChars_eq_foldl]
  exact Nat.ofDigitChars_ten_toDigits

theorem isDigit_of_mem_toDigits (h : c ∈ Nat.toDigits 10 m) : c.isDigit = true :=
  Nat.isDigit_of_mem_toDigits (by omega) (by omega) h

/-- A number that is not zero is written without a leading zero. -/
theorem toDigits_eq_cons (h : 0 < m) :
    ∃ c cs, Nat.toDigits 10 m = c :: cs ∧ c ≠ '0' := by
  induction m using Nat.strongRecOn with
  | ind m ih =>
    by_cases hlt : m < 10
    · have hall : ∀ d < 10, 0 < d → d.digitChar ≠ '0' := by decide
      exact ⟨m.digitChar, [], Nat.toDigits_of_lt_base hlt, hall m hlt h⟩
    · obtain ⟨c, cs, hcs, hc⟩ := ih (m / 10) (by omega) (by omega)
      refine ⟨c, cs ++ [(m % 10).digitChar], ?_, hc⟩
      rw [Nat.toDigits_of_base_le (by omega) (by omega), hcs, List.cons_append]

theorem foldl_digits (h : ∀ c ∈ cs, c.isDigit = true) :
    cs.foldl step (.number .whole seen, out) = (.number .whole (cs.reverse ++ seen), out) := by
  induction cs generalizing seen with
  | nil => rfl
  | cons c cs ih =>
    rw [List.forall_mem_cons] at h
    have hstep : step (.number .whole seen, out) c = (.number .whole (c :: seen), out) := by
      simp [step, Stage.step, h.1]
    rw [List.foldl_cons, hstep, ih h.2, List.reverse_cons, List.append_assoc,
      List.singleton_append]

theorem begin_digit (h : c.isDigit = true) (hzero : c ≠ '0') :
    begin out c = (.number .whole [c], out) := by
  unfold begin
  split
  all_goals first | exact absurd h (by decide) | exact absurd rfl hzero | exact if_pos h

theorem gives_number {stage : Stage} (h : stage = .zero ∨ stage = .whole) :
    Gives (.number stage seen, out) (.scalar (numberValue seen.reverse) :: out) := by
  have hseparator : ∀ c, c = ',' ∨ c = ']' ∨ c = '}' → stage.step c = none := by
    rcases h with rfl | rfl
    · rintro c (rfl | rfl | rfl) <;> rfl
    · rintro c (rfl | rfl | rfl) <;> rfl
  have hfinal : stage.final = true := by
    rcases h with rfl | rfl <;> rfl
  exact ⟨by simp [finish, hfinal], fun c hc => by simp [step, hseparator c hc]⟩

theorem takeWhile_toDigits (m : Nat) :
    (Nat.toDigits 10 m).takeWhile Char.isDigit = Nat.toDigits 10 m := by
  rw [List.takeWhile_eq_self_iff]
  exact fun c hc => isDigit_of_mem_toDigits hc

theorem numberValue_digits (h : m < doubleLimit) :
    numberValue (Nat.toDigits 10 m) = .int m := by
  have hunsigned : (Nat.toDigits 10 m).head? ≠ some '-' := by
    intro hhead
    have hdigit := isDigit_of_mem_toDigits (List.mem_of_head? hhead)
    exact absurd hdigit (by decide)
  simp [numberValue, hunsigned, takeWhile_toDigits, ofDigits_toDigits, h]

theorem numberValue_minus (hpos : 0 < m) (h : m < doubleLimit) :
    numberValue ('-' :: Nat.toDigits 10 m) = .int (-m) := by
  have hne : m ≠ 0 := by omega
  simp [numberValue, takeWhile_toDigits, ofDigits_toDigits, h, hne]

/-- The digits of a number that is not zero follow what comes before them, a sign or nothing. -/
theorem foldl_toDigits (hpos : 0 < m) {state : Mode × List Token}
    (hfirst : ∀ c, c.isDigit = true → c ≠ '0' → step state c = (.number .whole (c :: seen), out)) :
    (Nat.toDigits 10 m).foldl step state =
      (.number .whole ((Nat.toDigits 10 m).reverse ++ seen), out) := by
  obtain ⟨c, cs, hcs, hc⟩ := toDigits_eq_cons hpos
  have hdigits : ∀ d ∈ c :: cs, d.isDigit = true := fun d hd => isDigit_of_mem_toDigits (hcs ▸ hd)
  rw [List.forall_mem_cons] at hdigits
  rw [hcs, List.foldl_cons, hfirst c hdigits.1 hc, foldl_digits hdigits.2, List.reverse_cons,
    List.append_assoc, List.singleton_append]

theorem gives_decimal (h : n.natAbs < doubleLimit) :
    Gives ((decimal n).foldl step (.between, out)) (.scalar (.int n) :: out) := by
  by_cases hneg : n < 0
  · have hpos : 0 < n.natAbs := by omega
    have habs : (-n.natAbs : Int) = n := by omega
    have hsign : step (.between, out) '-' = (.number .sign ['-'], out) := rfl
    have hfirst : ∀ c, c.isDigit = true → c ≠ '0' →
        step (.number .sign ['-'], out) c = (.number .whole [c, '-'], out) := by
      intro c hdigit hzero
      simp [step, Stage.step, hdigit, hzero]
    have hgives : Gives (.number .whole ((Nat.toDigits 10 n.natAbs).reverse ++ ['-']), out) _ :=
      gives_number (.inr rfl)
    rw [List.reverse_append, List.reverse_reverse, List.reverse_singleton, List.singleton_append,
      numberValue_minus hpos h, habs] at hgives
    rwa [decimal, if_pos hneg, List.foldl_cons, hsign, foldl_toDigits hpos hfirst]
  · have habs : (n.natAbs : Int) = n := by omega
    have hvalue := numberValue_digits h
    rw [habs] at hvalue
    rw [decimal, if_neg hneg]
    by_cases hpos : 0 < n.natAbs
    · have hgives : Gives (.number .whole ((Nat.toDigits 10 n.natAbs).reverse ++ []), out) _ :=
        gives_number (.inr rfl)
      rw [List.append_nil, List.reverse_reverse, hvalue] at hgives
      rwa [foldl_toDigits hpos fun c => begin_digit, List.append_nil]
    · have hzero : n.natAbs = 0 := by omega
      have hgives : Gives (.number .zero ['0'], out) _ := gives_number (.inl rfl)
      rw [hzero, Nat.toDigits_zero] at hvalue ⊢
      rwa [List.reverse_singleton, hvalue] at hgives

/-! ## Arrays and objects -/

/-- After a value, the scan takes up a comma or a closing bracket as if nothing were pending. -/
theorem foldl_separator {state : Mode × List Token} (h : Gives state out)
    (hc : c = ',' ∨ c = ']' ∨ c = '}') : (c :: cs).foldl step state = cs.foldl step (begin out c) := by
  rw [List.foldl_cons, h.step c hc]

/-- The scan of a value adds its tokens. -/
def Scans (v : Json) : Prop :=
  ∀ out, Gives (v.chars.foldl step (.between, out)) (v.tokens.reverse ++ out)

theorem foldl_itemChars {items : List Json} (h : ∀ v ∈ items, Scans v)
    {state : Mode × List Token} (hstate : Gives state out) :
    (itemChars items).foldl step state = (.between, (itemTokens items).reverse ++ out) := by
  induction items generalizing state out with
  | nil =>
    rw [itemChars, foldl_separator hstate (by decide)]
    rfl
  | cons v items ih =>
    rw [List.forall_mem_cons] at h
    have hbegin : begin out ',' = (.between, .comma :: out) := rfl
    rw [itemChars, foldl_separator hstate (by decide), hbegin, List.foldl_append,
      ih h.2 (h.1 (.comma :: out))]
    simp [itemTokens]

theorem foldl_memberChars {members : List (String × Json)} (h : ∀ m ∈ members, Scans m.2)
    {state : Mode × List Token} (hstate : Gives state out) :
    (memberChars members).foldl step state = (.between, (memberTokens members).reverse ++ out) := by
  induction members generalizing state out with
  | nil =>
    rw [memberChars, foldl_separator hstate (by decide)]
    rfl
  | cons m members ih =>
    rw [List.forall_mem_cons] at h
    have hbegin : begin out ',' = (.between, .comma :: out) := rfl
    have hcolon : step (.between, .scalar (.text m.1) :: .comma :: out) ':' =
        (.between, .colon :: .scalar (.text m.1) :: .comma :: out) := rfl
    rw [memberChars, foldl_separator hstate (by decide), hbegin, List.foldl_append, foldl_quoted,
      List.foldl_cons, hcolon, List.foldl_append, ih h.2 (h.1 _)]
    simp [memberTokens]

end Token

theorem Plain.scans {v : Json} (h : v.Plain) : Token.Scans v := by
  intro out
  induction h generalizing out with
  | null => exact Token.gives_between
  | bool b =>
    cases b with
    | false => exact Token.gives_between
    | true => exact Token.gives_between
  | int h => exact Token.gives_decimal h
  | text s =>
    rw [chars, Token.foldl_quoted]
    exact Token.gives_between
  | @array items _ ih =>
    cases items with
    | nil => exact Token.gives_between
    | cons v items =>
      rw [List.forall_mem_cons] at ih
      have hopen : Token.step (.between, out) '[' = (.between, .openArray :: out) := rfl
      rw [chars, List.foldl_cons, hopen, List.foldl_append,
        Token.foldl_itemChars ih.2 (ih.1 (.openArray :: out))]
      simpa [tokens] using Token.gives_between
  | @object members _ ih =>
    cases members with
    | nil => exact Token.gives_between
    | cons m members =>
      rw [List.forall_mem_cons] at ih
      have hopen : Token.step (.between, out) '\x7b' = (.between, .openObject :: out) := rfl
      have hcolon : Token.step (.between, .scalar (.text m.1) :: .openObject :: out) ':' =
          (.between, .colon :: .scalar (.text m.1) :: .openObject :: out) := rfl
      rw [chars, List.foldl_cons, hopen, List.foldl_append, Token.foldl_quoted, List.foldl_cons,
        hcolon, List.foldl_append, Token.foldl_memberChars ih.2 (ih.1 _)]
      simpa [tokens] using Token.gives_between

/-- The text of a plain value is cut into its tokens. -/
theorem Plain.scan_compact {v : Json} (h : v.Plain) : Token.scan v.compact = v.tokens := by
  rw [Token.scan, compact, String.toList_ofList, (h.scans []).finish, List.append_nil,
    List.reverse_reverse]

end Ecoa.Json
