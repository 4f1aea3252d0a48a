import Ecoa.Model.Fingerprint
import Ecoa.Proofs.Build.Builds

/-!
# What a fingerprint tells apart

A fingerprint is taken of names and keys, one right after the other. Where each of them ends is not
written down, so its bytes tell two models apart only by what the texts come to together. Together
with the sizes of the texts they tell everything (`contents_eq_iff`): the bytes can then be cut from
the left, text by text, which `IsCutBySize` says of each part and passes on to lists of parts.
-/

namespace Ecoa

/-! ## Cutting by size -/

/-- Of what is written for a value, and anything after it, the value and the rest can be told by
someone who knows the size of the value. -/
def IsCutBySize {α β : Type} (write : α → List UInt8) (size : α → β) : Prop :=
  ∀ ⦃a b⦄ ⦃xs ys : List UInt8⦄, size a = size b → write a ++ xs = write b ++ ys → a = b ∧ xs = ys

namespace IsCutBySize

variable {α α' β β' : Type} {write : α → List UInt8} {write' : α' → List UInt8} {size : α → β}
  {size' : α' → β'}

/-- A text is as long as its size says. -/
theorem text : IsCutBySize Model.utf8 String.utf8ByteSize := by
  intro s t xs ys hsize h
  obtain ⟨hbytes, hrest⟩ := List.append_inj h hsize
  exact ⟨String.toByteArray_inj.mp (ByteArray.ext (Array.toList_inj.mp hbytes)), hrest⟩

/-- A text that may be missing, and is then written as an empty one. -/
theorem optionalText :
    IsCutBySize (fun s : Option String => Model.utf8 (s.getD ""))
      (Option.map String.utf8ByteSize) := by
  rintro (_ | s) (_ | t) xs ys hsize h
  · exact ⟨rfl, h⟩
  · cases hsize
  · cases hsize
  · obtain ⟨rfl, hrest⟩ := text (Option.some.inj hsize) h
    exact ⟨rfl, hrest⟩

/-- A kind takes one byte. -/
theorem kind : IsCutBySize (fun k : EntityKind => [UInt8.ofNat k.number]) fun _ => () := by
  intro k l xs ys _ h
  obtain ⟨hnumber, hrest⟩ := List.cons.inj h
  have hinj : ∀ k l : EntityKind, UInt8.ofNat k.number = UInt8.ofNat l.number → k = l := by
    intro k l
    cases k <;> cases l <;> decide
  exact ⟨hinj k l hnumber, hrest⟩

/-- One value after another. -/
theorem pair (h : IsCutBySize write size) (h' : IsCutBySize write' size') :
    IsCutBySize (fun p : α × α' => write p.1 ++ write' p.2) (Prod.map size size') := by
  rintro ⟨a, a'⟩ ⟨b, b'⟩ xs ys hsize heq
  obtain ⟨hsize, hsize'⟩ := Prod.mk.inj hsize
  simp only [List.append_assoc] at heq
  obtain ⟨rfl, hsecond⟩ := h hsize heq
  obtain ⟨rfl, hrest⟩ := h' hsize' hsecond
  exact ⟨rfl, hrest⟩

/-- Any number of values; how many there are is told by the sizes. -/
theorem list (h : IsCutBySize write size) : IsCutBySize (List.flatMap write) (List.map size) := by
  intro as
  induction as with
  | nil =>
    intro bs xs ys hsize heq
    obtain rfl := List.map_eq_nil_iff.mp hsize.symm
    exact ⟨rfl, heq⟩
  | cons a as ih =>
    rintro (_ | ⟨b, bs⟩) xs ys hsize heq
    · cases hsize
    · obtain ⟨hhead, htail⟩ := List.cons.inj hsize
      simp only [List.flatMap_cons, List.append_assoc] at heq
      obtain ⟨rfl, hothers⟩ := h hhead heq
      obtain ⟨rfl, hrest⟩ := ih htail hothers
      exact ⟨rfl, hrest⟩

end IsCutBySize

/-! ## What the bytes are made of -/

/-- A binding as a fingerprint sees it: the names of its ends, if these are stored, their kinds, and
both keys. -/
structure NamedBinding (α : Type) where
  sender : Option α
  senderKind : EntityKind
  receiver : Option α
  receiverKind : EntityKind
  senderKey : α
  receiverKey : α
  deriving DecidableEq

def NamedBinding.map {α β : Type} (f : α → β) (b : NamedBinding α) : NamedBinding β :=
  ⟨b.sender.map f, b.senderKind, b.receiver.map f, b.receiverKind, f b.senderKey, f b.receiverKey⟩

def NamedBinding.bytes (b : NamedBinding String) : List UInt8 :=
  Model.utf8 (b.sender.getD "") ++ [UInt8.ofNat b.senderKind.number] ++
    (Model.utf8 (b.receiver.getD "") ++ [UInt8.ofNat b.receiverKind.number]) ++
    Model.utf8 b.senderKey ++ Model.utf8 b.receiverKey

theorem IsCutBySize.namedBinding :
    IsCutBySize NamedBinding.bytes (NamedBinding.map String.utf8ByteSize) := by
  rintro ⟨s, k, r, l, sk, rk⟩ ⟨s', k', r', l', sk', rk'⟩ xs ys hsize h
  obtain ⟨hs, -, hr, -, hsk, hrk⟩ := NamedBinding.mk.inj hsize
  simp only [NamedBinding.bytes, List.append_assoc] at h
  obtain ⟨rfl, h₁⟩ := optionalText hs h
  obtain ⟨rfl, h₂⟩ := kind rfl h₁
  obtain ⟨rfl, h₃⟩ := optionalText hr h₂
  obtain ⟨rfl, h₄⟩ := kind rfl h₃
  obtain ⟨rfl, h₅⟩ := text hsk h₄
  obtain ⟨rfl, hrest⟩ := text hrk h₅
  exact ⟨rfl, hrest⟩

namespace Model

/-- What a fingerprint is taken of: the libraries, each with the names of its types in emission
order, and the bindings of each table in order. -/
structure Contents (α : Type) where
  libraries : List (α × List α)
  events : List (NamedBinding α)
  requests : List (NamedBinding α)
  data : List (NamedBinding α)
  deriving DecidableEq

def Contents.map {α β : Type} (f : α → β) (c : Contents α) : Contents β :=
  ⟨c.libraries.map (Prod.map f (List.map f)), c.events.map (·.map f), c.requests.map (·.map f),
    c.data.map (·.map f)⟩

/-- The same of how long the texts are. -/
def Contents.sizes (c : Contents String) : Contents Nat := c.map String.utf8ByteSize

def namedBinding (m : Model) (b : Binding EntityId) : NamedBinding String :=
  ⟨m.entityName? b.sender, b.sender.kind, m.entityName? b.receiver, b.receiver.kind, b.senderKey,
    b.receiverKey⟩

def contents (m : Model) : Contents String where
  libraries := m.sortedTypes.toList.map fun e => (e.1, e.2.map (·.name))
  events := m.events.toList.map m.namedBinding
  requests := m.requests.toList.map m.namedBinding
  data := m.data.toList.map m.namedBinding

/-- Each table comes after its own letter. -/
def Contents.bytes (c : Contents String) : List UInt8 :=
  c.libraries.flatMap (fun l => utf8 l.1 ++ l.2.flatMap utf8) ++
    (UInt8.ofNat 'e'.toNat :: c.events.flatMap NamedBinding.bytes) ++
    (UInt8.ofNat 'r'.toNat :: c.requests.flatMap NamedBinding.bytes) ++
    (UInt8.ofNat 'd'.toNat :: c.data.flatMap NamedBinding.bytes)

theorem fingerprintBytes_eq (m : Model) : m.fingerprintBytes = m.contents.bytes := by
  simp only [fingerprintBytes, tableBytes, contents, Contents.bytes, List.flatMap_map]
  rfl

/-- The bytes and the sizes of the texts tell the contents. -/
theorem Contents.eq_of_bytes {c d : Contents String} (hsizes : c.sizes = d.sizes)
    (h : c.bytes = d.bytes) : c = d := by
  obtain ⟨libraries, events, requests, data⟩ := c
  obtain ⟨libraries', events', requests', data'⟩ := d
  obtain ⟨hlibraries, hevents, hrequests, hdata⟩ := Contents.mk.inj hsizes
  have cutTable : IsCutBySize (List.flatMap NamedBinding.bytes)
      (List.map (NamedBinding.map String.utf8ByteSize)) := IsCutBySize.namedBinding.list
  simp only [Contents.bytes, List.append_assoc, List.cons_append] at h
  obtain ⟨rfl, h₁⟩ := (IsCutBySize.text.pair IsCutBySize.text.list).list hlibraries h
  obtain ⟨rfl, h₂⟩ := cutTable hevents (List.cons.inj h₁).2
  obtain ⟨rfl, h₃⟩ := cutTable hrequests (List.cons.inj h₂).2
  have hlast := congrArg (· ++ []) (List.cons.inj h₃).2
  obtain ⟨rfl, -⟩ := cutTable hdata hlast
  rfl

/-- Two models have the same libraries with the same types in the same order, and the same bindings
in each table in the same order, exactly when their fingerprints are taken of the same bytes and the
texts that meet are of the same sizes. -/
theorem contents_eq_iff (m n : Model) : m.contents = n.contents ↔
    m.fingerprintBytes = n.fingerprintBytes ∧ m.contents.sizes = n.contents.sizes := by
  rw [fingerprintBytes_eq, fingerprintBytes_eq]
  constructor
  · intro h
    rw [h]
    exact ⟨rfl, rfl⟩
  · rintro ⟨hbytes, hsizes⟩
    exact Contents.eq_of_bytes hsizes hbytes

/-- A sender and a receiver, bound under two keys. -/
def keyedModel (senderKey receiverKey : String) : Model :=
  let scope : ModuleScope := ⟨"C", "Talking", "talking", .c⟩
  let go : Event := ⟨scope, "go", [], []⟩
  let heard : Event := ⟨scope, "heard", [], []⟩
  let m := ((empty .empty .empty).insert ⟨.eventSend, scope.key, go⟩).insert
    ⟨.eventReceived, scope.key, heard⟩
  { m with
    events := (m.events.bind ⟨⟨.eventSend, 0⟩, senderKey, ⟨.eventReceived, 0⟩, receiverKey⟩).1 }

/-- One key takes a character from the other. -/
theorem fingerprintBytes_keyedModel :
    (keyedModel "m:a" "bn:c").fingerprintBytes = (keyedModel "m:ab" "n:c").fingerprintBytes ∧
      (keyedModel "m:a" "bn:c").contents ≠ (keyedModel "m:ab" "n:c").contents := by
  constructor
  · decide +kernel
  · decide +kernel

end Model

/-! ## Projects that are confused -/

/-- A project with one library and a component without modules. -/
def Declared.libraryProject (library : Library) : Project where
  libraries := [library]
  components := [⟨"C", "C", [], [], [], [], [], [], [], [], []⟩]
  deployment := ⟨[]⟩
  assembly := ⟨[], []⟩

open Declared in
/-- A library `a` with a type `b` against a library `ab` without types. -/
theorem Builder.Builds.fingerprintBytes_libraryProject :
    ∃ m n, (Builder.new (libraryProject ⟨"a", [.record "b" []]⟩)).Builds m ∧
      (Builder.new (libraryProject ⟨"ab", []⟩)).Builds n ∧
        m.fingerprintBytes = n.fingerprintBytes ∧ m.contents ≠ n.contents := by
  have hsorted : TypeRegistry.sorted ⟨.ofList [("a", [.record "b" []])]⟩ "a" =
      .ok [.record "b" []] := by
    have hpositions : (TypeOrder.new ⟨.ofList [("a", [.record "b" []])]⟩ "a"
        [.record "b" []]).positions = .ok [0] := by decide +kernel
    exact map_ok_iff.mpr ⟨_, hpositions, rfl⟩
  have hsorted' : TypeRegistry.sorted ⟨.ofList [("ab", [])]⟩ "ab" = .ok [] := rfl
  have hmodel : (libraryProject ⟨"a", [.record "b" []]⟩).model .default = .ok (_, _) :=
    Project.model_of_steps rfl rfl rfl (Model.sortTypes_of_libraryNames rfl hsorted) rfl rfl
  have hmodel' : (libraryProject ⟨"ab", []⟩).model .default = .ok (_, _) :=
    Project.model_of_steps rfl rfl rfl (Model.sortTypes_of_libraryNames rfl hsorted') rfl rfl
  refine ⟨_, _, builds_iff.mpr ⟨rfl, List.cons_ne_nil _ _, _, hmodel⟩,
    builds_iff.mpr ⟨rfl, List.cons_ne_nil _ _, _, hmodel'⟩, ?_, ?_⟩
  · decide +kernel
  · decide +kernel

end Ecoa
