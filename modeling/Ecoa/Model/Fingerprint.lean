import Ecoa.Hash.XxHash64
import Ecoa.Model.Basic

/-!
# Fingerprints

The fingerprint of a model is the digest of its sorted libraries and of its bindings, each named
by the operations that it joins.
-/

namespace Ecoa.Model

def utf8 (s : String) : List UInt8 := s.toUTF8.data.toList

def libraryBytes (library : String × List TypeDecl) : List UInt8 :=
  utf8 library.1 ++ library.2.flatMap fun d => utf8 d.name

/-- The name of an entity and the number of its kind. -/
def entityBytes (m : Model) (id : EntityId) : List UInt8 :=
  utf8 ((m.entityName? id).getD "") ++ [UInt8.ofNat id.kind.number]

def bindingBytes (m : Model) (b : Binding EntityId) : List UInt8 :=
  m.entityBytes b.sender ++ m.entityBytes b.receiver ++ utf8 b.senderKey ++ utf8 b.receiverKey

def tableBytes (m : Model) (tag : Char) (t : BindingTable EntityId) : List UInt8 :=
  UInt8.ofNat tag.toNat :: t.toList.flatMap m.bindingBytes

/-- All that goes into the fingerprint. -/
def fingerprintBytes (m : Model) : List UInt8 :=
  m.sortedTypes.toList.flatMap libraryBytes ++ m.tableBytes 'e' m.events ++
    m.tableBytes 'r' m.requests ++ m.tableBytes 'd' m.data

def fingerprint (m : Model) : UInt64 := XxHash64.digest 0 m.fingerprintBytes

end Ecoa.Model
