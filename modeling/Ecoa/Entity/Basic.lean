import Ecoa.Endpoint
import Ecoa.Language.Basic
import Ecoa.Type.Category

/-!
# Entities

An entity is one operation of a module implementation, or an external, a trigger or a dynamic
trigger of a component implementation. It keeps the endpoints declared for it; what it is bound
to is held by the model, which refers to it by `EntityId`. A dynamic trigger is two entities,
one for each of its sides.
-/

namespace Ecoa

inductive EntityKind where
  | eventSend
  | eventReceived
  | requestSend
  | requestReceived
  | dataRead
  | dataWritten
  | property
  | pinfo
  | external
  | trigger
  | dynamicTriggerSend
  | dynamicTriggerReceived
  deriving DecidableEq

namespace EntityKind

def all : List EntityKind :=
  [.eventSend, .eventReceived, .requestSend, .requestReceived, .dataRead, .dataWritten, .property,
   .pinfo, .external, .trigger, .dynamicTriggerSend, .dynamicTriggerReceived]

def name : EntityKind → String
  | .eventSend => "event send"
  | .eventReceived => "event received"
  | .requestSend => "request send"
  | .requestReceived => "request received"
  | .dataRead => "data read"
  | .dataWritten => "data written"
  | .property => "property"
  | .pinfo => "pinfo"
  | .external => "external"
  | .trigger => "trigger"
  | .dynamicTriggerSend => "dynamic trigger send"
  | .dynamicTriggerReceived => "dynamic trigger received"

/-- The place of a kind in `all`. -/
def number : EntityKind → Nat
  | .eventSend => 0
  | .eventReceived => 1
  | .requestSend => 2
  | .requestReceived => 3
  | .dataRead => 4
  | .dataWritten => 5
  | .property => 6
  | .pinfo => 7
  | .external => 8
  | .trigger => 9
  | .dynamicTriggerSend => 10
  | .dynamicTriggerReceived => 11

/-- Properties and persistent information are configured, not linked. -/
def isLinked : EntityKind → Bool
  | .property | .pinfo => false
  | _ => true

end EntityKind

structure EntityId where
  kind : EntityKind
  index : Nat
  deriving DecidableEq

def EntityId.text (id : EntityId) : String := id.kind.name ++ "#" ++ id.index.repr

structure Parameter where
  name : String
  type : TypeName
  category : TypeCategory

/-- The module implementation to which an entity belongs. -/
structure ModuleScope where
  component : String
  moduleType : String
  moduleImplementation : String
  language : Language

def ModuleScope.key (s : ModuleScope) : String := s.component ++ ":" ++ s.moduleImplementation

/-- An event that a module sends or receives. -/
structure Event where
  scope : ModuleScope
  name : String
  inputs : List Parameter
  links : Links

structure RequestSend where
  scope : ModuleScope
  name : String
  inputs : List Parameter
  outputs : List Parameter
  isSynchronous : Bool
  links : Links

structure RequestReceived where
  scope : ModuleScope
  name : String
  inputs : List Parameter
  outputs : List Parameter
  links : Links

structure DataRead where
  scope : ModuleScope
  name : String
  type : TypeName
  category : TypeCategory
  maxVersions : Option UInt32
  notifying : Bool
  links : Links
  /-- For each bound key, whether the link is controlled. -/
  controlled : OrderedMap String Bool

structure DataWritten where
  scope : ModuleScope
  name : String
  type : TypeName
  category : TypeCategory
  maxVersions : Option UInt32
  writeOnly : Bool
  links : Links
  /-- For each own endpoint, the other writers of its storage. -/
  siblings : Links
  /-- For each bound key, whether the link is controlled. -/
  controlled : OrderedMap String Bool

structure ItemType where
  type : TypeName
  category : TypeCategory

/-- A property with all that its values are checked against. -/
structure Property where
  scope : ModuleScope
  name : String
  type : TypeName
  category : TypeCategory
  item : Option ItemType
  maxNumber : Option String
  labels : List String
  values : OrderedMap String String

structure Pinfo where
  scope : ModuleScope
  name : String
  isPrivate : Bool
  paths : OrderedMap String String

/-- An operation of code outside the model that sends events. -/
structure External where
  component : String
  name : String
  language : Language
  inputs : List Parameter
  links : Links

def External.key (e : External) : String := e.name ++ ":" ++ e.language.name

structure Trigger where
  component : String
  name : String
  links : Links

/-- One side of a dynamic trigger. -/
structure DynamicTrigger where
  component : String
  name : String
  parameters : List Parameter
  links : Links

/-- The entities of a kind. -/
abbrev Entity : EntityKind → Type
  | .eventSend | .eventReceived => Event
  | .requestSend => RequestSend
  | .requestReceived => RequestReceived
  | .dataRead => DataRead
  | .dataWritten => DataWritten
  | .property => Property
  | .pinfo => Pinfo
  | .external => External
  | .trigger => Trigger
  | .dynamicTriggerSend | .dynamicTriggerReceived => DynamicTrigger

namespace Entity

def name : (kind : EntityKind) → Entity kind → String
  | .eventSend, (e : Event) | .eventReceived, (e : Event) => e.name
  | .requestSend, (e : RequestSend) => e.name
  | .requestReceived, (e : RequestReceived) => e.name
  | .dataRead, (e : DataRead) => e.name
  | .dataWritten, (e : DataWritten) => e.name
  | .property, (e : Property) => e.name
  | .pinfo, (e : Pinfo) => e.name
  | .external, (e : External) => e.name
  | .trigger, (e : Trigger) => e.name
  | .dynamicTriggerSend, (e : DynamicTrigger) | .dynamicTriggerReceived, (e : DynamicTrigger) =>
    e.name

/-- The component implementation that declares an entity. -/
def component : (kind : EntityKind) → Entity kind → String
  | .eventSend, (e : Event) | .eventReceived, (e : Event) => e.scope.component
  | .requestSend, (e : RequestSend) => e.scope.component
  | .requestReceived, (e : RequestReceived) => e.scope.component
  | .dataRead, (e : DataRead) => e.scope.component
  | .dataWritten, (e : DataWritten) => e.scope.component
  | .property, (e : Property) => e.scope.component
  | .pinfo, (e : Pinfo) => e.scope.component
  | .external, (e : External) => e.component
  | .trigger, (e : Trigger) => e.component
  | .dynamicTriggerSend, (e : DynamicTrigger) | .dynamicTriggerReceived, (e : DynamicTrigger) =>
    e.component

/-- The declared endpoints; properties and persistent information have none. -/
def links : (kind : EntityKind) → Entity kind → Links
  | .eventSend, (e : Event) | .eventReceived, (e : Event) => e.links
  | .requestSend, (e : RequestSend) => e.links
  | .requestReceived, (e : RequestReceived) => e.links
  | .dataRead, (e : DataRead) => e.links
  | .dataWritten, (e : DataWritten) => e.links
  | .property, _ | .pinfo, _ => []
  | .external, (e : External) => e.links
  | .trigger, (e : Trigger) => e.links
  | .dynamicTriggerSend, (e : DynamicTrigger) | .dynamicTriggerReceived, (e : DynamicTrigger) =>
    e.links

end Entity

end Ecoa
