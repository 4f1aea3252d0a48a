import Ecoa.Endpoint
import Ecoa.Type.Decl

/-!
# Declared projects

A project as it is written: type libraries, component implementations, the deployment of their
modules and the assembly of component instances. Names are kept as written and nothing is
resolved.
-/

namespace Ecoa

/-- A service that a component instance offers or uses. -/
structure ComponentService where
  component : String
  service : String
  deriving DecidableEq

namespace Declared

structure Parameter where
  name : String
  type : String

structure Event where
  name : String
  inputs : List Parameter

structure Request where
  name : String
  inputs : List Parameter
  outputs : List Parameter
  isSynchronous : Bool

structure DataRead where
  name : String
  type : String
  maxVersions : Option UInt32
  notifying : Bool

structure DataWritten where
  name : String
  type : String
  maxVersions : Option UInt32
  writeOnly : Bool

structure Operations where
  eventSent : List Event
  eventReceived : List Event
  requestSent : List Request
  requestReceived : List Request
  dataRead : List DataRead
  dataWritten : List DataWritten

def Operations.none : Operations := ⟨[], [], [], [], [], []⟩

structure Property where
  name : String
  type : String

/-- A handle on persistent information. -/
structure Pinfo where
  name : String

structure ModuleType where
  name : String
  operations : Operations
  properties : List Property
  publicPinfos : List Pinfo
  privatePinfos : List Pinfo

structure ModuleImplementation where
  name : String
  moduleType : String
  language : String

structure NamedValue where
  name : String
  value : String

structure ModuleInstance where
  name : String
  implementation : String
  propertyValues : List NamedValue
  pinfoValues : List NamedValue

structure TriggerInstance where
  name : String

structure DynamicTriggerInstance where
  name : String
  parameters : List Parameter

structure Endpoint where
  instanceName : String
  operation : String
  activating : Option Bool
  language : Option String

abbrev EndpointGroups := OrderedMap EndpointKind (List Endpoint)

structure EventLink where
  senders : EndpointGroups
  receivers : EndpointGroups

structure RequestLink where
  clients : EndpointGroups
  server : EndpointGroups

structure DataLink where
  writers : EndpointGroups
  readers : EndpointGroups
  controlled : Bool

/-- A component implementation. -/
structure Component where
  name : String
  directory : String
  uses : List String
  moduleTypes : List ModuleType
  moduleImplementations : List ModuleImplementation
  moduleInstances : List ModuleInstance
  triggerInstances : List TriggerInstance
  dynamicTriggerInstances : List DynamicTriggerInstance
  eventLinks : List EventLink
  requestLinks : List RequestLink
  dataLinks : List DataLink

structure Library where
  name : String
  types : List TypeDecl

structure DeployedModule where
  component : String
  moduleInstance : String

structure ProtectionDomain where
  name : String
  deployedModules : List DeployedModule

structure Deployment where
  protectionDomains : List ProtectionDomain

structure ComponentInstance where
  name : String
  implementation : String
  properties : OrderedMap String String

structure Wire where
  source : ComponentService
  target : ComponentService

structure Assembly where
  components : List ComponentInstance
  wires : List Wire

structure Project where
  libraries : List Library
  components : List Component
  deployment : Deployment
  assembly : Assembly

namespace Component

def moduleType? (c : Component) (name : String) : Option ModuleType :=
  c.moduleTypes.find? (·.name = name)

def moduleImplementation? (c : Component) (name : String) : Option ModuleImplementation :=
  c.moduleImplementations.find? (·.name = name)

/-- The first module instance of a name. -/
def moduleInstance? (c : Component) (name : String) : Option ModuleInstance :=
  c.moduleInstances.find? (·.name = name)

def instancesOf (c : Component) (implementation : String) : List String :=
  (c.moduleInstances.filter (·.implementation = implementation)).map (·.name)

end Component

end Declared

end Ecoa
