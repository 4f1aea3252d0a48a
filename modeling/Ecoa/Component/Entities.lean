import Ecoa.Build.Layout
import Ecoa.Component.EndpointIndex
import Ecoa.Component.Module
import Ecoa.Model.Basic

/-!
# The entities of a component implementation

Each operation of each module implementation gives an entity, and so does each external, trigger
and side of a dynamic trigger. Entities come in a fixed order; one that cannot be built gives an
error in its place, and those before it stand.
-/

namespace Ecoa

/-- What the entities of one component implementation are built from. -/
structure ComponentContext where
  registry : TypeRegistry
  deployment : Deployment
  layout : Layout
  component : Declared.Component
  index : EndpointIndex
  sites : List ModuleSite

/-- An entity that may fail to be built. -/
abbrev Built := Except ModelError Entry

namespace ComponentContext

/-- The type that a name means, with its category. -/
def typed (cx : ComponentContext) (name context : String) :
    Except ModelError (TypeName × TypeCategory) := do
  let t ← cx.registry.resolve name context
  match cx.registry.classify? t with
  | some category => return (t, category)
  | none => throw (.unresolvedType name context)

def parameters (cx : ComponentContext) (context : String) (ps : List Declared.Parameter) :
    Except ModelError (List Parameter) :=
  ps.mapM fun p => do
    let (type, category) ← cx.typed p.type context
    return ⟨p.name, type, category⟩

/-! ## Events -/

def eventEntry (cx : ComponentContext) (site : ModuleSite) (isSent : Bool) (d : Declared.Event) :
    Built := do
  let inputs ← cx.parameters (site.locate d.name) d.inputs
  if isSent then
    return ⟨.eventSend, site.scope.key, (⟨site.scope, d.name, inputs,
      EndpointIndex.select cx.index.eventSenders site.instances d.name⟩ : Event)⟩
  else
    return ⟨.eventReceived, site.scope.key, (⟨site.scope, d.name, inputs,
      EndpointIndex.select cx.index.eventReceivers site.instances d.name⟩ : Event)⟩

/-- The external senders by operation and language, each with all its endpoints. -/
def externalLinks (cx : ComponentContext) :
    Except ModelError (OrderedMap (String × Language) Links) :=
  (cx.index.eventSenders.filter (·.1.kind = .external)).foldlM (fun found e => do
    let written := e.1.language.getD ""
    match Language.parse? written with
    | some language =>
      return found.alter (e.1.operation, language) fun links => (links.getD []).insert e.1 e.2
    | none =>
      throw (.unsupportedLanguage written (cx.component.name ++ ":" ++ e.1.operation))) ∅

def externalEntries (cx : ComponentContext) : List Built :=
  match cx.externalLinks with
  | .error e => [.error e]
  | .ok found => found.toList.map fun e => .ok ⟨.external, cx.component.name,
      (⟨cx.component.name, e.1.1, e.1.2, [], e.2⟩ : External)⟩

def triggerEntry (cx : ComponentContext) (t : Declared.TriggerInstance) : Entry :=
  ⟨.trigger, cx.component.name, (⟨cx.component.name, t.name,
    EndpointIndex.selectInstance cx.index.eventSenders .trigger t.name⟩ : Trigger)⟩

/-- The first parameter of a dynamic trigger. -/
def delayParameter : Parameter := ⟨"delayDuration", .standard "duration", .record⟩

/-- The two sides of a dynamic trigger. -/
def dynamicTriggerEntries (cx : ComponentContext) (t : Declared.DynamicTriggerInstance) :
    List Built :=
  match cx.parameters (cx.component.name ++ ":" ++ t.name) t.parameters with
  | .error e => [.error e]
  | .ok ps =>
    let side (links : Links) : DynamicTrigger :=
      ⟨cx.component.name, t.name, delayParameter :: ps,
        EndpointIndex.selectInstance links .dynamicTrigger t.name⟩
    [.ok ⟨.dynamicTriggerSend, cx.component.name, side cx.index.eventSenders⟩,
     .ok ⟨.dynamicTriggerReceived, cx.component.name, side cx.index.eventReceivers⟩]

def eventEntries (cx : ComponentContext) : List Built :=
  cx.sites.flatMap (fun site =>
    site.moduleType.operations.eventSent.map (cx.eventEntry site true) ++
      site.moduleType.operations.eventReceived.map (cx.eventEntry site false)) ++
    cx.externalEntries ++ cx.component.triggerInstances.map (fun t => .ok (cx.triggerEntry t)) ++
    cx.component.dynamicTriggerInstances.flatMap cx.dynamicTriggerEntries

/-! ## Requests -/

def requestSendEntry (cx : ComponentContext) (site : ModuleSite) (d : Declared.Request) :
    Built := do
  let context := site.locate d.name
  let inputs ← cx.parameters context d.inputs
  let outputs ← cx.parameters context d.outputs
  return ⟨.requestSend, site.scope.key, (⟨site.scope, d.name, inputs, outputs, d.isSynchronous,
    EndpointIndex.select cx.index.requestClients site.instances d.name⟩ : RequestSend)⟩

/-- The first input of a received request. -/
def requestIdParameter : Parameter := ⟨"ID", .standard "uint32", .simple⟩

def requestReceivedEntry (cx : ComponentContext) (site : ModuleSite) (d : Declared.Request) :
    Built := do
  let context := site.locate d.name
  let inputs ← cx.parameters context d.inputs
  let outputs ← cx.parameters context d.outputs
  return ⟨.requestReceived, site.scope.key,
    (⟨site.scope, d.name, requestIdParameter :: inputs, outputs,
      EndpointIndex.select cx.index.requestServers site.instances d.name⟩ : RequestReceived)⟩

def requestEntries (cx : ComponentContext) : List Built :=
  cx.sites.flatMap fun site =>
    site.moduleType.operations.requestSent.map (cx.requestSendEntry site) ++
      site.moduleType.operations.requestReceived.map (cx.requestReceivedEntry site)

/-! ## Versioned data -/

def dataReadEntry (cx : ComponentContext) (site : ModuleSite) (d : Declared.DataRead) : Built := do
  let (type, category) ← cx.typed d.type (site.locate d.name)
  return ⟨.dataRead, site.scope.key,
    (⟨site.scope, d.name, type, category, d.maxVersions, d.notifying,
      EndpointIndex.select cx.index.dataReaders site.instances d.name, ∅⟩ : DataRead)⟩

def dataWrittenEntry (cx : ComponentContext) (site : ModuleSite) (d : Declared.DataWritten) :
    Built := do
  let (type, category) ← cx.typed d.type (site.locate d.name)
  let links := EndpointIndex.select cx.index.dataWriters site.instances d.name
  let siblings := links.map fun e => (e.1, cx.index.siblings e.1)
  return ⟨.dataWritten, site.scope.key,
    (⟨site.scope, d.name, type, category, d.maxVersions, d.writeOnly, links, siblings, ∅⟩ :
      DataWritten)⟩

def dataEntries (cx : ComponentContext) : List Built :=
  cx.sites.flatMap fun site =>
    site.moduleType.operations.dataRead.map (cx.dataReadEntry site) ++
      site.moduleType.operations.dataWritten.map (cx.dataWrittenEntry site)

/-! ## Properties and persistent information -/

/-- A value under one component: `$name` stands for a property of that component. -/
def deployedValue (cx : ComponentContext) (site : ModuleSite) (moduleInstance name value : String)
    (component : String) : Except ModelError (String × String) :=
  let key := site.scope.component ++ ":" ++ moduleInstance ++ ":" ++ component
  match Text.after '$' value with
  | none => .ok (key, value)
  | some property =>
    match cx.deployment.componentProperty? component property with
    | some v => .ok (key, v)
    | none => .error (.unknownAssemblyProperty property component
        (site.scope.component ++ ":" ++ moduleInstance ++ ":" ++ name))

/-- The values of one instance under all its components. -/
def instanceValues (cx : ComponentContext) (site : ModuleSite) (name : String)
    (values : Declared.ModuleInstance → List Declared.NamedValue) (moduleInstance : String) :
    Except ModelError (List (String × String)) :=
  let declared := (cx.component.moduleInstance? moduleInstance).bind fun i =>
    (values i).find? (·.name = name)
  match declared with
  | none => .ok []
  | some v =>
    (cx.deployment.componentNames site.scope.component moduleInstance).mapM
      (cx.deployedValue site moduleInstance name (Text.trim v.value))

/-- The values of a name under `implementation:instance:component` keys. -/
def deployedValues (cx : ComponentContext) (site : ModuleSite) (name : String)
    (values : Declared.ModuleInstance → List Declared.NamedValue) :
    Except ModelError (OrderedMap String String) := do
  let found ← site.instances.mapM (cx.instanceValues site name values)
  return .ofList found.flatten

/-- The type of a property; a constant stands for the type behind it. -/
def propertyType (cx : ComponentContext) (name context : String) :
    Except ModelError (TypeName × TypeCategory) := do
  let (type, category) ← cx.typed name context
  if category = .constant then
    let type ← cx.registry.underlying type context
    match cx.registry.classify? type with
    | some category => return (type, category)
    | none => throw (.unresolvedType type.text context)
  else return (type, category)

def itemType (cx : ComponentContext) (type : TypeName) (context : String) :
    Except ModelError (Option ItemType) :=
  match (cx.registry.declaration? type).bind (·.itemType?) with
  | none => return none
  | some name => do
    let item ← cx.registry.resolveFrom name type.library context
    match cx.registry.classify? item with
    | some category => return some ⟨item, category⟩
    | none => throw (.unresolvedType name context)

/-- The labels of the enumeration that a type is or that its items are. -/
def labelsOf (cx : ComponentContext) (type : TypeName) (item : Option ItemType) : List String :=
  let holder := match item with
    | some i => if i.category = .enum then i.type else type
    | none => type
  (((cx.registry.declaration? holder).bind (·.labels?)).getD []).map (·.name)

def propertyEntry (cx : ComponentContext) (site : ModuleSite) (d : Declared.Property) : Built := do
  let context := site.scope.component ++ ":" ++ site.scope.moduleType ++ ":" ++ d.name
  let (type, category) ← cx.propertyType d.type context
  let item ← cx.itemType type context
  let maxNumber := (cx.registry.declaration? type).bind (·.maxNumber?)
  let values ← cx.deployedValues site d.name (·.propertyValues)
  return ⟨.property, site.scope.key,
    (⟨site.scope, d.name, type, category, item, maxNumber, cx.labelsOf type item, values⟩ :
      Property)⟩

def propertyEntries (cx : ComponentContext) : List Built :=
  cx.sites.flatMap fun site => site.moduleType.properties.map (cx.propertyEntry site)

def pinfoEntry (cx : ComponentContext) (site : ModuleSite) (isPrivate : Bool)
    (d : Declared.Pinfo) : Built := do
  let values ← cx.deployedValues site d.name (·.pinfoValues)
  let paths := values.toList.map fun e =>
    (e.1, cx.layout.pinfoPath cx.component.directory e.2 isPrivate)
  return ⟨.pinfo, site.scope.key, (⟨site.scope, d.name, isPrivate, .ofList paths⟩ : Pinfo)⟩

def pinfoEntries (cx : ComponentContext) : List Built :=
  cx.sites.flatMap fun site =>
    site.moduleType.publicPinfos.map (cx.pinfoEntry site false) ++
      site.moduleType.privatePinfos.map (cx.pinfoEntry site true)

/-- All entities, in order. -/
def entries (cx : ComponentContext) : List Built :=
  cx.eventEntries ++ cx.requestEntries ++ cx.dataEntries ++ cx.propertyEntries ++ cx.pinfoEntries

end ComponentContext

/-- How many module implementations and entities a component implementation has. -/
structure EntityCounts where
  modules : Nat
  events : Nat
  requests : Nat
  data : Nat
  properties : Nat
  pinfos : Nat

def EntityCounts.entities (c : EntityCounts) : Nat :=
  c.events + c.requests + c.data + c.properties + c.pinfos

/-- The successes before the first failure, and that failure. -/
def splitAtError {ε α : Type} : List (Except ε α) → List α × Option ε
  | [] => ([], none)
  | .ok a :: rest => let (found, e) := splitAtError rest; (a :: found, e)
  | .error e :: _ => ([], some e)

namespace Model

/-- Record the module implementations of a component and the libraries that it uses. -/
def addModules (m : Model) (c : Declared.Component) (sites : List ModuleSite) : Model :=
  { m with
    modules := sites.foldl (fun found s => found.insert s.scope.key s.scope) m.modules
    uses := m.uses.alter c.name fun found =>
      (c.uses.map normalizeLibrary).foldl
        (fun libraries l => if l ∈ libraries then libraries else libraries ++ [l])
        (found.getD []) }

def insertAll (m : Model) (entries : List Entry) : Model := entries.foldl insert m

/-- Add the entities of a component implementation. Those before an error stay in the model. -/
def addComponent (m : Model) (layout : Layout) (c : Declared.Component) :
    Model × Except ModelError EntityCounts :=
  match ModuleSite.all c with
  | .error e => (m, .error e)
  | .ok sites =>
    let cx : ComponentContext := ⟨m.registry, m.deployment, layout, c, .build c, sites⟩
    let (found, error) := splitAtError cx.entries
    let m := (m.addModules c sites).insertAll found
    match error with
    | some e => (m, .error e)
    | none => (m, .ok ⟨sites.length, cx.eventEntries.length, cx.requestEntries.length,
        cx.dataEntries.length, cx.propertyEntries.length, cx.pinfoEntries.length⟩)

end Model

end Ecoa
