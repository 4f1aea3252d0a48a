import Ecoa.Declared.Project
import Ecoa.Json.Document
import Ecoa.Json.Printer
import Ecoa.Type.Json

/-!
# Projects in JSON

`Project.write` writes a project as compact JSON and `Project.read` reads one. Members that have
a default may be missing; written projects have every member.
-/

namespace Ecoa.Declared

open Json Decoder Fields

def optionalBool : Option Bool → Json
  | none => .null
  | some b => .bool b

def optionalCount : Option UInt32 → Json
  | none => .null
  | some n => .int n.toNat

def count : Decoder UInt32 := fun v => UInt32.ofNat <$> natBelow UInt32.size v

def texts (ss : List String) : Json := .list (ss.map .text)

namespace Parameter

def toJson (p : Parameter) : Json := .record [("name", .text p.name), ("type", .text p.type)]

def decoder : Decoder Parameter :=
  (Parameter.mk <$> required "name" text <*> required "type" text).decoder

end Parameter

namespace Event

def toJson (e : Event) : Json :=
  .record [("name", .text e.name), ("inputs", .list (e.inputs.map (·.toJson)))]

def decoder : Decoder Event :=
  (Event.mk <$> required "name" text
    <*> defaulted "inputs" (list Parameter.decoder) []).decoder

end Event

namespace Request

def toJson (r : Request) : Json :=
  .record [("name", .text r.name), ("inputs", .list (r.inputs.map (·.toJson))),
    ("outputs", .list (r.outputs.map (·.toJson))), ("is_synchronous", .bool r.isSynchronous)]

def decoder : Decoder Request :=
  (Request.mk <$> required "name" text
    <*> defaulted "inputs" (list Parameter.decoder) []
    <*> defaulted "outputs" (list Parameter.decoder) []
    <*> defaulted "is_synchronous" bool false).decoder

end Request

namespace DataRead

def toJson (d : DataRead) : Json :=
  .record [("name", .text d.name), ("type", .text d.type),
    ("max_versions", optionalCount d.maxVersions), ("notifying", .bool d.notifying)]

def decoder : Decoder DataRead :=
  (DataRead.mk <$> required "name" text <*> required "type" text
    <*> optional "max_versions" count <*> defaulted "notifying" bool false).decoder

end DataRead

namespace DataWritten

def toJson (d : DataWritten) : Json :=
  .record [("name", .text d.name), ("type", .text d.type),
    ("max_versions", optionalCount d.maxVersions), ("write_only", .bool d.writeOnly)]

def decoder : Decoder DataWritten :=
  (DataWritten.mk <$> required "name" text <*> required "type" text
    <*> optional "max_versions" count <*> defaulted "write_only" bool false).decoder

end DataWritten

namespace Operations

def toJson (o : Operations) : Json :=
  .record [("event_sent", .list (o.eventSent.map (·.toJson))),
    ("event_received", .list (o.eventReceived.map (·.toJson))),
    ("request_sent", .list (o.requestSent.map (·.toJson))),
    ("request_received", .list (o.requestReceived.map (·.toJson))),
    ("data_read", .list (o.dataRead.map (·.toJson))),
    ("data_written", .list (o.dataWritten.map (·.toJson)))]

def decoder : Decoder Operations :=
  (Operations.mk <$> defaulted "event_sent" (list Event.decoder) []
    <*> defaulted "event_received" (list Event.decoder) []
    <*> defaulted "request_sent" (list Request.decoder) []
    <*> defaulted "request_received" (list Request.decoder) []
    <*> defaulted "data_read" (list DataRead.decoder) []
    <*> defaulted "data_written" (list DataWritten.decoder) []).decoder

end Operations

namespace Property

def toJson (p : Property) : Json := .record [("name", .text p.name), ("type", .text p.type)]

def decoder : Decoder Property :=
  (Property.mk <$> required "name" text <*> required "type" text).decoder

end Property

namespace Pinfo

def toJson (p : Pinfo) : Json := .record [("name", .text p.name)]

def decoder : Decoder Pinfo := (Pinfo.mk <$> required "name" text).decoder

end Pinfo

namespace ModuleType

def toJson (t : ModuleType) : Json :=
  .record [("name", .text t.name), ("operations", t.operations.toJson),
    ("properties", .list (t.properties.map (·.toJson))),
    ("public_pinfos", .list (t.publicPinfos.map (·.toJson))),
    ("private_pinfos", .list (t.privatePinfos.map (·.toJson)))]

def decoder : Decoder ModuleType :=
  (ModuleType.mk <$> required "name" text
    <*> defaulted "operations" Operations.decoder .none
    <*> defaulted "properties" (list Property.decoder) []
    <*> defaulted "public_pinfos" (list Pinfo.decoder) []
    <*> defaulted "private_pinfos" (list Pinfo.decoder) []).decoder

end ModuleType

namespace ModuleImplementation

def toJson (m : ModuleImplementation) : Json :=
  .record [("name", .text m.name), ("module_type", .text m.moduleType),
    ("language", .text m.language)]

def decoder : Decoder ModuleImplementation :=
  (ModuleImplementation.mk <$> required "name" text <*> required "module_type" text
    <*> required "language" text).decoder

end ModuleImplementation

namespace NamedValue

def toJson (v : NamedValue) : Json := .record [("name", .text v.name), ("value", .text v.value)]

def decoder : Decoder NamedValue :=
  (NamedValue.mk <$> required "name" text <*> required "value" text).decoder

end NamedValue

namespace ModuleInstance

def toJson (m : ModuleInstance) : Json :=
  .record [("name", .text m.name), ("implementation", .text m.implementation),
    ("property_values", .list (m.propertyValues.map (·.toJson))),
    ("pinfo_values", .list (m.pinfoValues.map (·.toJson)))]

def decoder : Decoder ModuleInstance :=
  (ModuleInstance.mk <$> required "name" text <*> required "implementation" text
    <*> defaulted "property_values" (list NamedValue.decoder) []
    <*> defaulted "pinfo_values" (list NamedValue.decoder) []).decoder

end ModuleInstance

namespace TriggerInstance

def toJson (t : TriggerInstance) : Json := .record [("name", .text t.name)]

def decoder : Decoder TriggerInstance := (TriggerInstance.mk <$> required "name" text).decoder

end TriggerInstance

namespace DynamicTriggerInstance

def toJson (t : DynamicTriggerInstance) : Json :=
  .record [("name", .text t.name), ("parameters", .list (t.parameters.map (·.toJson)))]

def decoder : Decoder DynamicTriggerInstance :=
  (DynamicTriggerInstance.mk <$> required "name" text
    <*> defaulted "parameters" (list Parameter.decoder) []).decoder

end DynamicTriggerInstance

namespace Endpoint

def toJson (e : Endpoint) : Json :=
  .record [("instance_name", .text e.instanceName), ("operation_name", .text e.operation),
    ("activating", optionalBool e.activating), ("language", optionalText e.language)]

def decoder : Decoder Endpoint :=
  (Endpoint.mk <$> defaulted "instance_name" text "" <*> defaulted "operation_name" text ""
    <*> optional "activating" bool <*> optional "language" text).decoder

end Endpoint

namespace EndpointGroups

def toJson (g : EndpointGroups) : Json :=
  .record (g.toList.map fun e => (e.1.keyword, .list (e.2.map (·.toJson))))

/-- A kind that comes again takes the last list and keeps its first place. -/
def decoder : Decoder EndpointGroups := fun v =>
  OrderedMap.ofList <$> entries EndpointKind.ofKeyword? (list Endpoint.decoder) v

end EndpointGroups

namespace EventLink

def toJson (l : EventLink) : Json :=
  .record [("senders", EndpointGroups.toJson l.senders),
    ("receivers", EndpointGroups.toJson l.receivers)]

def decoder : Decoder EventLink :=
  (EventLink.mk <$> defaulted "senders" EndpointGroups.decoder ∅
    <*> defaulted "receivers" EndpointGroups.decoder ∅).decoder

end EventLink

namespace RequestLink

def toJson (l : RequestLink) : Json :=
  .record [("clients", EndpointGroups.toJson l.clients), ("server", EndpointGroups.toJson l.server)]

def decoder : Decoder RequestLink :=
  (RequestLink.mk <$> defaulted "clients" EndpointGroups.decoder ∅
    <*> defaulted "server" EndpointGroups.decoder ∅).decoder

end RequestLink

namespace DataLink

def toJson (l : DataLink) : Json :=
  .record [("writers", EndpointGroups.toJson l.writers),
    ("readers", EndpointGroups.toJson l.readers), ("controlled", .bool l.controlled)]

/-- A data link is controlled unless it says otherwise. -/
def decoder : Decoder DataLink :=
  (DataLink.mk <$> defaulted "writers" EndpointGroups.decoder ∅
    <*> defaulted "readers" EndpointGroups.decoder ∅ <*> defaulted "controlled" bool true).decoder

end DataLink

namespace Component

def toJson (c : Component) : Json :=
  .record [("name", .text c.name), ("directory", .text c.directory), ("uses", texts c.uses),
    ("module_types", .list (c.moduleTypes.map (·.toJson))),
    ("module_implementations", .list (c.moduleImplementations.map (·.toJson))),
    ("module_instances", .list (c.moduleInstances.map (·.toJson))),
    ("trigger_instances", .list (c.triggerInstances.map (·.toJson))),
    ("dynamic_trigger_instances", .list (c.dynamicTriggerInstances.map (·.toJson))),
    ("event_links", .list (c.eventLinks.map (·.toJson))),
    ("request_links", .list (c.requestLinks.map (·.toJson))),
    ("data_links", .list (c.dataLinks.map (·.toJson)))]

def decoder : Decoder Component :=
  (Component.mk <$> required "name" text <*> defaulted "directory" text ""
    <*> defaulted "uses" (list text) []
    <*> defaulted "module_types" (list ModuleType.decoder) []
    <*> defaulted "module_implementations" (list ModuleImplementation.decoder) []
    <*> defaulted "module_instances" (list ModuleInstance.decoder) []
    <*> defaulted "trigger_instances" (list TriggerInstance.decoder) []
    <*> defaulted "dynamic_trigger_instances" (list DynamicTriggerInstance.decoder) []
    <*> defaulted "event_links" (list EventLink.decoder) []
    <*> defaulted "request_links" (list RequestLink.decoder) []
    <*> defaulted "data_links" (list DataLink.decoder) []).decoder

end Component

namespace Library

def toJson (l : Library) : Json :=
  .record [("name", .text l.name), ("types", .list (l.types.map (·.toJson)))]

def decoder : Decoder Library :=
  (Library.mk <$> required "name" text <*> defaulted "types" (list TypeDecl.decoder) []).decoder

end Library

namespace DeployedModule

def toJson (m : DeployedModule) : Json :=
  .record [("component", .text m.component), ("module_instance", .text m.moduleInstance)]

def decoder : Decoder DeployedModule :=
  (DeployedModule.mk <$> required "component" text <*> required "module_instance" text).decoder

end DeployedModule

namespace ProtectionDomain

def toJson (d : ProtectionDomain) : Json :=
  .record [("name", .text d.name), ("deployed_modules", .list (d.deployedModules.map (·.toJson)))]

def decoder : Decoder ProtectionDomain :=
  (ProtectionDomain.mk <$> required "name" text
    <*> defaulted "deployed_modules" (list DeployedModule.decoder) []).decoder

end ProtectionDomain

namespace Deployment

def toJson (d : Deployment) : Json :=
  .record [("protection_domains", .list (d.protectionDomains.map (·.toJson)))]

def decoder : Decoder Deployment :=
  (Deployment.mk <$> defaulted "protection_domains" (list ProtectionDomain.decoder) []).decoder

end Deployment

namespace ComponentInstance

def toJson (c : ComponentInstance) : Json :=
  .record [("name", .text c.name), ("implementation", .text c.implementation),
    ("properties", .record (c.properties.toList.map fun e => (e.1, .text e.2)))]

def propertiesDecoder : Decoder (OrderedMap String String) := fun v =>
  OrderedMap.ofList <$> entries some text v

def decoder : Decoder ComponentInstance :=
  (ComponentInstance.mk <$> required "name" text <*> required "implementation" text
    <*> defaulted "properties" propertiesDecoder ∅).decoder

end ComponentInstance

def serviceJson (p : ComponentService) : Json :=
  .record [("component", .text p.component), ("service", .text p.service)]

def serviceDecoder : Decoder ComponentService :=
  (ComponentService.mk <$> required "component" text <*> required "service" text).decoder

namespace Wire

def toJson (w : Wire) : Json :=
  .record [("source", serviceJson w.source), ("target", serviceJson w.target)]

def decoder : Decoder Wire :=
  (Wire.mk <$> required "source" serviceDecoder <*> required "target" serviceDecoder).decoder

end Wire

namespace Assembly

def toJson (a : Assembly) : Json :=
  .record [("components", .list (a.components.map (·.toJson))),
    ("wires", .list (a.wires.map (·.toJson)))]

def decoder : Decoder Assembly :=
  (Assembly.mk <$> defaulted "components" (list ComponentInstance.decoder) []
    <*> defaulted "wires" (list Wire.decoder) []).decoder

end Assembly

namespace Project

def toJson (p : Project) : Json :=
  .record [("libraries", .list (p.libraries.map (·.toJson))),
    ("components", .list (p.components.map (·.toJson))), ("deployment", p.deployment.toJson),
    ("assembly", p.assembly.toJson)]

def decoder : Decoder Project :=
  (Project.mk <$> defaulted "libraries" (list Library.decoder) []
    <*> defaulted "components" (list Component.decoder) []
    <*> defaulted "deployment" Deployment.decoder ⟨[]⟩
    <*> defaulted "assembly" Assembly.decoder ⟨[], []⟩).decoder

def write (p : Project) : String := p.toJson.compact

def read (text : String) : Except Fault Project :=
  let document := Document.read text
  match decoder document.value with
  | .ok p => if document.ended then .ok p else .error .malformed
  | .error e => .error e

end Project

end Ecoa.Declared
