import Ecoa.Build.Builder
import Ecoa.Proofs.Json.Document
import Ecoa.Proofs.Type.RoundTrip

/-!
# Projects read back

Every part of a project is restored from what is written of it, and so the text of a project is
read as this project, with the keys of its maps in their order.
-/

namespace Ecoa.Declared

open Json Fields

theorem restores_optionalBool : Restores (Decoder.option Decoder.bool) optionalBool :=
  Restores.bool.option rfl (fun _ => rfl) nofun

theorem restores_count : Restores count fun n => .int n.toNat where
  plain n := by
    have hlimit : UInt32.size ≤ Token.doubleLimit := by decide +kernel
    exact .int (Nat.lt_of_lt_of_le n.toNat_lt hlimit)
  decode n := by
    have hnat : Decoder.natBelow UInt32.size (.int n.toNat) = .ok n.toNat := if_pos n.toNat_lt
    rw [count, hnat]
    exact congrArg Except.ok n.ofNat_toNat

theorem restores_optionalCount : Restores (Decoder.option count) optionalCount :=
  restores_count.option rfl (fun _ => rfl) nofun

theorem Parameter.restores : Restores Parameter.decoder Parameter.toJson :=
  Fields.restores (by decide) (fun p =>
    (Takes.required "name" .text p.name).map Parameter.mk
      |>.seq (.required "type" .text p.type))
    fun _ => rfl

theorem Event.restores : Restores Event.decoder Event.toJson :=
  Fields.restores (by decide) (fun e =>
    (Takes.required "name" .text e.name).map Event.mk
      |>.seq (.defaulted "inputs" Parameter.restores.list [] e.inputs))
    fun _ => rfl

theorem Request.restores : Restores Request.decoder Request.toJson :=
  Fields.restores (by decide) (fun r =>
    (Takes.required "name" .text r.name).map Request.mk
      |>.seq (.defaulted "inputs" Parameter.restores.list [] r.inputs)
      |>.seq (.defaulted "outputs" Parameter.restores.list [] r.outputs)
      |>.seq (.defaulted "is_synchronous" .bool false r.isSynchronous))
    fun _ => rfl

theorem DataRead.restores : Restores DataRead.decoder DataRead.toJson :=
  Fields.restores (by decide) (fun d =>
    (Takes.required "name" .text d.name).map DataRead.mk
      |>.seq (.required "type" .text d.type)
      |>.seq (.defaulted "max_versions" restores_optionalCount none d.maxVersions)
      |>.seq (.defaulted "notifying" .bool false d.notifying))
    fun _ => rfl

theorem DataWritten.restores : Restores DataWritten.decoder DataWritten.toJson :=
  Fields.restores (by decide) (fun d =>
    (Takes.required "name" .text d.name).map DataWritten.mk
      |>.seq (.required "type" .text d.type)
      |>.seq (.defaulted "max_versions" restores_optionalCount none d.maxVersions)
      |>.seq (.defaulted "write_only" .bool false d.writeOnly))
    fun _ => rfl

theorem Operations.restores : Restores Operations.decoder Operations.toJson :=
  Fields.restores (by decide) (fun o =>
    (Takes.defaulted "event_sent" Event.restores.list [] o.eventSent).map Operations.mk
      |>.seq (.defaulted "event_received" Event.restores.list [] o.eventReceived)
      |>.seq (.defaulted "request_sent" Request.restores.list [] o.requestSent)
      |>.seq (.defaulted "request_received" Request.restores.list [] o.requestReceived)
      |>.seq (.defaulted "data_read" DataRead.restores.list [] o.dataRead)
      |>.seq (.defaulted "data_written" DataWritten.restores.list [] o.dataWritten))
    fun _ => rfl

theorem Property.restores : Restores Property.decoder Property.toJson :=
  Fields.restores (by decide) (fun p =>
    (Takes.required "name" .text p.name).map Property.mk
      |>.seq (.required "type" .text p.type))
    fun _ => rfl

theorem Pinfo.restores : Restores Pinfo.decoder Pinfo.toJson :=
  Fields.restores (by decide) (fun p => (Takes.required "name" .text p.name).map Pinfo.mk)
    fun _ => rfl

theorem ModuleType.restores : Restores ModuleType.decoder ModuleType.toJson :=
  Fields.restores (by decide) (fun t =>
    (Takes.required "name" .text t.name).map ModuleType.mk
      |>.seq (.defaulted "operations" Operations.restores .none t.operations)
      |>.seq (.defaulted "properties" Property.restores.list [] t.properties)
      |>.seq (.defaulted "public_pinfos" Pinfo.restores.list [] t.publicPinfos)
      |>.seq (.defaulted "private_pinfos" Pinfo.restores.list [] t.privatePinfos))
    fun _ => rfl

theorem ModuleImplementation.restores :
    Restores ModuleImplementation.decoder ModuleImplementation.toJson :=
  Fields.restores (by decide) (fun m =>
    (Takes.required "name" .text m.name).map ModuleImplementation.mk
      |>.seq (.required "module_type" .text m.moduleType)
      |>.seq (.required "language" .text m.language))
    fun _ => rfl

theorem NamedValue.restores : Restores NamedValue.decoder NamedValue.toJson :=
  Fields.restores (by decide) (fun v =>
    (Takes.required "name" .text v.name).map NamedValue.mk
      |>.seq (.required "value" .text v.value))
    fun _ => rfl

theorem ModuleInstance.restores : Restores ModuleInstance.decoder ModuleInstance.toJson :=
  Fields.restores (by decide) (fun m =>
    (Takes.required "name" .text m.name).map ModuleInstance.mk
      |>.seq (.required "implementation" .text m.implementation)
      |>.seq (.defaulted "property_values" NamedValue.restores.list [] m.propertyValues)
      |>.seq (.defaulted "pinfo_values" NamedValue.restores.list [] m.pinfoValues))
    fun _ => rfl

theorem TriggerInstance.restores : Restores TriggerInstance.decoder TriggerInstance.toJson :=
  Fields.restores (by decide)
    (fun t => (Takes.required "name" .text t.name).map TriggerInstance.mk) fun _ => rfl

theorem DynamicTriggerInstance.restores :
    Restores DynamicTriggerInstance.decoder DynamicTriggerInstance.toJson :=
  Fields.restores (by decide) (fun t =>
    (Takes.required "name" .text t.name).map DynamicTriggerInstance.mk
      |>.seq (.defaulted "parameters" Parameter.restores.list [] t.parameters))
    fun _ => rfl

theorem Endpoint.restores : Restores Endpoint.decoder Endpoint.toJson :=
  Fields.restores (by decide) (fun e =>
    (Takes.defaulted "instance_name" .text "" e.instanceName).map Endpoint.mk
      |>.seq (.defaulted "operation_name" .text "" e.operation)
      |>.seq (.defaulted "activating" restores_optionalBool none e.activating)
      |>.seq (.defaulted "language" restores_optionalText none e.language))
    fun _ => rfl

theorem EndpointGroups.restores : Restores EndpointGroups.decoder EndpointGroups.toJson :=
  Endpoint.restores.list.map fun kind => by cases kind <;> rfl

theorem EventLink.restores : Restores EventLink.decoder EventLink.toJson :=
  Fields.restores (by decide) (fun l =>
    (Takes.defaulted "senders" EndpointGroups.restores ∅ l.senders).map EventLink.mk
      |>.seq (.defaulted "receivers" EndpointGroups.restores ∅ l.receivers))
    fun _ => rfl

theorem RequestLink.restores : Restores RequestLink.decoder RequestLink.toJson :=
  Fields.restores (by decide) (fun l =>
    (Takes.defaulted "clients" EndpointGroups.restores ∅ l.clients).map RequestLink.mk
      |>.seq (.defaulted "server" EndpointGroups.restores ∅ l.server))
    fun _ => rfl

theorem DataLink.restores : Restores DataLink.decoder DataLink.toJson :=
  Fields.restores (by decide) (fun l =>
    (Takes.defaulted "writers" EndpointGroups.restores ∅ l.writers).map DataLink.mk
      |>.seq (.defaulted "readers" EndpointGroups.restores ∅ l.readers)
      |>.seq (.defaulted "controlled" .bool true l.controlled))
    fun _ => rfl

theorem Component.restores : Restores Component.decoder Component.toJson :=
  Fields.restores (by decide) (fun c =>
    (Takes.required "name" .text c.name).map Component.mk
      |>.seq (.defaulted "directory" .text "" c.directory)
      |>.seq (.defaulted "uses" Restores.text.list [] c.uses)
      |>.seq (.defaulted "module_types" ModuleType.restores.list [] c.moduleTypes)
      |>.seq (.defaulted "module_implementations" ModuleImplementation.restores.list []
        c.moduleImplementations)
      |>.seq (.defaulted "module_instances" ModuleInstance.restores.list [] c.moduleInstances)
      |>.seq (.defaulted "trigger_instances" TriggerInstance.restores.list [] c.triggerInstances)
      |>.seq (.defaulted "dynamic_trigger_instances" DynamicTriggerInstance.restores.list []
        c.dynamicTriggerInstances)
      |>.seq (.defaulted "event_links" EventLink.restores.list [] c.eventLinks)
      |>.seq (.defaulted "request_links" RequestLink.restores.list [] c.requestLinks)
      |>.seq (.defaulted "data_links" DataLink.restores.list [] c.dataLinks))
    fun _ => rfl

theorem Library.restores : Restores Library.decoder Library.toJson :=
  Fields.restores (by decide) (fun l =>
    (Takes.required "name" .text l.name).map Library.mk
      |>.seq (.defaulted "types" TypeDecl.restores.list [] l.types))
    fun _ => rfl

theorem DeployedModule.restores : Restores DeployedModule.decoder DeployedModule.toJson :=
  Fields.restores (by decide) (fun m =>
    (Takes.required "component" .text m.component).map DeployedModule.mk
      |>.seq (.required "module_instance" .text m.moduleInstance))
    fun _ => rfl

theorem ProtectionDomain.restores : Restores ProtectionDomain.decoder ProtectionDomain.toJson :=
  Fields.restores (by decide) (fun d =>
    (Takes.required "name" .text d.name).map ProtectionDomain.mk
      |>.seq (.defaulted "deployed_modules" DeployedModule.restores.list [] d.deployedModules))
    fun _ => rfl

theorem Deployment.restores : Restores Deployment.decoder Deployment.toJson :=
  Fields.restores (by decide) (fun d =>
    (Takes.defaulted "protection_domains" ProtectionDomain.restores.list []
      d.protectionDomains).map Deployment.mk)
    fun _ => rfl

theorem ComponentInstance.restores : Restores ComponentInstance.decoder ComponentInstance.toJson :=
  Fields.restores (by decide) (fun c =>
    (Takes.required "name" .text c.name).map ComponentInstance.mk
      |>.seq (.required "implementation" .text c.implementation)
      |>.seq (.defaulted "properties" (Restores.text.map fun _ => rfl) ∅ c.properties))
    fun _ => rfl

theorem restores_service : Restores serviceDecoder serviceJson :=
  Fields.restores (by decide) (fun s =>
    (Takes.required "component" .text s.component).map ComponentService.mk
      |>.seq (.required "service" .text s.service))
    fun _ => rfl

theorem Wire.restores : Restores Wire.decoder Wire.toJson :=
  Fields.restores (by decide) (fun w =>
    (Takes.required "source" restores_service w.source).map Wire.mk
      |>.seq (.required "target" restores_service w.target))
    fun _ => rfl

theorem Assembly.restores : Restores Assembly.decoder Assembly.toJson :=
  Fields.restores (by decide) (fun a =>
    (Takes.defaulted "components" ComponentInstance.restores.list [] a.components).map Assembly.mk
      |>.seq (.defaulted "wires" Wire.restores.list [] a.wires))
    fun _ => rfl

namespace Project

theorem restores : Restores Project.decoder Project.toJson :=
  Fields.restores (by decide) (fun p =>
    (Takes.defaulted "libraries" Library.restores.list [] p.libraries).map Project.mk
      |>.seq (.defaulted "components" Component.restores.list [] p.components)
      |>.seq (.defaulted "deployment" Deployment.restores ⟨[]⟩ p.deployment)
      |>.seq (.defaulted "assembly" Assembly.restores ⟨[], []⟩ p.assembly))
    fun _ => rfl

theorem read_write (p : Project) : read p.write = .ok p := by
  have hdocument : Document.read p.write = ⟨p.toJson, true⟩ := (restores.plain p).read_compact
  simp only [read, hdocument, restores.decode]
  rfl

end Project

end Ecoa.Declared

namespace Ecoa.Builder

/-- A project is written as a plain value, of which it is made again, whatever text stands for this
value. Its own text is loaded as this project, and written again it is the same text. -/
theorem ofText_write (p : Declared.Project) :
    (p.toJson.Plain ∧ Declared.Project.decoder p.toJson = .ok p) ∧
    ofText p.write = .ok (new p) ∧
    (ofText p.write).map (·.project.write) = .ok p.write := by
  have hvalue := Declared.Project.restores
  have hload : ofText p.write = .ok (new p) := by
    rw [ofText, p.read_write]
  refine ⟨⟨hvalue.plain p, hvalue.decode p⟩, hload, ?_⟩
  rw [hload]
  rfl

end Ecoa.Builder
