import Ecoa.Model.Basic

/-!
# Visitors

A visitor has a method for everything that a model is made of, one for each kind of entity among
them. It is sent through the libraries, the used libraries, the logs and the times, and then through
the stores one after the other. An entity comes with its id.
-/

namespace Ecoa

/-- The methods of a visitor, which change its state. -/
structure Visitor (σ : Type) where
  library : String → List TypeDecl → σ → σ
  typeDecl : String → TypeDecl → σ → σ
  uses : String → List String → σ → σ
  log : ModuleScope → σ → σ
  time : ModuleScope → σ → σ
  eventSend : Event → EntityId → σ → σ
  eventReceived : Event → EntityId → σ → σ
  requestSend : RequestSend → EntityId → σ → σ
  requestReceived : RequestReceived → EntityId → σ → σ
  dataRead : DataRead → EntityId → σ → σ
  dataWritten : DataWritten → EntityId → σ → σ
  property : Property → EntityId → σ → σ
  pinfo : Pinfo → EntityId → σ → σ
  external : External → EntityId → σ → σ
  trigger : Trigger → EntityId → σ → σ
  dynamicTriggerSend : DynamicTrigger → EntityId → σ → σ
  dynamicTriggerReceived : DynamicTrigger → EntityId → σ → σ

namespace Visitor

variable {σ : Type}

/-- What a visitor does with a library, unless it has a way of its own: visit each declaration. -/
def walkLibrary (v : Visitor σ) (library : String) (types : List TypeDecl) (s : σ) : σ :=
  types.foldl (fun s d => v.typeDecl library d s) s

/-- The method for the entities of a kind. -/
def accept (v : Visitor σ) : (kind : EntityKind) → Entity kind → EntityId → σ → σ
  | .eventSend => v.eventSend
  | .eventReceived => v.eventReceived
  | .requestSend => v.requestSend
  | .requestReceived => v.requestReceived
  | .dataRead => v.dataRead
  | .dataWritten => v.dataWritten
  | .property => v.property
  | .pinfo => v.pinfo
  | .external => v.external
  | .trigger => v.trigger
  | .dynamicTriggerSend => v.dynamicTriggerSend
  | .dynamicTriggerReceived => v.dynamicTriggerReceived

/-- Visit the entities of one kind by ascending number. -/
def walkStore (v : Visitor σ) (kind : EntityKind) (store : Store (Entity kind)) (s : σ) : σ :=
  store.numbered.foldl (fun s e => v.accept kind e.2 ⟨kind, e.1⟩ s) s

def walkModel (v : Visitor σ) (m : Model) (s : σ) : σ :=
  let s := m.sortedTypes.toList.foldl (fun s e => v.library e.1 e.2 s) s
  let s := m.uses.toList.foldl (fun s e => v.uses e.1 e.2 s) s
  let s := m.modules.values.foldl (fun s scope => v.log scope s) s
  let s := m.modules.values.foldl (fun s scope => v.time scope s) s
  let s := v.walkStore .eventSend m.eventsSend s
  let s := v.walkStore .eventReceived m.eventsReceived s
  let s := v.walkStore .requestSend m.requestsSend s
  let s := v.walkStore .requestReceived m.requestsReceived s
  let s := v.walkStore .dataRead m.dataRead s
  let s := v.walkStore .dataWritten m.dataWritten s
  let s := v.walkStore .property m.properties s
  let s := v.walkStore .pinfo m.pinfos s
  let s := v.walkStore .external m.externals s
  let s := v.walkStore .trigger m.triggers s
  let s := v.walkStore .dynamicTriggerSend m.dynamicTriggersSend s
  v.walkStore .dynamicTriggerReceived m.dynamicTriggersReceived s

end Visitor

end Ecoa
