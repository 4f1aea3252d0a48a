import Ecoa.Build.Config
import Ecoa.Component.Entities
import Ecoa.Declared.Json
import Ecoa.Linking.Data
import Ecoa.Linking.Events
import Ecoa.Linking.Relay
import Ecoa.Linking.Requests
import Ecoa.Property.Check
import Ecoa.Type.Order

/-!
# Building models

A builder holds a project and builds its model once: register and sort the types, index the
deployment, add the entities of every component implementation, check the properties, link events,
requests and data, and relay the dynamic triggers.
-/

namespace Ecoa

/-- Why a file cannot be read. -/
inductive ReadFailure where
  | missing
  | directory

def ReadFailure.message : ReadFailure → String
  | .missing => "No such file or directory (os error 2)"
  | .directory => "Is a directory (os error 21)"

inductive BuildError where
  | model (e : ModelError)
  | text (fault : Json.Fault)
  | unreadable (path : String) (failure : ReadFailure)
  | noComponents
  | alreadyBuilt

namespace BuildError

/-- The message of an error; the text of a project has none. -/
def message : BuildError → String
  | .model e => e.message
  | .text _ => "invalid project declaration"
  | .unreadable path failure => "cannot read " ++ path ++ ": " ++ failure.message
  | .noComponents => "project declares no component implementation"
  | .alreadyBuilt => "model has already been built"

end BuildError

structure BuildSummary where
  components : Nat
  entities : Nat
  propertiesChecked : Nat
  bindings : Nat
  redirected : Nat

namespace Declared.Project

/-- Register libraries in order, up to one with a type that is declared already. -/
def registerAll (r : TypeRegistry) : List Library → Except ModelError TypeRegistry
  | [] => .ok r
  | l :: ls =>
    match r.register l.name l.types with
    | (r, none) => registerAll r ls
    | (_, some e) => .error e

def registry (p : Project) : Except ModelError TypeRegistry := registerAll .empty p.libraries

end Declared.Project

namespace Model

/-- Keep every library in emission order. -/
def sortTypes (m : Model) : Except ModelError Model :=
  m.registry.libraryNames.foldlM (fun m library => do
    let sorted ← m.registry.sorted library
    return { m with sortedTypes := m.sortedTypes.insert library sorted }) m

/-- Add component implementations in order, and count their entities. -/
def addComponents (m : Model) (layout : Layout) :
    List Declared.Component → Except ModelError (Model × Nat)
  | [] => .ok (m, 0)
  | c :: cs =>
    match m.addComponent layout c with
    | (m, .ok counts) => do
      let (m, n) ← m.addComponents layout cs
      return (m, counts.entities + n)
    | (_, .error e) => .error e

/-- Bind the entities and relay the dynamic triggers; the number is that of redirected bindings. -/
def link (m : Model) : Model × Nat :=
  let m := m.linkEvents.1
  let m := m.linkRequests.1
  let m := m.linkData.1
  let (m, counts) := m.relay
  (m, counts.redirected)

end Model

namespace Declared.Project

/-- The model of a project that has components. -/
def model (p : Project) (config : BuildConfig) : Except ModelError (Model × BuildSummary) := do
  let registry ← p.registry
  let deployment ← Ecoa.Deployment.build p.deployment p.assembly
  let _ ← Component.checkLanguages p.components
  let m ← (Model.empty registry deployment).sortTypes
  let (m, entities) ← m.addComponents config.layout p.components
  let checked ← m.checkProperties
  let (m, redirected) := m.link
  return (m, ⟨p.components.length, entities, checked, m.bindingCount, redirected⟩)

end Declared.Project

structure Builder where
  project : Declared.Project
  config : BuildConfig
  model : Option Model

namespace Builder

def new (p : Declared.Project) : Builder := ⟨p, .default, none⟩

def withConfig (b : Builder) (config : BuildConfig) : Builder := { b with config := config }

def ofText (text : String) : Except BuildError Builder :=
  match Declared.Project.read text with
  | .ok p => .ok (new p)
  | .error fault => .error (.text fault)

/-- A builder for the project in a file, which lies in the directory of the file. `content` is
what the file holds, if there is such a file. -/
def ofFile (path : String) (content : Option String) : Except BuildError Builder :=
  if Path.isDirectory path then .error (.unreadable path .directory)
  else match content with
    | none => .error (.unreadable path .missing)
    | some text => (·.withConfig (.inDirectory (Path.parent path))) <$> ofText text

def isBuilt (b : Builder) : Bool := b.model.isSome

/-- Build the model, unless it is built. -/
def build (b : Builder) : Builder × Except BuildError BuildSummary :=
  if b.isBuilt then (b, .error .alreadyBuilt)
  else if b.project.components.isEmpty then (b, .error .noComponents)
  else match b.project.model b.config with
    | .ok (m, summary) => ({ b with model := some m }, .ok summary)
    | .error e => (b, .error (.model e))

end Builder

end Ecoa
