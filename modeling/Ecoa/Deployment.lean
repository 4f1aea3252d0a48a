import Ecoa.Declared.Project
import Ecoa.Error
import Ecoa.OrderedMap
import Ecoa.Wiring

/-!
# Deployments

Where modules run: under which component instances each module instance is deployed, and which
services the wires of the assembly join. A wire has no direction.
-/

namespace Ecoa

/-- The key of an instance in a component implementation. -/
def instanceKey (implementation moduleInstance : String) : String :=
  implementation ++ ":" ++ moduleInstance

structure Deployment where
  components : OrderedMap String Declared.ComponentInstance
  /-- Deployed modules in order: the key of each, and the component instance. -/
  placements : List (String × String)
  wires : List (ComponentService × ComponentService)

namespace Deployment

def empty : Deployment := ⟨∅, [], []⟩

/-- One deployed module of a domain. -/
def place (components : OrderedMap String Declared.ComponentInstance) (domain : String)
    (m : Declared.DeployedModule) : Except ModelError (String × String) :=
  match components.get? m.component with
  | some c => .ok (instanceKey c.implementation m.moduleInstance, m.component)
  | none => .error (.unknownComponentInstance m.component ("protection domain " ++ domain))

/-- One wire, by its number in the assembly. -/
def connect (components : OrderedMap String Declared.ComponentInstance) (w : Declared.Wire)
    (number : Nat) : Except ModelError (ComponentService × ComponentService) := do
  for p in [w.source, w.target] do
    if !components.contains p.component then
      throw (.unknownComponentInstance p.component
        ("wire #" ++ number.repr ++ " (" ++ p.service ++ ")"))
  return (w.source, w.target)

def build (deployment : Declared.Deployment) (assembly : Declared.Assembly) :
    Except ModelError Deployment := do
  let components := OrderedMap.ofList (assembly.components.map fun c => (c.name, c))
  let modules := deployment.protectionDomains.flatMap fun d =>
    d.deployedModules.map (d.name, ·)
  let placements ← modules.mapM fun m => place components m.1 m.2
  let wires ← assembly.wires.zipIdx.mapM fun w => connect components w.1 w.2
  return ⟨components, placements, wires⟩

/-- Append a name unless it is in the list. -/
def addName (names : List String) (name : String) : List String :=
  if name ∈ names then names else names ++ [name]

/-- The component instances under each key. -/
def names (d : Deployment) : OrderedMap String (List String) :=
  d.placements.foldl (fun names p => names.alter p.1 fun found => addName (found.getD []) p.2) ∅

/-- The component instances under which a module instance is deployed. -/
def componentNames (d : Deployment) (implementation moduleInstance : String) : List String :=
  (d.names.get? (instanceKey implementation moduleInstance)).getD []

/-- Every deployed module instance with its component instances. -/
def bindings (d : Deployment) : List (String × List String) := d.names.toList

def implementationOf? (d : Deployment) (component : String) : Option String :=
  (d.components.get? component).map (·.implementation)

def componentProperty? (d : Deployment) (component property : String) : Option String :=
  (d.components.get? component).bind (·.properties.get? property)

/-- The other end of a wire that has `p` as an end. -/
def otherEnd? (p : ComponentService) (wire : ComponentService × ComponentService) :
    Option ComponentService :=
  if wire.1 = p then some wire.2 else if wire.2 = p then some wire.1 else none

def wiring (d : Deployment) : Wiring := .ofWires d.wires

/-- The services that wires join to a service, in the order of the wires. -/
def wiredServices (d : Deployment) (p : ComponentService) : List ComponentService :=
  d.wiring.servicesAlong d.wiring.edgesAt p

end Deployment

end Ecoa
