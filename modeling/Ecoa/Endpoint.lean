import Ecoa.OrderedMap
import Ecoa.Text.Split

/-!
# Link endpoints

An endpoint is one side of a declared link. Endpoints are the same when they agree in kind,
instance, operation and language (`Endpoint.id`); their other attributes do not tell them apart.
`Links` gives each endpoint of an operation the endpoints on the opposite side.
-/

namespace Ecoa

inductive EndpointKind where
  | moduleInstance
  | service
  | reference
  | external
  | trigger
  | dynamicTrigger
  deriving DecidableEq

namespace EndpointKind

def all : List EndpointKind :=
  [.moduleInstance, .service, .reference, .external, .trigger, .dynamicTrigger]

def keyword : EndpointKind → String
  | .moduleInstance => "module_instance"
  | .service => "service"
  | .reference => "reference"
  | .external => "external"
  | .trigger => "trigger"
  | .dynamicTrigger => "dynamic_trigger"

def ofKeyword? (s : String) : Option EndpointKind := all.find? (·.keyword = s)

/-- The link goes on outside the component, over the wires of the assembly. -/
def isWired : EndpointKind → Bool
  | .service | .reference => true
  | _ => false

end EndpointKind

/-- What tells endpoints apart. -/
structure EndpointId where
  kind : EndpointKind
  instanceName : String
  operation : String
  language : Option String
  deriving DecidableEq

structure Endpoint extends EndpointId where
  activating : Option Bool
  controlled : Option Bool

namespace Endpoint

abbrev id (e : Endpoint) : EndpointId := e.toEndpointId

def new (kind : EndpointKind) (instanceName operation : String) : Endpoint :=
  ⟨⟨kind, instanceName, operation, none⟩, none, none⟩

/-- Languages are kept in lower case. -/
def withLanguage (e : Endpoint) (language : String) : Endpoint :=
  { e with language := some (Text.lowerAscii language) }

def text (e : Endpoint) : String :=
  e.kind.keyword ++ "(" ++ e.instanceName ++ ":" ++ e.operation ++ ")"

/-- The endpoint is of this kind and stands for this operation, in whatever language. -/
def isFor (e : Endpoint) (kind : EndpointKind) (instanceName operation : String) : Bool :=
  e.kind = kind ∧ e.instanceName = instanceName ∧ e.operation = operation

end Endpoint

/-- Own endpoints, each with the opposite ones, in order of declaration. -/
abbrev Links := List (Endpoint × List Endpoint)

namespace Links

def has (links : Links) (own : Endpoint) : Bool := links.any (·.1.id = own.id)

/-- Set the opposite side of an own endpoint; one that is present keeps its place. -/
def insert (links : Links) (own : Endpoint) (opposite : List Endpoint) : Links :=
  if links.has own then links.map fun e => if e.1.id = own.id then (e.1, opposite) else e
  else links ++ [(own, opposite)]

def ofList (entries : List (Endpoint × List Endpoint)) : Links :=
  entries.foldl (fun links e => insert links e.1 e.2) []

/-- Append an endpoint unless it is in the list. -/
def addEndpoint (es : List Endpoint) (e : Endpoint) : List Endpoint :=
  if es.any (·.id = e.id) then es else es ++ [e]

/-- Join one own endpoint to more opposite ones. -/
def join (links : Links) (own : Endpoint) (opposite : List Endpoint) : Links :=
  if links.has own then
    links.map fun e => if e.1.id = own.id then (e.1, opposite.foldl addEndpoint e.2) else e
  else links ++ [(own, opposite.foldl addEndpoint [])]

/-- Join every own endpoint to every opposite one. -/
def joinAll (links : Links) (own opposite : List Endpoint) : Links :=
  own.foldl (fun links e => links.join e opposite) links

end Links

end Ecoa
