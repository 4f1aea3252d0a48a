import Ecoa.Model.Basic

/-!
# Walks

A walk goes through a model in a fixed order: each library followed by its types, the used
libraries, the logs, the times, and then every entity, kind by kind and by ascending number.
-/

namespace Ecoa.Model

inductive Stop where
  | library (name : String) (types : List TypeDecl)
  | type (library : String) (decl : TypeDecl)
  | uses (component : String) (libraries : List String)
  | log (scope : ModuleScope)
  | time (scope : ModuleScope)
  | entity (id : EntityId) (entity : Entity id.kind)

/-- A library and then its types. -/
def walkLibrary (library : String) (types : List TypeDecl) : List Stop :=
  .library library types :: types.map (.type library)

def walkStore (m : Model) (kind : EntityKind) : List Stop :=
  (m.store kind).numbered.map fun e => .entity ⟨kind, e.1⟩ e.2

def walk (m : Model) : List Stop :=
  m.sortedTypes.toList.flatMap (fun e => walkLibrary e.1 e.2) ++
    m.uses.toList.map (fun e => .uses e.1 e.2) ++ m.modules.values.map .log ++
    m.modules.values.map .time ++ EntityKind.all.flatMap m.walkStore

end Ecoa.Model
