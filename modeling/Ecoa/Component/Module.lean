import Ecoa.Declared.Project
import Ecoa.Entity.Basic
import Ecoa.Error

/-!
# Module implementations of a component

A site is a module implementation with its type and its instances. Every instance must name a
declared implementation, and every implementation a declared type and a known language.
-/

namespace Ecoa

structure ModuleSite where
  scope : ModuleScope
  moduleType : Declared.ModuleType
  instances : List String

namespace ModuleSite

def checkInstance (c : Declared.Component) (i : Declared.ModuleInstance) : Except ModelError Unit :=
  match c.moduleImplementation? i.implementation with
  | some _ => .ok ()
  | none => .error (.unknownImplementation i.implementation (c.name ++ ":" ++ i.name))

def ofImplementation (c : Declared.Component) (m : Declared.ModuleImplementation) :
    Except ModelError ModuleSite :=
  let key := c.name ++ ":" ++ m.name
  match c.moduleType? m.moduleType with
  | none => .error (.unknownModuleType m.moduleType key)
  | some type =>
    match Language.parse? m.language with
    | none => .error (.unsupportedLanguage m.language key)
    | some language => .ok ⟨⟨c.name, type.name, m.name, language⟩, type, c.instancesOf m.name⟩

def all (c : Declared.Component) : Except ModelError (List ModuleSite) := do
  c.moduleInstances.forM (checkInstance c)
  c.moduleImplementations.mapM (ofImplementation c)

/-- The place of an operation in messages. -/
def locate (site : ModuleSite) (operation : String) : String := site.scope.key ++ ":" ++ operation

end ModuleSite

namespace Declared.Component

/-- Check the language of every module implementation, and count them. -/
def checkLanguages (components : List Component) : Except ModelError Nat := do
  let modules := components.flatMap fun c => c.moduleImplementations.map (c.name, ·)
  modules.forM fun m =>
    if (Language.parse? m.2.language).isSome then .ok ()
    else .error (.unsupportedLanguage m.2.language (m.1 ++ ":" ++ m.2.name))
  return modules.length

end Declared.Component

end Ecoa
