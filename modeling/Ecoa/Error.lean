import Ecoa.Text.Split

/-!
# Errors of a model

Why no model can be built from a project. Links without a counterpart are no errors: they bind
nothing.
-/

namespace Ecoa

inductive ModelError where
  | unsupportedLanguage (language module : String)
  | unsupportedPropertyType (typeName property : String)
  | invalidPropertyValue (property reason : String)
  | unresolvedType (name context : String)
  | cyclicTypeDependency (library : String) (chain : List String)
  | duplicateType (name : String)
  | unknownModuleType (moduleType module : String)
  | unknownImplementation (implementation instanceName : String)
  | unknownComponentInstance (component context : String)
  | unknownAssemblyProperty (name component context : String)
  deriving DecidableEq

namespace ModelError

def message : ModelError → String
  | .unsupportedLanguage language module =>
    "unsupported implementation language " ++ language ++ " for module " ++ module
  | .unsupportedPropertyType typeName property =>
    "unsupported type " ++ typeName ++ " for property " ++ property
  | .invalidPropertyValue property reason => reason ++ " for property value " ++ property
  | .unresolvedType name context => "unresolved type '" ++ name ++ "' referenced by " ++ context
  | .cyclicTypeDependency library chain =>
    "cyclic type dependency in library " ++ library ++ ": " ++ Text.joinWith " -> " chain
  | .duplicateType name => "type " ++ name ++ " is declared more than once"
  | .unknownModuleType moduleType module =>
    "unknown module type " ++ moduleType ++ " for module implementation " ++ module
  | .unknownImplementation implementation instanceName =>
    "unknown module implementation " ++ implementation ++ " for module instance " ++ instanceName
  | .unknownComponentInstance component context =>
    "unknown component instance " ++ component ++ " referenced by " ++ context
  | .unknownAssemblyProperty name component context =>
    "unknown assembly property " ++ name ++ " of component " ++ component ++ " referenced by " ++
      context

def isPropertyError : ModelError → Bool
  | .unsupportedPropertyType .. | .invalidPropertyValue .. => true
  | _ => false

end ModelError

end Ecoa
