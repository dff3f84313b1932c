import GatewayPolicy.Policy.Operation.Table

/-! # Operations with a result

  The result of such an operation is stored in a variable of the gateway that
  has the name of the local it is bound to. Later code may use the local.

  - `BoundOperation.run` gives the element that writes the variable.
-/

namespace GatewayPolicy

/-- An operation whose result is bound to a local name. -/
inductive BoundOperation where
  /-- A token of a managed identity. -/
  | managedIdentity
  /-- A value that was cached before. -/
  | cachedValue
  deriving DecidableEq, Repr, Inhabited

/-- The form of a look into the cache, for the variable that is written. -/
def cachedValueForm (name : String) : Form where
  element := "cache-lookup-value"
  rules := [.required ⟨"Key", "key"⟩, .supplied ⟨"variable-name", name⟩,
    .optional ⟨"DefaultValue", "default-value"⟩, .optional ⟨"CachingType", "caching-type"⟩]

/-- The form of an authentication whose token is bound. -/
def boundIdentityForm (name : String) : Form :=
  managedIdentityForm (.supplied ⟨"output-token-variable-name", name⟩)

/-- Gives up when the configuration names another variable for the token. -/
def checkOutputName (site : Site) (config : Value) (name : String) : Attempt Unit :=
  match config.field? "OutputTokenVariableName" with
  | none => pure ()
  | some explicit => do
    let text ← OptionT.lift (site.singleText (.field "OutputTokenVariableName") explicit).run
    if text == some name then pure ()
    else site.reject (.variableConflict (boundIdentityForm name).element name) explicit.span

namespace BoundOperation

/-- Every operation with a result, with the name it is called by. -/
def table : List (String × BoundOperation) :=
  [("AuthenticationManagedIdentity", managedIdentity), ("CacheLookupValue", cachedValue)]

/-- The operation of a name. -/
def named? (name : String) : Option BoundOperation := table.lookup name

/-- The element that a call adds; it writes the variable of the given name. -/
def run (site : Site) (b : Bindings) (call : Call) (name : String) :
    BoundOperation → Attempt Element
  | managedIdentity => do
    let config ← site.onlyConfiguration b call managedIdentitySchema.type
    checkOutputName site config name
    (boundIdentityForm name).read site config
  | cachedValue => do
    let config ← site.onlyConfiguration b call "CacheLookupValueConfig"
    (cachedValueForm name).read site config

end BoundOperation

end GatewayPolicy
