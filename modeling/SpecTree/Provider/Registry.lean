import SpecTree.Log.Level
import SpecTree.Path.Basic
import SpecTree.Provider.Policy
import SpecTree.Settings.Basic
import SpecTree.Store.Basic
import SpecTree.Table
import SpecTree.Text.Lowercase
import SpecTree.Yaml.Reader

/-!
# The registry of providers

Providers are registered under names and aliases, in any case, as factories that build them from
settings. A provider is built when it is first asked for and then kept together with the policy of
its settings; registering its name again discards it. A configuration file names a provider and
settings for it.
-/

namespace SpecTree

/-- A provider that has been built, with the policy for calling it. Instances are numbered. -/
structure Instance (π : Type) where
  number : Nat
  provider : π
  policy : CallPolicy Number

/-- How calls are made under some settings. -/
def Settings.callPolicy (s : Settings) : CallPolicy Number :=
  ⟨s.timeout, s.attempts, .fractional s.baseDelay⟩

/-- Factories of providers of type `π`, their aliases, and what has been built and read. -/
structure Registry (π : Type) where
  factories : Table (Settings → Except Failure π) := {}
  aliases : Table String := {}
  instances : List (String × Instance π) := []
  built : Nat := 0
  /-- Configuration files that have been read, under their canonical paths. -/
  configurations : List (String × List (Yaml.Value × Yaml.Value)) := []

/-- Why a configuration file gives no provider. -/
inductive ConfigurationError where
  | missing (path : String)
  | unreadable (problem : Yaml.Problem)
  | notMapping (path : String)
  | noProvider (path : String)
  /-- A key is neither a text nor bytes or a date. -/
  | invalidKey
  /-- A key is bytes or a date. -/
  | oddKey
  /-- A value is of the wrong kind. -/
  | invalidValue
  | file (error : FileError)
  | provider (failure : Failure)

namespace ConfigurationError

def message : ConfigurationError → String
  | missing path => "Provider configuration not found: " ++ path
  | unreadable problem => problem.message
  | notMapping path => "Provider configuration must be a mapping: " ++ path
  | noProvider path => "Missing required field 'provider' in " ++ path
  | invalidKey | oddKey => "A key is not a text"
  | invalidValue => "A value is of the wrong kind"
  | file error => error.message
  | provider failure => failure.message

end ConfigurationError

namespace Registry

variable {π : Type}

/-! ## Names -/

/-- Adds an alias, with a warning if it is taken from another provider. -/
def addAlias (r : Registry π) (name written : String) : Registry π × List Log.Line :=
  let other := Text.lower written
  let lines : List Log.Line :=
    match r.aliases.get? other with
    | some old =>
      if old = name then []
      else
        [⟨.warning, "Alias '" ++ other ++ "' already mapped to '" ++ old ++ "', overwriting with '"
          ++ name ++ "'"⟩]
    | none => []
  ({ r with aliases := r.aliases.put other name }, lines)

def addAliases (r : Registry π) (name : String) : List String → Registry π × List Log.Line
  | [] => (r, [])
  | written :: rest =>
    let (r, lines) := r.addAlias name written
    let (r, more) := r.addAliases name rest
    (r, lines ++ more)

/-- Registers a factory; an instance built before under the name is discarded. -/
def register (r : Registry π) (name : String) (factory : Settings → Except Failure π)
    (aliases : List String) : Registry π × List Log.Line :=
  let name := Text.lower name
  let lines : List Log.Line :=
    if (r.factories.get? name).isSome then
      [⟨.warning, "Provider '" ++ name ++ "' already registered, overwriting"⟩]
    else []
  let r :=
    { r with
      factories := r.factories.put name factory
      instances := r.instances.filter (·.1 ≠ name) }
  let (r, more) := r.addAliases name aliases
  (r, lines ++ more)

/-- The name under which a provider is registered; names come before aliases. -/
def resolve? (r : Registry π) (name : String) : Option String :=
  let name := Text.lower name
  if (r.factories.get? name).isSome then some name else r.aliases.get? name

/-- The registered names in ascending order. -/
def names (r : Registry π) : List String := r.factories.names.mergeSort fun a b => a ≤ b

/-! ## Instances -/

def unknown (r : Registry π) (name : String) : Failure :=
  ⟨.provider, "Unknown provider: '" ++ name ++ "'. Supported providers: "
    ++ String.intercalate ", " r.names⟩

/-- The provider of a name, built with the settings if it has not been built before. -/
def get (r : Registry π) (name : String) (settings : Settings) :
    Registry π × Except Failure (Instance π) :=
  match r.resolve? name with
  | none => (r, .error (r.unknown name))
  | some canonical =>
    match r.instances.lookup canonical, r.factories.get? canonical with
    | some built, _ => (r, .ok built)
    | none, some factory =>
      match factory settings with
      | .error f => (r, .error f)
      | .ok provider =>
        let built : Instance π := ⟨r.built, provider, settings.callPolicy⟩
        ({ r with instances := (canonical, built) :: r.instances, built := r.built + 1 }, .ok built)
    | none, none => (r, .error (r.unknown name))

/-! ## Configuration files -/

/-- The entries of a configuration file, read at most once. -/
def readConfiguration (r : Registry π) (s : Store) (path : String) :
    Registry π × Except ConfigurationError (List (Yaml.Value × Yaml.Value)) :=
  let shown := Path.assemble [path]
  let canonical := s.canonical path
  match r.configurations.lookup canonical with
  | some entries => (r, .ok entries)
  | none =>
    match s.isPresent path with
    | .error e => (r, .error (.file e))
    | .ok false => (r, .error (.missing shown))
    | .ok true =>
      match s.readText path with
      | .error e => (r, .error (.file e))
      | .ok text =>
        match Yaml.read text with
        | .error e => (r, .error (.unreadable e))
        | .ok (.map entries) =>
          if entries.any fun (key, _) => key matches .text "provider" then
            ({ r with configurations := (canonical, entries) :: r.configurations }, .ok entries)
          else (r, .error (.noProvider shown))
        | .ok _ => (r, .error (.notMapping shown))

/-- The values that a configuration file gives to settings. -/
def overrides :
    List (Yaml.Value × Yaml.Value) → Except ConfigurationError (List (String × Json))
  | [] => .ok []
  | (key, value) :: rest =>
    match key with
    | .text key => do
      let values ← overrides rest
      let name := Settings.canonicalName key
      return if Settings.names.contains name then (name, value.setting) :: values else values
    | .bytes _ | .date _ | .moment _ => .error .oddKey
    | _ => .error .invalidKey

/-- The provider that a configuration file names, with its settings on top of `base`. -/
def ofConfiguration (r : Registry π) (s : Store) (path : String) (base : Settings) :
    Registry π × Except ConfigurationError (Instance π) :=
  match r.readConfiguration s path with
  | (r, .error e) => (r, .error e)
  | (r, .ok entries) =>
    match overrides entries with
    | .error e => (r, .error e)
    | .ok values =>
      match base.override? values with
      | none => (r, .error .invalidValue)
      | some settings =>
        let name := entries.findSome? fun (key, value) =>
          match key with
          | .text "provider" => some value.display
          | _ => none
        let (r, built) := r.get (name.getD "") settings
        (r, built.mapError .provider)

end Registry

end SpecTree
