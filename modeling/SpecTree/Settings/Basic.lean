import SpecTree.Decimal.Number
import SpecTree.Settings.Coerce
import SpecTree.Table

/-!
# Settings

What a project can configure, with defaults. Settings are read from values under their names;
a name that is not given takes its default, and a value of the wrong kind is an error.
-/

namespace SpecTree

structure Settings where
  provider : String := "openai"
  apiKey : Option String := none
  apiUrl : Option String := none
  compileModel : String := "gpt-4o"
  generateModel : String := "gpt-4o"
  logLevel : String := "INFO"
  planDirectory : String := ".aid-plan"
  outputDirectory : String := "build"
  specExtension : String := ".aid"
  /-- The length from which a spec is no longer small. -/
  smallSpec : Int := 100
  maxNodes : Int := 100
  maxCalls : Int := 100
  concurrency : Int := 5
  useCache : Bool := true
  parallelism : Int := 5
  addHeaders : Bool := true
  /-- The time of one provider call, in seconds. -/
  timeout : Number := .whole 300
  attempts : Int := 3
  /-- The waiting time after the first failed call, in seconds. -/
  baseDelay : Float := 1
  deriving Inhabited

namespace Settings

/-- The names under which settings are given. -/
def names : List String :=
  ["provider", "openai_api_key", "openai_base_url", "compile_model", "generate_model", "log_level",
   "plan_dir_name", "build_dir_name", "spec_extension", "small_spec_threshold", "max_nodes",
   "max_calls", "compile_concurrency", "use_cache", "build_parallelism", "add_source_headers",
   "provider_timeout_seconds", "provider_max_retries", "provider_retry_base_delay"]

/-- The other name of the key, which is preferred. -/
def preferredKeyName : String := "aid_openai_api_key"

/-- The value of a name or its default. -/
def given {α : Type} (values : Table Json) (name : String) (value? : Json → Option α)
    (fallback : α) : Option α :=
  match values.get? name with
  | some j => value? j
  | none => some fallback

/-- Settings from values under their names; other names are of no account. -/
def ofValues? (values : Table Json) : Option Settings := do
  let keyName :=
    if (values.get? preferredKeyName).isSome then preferredKeyName else "openai_api_key"
  return {
    provider := ← given values "provider" Json.text? "openai"
    apiKey := ← given values keyName optionalText? none
    apiUrl := ← given values "openai_base_url" optionalText? none
    compileModel := ← given values "compile_model" Json.text? "gpt-4o"
    generateModel := ← given values "generate_model" Json.text? "gpt-4o"
    logLevel := ← given values "log_level" Json.text? "INFO"
    planDirectory := ← given values "plan_dir_name" Json.text? ".aid-plan"
    outputDirectory := ← given values "build_dir_name" Json.text? "build"
    specExtension := ← given values "spec_extension" Json.text? ".aid"
    smallSpec := ← given values "small_spec_threshold" whole? 100
    maxNodes := ← given values "max_nodes" whole? 100
    maxCalls := ← given values "max_calls" whole? 100
    concurrency := ← given values "compile_concurrency" whole? 5
    useCache := ← given values "use_cache" Json.flag? true
    parallelism := ← given values "build_parallelism" whole? 5
    addHeaders := ← given values "add_source_headers" Json.flag? true
    timeout := ← given values "provider_timeout_seconds"
      (fun j => (real? j).map Number.fractional) (.whole 300)
    attempts := ← given values "provider_max_retries" whole? 3
    baseDelay := ← given values "provider_retry_base_delay" real? 1 }

def Number.toJson : Number → Json
  | .whole n => .int n
  | .fractional x => .float x

def textOrNull : Option String → Json
  | some s => .str s
  | none => .null

/-- All settings as values under their names. -/
def toValues (s : Settings) : Table Json :=
  Table.ofList
    [("provider", .str s.provider), ("openai_api_key", textOrNull s.apiKey),
     ("openai_base_url", textOrNull s.apiUrl), ("compile_model", .str s.compileModel),
     ("generate_model", .str s.generateModel), ("log_level", .str s.logLevel),
     ("plan_dir_name", .str s.planDirectory), ("build_dir_name", .str s.outputDirectory),
     ("spec_extension", .str s.specExtension), ("small_spec_threshold", .int s.smallSpec),
     ("max_nodes", .int s.maxNodes), ("max_calls", .int s.maxCalls),
     ("compile_concurrency", .int s.concurrency), ("use_cache", .bool s.useCache),
     ("build_parallelism", .int s.parallelism), ("add_source_headers", .bool s.addHeaders),
     ("provider_timeout_seconds", Number.toJson s.timeout),
     ("provider_max_retries", .int s.attempts),
     ("provider_retry_base_delay", .float s.baseDelay)]

/-- Settings with other values for some names. -/
def override? (s : Settings) (values : List (String × Json)) : Option Settings :=
  ofValues? (values.foldl (fun t v => t.put v.1 v.2) s.toValues)

/-- Names may be written with hyphens. -/
def canonicalName (name : String) : String := name.map fun c => if c = '-' then '_' else c

end Settings

end SpecTree
