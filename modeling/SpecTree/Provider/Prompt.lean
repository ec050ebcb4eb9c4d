import SpecTree.Provider.Answer
import SpecTree.Text.Blank

/-!
# Prompts

The messages that put a request to a language model: the standing instructions of the task, and
the node's context and spec.
-/

namespace SpecTree

inductive Role where
  | system
  | user
  deriving Repr, DecidableEq

def Role.name : Role → String
  | .system => "system"
  | .user => "user"

structure Message where
  role : Role
  content : String
  deriving Repr, DecidableEq

/-- What a provider is asked to do. -/
inductive Task where
  | compile
  | generate
  deriving Repr, DecidableEq

namespace Task

def name : Task → String
  | compile => "compile"
  | generate => "generate"

/-- The standing instructions of a task. -/
def instructions : Task → String
  | compile => String.intercalate "\n" [
    "You are an AI assistant that breaks software specifications down into modular components.",
    "",
    "Analyze the specification and decompose it into child modules. Each child should be:",
    "- Cohesive: focused on a single responsibility",
    "- Well-named: a short, descriptive identifier",
    "- Appropriately sized: neither too broad nor too granular",
    "",
    "You author the context each child receives. A child sees only what you give it, so",
    "hand each child exactly the interfaces, constraints, suggestions and utilities it needs.",
    "",
    "Respond with JSON only, using this structure:",
    "\x7b",
    "  \"children\": [",
    "    \x7b",
    "      \"name\": \"module-name\",",
    "      \"is_leaf\": false,",
    "      \"spec\": \"Specification text for the child (the same spec language as the input)\",",
    "      \"tags\": [\"tag\"],",
    "      \"context\": \x7b",
    "        \"interfaces\": \x7b\"InterfaceName\": \x7b\"source\": \"node/path\", \"definition\": \"...\"\x7d\x7d,",
    "        \"constraints\": [\x7b\"rule\": \"...\", \"source\": \"node/path\", \"important\": true\x7d],",
    "        \"suggestions\": [\x7b\"rule\": \"...\", \"source\": \"node/path\"\x7d],",
    "        \"utilities\": [\x7b\"name\": \"...\", \"signature\": \"...\", \"location\": \"...\", \"source\": \"node/path\"\x7d],",
    "        \"forwarding\": [\"InterfaceName\"]",
    "      \x7d",
    "    \x7d",
    "  ],",
    "  \"interfaces\": [\x7b\"name\": \"InterfaceName\", \"definition\": \"...\", \"source\": \"node/path\"\x7d],",
    "  \"constraints\": [\x7b\"rule\": \"...\", \"source\": \"node/path\", \"important\": true\x7d],",
    "  \"suggestions\": [\x7b\"rule\": \"...\", \"source\": \"node/path\"\x7d],",
    "  \"utilities\": [],",
    "  \"questions\": [\x7b\"id\": \"q1\", \"question\": \"...\", \"context\": \"...\", \"assumption\": \"...\", \"impact\": \"...\", \"options\": [\x7b\"label\": \"...\"\x7d]\x7d],",
    "  \"considerations\": [\x7b\"id\": \"c1\", \"note\": \"...\", \"blocking\": false\x7d]",
    "\x7d",
    "",
    "Rules:",
    "- Return an empty children list when the module is small enough to implement directly",
    "- Mark a child is_leaf when it is small enough to implement without further breakdown",
    "- Note ambiguities as questions together with the assumption you made",
    "- Constraints marked important MUST be followed; the rest SHOULD be"]
  | generate => String.intercalate "\n" [
    "You are an AI assistant that implements specifications as working code.",
    "",
    "- Write clean, idiomatic code with appropriate error handling",
    "- Respect every constraint in the context, especially those marked MUST",
    "- Use the interfaces and utilities from the context instead of redefining them",
    "- File paths are relative to the build output directory",
    "",
    "Respond with JSON only, using this structure:",
    "\x7b",
    "  \"files\": [\x7b\"path\": \"relative/path/to/file\", \"content\": \"...\"\x7d],",
    "  \"questions\": [\x7b\"id\": \"q1\", \"question\": \"...\", \"context\": \"...\", \"assumption\": \"...\", \"impact\": \"...\"\x7d],",
    "  \"considerations\": [\x7b\"id\": \"c1\", \"note\": \"...\", \"blocking\": false\x7d]",
    "\x7d"]

/-- What the user's message asks for at its end. -/
def request : Task → String
  | compile => "Break this specification down into child modules."
  | generate => "Generate the implementation for this leaf module."

end Task

namespace Context

def interfaceLines (name : String) (i : Interface) : List String :=
  ["\n**" ++ name ++ "** (from " ++ i.source ++ "):", "```", i.definition, "```"]

def constraintLine (c : Constraint) : String :=
  "- " ++ (if c.important then "**[MUST]**" else "[SHOULD]") ++ " " ++ c.rule
    ++ " (from " ++ c.source ++ ")"

def suggestionLine (s : Suggestion) : String := "- " ++ s.rule ++ " (from " ++ s.source ++ ")"

def utilityLine (u : Utility) : String :=
  "- **" ++ u.name ++ "**: `" ++ u.signature ++ "` at " ++ u.location

/-- A heading with its lines, unless there are none. -/
def underHeading (heading : String) (lines : List String) : List String :=
  if lines.isEmpty then [] else heading :: lines

/-- A context in sections, for a prompt. -/
def markdown (c : Context) : String :=
  let lines :=
    underHeading "### Available Interfaces"
      (c.interfaces.entries.flatMap fun (name, i) => interfaceLines name i)
    ++ underHeading "\n### Constraints" (c.constraints.map constraintLine)
    ++ underHeading "\n### Suggestions" (c.suggestions.map suggestionLine)
    ++ underHeading "\n### Available Utilities" (c.utilities.map utilityLine)
    ++ underHeading "\n### Forward To Children"
      (if c.forwarded.isEmpty then [] else [String.intercalate ", " c.forwarded])
  let text := Text.strip (String.intercalate "\n" lines)
  if text.isEmpty then "(no context)" else text

end Context

/-- The messages that put a request to a language model. -/
def prompt (task : Task) (r : Request) : List Message :=
  [⟨.system, task.instructions⟩,
   ⟨.user, "# Module: " ++ r.nodePath ++ "\n\n## Context\n" ++ r.context.markdown
      ++ "\n\n## Specification\n" ++ r.spec ++ "\n\n---\n" ++ task.request
      ++ " Return JSON only, no markdown code blocks."⟩]

end SpecTree
