import SpecTree.Provider.Policy
import SpecTree.Provider.Prompt
import SpecTree.Provider.Response
import SpecTree.Resilience.Preset
import SpecTree.Settings.Basic

/-!
# A provider over a chat service

Requests become prompts for a language model behind a circuit breaker, and the model's replies are
read as answers. The breaker counts what the service does: a reply that makes no sense is a
success to it.
-/

namespace SpecTree

/-- What is sent to the service; the model is always asked for its likeliest reply. -/
structure ChatRequest where
  model : String
  messages : List Message
  maxTokens : Option Nat := none
  deriving Repr, DecidableEq

/-- A chat service: what it replies, and its clock. A reply may hold no text. -/
structure ChatService (σ : Type) where
  send : ChatRequest → σ → Ending (Option String) × σ
  now : σ → Number

/-- The state of a chat provider: its breaker and the state of the service. -/
structure ChatState (σ : Type) where
  breaker : Breaker Number
  service : σ

namespace Chat

def name : String := "openai"

/-- A refusal by the service is a failure of the provider. -/
def translate (f : Failure) : Failure :=
  if f.kind == .service then ⟨.provider, "OpenAI request failed: " ++ f.message⟩ else f

variable {σ : Type}

/-- The stripped text of a reply, behind the breaker. -/
def complete (service : ChatService σ) (r : ChatRequest) (s : ChatState σ) :
    Ending String × ChatState σ :=
  match s.breaker.ask (service.now s.service) with
  | .error (refusal, breaker) =>
    (.failed ⟨.circuitOpen, refusal.message Number.text⟩, { s with breaker })
  | .ok breaker =>
    match service.send r s.service with
    | (.answered reply, after) =>
      (.answered (Text.strip (reply.getD "")), ⟨breaker.succeed, after⟩)
    | (.failed f, after) => (.failed (translate f), ⟨breaker.fail (service.now after), after⟩)
    | (.silent, after) => (.silent, ⟨breaker, after⟩)

/-- A reply read as an answer. -/
def readAs {α : Type} (read : String → Except Failure α) : Ending String → Ending α
  | .answered text =>
    match read text with
    | .ok value => .answered value
    | .error f => .failed f
  | .failed f => .failed f
  | .silent => .silent

def greeting : List Message := [⟨.user, "Say \"ok\" and nothing else."⟩]

/-- Whether the service replies with some text; a failure means that it does not. -/
def isReachable (service : ChatService σ) (model : String) (s : ChatState σ) :
    Ending Bool × ChatState σ :=
  match complete service ⟨model, greeting, some 10⟩ s with
  | (.answered text, after) => (.answered !text.isEmpty, after)
  | (.failed _, after) => (.answered false, after)
  | (.silent, after) => (.silent, after)

/-- The provider that asks the models of the settings. -/
def provider (service : ChatService σ) (settings : Settings) : Provider (ChatState σ) where
  name := name
  compile r s :=
    let (reply, after) := complete service ⟨settings.compileModel, prompt .compile r, none⟩ s
    (readAs Response.expansion reply, after)
  generate r s :=
    let (reply, after) := complete service ⟨settings.generateModel, prompt .generate r, none⟩ s
    (readAs Response.production reply, after)
  isReachable := isReachable service settings.compileModel

def missingKey : Failure :=
  ⟨.provider, "OpenAI API key is required. Set OPENAI_API_KEY or AID_OPENAI_API_KEY."⟩

/-- The provider for settings, which have to hold a key. -/
def provider? (service : ChatService σ) (settings : Settings) :
    Except Failure (Provider (ChatState σ)) :=
  if (settings.apiKey.getD "").isEmpty then .error missingKey
  else .ok (provider service settings)

end Chat

end SpecTree
