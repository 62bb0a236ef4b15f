import CadsTunnel.CanonicalJson
import CadsTunnel.ChannelObjects
import CadsTunnel.OrderedMap

/-! The tools an agent offers over its channel, by name, and the request that calls one. A
provider registers a tool for each service it declares, under a name made of the service's. -/
namespace CadsTunnel.ServiceTools
open ChannelObjects OrderedMap Words
open Json (Value)
open Std (ExtTreeMap)

structure CallContext where
  peer : Option Key := none
  deriving DecidableEq

structure Tool where
  description : String
  handler : CallContext → Value → Except String Value

structure ToolRegistry where
  tools : BTreeMap String Tool := ∅

structure JsonRpcRequest where
  id : Value
  method : String
  params : Value

structure JsonRpcError where
  code : Int
  message : String

structure JsonRpcResponse where
  jsonrpc : String
  id : Value
  result : Option Value
  error : Option JsonRpcError

def jsonrpcVersion : String := "2.0"
def mcpProtocolVersion : String := "2024-11-05"
def methodNotFound : Int := -32601
def invalidParams : Int := -32602
def toolError : Int := -32000

namespace JsonRpcResponse

def ok (id result : Value) : JsonRpcResponse := ⟨jsonrpcVersion,id,some result,none⟩

def err (id : Value) (code : Int) (message : String) : JsonRpcResponse := ⟨jsonrpcVersion,id,none,some ⟨code,message⟩⟩

/- The answer to a call, from what the tool's handler made of it. -/
def ofTool (id : Value) : Except String Value → JsonRpcResponse
  | .ok result => ok id result
  | .error message => err id toolError message

end JsonRpcResponse

/- `Value::get` and `Value::as_str`. -/
def getField (key : String) : Value → Option Value
  | .object members => (members.find? (fun m => m.1 = key)).map Prod.snd
  | _ => none

def asStr : Value → Option String
  | .string s => some s
  | _ => none

namespace ToolRegistry

def registerCtx (reg : ToolRegistry) (name description : String) (handler : CallContext → Value → Except String Value) : ToolRegistry :=
  { reg with tools := reg.tools.insert name ⟨description,handler⟩ }

def register (reg : ToolRegistry) (name description : String) (handler : Value → Except String Value) : ToolRegistry :=
  reg.registerCtx name description (fun _ args => handler args)

def list (reg : ToolRegistry) : Value :=
  .object [("tools",.array (reg.tools.toList.map fun e => .object [("name",.string e.1),("description",.string e.2.description)]))]

def route (reg : ToolRegistry) (ctx : CallContext) (req : JsonRpcRequest) : JsonRpcResponse :=
  if req.method = "initialize" then
    .ok req.id (.object [("protocolVersion",.string mcpProtocolVersion),("capabilities",.object [("tools",.object [])]),
      ("serverInfo",.object [("name",.string "ct-agent"),("version",.string "0.0.0")])])
  else if req.method = "tools/list" then .ok req.id reg.list
  else if req.method = "tools/call" then
    match (getField "name" req.params).bind asStr with
    | none => .err req.id invalidParams "tools/call requires a string `name`"
    | some name =>
      match reg.tools[name]? with
      | some tool => .ofTool req.id (tool.handler ctx ((getField "arguments" req.params).getD .null))
      | none => .err req.id invalidParams ("unknown tool `" ++ name ++ "`")
  else .err req.id methodNotFound ("unknown method `" ++ req.method ++ "`")

end ToolRegistry

def maxServiceInputBytes : Nat := 4 * 1024 * 1024

section Services
variable (toLowercase : String → String)

/- A custom name keeps its letters and digits, in lower case, and nothing else. -/
def serviceSlug : ServiceType → String
  | .codeGeneration => "code_generation"
  | .securityReview => "security_review"
  | .safetyCheck => "safety_check"
  | .textGeneration => "text_generation"
  | .custom name => .ofList ((toLowercase name).toList.map fun c => if c.isAlphanum then c else '_')

def toolName (service : ServiceType) : String := "service/" ++ serviceSlug toLowercase service

def outputOf (output : String) : Value := .object [("output",.string output)]

/- What the tool of a service does with its arguments. -/
def serviceCall (handler : ServiceType → String → Except String String) (service : ServiceType) (args : Value) : Except String Value :=
  match (getField "input" args).bind asStr with
  | none => .error "this service requires a string `input` (fixed schema — no free-form slot)"
  | some input =>
    if maxServiceInputBytes < (asBytes input).length then
      .error ("service `input` too large: " ++ toString (asBytes input).length ++ " bytes exceeds the " ++ toString maxServiceInputBytes ++ "-byte cap (#183)")
    else (handler service input).map outputOf

def registerService (handler : ServiceType → String → Except String String) (reg : ToolRegistry) (service : ServiceType) : ToolRegistry :=
  reg.register (toolName toLowercase service) ("typed " ++ serviceSlug toLowercase service ++ " service — fixed \x7binput:string\x7d -> \x7boutput:string\x7d shape")
    (serviceCall handler service)

def registerServiceTools (reg : ToolRegistry) (services : List ServiceType) (handler : ServiceType → String → Except String String) : ToolRegistry :=
  services.foldl (registerService toLowercase handler) reg

end Services

section Registration
variable {toLowercase : String → String} {services : List ServiceType} {handler : ServiceType → String → Except String String}

theorem registeredNext (front : List ServiceType) (service : ServiceType) (reg : ToolRegistry) :
    registerServiceTools toLowercase reg (front ++ [service]) handler =
      registerService toLowercase handler (registerServiceTools toLowercase reg front handler) service := by
  rw [registerServiceTools, List.foldl_append, List.foldl_cons, List.foldl_nil, ← registerServiceTools]

theorem namesRegistered (name : String) :
    ((registerServiceTools toLowercase {} services handler).tools[name]?).isSome ↔ name ∈ services.map (toolName toLowercase) := by
  induction services using List.reverseRecOn with
  | nil => simp [registerServiceTools]
  | append_singleton front service ih =>
    rw [registeredNext, List.map_append, List.mem_append, ← ih, List.map_singleton, List.mem_singleton, registerService, ToolRegistry.register,
      ToolRegistry.registerCtx, lookupInsert]
    by_cases same : name = toolName toLowercase service <;> simp [same]

/- The tool of a name is that of the last service with it. -/
theorem toolRegistered (distinct : (services.map (toolName toLowercase)).Nodup) {service : ServiceType} (mem : service ∈ services) :
    ∃ tool, (registerServiceTools toLowercase {} services handler).tools[toolName toLowercase service]? = some tool ∧
      tool.handler = fun _ args => serviceCall handler service args := by
  induction services using List.reverseRecOn with
  | nil => contradiction
  | append_singleton front last ih =>
    rw [List.map_append, List.map_singleton] at distinct
    obtain ⟨earlier,_,apart⟩ := List.nodup_append.mp distinct
    rw [registeredNext, registerService, ToolRegistry.register, ToolRegistry.registerCtx, lookupInsert]
    obtain before | here := List.mem_append.mp mem
    · have other : toolName toLowercase service ≠ toolName toLowercase last :=
        apart _ (List.mem_map.mpr ⟨service,before,rfl⟩) _ (List.mem_singleton.mpr rfl)
      rw [if_neg other]
      exact ih earlier before
    · cases List.mem_singleton.mp here
      rw [if_pos rfl]
      exact ⟨_,rfl,rfl⟩

theorem slugName (a b : ServiceType) : toolName toLowercase a = toolName toLowercase b ↔ serviceSlug toLowercase a = serviceSlug toLowercase b := by
  rw [toolName, toolName, String.append_right_inj]

theorem slugsDistinct : (services.map (serviceSlug toLowercase)).Nodup ↔ (services.map (toolName toLowercase)).Nodup := by
  have names : services.map (toolName toLowercase) = (services.map (serviceSlug toLowercase)).map ("service/" ++ ·) := by
    rw [List.map_map]
    rfl
  rw [names]
  exact (List.nodup_map_iff (fun a b same => (String.append_right_inj _).mp same)).symm

end Registration

/- The tools that stand for some services: one for each, and a call of it runs the handler with that service. -/
structure OneToolEach (toLowercase : String → String) (services : List ServiceType) : Prop where
  named : ∀ handler, ((registerServiceTools toLowercase {} services handler).tools.toList.map Prod.fst).Perm (services.map (toolName toLowercase))
  runs : ∀ handler, ∀ service ∈ services, ∀ ctx (req : JsonRpcRequest) input, req.method = "tools/call" →
    (getField "name" req.params).bind asStr = some (toolName toLowercase service) →
    ((getField "arguments" req.params).bind (getField "input")).bind asStr = some input → (asBytes input).length ≤ maxServiceInputBytes →
    (registerServiceTools toLowercase {} services handler).route ctx req = .ofTool req.id ((handler service input).map outputOf)

section Calls
variable {toLowercase : String → String} {services : List ServiceType}

theorem serviceCallRuns {handler : ServiceType → String → Except String String} {service : ServiceType} {args : Value} {input : String}
    (given : (getField "input" args).bind asStr = some input) (fits : (asBytes input).length ≤ maxServiceInputBytes) :
    serviceCall handler service args = (handler service input).map outputOf := by
  rw [serviceCall, given]
  exact if_neg (Nat.not_lt.mpr fits)

theorem namesDistinct (each : OneToolEach toLowercase services) : (services.map (toolName toLowercase)).Nodup :=
  (each.named fun _ input => .ok input).nodup_iff.mp (keysNodup _)

/- The services of a list have a tool each just if no two of them have one slug. -/
theorem toolsIff (toLowercase : String → String) (services : List ServiceType) :
    OneToolEach toLowercase services ↔ (services.map (serviceSlug toLowercase)).Nodup := by
  rw [slugsDistinct]
  constructor
  · exact namesDistinct
  · intro distinct
    constructor
    · intro handler
      refine (List.perm_ext_iff_of_nodup (keysNodup _) distinct).mpr ?_
      intro name
      rw [← @namesRegistered _ _ handler, ExtTreeMap.map_fst_toList_eq_keys, ExtTreeMap.mem_keys, ExtTreeMap.mem_iff_isSome_getElem?]
    · intro handler service mem ctx req input method name given fits
      obtain ⟨tool,found,body⟩ := @toolRegistered _ _ handler distinct _ mem
      obtain ⟨value,field,text⟩ := Option.bind_eq_some_iff.mp given
      obtain ⟨args,arguments,field⟩ := Option.bind_eq_some_iff.mp field
      rw [ToolRegistry.route, method, if_neg (by decide), if_neg (by decide), if_pos rfl, name, arguments, Option.getD_some]
      dsimp only
      rw [found]
      dsimp only
      rw [body]
      exact congrArg (JsonRpcResponse.ofTool req.id) (serviceCallRuns (by rw [field, Option.bind_some, text]) fits)

/- A custom name can have the slug of a service that is not custom. -/
theorem slugTaken : [ServiceType.codeGeneration,.custom "code generation"].Nodup ∧
    ¬OneToolEach (fun name => name.map Char.toLower) [.codeGeneration,.custom "code generation"] := by
  refine ⟨by decide,fun each => ?_⟩
  have distinct := namesDistinct each
  revert distinct
  decide +kernel

end Calls
end CadsTunnel.ServiceTools
