import NestWeaver.Framework.Json
import NestWeaver.Mcp.Text

/-!
# Request envelopes

The validation of JSON-RPC envelopes and of method parameters in
`crates/nestweaver-mcp/src/protocol.rs`.  The registry of tool names is a parameter.
-/

set_option linter.all false

namespace NestWeaver
namespace Mcp

/-- A request; `id` is absent for notifications. -/
structure Request where
  jsonrpc : String
  id : Option Json
  method : String
  params : Option Json

structure InvalidRequest where
  responseId : Json
  message : String

/-! ## Error codes -/

def parseError : ℤ := -32700
def invalidRequest : ℤ := -32600
def invalidParams : ℤ := -32602

/-- An error response. -/
def failure (id : Json) (code : ℤ) (message : String) : Json :=
  .obj [("jsonrpc", .str "2.0"), ("id", id),
    ("error", .obj [("code", .num (.int code)), ("message", .str message)])]

/-! ## The envelope -/

/-- An id of a request: a string, null, or an integer without loss. -/
def validId : Json → Bool
  | .null => true
  | .str _ => true
  | .num n => Json.isInteger n
  | _ => false

def illegalIdMessage : String :=
  "JSON-RPC request id must be a string, null, or an integer in " ++
    "-9223372036854775808..=18446744073709551615; floating-point, exponent and out-of-range " ++
    "numeric IDs are not accepted"

/-- The members after the id, whose errors answer it. -/
def validateMembers (value : Json) (id : Option Json) : Except InvalidRequest Request :=
  let responseId := id.getD .null
  match value.get "jsonrpc" with
  | some (.str version) =>
    if version = "2.0" then
      match value.get "method" with
      | some (.str method) =>
        let finish (params : Option Json) : Except InvalidRequest Request :=
          -- a tool call is never a notification
          if method = "tools/call" ∧ id.isNone then
            .error ⟨.null, "tools/call requires a correlated request id"⟩
          else .ok ⟨version, id, method, params⟩
        match value.get "params" with
        | none => finish none
        | some .null => finish none
        | some (.arr items) => finish (some (.arr items))
        | some (.obj fields) => finish (some (.obj fields))
        | some _ => .error ⟨responseId, "JSON-RPC params must be an array or an object"⟩
      | _ => .error ⟨responseId, "JSON-RPC request method must be a string"⟩
    else .error ⟨responseId, "jsonrpc must be exactly '2.0'"⟩
  | _ => .error ⟨responseId, "jsonrpc must be exactly '2.0'"⟩

def validateRequest (value : Json) : Except InvalidRequest Request :=
  if value.isObject then
    match value.get "id" with
    | none => validateMembers value none
    | some id =>
      if validId id then validateMembers value (some id)
      else .error ⟨.null, illegalIdMessage⟩
  else .error ⟨.null, "JSON-RPC request must be an object"⟩

lemma validateMembers_id {value : Json} {id : Option Json} {req : Request}
    (h : validateMembers value id = .ok req) : req.id = id := by
  unfold validateMembers at h
  split at h
  · split_ifs at h
    split at h
    · dsimp only at h
      split at h <;> first | cases h | (split_ifs at h; cases h; rfl)
    · cases h
  · cases h

/-- The id of a request that passed validation is a valid one. -/
lemma validId_of_validateRequest {value id : Json} {req : Request}
    (h : validateRequest value = .ok req) (hid : req.id = some id) : validId id = true := by
  unfold validateRequest at h
  split_ifs at h
  split at h
  · rw [validateMembers_id h] at hid
    cases hid
  · split_ifs at h with hvalid
    rw [validateMembers_id h] at hid
    exact Option.some.inj hid ▸ hvalid

/-! ## Method parameters -/

def maxToolNameInErrorBytes : ℕ := 96
def maxValidationErrorBytes : ℕ := 1024

def unknownToolMessage (name : String) : String :=
  truncateUtf8Bytes ("Unknown tool: " ++ truncateUtf8Bytes name maxToolNameInErrorBytes)
    maxValidationErrorBytes

/-- The parameters a method takes; `none` for a method that is not checked. -/
def allowedParams (method : String) : Option (List String) :=
  if method = "initialize" then
    some ["protocolVersion", "capabilities", "clientInfo", "_meta"]
  else if method = "ping" ∨ method = "notifications/initialized" ∨ method = "initialized" then
    some ["_meta"]
  else if method = "tools/list" then some ["cursor", "_meta"]
  else if method = "tools/call" then some ["name", "arguments", "_meta"]
  else if method = "notifications/cancelled" then some ["requestId", "reason", "_meta"]
  else none

/-- The names and `_meta` of an object of parameters. -/
def validateParamNames (method : String) (allowed : List String) :
    List (String × Json) → Except String Unit
  | fields =>
    match fields.find? fun f => f.1 ∉ allowed with
    | some f => .error (method ++ ": unknown parameter '" ++ f.1 ++ "'")
    | none =>
      if ((Json.obj fields).get "_meta").any fun v => !v.isObject then
        .error (method ++ ": '_meta' must be an object")
      else .ok ()

def isNonemptyString (value : Option Json) : Bool :=
  (value.bind Json.asStr).any (· ≠ "")

/-- An id a cancellation may name. -/
def validRequestId : Option Json → Bool
  | some (.str _) => true
  | some (.num n) => Json.isInteger n
  | _ => false

/-- The values of the parameters, by method. -/
def validateParamValues (isRegisteredTool : String → Bool) (req : Request)
    (get : String → Option Json) : Except String Unit :=
  if req.method = "initialize" then
    if !(get "protocolVersion").any Json.isString then
      .error "initialize: 'protocolVersion' must be a string"
    else if !(get "capabilities").any Json.isObject then
      .error "initialize: 'capabilities' must be an object"
    else
      let info := (get "clientInfo").filter Json.isObject
      if !(info.bind (Json.get · "name")).any Json.isString ||
          !(info.bind (Json.get · "version")).any Json.isString then
        .error "initialize: 'clientInfo' requires string name and version"
      else .ok ()
  else if req.method = "tools/list" then
    if (get "cursor").any fun v => !v.isString then .error "tools/list: 'cursor' must be a string"
    else .ok ()
  else if req.method = "tools/call" then
    if !isNonemptyString (get "name") then
      .error "tools/call: 'name' must be a nonempty string"
    else
      match ((get "name").bind Json.asStr).filter fun name => !isRegisteredTool name with
      | some name => .error (unknownToolMessage name)
      | none =>
        if (get "arguments").any fun v => !v.isObject then
          .error "tools/call: 'arguments' must be an object"
        else .ok ()
  else if req.method = "notifications/cancelled" then
    if req.id.isSome then .error "notifications/cancelled must not carry a request id"
    else if !validRequestId (get "requestId") then
      .error "notifications/cancelled: 'requestId' must be a string or lossless integer"
    else if (get "reason").any fun v => !v.isString then
      .error "notifications/cancelled: 'reason' must be a string"
    else .ok ()
  else .ok ()

def validateMethodParams (isRegisteredTool : String → Bool) (req : Request) : Except String Unit :=
  match allowedParams req.method with
  | none => .ok ()
  | some allowed =>
    match req.params with
    | none => validateParamValues isRegisteredTool req fun _ => none
    | some (.obj fields) =>
      match validateParamNames req.method allowed fields with
      | .error message => .error message
      | .ok () => validateParamValues isRegisteredTool req (Json.get (.obj fields))
    | some _ => .error (req.method ++ " params must be an object")

/-- A cancellation that passed names a valid id. -/
lemma validRequestId_of_validateMethodParams {isRegisteredTool : String → Bool} {req : Request}
    (hmethod : req.method = "notifications/cancelled")
    (h : validateMethodParams isRegisteredTool req = .ok ()) :
    ∃ params, req.params = some params ∧ validRequestId (params.get "requestId") = true := by
  have hvalues : ∀ get, validateParamValues isRegisteredTool req get = .ok () →
      validRequestId (get "requestId") = true := by
    intro get hget
    unfold validateParamValues at hget
    rw [hmethod] at hget
    simp only [String.reduceEq, if_false, if_true] at hget
    split_ifs at hget with _ hvalid
    simpa using hvalid
  unfold validateMethodParams at h
  rw [hmethod] at h
  split at h
  · rename_i hallowed
    exact absurd hallowed (by decide)
  · split at h
    · exact absurd (hvalues _ h) (by simp [validRequestId])
    · rename_i fields hparams
      split at h
      · cases h
      · exact ⟨_, hparams, hvalues _ h⟩
    · cases h

end Mcp
end NestWeaver
