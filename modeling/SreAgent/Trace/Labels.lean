import SreAgent.Base.Base64
import SreAgent.Base.IpAddress
import SreAgent.Base.JsonBytes

/-!
# What a stored trace may say

The label patterns, the compact-JWT filter and the attribute filter. The worker writes traces and
the backend reads them with the same text of these functions, each in its own package. A JWT
filter can raise: header and payload are JSON of any depth.
-/

namespace SreAgent.Trace
open Base JsonParse

/-- The exceptions that leave a validator. -/
inductive PyError where
  | valueError | typeError | overflowError | recursionError | keyError
  deriving DecidableEq

/-- A datetime: microseconds since the first instant of year 1 in local time, and its UTC offset. -/
structure Datetime where
  clock : Int
  offset : Option Int
  clock_mem : 0 ≤ clock ∧ clock < 315537897600000000

/-- What the interpreter and the validation library contribute: limits beyond any label, the
rounding of floats, the reading of a datetime, and how many calls of one function may nest. -/
structure Runtime extends Interpreter where
  digits_le : 512 ≤ maxDigits
  depth_le : 512 ≤ maxDepth
  round : ℚ → FloatVal
  round_nonneg : ∀ q, 0 ≤ q → round q = .infinite false ∨ ∃ r, 0 ≤ r ∧ round q = .finite r
  readDatetime : Json → Option Datetime
  frames : Nat

/-! ## Label patterns -/

def isNameChar (c : Char) : Bool := c.isAlphanum || c = '.' || c = '_' || c = '-'

/-- `_IDENTIFIER_PATTERN`: a letter or digit, and up to 127 more characters. -/
def identifierPattern : List Char → Bool
  | [] => false
  | c :: cs => c.isAlphanum && cs.length ≤ 127 && cs.all isNameChar

/-- `_SERVICE_NAME_PATTERN`. -/
def serviceNamePattern (cs : List Char) : Bool := identifierPattern cs

/-- `_HTTP_METHODS`. -/
def httpMethods : List String :=
  ["GET", "POST", "PUT", "PATCH", "DELETE", "HEAD", "OPTIONS", "TRACE", "CONNECT"]

/-- `_HTTP_OPERATION_PATTERN`: a method, a space and a path. -/
def httpOperationPattern (cs : List Char) : Bool :=
  httpMethods.any fun method =>
    match dropLiteral (method.toList ++ [' ', '/']) cs with
    | none => false
    | some path => path.length ≤ 127 && path.all fun c => isNameChar c || c = '~' || c = ':' || c = '/'

/-- A segment of a label: a letter and up to 31 more characters. -/
def isSegment : List Char → Bool
  | [] => false
  | c :: cs => c.isAlpha && cs.length ≤ 31 && cs.all fun c => c.isAlphanum || c = '_' || c = '-'

/-- `_DIAGNOSTIC_LABEL_PATTERN`: up to eight segments between dots and slashes. -/
def diagnosticLabelPattern (cs : List Char) : Bool :=
  let segments := cs.splitOnP fun c => c = '.' || c = '/'
  segments.length ≤ 8 && segments.all isSegment

/-- `_IDENTIFIER_OPERATION_PATTERN`: a diagnostic label, perhaps after a slash. -/
def identifierOperationPattern : List Char → Bool
  | '/' :: cs => diagnosticLabelPattern cs
  | cs => diagnosticLabelPattern cs

/-! ## Compact JWTs -/

/-- The exception a failed `json.loads` leaves uncaught here; a decoding error is caught. The fuel
never runs out (`JsonBytes.loads_ne_outOfFuel`). -/
def uncaught : LoadsError → Option PyError
  | .intTooLong => some .valueError
  | .recursion => some .recursionError
  | .decode | .outOfFuel => none

/-- `_decode_base64url_json_object`; what is no object counts as a decoding error. -/
def decodeBase64urlJsonObject (i : Interpreter) (part : List Char) : Except LoadsError (JsonObject PyStr) :=
  match JsonBytes.loads i (Base64.decode part) with
  | .ok (.obj d) => .ok d
  | .ok _ => .error .decode
  | .error e => .error e

/-- The parts of a text in the form of a compact JWT. -/
def jwtParts (value : String) : Option (List Char × List Char) :=
  match value.toList.splitOn '.' with
  | [header, payload, signature] =>
    if [header, payload, signature].any fun part => Base64.isPart part = false || part.length % 4 = 1
      then none
    else some (header, payload)
  | _ => none

/-- `header.get("alg")` is a string. -/
def namesAlgorithm (header : JsonObject PyStr) : Bool :=
  match JsonObject.get? header (.ofString "alg") with
  | some (.str _) => true
  | _ => false

/-- `_is_compact_jwt`. -/
def isCompactJwt (i : Interpreter) (value : String) : Except PyError Bool :=
  match jwtParts value with
  | none => .ok false
  | some (header, payload) =>
    match (do
      let header ← decodeBase64urlJsonObject i header
      let _ ← decodeBase64urlJsonObject i payload
      pure header) with
    | .ok header => .ok (namesAlgorithm header)
    | .error e =>
      match uncaught e with
      | some error => .error error
      | none => .ok false

/-! ## Attributes -/

/-- `_JSON_SCALAR`. -/
inductive Scalar where
  | str (s : String)
  | int (n : Int)
  | float (x : FloatVal)
  | bool (b : Bool)
  deriving DecidableEq

/-- A validated attribute map. -/
abbrev Attributes := List (String × Scalar)

/-- `_ALLOWED_ATTRIBUTES`. -/
def allowedAttributes : List String :=
  ["http.request.method", "http.response.status_code", "rpc.system", "rpc.service", "rpc.method", "db.system",
    "db.operation.name", "server.address", "server.port"]

/-- `_RPC_SYSTEMS`. -/
def rpcSystems : List String := ["grpc", "http", "jsonrpc", "aws-api"]

/-- `_DB_SYSTEMS`. -/
def dbSystems : List String := ["postgresql", "mysql", "sqlite", "mssql", "mongodb", "redis"]

/-- `value in texts`. -/
def isOneOf (texts : List String) : Scalar → Bool
  | .str s => s ∈ texts
  | _ => false

/-- `type(value) is int and low <= value <= high`. -/
def isIntBetween (low high : Int) : Scalar → Bool
  | .int n => low ≤ n ∧ n ≤ high
  | _ => false

/-- The lower-cased words of a label. -/
def terms (label : String) : List (List Char) :=
  ((label.toList.splitOnP fun c => !c.isAlphanum).filter (· ≠ [])).map fun word => word.map Char.toLower

/-- `_is_related_diagnostic_label`. -/
def isRelatedDiagnosticLabel (i : Interpreter) (value : Scalar) (related : List String) :
    Except PyError Bool :=
  match value with
  | .str s =>
    if diagnosticLabelPattern s.toList = false then .ok false
    else do
      if ← isCompactJwt i s then return false
      return terms s ≠ [] ∧ ∀ term ∈ terms s, term ∈ related.flatMap terms
  | _ => .ok false

/-- `_is_safe_server_address`. -/
def isSafeServerAddress (i : Interpreter) (value : Scalar) : Except PyError Bool :=
  match value with
  | .str s =>
    if '%' ∈ s.toList then .ok false
    else do
      if ← isCompactJwt i s then return false
      return IpAddress.isCanonical s
  | _ => .ok false

/-- Whether `_safe_attributes` keeps an item. -/
def keepsAttribute (i : Interpreter) (serviceName operationName key : String) (value : Scalar) :
    Except PyError Bool :=
  if key = "http.request.method" then .ok (isOneOf httpMethods value)
  else if key = "http.response.status_code" then .ok (isIntBetween 100 599 value)
  else if key = "rpc.system" then .ok (isOneOf rpcSystems value)
  else if key = "rpc.service" then isRelatedDiagnosticLabel i value [serviceName, operationName]
  else if key = "rpc.method" then isRelatedDiagnosticLabel i value [operationName]
  else if key = "db.system" then .ok (isOneOf dbSystems value)
  else if key = "db.operation.name" then isRelatedDiagnosticLabel i value [operationName]
  else if key = "server.address" then isSafeServerAddress i value
  else if key = "server.port" then .ok (isIntBetween 1 65535 value)
  else .ok false

/-- `_safe_attributes`. -/
def safeAttributes (i : Interpreter) (serviceName operationName : String) : Attributes →
      Except PyError Attributes
  | [] => .ok []
  | (key, value) :: rest => do
    let keep ← keepsAttribute i serviceName operationName key value
    let safe ← safeAttributes i serviceName operationName rest
    return if keep then (key, value) :: safe else safe

end SreAgent.Trace
