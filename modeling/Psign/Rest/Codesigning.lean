import Psign.CodeLib.Base64
import Psign.CodeLib.Interaction
import Psign.CodeLib.RustStr
import Psign.CodeLib.Subslice
import Psign.CodeLib.Unicode

/-!
# The code signing service

`psign-codesigning-rest/src/lib.rs`: the client of the remote signing service.
It obtains a token, submits a digest with one `POST`, and polls the operation
with `GET` requests until the service reports an end.

The client is an `Interaction` of HTTP requests, so that a statement about its
runs is about every sequence of replies.  A request is one `send` of the HTTP
client.  The JSON library and the HTTP client are parameters (`WebStack`), as are
the environment variables and files (`Environment`); nothing is assumed of them.
Waiting between polls and debug output are left out.
-/

namespace Psign.Rest

open CodeLib CodeLib.RustStr CodeLib.Subslice CodeLib.Unicode

/-! ## Requests and replies -/

/-- `serde_json::Value`. -/
inductive Value where
  | null
  | bool (b : Bool)
  | number (text : List Char)
  | string (s : List Char)
  | array (items : List Value)
  | object (fields : List (List Char × Value))

namespace Value

/-- `Value::get` of a key. -/
def get (v : Value) (key : List Char) : Option Value :=
  match v with
  | object fields => (fields.find? fun field => field.1 == key).map (·.2)
  | _ => none

/-- `Value::as_str`. -/
def asStr : Value → Option (List Char)
  | string s => some s
  | _ => none

end Value

/-- The methods the client uses. -/
inductive Method where
  | get
  | post
  deriving DecidableEq, Repr

/-- The body of a request. -/
inductive RequestBody where
  | none
  | json (value : Value)
  | form (fields : List (List Char × List Char))

/-- A request. -/
structure HttpRequest where
  method : Method
  url : List Char
  query : List (List Char × List Char) := []
  headers : List (List Char × List Char) := []
  body : RequestBody := .none

/-- A response, with what reading its body gives. -/
structure HttpResponse where
  status : Nat
  headers : List (List Char × List UInt8)
  /-- `Response::bytes`. -/
  bytes : Outcome (List UInt8)
  /-- `Response::text`. -/
  text : Outcome (List Char)

/-- What `send` returns. -/
abbrev Reply := Outcome HttpResponse

/-- A client of the service. -/
abbrev Session (α : Type) := Interaction HttpRequest Reply α

namespace HttpResponse

/-- `StatusCode::is_success`. -/
def isSuccess (rsp : HttpResponse) : Prop :=
  200 ≤ rsp.status ∧ rsp.status < 300

instance (rsp : HttpResponse) : Decidable rsp.isSuccess :=
  inferInstanceAs (Decidable (_ ∧ _))

/-- `HeaderValue::to_str`: the text of visible ASCII characters. -/
def toStr (value : List UInt8) : Option (List Char) :=
  if ∀ b ∈ value, (32 ≤ b.toNat ∧ b.toNat < 127) ∨ b.toNat = 9 then
    some (value.map fun b => Char.ofNat b.toNat)
  else none

/-- `headers().get(name)`: names are compared without case. -/
def header (rsp : HttpResponse) (name : List Char) : Option (List UInt8) :=
  (rsp.headers.find? fun field => toAsciiLowercase field.1 == toAsciiLowercase name).map (·.2)

/-- `op_location` of the response to a submit. -/
def opLocation (rsp : HttpResponse) : Option (List Char) :=
  ((rsp.header "Operation-Location".toList).or (rsp.header "operation-location".toList)).bind toStr

end HttpResponse

/-- The JSON library and the HTTP client. -/
structure WebStack where
  /-- `serde_json::from_slice`. -/
  fromSlice : List UInt8 → Outcome Value
  /-- `serde_json::to_string`, empty where it fails. -/
  toText : Value → List Char
  /-- The field `access_token` of the body of a token response. -/
  accessToken : List UInt8 → Outcome (List Char)
  /-- `{}` of a status code. -/
  showStatus : Nat → List Char
  base64 : Base64Engine

/-- The process the client runs in. -/
structure Environment where
  /-- `std::env::var(name).ok()`. -/
  var : List Char → Option (List Char)
  /-- `std::fs::read_to_string`. -/
  readToString : List Char → Outcome (List Char)

/-! ## Credentials -/

/-- `CodesigningAuth`. -/
inductive CodesigningAuth where
  | managedIdentity (clientId resourceId : Option (List Char))
  | bearer (token : List Char)
  | clientCredentials (tenantId clientId clientSecret : List Char)
  | workloadIdentity (tenantId clientId federatedTokenFile : List Char)
  | defaultChain (excludeCredentials : List (List Char))

/-- `normalize_authority`. -/
def normalizeAuthority (authority : Option (List Char)) : List Char :=
  (authority.getD "https://login.microsoftonline.com".toList).rdropWhile (· == '/')

/-- `text_opt`. -/
def textOpt (value : Option (List Char)) : Option (List Char) :=
  (value.map trim).filter (· ≠ [])

/-- `env_text`. -/
def envText (env : Environment) (name : List Char) : Option (List Char) :=
  (env.var name).bind fun v => textOpt (some v)

/-- A name without the signs that separate words. -/
def squeeze (name : List Char) : List Char :=
  name.filter fun c => !(c == '-' || c == '_' || c == ' ')

/-- `credential_excluded`. -/
def credentialExcluded (excludeCredentials names : List (List Char)) : Bool :=
  excludeCredentials.any fun value => names.any fun name =>
    toAsciiLowercase (squeeze (trim value)) == toAsciiLowercase (squeeze name)

/-- The text of a failure. -/
def errorText : Failure → String
  | .error message => message
  | .outOfFuel => ""

variable (web : WebStack) (env : Environment)

/-- Send a request. -/
def send (request : HttpRequest) (context : String) : Session HttpResponse := do
  let reply ← Interaction.send request
  Interaction.lift (Outcome.context reply context)

/-- The token in the response of a token endpoint. -/
def tokenFrom (rsp : HttpResponse) (httpText jsonText : String) : Session (List Char) := do
  Interaction.lift (Outcome.guardThat rsp.isSuccess
    (httpText ++ String.ofList (web.showStatus rsp.status) ++ ": " ++
      String.ofList (rsp.text.toOption.getD [])))
  let bytes ← Interaction.lift (Outcome.context rsp.bytes jsonText)
  Interaction.lift (Outcome.context (web.accessToken bytes) jsonText)

/-- `acquire_managed_identity_token`. -/
def acquireManagedIdentityToken (clientId resourceId : Option (List Char)) :
    Session (List Char) := do
  let endpoint := (env.var "PSIGN_CODESIGNING_IMDS_ENDPOINT".toList).getD
    "http://169.254.169.254/metadata/identity/oauth2/token".toList
  let query :=
    [("api-version".toList, "2018-02-01".toList),
      ("resource".toList, "https://codesigning.azure.net".toList)] ++
    ((textOpt clientId).map fun v => ("client_id".toList, v)).toList ++
    ((textOpt resourceId).map fun v => ("mi_res_id".toList, v)).toList
  let rsp ← send { method := .get, url := endpoint, query, headers := [("Metadata".toList, "true".toList)] }
    "managed identity token (IMDS) for codesigning.azure.net"
  tokenFrom web rsp "managed identity token HTTP " "managed identity JSON"

/-- The `token_url` of a tenant. -/
def tokenUrl (authority : Option (List Char)) (tenant : List Char) : List Char :=
  normalizeAuthority authority ++ '/' :: tenant ++ "/oauth2/v2.0/token".toList

/-- `acquire_client_credentials_token`. -/
def acquireClientCredentialsToken (authority : Option (List Char))
    (tenantId clientId clientSecret : List Char) : Session (List Char) := do
  let tenant := trim tenantId
  let cid := trim clientId
  let sec := trim clientSecret
  Interaction.lift (Outcome.guardThat (tenant ≠ [] ∧ cid ≠ [] ∧ sec ≠ [])
    "client credentials require non-empty tenant_id, client_id, client_secret")
  let rsp ← send
    { method := .post
      url := tokenUrl authority tenant
      body := .form
        [("client_id".toList, cid), ("client_secret".toList, sec),
          ("grant_type".toList, "client_credentials".toList),
          ("scope".toList, "https://codesigning.azure.net/.default".toList)] }
    "OAuth token request (codesigning.azure.net)"
  tokenFrom web rsp "OAuth HTTP " "OAuth JSON"

/-- `acquire_workload_identity_token`. -/
def acquireWorkloadIdentityToken (authority : Option (List Char))
    (tenantId clientId federatedTokenFile : List Char) : Session (List Char) := do
  let file ← Interaction.lift (Outcome.context (env.readToString federatedTokenFile)
    ("read federated token file " ++ String.ofList federatedTokenFile))
  let tenant := trim tenantId
  let cid := trim clientId
  let assertion := trim file
  Interaction.lift (Outcome.guardThat (tenant ≠ [] ∧ cid ≠ [] ∧ assertion ≠ [])
    "workload identity requires non-empty tenant_id, client_id, and federated token file")
  let rsp ← send
    { method := .post
      url := tokenUrl authority tenant
      body := .form
        [("client_id".toList, cid), ("client_assertion".toList, assertion),
          ("client_assertion_type".toList,
            "urn:ietf:params:oauth:client-assertion-type:jwt-bearer".toList),
          ("grant_type".toList, "client_credentials".toList),
          ("scope".toList, "https://codesigning.azure.net/.default".toList)] }
    "OAuth workload identity token request (codesigning.azure.net)"
  tokenFrom web rsp "OAuth workload identity HTTP " "OAuth workload identity JSON"

/-- The credentials of the default chain, in order; `none` for one that is
excluded or not configured. -/
def defaultCredentials (authority : Option (List Char)) (excludeCredentials : List (List Char)) :
    List (String × Option (Session (List Char))) :=
  [("EnvironmentCredential",
      if credentialExcluded excludeCredentials
          ["EnvironmentCredential".toList, "ClientSecretCredential".toList] then none
      else do
        let tenant ← envText env "AZURE_TENANT_ID".toList
        let client ← envText env "AZURE_CLIENT_ID".toList
        let secret ← envText env "AZURE_CLIENT_SECRET".toList
        return acquireClientCredentialsToken web authority tenant client secret),
    ("WorkloadIdentityCredential",
      if credentialExcluded excludeCredentials ["WorkloadIdentityCredential".toList] then none
      else do
        let tenant ← envText env "AZURE_TENANT_ID".toList
        let client ← envText env "AZURE_CLIENT_ID".toList
        let tokenFile ← envText env "AZURE_FEDERATED_TOKEN_FILE".toList
        return acquireWorkloadIdentityToken web env authority tenant client tokenFile),
    ("ManagedIdentityCredential",
      if credentialExcluded excludeCredentials ["ManagedIdentityCredential".toList] then none
      else
        some (acquireManagedIdentityToken web env
          ((envText env "AZURE_MANAGED_IDENTITY_CLIENT_ID".toList).or
            (envText env "AZURE_CLIENT_ID".toList)) none))]

/-- The credentials one after the other, until one gives a token. -/
def tryCredentials : List (String × Option (Session (List Char))) → List String →
    Session (List Char)
  | [], [] => Interaction.lift (Outcome.bail
      "no Artifact Signing credential was available in the Rust default chain")
  | [], errors => Interaction.lift (Outcome.bail
      ("Artifact Signing Rust default credential chain failed: " ++
        String.intercalate "; " errors))
  | (_, none) :: rest, errors => tryCredentials rest errors
  | (name, some acquire) :: rest, errors => do
      match ← acquire.attempt with
      | .ok token => return token
      | .error failure => tryCredentials rest (errors ++ [name ++ ": " ++ errorText failure])

/-- `acquire_codesigning_token`. -/
def acquireCodesigningToken (auth : CodesigningAuth) (authority : Option (List Char)) :
    Session (List Char) :=
  match auth with
  | .bearer tok => do
      let t := trim tok
      Interaction.lift (Outcome.guardThat (t ≠ []) "access token must not be empty")
      return t
  | .managedIdentity clientId resourceId => acquireManagedIdentityToken web env clientId resourceId
  | .clientCredentials tenantId clientId clientSecret =>
      acquireClientCredentialsToken web authority tenantId clientId clientSecret
  | .workloadIdentity tenantId clientId federatedTokenFile =>
      acquireWorkloadIdentityToken web env authority tenantId clientId federatedTokenFile
  | .defaultChain excludeCredentials =>
      tryCredentials (defaultCredentials web env authority excludeCredentials) []

/-! ## The operation -/

/-- `CodesigningSubmitParams`. -/
structure CodesigningSubmitParams where
  region : List Char
  accountName : List Char
  profileName : List Char
  digest : List UInt8
  signatureAlgorithm : List Char
  apiVersion : List Char
  correlationId : Option (List Char)
  authority : Option (List Char)
  auth : CodesigningAuth
  endpointBaseUrl : Option (List Char)

/-- `data_plane_base_url`. -/
def dataPlaneBaseUrl (params : CodesigningSubmitParams) : List Char :=
  let default := "https://".toList ++ trim params.region ++ ".codesigning.azure.net".toList
  match params.endpointBaseUrl with
  | some u =>
      let t := (trim u).rdropWhile (· == '/')
      if t ≠ [] then t else default
  | none => default

/-- The location is a URL of its own. -/
def IsAbsolute (location : List Char) : Prop :=
  "http://".toList <+: location ∨ "https://".toList <+: location

instance (location : List Char) : Decidable (IsAbsolute location) :=
  inferInstanceAs (Decidable (_ ∨ _))

/-- `operation_location_url`. -/
def operationLocationUrl (base location : List Char) : List Char :=
  let trimmed := trim location
  if IsAbsolute trimmed then trimmed
  else if trimmed.head? = some '/' then base.rdropWhile (· == '/') ++ trimmed
  else base.rdropWhile (· == '/') ++ '/' :: trimmed

/-- The header that carries the token. -/
def authorization (token : List Char) : List Char × List Char :=
  ("Authorization".toList, "Bearer ".toList ++ token)

/-- The request of one poll. -/
def pollRequest (token pollUrl : List Char) : HttpRequest :=
  { method := .get, url := pollUrl, headers := [authorization token] }

/-- `status` of a polled operation. -/
def statusOf (v : Value) : List Char :=
  ((v.get "status".toList).bind Value.asStr).getD []

/-- The loop of `poll_operation`, `rounds` times. -/
def pollRounds (token pollUrl : List Char) : Nat → Session Value
  | 0 => Interaction.lift (Outcome.bail
      ("codesign operation timed out polling " ++ String.ofList pollUrl))
  | rounds + 1 => do
      let rsp ← send (pollRequest token pollUrl) "poll codesign operation"
      Interaction.lift (Outcome.guardThat rsp.isSuccess
        ("poll HTTP " ++ String.ofList (web.showStatus rsp.status) ++ ": " ++
          String.ofList (rsp.text.toOption.getD [])))
      let bytes ← Interaction.lift (Outcome.context rsp.bytes "poll JSON")
      let v ← Interaction.lift (Outcome.context (web.fromSlice bytes) "poll JSON")
      if statusOf v = "Succeeded".toList then return v
      else if statusOf v = "Failed".toList then
        Interaction.lift (Outcome.bail
          ("codesign operation failed: " ++ String.ofList (web.toText v)))
      else if statusOf v = "Canceled".toList then
        Interaction.lift (Outcome.bail "codesign operation canceled")
      else pollRounds token pollUrl rounds

/-- `poll_operation`. -/
def pollOperation (token pollUrl : List Char) : Session Value :=
  pollRounds web token pollUrl 90

/-- `{base}/codesigningaccounts/{account}/certificateprofiles/{profile}`. -/
def profileUrl (params : CodesigningSubmitParams) : List Char :=
  dataPlaneBaseUrl params ++ "/codesigningaccounts/".toList ++ trim params.accountName ++
    "/certificateprofiles/".toList ++ trim params.profileName

/-- `submit_url`. -/
def submitUrl (params : CodesigningSubmitParams) : List Char :=
  profileUrl params ++ ":sign?api-version=".toList ++ trim params.apiVersion

/-- The request that submits the digest. -/
def submitRequest (params : CodesigningSubmitParams) (token : List Char) : HttpRequest :=
  { method := .post
    url := submitUrl params
    headers := authorization token ::
      (match textOpt params.correlationId with
        | some c => [("x-correlation-id".toList, c), ("x-ms-correlation-id".toList, c)]
        | none => [])
    body := .json (.object
      [("signatureAlgorithm".toList, .string (trim params.signatureAlgorithm)),
        ("digest".toList, .string (web.base64.encode params.digest))]) }

/-- The identifier of the operation in the body of the response. -/
def operationId (v : Value) : Option (List Char) :=
  ((v.get "id".toList).or (v.get "operationId".toList)).bind Value.asStr

/-- What follows an accepted submit. -/
inductive Accepted where
  /-- The body is the result. -/
  | final (body : Value)
  /-- The operation goes on under a URL. -/
  | poll (url : List Char)

/-- The choice of `poll_url`. -/
def acceptedOf (params : CodesigningSubmitParams) (opLocation : Option (List Char))
    (acceptJson : Value) : Accepted :=
  match opLocation with
  | some loc => .poll (operationLocationUrl (dataPlaneBaseUrl params) loc)
  | none =>
      if (acceptJson.get "status".toList).bind Value.asStr = some "Succeeded".toList then
        .final acceptJson
      else
        match operationId acceptJson with
        | some id =>
            .poll (profileUrl params ++ "/sign/".toList ++ id ++ "?api-version=".toList ++
              trim params.apiVersion)
        | none => .final acceptJson

/-- The JSON body of the response to the submit. -/
def acceptJsonOf (rsp : HttpResponse) : Outcome Value := do
  let bodyBytes ← Outcome.context rsp.bytes ":sign body"
  Outcome.guardThat rsp.isSuccess
    (":sign HTTP " ++ String.ofList (web.showStatus rsp.status) ++ ": " ++
      String.ofList (utf8Lossy bodyBytes))
  if bodyBytes = [] then return .null
  else Outcome.context (web.fromSlice bodyBytes) ":sign JSON"

/-- `submit_codesign_hash_blocking`. -/
def submitCodesignHashBlocking (params : CodesigningSubmitParams) : Session Value := do
  Interaction.lift (Outcome.guardThat (params.digest ≠ []) "digest is empty")
  let token ← acquireCodesigningToken web env params.auth params.authority
  let rsp ← send (submitRequest web params token) "codesign :sign POST"
  let acceptJson ← Interaction.lift (acceptJsonOf web rsp)
  match acceptedOf params rsp.opLocation acceptJson with
  | .final body => return body
  | .poll pollUrl => pollOperation web token pollUrl

end Psign.Rest
