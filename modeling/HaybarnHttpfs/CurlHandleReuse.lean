import HaybarnHttpfs.Foundation.Libcurl
import HaybarnHttpfs.HandleSettings
import HaybarnHttpfs.RequestSigning

/-!
A curl client is parked and found again, and its easy handle keeps the options of all the
requests before. What goes out for a request is compared with what a new client would send,
for any easy handles that do what libcurl documents.
-/

namespace HaybarnHttpfs.CurlHandleReuse

open HaybarnHttpfs.Foundation.ByteStrings HaybarnHttpfs.Foundation.Libcurl
open HaybarnHttpfs.CurlResponses (Method)
open HaybarnHttpfs.HandleSettings (HTTPFSParams CurlHttpVersion curlHttpVersion)
open HaybarnHttpfs.RequestPath (normalizePathToBeAdded)
open HaybarnHttpfs.RequestSigning (Headers curlHeaders)

variable {H R : Type} [EasyHandles H R]

def certFileLocations : List Bytes :=
  [bytes "/etc/ssl/certs/ca-certificates.crt",
    bytes "/etc/pki/ca-trust/extracted/pem/tls-ca-bundle.pem",
    bytes "/etc/pki/tls/certs/ca-bundle.crt", bytes "/etc/ssl/ca-bundle.pem",
    bytes "/etc/ssl/cert.pem"]

/-- The first location that `stat` finds. -/
def selectCURLCertPath (found : Bytes → Bool) : Bytes := (certFileLocations.find? found).getD []

/-- `CURLHandle(token, cert_path)`. -/
def newCURLHandle (H : Type) [EasyHandles H R] (token certPath : Bytes) : H :=
  setAll easyInit
    ((if token.isEmpty then []
      else
        [.value .xoauth2Bearer (.text token), .value .httpAuth (.long 64)]) ++
    (if certPath.isEmpty then [] else [.value .caInfo (.text certPath)]) ++
    [.value .sslOptions (.long 48)])

/-- `requestInfo` is the address of the request information; `allocated` are the addresses given
away so far. -/
structure CurlClient (H : Type) where
  baseUrl : Bytes
  curl : H
  useMultiDispatch : Bool := false
  storedBearerToken : Bytes := []
  storedCertFilePath : Bytes := []
  requestInfo : Nat := 0
  allocated : Nat := 0

def flag (enabled : Bool) : OptionValue := .long (if enabled then 1 else 0)

def httpVersionOption : CurlHttpVersion → OptionValue
  | .http11 => .long 2
  | .http20 => .long 3
  | .http2TLS => .long 4

def verifySsl (params : HTTPFSParams) : Bool :=
  if params.overrideVerifySsl then params.verifySsl else params.enableCurlServerCertVerification

def proxySettings (params : HTTPFSParams) : List Setting :=
  if params.httpProxy.isEmpty then []
  else
    .value .proxy (.text (params.httpProxy ++ bytes ":" ++ decimal params.httpProxyPort)) ::
    if params.httpProxyUsername.isEmpty then []
    else
      [.value .proxyUsername (.text params.httpProxyUsername),
        .value .proxyPassword (.text params.httpProxyPassword)]

def initializeSettings (version : CurlHttpVersion) (params : HTTPFSParams) (requestInfo : Nat) :
    List Setting :=
  [.value .forbidReuse (flag !params.keepAlive),
    .value .sslVerifyPeer (flag (verifySsl params)),
    .value .sslVerifyHost (.long (if verifySsl params then 2 else 0)),
    .value .connectTimeout (.long params.timeout), .value .timeout (.long 0),
    .value .lowSpeedLimit (.long 1024), .value .lowSpeedTime (.long params.timeout),
    .value .httpVersion (httpVersionOption version), .value .verbose (flag params.curlVerbose),
    .value .followLocation (flag params.followLocation),
    .value .headerFunction (.callback "RequestHeaderCallback"),
    .value .headerData (.address requestInfo),
    .value .writeFunction (.callback "RequestWriteCallback"),
    .value .writeData (.address requestInfo),
    .value .proxy .null, .value .proxyUsername .null, .value .proxyPassword .null] ++
  proxySettings params

def certFilePath (found : Bytes → Bool) (params : HTTPFSParams) : Bytes :=
  if params.caCertFile.isEmpty then selectCURLCertPath found else params.caCertFile

/-- `Initialize` with a handle, old or new. -/
def configure (version : CurlHttpVersion) (params : HTTPFSParams) (curl : H)
    (client : CurlClient H) : CurlClient H :=
  { client with
    curl := setAll curl (initializeSettings version params client.allocated)
    useMultiDispatch := params.http2Multiplex
    storedBearerToken := params.bearerToken
    storedCertFilePath := params.caCertFile
    requestInfo := client.allocated
    allocated := client.allocated + 1 }

/-- `HTTPFSCurlClient(http_params, proto_host_port)`. -/
def construct (found : Bytes → Bool) (protoHostPort : Bytes) (params : HTTPFSParams) :
    Except Bytes (CurlClient H) := do
  let version ← curlHttpVersion params.httpVersion
  return configure version params (newCURLHandle H params.bearerToken (certFilePath found params))
    { baseUrl := normalizePathToBeAdded protoHostPort, curl := easyInit }

/-- `Initialize`, of a client that has a handle. It makes another one only for another token or
another file of certificates. -/
def curlInitialize (found : Bytes → Bool) (params : HTTPFSParams) (client : CurlClient H) :
    Except Bytes (CurlClient H) := do
  let version ← curlHttpVersion params.httpVersion
  if client.storedBearerToken ≠ params.bearerToken ∨
      client.storedCertFilePath ≠ params.caCertFile then
    return configure version params
      (newCURLHandle H params.bearerToken (certFilePath found params)) client
  else return configure version params client.curl client

/-- `Cleanup` before the client is parked: the options still name the old request information. -/
def cleanup (client : CurlClient H) : CurlClient H :=
  { client with requestInfo := client.allocated, allocated := client.allocated + 1 }

/-- `cancellation` is the address of the flag of the query. -/
structure CurlRequest where
  method : Method
  path : Bytes
  headers : Headers := []
  contentType : Bytes := []
  bufferIn : Bytes := []
  sendPostAsGetRequest : Bool := false
  cancellation : Option Nat := none
  params : HTTPFSParams := {}

def requestIsRangeRequest (request : CurlRequest) : Bool :=
  request.headers.any (fun header => lower header.1 = bytes "range") ||
    request.params.extraHeaders.any fun header => lower header.1 = bytes "range"

/-- The options that `ResetRequestInfo` sets. -/
def resetSettings : List Setting :=
  [.value .noProgress (.long 1), .value .xferInfoFunction .null, .value .xferInfoData .null]

def encodingSettings (request : CurlRequest) : List Setting :=
  if request.method = .head ∨ requestIsRangeRequest request = true then
    [.value .acceptEncoding (.text (bytes "identity"))]
  else [.value .acceptEncoding (.text [])]

def urlSettings (baseUrl : Bytes) (request : CurlRequest) : List Setting :=
  [.value .url .null,
    .value .curlu (.parsedUrl baseUrl (normalizePathToBeAdded request.path))]

def headerLines (request : CurlRequest) : List Bytes :=
  (curlHeaders request.method request.contentType request.params.userAgent request.headers
    request.params.extraHeaders request.params.preMergedHeaders).map fun header =>
      header.1 ++ bytes ": " ++ header.2

def headerSettings (request : CurlRequest) : List Setting :=
  [.value .httpHeader
    (if (headerLines request).isEmpty then .null else .list (headerLines request))]

/-- `ArmCancellation`. -/
def cancellationSettings (request : CurlRequest) : List Setting :=
  match request.cancellation with
  | none => []
  | some cancellation =>
      [.value .xferInfoFunction (.callback "CancelXferInfo"),
        .value .xferInfoData (.address cancellation), .value .noProgress (.long 0)]

def bodySettings (request : CurlRequest) : List Setting :=
  [.value .postFields (.text request.bufferIn),
    .value .postFieldSize (.long request.bufferIn.length)]

/-- What picks the method, before the transfer. -/
def methodSettings (request : CurlRequest) : List Setting :=
  match request.method with
  | .get => [.noBody false, .httpGet true]
  | .head => [.noBody true, .httpGet false]
  | .delete => [.value .customRequest (.text (bytes "DELETE"))]
  | .put => .value .customRequest (.text (bytes "PUT")) :: bodySettings request
  | .post =>
      (if request.sendPostAsGetRequest then .value .customRequest (.text (bytes "GET"))
        else .post true) :: bodySettings request

def beforeSettings (baseUrl : Bytes) (request : CurlRequest) : List Setting :=
  resetSettings ++ encodingSettings request ++
  (match request.method with
    | .get | .head => methodSettings request ++ urlSettings baseUrl request
    | .put | .delete | .post => urlSettings baseUrl request ++ methodSettings request) ++
  headerSettings request ++ cancellationSettings request

/-- What takes the method back after the transfer. -/
def afterSettings : Method → List Setting
  | .get => []
  | .head => [.noBody false, .httpGet true]
  | .delete => [.value .customRequest .null]
  | .put =>
      [.value .customRequest .null, .value .postFields .null, .value .postFieldSize (.long 0)]
  | .post =>
      [.value .customRequest .null, .value .postFields .null, .value .postFieldSize (.long 0),
        .post false]

/-- The dispatcher marks a handle as its own while the transfer is pending. -/
def submitSettings (pending : Nat) : List Setting :=
  [.value .privateData (.address pending), .value .pipeWait (.long 1)]

def harvestSettings : List Setting := [.value .privateData .null]

/-- `collects` says that the callbacks write to the request information that the client has. -/
structure Sent (R : Type) where
  transfer : R
  useMultiDispatch : Bool
  collects : Bool

/-- The handle as `Execute` gets it. -/
def CurlClient.ready (client : CurlClient H) (request : CurlRequest) : H :=
  setAll client.curl (beforeSettings client.baseUrl request)

def CurlClient.sent (client : CurlClient H) (request : CurlRequest) : Sent R where
  transfer := transferOf (client.ready request)
  useMultiDispatch := client.useMultiDispatch
  collects := valueOf (client.ready request) .headerData = .address client.requestInfo &&
    valueOf (client.ready request) .writeData = .address client.requestInfo

/-- A request, over the curl client or its dispatcher. -/
def perform (pending : Nat) (request : CurlRequest) (client : CurlClient H) : CurlClient H :=
  let executed :=
    if client.useMultiDispatch then
      setAll (client.ready request) (submitSettings pending ++ harvestSettings)
    else client.ready request
  { client with curl := setAll executed (afterSettings request.method) }

/-- What happens to a client; `pending` is where the dispatcher keeps a transfer. -/
inductive Use where
  | init (params : HTTPFSParams)
  | request (pending : Nat) (request : CurlRequest)
  | cleanup

def step (found : Bytes → Bool) (client : CurlClient H) : Use → Except Bytes (CurlClient H)
  | .init params => curlInitialize found params client
  | .request pending request => .ok (perform pending request client)
  | .cleanup => .ok (cleanup client)

/-- A client that an `Initialize` throws for is gone. -/
def run (found : Bytes → Bool) (client : CurlClient H) (uses : List Use) :
    Except Bytes (CurlClient H) :=
  uses.foldlM (step found) client

/-- What is left of the uses so far: the last parameters, whether the last request on the handle
that was not a `DELETE` was a `PUT`, and whether the client was cleaned up since. -/
structure Trace where
  params : HTTPFSParams
  afterPut : Bool := false
  cleaned : Bool := false

def Trace.next (trace : Trace) : Use → Trace
  | .init params =>
      { params
        afterPut := trace.afterPut && trace.params.bearerToken = params.bearerToken &&
          trace.params.caCertFile = params.caCertFile }
  | .request _ request =>
      { trace with
        afterPut :=
          match request.method with
          | .delete => trace.afterPut
          | .put => true
          | .get | .head | .post => false }
  | .cleanup => { trace with cleaned := true }

def Trace.ofUses (params : HTTPFSParams) (uses : List Use) : Trace :=
  uses.foldl Trace.next { params }

variable {found : Bytes → Bool} {version : CurlHttpVersion} {params : HTTPFSParams}
  {client fresh : CurlClient H} {request : CurlRequest} {trace : Trace} {option : EasyOption}
  {baseUrl : Bytes}

/-- The options that a request sets for itself or that do not belong to it. -/
def requestOption : EasyOption → Bool
  | .acceptEncoding | .curlu | .httpHeader | .noProgress | .url | .xferInfoData |
    .xferInfoFunction
  | .postFieldSize | .pipeWait | .headerData | .writeData => true
  | _ => false

/-- The handle of a new client. -/
def freshCurl (H : Type) [EasyHandles H R] (found : Bytes → Bool) (version : CurlHttpVersion)
    (params : HTTPFSParams) (requestInfo : Nat) : H :=
  setAll (newCURLHandle H params.bearerToken (certFilePath found params))
    (initializeSettings version params requestInfo)

/-- A client between two requests. -/
structure Parked (found : Bytes → Bool) (baseUrl : Bytes) (trace : Trace)
    (version : CurlHttpVersion) (client : CurlClient H) : Prop where
  base : client.baseUrl = baseUrl
  known : curlHttpVersion trace.params.httpVersion = .ok version
  bearerToken : client.storedBearerToken = trace.params.bearerToken
  certFile : client.storedCertFilePath = trace.params.caCertFile
  multiDispatch : client.useMultiDispatch = trace.params.http2Multiplex
  values : ∀ option, requestOption option = false →
    valueOf client.curl option = valueOf (freshCurl H found version trace.params 0) option
  picks : (kindOf client.curl, noBodyOf client.curl) =
    (if trace.afterPut then .post else .get, false)
  postFieldSize : trace.afterPut = true → valueOf client.curl .postFieldSize = .long 0
  allocated : client.requestInfo < client.allocated
  collects : ∃ target, valueOf client.curl .headerData = .address target ∧
    valueOf client.curl .writeData = .address target ∧
    (trace.cleaned = false → target = client.requestInfo) ∧
    (trace.cleaned = true → target < client.requestInfo)

theorem written_initializeSettings {requestInfo : Nat}
    (hnone : written option (initializeSettings version params requestInfo) = none) :
    option ∈ [.acceptEncoding, .caInfo, .curlu, .customRequest, .httpAuth, .httpHeader,
      .noProgress, .pipeWait, .postFields, .postFieldSize, .privateData, .sslOptions, .url,
      .xferInfoData, .xferInfoFunction, .xoauth2Bearer] := by
  rw [initializeSettings, written_append, Option.or_eq_none_iff] at hnone
  have hall := hnone.2
  clear hnone
  cases option with
  | _ => first | decide | cases hall

theorem written_requestInfo (hoption : requestOption option = false) (requestInfo : Nat) :
    written option (initializeSettings version params requestInfo) =
      written option (initializeSettings version params 0) := by
  rw [initializeSettings, initializeSettings, written_append, written_append]
  congr 1
  cases option with
  | headerData => cases hoption
  | writeData => cases hoption
  | _ => rfl

theorem written_proxySettings (hother : option ≠ .proxy ∧ option ≠ .proxyUsername ∧
    option ≠ .proxyPassword) : written option (proxySettings params) = none := by
  obtain ⟨hproxy, hname, hpassword⟩ := hother
  rw [proxySettings]
  split
  · rfl
  · split
    · simp [written, Setting.value?, hproxy.symm]
    · simp [written, Setting.value?, hproxy.symm, hname.symm, hpassword.symm]

theorem written_addresses {target : EasyOption}
    (htarget : target = .headerData ∨ target = .writeData)
    (requestInfo : Nat) : written target (initializeSettings version params requestInfo) =
      some (.address requestInfo) := by
  have hproxy : target ≠ .proxy ∧ target ≠ .proxyUsername ∧ target ≠ .proxyPassword := by
    obtain rfl | rfl := htarget
    · decide
    · decide
  rw [initializeSettings, written_append, written_proxySettings hproxy, Option.none_or]
  obtain rfl | rfl := htarget
  · rfl
  · rfl

theorem initializeSettings_plain (requestInfo : Nat) :
    (initializeSettings version params requestInfo).all Setting.plain = true := by
  have hproxy : (proxySettings params).all Setting.plain = true := by
    rw [proxySettings]
    split
    · rfl
    · split
      · rfl
      · rfl
  rw [initializeSettings, List.all_append, hproxy, Bool.and_true]
  rfl

theorem newCURLHandle_picks (token certPath : Bytes) :
    (kindOf (newCURLHandle H token certPath), noBodyOf (newCURLHandle H token certPath)) =
      (.get, false) := by
  have hplain : ((if token.isEmpty then []
      else [.value .xoauth2Bearer (.text token), .value .httpAuth (.long 64)]) ++
    (if certPath.isEmpty then [] else [.value .caInfo (.text certPath)]) ++
    [.value .sslOptions (.long 48)] : List Setting).all Setting.plain = true := by
    cases token.isEmpty with
    | _ =>
        cases certPath.isEmpty with
        | _ => rfl
  rw [newCURLHandle, picks_setAll, picksAll_plain _ _ hplain, EasyHandles.kindOf_easyInit,
    EasyHandles.noBodyOf_easyInit]

theorem configure_parked (client : CurlClient H) (afterPut : Bool)
    (hknown : curlHttpVersion params.httpVersion = .ok version) {curl : H}
    (hpicks : (kindOf curl, noBodyOf curl) = (if afterPut then .post else .get, false))
    (hsize : afterPut = true → valueOf curl .postFieldSize = .long 0)
    (hown : ∀ option ∈ [.caInfo, .customRequest, .httpAuth, .postFields, .privateData,
      .sslOptions, .xoauth2Bearer], valueOf curl option =
        valueOf (newCURLHandle H params.bearerToken (certFilePath found params)) option) :
    Parked found client.baseUrl { params, afterPut } version
      (configure version params curl client) := by
  have hplain : (initializeSettings version params client.allocated).all Setting.plain = true :=
    initializeSettings_plain client.allocated
  have haddress : ∀ target : EasyOption, target = .headerData ∨ target = .writeData →
      valueOf (configure version params curl client).curl target = .address client.allocated := by
    intro target htarget
    rw [configure, valueOf_setAll, written_addresses htarget, Option.getD_some]
  constructor
  · rfl
  · exact hknown
  · rfl
  · rfl
  · rfl
  · intro option hoption
    rw [configure, freshCurl, valueOf_setAll, valueOf_setAll, written_requestInfo hoption]
    cases hwritten : written option (initializeSettings version params 0) with
    | some value => rfl
    | none =>
        refine hown option ?_
        have hkept := written_initializeSettings hwritten
        revert hkept hoption
        cases option with
        | _ => decide
  · rw [configure, picks_setAll, picksAll_plain _ _ hplain, hpicks]
  · intro hput
    have hkept : written .postFieldSize (initializeSettings version params client.allocated) =
        none := by
      rw [initializeSettings, written_append, written_proxySettings (by decide), Option.none_or]
      rfl
    rw [configure, valueOf_setAll, hkept, Option.getD_none, hsize hput]
  · exact Nat.lt_succ_self _
  · exact ⟨client.allocated, haddress _ (.inl rfl), haddress _ (.inr rfl), fun _ => rfl,
      fun hcleaned => by cases hcleaned⟩

theorem construct_parked {protoHostPort : Bytes} (hclient : construct found protoHostPort params =
    .ok client) :
    ∃ version, Parked found (normalizePathToBeAdded protoHostPort) { params } version client := by
  cases hknown : curlHttpVersion params.httpVersion with
  | error e =>
      rw [construct, hknown] at hclient
      cases hclient
  | ok version =>
      rw [construct, hknown] at hclient
      cases hclient
      exact ⟨version, configure_parked
        { baseUrl := normalizePathToBeAdded protoHostPort, curl := easyInit } false hknown
        (newCURLHandle_picks params.bearerToken (certFilePath found params)) nofun fun _ _ => rfl⟩

theorem freshCurl_own (found : Bytes → Bool) (version : CurlHttpVersion) (params : HTTPFSParams)
    (option : EasyOption) (hoption : option ∈ [.caInfo, .customRequest, .httpAuth,
    .postFields, .privateData, .sslOptions, .xoauth2Bearer]) :
    requestOption option = false ∧ valueOf (freshCurl H found version params 0) option =
      valueOf (newCURLHandle H params.bearerToken (certFilePath found params)) option := by
  have hwritten : written option (initializeSettings version params 0) = none := by
    rw [initializeSettings, written_append, written_proxySettings (by
      revert hoption
      cases option with
      | _ => decide), Option.none_or]
    simp only [List.mem_cons, List.not_mem_nil, or_false] at hoption
    obtain rfl | rfl | rfl | rfl | rfl | rfl | rfl := hoption
    all_goals rfl
  constructor
  · revert hoption
    cases option with
    | _ => decide
  · rw [freshCurl, valueOf_setAll, hwritten, Option.getD_none]

theorem initialize_parked (hparked : Parked found baseUrl trace version client)
    {client' : CurlClient H} (hclient : curlInitialize found params client = .ok client') :
    ∃ version', Parked found baseUrl (trace.next (.init params)) version' client' := by
  obtain rfl := hparked.base
  cases hknown : curlHttpVersion params.httpVersion with
  | error e =>
      rw [curlInitialize, hknown] at hclient
      cases hclient
  | ok version' =>
      rw [curlInitialize, hknown] at hclient
      simp only [bind, Except.bind] at hclient
      refine ⟨version', ?_⟩
      rw [hparked.bearerToken, hparked.certFile] at hclient
      split at hclient
      · -- another handle
        rename_i hother
        cases hclient
        have hforgotten :
          (trace.afterPut && decide (trace.params.bearerToken = params.bearerToken) &&
            decide (trace.params.caCertFile = params.caCertFile)) = false := by
          obtain hother | hother := hother
          · simp [hother]
          · simp [hother]
        rw [Trace.next, hforgotten]
        exact configure_parked client false hknown
          (newCURLHandle_picks params.bearerToken (certFilePath found params)) nofun
            fun _ _ => rfl
      · rename_i hsame
        rw [not_or, not_not, not_not] at hsame
        obtain ⟨htoken, hcert⟩ := hsame
        cases hclient
        have hkept : (trace.afterPut && decide (trace.params.bearerToken = params.bearerToken) &&
            decide (trace.params.caCertFile = params.caCertFile)) = trace.afterPut := by
          simp [htoken, hcert]
        rw [Trace.next, hkept]
        refine configure_parked client _ hknown hparked.picks hparked.postFieldSize
          fun option hoption => ?_
        have hpath : certFilePath found trace.params = certFilePath found params := by
          rw [certFilePath, certFilePath, hcert]
        obtain ⟨hstays, hfresh⟩ :=
          freshCurl_own (H := H) found version trace.params option hoption
        rw [hparked.values option hstays, hfresh, htoken, hpath]

theorem cleanup_parked (hparked : Parked found baseUrl trace version client) :
    Parked found baseUrl (trace.next .cleanup) version (cleanup client) := by
  obtain ⟨target, hheader, hwrite, hlive, hdangling⟩ := hparked.collects
  have hallocated := hparked.allocated
  refine { hparked with
    allocated := Nat.lt_succ_self _
    collects := ⟨target, hheader, hwrite, fun hcleaned => (by cases hcleaned), fun _ => ?_⟩ }
  cases hcleaned : trace.cleaned with
  | false => exact hlive hcleaned ▸ hallocated
  | true => exact (hdangling hcleaned).trans hallocated

/-- A setting that writes an option of the request. -/
def ownSetting : Setting → Bool
  | .value option _ => requestOption option
  | .noBody _ | .httpGet _ | .post _ => false

theorem written_own (hoption : requestOption option = false) {settings : List Setting}
    (hown : settings.all ownSetting = true) : written option settings = none := by
  induction settings with
  | nil => rfl
  | cons setting settings ih =>
      rw [List.all_cons, Bool.and_eq_true] at hown
      rw [written, ih hown.2, Option.none_or]
      cases setting with
      | noBody enabled => rfl
      | httpGet enabled => rfl
      | post enabled => rfl
      | value target value =>
          refine if_neg fun hsame => ?_
          have htarget : requestOption target = true := hown.1
          rw [hsame, hoption] at htarget
          cases htarget

theorem plain_of_own {settings : List Setting} (hown : settings.all ownSetting = true) :
    settings.all Setting.plain = true := by
  rw [List.all_eq_true] at hown ⊢
  intro setting hsetting
  have hwrites := hown setting hsetting
  cases setting with
  | noBody enabled => cases hwrites
  | httpGet enabled => cases hwrites
  | post enabled => cases hwrites
  | value option value =>
      cases option with
      | postFields => cases hwrites
      | _ => rfl

theorem beforeSettings_split (baseUrl : Bytes) (request : CurlRequest) :
    ∃ first last, beforeSettings baseUrl request = first ++ (methodSettings request ++ last) ∧
      first.all ownSetting = true ∧ last.all ownSetting = true := by
  have hstart : (resetSettings ++ encodingSettings request).all ownSetting = true := by
    rw [encodingSettings]
    split
    · rfl
    · rfl
  have hurl : (urlSettings baseUrl request).all ownSetting = true := rfl
  have hend : (headerSettings request ++ cancellationSettings request).all ownSetting = true := by
    rw [cancellationSettings]
    cases request.cancellation with
    | none => rfl
    | some cancellation => rfl
  have hstartUrl : (resetSettings ++ encodingSettings request ++
      urlSettings baseUrl request).all ownSetting = true := by
    rw [List.all_append, hstart, hurl]
    rfl
  have hurlEnd : (urlSettings baseUrl request ++ (headerSettings request ++
      cancellationSettings request)).all ownSetting = true := by
    rw [List.all_append, hurl, hend]
    rfl
  rw [beforeSettings]
  cases request.method with
  | get => exact ⟨_, _, by simp only [List.append_assoc], hstart, hurlEnd⟩
  | head => exact ⟨_, _, by simp only [List.append_assoc], hstart, hurlEnd⟩
  | put => exact ⟨_, _, by simp only [List.append_assoc], hstartUrl, hend⟩
  | delete => exact ⟨_, _, by simp only [List.append_assoc], hstartUrl, hend⟩
  | post => exact ⟨_, _, by simp only [List.append_assoc], hstartUrl, hend⟩

theorem ready_picks (client : CurlClient H) (request : CurlRequest) :
    (kindOf (client.ready request), noBodyOf (client.ready request)) =
      picksAll (kindOf client.curl) (noBodyOf client.curl) (methodSettings request) := by
  obtain ⟨first, last, hbefore, hfirst, hlast⟩ := beforeSettings_split client.baseUrl request
  rw [CurlClient.ready, picks_setAll, hbefore, picksAll_append,
    picksAll_plain _ _ (plain_of_own hfirst), picksAll_append,
    picksAll_plain _ _ (plain_of_own hlast)]

theorem written_methodSettings (hoption : requestOption option = false) (request : CurlRequest) :
    written option (methodSettings request ++ afterSettings request.method) = none ∨
      written option (methodSettings request ++ afterSettings request.method) = some .null ∧
        (option = .customRequest ∨ option = .postFields) := by
  rw [written_append, methodSettings]
  cases request.method with
  | get => exact .inl rfl
  | head => exact .inl rfl
  | delete =>
      cases option with
      | customRequest => exact .inr ⟨rfl, .inl rfl⟩
      | _ => exact .inl rfl
  | put =>
      cases option with
      | customRequest => exact .inr ⟨rfl, .inl rfl⟩
      | postFields => exact .inr ⟨rfl, .inr rfl⟩
      | postFieldSize => cases hoption
      | _ => exact .inl rfl
  | post =>
      cases option with
      | customRequest => exact .inr ⟨rfl, .inl rfl⟩
      | postFields => exact .inr ⟨rfl, .inr rfl⟩
      | postFieldSize => cases hoption
      | _ =>
          refine .inl ?_
          cases request.sendPostAsGetRequest with
          | _ => rfl

theorem method_undone (trace : Trace) (pending : Nat) (request : CurlRequest) :
    picksAll (if trace.afterPut then .post else .get) false
        (methodSettings request ++ afterSettings request.method) =
      (if (trace.next (.request pending request)).afterPut then .post else .get, false) := by
  rw [methodSettings, Trace.next]
  cases request.method with
  | get => rfl
  | head => rfl
  | delete => rfl
  | put => rfl
  | post =>
      cases request.sendPostAsGetRequest with
      | false => rfl
      | true => rfl

/-- What the dispatcher does to a handle. -/
def dispatchSettings (client : CurlClient H) (pending : Nat) : List Setting :=
  if client.useMultiDispatch then submitSettings pending ++ harvestSettings else []

theorem perform_curl (pending : Nat) (request : CurlRequest) (client : CurlClient H) :
    (perform pending request client).curl =
      setAll (setAll (client.ready request) (dispatchSettings client pending))
        (afterSettings request.method) := by
  rw [perform, dispatchSettings]
  cases client.useMultiDispatch with
  | true => rfl
  | false => rfl

theorem dispatchSettings_plain (client : CurlClient H) (pending : Nat) :
    (dispatchSettings client pending).all Setting.plain = true := by
  rw [dispatchSettings]
  cases client.useMultiDispatch with
  | true => rfl
  | false => rfl

theorem perform_picks (pending : Nat) (request : CurlRequest) (client : CurlClient H) :
    (kindOf (perform pending request client).curl,
      noBodyOf (perform pending request client).curl) =
      picksAll (kindOf client.curl) (noBodyOf client.curl)
        (methodSettings request ++ afterSettings request.method) := by
  rw [perform_curl, ← setAll_append, picks_setAll, picksAll_append,
    picksAll_plain _ _ (dispatchSettings_plain client pending), picksAll_append,
    ← ready_picks client request]

theorem written_postFieldSize (hmethod : request.method = .delete) (baseUrl : Bytes) :
    written .postFieldSize (beforeSettings baseUrl request) = none := by
  have hencoding : written .postFieldSize (encodingSettings request) = none := by
    rw [encodingSettings]
    split
    · rfl
    · rfl
  have hcancellation : written .postFieldSize (cancellationSettings request) = none := by
    rw [cancellationSettings]
    cases request.cancellation with
    | none => rfl
    | some cancellation => rfl
  rw [beforeSettings, methodSettings, hmethod]
  simp only [written_append, hencoding, hcancellation, Option.none_or]
  rfl

theorem ready_postFieldSize (hmethod : request.method = .delete) (client : CurlClient H) :
    valueOf (client.ready request) .postFieldSize = valueOf client.curl .postFieldSize := by
  rw [CurlClient.ready, valueOf_setAll, written_postFieldSize hmethod, Option.getD_none]

theorem perform_postFieldSize (hsize : trace.afterPut = true →
      valueOf client.curl .postFieldSize = .long 0) (pending : Nat) (request : CurlRequest)
    (hput : (trace.next (.request pending request)).afterPut = true) :
    valueOf (perform pending request client).curl .postFieldSize = .long 0 := by
  rw [Trace.next] at hput
  rw [perform_curl]
  cases hmethod : request.method with
  | put => exact valueOf_setAll _ _ _
  | delete =>
      have hdispatch : written .postFieldSize (dispatchSettings client pending) = none := by
        rw [dispatchSettings]
        cases client.useMultiDispatch with
        | true => rfl
        | false => rfl
      have hafter : written .postFieldSize (afterSettings .delete) = none := rfl
      rw [valueOf_setAll, hafter, Option.getD_none, valueOf_setAll, hdispatch, Option.getD_none,
        ready_postFieldSize hmethod]
      rw [hmethod] at hput
      exact hsize hput
  | get | head | post =>
      rw [hmethod] at hput
      cases hput

theorem perform_values (pending : Nat) (request : CurlRequest)
    (hoption : requestOption option = false)
    (hidle : option ∈ [.customRequest, .postFields, .privateData] →
      valueOf client.curl option = .null) :
    valueOf (perform pending request client).curl option = valueOf client.curl option := by
  obtain ⟨first, last, hbefore, hfirst, hlast⟩ := beforeSettings_split client.baseUrl request
  rw [perform_curl, CurlClient.ready, hbefore, ← setAll_append, ← setAll_append, valueOf_setAll]
  simp only [written_append, written_own hoption hfirst, written_own hoption hlast,
    Option.none_or, Option.or_none]
  by_cases hprivate : option = .privateData
  · obtain rfl := hprivate
    have hafter : written .privateData (afterSettings request.method) = none := by
      cases request.method with
      | _ => rfl
    have hmethod : written .privateData (methodSettings request) = none := by
      rw [methodSettings]
      cases request.method with
      | post =>
          cases request.sendPostAsGetRequest with
          | _ => rfl
      | _ => rfl
    rw [hafter, hmethod, Option.or_none, Option.none_or, dispatchSettings]
    cases client.useMultiDispatch with
    | true => exact (hidle (by decide)).symm
    | false => rfl
  · have hdispatch : written option (dispatchSettings client pending) = none := by
      rw [dispatchSettings]
      cases client.useMultiDispatch with
      | true =>
          cases option with
          | privateData => exact absurd rfl hprivate
          | pipeWait => cases hoption
          | _ => rfl
      | false => rfl
    rw [hdispatch, Option.or_none, ← written_append]
    obtain hnone | ⟨hnull, hcases⟩ := written_methodSettings hoption request
    · rw [hnone]
      rfl
    · rw [hnull, Option.getD_some, hidle]
      obtain rfl | rfl := hcases
      · decide
      · decide

theorem perform_addresses (pending : Nat) (request : CurlRequest) (client : CurlClient H)
    {target : EasyOption} (htarget : target = .headerData ∨ target = .writeData) :
    valueOf (client.ready request) target = valueOf client.curl target ∧
      valueOf (perform pending request client).curl target = valueOf client.curl target := by
  have hready : written target (beforeSettings client.baseUrl request) = none := by
    have hencoding : written target (encodingSettings request) = none := by
      rw [encodingSettings]
      obtain rfl | rfl := htarget
      · split
        · rfl
        · rfl
      · split
        · rfl
        · rfl
    have hcancellation : written target (cancellationSettings request) = none := by
      rw [cancellationSettings]
      obtain rfl | rfl := htarget
      · cases request.cancellation with
        | _ => rfl
      · cases request.cancellation with
        | _ => rfl
    rw [beforeSettings, methodSettings]
    simp only [written_append, hencoding, hcancellation, Option.none_or]
    obtain rfl | rfl := htarget
    · cases request.method with
      | _ =>
          cases request.sendPostAsGetRequest with
          | _ => rfl
    · cases request.method with
      | _ =>
          cases request.sendPostAsGetRequest with
          | _ => rfl
  have hrest : written target
      (dispatchSettings client pending ++ afterSettings request.method) = none := by
    rw [dispatchSettings]
    obtain rfl | rfl := htarget
    · cases request.method with
      | _ =>
          cases client.useMultiDispatch with
          | _ => rfl
    · cases request.method with
      | _ =>
          cases client.useMultiDispatch with
          | _ => rfl
  have hvalue : valueOf (client.ready request) target = valueOf client.curl target := by
    rw [CurlClient.ready, valueOf_setAll, hready, Option.getD_none]
  refine ⟨hvalue, ?_⟩
  rw [perform_curl, ← setAll_append, valueOf_setAll, hrest, Option.getD_none, hvalue]

theorem newCURLHandle_idle (token certPath : Bytes)
    (hoption : option ∈ [.customRequest, .postFields, .privateData]) :
    valueOf (newCURLHandle H token certPath) option = .null := by
  rw [newCURLHandle, valueOf_setAll, EasyHandles.valueOf_easyInit option hoption]
  simp only [List.mem_cons, List.not_mem_nil, or_false] at hoption
  obtain rfl | rfl | rfl := hoption
  all_goals cases token.isEmpty
  all_goals cases certPath.isEmpty
  all_goals rfl

theorem Parked.idle (hparked : Parked found baseUrl trace version client)
    (hoption : option ∈ [.customRequest, .postFields, .privateData]) :
    valueOf client.curl option = .null := by
  have hmem : option ∈ [.caInfo, .customRequest, .httpAuth, .postFields, .privateData,
    .sslOptions, .xoauth2Bearer] := by
    revert hoption
    cases option with
    | _ => decide
  obtain ⟨hstays, hfresh⟩ := freshCurl_own (H := H) found version trace.params option hmem
  rw [hparked.values option hstays, hfresh, newCURLHandle_idle _ _ hoption]

theorem perform_parked (hparked : Parked found baseUrl trace version client) (pending : Nat)
    (request : CurlRequest) :
    Parked found baseUrl (trace.next (.request pending request)) version
      (perform pending request client) := by
  obtain ⟨target, hheader, hwrite, hcleaned⟩ := hparked.collects
  obtain ⟨hkind, hbody⟩ := Prod.mk.inj hparked.picks
  exact
    { base := hparked.base
      known := hparked.known
      bearerToken := hparked.bearerToken
      certFile := hparked.certFile
      multiDispatch := hparked.multiDispatch
      values := fun option hoption =>
        (perform_values pending request hoption hparked.idle).trans
          (hparked.values option hoption)
      picks := by
        rw [perform_picks, hkind, hbody]
        exact method_undone trace pending request
      postFieldSize := perform_postFieldSize hparked.postFieldSize pending request
      allocated := hparked.allocated
      collects := ⟨target, (perform_addresses pending request client (.inl rfl)).2.trans hheader,
        (perform_addresses pending request client (.inr rfl)).2.trans hwrite, hcleaned⟩ }

theorem run_parked (hparked : Parked found baseUrl trace version client) {uses : List Use}
    {client' : CurlClient H} (hrun : run found client uses = .ok client') :
    ∃ version', Parked found baseUrl (uses.foldl Trace.next trace) version' client' := by
  induction uses generalizing client trace version with
  | nil =>
      cases hrun
      exact ⟨version, hparked⟩
  | cons use uses ih =>
      rw [run, List.foldlM_cons] at hrun
      cases hstep : step found client use with
      | error e =>
          rw [hstep] at hrun
          cases hrun
      | ok next =>
          rw [hstep] at hrun
          cases use with
          | init params =>
              obtain ⟨version', hnext⟩ := initialize_parked hparked hstep
              exact ih hnext hrun
          | request pending request =>
              cases hstep
              exact ih (perform_parked hparked pending request) hrun
          | cleanup =>
              cases hstep
              exact ih (cleanup_parked hparked) hrun

theorem sent_collects (hparked : Parked found baseUrl trace version client)
    (request : CurlRequest) :
    (client.sent request).collects = !trace.cleaned := by
  obtain ⟨target, hheader, hwrite, hlive, hdangling⟩ := hparked.collects
  obtain ⟨hready, -⟩ := perform_addresses 0 request client (.inl rfl)
  obtain ⟨hready', -⟩ := perform_addresses 0 request client (.inr rfl)
  simp only [CurlClient.sent, hready, hready', hheader, hwrite]
  cases hcleaned : trace.cleaned with
  | false => simp [hlive hcleaned]
  | true =>
      have hne : target ≠ client.requestInfo := (hdangling hcleaned).ne
      simp [hne]

theorem ready_method (client : CurlClient H) (request : CurlRequest) :
    kindOf (client.ready request) =
      match request.method with
      | .get => .get
      | .head => .head
      | .delete => kindOf client.curl
      | .put | .post => .post := by
  rw [show kindOf (client.ready request) = _ from congrArg Prod.fst (ready_picks client request),
    methodSettings]
  cases request.method with
  | get => rfl
  | head => rfl
  | delete => rfl
  | put => rfl
  | post =>
      cases request.sendPostAsGetRequest with
      | _ => rfl

theorem beforeSettings_complete (baseUrl : Bytes) (request : CurlRequest)
    (hwritten : written option (beforeSettings baseUrl request) = none) :
    (requestOption option = true → option.internal = true) ∧
      (request.method = .put ∨ request.method = .post →
        option ≠ .postFields ∧ option ≠ .postFieldSize) := by
  rw [beforeSettings] at hwritten
  simp only [written_append, Option.or_eq_none_iff] at hwritten
  obtain ⟨-, hheader, hmiddle, hencoding, hreset⟩ := hwritten
  have hboth : written option (urlSettings baseUrl request) = none ∧
      written option (methodSettings request) = none := by
    cases hmethod : request.method with
    | get | head =>
        simp only [hmethod, written_append, Option.or_eq_none_iff] at hmiddle
        exact hmiddle
    | put | delete | post =>
        simp only [hmethod, written_append, Option.or_eq_none_iff] at hmiddle
        exact hmiddle.symm
  obtain ⟨hurl, hmethod⟩ := hboth
  constructor
  · intro hoption
    cases option with
    | acceptEncoding =>
        rw [encodingSettings] at hencoding
        split at hencoding
        · cases hencoding
        · cases hencoding
    | curlu => cases hurl
    | url => cases hurl
    | httpHeader => cases hheader
    | noProgress => cases hreset
    | xferInfoData => cases hreset
    | xferInfoFunction => cases hreset
    | _ => first | rfl | cases hoption
  · intro hcases
    have hbody : written option (bodySettings request) = none := by
      obtain hput | hpost := hcases
      · rw [methodSettings, hput] at hmethod
        exact (Option.or_eq_none_iff.mp hmethod).1
      · rw [methodSettings, hpost] at hmethod
        exact (Option.or_eq_none_iff.mp hmethod).1
    constructor
    · rintro rfl
      cases hbody
    · rintro rfl
      cases hbody

theorem ready_values (hparked : Parked found baseUrl trace version client)
    (hfresh : Parked found baseUrl { params := trace.params } version fresh)
    (request : CurlRequest) (hread : option.internal = false ∨ option = .customRequest) :
    valueOf (client.ready request) option = valueOf (fresh.ready request) option := by
  rw [CurlClient.ready, CurlClient.ready, hparked.base, hfresh.base]
  refine valueOf_setAll_congr _ fun hwritten => ?_
  cases hoption : requestOption option with
  | false => rw [hparked.values option hoption, hfresh.values option hoption]
  | true =>
      have hinternal := (beforeSettings_complete baseUrl request hwritten).1 hoption
      obtain hexternal | rfl := hread
      · rw [hinternal] at hexternal
        cases hexternal
      · cases hoption

theorem delete_body (hparked : Parked found baseUrl trace version client)
    (hmethod : request.method = .delete) :
    bodyOf H (client.sent request).transfer = if trace.afterPut then some [] else none := by
  have hkind := ready_method client request
  rw [hmethod] at hkind
  have hpicks := (Prod.mk.inj hparked.picks).1
  cases hput : trace.afterPut with
  | true =>
      rw [hput] at hpicks
      refine EasyHandles.bodyOf_emptyPost _ (hkind.trans hpicks) ?_
      rw [ready_postFieldSize hmethod, hparked.postFieldSize hput]
  | false =>
      rw [hput] at hpicks
      exact EasyHandles.bodyOf_get _ (hkind.trans hpicks)

theorem kindOf_ready_eq (hparked : Parked found baseUrl trace version client)
    (hfresh : Parked found baseUrl { params := trace.params } version fresh)
    (request : CurlRequest) (hdelete : ¬ (request.method = .delete ∧ trace.afterPut = true)) :
    kindOf (client.ready request) = kindOf (fresh.ready request) := by
  have hkind := (Prod.mk.inj hparked.picks).1
  have hkind' := (Prod.mk.inj hfresh.picks).1
  rw [ready_method client request, ready_method fresh request]
  cases hmethod : request.method with
  | delete =>
      have hnoPut : trace.afterPut = false := by
        rw [← Bool.not_eq_true]
        exact fun hput => hdelete ⟨hmethod, hput⟩
      simp only [hkind, hkind', hnoPut]
  | _ => rfl

theorem noBodyOf_ready_eq (hparked : Parked found baseUrl trace version client)
    (hfresh : Parked found baseUrl { params := trace.params } version fresh)
    (request : CurlRequest) :
    noBodyOf (client.ready request) = noBodyOf (fresh.ready request) := by
  have hbody : noBodyOf (client.ready request) = _ :=
    congrArg Prod.snd (ready_picks client request)
  have hbody' : noBodyOf (fresh.ready request) = _ :=
    congrArg Prod.snd (ready_picks fresh request)
  have hparkedBody := (Prod.mk.inj hparked.picks).2.trans (Prod.mk.inj hfresh.picks).2.symm
  rw [hbody, hbody', methodSettings]
  -- `DELETE` sets no body option, so the one of the parked handle shows
  cases request.method with
  | get => rfl
  | head => rfl
  | delete => exact hparkedBody
  | put => exact hparkedBody
  | post =>
      cases request.sendPostAsGetRequest with
      | false => rfl
      | true => exact hparkedBody

theorem sets_fields_of_post (hfresh : Parked found baseUrl { params } version fresh)
    (request : CurlRequest) (hpost : kindOf (fresh.ready request) = .post) :
    request.method = .put ∨ request.method = .post := by
  have hkind := (Prod.mk.inj hfresh.picks).1
  rw [ready_method fresh request] at hpost
  cases hmethod : request.method with
  | put => exact .inl rfl
  | post => exact .inr rfl
  | get => simp [hmethod] at hpost
  | head => simp [hmethod] at hpost
  | delete => simp [hmethod, hkind] at hpost

/-- A reused client sends what a new one would, exactly if it was not cleaned up since it was
configured and the request is not a `DELETE` after a `PUT`. -/
theorem sent_eq_iff (hparked : Parked found baseUrl trace version client)
    (hfresh : Parked found baseUrl { params := trace.params } version fresh)
    (request : CurlRequest) :
    client.sent request = fresh.sent request ↔
      trace.cleaned = false ∧ ¬ (request.method = .delete ∧ trace.afterPut = true) := by
  have hcollects := sent_collects hparked request
  have hcollects' := sent_collects hfresh request
  constructor
  · intro hsame
    rw [hsame, hcollects'] at hcollects
    refine ⟨by simpa using hcollects, fun hdelete => ?_⟩
    obtain ⟨hmethod, hput⟩ := hdelete
    have hbodies := delete_body hparked hmethod
    rw [hsame, delete_body hfresh hmethod, hput] at hbodies
    cases hbodies
  · rintro ⟨hcleaned, hdelete⟩
    have hsame := kindOf_ready_eq hparked hfresh request hdelete
    have htransfer : transferOf (client.ready request) = transferOf (fresh.ready request) := by
      refine EasyHandles.transferOf_congr _ _ hsame (noBodyOf_ready_eq hparked hfresh request)
        (ready_values hparked hfresh request (.inr rfl))
        (fun hpost => ?_)
        fun option hinternal => ready_values hparked hfresh request (.inl hinternal)
      -- only `PUT` and `POST` set the fields of a body, and they set both of them
      have hfields := sets_fields_of_post hfresh request (hsame.symm.trans hpost)
      rw [CurlClient.ready, CurlClient.ready, hparked.base, hfresh.base]
      constructor
      · exact valueOf_setAll_congr _ fun hwritten =>
          absurd rfl ((beforeSettings_complete baseUrl request hwritten).2 hfields).1
      · exact valueOf_setAll_congr _ fun hwritten =>
          absurd rfl ((beforeSettings_complete baseUrl request hwritten).2 hfields).2
    have hlive : (client.sent request).collects = (fresh.sent request).collects := by
      rw [hcollects, hcollects', hcleaned]
    have hmulti : client.useMultiDispatch = fresh.useMultiDispatch :=
      hparked.multiDispatch.trans hfresh.multiDispatch.symm
    have hsent : ∀ sent sent' : Sent R, sent.transfer = sent'.transfer →
        sent.useMultiDispatch = sent'.useMultiDispatch → sent.collects = sent'.collects →
        sent = sent' := by
      rintro ⟨_, _, _⟩ ⟨_, _, _⟩ rfl rfl rfl
      rfl
    exact hsent _ _ htransfer hmulti hlive

theorem construct_of_known (protoHostPort : Bytes)
    (hknown : curlHttpVersion params.httpVersion = .ok version) :
    ∃ fresh : CurlClient H, construct found protoHostPort params = .ok fresh := by
  rw [construct, hknown]
  exact ⟨_, rfl⟩

/-- A client that was used for whatever and then found again sends a request as a new client with
the last parameters would: the same method, body and headers under the same options, answered
into its own memory. The exceptions are a client that was cleaned up and not configured since,
and a `DELETE` after a `PUT`, which goes out with a body. -/
theorem reused_sends_as_new (found : Bytes → Bool) (protoHostPort : Bytes) (params : HTTPFSParams)
    (uses : List Use) (request : CurlRequest) {created client : CurlClient H}
    (hcreated : construct found protoHostPort params = .ok created)
    (hrun : run found created uses = .ok client) :
    ∃ fresh : CurlClient H,
      construct found protoHostPort (Trace.ofUses params uses).params = .ok fresh ∧
      (client.sent request = fresh.sent request ↔
        (Trace.ofUses params uses).cleaned = false ∧
          ¬ (request.method = .delete ∧ (Trace.ofUses params uses).afterPut = true)) ∧
      (request.method = .delete → bodyOf H (client.sent request).transfer =
        if (Trace.ofUses params uses).afterPut then some [] else none) := by
  obtain ⟨version, hparked⟩ := construct_parked hcreated
  obtain ⟨version', hclient⟩ := run_parked hparked hrun
  obtain ⟨fresh, hfresh⟩ :
      ∃ fresh : CurlClient H,
        construct found protoHostPort (Trace.ofUses params uses).params = .ok fresh :=
    construct_of_known protoHostPort hclient.known
  obtain ⟨version'', hnew⟩ := construct_parked hfresh
  have hversion : version'' = version' :=
    Except.ok.inj (hnew.known.symm.trans hclient.known)
  exact ⟨fresh, hfresh, sent_eq_iff hclient (hversion ▸ hnew) request, delete_body hclient⟩

/-- The values of a handle that `curl_easy_init` made. -/
def defaultValue : EasyOption → OptionValue
  | .postFieldSize => .long (-1)
  | .noProgress | .sslVerifyPeer => .long 1
  | .sslVerifyHost => .long 2
  | .connectTimeout | .timeout | .lowSpeedLimit | .lowSpeedTime | .verbose | .followLocation
  | .forbidReuse | .pipeWait | .httpVersion | .httpAuth | .sslOptions => .long 0
  | _ => .null

/-- A handle that is nothing but its options. -/
structure EasyHandle where
  kind : RequestKind := .get
  noBody : Bool := false
  values : EasyOption → OptionValue := defaultValue

structure Transfer where
  kind : RequestKind
  noBody : Bool
  customRequest : OptionValue
  body : Option Bytes
  options : EasyOption → OptionValue

def EasyHandle.setopt (handle : EasyHandle) (setting : Setting) : EasyHandle where
  kind := (setting.picks handle.kind handle.noBody).1
  noBody := (setting.picks handle.kind handle.noBody).2
  values option := (setting.value? option).getD (handle.values option)

def EasyHandle.body (handle : EasyHandle) : Option Bytes :=
  if handle.kind = .post then
    match handle.values .postFields, handle.values .postFieldSize with
    | .text fields, .long size => some (if size < 0 then fields else fields.take size.toNat)
    | _, _ => some []
  else none

def EasyHandle.transfer (handle : EasyHandle) : Transfer where
  kind := handle.kind
  noBody := handle.noBody
  customRequest := handle.values .customRequest
  body := handle.body
  options option := if option.internal then .null else handle.values option

theorem transfer_congr {handle handle' : EasyHandle} (hkind : handle.kind = handle'.kind)
    (hbody : handle.noBody = handle'.noBody)
    (hcustom : handle.values .customRequest = handle'.values .customRequest)
    (hfields : handle.kind = .post → handle.values .postFields = handle'.values .postFields ∧
      handle.values .postFieldSize = handle'.values .postFieldSize)
    (hvalues : ∀ option, option.internal = false → handle.values option = handle'.values option) :
    handle.transfer = handle'.transfer := by
  have hsent : handle.body = handle'.body := by
    rw [EasyHandle.body, EasyHandle.body, ← hkind]
    by_cases hpost : handle.kind = .post
    · obtain ⟨hpostFields, hsize⟩ := hfields hpost
      rw [hpostFields, hsize]
    · rw [if_neg hpost, if_neg hpost]
  have hoptions : (fun option : EasyOption =>
      if option.internal then OptionValue.null else handle.values option) =
        fun option => if option.internal then .null else handle'.values option := by
    funext option
    cases hinternal : option.internal with
    | true => rfl
    | false => simpa using hvalues option hinternal
  rw [EasyHandle.transfer, EasyHandle.transfer, hkind, hbody, hcustom, hsent, hoptions]

instance : EasyHandles EasyHandle Transfer where
  easyInit := {}
  setopt := EasyHandle.setopt
  kindOf := EasyHandle.kind
  noBodyOf := EasyHandle.noBody
  valueOf := EasyHandle.values
  transferOf := EasyHandle.transfer
  bodyOf := Transfer.body
  kindOf_easyInit := rfl
  noBodyOf_easyInit := rfl
  valueOf_easyInit := by decide
  valueOf_setopt _ _ _ := rfl
  picks_setopt _ _ := rfl
  transferOf_congr _ _ := transfer_congr
  bodyOf_get handle hkind := by
    simp [EasyHandle.transfer, EasyHandle.body, hkind]
  bodyOf_emptyPost handle hkind hsize := by
    simp only [EasyHandle.transfer, EasyHandle.body, hkind, hsize, if_true]
    cases handle.values .postFields with
    | text fields => rfl
    | _ => rfl

/-- A client that uploaded something, was parked and found again. -/
def parkedUses : List Use :=
  [.request 0 { method := .put, path := bytes "/dir/k", bufferIn := bytes "data" }, .cleanup,
    .init {}]

theorem reused_sends_as_new_parked :
    ∃ created client fresh : CurlClient EasyHandle,
      construct (fun _ => false) (bytes "https://b") {} = .ok created ∧
      run (fun _ => false) created parkedUses = .ok client ∧
      construct (fun _ => false) (bytes "https://b") {} = .ok fresh ∧
      client.sent { method := .get, path := bytes "/dir/k" } =
        fresh.sent { method := .get, path := bytes "/dir/k" } ∧
      client.sent { method := .delete, path := bytes "/dir/k" } ≠
        fresh.sent { method := .delete, path := bytes "/dir/k" } := by
  obtain ⟨created, hcreated, client, hrun⟩ : ∃ created : CurlClient EasyHandle,
      construct (fun _ => false) (bytes "https://b") {} = .ok created ∧
        ∃ client, run (fun _ => false) created parkedUses = .ok client := ⟨_, rfl, _, rfl⟩
  obtain ⟨fresh, hfresh, hget, -⟩ := reused_sends_as_new (fun _ => false) (bytes "https://b") {}
    parkedUses { method := .get, path := bytes "/dir/k" } hcreated hrun
  obtain ⟨fresh', hfresh', hdelete, -⟩ :=
    reused_sends_as_new (fun _ => false) (bytes "https://b") {}
    parkedUses { method := .delete, path := bytes "/dir/k" } hcreated hrun
  obtain rfl : fresh = fresh' := Except.ok.inj (hfresh.symm.trans hfresh')
  refine ⟨created, client, fresh, hcreated, hrun, hfresh, hget.mpr ⟨rfl, by decide⟩,
    fun hsame => ?_⟩
  exact (hdelete.mp hsame).2 ⟨rfl, rfl⟩

end HaybarnHttpfs.CurlHandleReuse
