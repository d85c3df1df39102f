import HaybarnHttpfs.Foundation.ByteStrings

/-!
The parameters a request runs with: an HTTP request has those of its handle, an S3
request a copy of them. What executing a request reads is gathered in one record, and
the copy is compared with the original by it.
-/

namespace HaybarnHttpfs.HandleSettings

open HaybarnHttpfs.Foundation.ByteStrings

universe u

/-- The engine's parameters. `extraHeaders` is a map: its entries in key order; `logger`
is the address of a logger. -/
structure HTTPParams where
  timeout : Nat := 30
  timeoutUsec : Nat := 0
  retries : Nat := 3
  retryWaitMs : Nat := 100
  retryBackoff : Float32 := 4
  keepAlive : Bool := true
  followLocation : Bool := true
  overrideVerifySsl : Bool := false
  verifySsl : Bool := true
  httpProxy : Bytes := []
  httpProxyPort : Nat := 0
  httpProxyUsername : Bytes := []
  httpProxyPassword : Bytes := []
  extraHeaders : List (Bytes × Bytes) := []
  logger : Option Nat := none

/-- `state` and `interruptFlag` are addresses: of the query's `HTTPState` and of the flag
that cancels the query. -/
structure HTTPFSParams extends HTTPParams where
  forceDownload : Bool := false
  autoFallbackToFullDownload : Bool := true
  enableServerCertVerification : Bool := false
  enableCurlServerCertVerification : Bool := true
  hfMaxPerPage : Nat := 0
  caCertFile : Bytes := []
  bearerToken : Bytes := []
  unsafeDisableEtagChecks : Bool := false
  s3VersionIdPinning : Bool := false
  state : Option Nat := none
  userAgent : Bytes := []
  preMergedHeaders : Bool := false
  forceDownloadThreshold : Nat := 0
  httpVersion : Bytes := bytes "auto"
  curlVerbose : Bool := false
  http2Multiplex : Bool := true
  interruptFlag : Option Nat := none

/-- The constructor, over what the engine's own constructor sets. -/
def newHTTPFSParams (engine : HTTPParams) : HTTPFSParams :=
  { engine with httpProxyPort := 0 }

/-- `Clone` fills new parameters field by field. -/
def HTTPFSParams.clone (engine : HTTPParams) (params : HTTPFSParams) : HTTPFSParams :=
  { newHTTPFSParams engine with
    timeout := params.timeout
    timeoutUsec := params.timeoutUsec
    retries := params.retries
    retryWaitMs := params.retryWaitMs
    retryBackoff := params.retryBackoff
    keepAlive := params.keepAlive
    followLocation := params.followLocation
    overrideVerifySsl := params.overrideVerifySsl
    verifySsl := params.verifySsl
    httpProxy := params.httpProxy
    httpProxyPort := if params.httpProxy.isEmpty then 0 else params.httpProxyPort
    httpProxyUsername := params.httpProxyUsername
    httpProxyPassword := params.httpProxyPassword
    extraHeaders := params.extraHeaders
    logger := params.logger
    forceDownload := params.forceDownload
    autoFallbackToFullDownload := params.autoFallbackToFullDownload
    enableServerCertVerification := params.enableServerCertVerification
    enableCurlServerCertVerification := params.enableCurlServerCertVerification
    hfMaxPerPage := params.hfMaxPerPage
    caCertFile := params.caCertFile
    bearerToken := params.bearerToken
    unsafeDisableEtagChecks := params.unsafeDisableEtagChecks
    s3VersionIdPinning := params.s3VersionIdPinning
    state := params.state
    userAgent := params.userAgent
    preMergedHeaders := params.preMergedHeaders
    forceDownloadThreshold := params.forceDownloadThreshold }

inductive CurlHttpVersion where
  | http2TLS
  | http11
  | http20
  deriving DecidableEq

structure Proxy where
  host : Bytes
  port : Nat
  credentials : Option (Bytes × Bytes)

/-- What both clients make of the proxy's four parameters. -/
def proxyOf (params : HTTPFSParams) : Option Proxy :=
  if params.httpProxy.isEmpty then none
  else
    some
      { host := params.httpProxy
        port := params.httpProxyPort
        credentials :=
          if params.httpProxyUsername.isEmpty then none
          else some (params.httpProxyUsername, params.httpProxyPassword) }

structure CurlOptions where
  bearerToken : Bytes
  certFilePath : Bytes
  state : Option Nat
  forbidReuse : Bool
  verifySsl : Bool
  connectTimeout : Nat
  lowSpeedTime : Nat
  httpVersion : CurlHttpVersion
  verbose : Bool
  useMultiDispatch : Bool
  followLocation : Bool
  proxy : Option Proxy

def curlHttpVersion (httpVersion : Bytes) : Except Bytes CurlHttpVersion :=
  if httpVersion = bytes "1.1" then .ok .http11
  else if httpVersion = bytes "2.0" ∨ httpVersion = bytes "2" then .ok .http20
  else if httpVersion ≠ bytes "auto" ∧ httpVersion ≠ [] then
    .error (bytes "Unknown http_version '" ++ httpVersion ++
      bytes "' (expected 'auto', '1.1', or '2.0')")
  else .ok .http2TLS

/-- `HTTPFSCurlClient::Initialize`. -/
def initializeCurl (params : HTTPFSParams) : Except Bytes CurlOptions := do
  let httpVersion ← curlHttpVersion params.httpVersion
  return {
    bearerToken := params.bearerToken
    certFilePath := params.caCertFile
    state := params.state
    forbidReuse := !params.keepAlive
    verifySsl :=
      if params.overrideVerifySsl then params.verifySsl
      else params.enableCurlServerCertVerification
    connectTimeout := params.timeout
    lowSpeedTime := params.timeout
    httpVersion
    verbose := params.curlVerbose
    useMultiDispatch := params.http2Multiplex
    followLocation := params.followLocation
    proxy := proxyOf params }

structure HttplibOptions where
  followLocation : Bool
  keepAlive : Bool
  caCertPath : Bytes
  verifySsl : Bool
  timeout : Nat
  timeoutUsec : Nat
  bearerToken : Bytes
  proxy : Option Proxy
  state : Option Nat

/-- `HTTPFSClient::Initialize`. -/
def initializeHttplib (params : HTTPFSParams) : HttplibOptions :=
  { followLocation := params.followLocation
    keepAlive := params.keepAlive
    caCertPath := params.caCertFile
    verifySsl :=
      if params.overrideVerifySsl then params.verifySsl else params.enableServerCertVerification
    timeout := params.timeout
    timeoutUsec := params.timeoutUsec
    bearerToken := params.bearerToken
    proxy := proxyOf params
    state := params.state }

/-- The engine's header map: `Insert` and the assignment through `operator[]`. -/
structure HeaderMap (η : Type u) where
  insert : η → Bytes → Bytes → η
  assign : η → Bytes → Bytes → η

variable {η : Type u}

def addUserAgentIfAvailable (core : HeaderMap η) (params : HTTPFSParams) (headers : η) : η :=
  if params.userAgent.isEmpty then headers
  else core.insert headers (bytes "User-Agent") params.userAgent

def addHandleHeaders (core : HeaderMap η) (params : HTTPFSParams) (headers : η) :
    HTTPFSParams × η :=
  ({ params with preMergedHeaders := true },
    params.extraHeaders.foldl
      (fun headers header => core.assign headers header.1 header.2) headers)

def addS3HTTPHeaders (core : HeaderMap η) (params : HTTPFSParams) (headers : η) :
    HTTPFSParams × η :=
  let headers := addUserAgentIfAvailable core params headers
  ({ params with preMergedHeaders := true },
    params.extraHeaders.foldl
      (fun headers header => core.assign headers header.1 header.2) headers)

inductive Method where
  | head
  | delete
  | post
  | put
  | get
  deriving DecidableEq

structure BaseRequest (η : Type u) where
  method : Method
  url : Bytes
  headers : η
  params : HTTPFSParams
  cancellation : Option Nat

def runRequest (method : Method) (url : Bytes) (headers : η) (params : HTTPFSParams) :
    BaseRequest η :=
  { method, url, headers, params, cancellation := params.interruptFlag }

def runHeadRequest : Bytes → η → HTTPFSParams → BaseRequest η := runRequest .head
def runDeleteRequest : Bytes → η → HTTPFSParams → BaseRequest η := runRequest .delete
def runPostRequest : Bytes → η → HTTPFSParams → BaseRequest η := runRequest .post
def runPutRequest : Bytes → η → HTTPFSParams → BaseRequest η := runRequest .put
def runGetRequest : Bytes → η → HTTPFSParams → BaseRequest η := runRequest .get
def runGetRangeRequest : Bytes → η → HTTPFSParams → BaseRequest η := runRequest .get

/-- A request of an HTTP handle. -/
def httpRequest (core : HeaderMap η) (method : Method) (url : Bytes) (headers : η)
    (params : HTTPFSParams) : BaseRequest η :=
  let merged := addHandleHeaders core params (addUserAgentIfAvailable core params headers)
  runRequest method url merged.2 merged.1

/-- `CreateS3RequestData`: the parameters and the headers; `signed` are the headers made
from the credentials. -/
def createS3RequestData (engine : HTTPParams) (core : HeaderMap η) (params : HTTPFSParams)
    (signed : η) : HTTPFSParams × η :=
  addS3HTTPHeaders core (params.clone engine) signed

/-- `CreateS3HandleRequestData` copies the parameters of the handle once more. -/
def createS3HandleRequestData (engine : HTTPParams) (core : HeaderMap η) (params : HTTPFSParams)
    (signed : η) : HTTPFSParams × η :=
  createS3RequestData engine core (params.clone engine) signed

def s3Request (data : HTTPFSParams × η) (method : Method) (url : Bytes) : BaseRequest η :=
  runRequest method url data.2 data.1

/-- The settings that executing a request reads. The port and the credentials of a proxy
are read only if there is one. -/
structure RequestSettings where
  retries : Nat
  retryWaitMs : Nat
  retryBackoff : Float32
  timeout : Nat
  timeoutUsec : Nat
  proxy : Option Proxy
  overrideVerifySsl : Bool
  verifySsl : Bool
  enableServerCertVerification : Bool
  enableCurlServerCertVerification : Bool
  caCertFile : Bytes
  bearerToken : Bytes
  keepAlive : Bool
  followLocation : Bool
  httpVersion : Bytes
  http2Multiplex : Bool
  curlVerbose : Bool
  logger : Option Nat
  state : Option Nat
  interruptFlag : Option Nat
  userAgent : Bytes
  extraHeaders : List (Bytes × Bytes)
  preMergedHeaders : Bool
  unsafeDisableEtagChecks : Bool
  s3VersionIdPinning : Bool
  forceDownload : Bool
  forceDownloadThreshold : Nat
  autoFallbackToFullDownload : Bool
  hfMaxPerPage : Nat

def settingsRead (params : HTTPFSParams) : RequestSettings :=
  { retries := params.retries
    retryWaitMs := params.retryWaitMs
    retryBackoff := params.retryBackoff
    timeout := params.timeout
    timeoutUsec := params.timeoutUsec
    proxy := proxyOf params
    overrideVerifySsl := params.overrideVerifySsl
    verifySsl := params.verifySsl
    enableServerCertVerification := params.enableServerCertVerification
    enableCurlServerCertVerification := params.enableCurlServerCertVerification
    caCertFile := params.caCertFile
    bearerToken := params.bearerToken
    keepAlive := params.keepAlive
    followLocation := params.followLocation
    httpVersion := params.httpVersion
    http2Multiplex := params.http2Multiplex
    curlVerbose := params.curlVerbose
    logger := params.logger
    state := params.state
    interruptFlag := params.interruptFlag
    userAgent := params.userAgent
    extraHeaders := params.extraHeaders
    preMergedHeaders := params.preMergedHeaders
    unsafeDisableEtagChecks := params.unsafeDisableEtagChecks
    s3VersionIdPinning := params.s3VersionIdPinning
    forceDownload := params.forceDownload
    forceDownloadThreshold := params.forceDownloadThreshold
    autoFallbackToFullDownload := params.autoFallbackToFullDownload
    hfMaxPerPage := params.hfMaxPerPage }

variable {params params' : HTTPFSParams} {engine : HTTPParams} {core : HeaderMap η}

theorem initializeCurl_of_settingsRead (hsame : settingsRead params = settingsRead params') :
    initializeCurl params = initializeCurl params' := by
  simp only [settingsRead, RequestSettings.mk.injEq] at hsame
  unfold initializeCurl
  simp only [hsame]

theorem initializeHttplib_of_settingsRead (hsame : settingsRead params = settingsRead params') :
    initializeHttplib params = initializeHttplib params' := by
  simp only [settingsRead, RequestSettings.mk.injEq] at hsame
  unfold initializeHttplib
  simp only [hsame]

theorem proxyOf_clone (engine : HTTPParams) (params : HTTPFSParams) :
    proxyOf (params.clone engine) = proxyOf params := by
  unfold proxyOf HTTPFSParams.clone
  by_cases hproxy : params.httpProxy.isEmpty = true
  · rw [if_pos hproxy, if_pos hproxy]
  · simp only [hproxy, Bool.false_eq_true, if_false]

theorem settingsRead_clone (engine : HTTPParams) (params : HTTPFSParams) :
    settingsRead (params.clone engine) =
      { settingsRead params with
        httpVersion := bytes "auto"
        curlVerbose := false
        http2Multiplex := true
        interruptFlag := none } := by
  unfold settingsRead
  rw [proxyOf_clone]
  rfl

theorem settingsRead_clone_clone (engine : HTTPParams) (params : HTTPFSParams) :
    settingsRead ((params.clone engine).clone engine) = settingsRead (params.clone engine) := by
  rw [settingsRead_clone, settingsRead_clone]

/-- The settings that `Clone` forgets are those of the constructor. -/
structure LeftAtDefaults (params : HTTPFSParams) : Prop where
  httpVersion : params.httpVersion = bytes "auto"
  curlVerbose : params.curlVerbose = false
  http2Multiplex : params.http2Multiplex = true
  interruptFlag : params.interruptFlag = none

theorem settingsRead_clone_iff (engine : HTTPParams) (params : HTTPFSParams) :
    settingsRead (params.clone engine) = settingsRead params ↔ LeftAtDefaults params := by
  constructor
  · intro hsame
    rw [settingsRead_clone] at hsame
    exact
      { httpVersion := (congrArg RequestSettings.httpVersion hsame).symm
        curlVerbose := (congrArg RequestSettings.curlVerbose hsame).symm
        http2Multiplex := (congrArg RequestSettings.http2Multiplex hsame).symm
        interruptFlag := (congrArg RequestSettings.interruptFlag hsame).symm }
  · rintro ⟨hversion, hverbose, hmultiplex, hflag⟩
    rw [settingsRead_clone, ← hversion, ← hverbose, ← hmultiplex, ← hflag]
    rfl

/-- Two requests that are executed alike, whichever client executes them. -/
structure RunsAs (request request' : BaseRequest η) : Prop where
  settings : settingsRead request.params = settingsRead request'.params
  cancellation : request.cancellation = request'.cancellation
  headers : request.headers = request'.headers
  curl : initializeCurl request.params = initializeCurl request'.params
  httplib : initializeHttplib request.params = initializeHttplib request'.params

theorem RunsAs.of_settingsRead (hsame : settingsRead params' = settingsRead params)
    (method : Method) (url : Bytes) (headers : η) :
    RunsAs (s3Request (addS3HTTPHeaders core params' headers) method url)
      (httpRequest core method url headers params) := by
  have hmerged : settingsRead { params' with preMergedHeaders := true } =
      settingsRead { params with preMergedHeaders := true } :=
    congrArg (fun settings : RequestSettings => { settings with preMergedHeaders := true }) hsame
  have hagent : params'.userAgent = params.userAgent := congrArg RequestSettings.userAgent hsame
  have hextra : params'.extraHeaders = params.extraHeaders :=
    congrArg RequestSettings.extraHeaders hsame
  constructor
  · exact hmerged
  · exact congrArg RequestSettings.interruptFlag hsame
  · show (addS3HTTPHeaders core params' headers).2 =
      (addHandleHeaders core params (addUserAgentIfAvailable core params headers)).2
    unfold addS3HTTPHeaders addHandleHeaders addUserAgentIfAvailable
    rw [hagent, hextra]
  · exact initializeCurl_of_settingsRead hmerged
  · exact initializeHttplib_of_settingsRead hmerged

/-- A copy agrees with the parameters wherever they are read, and the S3 requests built
from it run as the HTTP requests of the same handle. -/
structure ObeysSettings (engine : HTTPParams) (params : HTTPFSParams) : Prop where
  clone : settingsRead (params.clone engine) = settingsRead params
  requests : ∀ {η : Type u} (core : HeaderMap η) (method : Method) (url : Bytes) (headers : η),
    RunsAs (s3Request (createS3RequestData engine core params headers) method url)
      (httpRequest core method url headers params)
  handleRequests : ∀ {η : Type u} (core : HeaderMap η) (method : Method) (url : Bytes)
    (headers : η),
    RunsAs (s3Request (createS3HandleRequestData engine core params headers) method url)
      (httpRequest core method url headers params)

/-- S3 requests obey the settings of the handle exactly if the HTTP version, the
verbosity, the multiplexing and the interrupt flag are those of new parameters. -/
theorem obeysSettings_iff (engine : HTTPParams) (params : HTTPFSParams) :
    ObeysSettings.{u} engine params ↔ LeftAtDefaults params := by
  constructor
  · intro hobeys
    exact (settingsRead_clone_iff engine params).mp hobeys.clone
  · intro hdefaults
    have hclone := (settingsRead_clone_iff engine params).mpr hdefaults
    have htwice := (settingsRead_clone_clone engine params).trans hclone
    exact
      { clone := hclone
        requests := fun _ method url headers => .of_settingsRead hclone method url headers
        handleRequests := fun _ method url headers => .of_settingsRead htwice method url headers }

/-- The parameters of an open in a query, whose interrupt flag is captured. -/
def queryParams : HTTPFSParams := { interruptFlag := some 1 }

theorem interruptFlag_lost : ¬ ObeysSettings.{0} {} queryParams := by
  intro hobeys
  have hflag := congrArg RequestSettings.interruptFlag hobeys.clone
  rw [settingsRead_clone] at hflag
  exact absurd hflag (by decide)

end HaybarnHttpfs.HandleSettings
