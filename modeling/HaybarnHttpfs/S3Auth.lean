import HaybarnHttpfs.Foundation.ByteStrings

/-!
The authentication parameters of an S3 handle and the part of its HTTP
parameters that a credential refresh replaces.
-/

namespace HaybarnHttpfs.S3Auth

open HaybarnHttpfs.Foundation.ByteStrings

structure S3AuthParams where
  region : Bytes := []
  accessKeyId : Bytes := []
  secretAccessKey : Bytes := []
  sessionToken : Bytes := []
  endpoint : Bytes := []
  kmsKeyId : Bytes := []
  urlStyle : Bytes := []
  useSsl : Bool := true
  s3UrlCompatibilityMode : Bool := false
  requesterPays : Bool := false
  oauth2BearerToken : Bytes := []
  deriving DecidableEq, Repr

def endpointIsAWS (endpoint : Bytes) : Bool :=
  endpoint.isEmpty ||
    (startsWith endpoint (bytes "s3.") && endsWith endpoint (bytes ".amazonaws.com"))

def S3AuthParams.initializeEndpoint (params : S3AuthParams) : S3AuthParams :=
  if !endpointIsAWS params.endpoint then params
  else if params.region.isEmpty && params.accessKeyId.isEmpty then
    { params with endpoint := bytes "s3.amazonaws.com" }
  else
    let region := if params.region.isEmpty then bytes "us-east-1" else params.region
    { params with
      region := region
      endpoint := bytes "s3." ++ region ++ bytes ".amazonaws.com" }

def S3AuthParams.setRegion (params : S3AuthParams) (newRegion : Bytes) :
    S3AuthParams :=
  { params with region := newRegion }.initializeEndpoint

/-- `extraHeaders` is an unordered map: its entries, listed in key order. -/
structure S3RefreshableHTTPParams where
  httpProxy : Bytes := []
  httpProxyPort : Nat := 0
  httpProxyUsername : Bytes := []
  httpProxyPassword : Bytes := []
  extraHeaders : List (Bytes × Bytes) := []
  overrideVerifySsl : Bool := false
  verifySsl : Bool := true
  bearerToken : Bytes := []
  deriving DecidableEq, Repr

structure HTTPFSParams extends S3RefreshableHTTPParams where
  preMergedHeaders : Bool := false
  deriving DecidableEq, Repr

def snapshotRefreshableHTTPParams (params : HTTPFSParams) : S3RefreshableHTTPParams :=
  { params.toS3RefreshableHTTPParams with
    httpProxyPort := if params.httpProxy.isEmpty then 0 else params.httpProxyPort }

def applyRefreshableHTTPParams (source : S3RefreshableHTTPParams) : HTTPFSParams :=
  { source with
    httpProxyPort := if source.httpProxy.isEmpty then 0 else source.httpProxyPort
    preMergedHeaders := false }

/-- Applying a refresh and taking the next snapshot gives back what was applied:
a snapshot never carries a port without a proxy. -/
theorem snapshot_apply_snapshot (params : HTTPFSParams) :
    snapshotRefreshableHTTPParams
        (applyRefreshableHTTPParams (snapshotRefreshableHTTPParams params)) =
      snapshotRefreshableHTTPParams params := by
  unfold snapshotRefreshableHTTPParams applyRefreshableHTTPParams
  split
  · rfl
  · rfl

theorem initializeEndpoint_frame (params : S3AuthParams) :
    { params.initializeEndpoint with region := params.region, endpoint := params.endpoint } =
      params := by
  unfold S3AuthParams.initializeEndpoint
  split
  · rfl
  · split
    · rfl
    · rfl

theorem initializeEndpoint_endpoint {params : S3AuthParams}
    (hother : endpointIsAWS params.endpoint = false) :
    params.initializeEndpoint.endpoint = params.endpoint := by
  unfold S3AuthParams.initializeEndpoint
  simp [hother]

end HaybarnHttpfs.S3Auth
