import HaybarnHttpfs.CurlHeaders

/-!
The five methods of the curl client, on one handle that is reused. Which
`Accept-Encoding` a request sends is remembered with the request, and a response that
does not obey it is rejected before anything of it is delivered.
-/

namespace HaybarnHttpfs.CurlResponses

open HaybarnHttpfs.Foundation.ByteStrings HaybarnHttpfs.HTTPExchange HaybarnHttpfs.CurlHeaders

structure Response extends HTTPResponse where
  url : Bytes := []
  requestError : Option Bytes := none
  cancelled : Bool := false

/-- `HTTPStatusCode::INVALID`. -/
def invalidStatus : Nat := 0

inductive Method where
  | get
  | put
  | head
  | delete
  | post
  deriving DecidableEq, Repr

def Method.name : Method → Bytes
  | .get => bytes "GET"
  | .put => bytes "PUT"
  | .head => bytes "HEAD"
  | .delete => bytes "DELETE"
  | .post => bytes "POST"

/-- What the response handler of a `GET` comes to. -/
inductive Verdict where
  | proceed
  | stop
  | throws
  deriving DecidableEq, Repr

/-- `cancellation` is whether the request has a flag; `contentHandler` says whether it
returns. -/
structure Request where
  method : Method
  url : Bytes := []
  headers : HTTPHeaders := {}
  userAgent : Bytes := []
  extraHeaders : List (Bytes × Bytes) := []
  cancellation : Bool := false
  responseHandler : Option (Response → Verdict) := none
  contentHandler : Option (Bytes → Bool) := none

inductive CURLcode where
  | ok
  | abortedByCallback
  | failed
  deriving DecidableEq, Repr

def contentEncoding : Bytes := bytes "Content-Encoding"

def identity : Bytes := bytes "identity"

/-- What `Execute` comes to. `blocks` are the header lines of the responses on the way,
which the callback takes without throwing; `cancelled` is the flag when it is looked at.
With `decoded` the transfer completed and its body was decoded, which curl does only if a
`Content-Encoding` line of the final response names an encoding. -/
structure Transfer where
  result : CURLcode
  strerror : Bytes := []
  responseCode : Nat := 0
  blocks : List Block := []
  body : Bytes := []
  cancelled : Bool := false
  decoded : Bool := false
  valued : ∀ line ∈ linesOf blocks, Valued line
  completed : decoded = true → result = .ok
  named : decoded = true → ∃ before final, blocks = before ++ [final] ∧
    ∃ field ∈ final.fields, lower field.1 = lower contentEncoding ∧ field.2 ≠ [] ∧
      lower field.2 ≠ identity

/-- The header maps that the callback leaves, run over the lines of the transfer. -/
def Transfer.headerCollection (core : HTTPCore) (transfer : Transfer)
    (headerCollection : List HTTPHeaders) : List HTTPHeaders :=
  match collect core (linesOf transfer.blocks) headerCollection with
  | .ok (_, headerCollection) => headerCollection
  -- not reached, since all lines are `valued`
  | .error _ => headerCollection

structure RequestInfo where
  url : Bytes := []
  body : Bytes := []
  responseCode : Nat := 0
  headerCollection : List HTTPHeaders := []
  sentIdentityOnly : Bool := false

/-- `acceptEncoding` is the option of the handle, which no reset touches. -/
structure CurlClient where
  requestInfo : RequestInfo := {}
  acceptEncoding : Option Bytes := none

def requestIsRangeRequest (headers : HTTPHeaders) (extraHeaders : List (Bytes × Bytes)) : Bool :=
  (headerValue headers (bytes "Range")).isSome ||
    extraHeaders.any fun entry => lower entry.1 = bytes "range"

def addUserAgentIfAvailable (core : HTTPCore) (request : Request) : HTTPHeaders :=
  if request.userAgent.isEmpty then request.headers
  else core.insert request.headers (bytes "User-Agent") request.userAgent

def resetRequestInfo (client : CurlClient) : CurlClient :=
  { client with requestInfo := {} }

def requireIdentityResponse (client : CurlClient) : CurlClient :=
  { requestInfo := { client.requestInfo with sentIdentityOnly := true }
    acceptEncoding := some identity }

def allowCompressedResponse (hasRangeHeader : Bool) (client : CurlClient) : CurlClient :=
  if hasRangeHeader then requireIdentityResponse client
  else
    { requestInfo := { client.requestInfo with sentIdentityOnly := false }
      acceptEncoding := some [] }

/-- The callbacks append to the request information. -/
def execute (core : HTTPCore) (transfer : Transfer) (info : RequestInfo) : RequestInfo :=
  { info with
    body := info.body ++ transfer.body
    headerCollection := transfer.headerCollection core info.headerCollection }

def checkCancelled (request : Request) (transfer : Transfer) (info : RequestInfo) :
    Option Response :=
  if transfer.result = .abortedByCallback && request.cancellation && transfer.cancelled then
    some
      { status := invalidStatus
        cancelled := true
        requestError :=
          some (bytes "HTTP " ++ request.method.name ++ bytes " request was cancelled")
        url := info.url }
  else none

def rejectIfContentEncodingViolation (info : RequestInfo) : Option Response :=
  if !info.sentIdentityOnly then none
  else
    match info.headerCollection.getLast? with
    | none => none
    | some headers =>
        match headerValue headers contentEncoding with
        | none => none
        | some value =>
            if lower value = identity then none
            else
              some
                { status := invalidStatus
                  requestError := some (bytes "Server returned Content-Encoding '" ++ value ++
                    bytes "' but we requested identity; " ++
                    bytes "refusing to deliver non-identity-encoded bytes.")
                  url := info.url }

def bodyWasDecoded (headers : HTTPHeaders) : Bool :=
  match headerValue headers contentEncoding with
  | none => false
  | some value => !(lower value).isEmpty && lower value ≠ identity

/-- The headers handed on; those of a decoded body are made to match it. -/
def forwardHeaders (core : HTTPCore) (headers : HTTPHeaders) (decoded : Bool) (bodySize : Nat) :
    HTTPHeaders :=
  let kept := headers.entries.filter fun entry =>
    entry.1 ≠ bytes "__RESPONSE_STATUS__" &&
      !(decoded && (lower entry.1 = bytes "content-length" ||
        lower entry.1 = bytes "content-encoding"))
  let forwarded := insertAll core {} kept
  if decoded then core.insert forwarded (bytes "Content-Length") (decimal bodySize) else forwarded

def transformResponseCurl (core : HTTPCore) (transfer : Transfer)
    (info : RequestInfo) : Response :=
  if transfer.result ≠ .ok then
    { status := info.responseCode, requestError := some transfer.strerror }
  else
    { status := info.responseCode
      body := info.body
      url := info.url
      headers :=
        match info.headerCollection.getLast? with
        | none => {}
        | some headers => forwardHeaders core headers (bodyWasDecoded headers) info.body.length }

/-- What the methods have in common, up to the response; `error` is a response that is
returned early. -/
def perform (core : HTTPCore) (encodingPolicy : CurlClient → CurlClient) (request : Request)
    (transfer : Transfer) (client : CurlClient) : CurlClient × Except Response Response :=
  let client := encodingPolicy (resetRequestInfo client)
  let info := execute core transfer { client.requestInfo with url := request.url }
  match checkCancelled request transfer info with
  | some response => ({ client with requestInfo := info }, .error response)
  | none =>
      let info := { info with responseCode := transfer.responseCode }
      ({ client with requestInfo := info },
        match rejectIfContentEncodingViolation info with
        | some response => .error response
        | none => .ok (transformResponseCurl core transfer info))

inductive Delivery where
  | responseHandler (response : Response)
  | contentHandler (data : Bytes)
  | caller (response : Response)

def Delivery.response? : Delivery → Option Response
  | .responseHandler response => some response
  | .contentHandler _ => none
  | .caller response => some response

/-- The end of `Get`: after the handlers the caller has the response, unless one throws. -/
def deliverContent (request : Request) (transfer : Transfer) (response : Response) :
    List Delivery :=
  match request.contentHandler with
  | some returns =>
      if transfer.result = .ok ∧ response.status < 400 then
        .contentHandler response.body ::
          if returns response.body then [.caller response] else []
      else [.caller response]
  | none => [.caller response]

def deliver (request : Request) (transfer : Transfer) (response : Response) : List Delivery :=
  match request.responseHandler with
  | none => deliverContent request transfer response
  | some handler =>
      .responseHandler response ::
        match handler response with
        | .proceed => deliverContent request transfer response
        | .stop => [.caller response]
        | .throws => []

def returned : Except Response Response → List Delivery
  | .error response => [.caller response]
  | .ok response => [.caller response]

def negotiated (core : HTTPCore) (request : Request) : CurlClient → CurlClient :=
  allowCompressedResponse
    (requestIsRangeRequest (addUserAgentIfAvailable core request) request.extraHeaders)

def get (core : HTTPCore) (request : Request) (transfer : Transfer) (client : CurlClient) :
    CurlClient × List Delivery :=
  let (client, response) := perform core (negotiated core request) request transfer client
  (client,
    match response with
    | .error response => [.caller response]
    | .ok response => deliver request transfer response)

def put (core : HTTPCore) (request : Request) (transfer : Transfer) (client : CurlClient) :
    CurlClient × List Delivery :=
  let (client, response) := perform core (negotiated core request) request transfer client
  (client, returned response)

def head (core : HTTPCore) (request : Request) (transfer : Transfer) (client : CurlClient) :
    CurlClient × List Delivery :=
  let (client, response) := perform core requireIdentityResponse request transfer client
  (client, returned response)

def delete (core : HTTPCore) (request : Request) (transfer : Transfer) (client : CurlClient) :
    CurlClient × List Delivery :=
  let (client, response) := perform core (negotiated core request) request transfer client
  (client, returned response)

/-- `Post` has the body in `buffer_out` too, as it is in the response. -/
def post (core : HTTPCore) (request : Request) (transfer : Transfer) (client : CurlClient) :
    CurlClient × List Delivery :=
  let (client, response) := perform core (negotiated core request) request transfer client
  (client, returned response)

def respond (core : HTTPCore) (request : Request) (transfer : Transfer) (client : CurlClient) :
    CurlClient × List Delivery :=
  match request.method with
  | .get => get core request transfer client
  | .put => put core request transfer client
  | .head => head core request transfer client
  | .delete => delete core request transfer client
  | .post => post core request transfer client

/-- Between its requests a client is parked in the connection cache and initialized
again. -/
inductive Use where
  | request (request : Request) (transfer : Transfer)
  | reused
  | cleanup

structure Exchange where
  request : Request
  transfer : Transfer
  deliveries : List Delivery

def serve (core : HTTPCore) : CurlClient → List Use → List Exchange
  | _, [] => []
  | client, .request request transfer :: uses =>
      let (client, deliveries) := respond core request transfer client
      { request, transfer, deliveries } :: serve core client uses
  | client, .reused :: uses => serve core { client with requestInfo := {} } uses
  | client, .cleanup :: uses => serve core { client with requestInfo := {} } uses

/-- The first `Content-Encoding` of a block is identity, or empty, only if all are. -/
def FirstTells (block : Block) : Prop :=
  ∀ value, firstValue block.fields contentEncoding = some value →
    ∀ field ∈ block.fields, lower field.1 = lower contentEncoding →
      (lower value = identity → lower field.2 = identity) ∧ (value = [] → field.2 = [])

/-- A content encoding other than identity. -/
def Foreign (headers : HTTPHeaders) : Prop :=
  ∃ value, headerValue headers contentEncoding = some value ∧ lower value ≠ identity

variable {core : HeaderCore} {headers : HTTPHeaders} {name : Bytes}

theorem firstValue_filter_of_all {entries : List (Bytes × Bytes)} {kept : Bytes × Bytes → Bool}
    (hkept : ∀ entry ∈ entries, lower entry.1 = lower name → kept entry = true) :
    firstValue (entries.filter kept) name = firstValue entries name := by
  induction entries with
  | nil => rfl
  | cons entry entries ih =>
      rw [List.forall_mem_cons] at hkept
      by_cases hhere : kept entry = true
      · rw [List.filter_cons_of_pos hhere, firstValue_cons, firstValue_cons, ih hkept.2]
      · rw [List.filter_cons_of_neg hhere, firstValue_cons,
          if_neg fun hsame => hhere (hkept.1 hsame), ih hkept.2]
        rfl

theorem firstValue_filter_of_none {entries : List (Bytes × Bytes)} {kept : Bytes × Bytes → Bool}
    (hdropped : ∀ entry ∈ entries, lower entry.1 = lower name → kept entry = false) :
    firstValue (entries.filter kept) name = none := by
  unfold firstValue
  rw [List.find?_eq_none.mpr]
  · rfl
  · intro entry hentry hsame
    rw [List.mem_filter] at hentry
    rw [hdropped entry hentry.1 (by simpa using hsame)] at hentry
    exact Bool.false_ne_true hentry.2

theorem value_insertAll_empty (core : HeaderCore) (fields : List (Bytes × Bytes)) (name : Bytes) :
    headerValue (insertAll core.toHTTPCore {} fields) name = firstValue fields name := by
  rw [value_insertAll]
  rfl

theorem forwarded_encoding (headers : HTTPHeaders) (bodySize : Nat) :
    headerValue (forwardHeaders core.toHTTPCore headers false bodySize) contentEncoding =
      headerValue headers contentEncoding := by
  unfold forwardHeaders
  simp only [Bool.false_eq_true, if_false, Bool.false_and, Bool.not_false, Bool.and_true]
  rw [value_insertAll_empty, firstValue_filter_of_all]
  · rfl
  · intro entry _ hsame
    rw [decide_eq_true_eq]
    rintro hstatus
    rw [hstatus] at hsame
    exact absurd hsame (by decide)

theorem headerCollection_eq (core : HeaderCore) (transfer : Transfer)
    (headerCollection : List HTTPHeaders) :
    transfer.headerCollection core.toHTTPCore headerCollection =
      headerCollection ++ transfer.blocks.map (Block.collected core.toHTTPCore) := by
  unfold Transfer.headerCollection
  rw [collect_blocks transfer.valued headerCollection]

theorem collected_encoding (core : HeaderCore) {block : Block} {field : Bytes × Bytes}
    (hfield : field ∈ block.fields) (hname : lower field.1 = lower contentEncoding) :
    ∃ value, headerValue (block.collected core.toHTTPCore) contentEncoding = some value ∧
      firstValue block.fields contentEncoding = some value := by
  obtain ⟨value, hvalue⟩ := exists_firstValue hfield
  have hread := @value_collected core block field hfield
  rw [hname, if_neg (by decide), hvalue, Option.none_or] at hread
  refine ⟨value, ?_, ?_⟩
  · unfold headerValue at hread ⊢
    rw [← hread, find_of_lower (lower_lower contentEncoding)]
  · rw [← hvalue]
    exact firstValue_congr hname.symm

theorem foreign_of_field {block : Block} {field : Bytes × Bytes} (htells : FirstTells block)
    (hfield : field ∈ block.fields) (hname : lower field.1 = lower contentEncoding)
    (hforeign : lower field.2 ≠ identity) : Foreign (block.collected core.toHTTPCore) := by
  obtain ⟨value, hvalue, hfirst⟩ := collected_encoding core hfield hname
  exact ⟨value, hvalue, fun hidentity =>
    hforeign ((htells value hfirst field hfield hname).1 hidentity)⟩

theorem bodyWasDecoded_of_field (core : HeaderCore) {block : Block} {field : Bytes × Bytes}
    (htells : FirstTells block) (hfield : field ∈ block.fields)
    (hname : lower field.1 = lower contentEncoding) (hne : field.2 ≠ [])
    (hforeign : lower field.2 ≠ identity) :
    bodyWasDecoded (block.collected core.toHTTPCore) = true := by
  obtain ⟨value, hvalue, hfirst⟩ := collected_encoding core hfield hname
  obtain ⟨hidentity, hempty⟩ := htells value hfirst field hfield hname
  have hlower : lower value ≠ [] := fun hnil => hne (hempty (List.map_eq_nil_iff.mp hnil))
  have hother : lower value ≠ identity := fun heq => hforeign (hidentity heq)
  simp [bodyWasDecoded, hvalue, hlower, hother]

theorem getLast?_headerCollection {transfer : Transfer} {before : List Block} {final : Block}
    (hblocks : transfer.blocks = before ++ [final]) :
    (transfer.headerCollection core.toHTTPCore []).getLast? =
      some (final.collected core.toHTTPCore) := by
  rw [headerCollection_eq, List.nil_append, hblocks, List.map_append, List.map_singleton,
    List.getLast?_concat]

theorem not_foreign_empty : ¬ Foreign {} := by
  rintro ⟨value, hvalue, -⟩
  cases hvalue

theorem forwarded_decoded (headers : HTTPHeaders) (bodySize : Nat) :
    headerValue (forwardHeaders core.toHTTPCore headers true bodySize) contentEncoding = none ∧
      headerValue (forwardHeaders core.toHTTPCore headers true bodySize)
        (bytes "Content-Length") = some (decimal bodySize) := by
  have hdropped : ∀ name, lower name = bytes "content-length" ∨
      lower name = bytes "content-encoding" →
      ∀ entry ∈ headers.entries, lower entry.1 = lower name →
        (entry.1 ≠ bytes "__RESPONSE_STATUS__" &&
          !(true && (lower entry.1 = bytes "content-length" ||
            lower entry.1 = bytes "content-encoding"))) = false := by
    intro name hname entry _ hsame
    rw [hsame]
    rcases hname with hname | hname
    · simp [hname]
    · simp [hname]
  constructor
  · unfold forwardHeaders
    simp only [if_true]
    rw [value_insert, value_insertAll_empty,
      firstValue_filter_of_none (hdropped contentEncoding (.inr (by decide))), if_neg (by decide)]
    rfl
  · unfold forwardHeaders
    simp only [if_true]
    rw [value_insert, value_insertAll_empty,
      firstValue_filter_of_none (hdropped (bytes "Content-Length") (.inl (by decide))),
      if_pos rfl]
    rfl

theorem bodyWasDecoded_of_not_foreign (hown : ¬ Foreign headers) :
    bodyWasDecoded headers = false := by
  unfold bodyWasDecoded
  split
  · rfl
  · rename_i value hvalue
    have hidentity : lower value = identity := by
      by_contra hother
      exact hown ⟨value, hvalue, hother⟩
    simp [hidentity]

/-- The request information once the transfer is over. -/
def finished (core : HTTPCore) (request : Request) (transfer : Transfer)
    (sentIdentityOnly : Bool) : RequestInfo :=
  { url := request.url
    body := transfer.body
    responseCode := transfer.responseCode
    headerCollection := transfer.headerCollection core []
    sentIdentityOnly }

/-- An error that is returned before the response is looked at. -/
structure Refusal (response : Response) : Prop where
  error : response.requestError.isSome = true
  headers : response.headers = {}

/-- What a request has come to: a refusal, which a foreign encoding of a request for
identity always gets, or the response made of the final headers. -/
inductive Performed (core : HTTPCore) (request : Request) (transfer : Transfer)
    (sentIdentityOnly : Bool) : Except Response Response → Prop
  | refused (response : Response) : Refusal response →
      (transfer.result = .ok → rejectIfContentEncodingViolation
        (finished core request transfer sentIdentityOnly) = some response) →
      Performed core request transfer sentIdentityOnly (.error response)
  | answered :
      rejectIfContentEncodingViolation (finished core request transfer sentIdentityOnly) = none →
      Performed core request transfer sentIdentityOnly
        (.ok (transformResponseCurl core transfer
          (finished core request transfer sentIdentityOnly)))

theorem refusal_of_cancelled {request : Request} {transfer : Transfer} {info : RequestInfo}
    {response : Response} (hcancelled : checkCancelled request transfer info = some response) :
    Refusal response ∧ transfer.result = .abortedByCallback := by
  unfold checkCancelled at hcancelled
  split at hcancelled
  · rename_i haborted
    simp only [Bool.and_eq_true, decide_eq_true_eq] at haborted
    cases hcancelled
    exact ⟨⟨rfl, rfl⟩, haborted.1.1⟩
  · cases hcancelled

theorem reject_eq_some {info : RequestInfo} {response : Response}
    (hreject : rejectIfContentEncodingViolation info = some response) :
    Refusal response ∧ info.sentIdentityOnly = true ∧
      ∃ headers, info.headerCollection.getLast? = some headers ∧ Foreign headers := by
  unfold rejectIfContentEncodingViolation at hreject
  split at hreject
  · cases hreject
  · rename_i hsent
    split at hreject
    · cases hreject
    · rename_i headers hheaders
      split at hreject
      · cases hreject
      · rename_i value hvalue
        split at hreject
        · cases hreject
        · rename_i hforeign
          cases hreject
          exact ⟨⟨rfl, rfl⟩, by simpa using hsent, headers, hheaders, value, hvalue, hforeign⟩

theorem reject_isSome (info : RequestInfo) (hsent : info.sentIdentityOnly = true)
    (hheaders : info.headerCollection.getLast? = some headers) (hforeign : Foreign headers) :
    ∃ response, rejectIfContentEncodingViolation info = some response := by
  obtain ⟨value, hvalue, hother⟩ := hforeign
  unfold rejectIfContentEncodingViolation
  simp only [hsent, hheaders, hvalue, hother, Bool.not_true, Bool.false_eq_true, if_false]
  exact ⟨_, rfl⟩

theorem performed (core : HTTPCore) {encodingPolicy : CurlClient → CurlClient}
    {sentIdentityOnly : Bool} (request : Request) (transfer : Transfer) (client : CurlClient)
    (hpolicy : ∀ client, (encodingPolicy client).requestInfo =
      { client.requestInfo with sentIdentityOnly := sentIdentityOnly }) :
    Performed core request transfer sentIdentityOnly
      (perform core encodingPolicy request transfer client).2 := by
  have hfinished : ({ execute core transfer
      { (encodingPolicy (resetRequestInfo client)).requestInfo with url := request.url } with
      responseCode := transfer.responseCode } : RequestInfo) =
        finished core request transfer sentIdentityOnly := by
    rw [hpolicy]
    rfl
  unfold perform
  simp only
  split
  · rename_i response hcancelled
    obtain ⟨hrefusal, haborted⟩ := refusal_of_cancelled hcancelled
    refine .refused response hrefusal ?_
    intro hok
    rw [haborted] at hok
    cases hok
  · rw [hfinished]
    cases hreject : rejectIfContentEncodingViolation
      (finished core request transfer sentIdentityOnly) with
    | some response => exact .refused response (reject_eq_some hreject).1 fun _ => hreject
    | none => exact .answered hreject

/-- `HEAD` and every request with a range ask for identity. -/
def requiresIdentity (request : Request) : Bool :=
  request.method = .head || requestIsRangeRequest request.headers request.extraHeaders

theorem requestIsRange_userAgent (core : HeaderCore) (request : Request) :
    requestIsRangeRequest (addUserAgentIfAvailable core.toHTTPCore request) request.extraHeaders =
      requestIsRangeRequest request.headers request.extraHeaders := by
  unfold addUserAgentIfAvailable
  split
  · rfl
  · unfold requestIsRangeRequest
    rw [value_insert, if_neg (by decide), Option.or_none]

theorem negotiated_requestInfo (core : HeaderCore) (request : Request) (client : CurlClient) :
    (negotiated core.toHTTPCore request client).requestInfo =
      { client.requestInfo with
        sentIdentityOnly := requestIsRangeRequest request.headers request.extraHeaders } := by
  unfold negotiated allowCompressedResponse requireIdentityResponse
  rw [requestIsRange_userAgent]
  split
  · rename_i hrange
    rw [hrange]
  · rename_i hrange
    rw [Bool.not_eq_true] at hrange
    rw [hrange]

theorem response_of_deliver {request : Request} {transfer : Transfer}
    {response response' : Response}
    {delivery : Delivery} (hmem : delivery ∈ deliver request transfer response)
    (hresponse : delivery.response? = some response') : response' = response := by
  have hcontent : ∀ delivery ∈ deliverContent request transfer response, ∀ response',
      delivery.response? = some response' → response' = response := by
    intro delivery hmem response' hresponse
    unfold deliverContent at hmem
    split at hmem
    · split at hmem
      · rcases List.mem_cons.mp hmem with rfl | hmem
        · cases hresponse
        · split at hmem
          · rw [List.mem_singleton] at hmem
            subst hmem
            exact (Option.some.inj hresponse).symm
          · cases hmem
      · rw [List.mem_singleton] at hmem
        subst hmem
        exact (Option.some.inj hresponse).symm
    · rw [List.mem_singleton] at hmem
      subst hmem
      exact (Option.some.inj hresponse).symm
  unfold deliver at hmem
  split at hmem
  · exact hcontent delivery hmem response' hresponse
  · rcases List.mem_cons.mp hmem with rfl | hmem
    · exact (Option.some.inj hresponse).symm
    · split at hmem
      · exact hcontent delivery hmem response' hresponse
      · rw [List.mem_singleton] at hmem
        subst hmem
        exact (Option.some.inj hresponse).symm
      · cases hmem

/-- What reaches anyone of an outcome: a refusal only the caller, a response itself. -/
structure Delivers (outcome : Except Response Response) (deliveries : List Delivery) : Prop where
  refusal : ∀ response, outcome = .error response → deliveries = [.caller response]
  response : ∀ response, outcome = .ok response → ∀ delivery ∈ deliveries, ∀ response',
    delivery.response? = some response' → response' = response

theorem delivers_returned (outcome : Except Response Response) :
    Delivers outcome (returned outcome) := by
  constructor
  · rintro response rfl
    rfl
  · rintro response rfl delivery hmem response' hresponse
    rw [returned, List.mem_singleton] at hmem
    subst hmem
    exact (Option.some.inj hresponse).symm

theorem delivers_get (request : Request) (transfer : Transfer)
    (outcome : Except Response Response) :
    Delivers outcome (match outcome with
      | .error response => [.caller response]
      | .ok response => deliver request transfer response) := by
  constructor
  · rintro response rfl
    rfl
  · rintro response rfl delivery hmem response' hresponse
    exact response_of_deliver hmem hresponse

theorem respond_performed (core : HeaderCore) (request : Request) (transfer : Transfer)
    (client : CurlClient) : ∃ outcome,
      Performed core.toHTTPCore request transfer (requiresIdentity request) outcome ∧
        Delivers outcome (respond core.toHTTPCore request transfer client).2 := by
  have hnegotiated : request.method ≠ .head →
      Performed core.toHTTPCore request transfer (requiresIdentity request)
        (perform core.toHTTPCore (negotiated core.toHTTPCore request) request transfer
          client).2 := by
    intro hmethod
    have hrange : requiresIdentity request =
        requestIsRangeRequest request.headers request.extraHeaders := by
      simp [requiresIdentity, hmethod]
    rw [hrange]
    exact performed _ request transfer client (negotiated_requestInfo core request)
  unfold respond
  cases hmethod : request.method with
  | get => exact ⟨_, hnegotiated (by simp [hmethod]), delivers_get request transfer _⟩
  | put => exact ⟨_, hnegotiated (by simp [hmethod]), delivers_returned _⟩
  | delete => exact ⟨_, hnegotiated (by simp [hmethod]), delivers_returned _⟩
  | post => exact ⟨_, hnegotiated (by simp [hmethod]), delivers_returned _⟩
  | head =>
      have hidentity : requiresIdentity request = true := by simp [requiresIdentity, hmethod]
      rw [hidentity]
      exact ⟨_, performed _ request transfer client fun _ => rfl, delivers_returned _⟩

/-- Encoded bytes never reach a byte-exact reader: a request that is `exact` delivers no
response in a foreign encoding but an error, and any other one whose body was decoded
delivers headers that fit the body. The first encoding of the final response is to tell. -/
structure Exchange.Exact (exact : Request → Prop) (exchange : Exchange) : Prop where
  delivered : exact exchange.request → ∀ delivery ∈ exchange.deliveries, ∀ response,
    delivery.response? = some response → ¬ Foreign response.headers
  rejected : exact exchange.request → ∀ before final,
    exchange.transfer.blocks = before ++ [final] → FirstTells final →
      ∀ field ∈ final.fields, lower field.1 = lower contentEncoding →
        lower field.2 ≠ identity → ∃ response, exchange.deliveries = [.caller response] ∧
          response.requestError.isSome = true
  decoded : ¬ exact exchange.request → exchange.transfer.decoded = true →
    (∀ before final, exchange.transfer.blocks = before ++ [final] → FirstTells final) →
      ∀ delivery ∈ exchange.deliveries, ∀ response, delivery.response? = some response →
        headerValue response.headers contentEncoding = none ∧
          headerValue response.headers (bytes "Content-Length") =
            some (decimal response.body.length)

theorem transform_not_foreign {request : Request} {transfer : Transfer}
    (hnone :
      rejectIfContentEncodingViolation (finished core.toHTTPCore request transfer true) = none) :
    ¬ Foreign (transformResponseCurl core.toHTTPCore transfer
      (finished core.toHTTPCore request transfer true)).headers := by
  unfold transformResponseCurl
  split
  · exact not_foreign_empty
  · simp only
    split
    · exact not_foreign_empty
    · rename_i headers hheaders
      have hown : ¬ Foreign headers := by
        intro hforeign
        obtain ⟨response, hsome⟩ :=
          reject_isSome (finished core.toHTTPCore request transfer true) rfl hheaders hforeign
        rw [hnone] at hsome
        cases hsome
      rw [bodyWasDecoded_of_not_foreign hown]
      rintro ⟨value, hvalue, hother⟩
      rw [forwarded_encoding] at hvalue
      exact hown ⟨value, hvalue, hother⟩

theorem transform_decoded {request : Request} {transfer : Transfer} {sentIdentityOnly : Bool}
    (hdecoded : transfer.decoded = true)
    (htells : ∀ before final, transfer.blocks = before ++ [final] → FirstTells final)
    (response : Response) (hresponse : response = transformResponseCurl core.toHTTPCore transfer
      (finished core.toHTTPCore request transfer sentIdentityOnly)) :
    headerValue response.headers contentEncoding = none ∧
      headerValue response.headers (bytes "Content-Length") =
        some (decimal response.body.length) := by
  obtain ⟨before, final, hblocks, field, hfield, hname, hne, hforeign⟩ := transfer.named hdecoded
  have hlast : (finished core.toHTTPCore request transfer
      sentIdentityOnly).headerCollection.getLast? = some (final.collected core.toHTTPCore) :=
    getLast?_headerCollection hblocks
  have hbody := bodyWasDecoded_of_field core (htells before final hblocks) hfield hname
    hne hforeign
  unfold transformResponseCurl at hresponse
  rw [if_neg (not_not_intro (transfer.completed hdecoded)), hlast] at hresponse
  simp only [hbody] at hresponse
  rw [hresponse]
  exact forwarded_decoded (final.collected core.toHTTPCore) transfer.body.length

theorem respond_exact (core : HeaderCore) (request : Request) (transfer : Transfer)
    (client : CurlClient) :
    Exchange.Exact (fun request => requiresIdentity request = true)
      { request, transfer,
        deliveries := (respond core.toHTTPCore request transfer client).2 } := by
  obtain ⟨outcome, hperformed, hdelivers⟩ := respond_performed core request transfer client
  generalize (respond core.toHTTPCore request transfer client).2 = deliveries at hdelivers ⊢
  constructor
  · intro hexact delivery hmem response hresponse
    rw [show requiresIdentity request = true from hexact] at hperformed
    cases hperformed with
    | refused refusal hrefusal _ =>
        rw [hdelivers.refusal refusal rfl, List.mem_singleton] at hmem
        subst hmem
        cases hresponse
        rw [hrefusal.headers]
        exact not_foreign_empty
    | answered hnone =>
        rw [hdelivers.response _ rfl delivery hmem response hresponse]
        exact transform_not_foreign hnone
  · intro hexact before final hblocks htells field hfield hname hforeign
    rw [show requiresIdentity request = true from hexact] at hperformed
    cases hperformed with
    | refused refusal hrefusal _ => exact ⟨refusal, hdelivers.refusal refusal rfl, hrefusal.error⟩
    | answered hnone =>
        obtain ⟨response, hsome⟩ :=
          reject_isSome (finished core.toHTTPCore request transfer true) rfl
            (getLast?_headerCollection hblocks) (foreign_of_field htells hfield hname hforeign)
        rw [hnone] at hsome
        cases hsome
  · intro hexact hdecoded htells delivery hmem response hresponse
    rw [show requiresIdentity request = false from Bool.eq_false_iff.mpr hexact] at hperformed
    cases hperformed with
    | refused refusal _ hrejected =>
        have hsent := (reject_eq_some (hrejected (transfer.completed hdecoded))).2.1
        cases hsent
    | answered _ =>
        exact transform_decoded hdecoded htells response
          (hdelivers.response _ rfl delivery hmem response hresponse)

/-- Over any use of one client: what holds of an exchange does not depend on those
before it. -/
theorem exchanges_exact (core : HeaderCore) (client : CurlClient) (uses : List Use) :
    ∀ exchange ∈ serve core.toHTTPCore client uses,
      exchange.Exact fun request => requiresIdentity request = true := by
  induction uses generalizing client with
  | nil => exact fun _ hexchange => absurd hexchange List.not_mem_nil
  | cons use uses ih =>
      cases use with
      | request request transfer =>
          intro exchange hexchange
          rcases List.mem_cons.mp hexchange with rfl | hexchange
          · exact respond_exact core request transfer client
          · exact ih _ exchange hexchange
      | reused => exact ih _
      | cleanup => exact ih _

/-- A range goes with a `GET`. -/
def IsByteExactRead (request : Request) : Prop :=
  request.method = .head ∨
    request.method = .get ∧ requestIsRangeRequest request.headers request.extraHeaders = true

/-- A `DELETE` under a secret that adds a range to every request, and a compressed
answer to it. -/
def rangeDelete : Request :=
  { method := .delete, extraHeaders := [(bytes "Range", bytes "bytes=0-")] }

def gzipBlock : Block where
  statusLine := bytes "HTTP/2 200 \r\n"
  fieldLines := [bytes "Content-Encoding: gzip\r\n", bytes "Content-Length: 29\r\n",
    bytes "\r\n"]
  opens := by decide
  tokens := by decide

def gzipTransfer : Transfer where
  result := .ok
  responseCode := 200
  blocks := [gzipBlock]
  body := bytes "deleted"
  decoded := true
  valued := by decide
  completed _ := rfl
  named _ := ⟨[], gzipBlock, rfl, (bytes "Content-Encoding", bytes "gzip"), by decide, by decide,
    by decide, by decide⟩

theorem firstTells_gzipBlock : FirstTells gzipBlock := by
  intro value hvalue
  have hgzip : firstValue gzipBlock.fields contentEncoding = some (bytes "gzip") := by decide
  rw [hgzip] at hvalue
  cases hvalue
  intro field hfield hname
  exact ⟨fun hidentity => absurd hidentity (by decide), fun hempty => absurd hempty (by decide)⟩

theorem exchanges_exact_ranged_delete :
    ∃ exchange ∈ serve plainHeaderCore.toHTTPCore {} [.request rangeDelete gzipTransfer],
      exchange.Exact fun request => requiresIdentity request = true :=
  ⟨_, List.mem_cons_self, exchanges_exact plainHeaderCore {} [.request rangeDelete gzipTransfer] _
    List.mem_cons_self⟩

theorem ranged_delete_refused :
    ¬ ∀ client uses, ∀ exchange ∈ serve plainHeaderCore.toHTTPCore client uses,
      exchange.Exact IsByteExactRead := by
  intro hall
  have hexact := hall {} [.request rangeDelete gzipTransfer] _ List.mem_cons_self
  have hother : ¬ IsByteExactRead rangeDelete := by
    rintro (hmethod | ⟨hmethod, -⟩)
    · cases hmethod
    · cases hmethod
  have htells : ∀ before final, [gzipBlock] = before ++ [final] → FirstTells final := by
    intro before final hblocks
    have hlast := congrArg List.getLast? hblocks
    rw [List.getLast?_concat] at hlast
    cases hlast
    exact firstTells_gzipBlock
  have hlength := (hexact.decoded hother rfl htells _ List.mem_cons_self _ rfl).2
  exact absurd hlength (by decide)

end HaybarnHttpfs.CurlResponses
