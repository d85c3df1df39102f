import HaybarnHttpfs.Foundation.ByteStrings
import Mathlib.Data.List.Sort

/-!
Signature Version 4 of HTTP requests, with the signature in a header: the text that is
signed, and the check that a server makes of a request it receives.
-/

namespace HaybarnHttpfs.Foundation.SignatureV4

open HaybarnHttpfs.Foundation.ByteStrings

def newlineByte : UInt8 := 10
def blankByte : UInt8 := 32
def ampersandByte : UInt8 := 38
def commaByte : UInt8 := 44
def slashByte : UInt8 := 47
def colonByte : UInt8 := 58
def semicolonByte : UInt8 := 59
def equalsByte : UInt8 := 61

/-- SHA-256, its keyed form and hexadecimal digits. -/
structure Digests where
  hash : Bytes → Bytes
  mac : Bytes → Bytes → Bytes
  hex : Bytes → Bytes

structure Scope where
  date : Bytes
  region : Bytes
  service : Bytes
  deriving DecidableEq

def Scope.parts (scope : Scope) : List Bytes :=
  [scope.date, scope.region, scope.service, bytes "aws4_request"]

def Scope.text (scope : Scope) : Bytes := [slashByte].intercalate scope.parts

/-- A request as far as it is signed; `path` and `query` are in canonical form. -/
structure Signable where
  method : Bytes
  path : Bytes
  query : Bytes
  fields : List (Bytes × Bytes)
  payloadHash : Bytes
  deriving DecidableEq

def Signable.names (signable : Signable) : List Bytes := signable.fields.map Prod.fst

def Signable.signedHeaders (signable : Signable) : Bytes :=
  [semicolonByte].intercalate signable.names

def fieldLine (field : Bytes × Bytes) : Bytes :=
  field.1 ++ colonByte :: (field.2 ++ [newlineByte])

def Signable.canonical (signable : Signable) : Bytes :=
  signable.method ++ newlineByte :: (signable.path ++ newlineByte :: (signable.query ++
    newlineByte :: (signable.fields.flatMap fieldLine ++ newlineByte :: (signable.signedHeaders ++
      newlineByte :: signable.payloadHash))))

def stringToSign (digests : Digests) (datetime : Bytes) (scope : Scope) (signable : Signable) :
    Bytes :=
  bytes "AWS4-HMAC-SHA256\n" ++ datetime ++ newlineByte :: (scope.text ++
    newlineByte :: digests.hex (digests.hash signable.canonical))

def signingKey (digests : Digests) (secret : Bytes) (scope : Scope) : Bytes :=
  scope.parts.foldl digests.mac (bytes "AWS4" ++ secret)

def signature (digests : Digests) (secret datetime : Bytes) (scope : Scope)
    (signable : Signable) : Bytes :=
  digests.hex (digests.mac (signingKey digests secret scope)
    (stringToSign digests datetime scope signable))

/-- What the `Authorization` header says. -/
structure Credential where
  accessKey : Bytes
  scope : Scope
  signedHeaders : Bytes
  signature : Bytes
  deriving DecidableEq

def Credential.text (credential : Credential) : Bytes :=
  bytes "AWS4-HMAC-SHA256 Credential=" ++ credential.accessKey ++
    slashByte :: credential.scope.text ++
    bytes ", SignedHeaders=" ++ credential.signedHeaders ++ bytes ", Signature=" ++
    credential.signature

structure Request where
  method : Bytes
  path : Bytes
  query : Bytes
  headers : List (Bytes × Bytes)
  body : Bytes

/-- The values that a request has for a name, put together with commas. -/
def headerValue (headers : List (Bytes × Bytes)) (name : Bytes) : Option Bytes :=
  match headers.filter fun header => lower header.1 = name with
  | [] => none
  | found => some ([commaByte].intercalate (found.map Prod.snd))

/-- Blanks around a value and more than one blank in a row do not count. -/
def tidy (value : Bytes) : Bytes :=
  [blankByte].intercalate ((value.splitOn blankByte).filter (· ≠ []))

def parameterOf (text : Bytes) : Bytes × Bytes :=
  (text.takeWhile (· ≠ equalsByte), (text.dropWhile (· ≠ equalsByte)).drop 1)

def parameterText (parameter : Bytes × Bytes) : Bytes :=
  parameter.1 ++ equalsByte :: parameter.2

def parameterLE (a b : Bytes × Bytes) : Prop := a.1 < b.1 ∨ a.1 = b.1 ∧ a.2 ≤ b.2

instance : DecidableRel parameterLE := fun _ _ => inferInstanceAs (Decidable (_ ∨ _))

/-- The parameters in the order of their names, each with an equals sign. `recode` takes the
percent encoding of a text off and puts it on again. -/
def canonicalQuery (recode : Bytes → Bytes) (query : Bytes) : Bytes :=
  if query.isEmpty then []
  else
    let parameters := (query.splitOn ampersandByte).map fun text =>
      (parameterOf text).map recode recode
    [ampersandByte].intercalate ((parameters.insertionSort parameterLE).map parameterText)

def dropLeading (leading text : Bytes) : Option Bytes :=
  if startsWith text leading then some (text.drop leading.length) else none

def parseCredential (text : Bytes) : Option Credential :=
  match text.splitOn commaByte with
  | [first, second, third] => do
      let credential ← dropLeading (bytes "AWS4-HMAC-SHA256 Credential=") first
      let signedHeaders ← dropLeading (bytes " SignedHeaders=") second
      let signature ← dropLeading (bytes " Signature=") third
      match credential.splitOn slashByte with
      | [accessKey, date, region, service, terminator] =>
          if terminator = bytes "aws4_request" then
            some { accessKey, scope := { date, region, service }, signedHeaders, signature }
          else none
      | _ => none
  | _ => none

def contentHashName : Bytes := bytes "x-amz-content-sha256"
def dateName : Bytes := bytes "x-amz-date"

/-- The headers that have to be signed where a request has them. -/
def MustSign (name : Bytes) : Prop :=
  name ∈ [bytes "host", bytes "content-type", bytes "content-md5"] ∨
    startsWith name (bytes "x-amz-") = true

instance : DecidablePred MustSign := fun _ => inferInstanceAs (Decidable (_ ∨ _))

structure Server where
  digests : Digests
  recodePath : Bytes → Bytes
  recodeQuery : Bytes → Bytes
  secretOf : Bytes → Option Bytes

/-- What the request says, in the form in which it is signed. -/
def Server.received (server : Server) (request : Request) (names : List Bytes) : Signable where
  method := request.method
  path := server.recodePath request.path
  query := canonicalQuery server.recodeQuery request.query
  fields := names.map fun name => (name, tidy ((headerValue request.headers name).getD []))
  payloadHash := (headerValue request.headers contentHashName).getD []

def Server.accepts (server : Server) (request : Request) (credential : Credential)
    (secret : Bytes) : Prop :=
  let names := credential.signedHeaders.splitOn semicolonByte
  let datetime := (headerValue request.headers dateName).getD []
  names.Pairwise (· < ·) ∧ bytes "host" ∈ names ∧
    (∀ name ∈ names, (headerValue request.headers name).isSome) ∧
    (∀ header ∈ request.headers, MustSign (lower header.1) → lower header.1 ∈ names) ∧
    headerValue request.headers contentHashName =
      some (server.digests.hex (server.digests.hash request.body)) ∧
    startsWith datetime credential.scope.date = true ∧
    credential.signature = signature server.digests secret datetime credential.scope
      (server.received request names)

instance (server : Server) (request : Request) (credential : Credential) (secret : Bytes) :
    Decidable (server.accepts request credential secret) :=
  inferInstanceAs (Decidable (_ ∧ _))

/-- A request is accepted if the secret behind its access key makes the signature it has. -/
def Server.verify (server : Server) (request : Request) : Bool :=
  match (headerValue request.headers (bytes "authorization")).bind parseCredential with
  | none => false
  | some credential =>
      match server.secretOf credential.accessKey with
      | none => false
      | some secret => decide (server.accepts request credential secret)

variable {server : Server} {request : Request} {signable signable' : Signable}
  {credential : Credential} {scope : Scope} {accessKey secret datetime : Bytes}

theorem dropLeading_append (leading text : Bytes) :
    dropLeading leading (leading ++ text) = some text := by
  have hstarts : startsWith (leading ++ text) leading = true :=
    List.isPrefixOf_iff_prefix.mpr (List.prefix_append _ _)
  rw [dropLeading, if_pos hstarts, List.drop_left]

/-- The parts of a credential have none of the bytes that separate them. -/
structure Credential.Separable (credential : Credential) : Prop where
  keyed : ∀ part ∈ [credential.accessKey, credential.scope.date, credential.scope.region,
    credential.scope.service], slashByte ∉ part ∧ commaByte ∉ part
  signedHeaders : commaByte ∉ credential.signedHeaders
  signature : commaByte ∉ credential.signature

theorem notMem_intercalate {c d : UInt8} {parts : List Bytes} (hne : d ≠ c)
    (hparts : ∀ part ∈ parts, d ∉ part) : d ∉ [c].intercalate parts := by
  induction parts with
  | nil => simp
  | cons part parts ih =>
      rw [List.forall_mem_cons] at hparts
      cases parts with
      | nil => simpa using hparts.1
      | cons next parts =>
          rw [List.intercalate_cons_cons]
          simp only [List.mem_append, List.mem_singleton, not_or]
          exact ⟨⟨hparts.1, hne⟩, ih hparts.2⟩

theorem parseCredential_text (hseparable : credential.Separable) :
    parseCredential credential.text = some credential := by
  have hkeyed := hseparable.keyed
  simp only [List.forall_mem_cons] at hkeyed
  obtain ⟨hkey, hdate, hregion, hservice, -⟩ := hkeyed
  have hparts : [slashByte].intercalate (credential.accessKey :: credential.scope.parts) =
      credential.accessKey ++ slashByte :: credential.scope.text := by
    rw [Scope.text, Scope.parts, List.intercalate_cons_cons, List.append_assoc]
    rfl
  have htext : credential.text = [commaByte].intercalate
      [bytes "AWS4-HMAC-SHA256 Credential=" ++
          [slashByte].intercalate (credential.accessKey :: credential.scope.parts),
        bytes " SignedHeaders=" ++ credential.signedHeaders,
        bytes " Signature=" ++ credential.signature] := by
    rw [hparts, Credential.text, List.intercalate_cons_cons, List.intercalate_cons_cons,
      List.intercalate_singleton, show bytes ", SignedHeaders=" = commaByte ::
        bytes " SignedHeaders=" by
        decide, show bytes ", Signature=" = commaByte :: bytes " Signature=" by decide]
    simp only [List.append_assoc, List.cons_append, List.nil_append]
  have hfree : ∀ part ∈ credential.accessKey :: credential.scope.parts,
      slashByte ∉ part ∧ commaByte ∉ part := by
    simp only [Scope.parts, List.forall_mem_cons]
    exact ⟨hkey, hdate, hregion, hservice, by decide⟩
  rw [parseCredential, htext, List.splitOn_intercalate]
  · simp only [dropLeading_append, Option.bind_eq_bind, Option.bind_some]
    rw [List.splitOn_intercalate _ (fun part hpart => (hfree part hpart).1) (by simp)]
    rfl
  · simp only [List.forall_mem_cons, List.mem_append, not_or]
    refine ⟨⟨by decide, ?_⟩, ⟨by decide, hseparable.signedHeaders⟩,
      ⟨by decide, hseparable.signature⟩, by simp⟩
    exact notMem_intercalate (by decide) fun part hpart => (hfree part hpart).2
  · simp

/-- A request that carries what was signed, and with it the signature. -/
structure Carries (server : Server) (request : Request) (signable : Signable)
    (accessKey secret datetime : Bytes) (scope : Scope) : Prop where
  authorization : headerValue request.headers (bytes "authorization") = some
    (Credential.text
      { accessKey, scope
        signedHeaders := signable.signedHeaders
        signature := signature server.digests secret datetime scope signable })
  method : request.method = signable.method
  path : server.recodePath request.path = signable.path
  query : canonicalQuery server.recodeQuery request.query = signable.query
  fields : ∀ field ∈ signable.fields, ∃ value,
    headerValue request.headers field.1 = some value ∧ tidy value = field.2
  contentHash : headerValue request.headers contentHashName = some signable.payloadHash
  datetime : headerValue request.headers dateName = some datetime
  covered : ∀ header ∈ request.headers, MustSign (lower header.1) →
    lower header.1 ∈ signable.names

/-- The fields of a request that can be signed. -/
structure Signable.Ordered (signable : Signable) : Prop where
  ascending : signable.names.Pairwise (· < ·)
  host : bytes "host" ∈ signable.names
  free : ∀ name ∈ signable.names, semicolonByte ∉ name ∧ commaByte ∉ name

theorem splitOn_signedHeaders (hordered : signable.Ordered) :
    signable.signedHeaders.splitOn semicolonByte = signable.names :=
  List.splitOn_intercalate _ (fun name hname => (hordered.free name hname).1)
    (List.ne_nil_of_mem hordered.host)

theorem received_eq (hcarries : Carries server request signable accessKey secret datetime scope) :
    server.received request signable.names = signable := by
  have hfields : signable.names.map
      (fun name => (name, tidy ((headerValue request.headers name).getD []))) =
        signable.fields := by
    rw [Signable.names, List.map_map]
    refine (List.map_congr_left fun field hfield => ?_).trans (List.map_id _)
    obtain ⟨value, hvalue, htidy⟩ := hcarries.fields field hfield
    simp only [Function.comp_apply, hvalue, Option.getD_some, htidy, id_eq]
  rw [Server.received, hfields, hcarries.method, hcarries.path, hcarries.query,
    hcarries.contentHash, Option.getD_some]

theorem headerValue_append (headers : List (Bytes × Bytes)) {others : List (Bytes × Bytes)}
    {name : Bytes} (hothers : ∀ header ∈ others, lower header.1 ≠ name) :
    headerValue (headers ++ others) name = headerValue headers name := by
  have hnone : others.filter (fun header => lower header.1 = name) = [] := by
    rw [List.filter_eq_nil_iff]
    intro header hheader
    simpa using hothers header hheader
  rw [headerValue, headerValue, List.filter_append, hnone, List.append_nil]

theorem Carries.handedOn
    (hcarries : Carries server request signable accessKey secret datetime scope)
    (others : List (Bytes × Bytes)) (hothers : ∀ header ∈ others, ¬ MustSign (lower header.1) ∧
      lower header.1 ∉ bytes "authorization" :: contentHashName :: dateName :: signable.names) :
    Carries server { request with headers := request.headers ++ others } signable accessKey secret
      datetime scope := by
  have hkept : ∀ name ∈ bytes "authorization" :: contentHashName :: dateName :: signable.names,
      headerValue (request.headers ++ others) name = headerValue request.headers name := by
    intro name hname
    refine headerValue_append _ fun header hheader heq => ?_
    exact (hothers header hheader).2 (heq ▸ hname)
  constructor
  · exact (hkept _ (.head _)).trans hcarries.authorization
  · exact hcarries.method
  · exact hcarries.path
  · exact hcarries.query
  · intro field hfield
    obtain ⟨value, hvalue, htidy⟩ := hcarries.fields field hfield
    have hname : field.1 ∈ signable.names := List.mem_map_of_mem hfield
    exact ⟨value, (hkept _ (.tail _ (.tail _ (.tail _ hname)))).trans hvalue, htidy⟩
  · exact (hkept _ (.tail _ (.head _))).trans hcarries.contentHash
  · exact (hkept _ (.tail _ (.tail _ (.head _)))).trans hcarries.datetime
  · intro header hheader hmust
    obtain hheader | hheader := List.mem_append.mp hheader
    · exact hcarries.covered header hheader hmust
    · exact absurd hmust (hothers header hheader).1

theorem verify_of_carries
    (hcarries : Carries server request signable accessKey secret datetime scope)
    (hordered : signable.Ordered) (hsecret : server.secretOf accessKey = some secret)
    (hbody : signable.payloadHash = server.digests.hex (server.digests.hash request.body))
    (hdate : startsWith datetime scope.date = true)
    (hkeyed : ∀ part ∈ [accessKey, scope.date, scope.region, scope.service],
      slashByte ∉ part ∧ commaByte ∉ part)
    (hhex : ∀ text, commaByte ∉ server.digests.hex text) : server.verify request = true := by
  have hsignedHeaders : commaByte ∉ signable.signedHeaders :=
    notMem_intercalate (by decide) fun name hname => (hordered.free name hname).2
  have hseparable : Credential.Separable
      { accessKey, scope
        signedHeaders := signable.signedHeaders
        signature := signature server.digests secret datetime scope signable } :=
    ⟨hkeyed, hsignedHeaders, hhex _⟩
  rw [Server.verify, hcarries.authorization, Option.bind_some,
    parseCredential_text hseparable]
  simp only [hsecret]
  rw [decide_eq_true_eq, Server.accepts]
  simp only
  rw [splitOn_signedHeaders hordered, received_eq hcarries, hcarries.contentHash, ← hbody,
    hcarries.datetime, Option.getD_some]
  refine ⟨hordered.ascending, hordered.host, fun name hname => ?_, hcarries.covered,
    rfl, hdate, rfl⟩
  obtain ⟨field, hfield, rfl⟩ := List.mem_map.mp hname
  obtain ⟨value, hvalue, -⟩ := hcarries.fields field hfield
  rw [hvalue]
  rfl

theorem tidy_of_notMem {value : Bytes} (hblank : blankByte ∉ value) : tidy value = value := by
  rw [tidy, List.splitOn_eq_singleton hblank]
  cases value with
  | nil => rfl
  | cons c value => simp

theorem filter_eq_singleton {headers : List (Bytes × Bytes)} {header : Bytes × Bytes}
    (hdistinct : (headers.map fun header => lower header.1).Nodup) (hmem : header ∈ headers) :
    headers.filter (fun other => lower other.1 = lower header.1) = [header] := by
  induction headers with
  | nil => cases hmem
  | cons first headers ih =>
      rw [List.map_cons, List.nodup_cons] at hdistinct
      obtain rfl | hmem := List.mem_cons.mp hmem
      · rw [List.filter_cons_of_pos (by simp), List.filter_eq_nil_iff.mpr]
        intro other hother
        rw [decide_eq_true_eq]
        exact fun heq => hdistinct.1 (heq ▸ List.mem_map_of_mem hother)
      · have hne : lower first.1 ≠ lower header.1 := fun heq =>
          hdistinct.1 (heq ▸ List.mem_map_of_mem hmem)
        rw [List.filter_cons_of_neg (by simpa using hne), ih hdistinct.2 hmem]

theorem headerValue_of_perm {headers known others : List (Bytes × Bytes)} {header : Bytes × Bytes}
    (hperm : headers.Perm (known ++ others))
    (hdistinct : (known.map fun header => lower header.1).Nodup) (hmem : header ∈ known)
    (hothers : ∀ other ∈ others, lower other.1 ≠ lower header.1) :
    headerValue headers (lower header.1) = some header.2 := by
  have hfilter := hperm.filter fun other => decide (lower other.1 = lower header.1)
  have hnone : others.filter (fun other => decide (lower other.1 = lower header.1)) = [] :=
    List.filter_eq_nil_iff.mpr fun other hother => by simpa using hothers other hother
  rw [List.filter_append, filter_eq_singleton hdistinct hmem, hnone, List.append_nil,
    List.perm_singleton] at hfilter
  rw [headerValue, hfilter]
  simp

/-- Every line of the canonical form is one line. -/
structure Signable.Lines (signable : Signable) : Prop where
  method : newlineByte ∉ signable.method
  path : newlineByte ∉ signable.path
  query : newlineByte ∉ signable.query
  names : ∀ field ∈ signable.fields, newlineByte ∉ field.1 ∧ colonByte ∉ field.1
  values : ∀ field ∈ signable.fields, newlineByte ∉ field.2

theorem fieldLines_injective {fields fields' : List (Bytes × Bytes)} {rest rest' : Bytes}
    (hnames : ∀ field ∈ fields, newlineByte ∉ field.1 ∧ colonByte ∉ field.1)
    (hvalues : ∀ field ∈ fields, newlineByte ∉ field.2)
    (hnames' : ∀ field ∈ fields', newlineByte ∉ field.1 ∧ colonByte ∉ field.1)
    (hvalues' : ∀ field ∈ fields', newlineByte ∉ field.2)
    (hsame : fields.flatMap fieldLine ++ newlineByte :: rest =
      fields'.flatMap fieldLine ++ newlineByte :: rest') :
    fields = fields' ∧ rest = rest' := by
  -- a line of a field has a colon before its end, the empty line has none
  have hempty : ∀ (field : Bytes × Bytes) (more text : Bytes), newlineByte ∉ field.1 →
      newlineByte :: text ≠ fieldLine field ++ more := by
    intro field more text hname heq
    rw [fieldLine, List.append_assoc] at heq
    cases hfield : field.1 with
    | nil =>
        rw [hfield] at heq
        cases heq
    | cons c name =>
        rw [hfield] at heq hname
        exact hname ((List.cons.inj heq).1 ▸ List.mem_cons_self)
  induction fields generalizing fields' with
  | nil =>
      cases fields' with
      | nil => exact ⟨rfl, (List.cons.inj hsame).2⟩
      | cons field' fields' =>
          rw [List.forall_mem_cons] at hnames'
          rw [List.flatMap_nil, List.nil_append, List.flatMap_cons, List.append_assoc] at hsame
          exact absurd hsame (hempty field' _ _ hnames'.1.1)
  | cons field fields ih =>
      rw [List.forall_mem_cons] at hnames hvalues
      cases fields' with
      | nil =>
          rw [List.flatMap_nil, List.nil_append, List.flatMap_cons, List.append_assoc] at hsame
          exact absurd hsame.symm (hempty field _ _ hnames.1.1)
      | cons field' fields' =>
          rw [List.forall_mem_cons] at hnames' hvalues'
          simp only [List.flatMap_cons, fieldLine, List.append_assoc, List.cons_append,
            List.nil_append] at hsame
          obtain ⟨hname, hsame⟩ := append_cons_inj_first hnames.1.2 hnames'.1.2 hsame
          obtain ⟨hvalue, hsame⟩ := append_cons_inj_first hvalues.1 hvalues'.1 hsame
          obtain ⟨hfields, hrest⟩ := ih hnames.2 hvalues.2 hnames'.2 hvalues'.2 hsame
          exact ⟨congrArg₂ List.cons (Prod.ext hname hvalue) hfields, hrest⟩

theorem canonical_injective (hlines : signable.Lines) (hlines' : signable'.Lines)
    (hsame : signable.canonical = signable'.canonical) : signable = signable' := by
  obtain ⟨hmethod, hsame⟩ := append_cons_inj_first hlines.method hlines'.method hsame
  obtain ⟨hpath, hsame⟩ := append_cons_inj_first hlines.path hlines'.path hsame
  obtain ⟨hquery, hsame⟩ := append_cons_inj_first hlines.query hlines'.query hsame
  obtain ⟨hfields, hsame⟩ := fieldLines_injective hlines.names hlines.values hlines'.names
    hlines'.values hsame
  have hsigned : signable.signedHeaders = signable'.signedHeaders := by
    rw [Signable.signedHeaders, Signable.signedHeaders, Signable.names, Signable.names, hfields]
  rw [hsigned] at hsame
  have hpayload := (List.cons.inj (List.append_cancel_left hsame)).2
  cases signable
  cases signable'
  simp_all

/-- Parameters that are in canonical form already. -/
structure CanonicalParameters (recode : Bytes → Bytes) (parameters : List (Bytes × Bytes)) :
    Prop where
  ne_nil : parameters ≠ []
  ascending : parameters.Pairwise parameterLE
  recoded : ∀ parameter ∈ parameters,
    recode parameter.1 = parameter.1 ∧ recode parameter.2 = parameter.2
  free : ∀ parameter ∈ parameters, ampersandByte ∉ parameter.1 ∧ equalsByte ∉ parameter.1 ∧
    ampersandByte ∉ parameter.2

theorem parameterOf_text {parameter : Bytes × Bytes} (hfree : equalsByte ∉ parameter.1) :
    parameterOf (parameterText parameter) = parameter := by
  have hall : ∀ c ∈ parameter.1, decide (c ≠ equalsByte) = true := fun c hc => by
    rw [decide_eq_true_eq]
    exact fun heq => hfree (heq ▸ hc)
  rw [parameterOf, parameterText, List.takeWhile_append_of_pos hall,
    List.dropWhile_append_of_pos hall, List.takeWhile_cons_of_neg (by simp),
    List.dropWhile_cons_of_neg (by simp), List.append_nil]
  rfl

theorem canonicalQuery_parameters {recode : Bytes → Bytes} {parameters : List (Bytes × Bytes)}
    (hcanonical : CanonicalParameters recode parameters) :
    canonicalQuery recode ([ampersandByte].intercalate (parameters.map parameterText)) =
      [ampersandByte].intercalate (parameters.map parameterText) := by
  obtain ⟨hne, hascending, hrecoded, hfree⟩ := hcanonical
  have hsplit : ([ampersandByte].intercalate (parameters.map parameterText)).splitOn
      ampersandByte = parameters.map parameterText := by
    refine List.splitOn_intercalate _ (fun text htext => ?_) (by simpa using hne)
    obtain ⟨parameter, hparameter, rfl⟩ := List.mem_map.mp htext
    obtain ⟨hname, -, hvalue⟩ := hfree parameter hparameter
    simp only [parameterText, List.mem_append, List.mem_cons, not_or]
    exact ⟨hname, by decide, hvalue⟩
  have hread : (parameters.map parameterText).map (fun text =>
      (parameterOf text).map recode recode) = parameters := by
    rw [List.map_map]
    refine (List.map_congr_left fun parameter hparameter => ?_).trans (List.map_id _)
    obtain ⟨hname, hvalue⟩ := hrecoded parameter hparameter
    rw [Function.comp_apply, parameterOf_text (hfree parameter hparameter).2.1]
    exact Prod.ext hname hvalue
  rw [canonicalQuery]
  split
  · rename_i hempty
    exact (List.isEmpty_iff.mp hempty).symm
  · simp only [hsplit, hread, hascending.insertionSort_eq]

theorem mem_intercalate {c d : UInt8} {parts : List Bytes} {part : Bytes} (hpart : part ∈ parts)
    (hmem : d ∈ part) : d ∈ [c].intercalate parts := by
  induction parts with
  | nil => cases hpart
  | cons first parts ih =>
      cases parts with
      | nil =>
          obtain rfl := List.mem_singleton.mp hpart
          simpa using hmem
      | cons next parts =>
          rw [List.intercalate_cons_cons]
          obtain rfl | hpart := List.mem_cons.mp hpart
          · exact List.mem_append_left _ (List.mem_append_left _ hmem)
          · exact List.mem_append_right _ (ih hpart)

theorem notMem_of_mem_splitOn {c d : UInt8} {text part : Bytes} (htext : d ∉ text)
    (hpart : part ∈ text.splitOn c) : d ∉ part := by
  intro hmem
  have htexts := mem_intercalate (c := c) hpart hmem
  rw [List.intercalate_splitOn] at htexts
  exact htext htexts

theorem notMem_tidy {value : Bytes} (hvalue : newlineByte ∉ value) : newlineByte ∉ tidy value :=
  notMem_intercalate (by decide) fun _ hpart =>
    notMem_of_mem_splitOn hvalue (List.mem_of_mem_filter hpart)

/-- A request that came in as lines. -/
structure Request.Lines (request : Request) : Prop where
  method : newlineByte ∉ request.method
  values : ∀ header ∈ request.headers, newlineByte ∉ header.2

theorem Request.Lines.headerValue (hlines : request.Lines) (name : Bytes) :
    newlineByte ∉ (headerValue request.headers name).getD [] := by
  rw [SignatureV4.headerValue]
  split
  · simp
  · rw [Option.getD_some]
    refine notMem_intercalate (by decide) fun value hvalue => ?_
    obtain ⟨header, hheader, rfl⟩ := List.mem_map.mp hvalue
    exact hlines.values header (List.mem_of_mem_filter hheader)

theorem notMem_canonicalQuery {recode : Bytes → Bytes}
    (hrecode : ∀ text, newlineByte ∉ recode text)
    (query : Bytes) : newlineByte ∉ canonicalQuery recode query := by
  rw [canonicalQuery]
  split
  · simp
  · refine notMem_intercalate (by decide) fun text htext => ?_
    obtain ⟨parameter, hparameter, rfl⟩ := List.mem_map.mp htext
    obtain ⟨encoded, -, rfl⟩ := List.mem_map.mp ((List.mem_insertionSort _).mp hparameter)
    simp only [parameterText, Prod.map_fst, Prod.map_snd, List.mem_append, List.mem_cons, not_or]
    exact ⟨hrecode _, by decide, hrecode _⟩

/-- The server writes percent encodings, which have no newline. -/
structure Server.Lines (server : Server) : Prop where
  path : ∀ text, newlineByte ∉ server.recodePath text
  query : ∀ text, newlineByte ∉ server.recodeQuery text

theorem received_lines (hserver : server.Lines) (hrequest : request.Lines) {names : List Bytes}
    (hnames : ∀ name ∈ names, newlineByte ∉ name ∧ colonByte ∉ name) :
    (server.received request names).Lines := by
  constructor
  · exact hrequest.method
  · exact hserver.path _
  · exact notMem_canonicalQuery hserver.query _
  · intro field hfield
    obtain ⟨name, hname, rfl⟩ := List.mem_map.mp hfield
    exact hnames name hname
  · intro field hfield
    obtain ⟨name, hname, rfl⟩ := List.mem_map.mp hfield
    exact notMem_tidy (hrequest.headerValue name)

/-- The digests tell apart what was signed and what was received. -/
structure Apart (server : Server) (request : Request) (signable : Signable)
    (secret datetime : Bytes) (scope : Scope) : Prop where
  mac : ∀ received, received = stringToSign server.digests
      ((headerValue request.headers dateName).getD []) scope
      (server.received request signable.names) →
    server.digests.mac (signingKey server.digests secret scope) received =
      server.digests.mac (signingKey server.digests secret scope)
        (stringToSign server.digests datetime scope signable) →
    received = stringToSign server.digests datetime scope signable
  hash : server.digests.hash (server.received request signable.names).canonical =
      server.digests.hash signable.canonical →
    (server.received request signable.names).canonical = signable.canonical

theorem received_of_verify (hverify : server.verify request = true)
    (hauthorization : headerValue request.headers (bytes "authorization") = some
      (Credential.text
        { accessKey, scope
          signedHeaders := signable.signedHeaders
          signature := signature server.digests secret datetime scope signable }))
    (hsecret : server.secretOf accessKey = some secret) (hordered : signable.Ordered)
    (hlines : signable.Lines) (hdatetime : newlineByte ∉ datetime) (hserver : server.Lines)
    (hrequest : request.Lines)
    (hkeyed : ∀ part ∈ [accessKey, scope.date, scope.region, scope.service],
      slashByte ∉ part ∧ commaByte ∉ part)
    (hcomma : ∀ text, commaByte ∉ server.digests.hex text)
    (hhex : Function.Injective server.digests.hex)
    (hapart : Apart server request signable secret datetime scope) :
    server.received request signable.names = signable ∧
      signable.payloadHash = server.digests.hex (server.digests.hash request.body) := by
  have hsignedHeaders : commaByte ∉ signable.signedHeaders :=
    notMem_intercalate (by decide) fun name hname => (hordered.free name hname).2
  have hparsed : parseCredential (Credential.text
      { accessKey, scope
        signedHeaders := signable.signedHeaders
        signature := signature server.digests secret datetime scope signable }) = some _ :=
    parseCredential_text ⟨hkeyed, hsignedHeaders, hcomma _⟩
  rw [Server.verify, hauthorization, Option.bind_some, hparsed] at hverify
  simp only [hsecret] at hverify
  rw [decide_eq_true_eq, Server.accepts] at hverify
  simp only [splitOn_signedHeaders hordered] at hverify
  obtain ⟨-, -, -, -, hbody, -, hsignature⟩ := hverify
  have hstring := (hapart.mac _ rfl (hhex hsignature).symm).symm
  have hnames : ∀ name ∈ signable.names, newlineByte ∉ name ∧ colonByte ∉ name := by
    intro name hname
    obtain ⟨field, hfield, rfl⟩ := List.mem_map.mp hname
    exact hlines.names field hfield
  have hcanonical : server.digests.hex (server.digests.hash signable.canonical) =
      server.digests.hex
        (server.digests.hash (server.received request signable.names).canonical) := by
    simp only [stringToSign, List.append_assoc] at hstring
    obtain ⟨-, hrest⟩ := append_cons_inj_first hdatetime (hrequest.headerValue _)
      (List.append_cancel_left hstring)
    exact (List.cons.inj (List.append_cancel_left hrest)).2
  have hsame : server.received request signable.names = signable :=
    canonical_injective (received_lines hserver hrequest hnames) hlines
      (hapart.hash (hhex hcanonical).symm)
  refine ⟨hsame, ?_⟩
  have hpayload := congrArg Signable.payloadHash hsame
  rw [Server.received, hbody, Option.getD_some] at hpayload
  exact hpayload.symm

end HaybarnHttpfs.Foundation.SignatureV4
