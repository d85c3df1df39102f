import HaybarnHttpfs.Foundation.Sha256
import HaybarnHttpfs.RequestSigning

/-!
Every request that the S3 file system signs passes the check of a server that has the secret:
the headers that arrive are those that were signed, and so are the path, the query and the hash
of the body.
-/

namespace HaybarnHttpfs.RequestAcceptance

open HaybarnHttpfs.Foundation.ByteStrings HaybarnHttpfs.Foundation.SignatureV4
open HaybarnHttpfs.S3Auth HaybarnHttpfs.S3Url HaybarnHttpfs.RequestPath
open HaybarnHttpfs.CurlResponses (Method)
open HaybarnHttpfs.ReadAuthParams (isGCSRequest)
open HaybarnHttpfs.ListRequestLoop (ListCall reqParams encodedParams)
open HaybarnHttpfs.RequestSigning

variable {encoder : UrlEncoder} {signing : Signing} {hashing : Hashing}
  {headers signed rest fields : Headers} {name value path dateNow : Bytes}

/-- The headers that have a part in the signature. -/
def Concerned (name : Bytes) : Prop := name = bytes "authorization" ∨ MustSign name

instance : DecidablePred Concerned := fun _ => inferInstanceAs (Decidable (_ ∨ _))

def Harmless (headers : Headers) : Prop := ∀ header ∈ headers, ¬ Concerned (lower header.1)

instance : DecidablePred Harmless := fun headers =>
  inferInstanceAs (Decidable (∀ header ∈ headers, _))

def AllConcerned (headers : Headers) : Prop := ∀ header ∈ headers, Concerned (lower header.1)

/-- Harmless headers came behind those that were signed. -/
def Followed (signed headers : Headers) : Prop := ∃ rest, headers = signed ++ rest ∧ Harmless rest

theorem followed_self : Followed headers headers :=
  ⟨[], (List.append_nil _).symm, fun _ hmem => by cases hmem⟩

theorem followed_append (hfollowed : Followed signed headers) (hrest : Harmless rest) :
    Followed signed (headers ++ rest) := by
  obtain ⟨first, rfl, hfirst⟩ := hfollowed
  refine ⟨first ++ rest, List.append_assoc _ _ _, fun header hheader => ?_⟩
  obtain hheader | hheader := List.mem_append.mp hheader
  · exact hfirst header hheader
  · exact hrest header hheader

theorem any_append_of_concerned (hsigned : AllConcerned signed)
    (hname : ¬ Concerned (lower name)) :
    (signed ++ rest).any (fun header => lower header.1 = lower name) =
      rest.any fun header => lower header.1 = lower name := by
  have hnone : signed.any (fun header => lower header.1 = lower name) = false := by
    rw [List.any_eq_false]
    intro header hheader
    rw [decide_eq_true_eq]
    exact fun heq => hname (heq ▸ hsigned header hheader)
  rw [List.any_append, hnone, Bool.false_or]

theorem assign_followed (hsigned : AllConcerned signed) (hname : ¬ Concerned (lower name))
    (hfollowed : Followed signed headers) : Followed signed (assign headers name value) := by
  obtain ⟨rest, rfl, hrest⟩ := hfollowed
  rw [assign, any_append_of_concerned hsigned hname]
  split
  · refine ⟨rest.map
      fun header => if lower header.1 = lower name then (header.1, value) else header, ?_, ?_⟩
    · rw [List.map_append]
      congr 1
      refine (List.map_congr_left fun header hheader => ?_).trans (List.map_id _)
      have hne : lower header.1 ≠ lower name := fun heq => hname (heq ▸ hsigned header hheader)
      rw [if_neg hne]
      rfl
    · intro header hheader
      obtain ⟨old, hold, rfl⟩ := List.mem_map.mp hheader
      split
      · exact hrest old hold
      · exact hrest old hold
  · refine followed_append ⟨rest, rfl, hrest⟩ fun header hheader => ?_
    obtain rfl := List.mem_singleton.mp hheader
    exact hname

theorem assignAll_followed (hsigned : AllConcerned signed) (hfields : Harmless fields)
    (hfollowed : Followed signed headers) : Followed signed (assignAll headers fields) := by
  induction fields generalizing headers with
  | nil => exact hfollowed
  | cons field fields ih =>
      exact ih (fun header hheader => hfields header (.tail _ hheader))
        (assign_followed hsigned (hfields field (.head _)) hfollowed)

theorem insert_followed (hname : ¬ Concerned (lower name)) (hfollowed : Followed signed headers) :
    Followed signed (RequestSigning.insert headers name value) := by
  rw [RequestSigning.insert]
  split
  · exact hfollowed
  · refine followed_append hfollowed fun header hheader => ?_
    obtain rfl := List.mem_singleton.mp hheader
    exact hname

theorem addUserAgent_followed (userAgent : Bytes) (hfollowed : Followed signed headers) :
    Followed signed (addUserAgentIfAvailable userAgent headers) := by
  rw [addUserAgentIfAvailable]
  split
  · exact hfollowed
  · exact insert_followed (by decide) hfollowed

theorem transform_followed {extraHeaders : Headers} {preMergedHeaders : Bool}
    (hsigned : AllConcerned signed) (hextra : Harmless extraHeaders)
    (hfollowed : Followed signed headers) :
    Followed signed (transformHeadersCurl headers extraHeaders preMergedHeaders) := by
  have hmerged : Followed signed
      (headers ++ if preMergedHeaders then [] else extraHeaders) := by
    refine followed_append hfollowed ?_
    split
    · exact fun _ hmem => by cases hmem
    · exact hextra
  obtain ⟨rest, hrest, hharmless⟩ := hmerged
  rw [transformHeadersCurl, hrest, List.filter_append, List.filter_eq_self.mpr]
  · exact ⟨_, rfl, fun header hheader => hharmless header (List.mem_of_mem_filter hheader)⟩
  · intro header hheader
    rw [decide_eq_true_eq]
    intro heq
    have hconcerned := hsigned header hheader
    rw [heq] at hconcerned
    exact absurd hconcerned (by decide)

/-- The headers that arrive and have a part in the signature. -/
def carried (hashing : Hashing) (encoder : UrlEncoder) (path dateNow : Bytes)
    (signing : Signing) :
    Headers :=
  (bytes "Host", signing.host) :: headerFields hashing encoder path dateNow signing ++
    if signing.contentType = octetStream then [(bytes "Content-Type", octetStream)] else []

/-- Their names; content types of the client come last. -/
def carriedNames (noToken kms pays noMd5 noType octet : Bool) : List Bytes :=
  [bytes "host", bytes "x-amz-date", bytes "x-amz-content-sha256"] ++
  (if noToken then [] else [bytes "x-amz-security-token"]) ++
  (if kms then
      [bytes "x-amz-server-side-encryption", bytes "x-amz-server-side-encryption-aws-kms-key-id"]
    else []) ++
  (if pays then [bytes "x-amz-request-payer"] else []) ++
  (if noMd5 then [] else [bytes "content-md5"]) ++
  (if noType || octet then [] else [bytes "content-type"]) ++ [bytes "authorization"] ++
  (if octet then [bytes "content-type"] else [])

theorem carried_names (hashing : Hashing) (encoder : UrlEncoder) (path dateNow : Bytes)
    (signing : Signing) : (carried hashing encoder path dateNow signing).map
      (fun header => lower header.1) =
    carriedNames signing.authParams.sessionToken.isEmpty signing.useSseKms
      signing.authParams.requesterPays signing.contentMd5.isEmpty signing.contentType.isEmpty
      (decide (signing.contentType = octetStream)) := by
  have hlower : ∀ name ∈ [bytes "x-amz-date", bytes "x-amz-content-sha256",
      bytes "x-amz-security-token", bytes "x-amz-server-side-encryption",
      bytes "x-amz-server-side-encryption-aws-kms-key-id", bytes "x-amz-request-payer",
      bytes "content-md5", bytes "content-type"], lower name = name := by decide +kernel
  simp only [List.forall_mem_cons] at hlower
  obtain ⟨hdate, hhash, htoken, hsse, hkey, hpayer, hmd5, htype, -⟩ := hlower
  have hhost : lower (bytes "Host") = bytes "host" := by decide
  have hauthorization : lower (bytes "Authorization") = bytes "authorization" := by decide
  have hclient : lower (bytes "Content-Type") = bytes "content-type" := by decide
  simp only [carried, headerFields, carriedNames, List.map_append, List.map_cons, List.map_nil,
    List.cons_append, apply_ite (List.map _), hdate, hhash, htoken, hsse, hkey, hpayer,
    hmd5, htype, hhost, hauthorization, hclient, decide_eq_true_eq, Bool.or_eq_true,
    List.append_assoc, List.nil_append]

/-- With the content type in its place, before the signature or after it. -/
def allCarriedNames (octet : Bool) : List Bytes :=
  [bytes "host", bytes "x-amz-date", bytes "x-amz-content-sha256"] ++
  [bytes "x-amz-security-token"] ++
  [bytes "x-amz-server-side-encryption", bytes "x-amz-server-side-encryption-aws-kms-key-id"] ++
  [bytes "x-amz-request-payer"] ++ [bytes "content-md5"] ++
  (if octet then [] else [bytes "content-type"]) ++ [bytes "authorization"] ++
  (if octet then [bytes "content-type"] else [])

theorem carriedNames_sublist (noToken kms pays noMd5 noType octet : Bool) :
    (carriedNames noToken kms pays noMd5 noType octet).Sublist (allCarriedNames octet) := by
  have htype : (if noType || octet then [] else [bytes "content-type"]).Sublist
      (if octet then [] else [bytes "content-type"]) := by
    cases octet
    · rw [Bool.or_false]
      exact sublist_of_if_not noType _
    · rw [Bool.or_true]
  exact ((((((List.Sublist.refl _).append (sublist_of_if_not noToken _)).append
    (sublist_of_if kms _)).append (sublist_of_if pays _)).append
    (sublist_of_if_not noMd5 _)).append htype).append (.refl _) |>.append (.refl _)

theorem carriedNames_nodup (noToken kms pays noMd5 noType octet : Bool) :
    (carriedNames noToken kms pays noMd5 noType octet).Nodup := by
  refine List.Nodup.sublist (carriedNames_sublist ..) ?_
  cases octet
  · decide +kernel
  · decide +kernel

theorem carriedNames_concerned (noToken kms pays noMd5 noType octet : Bool) :
    ∀ name ∈ carriedNames noToken kms pays noMd5 noType octet, Concerned name := by
  have hall : ∀ name ∈ allCarriedNames octet, Concerned name := by
    cases octet
    · decide +kernel
    · decide +kernel
  exact fun name hname => hall name ((carriedNames_sublist ..).subset hname)

theorem carriedNames_signed (noToken kms pays noMd5 noType octet : Bool)
    (htype : (noType && octet) = false) :
    ∀ name ∈ carriedNames noToken kms pays noMd5 noType octet, MustSign name →
      name ∈ fieldNames noMd5 noType pays noToken kms := by
  intro name hname hmust
  have hauthorization : name ≠ bytes "authorization" := by
    rintro rfl
    exact absurd hmust (by decide)
  have hsigned : octet = true → name = bytes "content-type" →
      name ∈ fieldNames noMd5 noType pays noToken kms := by
    rintro rfl rfl
    rw [Bool.and_true] at htype
    simp [fieldNames, htype]
  simp only [carriedNames, List.mem_append, List.mem_cons, List.not_mem_nil, or_false] at hname
  obtain (((((((rfl | rfl | rfl) | hname) | hname) | hname) | hname) | hname) | hname) | hname :=
    hname
  · simp [fieldNames]
  · simp [fieldNames]
  · simp [fieldNames]
  · simp [fieldNames, hname]
  · simp [fieldNames, hname]
  · simp [fieldNames, hname]
  · simp [fieldNames, hname]
  · cases noType
    · cases octet
      · simp_all [fieldNames]
      · cases hname
    · cases hname
  · exact absurd hname hauthorization
  · cases octet
    · cases hname
    · exact hsigned rfl (List.mem_singleton.mp hname)

theorem assignAll_fresh
    (hdistinct : ((headers ++ fields).map fun header => lower header.1).Nodup) :
    assignAll headers fields = headers ++ fields := by
  induction fields generalizing headers with
  | nil => exact (List.append_nil _).symm
  | cons field fields ih =>
      have hfresh : headers.any (fun header => lower header.1 = lower field.1) = false := by
        rw [List.any_eq_false]
        intro header hheader
        rw [decide_eq_true_eq]
        rw [List.map_append, List.map_cons] at hdistinct
        exact fun heq => (List.nodup_append.mp hdistinct).2.2 _ (List.mem_map_of_mem hheader) _
          (.head _) heq
      have hassign : assign headers field.1 field.2 = headers ++ [field] := by
        rw [assign, hfresh]
        rfl
      have hnext : assignAll (headers ++ [field]) fields = headers ++ [field] ++ fields := ih (by
        rwa [List.append_assoc, List.singleton_append])
      rw [assignAll, List.foldl_cons, hassign, ← assignAll, hnext, List.append_assoc,
        List.singleton_append]

theorem carried_nodup (hashing : Hashing) (encoder : UrlEncoder) (path dateNow : Bytes)
    (signing : Signing) :
    ((carried hashing encoder path dateNow signing).map fun header => lower header.1).Nodup := by
  rw [carried_names]
  exact carriedNames_nodup _ _ _ _ _ _

theorem carried_concerned : AllConcerned (carried hashing encoder path dateNow signing) := by
  intro header hheader
  have hname := List.mem_map_of_mem (f := fun header => lower header.1) hheader
  rw [carried_names] at hname
  exact carriedNames_concerned _ _ _ _ _ _ _ hname

/-- What `CreateS3Header` makes with keys. -/
def signedMap (hashing : Hashing) (encoder : UrlEncoder) (path dateNow : Bytes)
    (signing : Signing) : Headers :=
  (bytes "Host", signing.host) :: headerFields hashing encoder path dateNow signing

theorem carried_eq (hashing : Hashing) (encoder : UrlEncoder) (path dateNow : Bytes)
    (signing : Signing) : carried hashing encoder path dateNow signing =
      signedMap hashing encoder path dateNow signing ++
        if signing.contentType = octetStream then [(bytes "Content-Type", octetStream)] else [] :=
  rfl

theorem signedMap_concerned : AllConcerned (signedMap hashing encoder path dateNow signing) := by
  intro header hheader
  have hcarried : header ∈ carried hashing encoder path dateNow signing :=
    List.mem_append_left _ hheader
  exact carried_concerned header hcarried

theorem createS3Header_eq (hashing : Hashing) (encoder : UrlEncoder) (path dateNow clock : Bytes)
    (hkeys : Signing.keyless signing = false)
    (hundated : signing.datetimeNow = []) :
    createS3Header hashing encoder clock path dateNow signing =
      signedMap hashing encoder path (clock.take 8) { signing with datetimeNow := clock } := by
  have hdistinct :=
    carried_nodup hashing encoder path (clock.take 8) { signing with datetimeNow := clock }
  rw [carried_eq, List.map_append] at hdistinct
  have hhost : assign [] (bytes "Host") signing.host = [(bytes "Host", signing.host)] := rfl
  rw [createS3Header, hkeys, hundated, hhost]
  exact assignAll_fresh (List.nodup_append.mp hdistinct).1

/-- The content type that a method goes with. -/
def Typed (method : Method) (contentType : Bytes) : Prop :=
  match method with
  | .get | .head | .delete => contentType = []
  | .put => contentType = octetStream
  | .post => contentType ≠ []

/-- The client adds a content type to a `POST` exactly if the map has none. -/
theorem any_contentType
    (hfollowed : Followed (signedMap hashing encoder path dateNow signing) headers)
    (htype : signing.contentType ≠ []) :
    headers.any (fun header => lower header.1 = bytes "content-type") =
      !decide (signing.contentType = octetStream) := by
  obtain ⟨rest, rfl, hrest⟩ := hfollowed
  have hnone : rest.any (fun header => lower header.1 = bytes "content-type") = false := by
    rw [List.any_eq_false]
    intro header hheader
    rw [decide_eq_true_eq]
    exact fun heq => hrest header hheader (heq ▸ by decide)
  rw [List.any_append, hnone, Bool.or_false]
  by_cases hoctet : signing.contentType = octetStream
  · have hdistinct := carried_nodup hashing encoder path dateNow signing
    rw [carried_eq, if_pos hoctet, List.map_append] at hdistinct
    rw [decide_eq_true hoctet, Bool.not_true, List.any_eq_false]
    intro header hheader
    rw [decide_eq_true_eq]
    exact (List.nodup_append.mp hdistinct).2.2 _ (List.mem_map_of_mem hheader) _ (.head _)
  · rw [decide_eq_false hoctet, Bool.not_false, List.any_eq_true]
    have hlower : lower (bytes "content-type") = bytes "content-type" := by decide
    refine ⟨(bytes "content-type", signing.contentType), ?_, decide_eq_true hlower⟩
    simp [signedMap, headerFields, htype, hoctet]

theorem curlHeaders_perm {method : Method} (userAgent : Bytes) {extraHeaders : Headers}
    (preMergedHeaders : Bool)
    (hfollowed : Followed (signedMap hashing encoder path dateNow signing) headers)
    (hextra : Harmless extraHeaders) (htyped : Typed method signing.contentType) :
    ∃ others, Harmless others ∧
      (curlHeaders method octetStream userAgent headers extraHeaders preMergedHeaders).Perm
        (carried hashing encoder path dateNow signing ++ others) := by
  have hagent := addUserAgent_followed userAgent hfollowed
  have hlines : Followed _ (transformHeadersCurl _ extraHeaders preMergedHeaders) :=
    transform_followed signedMap_concerned hextra hagent
  obtain ⟨rest, hrest, hharmless⟩ := hlines
  refine ⟨rest, hharmless, ?_⟩
  have hplain : ∀ contentType, contentType = [] →
      (if contentType = octetStream then [(bytes "Content-Type", octetStream)] else []) = [] := by
    rintro _ rfl
    rfl
  have hlast : signing.contentType = octetStream →
      (signedMap hashing encoder path dateNow signing ++ rest ++
        [(bytes "Content-Type", octetStream)]).Perm
          (carried hashing encoder path dateNow signing ++ rest) := by
    intro hoctet
    rw [carried_eq, if_pos hoctet, List.append_assoc, List.append_assoc]
    exact List.perm_append_comm.append_left _
  unfold curlHeaders
  simp only [hrest]
  cases method with
  | get => rw [carried_eq, hplain _ htyped, List.append_nil]
  | head => rw [carried_eq, hplain _ htyped, List.append_nil]
  | delete => rw [carried_eq, hplain _ htyped, List.append_nil]
  | put => exact hlast htyped
  | post =>
      simp only [any_contentType hagent htyped]
      by_cases hoctet : signing.contentType = octetStream
      · rw [decide_eq_true hoctet]
        exact hlast hoctet
      · rw [decide_eq_false hoctet, carried_eq, if_neg hoctet, List.append_nil]
        exact .refl _

theorem fieldNames_lower (noMd5 noType pays noToken kms : Bool) :
    ∀ name ∈ fieldNames noMd5 noType pays noToken kms, lower name = name := by
  have hall : ∀ name ∈ allFieldNames, lower name = name := by decide +kernel
  exact fun name hname => hall name ((fieldNames_sublist ..).subset hname)

theorem signedFields_carried (hashing : Hashing) (encoder : UrlEncoder) (path dateNow : Bytes)
    {field : Bytes × Bytes} (hfield : field ∈ signedFields signing) :
    ∃ header ∈ carried hashing encoder path dateNow signing,
      lower header.1 = field.1 ∧ header.2 = field.2 := by
  have hname : field.1 ∈ (signedFields signing).map Prod.fst := List.mem_map_of_mem hfield
  rw [signedFields_names] at hname
  have hsame : field ∈ carried hashing encoder path dateNow signing →
      ∃ header ∈ carried hashing encoder path dateNow signing,
        lower header.1 = field.1 ∧ header.2 = field.2 :=
    fun hmem => ⟨field, hmem, fieldNames_lower _ _ _ _ _ _ hname, rfl⟩
  simp only [signedFields, List.mem_append, List.mem_cons, List.not_mem_nil, or_false] at hfield
  obtain ((((hfield | hfield) | (rfl | rfl | rfl)) | hfield) | hfield) | hfield := hfield
  · split at hfield
    · cases hfield
    · rename_i hmd5
      obtain rfl := List.mem_singleton.mp hfield
      exact hsame (by simp [carried, headerFields, hmd5])
  · split at hfield
    · cases hfield
    · rename_i htype
      obtain rfl := List.mem_singleton.mp hfield
      by_cases hoctet : signing.contentType = octetStream
      · exact ⟨(bytes "Content-Type", octetStream), by simp [carried, hoctet],
          show lower (bytes "Content-Type") = bytes "content-type" by decide, hoctet.symm⟩
      · exact hsame (by simp [carried, headerFields, htype, hoctet])
  · exact ⟨_, .head _, show lower (bytes "Host") = bytes "host" by decide, rfl⟩
  · exact hsame (by simp [carried, headerFields])
  · exact hsame (by simp [carried, headerFields])
  · split at hfield
    · rename_i hpays
      obtain rfl := List.mem_singleton.mp hfield
      exact hsame (by simp [carried, headerFields, hpays])
    · cases hfield
  · split at hfield
    · cases hfield
    · rename_i htoken
      obtain rfl := List.mem_singleton.mp hfield
      exact hsame (by simp [carried, headerFields, htoken])
  · split at hfield
    · rename_i hkms
      obtain rfl | hfield := List.mem_cons.mp hfield
      · exact hsame (by simp [carried, headerFields, hkms])
      · obtain rfl := List.mem_singleton.mp hfield
        exact hsame (by simp [carried, headerFields, hkms])
    · cases hfield

variable {sender : Sender} {url : Bytes} {params : S3AuthParams} {parsed : ParsedS3Url}
  {urlEncode : Bytes → Bool → Bytes}

/-- What is signed for a call, at the time at which it is. -/
def dated (sender : Sender) (params : S3AuthParams) (parsed : ParsedS3Url) (call : S3Call) :
    Signing :=
  { call.signing sender params parsed with datetimeNow := sender.clock }

theorem call_typed (call : S3Call) : Typed call.method
    (dated sender params parsed call).contentType := by
  cases call with
  | head => rfl
  | get versionId range => rfl
  | delete => rfl
  | putObject body => rfl
  | initiateUpload => exact List.cons_ne_nil _ _
  | uploadPart partNo uploadId body => rfl
  | completeUpload uploadId body => exact List.cons_ne_nil _ _
  | list call => rfl
  | deleteObjects body contentMd5 => exact List.cons_ne_nil _ _

/-- No request of the file system goes with a token instead of a signature. -/
def Signs (url : Bytes) (params : S3AuthParams) : Prop :=
  (params.secretAccessKey ≠ [] ∨ params.accessKeyId ≠ []) ∧
    (isGCSRequest url = false ∨ params.oauth2BearerToken = [])

instance (url : Bytes) (params : S3AuthParams) : Decidable (Signs url params) :=
  inferInstanceAs (Decidable (_ ∧ _))

theorem call_headers (sender : Sender) (parsed : ParsedS3Url) (hsigns : Signs url params)
    (call : S3Call) :
    call.headers sender url params parsed =
      signedMap sender.hashing sender.encoder (call.path parsed) (sender.clock.take 8)
        (dated sender params parsed call) := by
  obtain ⟨hkeys, hbearer⟩ := hsigns
  have hkeyless : Signing.keyless (call.signing sender params parsed) = false := by
    simpa [Signing.keyless, S3Call.signing, or_iff_not_imp_left] using hkeys
  have hsigned := createS3Header_eq sender.hashing sender.encoder (call.path parsed) []
    sender.clock hkeyless rfl
  have htoken : ¬ (isGCSRequest url && !params.oauth2BearerToken.isEmpty) = true := by
    obtain hgcs | htoken := hbearer
    · simp [hgcs]
    · simp [htoken]
  cases call with
  | list call => exact hsigned
  | deleteObjects body contentMd5 => exact hsigned
  | head => exact (if_neg htoken).trans hsigned
  | get versionId range => exact (if_neg htoken).trans hsigned
  | delete => exact (if_neg htoken).trans hsigned
  | putObject body => exact (if_neg htoken).trans hsigned
  | initiateUpload => exact (if_neg htoken).trans hsigned
  | uploadPart partNo uploadId body => exact (if_neg htoken).trans hsigned
  | completeUpload uploadId body => exact (if_neg htoken).trans hsigned

theorem addHandleHeaders_followed (userAgent : Bytes) {extraHeaders : Headers}
    (hsigned : AllConcerned signed) (hextra : Harmless extraHeaders)
    (hfollowed : Followed signed headers) :
    Followed signed (addHandleHeaders userAgent extraHeaders headers) :=
  assignAll_followed hsigned hextra (addUserAgent_followed userAgent hfollowed)

theorem handed_followed (hsigns : Signs url params) (hextra : Harmless sender.extraHeaders)
    (call : S3Call) :
    Followed (signedMap sender.hashing sender.encoder (call.path parsed) (sender.clock.take 8)
      (dated sender params parsed call)) (call.handed sender url params parsed).1 := by
  have hmerged : Followed (signedMap sender.hashing sender.encoder (call.path parsed)
      (sender.clock.take 8) (dated sender params parsed call))
        (addHandleHeaders sender.userAgent sender.extraHeaders
          (call.headers sender url params parsed)) := by
    rw [call_headers sender parsed hsigns call]
    exact addHandleHeaders_followed _ signedMap_concerned hextra followed_self
  cases call with
  | list listCall =>
      have hheaders := call_headers sender parsed hsigns (.list listCall)
      exact ⟨[], hheaders.trans (List.append_nil _).symm, fun _ hmem => by cases hmem⟩
  | get versionId range =>
      cases range with
      | none => exact hmerged
      | some range => exact insert_followed (by decide) hmerged
  | head => exact hmerged
  | delete => exact hmerged
  | putObject body => exact hmerged
  | initiateUpload => exact hmerged
  | uploadPart partNo uploadId body => exact hmerged
  | completeUpload uploadId body => exact hmerged
  | deleteObjects body contentMd5 => exact hmerged

theorem sent_headers (parsed : ParsedS3Url) (hsigns : Signs url params)
    (hextra : Harmless sender.extraHeaders) (hlibcurl : Harmless sender.libcurlHeaders)
    (call : S3Call) :
    ∃ others, Harmless others ∧ (call.sent sender url params parsed).headers.Perm
      (carried sender.hashing sender.encoder (call.path parsed) (sender.clock.take 8)
        (dated sender params parsed call) ++ others) := by
  obtain ⟨others, hothers, hperm⟩ := curlHeaders_perm sender.userAgent
    (call.handed sender url params parsed).2 (handed_followed hsigns hextra call) hextra
    (call_typed call)
  refine ⟨others ++ sender.libcurlHeaders, fun header hheader => ?_, ?_⟩
  · obtain hheader | hheader := List.mem_append.mp hheader
    · exact hothers header hheader
    · exact hlibcurl header hheader
  · rw [← List.append_assoc]
    exact hperm.append_right _

theorem hex256_letters (hash : Bytes) : ∀ c ∈ hex256 hash, c ∈ hexLetters := by
  have hall : ∀ n < 256, (hex256 [UInt8.ofNat n]).all hexLetters.contains = true := by
    decide +kernel
  intro c hc
  obtain ⟨d, -, hd⟩ := List.mem_flatMap.mp hc
  refine List.contains_iff_mem.mp (List.all_eq_true.mp (hall d.toNat d.toNat_lt) c ?_)
  rw [UInt8.ofNat_toNat, hex256, List.flatMap_cons, List.flatMap_nil, List.append_nil]
  exact hd

theorem notMem_hex256 {c : UInt8} (hc : c ∉ hexLetters) (hash : Bytes) : c ∉ hex256 hash :=
  fun hmem => hc (hex256_letters hash c hmem)

theorem payloadHash_eq (call : S3Call) :
    (dated sender params parsed call).effectivePayloadHash =
      hex256 (sender.hashing.sha256 call.body) := by
  have hpayload : (dated sender params parsed call).payloadHash =
      getPayloadHash sender.hashing call.body := rfl
  rw [Signing.effectivePayloadHash, hpayload, getPayloadHash]
  cases hbody : call.body with
  | nil => exact sender.hashing.sha256_nil.symm
  | cons c body =>
      have hne : hex256 (sender.hashing.sha256 (c :: body)) ≠ [] := by
        have hlength := sender.hashing.sha256_length (c :: body)
        have hpos : 0 < (sender.hashing.sha256 (c :: body)).length := by omega
        obtain ⟨first, hash, hhash⟩ := List.exists_cons_of_length_pos hpos
        rw [hhash, hex256, List.flatMap_cons]
        exact List.cons_ne_nil _ _
      have hsome : 0 < (c :: body).length := Nat.zero_lt_succ _
      rw [if_pos hsome, if_neg (by simpa using hne)]

theorem pathComponent_split {httpProto host rest : Bytes} (hfree : slash ∉ host) :
    pathComponent httpProto (httpProto ++ (host ++ slash :: rest)) = slash :: rest := by
  have hfound : findFrom [slash] (httpProto ++ (host ++ slash :: rest)) httpProto.length =
      some (host.length + httpProto.length) := by
    rw [findFrom, List.drop_left, find_singleton hfree, Option.map_some]
  rw [RequestPath.pathComponent, hfound]
  simp only
  rw [Nat.add_comm, ← List.drop_drop, List.drop_left, List.drop_left]

theorem target_parts {urlPath urlQuery : Bytes} (hslash : urlPath.head? = some slash)
    (hdouble : ¬ (2 < (urlPath ++ queryPart urlQuery).length ∧
      startsWith (urlPath ++ queryPart urlQuery) (bytes "//") = true))
    (hfree : questionMark ∉ urlPath) :
    (normalizePathToBeAdded (urlPath ++ queryPart urlQuery)).takeWhile
        (· ≠ questionMark) = urlPath ∧
      ((normalizePathToBeAdded (urlPath ++ queryPart urlQuery)).dropWhile
        (· ≠ questionMark)).drop 1 = urlQuery := by
  have hhead : (urlPath ++ queryPart urlQuery).head? = some slash := by
    cases urlPath with
    | nil => cases hslash
    | cons c urlPath => exact hslash
  rw [normalize_unchanged hdouble hhead]
  have hall : ∀ c ∈ urlPath, decide (c ≠ questionMark) = true := fun c hc => by
    rw [decide_eq_true_eq]
    exact fun heq => hfree (heq ▸ hc)
  rw [List.takeWhile_append_of_pos hall, List.dropWhile_append_of_pos hall]
  obtain ⟨hquery, hpart⟩ | ⟨-, hpart⟩ := queryPart_cases urlQuery
  · rw [hpart, hquery]
    exact ⟨List.append_nil _, rfl⟩
  · rw [hpart, List.takeWhile_cons_of_neg (by simp), List.dropWhile_cons_of_neg (by simp)]
    exact ⟨List.append_nil _, rfl⟩

theorem bucketPath_eq (hparse : s3UrlParse url params = .ok parsed) :
    (bucketPath parsed).head? = some slash ∧ getS3BucketPath parsed = bucketPath parsed := by
  obtain ⟨-, hpath⟩ := host_and_path hparse
  obtain ⟨rest, hrest⟩ := path_cons hparse
  have hbucket : bucketPath parsed = subPath params.endpoint ++
      (if params.urlStyle = bytes "path" then slash :: parsed.bucket else []) ++ [slash] := by
    have hsplit : parsed.path = (subPath params.endpoint ++
        (if params.urlStyle = bytes "path" then slash :: parsed.bucket else []) ++ [slash]) ++
          parsed.key := by
      rw [hpath, List.append_assoc _ [slash], List.singleton_append]
    rw [bucketPath, hsplit, List.length_append, Nat.add_sub_cancel, List.take_left]
  have hhead : (bucketPath parsed).head? = some slash := by
    have hlead : (bucketPath parsed ++ parsed.key).head? = some slash := by
      rw [hbucket, List.append_assoc _ [slash], List.singleton_append, ← hpath, hrest]
      rfl
    rw [hbucket] at hlead ⊢
    rwa [List.head?_append_of_ne_nil _ (by simp)] at hlead
  refine ⟨hhead, ?_⟩
  rw [getS3BucketPath, if_neg]
  intro hempty
  rw [List.isEmpty_iff.mp hempty] at hhead
  cases hhead

/-- The path is sent as it is signed: nothing of it is lost in normalization, and where it is
not encoded it does not need to be. -/
def KeepsPath (sender : Sender) (params : S3AuthParams) (parsed : ParsedS3Url) (call : S3Call) :
    Prop :=
  match call with
  | .list _ =>
      startsWith (bucketPath parsed) (bytes "//") = false ∧
        sender.encoder.encode (bucketPath parsed) = bucketPath parsed
  | .deleteObjects _ _ =>
      startsWith (sender.encoder.encode (bucketPath parsed)) (bytes "//") = false
  | _ => ¬ LosesSlash params parsed.key (call.query sender.urlEncode parsed.key)

theorem not_startsWith_append {text more : Bytes} (hhead : text.head? = some slash)
    (hmore : ∀ c ∈ more.head?, c ≠ slash) (hsingle : startsWith text (bytes "//") = false) :
    startsWith (text ++ more) (bytes "//") ≠ true := by
  intro hstarts
  obtain ⟨rest, hrest⟩ := List.isPrefixOf_iff_prefix.mp hstarts
  cases text with
  | nil => cases hhead
  | cons c text =>
      cases text with
      | nil =>
          have htail : slash :: rest = more := (List.cons.inj hrest).2
          exact hmore slash (by rw [← htail]; rfl) rfl
      | cons d text =>
          obtain ⟨hc, htail⟩ := List.cons.inj hrest
          obtain ⟨hd, -⟩ := List.cons.inj htail
          rw [← hc, ← hd] at hsingle
          cases hsingle

theorem encodedParams_ne_nil {fields : Headers} (hne : fields ≠ []) :
    encodedParams fields ≠ [] := by
  obtain ⟨field, fields, rfl⟩ := List.exists_cons_of_ne_nil hne
  have hlong : 2 ≤ ((field :: fields).flatMap fun param =>
      param.1 ++ bytes "=" ++ param.2 ++ bytes "&").length := by
    have hequals : (bytes "=").length = 1 := by decide
    have hampersand : (bytes "&").length = 1 := by decide
    rw [List.flatMap_cons, List.length_append, List.length_append, List.length_append,
      List.length_append, hequals, hampersand]
    omega
  intro hnil
  have hlength := congrArg List.length hnil
  rw [encodedParams, List.length_dropLast, List.length_nil] at hlength
  omega

theorem reqParams_ne_nil (urlEncode : Bytes → Bool → Bytes) (call : ListCall) (key : Bytes) :
    reqParams urlEncode call key ≠ [] :=
  List.append_ne_nil_of_right_ne_nil _ (List.cons_ne_nil _ _)

/-- The path of a listing begins with a slash, so it goes behind the host. -/
theorem list_url (hparse : s3UrlParse url params = .ok parsed) (call : ListCall) :
    S3Call.url encoder urlEncode parsed (.list call) =
      parsed.httpProto ++ (parsed.host ++ (bucketPath parsed ++ bytes "?" ++
        encodedParams (reqParams urlEncode call parsed.key))) := by
  obtain ⟨hhead, -⟩ := bucketPath_eq hparse
  obtain ⟨rest, hrest⟩ := List.head?_eq_some_iff.mp hhead
  obtain ⟨-, -, -, -, -, -, -, -, hproto, -, -⟩ := GlobUrls.s3UrlParse_ok hparse
  have hscheme : ∃ more, parsed.httpProto = 104 :: more := by
    rw [hproto]
    split
    · exact ⟨bytes "ttps://", by decide⟩
    · exact ⟨bytes "ttp://", by decide⟩
  obtain ⟨more, hmore⟩ := hscheme
  have hother : startsWith (slash :: rest ++ (bytes "?" ++
      encodedParams (reqParams urlEncode call parsed.key))) (parsed.httpProto ++ parsed.host) =
        false := by
    rw [hmore]
    rfl
  have hslash : startsWith (slash :: rest ++ (bytes "?" ++
      encodedParams (reqParams urlEncode call parsed.key))) [slash] = true := rfl
  simp only [S3Call.url, S3Call.query, hrest, List.append_assoc]
  rw [if_neg (by rw [hother]; exact Bool.false_ne_true), if_pos hslash]

theorem sent_target (hparse : s3UrlParse url params = .ok parsed) (call : S3Call)
    (hkeeps : KeepsPath sender params parsed call) :
    (call.sent sender url params parsed).path = sender.encoder.encode (call.path parsed) ∧
      (call.sent sender url params parsed).query = call.urlQuery sender.urlEncode parsed.key := by
  obtain ⟨hfree, -⟩ := host_and_path hparse
  obtain ⟨hhead, hbucket⟩ := bucketPath_eq hparse
  -- a request on an object: the path of the URL is the encoded path
  have hobject : ∀ httpQuery, ¬ LosesSlash params parsed.key httpQuery →
      let target := normalizePathToBeAdded
        (pathComponent parsed.httpProto (getHTTPUrl sender.encoder parsed httpQuery))
      target.takeWhile (· ≠ questionMark) = sender.encoder.encode parsed.path ∧
        (target.dropWhile (· ≠ questionMark)).drop 1 = httpQuery := by
    intro httpQuery hkept
    obtain ⟨rest, hrest⟩ := path_cons hparse
    have hdoubled :
        2 < (sender.encoder.encode (slash :: rest) ++ queryPart httpQuery).length ∧
          startsWith (sender.encoder.encode (slash :: rest) ++ queryPart httpQuery)
            (bytes "//") = true ↔
          ∃ rest', rest = slash :: rest' ∧ (rest' ≠ [] ∨ httpQuery ≠ []) :=
      doubled_iff rest httpQuery
    rw [← losesSlash_iff hparse hrest, ← hdoubled, ← hrest] at hkept
    simp only [pathComponent_eq hparse]
    refine target_parts ?_ hkept (questionMark_not_mem_encode _)
    rw [hrest, encode_slash_cons]
    rfl
  -- a request on the bucket
  have hwhole : ∀ urlPath urlQuery, urlPath.head? = some slash → urlQuery ≠ [] →
      startsWith urlPath (bytes "//") = false → questionMark ∉ urlPath →
      let target := normalizePathToBeAdded (pathComponent parsed.httpProto
        (parsed.httpProto ++ (parsed.host ++ (urlPath ++ bytes "?" ++ urlQuery))))
      target.takeWhile (· ≠ questionMark) = urlPath ∧
        (target.dropWhile (· ≠ questionMark)).drop 1 = urlQuery := by
    intro urlPath urlQuery hslash hquery hsingle hplain
    obtain ⟨rest, rfl⟩ := List.head?_eq_some_iff.mp hslash
    have hpart : queryPart urlQuery = bytes "?" ++ urlQuery := by
      rw [queryPart, if_neg (by simpa using hquery)]
    have htarget : slash :: rest ++ bytes "?" ++ urlQuery =
        slash :: rest ++ queryPart urlQuery := by
      rw [hpart, List.append_assoc]
    rw [htarget, List.cons_append, pathComponent_split hfree, ← List.cons_append]
    refine target_parts hslash (fun hdouble => ?_) hplain
    refine not_startsWith_append hslash (fun c hc => ?_) hsingle hdouble.2
    rw [hpart] at hc
    obtain rfl := Option.some.inj hc
    decide
  cases call with
  | list listCall =>
      obtain ⟨hsingle, hencoded⟩ := hkeeps
      have hplain : questionMark ∉ bucketPath parsed :=
        hencoded ▸ questionMark_not_mem_encode (bucketPath parsed)
      obtain ⟨hpath, hquery⟩ := hwhole _ _ hhead
        (encodedParams_ne_nil (reqParams_ne_nil sender.urlEncode listCall parsed.key))
        hsingle hplain
      rw [S3Call.sent]
      simp only [list_url hparse listCall]
      exact ⟨hpath.trans hencoded.symm, hquery⟩
  | deleteObjects body contentMd5 =>
      have hencoded : (sender.encoder.encode (bucketPath parsed)).head? = some slash := by
        obtain ⟨rest, hrest⟩ := List.head?_eq_some_iff.mp hhead
        rw [hrest, encode_slash_cons]
        rfl
      have hparts := hwhole _ (bytes "delete") hencoded (by decide) hkeeps
        (questionMark_not_mem_encode _)
      simp only [S3Call.sent, S3Call.url, S3Call.path, S3Call.urlQuery, hbucket,
        List.append_assoc] at hparts ⊢
      exact hparts
  | head => exact hobject _ hkeeps
  | get versionId range => exact hobject _ hkeeps
  | delete => exact hobject _ hkeeps
  | putObject body => exact hobject _ hkeeps
  | initiateUpload => exact hobject _ hkeeps
  | uploadPart partNo uploadId body => exact hobject _ hkeeps
  | completeUpload uploadId body => exact hobject _ hkeeps

/-- The bytes that no percent encoding changes. -/
def unreserved : Bytes :=
  bytes "ABCDEFGHIJKLMNOPQRSTUVWXYZabcdefghijklmnopqrstuvwxyz0123456789_.-~"

/-- The server, which takes an encoding off and puts its own on, ends up with what the client
wrote. -/
structure Agree (sender : Sender) (server : Server) : Prop where
  path : ∀ text, server.recodePath (sender.encoder.encode text) = sender.encoder.encode text
  query : ∀ text, server.recodeQuery (sender.urlEncode text true) = sender.urlEncode text true
  unreserved : ∀ text, (∀ c ∈ text, c ∈ unreserved) → sender.urlEncode text true = text
  slash : sender.urlEncode [slash] true = bytes "%2F"
  separators : ∀ text, ampersandByte ∉ sender.urlEncode text true ∧
    newlineByte ∉ sender.urlEncode text true

/-- The parameters of a query, as they are encoded. -/
def parameters (urlEncode : Bytes → Bool → Bytes) (key : Bytes) : S3Call → Headers
  | .head | .delete | .putObject _ => []
  | .get versionId _ =>
      if versionId.isEmpty then [] else [(bytes "versionId", urlEncode versionId true)]
  | .initiateUpload => [(bytes "uploads", [])]
  | .uploadPart partNo uploadId _ =>
      [(bytes "partNumber", decimal (partNo + 1)), (bytes "uploadId", urlEncode uploadId true)]
  | .completeUpload uploadId _ => [(bytes "uploadId", urlEncode uploadId true)]
  | .list call => reqParams urlEncode call key
  | .deleteObjects _ _ => [(bytes "delete", [])]

theorem encodedParams_eq (fields : Headers) :
    encodedParams fields = [ampersandByte].intercalate (fields.map parameterText) := by
  have hequals : bytes "=" = [equalsByte] := rfl
  have hampersand : bytes "&" = [ampersandByte] := rfl
  simp only [encodedParams, hequals, hampersand]
  induction fields with
  | nil => rfl
  | cons field fields ih =>
      cases fields with
      | nil =>
          rw [List.flatMap_cons, List.flatMap_nil, List.append_nil, List.dropLast_concat]
          simp [parameterText]
      | cons next fields =>
          rw [List.flatMap_cons, List.dropLast_append_of_ne_nil (by simp), ih]
          simp [parameterText, List.intercalate_cons_cons]

theorem query_eq (urlEncode : Bytes → Bool → Bytes) (key : Bytes) (call : S3Call) :
    call.query urlEncode key =
      [ampersandByte].intercalate ((parameters urlEncode key call).map parameterText) := by
  have hversion : bytes "versionId=" = bytes "versionId" ++ [equalsByte] := by decide
  have huploads : bytes "uploads=" = bytes "uploads" ++ [equalsByte] := by decide
  have hpart : bytes "partNumber=" = bytes "partNumber" ++ [equalsByte] := by decide
  have hupload : bytes "uploadId=" = bytes "uploadId" ++ [equalsByte] := by decide
  have hdelete : bytes "delete=" = bytes "delete" ++ [equalsByte] := by decide
  have hampersand : bytes "&" = [ampersandByte] := rfl
  cases call with
  | head => rfl
  | delete => rfl
  | putObject body => rfl
  | get versionId range =>
      simp only [S3Call.query, parameters]
      split
      · rfl
      · simp [parameterText, hversion]
  | initiateUpload => simp [S3Call.query, parameters, parameterText, huploads]
  | uploadPart partNo uploadId body =>
      simp [S3Call.query, parameters, parameterText, hpart, hupload, hampersand,
        List.intercalate_cons_cons]
  | completeUpload uploadId body => simp [S3Call.query, parameters, parameterText, hupload]
  | list call => exact encodedParams_eq _
  | deleteObjects body contentMd5 => simp [S3Call.query, parameters, parameterText, hdelete]

/-- The names of the parameters of a listing. -/
def listNames (noToken delimiter : Bool) (maxKeys : Option Nat) : List Bytes :=
  (if noToken then [] else [bytes "continuation-token"]) ++
  (if delimiter then [bytes "delimiter"] else []) ++ [bytes "encoding-type", bytes "list-type"] ++
  (maxKeys.toList.map fun _ => bytes "max-keys") ++ [bytes "prefix"]

theorem listNames_ascending (noToken delimiter : Bool) (maxKeys : Option Nat) :
    (listNames noToken delimiter maxKeys).Pairwise (· < ·) := by
  have hall : ([bytes "continuation-token"] ++ [bytes "delimiter"] ++
      [bytes "encoding-type", bytes "list-type"] ++ [bytes "max-keys"] ++
      [bytes "prefix"] : List Bytes).Pairwise (· < ·) := by
    decide +kernel
  have htoken : (if noToken then [] else [bytes "continuation-token"]).Sublist
      [bytes "continuation-token"] := by
    cases noToken
    · exact .refl _
    · exact List.nil_sublist _
  have hdelimiter : (if delimiter then [bytes "delimiter"] else []).Sublist
      [bytes "delimiter"] := by
    cases delimiter
    · exact List.nil_sublist _
    · exact .refl _
  have hkeys : (maxKeys.toList.map fun _ => bytes "max-keys").Sublist [bytes "max-keys"] := by
    cases maxKeys with
    | none => exact List.nil_sublist _
    | some maxKeys => exact .refl _
  exact hall.sublist
    ((((htoken.append hdelimiter).append (.refl _)).append hkeys).append (.refl _))

theorem reqParams_names (urlEncode : Bytes → Bool → Bytes) (call : ListCall) (key : Bytes) :
    (reqParams urlEncode call key).map Prod.fst =
      listNames call.continuationToken.isEmpty call.useDelimiter call.maxKeys := by
  simp only [reqParams, listNames, List.map_append, apply_ite (List.map Prod.fst), List.map_cons,
    List.map_nil, List.map_map]
  rfl

theorem parameters_ascending (urlEncode : Bytes → Bool → Bytes) (key : Bytes) (call : S3Call) :
    (parameters urlEncode key call).Pairwise parameterLE := by
  have hsorted : ((parameters urlEncode key call).map Prod.fst).Pairwise (· < ·) := by
    cases call with
    | head => exact .nil
    | delete => exact .nil
    | putObject body => exact .nil
    | get versionId range =>
        simp only [parameters]
        split
        · exact .nil
        · exact List.pairwise_singleton _ _
    | initiateUpload => exact List.pairwise_singleton _ _
    | uploadPart partNo uploadId body =>
        have hnames : ([bytes "partNumber", bytes "uploadId"] : List Bytes).Pairwise (· < ·) := by
          decide +kernel
        exact hnames
    | completeUpload uploadId body => exact List.pairwise_singleton _ _
    | list call => exact reqParams_names urlEncode call key ▸ listNames_ascending _ _ _
    | deleteObjects body contentMd5 => exact List.pairwise_singleton _ _
  exact (List.pairwise_map.mp hsorted).imp fun hlt => .inl hlt

/-- All names that parameters have. -/
def parameterNames : List Bytes :=
  [bytes "versionId", bytes "uploads", bytes "partNumber", bytes "uploadId", bytes "delete",
    bytes "continuation-token", bytes "delimiter", bytes "encoding-type", bytes "list-type",
    bytes "max-keys", bytes "prefix"]

theorem unreserved_of_all {text : Bytes} (hall : text.all unreserved.contains = true) :
    ∀ c ∈ text, c ∈ unreserved :=
  fun c hc => List.contains_iff_mem.mp (List.all_eq_true.mp hall c hc)

theorem parameterNames_unreserved : ∀ name ∈ parameterNames,
    equalsByte ∉ name ∧ ∀ c ∈ name, c ∈ unreserved := by
  have hall : ∀ name ∈ parameterNames,
      equalsByte ∉ name ∧ name.all unreserved.contains = true := by
    decide +kernel
  exact fun name hname => ⟨(hall name hname).1, unreserved_of_all (hall name hname).2⟩

theorem decimal_unreserved (n : Nat) : ∀ c ∈ decimal n, c ∈ unreserved := by
  have hdigits : ∀ c : UInt8, Foundation.Numerals.isDigit c = true → c ∈ unreserved := by
    have hall : ∀ n < 256, Foundation.Numerals.isDigit (UInt8.ofNat n) = true →
        UInt8.ofNat n ∈ unreserved := by decide +kernel
    intro c hc
    have hof := hall c.toNat c.toNat_lt
    rw [UInt8.ofNat_toNat] at hof
    exact hof hc
  intro c hc
  by_contra hreserved
  refine Foundation.Numerals.not_mem_decimal ?_ n hc
  rw [← Bool.not_eq_true]
  exact fun hdigit => hreserved (hdigits c hdigit)

variable {server : Server}

theorem parameters_encoded (hagree : Agree sender server) (key : Bytes) (call : S3Call) :
    ∀ parameter ∈ parameters sender.urlEncode key call, parameter.1 ∈ parameterNames ∧
      ∃ text, parameter.2 = sender.urlEncode text true := by
  have hplain : ∀ text, (∀ c ∈ text, c ∈ unreserved) →
      ∃ plain, text = sender.urlEncode plain true :=
    fun text htext => ⟨text, (hagree.unreserved text htext).symm⟩
  have hempty := hplain [] (fun _ hmem => by cases hmem)
  intro parameter hparameter
  cases call with
  | head => cases hparameter
  | delete => cases hparameter
  | putObject body => cases hparameter
  | get versionId range =>
      simp only [parameters] at hparameter
      split at hparameter
      · cases hparameter
      · obtain rfl := List.mem_singleton.mp hparameter
        exact ⟨show bytes "versionId" ∈ parameterNames by decide, _, rfl⟩
  | initiateUpload =>
      obtain rfl := List.mem_singleton.mp hparameter
      exact ⟨by decide, hempty⟩
  | uploadPart partNo uploadId body =>
      obtain rfl | hparameter := List.mem_cons.mp hparameter
      · exact ⟨show bytes "partNumber" ∈ parameterNames by decide,
          hplain _ (decimal_unreserved _)⟩
      · obtain rfl := List.mem_singleton.mp hparameter
        exact ⟨show bytes "uploadId" ∈ parameterNames by decide, _, rfl⟩
  | completeUpload uploadId body =>
      obtain rfl := List.mem_singleton.mp hparameter
      exact ⟨show bytes "uploadId" ∈ parameterNames by decide, _, rfl⟩
  | list call =>
      simp only [parameters, reqParams, List.mem_append, List.mem_cons, List.not_mem_nil,
        or_false, List.mem_map, Option.mem_toList] at hparameter
      obtain (((htoken | hdelimiter) | rfl | rfl) | ⟨maxKeys, -, rfl⟩) | rfl := hparameter
      · split at htoken
        · cases htoken
        · obtain rfl := List.mem_singleton.mp htoken
          exact ⟨show bytes "continuation-token" ∈ parameterNames by decide, _, rfl⟩
      · split at hdelimiter
        · obtain rfl := List.mem_singleton.mp hdelimiter
          exact ⟨by decide, _, hagree.slash.symm⟩
        · cases hdelimiter
      · exact ⟨by decide, hplain _ (unreserved_of_all (by decide +kernel))⟩
      · exact ⟨by decide, hplain _ (unreserved_of_all (by decide +kernel))⟩
      · exact ⟨show bytes "max-keys" ∈ parameterNames by decide, hplain _ (decimal_unreserved _)⟩
      · exact ⟨show bytes "prefix" ∈ parameterNames by decide, _, rfl⟩
  | deleteObjects body contentMd5 =>
      obtain rfl := List.mem_singleton.mp hparameter
      exact ⟨by decide, hempty⟩

theorem parameters_canonical (hagree : Agree sender server) (key : Bytes) (call : S3Call)
    (hne : parameters sender.urlEncode key call ≠ []) :
    CanonicalParameters server.recodeQuery (parameters sender.urlEncode key call) := by
  have hencoded := parameters_encoded hagree key call
  have hname : ∀ name ∈ parameterNames, sender.urlEncode name true = name := fun name hname =>
    hagree.unreserved name (parameterNames_unreserved name hname).2
  refine ⟨hne, parameters_ascending _ _ _, fun parameter hparameter => ?_,
    fun parameter hparameter => ?_⟩
  · obtain ⟨hknown, text, htext⟩ := hencoded parameter hparameter
    constructor
    · rw [← hname _ hknown]
      exact hagree.query _
    · rw [htext]
      exact hagree.query _
  · obtain ⟨hknown, text, htext⟩ := hencoded parameter hparameter
    refine ⟨?_, (parameterNames_unreserved _ hknown).1, ?_⟩
    · rw [← hname _ hknown]
      exact (hagree.separators _).1
    · rw [htext]
      exact (hagree.separators _).1

theorem canonicalQuery_eq (hagree : Agree sender server) (key : Bytes) (call : S3Call) :
    canonicalQuery server.recodeQuery (call.urlQuery sender.urlEncode key) =
      call.query sender.urlEncode key := by
  have hsame : canonicalQuery server.recodeQuery (call.query sender.urlEncode key) =
      call.query sender.urlEncode key := by
    rw [query_eq]
    by_cases hne : parameters sender.urlEncode key call = []
    · rw [hne]
      rfl
    · exact canonicalQuery_parameters (parameters_canonical hagree key call hne)
  cases call with
  | deleteObjects body contentMd5 =>
      -- the URL leaves out the equals sign of the empty value
      have hrecode : ∀ text, (∀ c ∈ text, c ∈ unreserved) → server.recodeQuery text = text :=
        fun text htext => by
          rw [← hagree.unreserved text htext]
          exact hagree.query text
      have hread : parameterOf (bytes "delete") = (bytes "delete", []) := by decide
      have hsplit : (bytes "delete").splitOn ampersandByte = [bytes "delete"] := by decide
      have hdelete := hrecode (bytes "delete") (unreserved_of_all (by decide +kernel))
      have hempty := hrecode [] (fun _ hmem => by cases hmem)
      have hquery : S3Call.query sender.urlEncode key (.deleteObjects body contentMd5) =
          bytes "delete=" := rfl
      rw [S3Call.urlQuery, canonicalQuery, if_neg (by decide), hsplit, List.map_singleton, hread,
        Prod.map, hdelete, hempty, hquery]
      decide
  | head => exact hsame
  | get versionId range => exact hsame
  | delete => exact hsame
  | putObject body => exact hsame
  | initiateUpload => exact hsame
  | uploadPart partNo uploadId body => exact hsame
  | completeUpload uploadId body => exact hsame
  | list call => exact hsame

/-- Settings that a header can carry and that a credential can be taken apart with. -/
structure Presentable (sender : Sender) (params : S3AuthParams) (parsed : ParsedS3Url)
    (call : S3Call) : Prop where
  values : ∀ value ∈ [call.contentMd5, parsed.host, sender.clock, params.sessionToken,
    params.kmsKeyId], tidy value = value
  scope : ∀ part ∈ [params.accessKeyId, sender.clock.take 8, params.region],
    slashByte ∉ part ∧ commaByte ∉ part

theorem signable_ordered (encoder : UrlEncoder) (path : Bytes) (signing : Signing) :
    (signable encoder path signing).Ordered := by
  have hnames : (signable encoder path signing).names = _ := signedFields_names
  refine ⟨?_, ?_, fun name hname => ?_⟩
  · rw [hnames]
    exact fieldNames_ascending _ _ _ _ _
  · rw [hnames]
    simp [fieldNames]
  · rw [hnames] at hname
    obtain ⟨hsemicolon, hcomma, -⟩ := fieldNames_free _ _ _ _ _ name hname
    exact ⟨hsemicolon, hcomma⟩

theorem signedFields_values {field : Bytes × Bytes} (hfield : field ∈ signedFields signing) :
    field.2 ∈ [signing.contentMd5, signing.contentType, signing.host,
      signing.effectivePayloadHash, signing.datetimeNow, bytes "requester",
      signing.authParams.sessionToken, bytes "aws:kms", signing.authParams.kmsKeyId] := by
  simp only [signedFields, List.mem_append, List.mem_cons, List.not_mem_nil, or_false,
    List.mem_ite_nil_left, List.mem_ite_nil_right] at hfield
  obtain ((((⟨-, rfl⟩ | ⟨-, rfl⟩) | (rfl | rfl | rfl)) | ⟨-, rfl⟩) | ⟨-, rfl⟩) | ⟨-, rfl | rfl⟩ :=
    hfield
  all_goals simp

theorem contentType_mem (call : S3Call) :
    call.contentType ∈ [[], octetStream, bytes "application/xml"] := by
  cases call with
  | head => exact .head _
  | get versionId range => exact .head _
  | delete => exact .head _
  | list call => exact .head _
  | putObject body => exact .tail _ (.head _)
  | initiateUpload => exact .tail _ (.head _)
  | uploadPart partNo uploadId body => exact .tail _ (.head _)
  | completeUpload uploadId body => exact .tail _ (.head _)
  | deleteObjects body contentMd5 => exact .tail _ (.tail _ (.head _))

theorem signedFields_tidy {call : S3Call} (hpresentable : Presentable sender params parsed call)
    {field : Bytes × Bytes} (hfield : field ∈ signedFields (dated sender params parsed call)) :
    tidy field.2 = field.2 := by
  have hvalues := hpresentable.values
  simp only [List.forall_mem_cons] at hvalues
  obtain ⟨hmd5, hhost, hclock, htoken, hkey, -⟩ := hvalues
  have hhash : tidy (dated sender params parsed call).effectivePayloadHash =
      (dated sender params parsed call).effectivePayloadHash := by
    rw [payloadHash_eq]
    exact tidy_of_notMem (notMem_hex256 (by decide) _)
  have htypes : ∀ contentType ∈ [[], octetStream, bytes "application/xml"],
      tidy contentType = contentType := by decide
  have hall : ∀ value ∈ [(dated sender params parsed call).contentMd5,
      (dated sender params parsed call).contentType, (dated sender params parsed call).host,
      (dated sender params parsed call).effectivePayloadHash,
      (dated sender params parsed call).datetimeNow, bytes "requester",
      (dated sender params parsed call).authParams.sessionToken, bytes "aws:kms",
      (dated sender params parsed call).authParams.kmsKeyId], tidy value = value := by
    simp only [List.forall_mem_cons]
    exact ⟨hmd5, htypes _ (contentType_mem call), hhost, hhash, hclock, by decide,
      htoken, by decide, hkey, by simp⟩
  exact hall _ (signedFields_values hfield)

theorem sent_headerValue (hsigns : Signs url params) (hextra : Harmless sender.extraHeaders)
    (hlibcurl : Harmless sender.libcurlHeaders) (call : S3Call) {header : Bytes × Bytes}
    (hheader : header ∈ carried sender.hashing sender.encoder (call.path parsed)
      (sender.clock.take 8) (dated sender params parsed call)) :
    headerValue (call.sent sender url params parsed).headers (lower header.1) =
      some header.2 := by
  obtain ⟨others, hothers, hperm⟩ := sent_headers parsed hsigns hextra hlibcurl call
  refine headerValue_of_perm hperm (carried_nodup _ _ _ _ _) hheader fun other hother heq => ?_
  exact hothers other hother (heq ▸ carried_concerned header hheader)

theorem sent_fieldValue (hsigns : Signs url params) (hextra : Harmless sender.extraHeaders)
    (hlibcurl : Harmless sender.libcurlHeaders) (call : S3Call) {field : Bytes × Bytes}
    (hfield : field ∈ signedFields (dated sender params parsed call)) :
    headerValue (call.sent sender url params parsed).headers field.1 = some field.2 := by
  obtain ⟨header, hheader, hname, hvalue⟩ :=
    signedFields_carried sender.hashing sender.encoder (call.path parsed)
      (sender.clock.take 8) hfield
  rw [← hname, ← hvalue]
  exact sent_headerValue hsigns hextra hlibcurl call hheader

theorem sent_covered (hsigns : Signs url params) (hextra : Harmless sender.extraHeaders)
    (hlibcurl : Harmless sender.libcurlHeaders) (call : S3Call) :
    ∀ header ∈ (call.sent sender url params parsed).headers, MustSign (lower header.1) →
      lower header.1 ∈ (signedFields (dated sender params parsed call)).map Prod.fst := by
  obtain ⟨others, hothers, hperm⟩ := sent_headers parsed hsigns hextra hlibcurl call
  intro header hheader hmust
  obtain hcarried | hother := List.mem_append.mp (hperm.mem_iff.mp hheader)
  · have hname := List.mem_map_of_mem (f := fun header => lower header.1) hcarried
    rw [carried_names] at hname
    rw [signedFields_names]
    refine carriedNames_signed _ _ _ _ _ _ ?_ _ hname hmust
    rw [Bool.and_eq_false_iff, decide_eq_false_iff_not]
    by_cases hempty : (dated sender params parsed call).contentType = []
    · rw [hempty]
      exact .inr (by decide)
    · exact .inl (by simpa using hempty)
  · exact absurd (.inr hmust) (hothers header hother)

theorem sent_authorization (hsigns : Signs url params) (hextra : Harmless sender.extraHeaders)
    (hlibcurl : Harmless sender.libcurlHeaders) (call : S3Call) :
    headerValue (call.sent sender url params parsed).headers (bytes "authorization") = some
      (Credential.text
        { accessKey := params.accessKeyId
          scope := scope params (sender.clock.take 8)
          signedHeaders := (signable sender.encoder (call.path parsed)
            (dated sender params parsed call)).signedHeaders
          signature := signature sender.hashing.digests params.secretAccessKey sender.clock
            (scope params (sender.clock.take 8))
            (signable sender.encoder (call.path parsed)
              (dated sender params parsed call)) }) := by
  have hcredential := authorizationHeader_eq sender.hashing sender.encoder (call.path parsed)
    (sender.clock.take 8) (dated sender params parsed call)
  have hcarried : (bytes "Authorization", authorizationHeader sender.hashing sender.encoder
      (call.path parsed) (sender.clock.take 8) (dated sender params parsed call)) ∈
        carried sender.hashing sender.encoder (call.path parsed) (sender.clock.take 8)
          (dated sender params parsed call) := by
    simp [carried, headerFields]
  have hlower : lower (bytes "Authorization") = bytes "authorization" := by decide
  rw [← hlower]
  exact (sent_headerValue hsigns hextra hlibcurl call hcarried).trans (congrArg some hcredential)

theorem sent_carries (hagree : Agree sender server)
    (hdigests : server.digests = sender.hashing.digests)
    (hparse : s3UrlParse url params = .ok parsed) (hsigns : Signs url params)
    (hextra : Harmless sender.extraHeaders) (hlibcurl : Harmless sender.libcurlHeaders)
    (call : S3Call) (hpresentable : Presentable sender params parsed call)
    (hkeeps : KeepsPath sender params parsed call) :
    Carries server (call.sent sender url params parsed)
      (signable sender.encoder (call.path parsed) (dated sender params parsed call))
      params.accessKeyId params.secretAccessKey sender.clock
      (scope params (sender.clock.take 8)) := by
  obtain ⟨hpath, hquery⟩ := sent_target hparse call hkeeps
  have hfieldValue : ∀ field ∈ signedFields (dated sender params parsed call),
      headerValue (call.sent sender url params parsed).headers field.1 = some field.2 :=
    fun _ hfield => sent_fieldValue hsigns hextra hlibcurl call hfield
  constructor
  · rw [hdigests]
    exact sent_authorization hsigns hextra hlibcurl call
  · rfl
  · rw [hpath]
    exact hagree.path _
  · rw [hquery]
    exact canonicalQuery_eq hagree _ call
  · intro field hfield
    exact ⟨field.2, hfieldValue field hfield, signedFields_tidy hpresentable hfield⟩
  · exact hfieldValue (contentHashName, _) (by simp [signedFields, contentHashName, signable])
  · exact hfieldValue (dateName, _) (by simp [signedFields, dateName, dated])
  · exact sent_covered hsigns hextra hlibcurl call

def sha2 : Hashing where
  sha256 := Foundation.Sha256.sha256
  hmac256 := Foundation.Sha256.hmac256
  sha256_nil := by decide +kernel
  sha256_length := Foundation.Sha256.sha256_length

/-- `UrlEncode` of a byte of a query. -/
def queryByte (c : UInt8) : Bytes :=
  if c = slash then bytes "%2F" else ListPages.percentEncodeByte c

def percentUrlEncode (text : Bytes) (encodeSlash : Bool) : Bytes :=
  text.flatMap (if encodeSlash then queryByte else ListPages.percentEncodeByte)

def client : Sender where
  hashing := sha2
  encoder := percentEncoder
  urlEncode := percentUrlEncode
  clock := bytes "20240131T120000Z"
  userAgent := bytes "haybarn"
  extraHeaders := [(bytes "X-Trace", bytes "7")]
  libcurlHeaders := [(bytes "Accept", bytes "*/*")]

def keyedParams : S3AuthParams :=
  { awsParams with
    region := bytes "us-east-1", accessKeyId := bytes "AK", secretAccessKey := bytes "secret"
    sessionToken := bytes "token" }

def checkingServer : Server where
  digests := sha2.digests
  recodePath text := (ListPages.percentDecode text).flatMap ListPages.percentEncodeByte
  recodeQuery text := percentUrlEncode (ListPages.percentDecode text) true
  secretOf accessKey := if accessKey = bytes "AK" then some (bytes "secret") else none

theorem queryByte_unreserved : ∀ c ∈ unreserved, queryByte c = [c] := by
  have hall : unreserved.all (fun c => decide (queryByte c = [c])) = true := by decide +kernel
  exact fun c hc => of_decide_eq_true (List.all_eq_true.mp hall c hc)

theorem queryByte_cases (c : UInt8) :
    ampersandByte ∉ queryByte c ∧ newlineByte ∉ queryByte c ∧
      ((queryByte c = [c] ∧ c ≠ 37) ∨ ∃ high low, queryByte c = [37, high, low] ∧
        ListPages.hexValue high * 16 + ListPages.hexValue low = c) := by
  have hall : ∀ n < 256, ampersandByte ∉ queryByte (UInt8.ofNat n) ∧
      newlineByte ∉ queryByte (UInt8.ofNat n) ∧
      ((queryByte (UInt8.ofNat n) = [UInt8.ofNat n] ∧ UInt8.ofNat n ≠ 37) ∨
        (queryByte (UInt8.ofNat n) = [37, ListPages.hexDigit (UInt8.ofNat n / 16),
            ListPages.hexDigit (UInt8.ofNat n % 16)] ∧
          ListPages.hexValue (ListPages.hexDigit (UInt8.ofNat n / 16)) * 16 +
            ListPages.hexValue (ListPages.hexDigit (UInt8.ofNat n % 16)) = UInt8.ofNat n)) := by
    decide +kernel
  have hc := hall c.toNat c.toNat_lt
  rw [UInt8.ofNat_toNat] at hc
  obtain ⟨hampersand, hnewline, hcases⟩ := hc
  exact ⟨hampersand, hnewline, hcases.imp id fun hescaped => ⟨_, _, hescaped⟩⟩

theorem percentDecode_urlEncode (text : Bytes) :
    ListPages.percentDecode (percentUrlEncode text true) = text := by
  have hencode : percentUrlEncode text true = text.flatMap queryByte := rfl
  rw [hencode]
  induction text with
  | nil => rfl
  | cons c text ih =>
      have hrest := ih rfl
      obtain ⟨-, -, ⟨hplain, hc⟩ | ⟨high, low, hescaped, hvalue⟩⟩ := queryByte_cases c
      · rw [List.flatMap_cons, hplain, List.singleton_append, ListPages.percentDecode, hrest]
        intro high low text hpercent
        exact absurd hpercent hc
      · rw [List.flatMap_cons, hescaped]
        simp only [List.cons_append, List.nil_append, ListPages.percentDecode, hrest, hvalue]

theorem client_agrees : Agree client checkingServer := by
  have hencode : ∀ text, client.urlEncode text true = text.flatMap queryByte := fun _ => rfl
  constructor
  · intro text
    exact congrArg (List.flatMap ListPages.percentEncodeByte)
      (ListPages.percentDecode_encode text)
  · intro text
    exact congrArg (percentUrlEncode · true) (percentDecode_urlEncode text)
  · intro text htext
    rw [hencode]
    induction text with
    | nil => rfl
    | cons c text ih =>
        rw [List.flatMap_cons, queryByte_unreserved c (htext c (.head _)),
          ih fun d hd => htext d (.tail _ hd)]
        rfl
  · decide
  · intro text
    rw [hencode, List.mem_flatMap, List.mem_flatMap]
    constructor
    · rintro ⟨c, -, hmem⟩
      exact (queryByte_cases c).1 hmem
    · rintro ⟨c, -, hmem⟩
      exact (queryByte_cases c).2.1 hmem

/-- Every request that is signed, of whatever kind, is accepted by a server that knows the
secret, as far as the path arrives as it was signed. -/
theorem signed_request_verifies (hagree : Agree sender server)
    (hdigests : server.digests = sender.hashing.digests)
    (hsecret : server.secretOf params.accessKeyId = some params.secretAccessKey)
    (hparse : s3UrlParse url params = .ok parsed) (hsigns : Signs url params)
    (hextra : Harmless sender.extraHeaders) (hlibcurl : Harmless sender.libcurlHeaders)
    (call : S3Call) (hpresentable : Presentable sender params parsed call)
    (hkeeps : KeepsPath sender params parsed call) :
    server.verify (call.sent sender url params parsed) = true := by
  have hscope := hpresentable.scope
  simp only [List.forall_mem_cons] at hscope
  obtain ⟨hkey, hdate, hregion, -⟩ := hscope
  refine verify_of_carries
    (sent_carries hagree hdigests hparse hsigns hextra hlibcurl call hpresentable hkeeps)
    (signable_ordered _ _ _) hsecret ?_ ?_ ?_ fun text => ?_
  · rw [hdigests]
    exact payloadHash_eq call
  · exact List.isPrefixOf_iff_prefix.mpr (List.take_prefix _ _)
  · simp only [List.forall_mem_cons]
    exact ⟨hkey, hdate, hregion, show slashByte ∉ s3Service ∧ commaByte ∉ s3Service by decide,
      by simp⟩
  · rw [hdigests]
    exact notMem_hex256 (by decide) text

/-- A read of a version of `dir/k`. -/
theorem signed_request_verifies_get :
    checkingServer.verify (S3Call.sent client (bytes "s3://b/dir/k") keyedParams plainObject
      (.get (bytes "v/1") (some (bytes "bytes=0-9")))) = true :=
  signed_request_verifies client_agrees rfl rfl (by decide +kernel) (by decide) (by decide)
    (by decide) (.get (bytes "v/1") (some (bytes "bytes=0-9"))) ⟨by decide, by decide⟩
    (show ¬ LosesSlash keyedParams (bytes "dir/k") (bytes "versionId=v%2F1") by decide)

theorem hex256_injective : Function.Injective hex256 := by
  -- the digits of a byte, read back
  have hback : ∀ n < 256, (hex256 [UInt8.ofNat n]).map (fun c => hexLetters.idxOf c) =
      [n / 16, n % 16] := by decide +kernel
  have hbyte : ∀ c : UInt8, (hex256 [c]).map (fun c => hexLetters.idxOf c) =
      [c.toNat / 16, c.toNat % 16] := fun c => by
    have hof := hback c.toNat c.toNat_lt
    rwa [UInt8.ofNat_toNat] at hof
  intro hash
  induction hash with
  | nil =>
      intro other heq
      cases other with
      | nil => rfl
      | cons d other => cases heq
  | cons c hash ih =>
      intro other heq
      cases other with
      | nil => cases heq
      | cons d other =>
          have hsplit : hex256 [c] ++ hex256 hash = hex256 [d] ++ hex256 other := heq
          obtain ⟨hfirst, hrest⟩ := List.append_inj hsplit rfl
          have hdigits := congrArg (List.map fun c => hexLetters.idxOf c) hfirst
          rw [hbyte, hbyte] at hdigits
          obtain ⟨hhigh, hlow⟩ := List.cons.inj hdigits
          have hsame : c = d := UInt8.toNat_inj.mp (by
            have hmod := (List.cons.inj hlow).1
            omega)
          rw [hsame, ih hrest]

theorem query_lines (hagree : Agree sender server) (key : Bytes) (call : S3Call) :
    newlineByte ∉ call.query sender.urlEncode key := by
  rw [query_eq]
  refine notMem_intercalate (by decide) fun text htext => ?_
  obtain ⟨parameter, hparameter, rfl⟩ := List.mem_map.mp htext
  obtain ⟨hknown, value, hvalue⟩ := parameters_encoded hagree key call parameter hparameter
  have hname := hagree.unreserved _ (parameterNames_unreserved _ hknown).2
  simp only [parameterText, List.mem_append, List.mem_cons, not_or, hvalue]
  refine ⟨?_, by decide, (hagree.separators _).2⟩
  rw [← hname]
  exact (hagree.separators _).2

theorem signable_lines (hagree : Agree sender server) {call : S3Call}
    (hvalues : ∀ value ∈ [call.contentMd5, parsed.host, sender.clock, params.sessionToken,
      params.kmsKeyId], newlineByte ∉ value) :
    (signable sender.encoder (call.path parsed) (dated sender params parsed call)).Lines := by
  simp only [List.forall_mem_cons] at hvalues
  obtain ⟨hmd5, hhost, hclock, htoken, hkey, -⟩ := hvalues
  have hmethod : ∀ method : Method, newlineByte ∉ method.name := fun method => by
    cases method
    all_goals decide
  have htypes : ∀ contentType ∈ [[], octetStream, bytes "application/xml"],
      newlineByte ∉ contentType := by decide
  have hhash : newlineByte ∉ (dated sender params parsed call).effectivePayloadHash := by
    rw [payloadHash_eq]
    exact notMem_hex256 (by decide) _
  have hall : ∀ value ∈ [(dated sender params parsed call).contentMd5,
      (dated sender params parsed call).contentType, (dated sender params parsed call).host,
      (dated sender params parsed call).effectivePayloadHash,
      (dated sender params parsed call).datetimeNow, bytes "requester",
      (dated sender params parsed call).authParams.sessionToken, bytes "aws:kms",
      (dated sender params parsed call).authParams.kmsKeyId], newlineByte ∉ value := by
    simp only [List.forall_mem_cons]
    exact ⟨hmd5, htypes _ (contentType_mem call), hhost, hhash, hclock, by decide,
      htoken, by decide, hkey, by simp⟩
  refine ⟨hmethod _, newline_not_mem_encode _, query_lines hagree _ call, fun field hfield => ?_,
    fun field hfield => hall _ (signedFields_values hfield)⟩
  have hname := List.mem_map_of_mem (f := Prod.fst) hfield
  have hnames : List.map Prod.fst (signable sender.encoder (call.path parsed)
      (dated sender params parsed call)).fields = _ := signedFields_names
  rw [hnames] at hname
  exact (fieldNames_free _ _ _ _ _ _ hname).2.2

/-- A request that is accepted with the signature of a call is that call: it has its method,
its path, its query, its signed headers and its body, as far as the hashes tell them apart. -/
theorem accepted_is_signed (hagree : Agree sender server)
    (hdigests : server.digests = sender.hashing.digests)
    (hsecret : server.secretOf params.accessKeyId = some params.secretAccessKey)
    (hsigns : Signs url params) (hextra : Harmless sender.extraHeaders)
    (hlibcurl : Harmless sender.libcurlHeaders) (call : S3Call)
    (hscope : ∀ part ∈ [params.accessKeyId, sender.clock.take 8, params.region],
      slashByte ∉ part ∧ commaByte ∉ part)
    (hvalues : ∀ value ∈ [call.contentMd5, parsed.host, sender.clock, params.sessionToken,
      params.kmsKeyId], newlineByte ∉ value)
    (hserver : server.Lines) {request : Request} (hrequest : request.Lines)
    (hauthorization : headerValue request.headers (bytes "authorization") =
      headerValue (call.sent sender url params parsed).headers (bytes "authorization"))
    (hapart : Apart server request
      (signable sender.encoder (call.path parsed) (dated sender params parsed call))
      params.secretAccessKey sender.clock (scope params (sender.clock.take 8)))
    (hbodies : sender.hashing.sha256 call.body = sender.hashing.sha256 request.body →
      call.body = request.body)
    (hverify : server.verify request = true) :
    request.method = call.method.name ∧
      server.recodePath request.path = sender.encoder.encode (call.path parsed) ∧
      canonicalQuery server.recodeQuery request.query = call.query sender.urlEncode parsed.key ∧
      (∀ field ∈ signedFields (dated sender params parsed call),
        tidy ((headerValue request.headers field.1).getD []) = field.2) ∧
      request.body = call.body := by
  have hlines := signable_lines hagree hvalues
  have hclock : newlineByte ∉ sender.clock := hvalues _ (.tail _ (.tail _ (.head _)))
  simp only [List.forall_mem_cons] at hscope
  obtain ⟨hkey, hdate, hregion, -⟩ := hscope
  rw [sent_authorization hsigns hextra hlibcurl call, ← hdigests] at hauthorization
  have hkeyed : ∀ part ∈ [params.accessKeyId, sender.clock.take 8, params.region, s3Service],
      slashByte ∉ part ∧ commaByte ∉ part := by
    simp only [List.forall_mem_cons]
    exact ⟨hkey, hdate, hregion, show slashByte ∉ s3Service ∧ commaByte ∉ s3Service by decide,
      by simp⟩
  obtain ⟨hreceived, hpayload⟩ := received_of_verify hverify hauthorization hsecret
    (signable_ordered _ _ _) hlines hclock hserver hrequest hkeyed
    (fun text => by rw [hdigests]; exact notMem_hex256 (by decide) text)
    (by rw [hdigests]; exact hex256_injective) hapart
  refine ⟨congrArg Signable.method hreceived, congrArg Signable.path hreceived,
    congrArg Signable.query hreceived, fun field hfield => ?_, ?_⟩
  · have hfields : ((signedFields (dated sender params parsed call)).map Prod.fst).map
        (fun name => (name, tidy ((headerValue request.headers name).getD []))) =
          (signedFields (dated sender params parsed call)).map id :=
      (congrArg Signable.fields hreceived).trans (List.map_id _).symm
    rw [List.map_map] at hfields
    exact congrArg Prod.snd (List.map_inj_left.mp hfields field hfield)
  · rw [hdigests] at hpayload
    have hhash : (dated sender params parsed call).effectivePayloadHash = _ := hpayload
    rw [payloadHash_eq] at hhash
    exact (hbodies (hex256_injective hhash)).symm

theorem apart_of_carries {request : Request} {signable : Signable}
    {accessKey secret datetime : Bytes}
    {scope : Scope} (hcarries : Carries server request signable accessKey secret datetime scope) :
    Apart server request signable secret datetime scope := by
  have hreceived := received_eq hcarries
  constructor
  · rintro received rfl -
    rw [hreceived, hcarries.datetime, Option.getD_some]
  · intro _
    rw [hreceived]

theorem notMem_authorizationHeader {c : UInt8} (hhex : c ∉ hexLetters)
    (hplain : c ∉
      bytes "AWS4-HMAC-SHA256 Credential=/s3/aws4_request, SignedHeaders=, Signature=")
    (hscope : ∀ part ∈ [signing.authParams.accessKeyId, dateNow, signing.authParams.region],
      c ∉ part) (hsigned : c ∉ RequestPath.signedHeaders signing) :
    c ∉ authorizationHeader hashing encoder path dateNow signing := by
  simp only [List.forall_mem_cons] at hscope
  obtain ⟨hkey, hdate, hregion, -⟩ := hscope
  have hsignature : c ∉ computeSignature hashing encoder path dateNow signing :=
    notMem_hex256 hhex _
  have hplains :
    bytes "AWS4-HMAC-SHA256 Credential=/s3/aws4_request, SignedHeaders=, Signature=" =
      bytes "AWS4-HMAC-SHA256 Credential=" ++ bytes "/" ++ s3Service ++
        bytes "/aws4_request, SignedHeaders=" ++ bytes ", Signature=" := by decide
  simp only [hplains, List.mem_append, not_or] at hplain
  obtain ⟨⟨⟨⟨hcredential, hslash⟩, hservice⟩, hterminator⟩, hlast⟩ := hplain
  simp only [authorizationHeader, List.mem_append, not_or]
  exact ⟨⟨⟨⟨⟨⟨⟨⟨⟨⟨⟨hcredential, hkey⟩, hslash⟩, hdate⟩, hslash⟩, hregion⟩, hslash⟩, hservice⟩,
    hterminator⟩, hsigned⟩, hlast⟩, hsignature⟩

/-- What a proxy adds to a request. -/
def forwarded : Headers :=
  [(bytes "X-Forwarded-For", bytes "10.0.0.1")]

/-- An upload, after a proxy. -/
def uploaded : Request :=
  let sent := (S3Call.putObject (bytes "data")).sent client (bytes "s3://b/dir/k") keyedParams
    plainObject
  { sent with headers := sent.headers ++ forwarded }

set_option maxRecDepth 4000 in
theorem uploaded_lines : uploaded.Lines := by
  have hheaders : uploaded.headers =
      [(bytes "Host", plainObject.host), (bytes "x-amz-date", client.clock),
        (bytes "x-amz-content-sha256", hex256 (sha2.sha256 (bytes "data"))),
        (bytes "x-amz-security-token", bytes "token"),
        (bytes "Authorization", authorizationHeader sha2 percentEncoder plainObject.path
          (client.clock.take 8)
          (dated client keyedParams plainObject (.putObject (bytes "data")))),
        (bytes "User-Agent", client.userAgent), (bytes "X-Trace", bytes "7"),
        (bytes "Content-Type", octetStream), (bytes "Accept", bytes "*/*"),
        (bytes "X-Forwarded-For", bytes "10.0.0.1")] := rfl
  refine ⟨by decide, ?_⟩
  simp only [hheaders, List.forall_mem_cons]
  exact ⟨by decide, by decide, notMem_hex256 (by decide) _, by decide,
    notMem_authorizationHeader (by decide) (by decide) (by decide) (by decide), by decide,
    by decide, by decide, by decide, by decide, by simp⟩

theorem uploaded_carries :
    Carries checkingServer uploaded
      (signable percentEncoder plainObject.path
        (dated client keyedParams plainObject (.putObject (bytes "data"))))
      (bytes "AK") (bytes "secret") client.clock (scope keyedParams (client.clock.take 8)) := by
  have hparse : s3UrlParse (bytes "s3://b/dir/k") keyedParams =
    .ok plainObject := by decide +kernel
  have hkeeps : ¬ LosesSlash keyedParams (bytes "dir/k") [] := by decide
  exact (sent_carries client_agrees rfl hparse (by decide) (by decide) (by decide)
    (.putObject (bytes "data")) ⟨by decide, by decide⟩ hkeeps).handedOn forwarded (by decide)

set_option maxRecDepth 4000 in
theorem uploaded_verifies : checkingServer.verify uploaded = true := by
  have hhash : (dated client keyedParams plainObject
      (.putObject (bytes "data"))).effectivePayloadHash = hex256 (sha2.sha256 (bytes "data")) :=
    payloadHash_eq (.putObject (bytes "data"))
  exact verify_of_carries uploaded_carries (signable_ordered _ _ _) rfl hhash (by decide)
    (by decide) (notMem_hex256 (by decide))

theorem accepted_is_signed_put :
    uploaded.method = bytes "PUT" ∧ uploaded.body = bytes "data" := by
  have hserver : checkingServer.Lines :=
    ⟨fun text => (newline_not_mem_encode (ListPages.percentDecode text) :
        newlineByte ∉ percentEncoder.encode (ListPages.percentDecode text)),
      fun text => (client_agrees.separators (ListPages.percentDecode text)).2⟩
  have hauthorization := headerValue_append ((S3Call.putObject (bytes "data")).sent client
    (bytes "s3://b/dir/k") keyedParams plainObject).headers
    (show ∀ header ∈ forwarded, lower header.1 ≠ bytes "authorization" by decide)
  have hsame := accepted_is_signed client_agrees rfl rfl (by decide) (by decide) (by decide)
    (.putObject (bytes "data")) (by decide) (by decide) hserver uploaded_lines hauthorization
    (apart_of_carries uploaded_carries) (fun _ => rfl) uploaded_verifies
  exact ⟨hsame.1, hsame.2.2.2.2⟩

end HaybarnHttpfs.RequestAcceptance
