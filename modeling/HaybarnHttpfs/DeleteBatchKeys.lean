import HaybarnHttpfs.RemoveFiles
import HaybarnHttpfs.Foundation.Exceptions
import HaybarnHttpfs.Foundation.Numerals
import HaybarnHttpfs.Foundation.PrefixCodes

/-!
What the key of a delete batch tells about the paths in the batch. Every part of a key
comes after its length, so a key tells its parts; the parts tell the parameters but for
the end of the extra headers, whose number is not among them.
-/

namespace HaybarnHttpfs.DeleteBatchKeys

open HaybarnHttpfs.Foundation.ByteStrings HaybarnHttpfs.Foundation.Numerals
open HaybarnHttpfs.Foundation.PrefixCodes HaybarnHttpfs.Foundation.Exceptions
open HaybarnHttpfs.S3Auth HaybarnHttpfs.S3Url HaybarnHttpfs.ReadAuthParams
open HaybarnHttpfs.RemoveFiles

universe u

variable {σ : Type u} {context : DeleteContext σ} {s : σ} {path path' : Bytes}
  {urlInfo urlInfo' : S3DeleteBatchUrlInfo}

theorem addString_prefixFree : PrefixFree addString := by
  have hcolon : bytes ":" = [58] := by decide
  have hlength : PrefixFree fun value : Bytes => decimal value.length ++ [58] ++ value :=
    prefixFree_of_length (prefixFree_of_delimiter (fun _ _ => decimal_injective)
      (not_mem_decimal (by decide)))
  unfold addString
  rw [hcolon]
  exact hlength.terminated _

theorem flatMap_addString_inj {parts parts' : List Bytes}
    (heq : parts.flatMap addString = parts'.flatMap addString) : parts = parts' :=
  addString_prefixFree.flatMap_injective (fun _ => by simp [addString, bytes]) heq

theorem ofBool_inj {b b' : Bool} (heq : ofBool b = ofBool b') : b = b' := by
  cases b with
  | _ =>
      cases b' with
      | _ => first | rfl | exact absurd heq (by decide)

theorem authKeyParts_inj {authParams authParams' : S3AuthParams}
    (heq : authKeyParts authParams = authKeyParts authParams') : authParams = authParams' := by
  obtain ⟨_, _, _, _, _, _, _, _, _, _, _⟩ := authParams
  obtain ⟨_, _, _, _, _, _, _, _, _, _, _⟩ := authParams'
  simp only [authKeyParts, List.cons.injEq, and_true] at heq
  obtain ⟨rfl, rfl, rfl, rfl, rfl, rfl, rfl, hssl, hmode, hpays, rfl⟩ := heq
  rw [ofBool_inj hssl, ofBool_inj hmode, ofBool_inj hpays]

theorem urlKeyParts_append_inj {rest rest' : List Bytes}
    (heq : urlKeyParts urlInfo ++ (authKeyParts urlInfo.authParams ++ rest) =
      urlKeyParts urlInfo' ++ (authKeyParts urlInfo'.authParams ++ rest')) :
    urlInfo = urlInfo' ∧ rest = rest' := by
  obtain ⟨hurl, hparts⟩ := List.append_inj heq rfl
  obtain ⟨hauth, hrest⟩ := List.append_inj hparts rfl
  obtain ⟨_, _, _, _, _⟩ := urlInfo
  obtain ⟨_, _, _, _, _⟩ := urlInfo'
  simp only [urlKeyParts, List.cons.injEq, and_true] at hurl
  obtain ⟨rfl, rfl, rfl, rfl⟩ := hurl
  cases authKeyParts_inj hauth
  exact ⟨rfl, hrest⟩

theorem urlInfo_of_batchKey (heq : createDeleteBatchKey context s urlInfo path =
    createDeleteBatchKey context s urlInfo' path') : urlInfo = urlInfo' :=
  (urlKeyParts_append_inj (flatMap_addString_inj heq)).1

def secretTypes : List Bytes := [bytes "s3", bytes "r2", bytes "gcs", bytes "aws"]

def headerKeyParts (header : Bytes × Bytes) : List Bytes := [header.1, header.2]

/-- The parts for one type behind the type itself. -/
def matchKeyParts : Option SecretMatch → List Bytes
  | none => [[]]
  | some found => decimal found.score :: secretKeyParts found

theorem headerKeyParts_prefixFree : PrefixFree headerKeyParts := by
  rintro ⟨name, value⟩ ⟨name', value'⟩ rest rest' heq
  simp only [headerKeyParts, List.cons_append, List.nil_append, List.cons.injEq] at heq
  obtain ⟨rfl, rfl, rfl⟩ := heq
  exact ⟨rfl, rfl⟩

/-- The number of the scopes is a part, so they end where they should. -/
theorem matchKeyParts_prefixFree : PrefixFree matchKeyParts := by
  rintro (_ | ⟨_, _, _, _, _, _, scope⟩) (_ | ⟨_, _, _, _, _, _, scope'⟩) rest rest' heq
  · exact ⟨rfl, List.append_cancel_left heq⟩
  · exact absurd (List.head_eq_of_cons_eq heq).symm (decimal_ne_nil _)
  · exact absurd (List.head_eq_of_cons_eq heq) (decimal_ne_nil _)
  · simp only [matchKeyParts, secretKeyParts, List.cons_append, List.nil_append,
      List.cons.injEq] at heq
    obtain ⟨hscore, rfl, rfl, rfl, rfl, hpersist, hlength, hscope⟩ := heq
    obtain ⟨rfl, rfl⟩ := List.append_inj hscope (decimal_injective hlength)
    rw [decimal_injective hscore, decimal_injective hpersist]
    exact ⟨rfl, rfl⟩

/-- The parts behind those of the `s3` secret. -/
def laterKeyParts (context : DeleteContext σ)
    (lookupSecret : σ → Bytes → Bytes → Option SecretMatch) (s : σ) (path : Bytes) : List Bytes :=
  ([bytes "r2", bytes "gcs", bytes "aws"].flatMap fun type =>
    type :: matchKeyParts (lookupSecret s path type)) ++ refreshKeyParts context s path

theorem selectedSecretKeyParts_eq {lookupSecret : σ → Bytes → Bytes → Option SecretMatch}
    (hmanager : context.lookupSecret = some lookupSecret) :
    selectedSecretKeyParts context s path =
      secretTypes.flatMap fun type => type :: matchKeyParts (lookupSecret s path type) := by
  simp only [selectedSecretKeyParts, hmanager]
  congr 1

theorem selectedSecretKeyParts_append {lookupSecret : σ → Bytes → Bytes → Option SecretMatch}
    (hmanager : context.lookupSecret = some lookupSecret) :
    selectedSecretKeyParts context s path ++ refreshKeyParts context s path =
      bytes "s3" :: (matchKeyParts (lookupSecret s path (bytes "s3")) ++
        laterKeyParts context lookupSecret s path) := by
  simp only [selectedSecretKeyParts_eq hmanager, secretTypes, List.flatMap_cons, laterKeyParts,
    List.cons_append, List.append_assoc]

def refreshDirectory (context : DeleteContext σ) (s : σ) (path : Bytes) : Option Bytes :=
  if context.credentialRefreshEnabled && context.hasRefreshableS3Secret s path then
    some (getDeleteBatchLookupDirectory path)
  else none

/-- Everything that two paths should share to be deleted by one request. -/
structure SameParameters (context : DeleteContext σ) (s : σ) (path path' : Bytes)
    (urlInfo urlInfo' : S3DeleteBatchUrlInfo) : Prop where
  urlInfo : urlInfo = urlInfo'
  httpParams : readRefreshableHTTPParams context.toSecrets s path =
    readRefreshableHTTPParams context.toSecrets s path'
  secrets : ∀ lookupSecret ∈ context.lookupSecret, ∀ type ∈ secretTypes,
    lookupSecret s path type = lookupSecret s path' type
  refresh : refreshDirectory context s path = refreshDirectory context s path'

/-- `path'` has one more extra header, named `s3`, that can be read as the beginning of the
secrets of `path`: its value is the score, and each field of the secret that is found for
`path` stands where one of the secret that is found for `path'` does. -/
structure ShiftedBy (context : DeleteContext σ) (s : σ) (path path' : Bytes)
    (urlInfo urlInfo' : S3DeleteBatchUrlInfo)
    (lookupSecret : σ → Bytes → Bytes → Option SecretMatch) (found found' : SecretMatch) :
    Prop where
  manager : context.lookupSecret = some lookupSecret
  selected : lookupSecret s path (bytes "s3") = some found
  selected' : lookupSecret s path' (bytes "s3") = some found'
  urlInfo : urlInfo = urlInfo'
  httpParams : readRefreshableHTTPParams context.toSecrets s path' =
    { readRefreshableHTTPParams context.toSecrets s path with
      extraHeaders := (readRefreshableHTTPParams context.toSecrets s path).extraHeaders ++
        [(bytes "s3", decimal found.score)] }
  provider : found.provider = decimal found'.score
  name : found.name = bytes "s3"
  storageMode : found.storageMode = found'.provider
  persistType : decimal found.persistType = found'.name
  scopeCount : decimal found.scope.length = found'.storageMode
  scope : found.scope ++ laterKeyParts context lookupSecret s path =
    decimal found'.persistType :: decimal found'.scope.length ::
      (found'.scope ++ laterKeyParts context lookupSecret s path')

def Shifted (context : DeleteContext σ) (s : σ) (path path' : Bytes)
    (urlInfo urlInfo' : S3DeleteBatchUrlInfo) : Prop :=
  ∃ lookupSecret found found',
    ShiftedBy context s path path' urlInfo urlInfo' lookupSecret found found'

/-- A map lists its entries in the order of their keys. -/
def HeadersListed (context : DeleteContext σ) : Prop :=
  ∀ s path, (readRefreshableHTTPParams context.toSecrets s path).extraHeaders.Pairwise
    fun header header' => header.1 < header'.1

/-- A secret that is found has the type that was looked up. -/
def TypesAsked (context : DeleteContext σ) : Prop :=
  ∀ lookupSecret ∈ context.lookupSecret, ∀ s path type,
    ∀ found ∈ lookupSecret s path type, found.type = type

def SameButHeaders (httpParams httpParams' : S3RefreshableHTTPParams) : Prop :=
  httpParams' = { httpParams with extraHeaders := httpParams'.extraHeaders }

theorem SameButHeaders.symm {httpParams httpParams' : S3RefreshableHTTPParams}
    (hsame : SameButHeaders httpParams httpParams') : SameButHeaders httpParams' httpParams := by
  unfold SameButHeaders at *
  rw [hsame]

theorem SameButHeaders.eq_with {httpParams httpParams' : S3RefreshableHTTPParams}
    {extraHeaders : List (Bytes × Bytes)} (hsame : SameButHeaders httpParams httpParams')
    (hheaders : httpParams'.extraHeaders = extraHeaders) :
    httpParams' = { httpParams with extraHeaders } := by
  subst hheaders
  exact hsame

theorem httpKeyParts_append_inj {httpParams httpParams' : S3RefreshableHTTPParams}
    {rest rest' : List Bytes}
    (heq : httpKeyParts httpParams ++ rest = httpKeyParts httpParams' ++ rest') :
    SameButHeaders httpParams httpParams' ∧
      httpParams.extraHeaders.flatMap headerKeyParts ++ rest =
        httpParams'.extraHeaders.flatMap headerKeyParts ++ rest' := by
  obtain ⟨_, _, _, _, _, _, _, _⟩ := httpParams
  obtain ⟨_, _, _, _, _, _, _, _⟩ := httpParams'
  simp only [httpKeyParts, List.cons_append, List.nil_append, List.cons.injEq] at heq
  obtain ⟨rfl, hport, rfl, rfl, hoverride, hverify, rfl, hheaders⟩ := heq
  obtain rfl := decimal_injective hport
  obtain rfl := ofBool_inj hoverride
  obtain rfl := ofBool_inj hverify
  exact ⟨rfl, hheaders⟩

theorem refreshKeyParts_inj (hpath : path ≠ []) (hpath' : path' ≠ [])
    (heq : refreshKeyParts context s path = refreshKeyParts context s path') :
    refreshDirectory context s path = refreshDirectory context s path' := by
  have hdirectory : ∀ {path : Bytes}, path ≠ [] → getDeleteBatchLookupDirectory path ≠ [] := by
    intro path hpath
    unfold getDeleteBatchLookupDirectory
    split
    · exact hpath
    · rename_i behind hbehind
      obtain ⟨hlt, -⟩ := List.findIdx?_eq_some_iff_getElem.mp hbehind
      rw [List.length_reverse] at hlt
      intro hnil
      rw [List.take_eq_nil_iff] at hnil
      rcases hnil with hzero | hnil
      · omega
      · exact hpath hnil
  revert heq
  unfold refreshKeyParts refreshDirectory
  split
  · split
    · intro heq
      exact congrArg some (List.head_eq_of_cons_eq heq)
    · intro heq
      exact absurd (List.head_eq_of_cons_eq heq) (hdirectory hpath)
  · split
    · intro heq
      exact absurd (List.head_eq_of_cons_eq heq).symm (hdirectory hpath')
    · intro heq
      rfl

theorem flatMap_matchKeyParts_inj {selected selected' : Bytes → Option SecretMatch}
    {types rest rest' : List Bytes}
    (heq : (types.flatMap fun type => type :: matchKeyParts (selected type)) ++ rest =
      (types.flatMap fun type => type :: matchKeyParts (selected' type)) ++ rest') :
    (∀ type ∈ types, selected type = selected' type) ∧ rest = rest' := by
  induction types with
  | nil => exact ⟨nofun, heq⟩
  | cons type types ih =>
      simp only [List.flatMap_cons, List.cons_append, List.append_assoc, List.cons.injEq,
        true_and] at heq
      obtain ⟨hselected, hrest⟩ := matchKeyParts_prefixFree heq
      obtain ⟨htypes, rfl⟩ := ih hrest
      exact ⟨List.forall_mem_cons.mpr ⟨hselected, htypes⟩, rfl⟩

theorem sameParameters_of_rest (hpath : path ≠ []) (hpath' : path' ≠ [])
    (hurl : urlInfo = urlInfo')
    (hhttp : readRefreshableHTTPParams context.toSecrets s path =
      readRefreshableHTTPParams context.toSecrets s path')
    (hrest : selectedSecretKeyParts context s path ++ refreshKeyParts context s path =
      selectedSecretKeyParts context s path' ++ refreshKeyParts context s path') :
    SameParameters context s path path' urlInfo urlInfo' := by
  cases hmanager : context.lookupSecret with
  | none =>
      simp only [selectedSecretKeyParts, hmanager] at hrest
      exact ⟨hurl, hhttp, by simp [hmanager],
        refreshKeyParts_inj hpath hpath' (List.append_cancel_left hrest)⟩
  | some lookupSecret =>
      rw [selectedSecretKeyParts_eq hmanager, selectedSecretKeyParts_eq hmanager] at hrest
      obtain ⟨hselected, hrefresh⟩ := flatMap_matchKeyParts_inj hrest
      refine ⟨hurl, hhttp, ?_, refreshKeyParts_inj hpath hpath' hrefresh⟩
      rw [hmanager]
      rintro _ ⟨⟩
      exact hselected

theorem length_refreshKeyParts : (refreshKeyParts context s path).length = 1 := by
  unfold refreshKeyParts
  split
  · rfl
  · rfl

theorem next_of_headers {more : List (Bytes × Bytes)} {name text : Bytes}
    {rest rest' : List Bytes} (hnames : ∀ header ∈ more, name < header.1)
    (heq : more.flatMap headerKeyParts ++ name :: rest = text :: rest') :
    (more = [] ∧ text = name ∧ rest = rest') ∨ name < text := by
  cases more with
  | nil =>
      obtain ⟨rfl, rfl⟩ := List.cons_eq_cons.mp heq
      exact .inl ⟨rfl, rfl, rfl⟩
  | cons header more =>
      obtain rfl := List.head_eq_of_cons_eq heq
      exact .inr (hnames _ List.mem_cons_self)

theorem fields_ne_laterKeyParts (htypes : TypesAsked context)
    {lookupSecret : σ → Bytes → Bytes → Option SecretMatch}
    (hmanager : context.lookupSecret = some lookupSecret) {name storageMode : Bytes}
    {persistType : Nat} {rest : List Bytes} :
    name :: storageMode :: decimal persistType :: rest ≠
      laterKeyParts context lookupSecret s path := by
  simp only [laterKeyParts, List.flatMap_cons, List.cons_append, ne_eq, List.cons.injEq, not_and]
  rintro -
  cases hselected : lookupSecret s path (bytes "r2") with
  | none =>
      simp only [matchKeyParts, List.cons_append, List.nil_append, List.cons.injEq, not_and]
      rintro - hnumber
      have hletter : (103 : UInt8) ∈ bytes "gcs" := by decide
      exact absurd hnumber.symm (ne_decimal_of_mem hletter (by decide) _)
  | some found =>
      simp only [matchKeyParts, secretKeyParts, List.cons_append, List.nil_append,
        List.cons.injEq, not_and]
      rintro - hnumber
      rw [htypes lookupSecret (by rw [hmanager]; rfl) s path _ found (by rw [hselected]; rfl)]
        at hnumber
      have hletter : (114 : UInt8) ∈ bytes "r2" := by decide
      exact absurd hnumber.symm (ne_decimal_of_mem hletter (by decide) _)

theorem shifted_of_more {more : List (Bytes × Bytes)} (hmore : more ≠ [])
    (htypes : TypesAsked context) (hlisted : HeadersListed context) (hurl : urlInfo = urlInfo')
    (hhttp : readRefreshableHTTPParams context.toSecrets s path' =
      { readRefreshableHTTPParams context.toSecrets s path with
        extraHeaders :=
          (readRefreshableHTTPParams context.toSecrets s path).extraHeaders ++ more })
    (hrest : selectedSecretKeyParts context s path ++ refreshKeyParts context s path =
      more.flatMap headerKeyParts ++
        (selectedSecretKeyParts context s path' ++ refreshKeyParts context s path')) :
    Shifted context s path path' urlInfo urlInfo' := by
  obtain ⟨⟨name, value⟩, more, rfl⟩ := List.exists_cons_of_ne_nil hmore
  have hordered : ((name, value) :: more).Pairwise
      fun header header' => header.1 < header'.1 := by
    have hall := hlisted s path'
    rw [hhttp] at hall
    exact (List.pairwise_append.mp hall).2.1
  cases hmanager : context.lookupSecret with
  | none =>
      simp only [selectedSecretKeyParts, hmanager] at hrest
      have hlength := congrArg List.length hrest
      simp only [List.length_append, List.flatMap_cons, length_refreshKeyParts, headerKeyParts,
        List.length_cons, List.length_nil] at hlength
      omega
  | some lookupSecret =>
      rw [selectedSecretKeyParts_append hmanager, selectedSecretKeyParts_append hmanager,
        List.flatMap_cons] at hrest
      simp only [headerKeyParts, List.cons_append, List.nil_append, List.cons.injEq] at hrest
      obtain ⟨rfl, hrest⟩ := hrest
      have hnames : ∀ header ∈ more, bytes "s3" < header.1 := (List.pairwise_cons.mp hordered).1
      cases hfound : lookupSecret s path (bytes "s3") with
      | none =>
          rw [hfound] at hrest
          obtain ⟨-, hnext⟩ := List.cons_eq_cons.mp hrest
          rcases next_of_headers hnames hnext.symm with ⟨-, habsurd, -⟩ | habsurd
          · exact absurd habsurd (by decide)
          · exact absurd habsurd (by decide)
      | some found =>
          rw [hfound] at hrest
          simp only [matchKeyParts, secretKeyParts, List.cons_append, List.nil_append] at hrest
          obtain ⟨rfl, hnext⟩ := List.cons_eq_cons.mp hrest
          rw [htypes lookupSecret (by rw [hmanager]; rfl) s path _ found (by rw [hfound]; rfl)]
            at hnext
          rcases next_of_headers hnames hnext.symm with ⟨rfl, -, hbehind⟩ | habsurd
          · cases hfound' : lookupSecret s path' (bytes "s3") with
            | none =>
                rw [hfound'] at hbehind
                obtain ⟨-, hlater⟩ := List.cons_eq_cons.mp hbehind
                exact absurd hlater.symm (fields_ne_laterKeyParts htypes hmanager)
            | some found' =>
                rw [hfound'] at hbehind
                simp only [List.cons_append, List.cons.injEq] at hbehind
                obtain ⟨hprovider, hname, hstorage, hpersist, hcount, hscope⟩ := hbehind
                have htype' := htypes lookupSecret (by rw [hmanager]; rfl) s path' _ found'
                  (by rw [hfound']; rfl)
                exact ⟨lookupSecret, found, found', hmanager, hfound, hfound', hurl, hhttp,
                  hprovider.symm, hname.symm.trans htype', hstorage.symm, hpersist.symm,
                  hcount.symm, hscope.symm⟩
          · exact absurd habsurd (by decide)

/-- The same parts give the same key, so shifted ones cannot be told apart. -/
theorem batchKey_of_shifted (htypes : TypesAsked context)
    (hshifted : Shifted context s path path' urlInfo urlInfo') :
    createDeleteBatchKey context s urlInfo path =
      createDeleteBatchKey context s urlInfo' path' := by
  obtain ⟨lookupSecret, found, found', hshifted⟩ := hshifted
  have hmanager : lookupSecret ∈ context.lookupSecret := hshifted.manager
  have htype := htypes lookupSecret hmanager s path _ found hshifted.selected
  have htype' := htypes lookupSecret hmanager s path' _ found' hshifted.selected'
  unfold createDeleteBatchKey deleteBatchKeyParts
  rw [selectedSecretKeyParts_append hshifted.manager,
    selectedSecretKeyParts_append hshifted.manager,
    hshifted.urlInfo, hshifted.httpParams, hshifted.selected, hshifted.selected']
  congr 1
  simp only [httpKeyParts, matchKeyParts, secretKeyParts, List.flatMap_append, List.flatMap_cons,
    List.flatMap_nil, List.append_assoc, List.cons_append, List.nil_append, hshifted.scope,
    hshifted.provider, hshifted.name, hshifted.storageMode, hshifted.persistType,
    hshifted.scopeCount, htype, htype']

theorem same_or_shifted_of_batchKey (hpath : path ≠ []) (hpath' : path' ≠ [])
    (htypes : TypesAsked context) (hlisted : HeadersListed context)
    (hkey : createDeleteBatchKey context s urlInfo path =
      createDeleteBatchKey context s urlInfo' path') :
    SameParameters context s path path' urlInfo urlInfo' ∨
      Shifted context s path path' urlInfo urlInfo' ∨
      Shifted context s path' path urlInfo' urlInfo := by
  have hparts := flatMap_addString_inj hkey
  unfold deleteBatchKeyParts at hparts
  obtain ⟨hurl, hparts⟩ := urlKeyParts_append_inj hparts
  obtain ⟨hhttp, hparts⟩ := httpKeyParts_append_inj hparts
  rcases headerKeyParts_prefixFree.aligned hparts with ⟨more, hmore, hrest⟩ | ⟨more, hmore, hrest⟩
  · by_cases hnone : more = []
    · subst hnone
      rw [List.append_nil] at hmore
      exact .inl (sameParameters_of_rest hpath hpath' hurl (hhttp.eq_with hmore).symm hrest)
    · exact .inr (.inl (shifted_of_more hnone htypes hlisted hurl (hhttp.eq_with hmore) hrest))
  · by_cases hnone : more = []
    · subst hnone
      rw [List.append_nil] at hmore
      exact .inl (sameParameters_of_rest hpath hpath' hurl (hhttp.symm.eq_with hmore) hrest.symm)
    · exact .inr (.inr
        (shifted_of_more hnone htypes hlisted hurl.symm (hhttp.symm.eq_with hmore) hrest))

theorem not_sameParameters_of_shifted (hshifted : Shifted context s path path' urlInfo urlInfo') :
    readRefreshableHTTPParams context.toSecrets s path ≠
      readRefreshableHTTPParams context.toSecrets s path' := by
  obtain ⟨_, _, _, hshifted⟩ := hshifted
  intro hsame
  have hlength := congrArg (List.length ∘ S3RefreshableHTTPParams.extraHeaders)
    (hsame.trans hshifted.httpParams)
  simp at hlength

theorem of_target {t : Target} (htarget : target context s path = .ok t) :
    path ≠ [] ∧ t.batchKey = createDeleteBatchKey context s t.urlInfo path := by
  unfold target at htarget
  simp only at htarget
  split at htarget
  · cases htarget
  · rename_i parsed hparse
    obtain ⟨authParams, -, hmade⟩ := bind_eq_ok.mp htarget
    cases hmade
    refine ⟨?_, rfl⟩
    rintro rfl
    exact absurd hparse nofun

/-- Two paths with one key have the same parameters, unless a header of one of them is read
as the beginning of the secrets of the other one. -/
theorem sameParameters_iff_not_shifted {t t' : Target} (htypes : TypesAsked context)
    (hlisted : HeadersListed context) (htarget : target context s path = .ok t)
    (htarget' : target context s path' = .ok t') :
    (t.batchKey = t'.batchKey → SameParameters context s path path' t.urlInfo t'.urlInfo) ↔
      ¬ (Shifted context s path path' t.urlInfo t'.urlInfo ∨
        Shifted context s path' path t'.urlInfo t.urlInfo) := by
  obtain ⟨hpath, hkey⟩ := of_target htarget
  obtain ⟨hpath', hkey'⟩ := of_target htarget'
  rw [hkey, hkey']
  constructor
  · rintro hfaithful (hshifted | hshifted)
    · exact not_sameParameters_of_shifted hshifted
        (hfaithful (batchKey_of_shifted htypes hshifted)).httpParams
    · exact not_sameParameters_of_shifted hshifted
        (hfaithful (batchKey_of_shifted htypes hshifted).symm).httpParams.symm
  · intro hnot hsame
    rcases same_or_shifted_of_batchKey hpath hpath' htypes hlisted hsame with hsame | hshifted
    · exact hsame
    · exact absurd hshifted hnot

/-- `s3://b/2` has the header `s3` and a secret named `0`, `s3://b/1` a secret named `s3`. -/
def mixing : DeleteContext Unit where
  reader _ _ := { text _ _ := none, flag _ _ := none, secretText _ := none }
  initializeParameters _ path :=
    if path = bytes "s3://b/2" then { extraHeaders := [(bytes "s3", bytes "5")] } else {}
  parseGetParameters _ := []
  lookupSecret := some fun _ path type =>
    if type ≠ bytes "s3" then none
    else if path = bytes "s3://b/2" then
      some { score := 5, type, provider := bytes "memory", name := bytes "0"
             storageMode := bytes "3", persistType := 0, scope := [bytes "s3://"] }
    else
      some { score := 5, type, provider := bytes "5", name := bytes "s3"
             storageMode := bytes "memory", persistType := 0
             scope := [bytes "0", bytes "1", bytes "s3://"] }
  credentialRefreshEnabled := false
  hasRefreshableS3Secret _ _ := false
  postRequest s _ := (.ok none, s)
  tryRefreshS3AuthParams s _ _ _ := (.ok none, s)
  urlEncode text := text
  iterate batches := batches
  iterate_perm _ := .refl _

theorem mixing_typesAsked : TypesAsked mixing := by
  rintro _ ⟨⟩ s path type found hfound
  simp only [Option.mem_def] at hfound
  split at hfound
  · cases hfound
  · split at hfound
    · cases hfound
      rfl
    · cases hfound
      rfl

theorem mixing_headersListed : HeadersListed mixing := by
  intro s path
  simp only [readRefreshableHTTPParams, mixing, snapshotRefreshableHTTPParams]
  split
  · simp
  · simp

theorem mixing_targets : ∃ t t', target mixing () (bytes "s3://b/1") = .ok t ∧
    target mixing () (bytes "s3://b/2") = .ok t' ∧ t.batchKey = t'.batchKey := by
  refine ⟨_, _, by rfl, by rfl, ?_⟩
  decide +kernel

/-- Paths with different headers and different secrets go into one batch. -/
theorem batch_mixes_secrets : ∃ t t', target mixing () (bytes "s3://b/1") = .ok t ∧
    target mixing () (bytes "s3://b/2") = .ok t' ∧ t.batchKey = t'.batchKey ∧
    ¬ SameParameters mixing () (bytes "s3://b/1") (bytes "s3://b/2") t.urlInfo t'.urlInfo := by
  obtain ⟨t, t', htarget, htarget', hkey⟩ := mixing_targets
  refine ⟨t, t', htarget, htarget', hkey, fun hsame => ?_⟩
  exact absurd hsame.httpParams (by decide +kernel)

theorem sameParameters_iff_not_shifted_mixing :
    ∃ t t' : Target, target mixing () (bytes "s3://b/1") = .ok t ∧
      target mixing () (bytes "s3://b/2") = .ok t' ∧
      ((t.batchKey = t'.batchKey →
        SameParameters mixing () (bytes "s3://b/1") (bytes "s3://b/2") t.urlInfo t'.urlInfo) ↔
      ¬ (Shifted mixing () (bytes "s3://b/1") (bytes "s3://b/2") t.urlInfo t'.urlInfo ∨
        Shifted mixing () (bytes "s3://b/2") (bytes "s3://b/1") t'.urlInfo t.urlInfo)) := by
  obtain ⟨t, t', htarget, htarget', -⟩ := mixing_targets
  exact ⟨t, t', htarget, htarget',
    sameParameters_iff_not_shifted mixing_typesAsked mixing_headersListed htarget htarget'⟩

end HaybarnHttpfs.DeleteBatchKeys
