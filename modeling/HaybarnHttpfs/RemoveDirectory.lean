import HaybarnHttpfs.BulkDelete
import HaybarnHttpfs.GlobTraversal
import Mathlib.Algebra.Order.BigOperators.Group.List
import Mathlib.Algebra.Order.Group.Nat
import Mathlib.Data.List.DropRight

/-!
`S3FileSystem::RemoveDirectory`: what `ListFilesExtended` lists is handed to
`RemoveFiles`. The names of the listing are relative to the directory.
-/

namespace HaybarnHttpfs.RemoveDirectory

open HaybarnHttpfs.Foundation.ByteStrings HaybarnHttpfs.Foundation.Exceptions
open HaybarnHttpfs.Foundation.XmlReader
open HaybarnHttpfs.S3Auth HaybarnHttpfs.S3Url HaybarnHttpfs.ReadAuthParams
open HaybarnHttpfs.ListObjectsV2 HaybarnHttpfs.ListPages HaybarnHttpfs.BucketListing
open HaybarnHttpfs.S3Glob HaybarnHttpfs.GlobUrls HaybarnHttpfs.GlobTraversal
open HaybarnHttpfs.RemoveFiles HaybarnHttpfs.DeleteDocument HaybarnHttpfs.BulkDelete

universe u

structure DirectoryContext (σ : Type u) extends DeleteContext σ where
  globEnv : GlobEnv
  joinPath : Bytes → Bytes → Bytes

inductive DirectoryError where
  | auth (e : AuthReadError)
  | list (e : ListError)
  | outsideBase (directory file basePath : Bytes)
  deriving DecidableEq, Repr

variable {σ : Type u} {context : DirectoryContext σ} {s : σ} {path : Bytes}

/-- `StringUtil::RTrim` with a slash. -/
def rTrim (text : Bytes) : Bytes := text.rdropWhile (· = slash)

def listPattern (context : DirectoryContext σ) (directory : Bytes) : Bytes :=
  context.joinPath (rTrim directory) doubleStar

def listAuthParams (context : DirectoryContext σ) (s : σ) (directory : Bytes) : S3AuthParams :=
  readFrom (context.reader s (listPattern context directory)) (listPattern context directory)

def globFilesExtended (context : DirectoryContext σ) (s : σ) (directory : Bytes) :
    Except AuthReadError S3GlobResult :=
  newS3GlobResult context.parseGetParameters (listAuthParams context s directory)
    (listPattern context directory)

/-- The file by its path behind the directory. -/
def relativeFile (directory : Bytes) (file : OpenFileInfo) : Except DirectoryError OpenFileInfo :=
  let basePath := rTrim directory ++ [slash]
  if startsWith file.path basePath then
    .ok { file with path := file.path.drop basePath.length }
  else .error (.outsideBase directory file.path basePath)

/-- The files that the callback is given; `fuel` bounds the calls of `ExpandNextPath`. -/
def listFilesExtended (context : DirectoryContext σ) (fuel : Nat) (s : σ) (directory : Bytes) :
    Option (Except DirectoryError (List OpenFileInfo)) :=
  match globFilesExtended context s directory with
  | .error e => some (.error (.auth e))
  | .ok globRes =>
      (expandAll context.globEnv fuel globRes).map fun
        | .error e => .error (.list e)
        | .ok files => files.mapM (relativeFile directory)

def removeDirectory (context : DirectoryContext σ) (fuel : Nat) (path : Bytes) (s : σ) :
    Option (Except DirectoryError (Removed σ)) :=
  (listFilesExtended context fuel s path).map fun
    | .error e => .error e
    | .ok files => .ok (removeFiles context.toDeleteContext (files.map (·.path)) s)

structure Directory where
  bucket : Bytes
  leading : Bytes
  deriving DecidableEq, Repr

/-- The bucket of a path and what the keys behind the path begin with. -/
def directoryOf (params : S3AuthParams) (path : Bytes) : Option Directory :=
  match s3UrlParse (rTrim path ++ [slash]) params with
  | .error _ => none
  | .ok parsed =>
      let key := rTrim parsed.key
      some { bucket := parsed.bucket, leading := if key.isEmpty then [] else key ++ [slash] }

/-- A key below a directory, which no directory marker counts as. -/
def Directory.Has (directory : Directory) (key : Bytes) : Prop :=
  directory.leading <+: key ∧ key.getLast? ≠ some slash

/-- What is stored, and the bucket that a request is addressed to. -/
structure Service where
  buckets : Bytes → Bucket
  addressed : Bytes → Bytes → Option Bytes

/-- One of the requests names the key. -/
def Gone (service : Service) (requests : List DeleteRequest) (bucket key : Bytes) : Prop :=
  ∃ request ∈ requests, service.addressed request.host request.path = some bucket ∧
    ∃ names, readDeletion request.body = some names ∧ key ∈ names

/-- The call returns normally, and of all objects those below the directory are gone. -/
def RemovesExactly (context : DirectoryContext σ) (service : Service) (s : σ) (path : Bytes) :
    Prop :=
  ∃ fuel run directory, removeDirectory context fuel path s = some (.ok run) ∧
    run.result.isOk = true ∧ directoryOf (listAuthParams context s path) path = some directory ∧
    ∀ bucket, ∀ object ∈ (service.buckets bucket).objects,
      (Gone service (requestsOf run) bucket object.key ↔
        bucket = directory.bucket ∧ directory.Has object.key)

/-- Whatever is posted is answered without an error. -/
def Posts (deletion : DeleteContext σ) : Prop :=
  ∀ s request, ∃ response t,
    deletion.postRequest s request = (.ok (some response), t) ∧ checkResponse response = .ok ()

/-- The listings tell what is stored, no request fails, and a path is joined with a slash. -/
structure Answers (context : DirectoryContext σ) (encoding : PageEncoding context.globEnv.core)
    (service : Service) : Prop where
  listing : ∀ bucket,
    Conforms encoding context.globEnv.server bucket (service.buckets bucket).objects
  decoding : DecodesPlainText context.globEnv.core
  deletion : Posts context.toDeleteContext
  joinPath : ∀ first second, context.joinPath first second =
    if first = [] then second else first ++ slash :: second

/-- Nothing matches the pattern that the listing asks for, and nothing is below the
directory. -/
def NothingToRemove (context : DirectoryContext σ) (service : Service) (s : σ) (path : Bytes) :
    Prop :=
  ∃ globRes directory, globFilesExtended context s path = .ok globRes ∧
    Traverses context.globEnv globRes (service.buckets globRes.parsedS3Url.bucket) ∧
    (∀ object ∈ (service.buckets globRes.parsedS3Url.bucket).objects,
      matchesPattern context.globEnv.core globRes.parsedS3Url.key object.key = false) ∧
    directoryOf (listAuthParams context s path) path = some directory ∧
    ∀ object ∈ (service.buckets directory.bucket).objects, ¬ directory.Has object.key

/-- The wildcards of the path stand in front of its query string, where `**` is joined to. -/
def Queried (context : DirectoryContext σ) (s : σ) (path : Bytes) : Prop :=
  ∃ globRes, globFilesExtended context s path = .ok globRes ∧ globRes.finished = false ∧
    globRes.parsedS3Url.queryParam ≠ []

section Requests

variable {deletion : DeleteContext σ} {paths : List Bytes}

theorem status_of_checkResponse {response : HTTPExchange.HTTPResponse}
    (hcheck : checkResponse response = .ok ()) : response.status = 200 := by
  unfold checkResponse at hcheck
  split at hcheck
  · cases hcheck
  · rename_i hstatus
    exact not_not.mp hstatus

theorem sendRequest_succeeds (hposts : Posts deletion) (lookupUrl body : Bytes) (retries : Nat)
    (authParams : S3AuthParams) (s : σ) :
    ∀ exchange ∈ (sendRequest deletion lookupUrl body retries authParams s).exchanges,
      Succeeded exchange := by
  unfold sendRequest
  cases hrequest : deleteRequest deletion authParams lookupUrl body with
  | error e => simp
  | ok request =>
      obtain ⟨response, t, hposted, hcheck⟩ := hposts s request
      have hstatus := status_of_checkResponse hcheck
      have hsucceeded : Succeeded { request, response := .ok (some response) } := hstatus
      simp only [hposted]
      cases retries with
      | zero => simpa using hsucceeded
      | succ retries => simpa [isAuthRefreshFailure_of_ok hstatus] using hsucceeded

theorem removeBatch_succeeds (hposts : Posts deletion) (batch : S3DeleteBatch) (i left : Nat)
    (authParams : S3AuthParams) (s : σ) :
    ∀ exchange ∈ (removeBatch deletion batch i left authParams s).exchanges,
      Succeeded exchange := by
  induction left generalizing i authParams s with
  | zero => exact nofun
  | succ left ih =>
      unfold removeBatch
      simp only
      have hsent := sendRequest_succeeds hposts
        ((batch.secretLookupPaths.drop (i * maxKeysPerRequest)).headD [])
        (xmlBody (Foundation.Blocks.block maxKeysPerRequest batch.keys i)) 1 authParams s
      generalize sendRequest deletion
        ((batch.secretLookupPaths.drop (i * maxKeysPerRequest)).headD [])
        (xmlBody (Foundation.Blocks.block maxKeysPerRequest batch.keys i)) 1 authParams s =
          sent at hsent ⊢
      split
      · exact hsent
      · split
        · exact hsent
        · exact List.forall_mem_append.mpr ⟨hsent, ih _ _ _⟩

theorem removeBatches_succeeds (hposts : Posts deletion) (batches : List S3DeleteBatch) (s : σ) :
    ∀ exchange ∈ (removeBatches deletion batches s).exchanges, Succeeded exchange := by
  induction batches generalizing s with
  | nil => exact nofun
  | cons batch batches ih =>
      unfold removeBatches
      simp only
      have hfirst := removeBatch_succeeds hposts batch 0 (requestCount batch)
        batch.urlInfo.authParams s
      split
      · exact hfirst
      · exact List.forall_mem_append.mpr ⟨hfirst, ih _⟩

theorem allSucceed_of_posts (hposts : Posts deletion)
    (hisOk : (removeFiles deletion paths s).result.isOk = true) :
    AllSucceed (removeFiles deletion paths s) := by
  refine ⟨hisOk, ?_⟩
  unfold removeFiles
  split
  · exact nofun
  · exact removeBatches_succeeds hposts _ s

theorem removeFiles_nil (deletion : DeleteContext σ) (s : σ) :
    removeFiles deletion [] s = { result := .ok (), exchanges := [], state := s } := by
  have hnone : deletion.iterate [] = [] := List.perm_nil.mp (deletion.iterate_perm [])
  simp [removeFiles, collect, hnone, removeBatches]

theorem removeFiles_doubleStar (deletion : DeleteContext σ) (s : σ) :
    (removeFiles deletion [doubleStar] s).result.isOk = false := by
  have hrefused : ∀ params, s3UrlParse doubleStar params = .error .unknownPrefix := fun _ => rfl
  simp [removeFiles, collect, target, hrefused, throw, throwThe,
    MonadExceptOf.throw, Except.isOk, Except.toBool]

/-- The keys that the requests name. -/
def namesOf (requests : List DeleteRequest) : List Bytes :=
  requests.flatMap fun request => (readDeletion request.body).getD []

theorem mem_namesOf_of_gone {service : Service} {requests : List DeleteRequest}
    {bucket key : Bytes} (hgone : Gone service requests bucket key) : key ∈ namesOf requests := by
  obtain ⟨request, hrequest, -, names, hnames, hkey⟩ := hgone
  refine List.mem_flatMap.mpr ⟨request, hrequest, ?_⟩
  rwa [hnames]

theorem weight_namesOf {requests : List DeleteRequest} {parts : List (List Bytes × List Bytes)}
    (hcarries : List.Forall₂ (Carries deletion s) requests parts) :
    ((namesOf requests).map keyWeight).sum ≤ ((parts.flatMap Prod.fst).map keyWeight).sum := by
  induction hcarries with
  | nil => exact Nat.le_refl _
  | @cons request part requests parts hfirst _ ih =>
      have hpart : (((readDeletion request.body).getD []).map keyWeight).sum ≤
          (part.1.map keyWeight).sum := by
        cases hnames : readDeletion request.body with
        | none => exact Nat.zero_le _
        | some names =>
            rw [hfirst.body] at hnames
            exact (readBack_of_readDeletion hnames).weight
      rw [namesOf, List.flatMap_cons, ← namesOf, List.flatMap_cons, List.map_append,
        List.map_append, List.sum_append, List.sum_append]
      exact Nat.add_le_add hpart ih

end Requests

theorem rTrim_concat (text : Bytes) : rTrim (text ++ [slash]) = rTrim text :=
  List.rdropWhile_concat_pos _ _ _ (by simp)

theorem rTrim_ne_concat (text front : Bytes) : rTrim text ≠ front ++ [slash] := by
  intro heq
  have htwice : rTrim (rTrim text) = rTrim text := List.rdropWhile_idempotent _ _
  rw [heq, rTrim_concat] at htwice
  have hlength := (List.rdropWhile_prefix (fun c => decide (c = slash)) front).length_le
  change (rTrim front).length ≤ _ at hlength
  rw [htwice, List.length_append, List.length_singleton] at hlength
  omega

theorem rTrim_eq_self {text : Bytes} (hkept : ∀ front, text ≠ front ++ [slash]) :
    rTrim text = text := by
  refine List.rdropWhile_eq_self_iff.mpr fun hne hlast => ?_
  have hslash : text.getLast hne = slash := by simpa using hlast
  exact hkept text.dropLast (by rw [← hslash, List.dropLast_append_getLast])

theorem slash_not_mem_doubleStar : slash ∉ doubleStar := by decide

theorem questionMark_not_mem_of_unqueried {params : S3AuthParams} {front : Bytes} (slashPos : Nat)
    (hcompat : params.s3UrlCompatibilityMode = false)
    (hquery : (splitQuery params (front ++ doubleStar) slashPos).2.1 = []) :
    questionMark ∉ front ++ doubleStar := by
  intro hmem
  have hstars : questionMark ∉ doubleStar := by decide
  obtain ⟨first, rest, rfl, hfirst⟩ :=
    exists_split_of_mem ((List.mem_append.mp hmem).resolve_right hstars)
  unfold splitQuery at hquery
  rw [List.append_assoc, List.cons_append, findFirstOf_append hfirst] at hquery
  simp only [hcompat, Bool.false_eq_true, if_false] at hquery
  rw [← List.drop_drop, List.drop_left, List.drop_one, List.tail_cons] at hquery
  exact absurd hquery (by simp [doubleStar, bytes])

theorem exists_leading {text before key : Bytes}
    (hpattern : text ++ slash :: doubleStar = before ++ slash :: key) :
    ∃ leading, text ++ [slash] = before ++ slash :: leading ∧ key = leading ++ doubleStar := by
  have hparts : text ++ [slash] ++ doubleStar = before ++ [slash] ++ key := by
    simpa using hpattern
  rcases List.append_eq_append_iff.mp hparts with ⟨more, hmore, hstars⟩ | ⟨leading, hbase, hkey⟩
  · rcases List.eq_nil_or_concat' more with rfl | ⟨front, last, rfl⟩
    · exact ⟨[], by simpa using hmore.symm, by simpa using hstars.symm⟩
    · rw [← List.append_assoc] at hmore
      obtain ⟨-, hlast⟩ := List.append_inj' hmore rfl
      refine absurd ?_ slash_not_mem_doubleStar
      rw [hstars, List.singleton_inj.mp hlast]
      simp
  · exact ⟨leading, by simpa using hbase, hkey⟩

theorem directoryOf_parts {params : S3AuthParams} {scheme bucket leading : Bytes}
    (hcompat : params.s3UrlCompatibilityMode = false)
    (hbase : rTrim path ++ [slash] = scheme ++ bucket ++ slash :: leading)
    (hscheme : lower scheme ∈ prefixes) (hbucket : bucket ≠ []) (hslash : slash ∉ bucket)
    (hquestion : questionMark ∉ rTrim path ++ [slash]) :
    directoryOf params path = some { bucket, leading } := by
  rw [hbase, List.mem_append, List.mem_cons, not_or, not_or] at hquestion
  have hplain := splitQuery_plain hcompat hquestion.1 hquestion.2.2
  obtain ⟨parsed, hparse, rfl, hkey, -⟩ :=
    s3UrlParse_append hscheme hbucket hslash (by rw [hplain]; exact List.cons_ne_nil _ _)
  rw [hplain] at hkey
  unfold directoryOf
  rw [hbase, hparse]
  simp only [hkey, List.drop_one, List.tail_cons, Option.some.injEq, Directory.mk.injEq, true_and]
  rcases List.eq_nil_or_concat' leading with rfl | ⟨front, last, rfl⟩
  · rfl
  · rw [← List.cons_append, ← List.append_assoc] at hbase
    obtain ⟨htrimmed, hlast⟩ := List.append_inj' hbase rfl
    obtain rfl := List.singleton_inj.mp hlast
    have hkept : rTrim front = front := by
      refine rTrim_eq_self fun inner hinner => ?_
      refine rTrim_ne_concat path (scheme ++ parsed.bucket ++ slash :: inner) ?_
      rw [htrimmed, hinner]
      simp
    have hne : front ≠ [] := by
      rintro rfl
      exact rTrim_ne_concat path _ htrimmed
    rw [rTrim_concat, hkept, if_neg (by simpa using hne)]

theorem directory_of_unqueried {params : S3AuthParams} {g : S3GlobResult}
    (hopen : Open params (rTrim path ++ slash :: doubleStar) g)
    (hquery : g.parsedS3Url.queryParam = []) :
    ∃ scheme leading, rTrim path ++ [slash] =
        scheme ++ g.parsedS3Url.bucket ++ slash :: leading ∧
      lower scheme ∈ prefixes ∧ g.parsedS3Url.key = leading ++ doubleStar ∧
      directoryOf params path = some { bucket := g.parsedS3Url.bucket, leading } := by
  obtain ⟨scheme, rest, hurl, hscheme, hprefixes, hbucket, hslash, hsplit⟩ :=
    s3UrlParse_parts hopen.parse
  rw [← hscheme] at hprefixes
  obtain ⟨leading, hbase, hrest⟩ := exists_leading hurl
  have hwritten : rTrim path ++ slash :: doubleStar = rTrim path ++ [slash] ++ doubleStar := by
    simp
  have hquestion : questionMark ∉ rTrim path ++ [slash] ++ doubleStar := by
    refine questionMark_not_mem_of_unqueried (scheme ++ g.parsedS3Url.bucket).length
      hopen.compatibility ?_
    rw [← hwritten, hsplit, hquery]
  refine ⟨scheme, leading, hbase, hprefixes, ?_, directoryOf_parts hopen.compatibility hbase
    hprefixes hbucket hslash fun hmem => hquestion (List.mem_append_left _ hmem)⟩
  rw [← hwritten, hurl, List.mem_append, List.mem_cons, not_or, not_or] at hquestion
  rw [hurl, splitQuery_plain hopen.compatibility hquestion.1 hquestion.2.2] at hsplit
  rw [← hrest]
  exact (List.tail_eq_of_cons_eq (congrArg Prod.fst hsplit)).symm

theorem find_doubleStar (front : Bytes) :
    (find doubleStar (front ++ doubleStar)).isNone = false := by
  induction front with
  | nil => rfl
  | cons c front ih =>
      rw [List.cons_append, find]
      split
      · rfl
      · rwa [Option.isNone_map]

theorem requested_of_expandAll {env : GlobEnv} {g : S3GlobResult} {params : S3AuthParams}
    {pattern : Bytes} {fuel : Nat} {files : List OpenFileInfo} (hopen : Open params pattern g)
    (hrun : expandAll env fuel g = some (.ok files)) :
    ∃ shared, s3UrlParse g.sharedPath g.s3AuthParams = .ok shared := by
  cases hshared : s3UrlParse g.sharedPath g.s3AuthParams with
  | ok shared => exact ⟨shared, rfl⟩
  | error e =>
      have hrefused : expandNextPath env (topLevel g .unknown [] []) = .error (.url e) := by
        simp [expandNextPath, topLevel, scanTopLevel, request, hshared, bind, Except.bind]
      cases fuel with
      | zero => cases hrun
      | succ fuel =>
          rw [hopen.fresh, expandAll, hrefused] at hrun
          cases hrun

theorem paths_of_mapM {files relative : List OpenFileInfo}
    (hrelative : files.mapM (relativeFile path) = .ok relative) :
    files.map (·.path) = relative.map fun file => rTrim path ++ [slash] ++ file.path := by
  induction files generalizing relative with
  | nil =>
      cases hrelative
      rfl
  | cons file files ih =>
      rw [List.mapM_cons] at hrelative
      obtain ⟨first, hfirst, hothers⟩ := bind_eq_ok.mp hrelative
      obtain ⟨rest, hrest, hmade⟩ := bind_eq_ok.mp hothers
      cases hmade
      unfold relativeFile at hfirst
      simp only at hfirst
      split at hfirst
      · rename_i hstarts
        cases hfirst
        obtain ⟨behind, hbehind⟩ := List.isPrefixOf_iff_prefix.mp hstarts
        rw [List.map_cons, List.map_cons, ih hrest, ← hbehind, List.drop_left]
      · cases hfirst

theorem keyWeight_of_keyOf {deletion : DeleteContext σ} {key : Bytes}
    (hkey : keyOf deletion s path = some key) : keyWeight key < keyWeight path := by
  unfold keyOf objectOf at hkey
  split at hkey
  · cases hkey
  rename_i authParams hauth
  split at hkey
  · cases hkey
  rename_i parsed hparse
  obtain rfl : parsed.key = key := Option.some.inj hkey
  obtain ⟨scheme, rest, hurl, -, -, -, -, hsplit⟩ := s3UrlParse_parts hparse
  have hrest : path.drop (scheme ++ parsed.bucket).length = slash :: rest := by
    rw [hurl, List.drop_left]
  obtain ⟨key, hsplitKey, more, hmore⟩ :=
    (splitQuery_key authParams hrest).resolve_left (by rw [hsplit]; exact List.cons_ne_nil _ _)
  rw [hsplit] at hsplitKey
  obtain rfl : parsed.key = key := List.tail_eq_of_cons_eq hsplitKey
  have hpositive := weight_pos slash
  rw [keyWeight, keyWeight, hurl, weight_append, weight_cons, ← hmore, weight_append parsed.key]
  omega

theorem keyWeights_of_keyOf {deletion : DeleteContext σ} {keys paths : List Bytes}
    (hkeys : keys.map some = paths.map (keyOf deletion s)) :
    (keys.map keyWeight).sum + paths.length ≤ (paths.map keyWeight).sum := by
  induction paths generalizing keys with
  | nil =>
      obtain rfl : keys = [] := by simpa using hkeys
      exact Nat.le_refl _
  | cons path paths ih =>
      cases keys with
      | nil => cases hkeys
      | cons key keys =>
          rw [List.map_cons, List.map_cons, List.cons.injEq] at hkeys
          have hfirst := keyWeight_of_keyOf hkeys.1.symm
          have hrest := ih hkeys.2
          rw [List.map_cons, List.map_cons, List.sum_cons, List.sum_cons, List.length_cons]
          omega

/-- Names that are relative to a directory take less space than the keys that they are
to delete, so they name other keys. -/
theorem nil_of_gone {deletion : DeleteContext σ} {service : Service} {leading bucket : Bytes}
    {names : List Bytes} (hrun : AllSucceed (removeFiles deletion names s))
    (hnodup : (names.map (leading ++ ·)).Nodup)
    (hgone : ∀ key ∈ names.map (leading ++ ·),
      Gone service (requestsOf (removeFiles deletion names s)) bucket key) : names = [] := by
  obtain ⟨parts, hcarries, hpaths, -⟩ := carries_of_allSucceed hrun
  have hnamed : (names.map (leading ++ ·)).Subperm
      (namesOf (requestsOf (removeFiles deletion names s))) :=
    List.Nodup.subperm hnodup fun key hkey => mem_namesOf_of_gone (hgone key hkey)
  obtain ⟨listed, hperm, hlisted⟩ := hnamed
  have hsub := (hlisted.map keyWeight).sum_le_sum fun _ _ => Nat.zero_le _
  rw [(hperm.map keyWeight).sum_nat] at hsub
  have hsent := weight_namesOf hcarries
  have hshorter := keyWeights_of_keyOf (keys_of_carries hcarries)
  rw [(hpaths.map keyWeight).sum_nat, hpaths.length_eq] at hshorter
  have hlonger : (names.map keyWeight).sum ≤ ((names.map (leading ++ ·)).map keyWeight).sum := by
    rw [List.map_map]
    refine List.sum_le_sum fun name _ => ?_
    simp only [Function.comp, keyWeight, weight_append]
    omega
  exact List.eq_nil_of_length_eq_zero (by omega)

theorem listFilesExtended_unique {fuel fuel' : Nat}
    {result result' : Except DirectoryError (List OpenFileInfo)}
    (hlist : listFilesExtended context fuel s path = some result)
    (hlist' : listFilesExtended context fuel' s path = some result') : result = result' := by
  unfold listFilesExtended at hlist hlist'
  cases hglob : globFilesExtended context s path with
  | error e =>
      rw [hglob] at hlist hlist'
      exact Option.some.inj (hlist.symm.trans hlist')
  | ok globRes =>
      rw [hglob] at hlist hlist'
      obtain ⟨files, hcalls, rfl⟩ := Option.map_eq_some_iff.mp hlist
      obtain ⟨files', hcalls', rfl⟩ := Option.map_eq_some_iff.mp hlist'
      rw [expandAll_unique hcalls hcalls']

theorem listFilesExtended_cases {fuel : Nat} {relative : List OpenFileInfo}
    (hlist : listFilesExtended context fuel s path = some (.ok relative)) :
    ∃ globRes files, globFilesExtended context s path = .ok globRes ∧
      expandAll context.globEnv fuel globRes = some (.ok files) ∧
      files.mapM (relativeFile path) = .ok relative := by
  unfold listFilesExtended at hlist
  cases hglob : globFilesExtended context s path with
  | error e => simp [hglob] at hlist
  | ok globRes =>
      simp only [hglob] at hlist
      obtain ⟨result, hcalls, hresult⟩ := Option.map_eq_some_iff.mp hlist
      cases result with
      | error e => cases hresult
      | ok files => exact ⟨globRes, files, rfl, hcalls, hresult⟩

theorem removeDirectory_cases {fuel : Nat} {run : Removed σ}
    (hremove : removeDirectory context fuel path s = some (.ok run)) :
    ∃ globRes files relative, globFilesExtended context s path = .ok globRes ∧
      expandAll context.globEnv fuel globRes = some (.ok files) ∧
      files.mapM (relativeFile path) = .ok relative ∧
      run = removeFiles context.toDeleteContext (relative.map (·.path)) s := by
  unfold removeDirectory at hremove
  obtain ⟨result, hlist, hresult⟩ := Option.map_eq_some_iff.mp hremove
  cases result with
  | error e => cases hresult
  | ok relative =>
      obtain ⟨globRes, files, hglob, hcalls, hrelative⟩ := listFilesExtended_cases hlist
      cases hresult
      exact ⟨globRes, files, relative, hglob, hcalls, hrelative, rfl⟩

theorem listPattern_eq (hjoin : ∀ first second, context.joinPath first second =
      if first = [] then second else first ++ slash :: second) (path : Bytes) :
    listPattern context path = doubleStar ∨
      listPattern context path = rTrim path ++ slash :: doubleStar := by
  unfold listPattern
  rw [hjoin]
  split
  · exact .inl rfl
  · exact .inr rfl

theorem files_of_finished {env : GlobEnv} {g : S3GlobResult} {fuel : Nat}
    {files : List OpenFileInfo}
    (hfinished : g.finished = true) (hcalls : expandAll env fuel g = some (.ok files)) :
    files = g.expandedFiles := by
  have hcall : expandAll env 1 g = some (.ok g.expandedFiles) := by
    simp [expandAll, expandNextPath, hfinished]
  exact Except.ok.inj (expandAll_unique hcalls hcall)

theorem names_of_single {files relative : List OpenFileInfo}
    (hjoin : ∀ first second, context.joinPath first second =
      if first = [] then second else first ++ slash :: second)
    (hfiles : files = [{ path := listPattern context path }])
    (hrelative : files.mapM (relativeFile path) = .ok relative) :
    relative.map (·.path) = [doubleStar] := by
  have hpaths := paths_of_mapM hrelative
  subst hfiles
  rw [List.map_singleton] at hpaths
  obtain ⟨file, rfl, hfile⟩ := List.map_eq_singleton_iff.mp hpaths.symm
  change rTrim path ++ [slash] ++ file.path = listPattern context path at hfile
  rcases listPattern_eq hjoin path with hpattern | hpattern
  · refine absurd ?_ slash_not_mem_doubleStar
    rw [← hpattern, ← hfile]
    simp
  · have hname : file.path = doubleStar := by
      rw [hpattern, List.append_assoc] at hfile
      exact List.cons.inj (List.append_cancel_left hfile) |>.2
    rw [List.map_singleton, hname]

theorem not_isOk_of_single {files relative : List OpenFileInfo} (deletion : DeleteContext σ)
    (hjoin : ∀ first second, context.joinPath first second =
      if first = [] then second else first ++ slash :: second)
    (hfiles : files = [{ path := listPattern context path }])
    (hrelative : files.mapM (relativeFile path) = .ok relative) :
    (removeFiles deletion (relative.map (·.path)) s).result.isOk = false := by
  rw [names_of_single hjoin hfiles hrelative]
  exact removeFiles_doubleStar deletion s

theorem resultFullUrl_of_unqueried {glob : ParsedS3Url} (hquery : glob.queryParam = [])
    (key : Bytes) :
    resultFullUrl glob key = glob.urlPrefix ++ glob.bucket ++ slash :: key := by
  simp [resultFullUrl, hquery]

/-- The keys of the files of a listing without a query: each is the directory with the name
that the callback is given. -/
theorem keys_of_names {scheme leading : Bytes} {glob : ParsedS3Url} {relative : List OpenFileInfo}
    {keys : List Bytes} (hglob : glob.urlPrefix ∈ prefixes) (hslash : slash ∉ glob.bucket)
    (hbase : rTrim path ++ [slash] = scheme ++ glob.bucket ++ slash :: leading)
    (hscheme : lower scheme ∈ prefixes) (hquery : glob.queryParam = [])
    (hpaths : (relative.map fun file => rTrim path ++ [slash] ++ file.path).Perm
      (keys.map (resultFullUrl glob))) :
    ((relative.map (·.path)).map (leading ++ ·)).Perm keys := by
  cases hrelative : relative with
  | nil =>
      rw [hrelative, List.map_nil] at hpaths
      rw [List.map_eq_nil_iff.mp (List.nil_perm.mp hpaths)]
      exact List.Perm.refl _
  | cons file rest =>
      have hsame : scheme = glob.urlPrefix := by
        have hfirst : rTrim path ++ [slash] ++ file.path ∈ keys.map (resultFullUrl glob) := by
          rw [← hpaths.mem_iff, hrelative]
          exact List.mem_cons_self
        obtain ⟨key, -, hkey⟩ := List.mem_map.mp hfirst
        rw [resultFullUrl_of_unqueried hquery, hbase,
          List.append_assoc _ (slash :: leading)] at hkey
        exact (scheme_unique (lower_mem_prefixes hglob) hscheme hslash hslash hkey).1.symm
      have hurls : (relative.map fun file => rTrim path ++ [slash] ++ file.path) =
          ((relative.map (·.path)).map (leading ++ ·)).map (resultFullUrl glob) := by
        rw [List.map_map, List.map_map]
        refine List.map_congr_left fun file _ => ?_
        simp only [Function.comp, resultFullUrl_of_unqueried hquery, hbase, hsame]
        simp
      rw [hurls, List.map_perm_map_iff (resultFullUrl_injective glob)] at hpaths
      rwa [← hrelative]

variable {encoding : PageEncoding context.globEnv.core} {service : Service}

theorem nothingToRemove_of_removesExactly (hanswers : Answers context encoding service)
    (hexact : RemovesExactly context service s path) :
    NothingToRemove context service s path ∨ Queried context s path := by
  obtain ⟨fuel, run, directory, hremove, hisOk, hdirectory, hobjects⟩ := hexact
  obtain ⟨globRes, files, relative, hglob, hcalls, hrelative, rfl⟩ :=
    removeDirectory_cases hremove
  rcases newS3GlobResult_cases hglob with ⟨hfinished, hsingle⟩ | ⟨hfinished, hopen⟩
  · refine absurd hisOk ?_
    have hfiles : files = [{ path := listPattern context path }] :=
      (files_of_finished hfinished hcalls).trans hsingle
    rw [not_isOk_of_single _ hanswers.joinPath hfiles hrelative]
    exact Bool.false_ne_true
  by_cases hquery : globRes.parsedS3Url.queryParam = []
  · left
    have hparse := hopen.parse
    have hparsed := parsed_of_s3UrlParse hopen.compatibility hparse
    rcases listPattern_eq hanswers.joinPath path with hpattern | hpattern
    · rw [hpattern] at hparse
      cases hparse
    obtain ⟨scheme, leading, hbase, hscheme, hkey, hown⟩ :=
      directory_of_unqueried (hpattern ▸ hopen) hquery
    obtain rfl : _ = directory := Option.some.inj (hown.symm.trans hdirectory)
    have htraverses : Traverses context.globEnv globRes
        (service.buckets globRes.parsedS3Url.bucket) := by
      refine ⟨hfinished, requested_of_expandAll hopen hcalls, fun hinvestigates => ?_⟩
      rw [investigates, hkey, find_doubleStar] at hinvestigates
      cases hinvestigates
    obtain ⟨fuel', files', hcalls', hpaths⟩ := paths_of_traverses hanswers.decoding hglob
      (hanswers.listing _) htraverses
    obtain rfl : files = files' := Except.ok.inj (expandAll_unique hcalls hcalls')
    rw [paths_of_mapM hrelative] at hpaths
    have hkeys := keys_of_names hparsed.urlPrefix hparsed.slash hbase hscheme hquery hpaths
    have hgone : ∀ key ∈ (relative.map (·.path)).map (leading ++ ·), Gone service
        (requestsOf (removeFiles context.toDeleteContext (relative.map (·.path)) s))
        globRes.parsedS3Url.bucket key := by
      intro key hmem
      obtain ⟨hstored, hmatch⟩ := List.mem_filter.mp (hkeys.subset hmem)
      obtain ⟨object, hobject, rfl⟩ := List.mem_map.mp hstored
      obtain ⟨name, -, hname⟩ := List.mem_map.mp hmem
      refine (hobjects _ object hobject).mpr ⟨rfl, ⟨name, hname⟩, ?_⟩
      simp only [matchesPattern, Bool.and_eq_true, decide_eq_true_eq] at hmatch
      exact hmatch.2.1
    have hnone := nil_of_gone (allSucceed_of_posts hanswers.deletion hisOk)
      (hkeys.nodup_iff.mpr ((service.buckets _).keys_nodup.filter _)) hgone
    rw [hnone, List.map_nil] at hkeys
    refine ⟨globRes, _, hglob, htraverses, fun object hobject => ?_, hown,
      fun object hobject hhas => ?_⟩
    · have hunmatched := List.filter_eq_nil_iff.mp (List.nil_perm.mp hkeys) object.key
        (List.mem_map_of_mem hobject)
      simpa using hunmatched
    · obtain ⟨request, hrequest, -⟩ := (hobjects _ object hobject).mpr ⟨rfl, hhas⟩
      rw [hnone, removeFiles_nil] at hrequest
      cases hrequest
  · exact .inr ⟨globRes, hglob, hfinished, hquery⟩

theorem removesExactly_of_nothingToRemove (hanswers : Answers context encoding service)
    (hnothing : NothingToRemove context service s path) :
    RemovesExactly context service s path := by
  obtain ⟨globRes, directory, hglob, htraverses, hunmatched, hdirectory, hempty⟩ := hnothing
  obtain ⟨fuel, files, hcalls, hpaths⟩ := paths_of_traverses hanswers.decoding hglob
    (hanswers.listing _) htraverses
  have hkeys : ((service.buckets globRes.parsedS3Url.bucket).objects.map (·.key)).filter
      (matchesPattern context.globEnv.core globRes.parsedS3Url.key) = [] := by
    refine List.filter_eq_nil_iff.mpr fun key hkey => ?_
    obtain ⟨object, hobject, rfl⟩ := List.mem_map.mp hkey
    rw [hunmatched object hobject]
    exact Bool.false_ne_true
  rw [hkeys, List.map_nil] at hpaths
  obtain rfl : files = [] := List.map_eq_nil_iff.mp (List.perm_nil.mp hpaths)
  have hremove : removeDirectory context fuel path s =
      some (.ok (removeFiles context.toDeleteContext [] s)) := by
    simp [removeDirectory, listFilesExtended, hglob, hcalls, pure, Except.pure]
  rw [removeFiles_nil] at hremove
  refine ⟨fuel, _, directory, hremove, rfl, hdirectory, fun bucket object hobject => ?_⟩
  constructor
  · rintro ⟨request, hrequest, -⟩
    cases hrequest
  · rintro ⟨rfl, hhas⟩
    exact absurd hhas (hempty object hobject)

/-- `RemoveDirectory` hands names without a bucket to `RemoveFiles`: it removes a directory
exactly if there is nothing to remove. -/
theorem removesExactly_iff_nothingToRemove (hanswers : Answers context encoding service) :
    (NothingToRemove context service s path → RemovesExactly context service s path) ∧
      (RemovesExactly context service s path →
        NothingToRemove context service s path ∨ Queried context s path) :=
  ⟨removesExactly_of_nothingToRemove hanswers, nothingToRemove_of_removesExactly hanswers⟩

def oneFile : Bucket where
  objects := [{ key := bytes "d/x", nonempty := by decide }]
  keys_nodup := by decide

/-- A service of which every bucket has one file in the directory `d`. -/
def oneFileService : Service where
  buckets _ := oneFile
  addressed _ _ := some (bytes "b")

def oneFileContext : DirectoryContext Unit where
  toDeleteContext := plainContext
  globEnv := { core := percentCore, server := pagedServer 1000 oneFile.objects }
  joinPath first second := if first = [] then second else first ++ slash :: second

theorem oneFile_answers : Answers oneFileContext percentEncoding oneFileService where
  listing _ := pagedServer_conforms (by decide) _ _
  decoding := percentCore_decodes
  deletion _ _ := ⟨_, _, rfl, rfl⟩
  joinPath _ _ := rfl

def oneFileGlob (directory : Bytes) : S3GlobResult :=
  { s3AuthParams := { endpoint := bytes "s3.amazonaws.com" }
    sharedPath := bytes "s3://b/" ++ directory
    parsedS3Url := { plainGlob with
      host := bytes "b.s3.amazonaws.com", key := directory ++ doubleStar
      path := slash :: (directory ++ doubleStar)
      trimmedS3Url := bytes "s3://b/" ++ directory ++ doubleStar } }

theorem oneFile_globs :
    globFilesExtended oneFileContext () (bytes "s3://b/e/") = .ok (oneFileGlob (bytes "e/")) ∧
      globFilesExtended oneFileContext () (bytes "s3://b/d") =
        .ok (oneFileGlob (bytes "d/")) := by
  decide +kernel

theorem removesExactly_iff_nothingToRemove_empty :
    RemovesExactly oneFileContext oneFileService () (bytes "s3://b/e/") := by
  refine (removesExactly_iff_nothingToRemove oneFile_answers).1
    ⟨_, { bucket := bytes "b", leading := bytes "e/" }, oneFile_globs.1, ⟨rfl, ⟨_, rfl⟩, ?_⟩, ?_,
      by decide +kernel, ?_⟩
  · intro hinvestigates
    exact absurd hinvestigates (by decide +kernel)
  · decide +kernel
  · intro object hobject hhas
    obtain rfl := List.mem_singleton.mp hobject
    exact absurd hhas.1 (by decide)

/-- The file `x` of the directory `s3://b/d` is to be removed under this name. -/
theorem relative_name_refused :
    Answers oneFileContext percentEncoding oneFileService ∧
      ¬ RemovesExactly oneFileContext oneFileService () (bytes "s3://b/d") := by
  refine ⟨oneFile_answers, fun hexact => ?_⟩
  rcases nothingToRemove_of_removesExactly oneFile_answers hexact with hnothing | hqueried
  · obtain ⟨-, directory, -, -, -, hdirectory, hempty⟩ := hnothing
    have hd : directoryOf (listAuthParams oneFileContext () (bytes "s3://b/d"))
      (bytes "s3://b/d") = some { bucket := bytes "b", leading := bytes "d/" } := by
      decide +kernel
    obtain rfl := Option.some.inj (hd.symm.trans hdirectory)
    exact hempty _ List.mem_cons_self ⟨by decide, by decide⟩
  · obtain ⟨globRes, hglob, -, hquery⟩ := hqueried
    obtain rfl := Except.ok.inj (oneFile_globs.2.symm.trans hglob)
    exact hquery rfl

end HaybarnHttpfs.RemoveDirectory
