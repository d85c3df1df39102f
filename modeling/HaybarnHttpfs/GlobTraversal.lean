import HaybarnHttpfs.BucketListing
import HaybarnHttpfs.GlobUrls
import HaybarnHttpfs.PathMatching
import HaybarnHttpfs.Foundation.Exceptions
import Mathlib.Data.List.Perm.Subperm

/-!
Whole runs of `ExpandNextPath` against a server that conforms: what is still to come is
accounted for by the pages that are left and by the folders on the stack.
-/

namespace HaybarnHttpfs.GlobTraversal

open HaybarnHttpfs.Foundation.ByteStrings HaybarnHttpfs.Foundation.Exceptions
open HaybarnHttpfs.Foundation.Markup
open HaybarnHttpfs.S3Auth HaybarnHttpfs.S3Url HaybarnHttpfs.ReadAuthParams
open HaybarnHttpfs.ListObjectsV2 HaybarnHttpfs.ListPages HaybarnHttpfs.BucketListing
open HaybarnHttpfs.S3Glob HaybarnHttpfs.GlobUrls HaybarnHttpfs.PathMatching

/-- The calls of `ExpandNextPath` up to the one that returns false, of which there are
less than `fuel`. -/
def expandAll (env : GlobEnv) : Nat → S3GlobResult → Option (Except ListError (List OpenFileInfo))
  | 0, _ => none
  | fuel + 1, g =>
      match expandNextPath env g with
      | .error e => some (.error e)
      | .ok (g, false) => some (.ok g.expandedFiles)
      | .ok (g, true) => expandAll env fuel g

/-- The calls end, and these files are what they add. -/
def Yields (env : GlobEnv) (g : S3GlobResult) (files : List OpenFileInfo) : Prop :=
  ∃ fuel more, expandAll env fuel g = some (.ok (g.expandedFiles ++ more)) ∧ more.Perm files

variable {env : GlobEnv} {encoding : PageEncoding env.core} {origin g g' : S3GlobResult}
  {files new : List OpenFileInfo} {objects : List S3Object}

theorem Yields.step (hcall : expandNextPath env g = .ok (g', true))
    (hnew : g'.expandedFiles = g.expandedFiles ++ new) (hrest : Yields env g' files) :
    Yields env g (new ++ files) := by
  obtain ⟨fuel, more, hrun, hperm⟩ := hrest
  refine ⟨fuel + 1, new ++ more, ?_, hperm.append_left new⟩
  rw [expandAll, hcall]
  simp only
  rw [hrun, hnew, List.append_assoc]

theorem Yields.finished (hfinished : g.finished = true) : Yields env g [] := by
  refine ⟨1, [], ?_, List.Perm.refl _⟩
  simp [expandAll, expandNextPath, hfinished]

theorem Yields.perm {files' : List OpenFileInfo} (hrun : Yields env g files)
    (hperm : files.Perm files') : Yields env g files' := by
  obtain ⟨fuel, more, hrun, hmore⟩ := hrun
  exact ⟨fuel, more, hrun, hmore.trans hperm⟩

theorem expandAll_unique {fuel fuel' : Nat}
    {result result' : Except ListError (List OpenFileInfo)}
    (hrun : expandAll env fuel g = some result) (hrun' : expandAll env fuel' g = some result') :
    result = result' := by
  induction fuel generalizing g fuel' with
  | zero => cases hrun
  | succ fuel ih =>
      cases fuel' with
      | zero => cases hrun'
      | succ fuel' =>
          unfold expandAll at hrun hrun'
          cases hcall : expandNextPath env g with
          | error e =>
              rw [hcall] at hrun hrun'
              exact Option.some.inj (hrun.symm.trans hrun')
          | ok returned =>
              obtain ⟨g', more⟩ := returned
              rw [hcall] at hrun hrun'
              cases more with
              | false => exact Option.some.inj (hrun.symm.trans hrun')
              | true => exact ih hrun hrun'

/-- The files that some objects of a page give. -/
def matched (core : Core) (g : S3GlobResult) (objects : List S3Object) : List OpenFileInfo :=
  expandKeys core g (objects.filterMap fileInfo)

theorem matched_append (objects more : List S3Object) :
    matched env.core g (objects ++ more) =
      matched env.core g objects ++ matched env.core g more := by
  simp [matched, expandKeys]

theorem matched_perm {more : List S3Object} (hperm : objects.Perm more) :
    (matched env.core g objects).Perm (matched env.core g more) :=
  ((hperm.filterMap _).filter _).map _

/-- The text of a token, which is empty if there is none. -/
def tokenText (token : Option Text) : Bytes := token.elim [] Subtype.val

theorem request_answered {server : ListServer} {path token body : Bytes} {delimiter : Bool}
    {params : S3AuthParams} {parsed : ParsedS3Url} (hparse : s3UrlParse path params = .ok parsed)
    (hanswer : server { bucket := parsed.bucket, listPrefix := parsed.key
                        continuationToken := token, useDelimiter := delimiter } = .ok { body }) :
    request server params path token delimiter = .ok (body, params) := by
  simp [request, hparse, hanswer, bind, Except.bind, pure, Except.pure]

/-- A state between two top level requests. -/
def topLevel (origin : S3GlobResult) (globType : GlobType) (token : Bytes)
    (expandedFiles : List OpenFileInfo) : S3GlobResult :=
  { origin with
    finished := false, mainContinuationToken := token, currentCommonPrefix := []
    commonPrefixContinuationToken := [], commonPrefixes := [], globType, expandedFiles }

/-- A state in front of a page of a folder. -/
def inFolder (origin : S3GlobResult) (globType : GlobType) (token current folderToken : Bytes)
    (stack : List Bytes) (expandedFiles : List OpenFileInfo) : S3GlobResult :=
  { origin with
    finished := false, mainContinuationToken := token, currentCommonPrefix := current
    commonPrefixContinuationToken := folderToken, commonPrefixes := stack, globType
    expandedFiles }

/-- The state that a call leaves behind when the next folder is to come from the stack. -/
def next (origin : S3GlobResult) (globType : GlobType) (token : Bytes) (stack : List Bytes)
    (expandedFiles : List OpenFileInfo) : S3GlobResult :=
  let g := popCommonPrefix { topLevel origin globType token expandedFiles with
    commonPrefixes := stack }
  { g with finished := g.mainContinuationToken.isEmpty && g.currentCommonPrefix.isEmpty }

/-- What a call adds to the state that its scan leaves behind. -/
def endCall (core : Core) (g : S3GlobResult) (s3Keys : List OpenFileInfo) : S3GlobResult :=
  { g with
    finished := g.mainContinuationToken.isEmpty && g.currentCommonPrefix.isEmpty
    expandedFiles := g.expandedFiles ++ expandKeys core g s3Keys }

theorem expandNextPath_topLevel {s3Keys : List OpenFileInfo} (hfinished : g.finished = false)
    (hcurrent : g.currentCommonPrefix = []) (hscan : scanTopLevel env g = .ok (g', s3Keys)) :
    expandNextPath env g = .ok (endCall env.core g' s3Keys, true) := by
  simp [expandNextPath, hfinished, hcurrent, hscan, endCall, bind, Except.bind, pure, Except.pure]

theorem expandNextPath_folder {s3Keys : List OpenFileInfo} (hfinished : g.finished = false)
    (hcurrent : g.currentCommonPrefix ≠ []) (hscan : scanCommonPrefix env g = .ok (g', s3Keys)) :
    expandNextPath env g = .ok (endCall env.core g' s3Keys, true) := by
  simp [expandNextPath, hfinished, hcurrent, hscan, endCall, bind, Except.bind, pure, Except.pure]

theorem endCall_pop (globType : GlobType) (token : Bytes) (stack : List Bytes)
    (expandedFiles : List OpenFileInfo) (objects : List S3Object) :
    endCall env.core (popCommonPrefix { topLevel origin globType token expandedFiles with
      commonPrefixes := stack }) (objects.filterMap fileInfo) =
      next origin globType token stack (expandedFiles ++ matched env.core origin objects) := by
  cases hlast : stack.getLast? with
  | none =>
      simp only [endCall, next, popCommonPrefix, hlast]
      rfl
  | some last =>
      simp only [endCall, next, popCommonPrefix, hlast]
      rfl

theorem readPage {core : Core} (encoding : PageEncoding core) {folders : List Bytes}
    {token : Option Text} (page : Page objects folders token) :
    parseFileList core (encoding.renderItems page.items) = .ok (objects.filterMap fileInfo) ∧
      parseCommonPrefix (encoding.renderItems page.items) = .ok (folders.map encoding.encode) ∧
      parseContinuationToken (encoding.renderItems page.items) = .ok (tokenText token) :=
  page_read encoding page

theorem next_of_more {globType : GlobType} {token : Bytes} {expandedFiles : List OpenFileInfo}
    (htoken : token ≠ []) :
    next origin globType token [] expandedFiles =
      topLevel origin globType token expandedFiles := by
  simp [next, popCommonPrefix, topLevel, htoken]

theorem next_expandedFiles (globType : GlobType) (token : Bytes) (stack : List Bytes)
    (expandedFiles : List OpenFileInfo) :
    (next origin globType token stack expandedFiles).expandedFiles = expandedFiles := by
  cases hlast : stack.getLast? with
  | none => simp [next, popCommonPrefix, hlast, topLevel]
  | some last => simp [next, popCommonPrefix, hlast, topLevel]

/-- A page behind which there is another one has at least a hundred files per folder. -/
def foldersAreLarge (core : Core) (answer : Except ListError ListReply) : Bool :=
  match answer with
  | .error _ => false
  | .ok reply =>
      match parseContinuationToken reply.body, parseFileList core reply.body with
      | .ok token, .ok files => !token.isEmpty && manyFilesPerFolder files
      | _, _ => false

theorem foldersAreLarge_page {core : Core} (encoding : PageEncoding core) {folders : List Bytes}
    {token : Option Text} (page : Page objects folders token) :
    foldersAreLarge core (.ok { body := encoding.renderItems page.items }) =
      (!(tokenText token).isEmpty && manyFilesPerFolder (objects.filterMap fileInfo)) := by
  obtain ⟨hfiles, -, htoken⟩ := readPage encoding page
  simp only [foldersAreLarge, htoken, hfiles]

/-- Whether the strategy is still open. -/
def investigates (env : GlobEnv) (g : S3GlobResult) (globType : GlobType) : Bool :=
  (find doubleStar g.parsedS3Url.key).isNone && env.allowS3RecursiveGlobbing &&
    globType = .unknown

section TopLevel

variable {shared : ParsedS3Url} {globType : GlobType} {token : Bytes}
  {expandedFiles : List OpenFileInfo} {nextToken : Option Text} {folders : List Bytes}

theorem listing_page (expandedFiles : List OpenFileInfo)
    (hshared : s3UrlParse origin.sharedPath origin.s3AuthParams = .ok shared)
    (hlisting : globType ≠ .hierarchical) (page : Page objects [] nextToken)
    (hanswer : env.server { bucket := shared.bucket, listPrefix := shared.key
                            continuationToken := token, useDelimiter := false } =
      .ok { body := encoding.renderItems page.items })
    (hstays : investigates env origin globType = true →
      foldersAreLarge env.core (.ok { body := encoding.renderItems page.items }) = false) :
    ∃ globType', globType' ≠ .hierarchical ∧
      (tokenText nextToken ≠ [] → investigates env origin globType' = false) ∧
      expandNextPath env (topLevel origin globType token expandedFiles) =
        .ok (next origin globType' (tokenText nextToken) []
          (expandedFiles ++ matched env.core origin objects), true) := by
  obtain ⟨hfiles, hfolders, htoken⟩ := readPage encoding page
  have hrequest := request_answered hshared hanswer
  have hmode : decide (globType = .hierarchical) = false := decide_eq_false hlisting
  by_cases hopen : investigates env origin globType = true ∧ tokenText nextToken ≠ []
  · have hmany : manyFilesPerFolder (objects.filterMap fileInfo) = false := by
      have hlarge := hstays hopen.1
      rw [foldersAreLarge_page] at hlarge
      simpa [hopen.2] using hlarge
    refine ⟨.listing, by decide, fun _ => by simp [investigates], ?_⟩
    rw [← endCall_pop]
    refine expandNextPath_topLevel rfl rfl ?_
    have hinvestigates := hopen.1
    unfold investigates at hinvestigates
    have hmore : (!(tokenText nextToken).isEmpty) = true := by simp [hopen.2]
    unfold scanTopLevel topLevel
    simp only [List.isEmpty_nil, Bool.not_true, Bool.false_eq_true, if_false, hmode,
      hinvestigates, hrequest, htoken, hmore, Bool.and_true, if_true, hfiles, hmany,
      hfolders, bind, Except.bind, pure, Except.pure]
    rfl
  · have hstay : (investigates env origin globType && !(tokenText nextToken).isEmpty) =
      false := by
      cases hinvestigates : investigates env origin globType with
      | false => rfl
      | true =>
          have hlast : tokenText nextToken = [] := by
            by_contra hmore
            exact hopen ⟨hinvestigates, hmore⟩
          simp [hlast]
    refine ⟨globType, hlisting, fun hmore => ?_, ?_⟩
    · simpa [hmore] using hstay
    · rw [← endCall_pop]
      refine expandNextPath_topLevel rfl rfl ?_
      unfold investigates at hstay
      unfold scanTopLevel topLevel
      simp only [List.isEmpty_nil, Bool.not_true, Bool.false_eq_true, if_false, hmode, hstay,
        hrequest, htoken, hfiles, hfolders, bind, Except.bind, pure, Except.pure]
      rfl

theorem listing_run (hshared : s3UrlParse origin.sharedPath origin.s3AuthParams = .ok shared)
    (hlisting : globType ≠ .hierarchical)
    (hstays : investigates env origin globType = true → foldersAreLarge env.core (env.server {
      bucket := shared.bucket, listPrefix := shared.key, continuationToken := token
      useDelimiter := false }) = false)
    (hpages : Pages encoding (fun continuationToken => env.server {
      bucket := shared.bucket, listPrefix := shared.key, continuationToken
      useDelimiter := false }) token objects folders) (hnone : folders = []) :
    Yields env (topLevel origin globType token expandedFiles)
      (matched env.core origin objects) := by
  induction hpages generalizing globType expandedFiles with
  | last page hanswer =>
      subst hnone
      obtain ⟨globType', -, -, hcall⟩ := listing_page expandedFiles hshared
        hlisting page hanswer (hanswer ▸ hstays)
      have hrun := Yields.step hcall (next_expandedFiles _ _ _ _) (Yields.finished rfl)
      rwa [List.append_nil] at hrun
  | next page hanswer htoken _ ih =>
      obtain ⟨rfl, hmore⟩ := List.append_eq_nil_iff.mp hnone
      obtain ⟨globType', hlisting', hsettled, hcall⟩ := listing_page expandedFiles hshared
        hlisting page hanswer (hanswer ▸ hstays)
      rw [matched_append]
      refine Yields.step hcall (next_expandedFiles _ _ _ _) ?_
      rw [tokenText, Option.elim_some, next_of_more htoken]
      -- after the first page the strategy is settled
      refine ih hlisting' (fun hopen => ?_) hmore
      rw [hsettled htoken] at hopen
      cases hopen

end TopLevel

def percent : UInt8 := 37

/-- `UrlDecode` replaces nothing but plus signs and what begins with a percent sign. -/
structure DecodesPlainText (core : Core) : Prop where
  nil : core.urlDecode [] = []
  append : ∀ text rest, percent ∉ text → plus ∉ text →
    core.urlDecode (text ++ rest) = text ++ core.urlDecode rest

/-- There is another page behind the one that is answered. -/
def hasNextPage (answer : Except ListError ListReply) : Bool :=
  match answer with
  | .error _ => false
  | .ok reply =>
      match parseContinuationToken reply.body with
      | .ok token => !token.isEmpty
      | .error _ => false

theorem encode_ne_nil (hdecode : DecodesPlainText env.core) {folder : Bytes}
    (hfolder : folder ≠ []) :
    encoding.encode folder ≠ [] := by
  intro hencode
  have hread := encoding.decode_encode folder
  rw [hencode, hdecode.nil] at hread
  exact hfolder hread.symm

theorem next_of_folder {globType : GlobType} {token current : Bytes} {stack : List Bytes}
    {expandedFiles : List OpenFileInfo} (hcurrent : current ≠ []) :
    next origin globType token (stack ++ [current]) expandedFiles =
      inFolder origin globType token current [] stack expandedFiles := by
  simp [next, popCommonPrefix, topLevel, inFolder, hcurrent]

/-- The bucket and its parameters let the URL of a folder through as it is. -/
structure KeepsFolders (core : Core) (origin : S3GlobResult) : Prop where
  decodes : DecodesPlainText core
  compatibility : origin.s3AuthParams.s3UrlCompatibilityMode = false
  parsed : Parsed origin.parsedS3Url
  questionMark : questionMark ∉ origin.parsedS3Url.bucket
  percent : percent ∉ origin.parsedS3Url.bucket
  plus : plus ∉ origin.parsedS3Url.bucket

section Folders

variable {globType : GlobType} {token current folder folderToken : Bytes}
  {stack folders : List Bytes} {nextToken : Option Text}

theorem request_folder {body : Bytes} (hkeeps : KeepsFolders env.core origin)
    (hcurrent : env.core.urlDecode current = folder) (hfolder : questionMark ∉ folder)
    (hanswer : env.server { bucket := origin.parsedS3Url.bucket, listPrefix := folder
                            continuationToken := folderToken, useDelimiter := true } =
      .ok { body }) :
    request env.server origin.s3AuthParams (env.core.urlDecode (origin.parsedS3Url.urlPrefix ++
      origin.parsedS3Url.bucket ++ slash :: current)) folderToken true =
        .ok (body, origin.s3AuthParams) := by
  obtain ⟨hdecodes, hcompat, hparsed, hquestion, hpercent, hplus⟩ := hkeeps
  generalize origin.parsedS3Url = glob at hparsed hquestion hpercent hplus hanswer ⊢
  have hbase : percent ∉ glob.urlPrefix ++ glob.bucket ++ [slash] := by
    have hscheme : ∀ scheme ∈ prefixes, percent ∉ scheme := by decide
    have hslash : percent ≠ slash := by decide
    simp [hscheme _ hparsed.urlPrefix, hpercent, hslash]
  have hspaceless : plus ∉ glob.urlPrefix ++ glob.bucket ++ [slash] := by
    have hscheme : ∀ scheme ∈ prefixes, plus ∉ scheme := by decide
    have hslash : plus ≠ slash := by decide
    simp [hscheme _ hparsed.urlPrefix, hplus, hslash]
  have hbefore : questionMark ∉ glob.urlPrefix ++ glob.bucket := by
    simp [questionMark_not_mem_scheme hparsed.urlPrefix, hquestion]
  have hurl : env.core.urlDecode (glob.urlPrefix ++ glob.bucket ++ slash :: current) =
      glob.urlPrefix ++ glob.bucket ++ slash :: folder := by
    have happend := hdecodes.append _ current hbase hspaceless
    rw [hcurrent] at happend
    simpa using happend
  have hsplit := splitQuery_plain hcompat hbefore hfolder
  have hkeyed : (splitQuery origin.s3AuthParams (glob.urlPrefix ++ glob.bucket ++ slash :: folder)
      (glob.urlPrefix ++ glob.bucket).length).1 ≠ [] := by
    rw [hsplit]
    exact List.cons_ne_nil _ _
  obtain ⟨parsed, hparse, hbucket, hkey, -⟩ := s3UrlParse_append
    (lower_mem_prefixes hparsed.urlPrefix) hparsed.bucket hparsed.slash hkeyed
  rw [hsplit] at hkey
  rw [hurl]
  refine request_answered hparse ?_
  rw [hbucket, hkey]
  exact hanswer

theorem folder_pruned (globType : GlobType) (token : Bytes) (stack : List Bytes)
    (expandedFiles : List OpenFileInfo) (hne : current ≠ [])
    (hcurrent : env.core.urlDecode current = folder)
    (hpruned : matchSegments env.core.glob false (split origin.parsedS3Url.key) (split folder) =
      false) :
    expandNextPath env (inFolder origin globType token current [] stack expandedFiles) =
      .ok (next origin globType token stack expandedFiles, true) := by
  have hnone : expandedFiles ++ matched env.core origin [] = expandedFiles := List.append_nil _
  rw [← hnone, ← endCall_pop, hnone]
  refine expandNextPath_folder rfl hne ?_
  unfold scanCommonPrefix inFolder
  simp only [hcurrent, hpruned, Bool.false_eq_true, if_false, List.isEmpty_nil, if_true, bind,
    Except.bind, pure, Except.pure]
  rfl

theorem folder_page (globType : GlobType) (token : Bytes) (stack : List Bytes)
    (expandedFiles : List OpenFileInfo) (hkeeps : KeepsFolders env.core origin)
    (hne : current ≠ []) (hcurrent : env.core.urlDecode current = folder) (hfolder : folder ≠ [])
    (hquestion : questionMark ∉ folder)
    (hmatch :
      matchSegments env.core.glob false (split origin.parsedS3Url.key) (split folder) = true)
    (page : Page objects folders nextToken)
    (hanswer : env.server { bucket := origin.parsedS3Url.bucket, listPrefix := folder
                            continuationToken := folderToken, useDelimiter := true } =
      .ok { body := encoding.renderItems page.items }) :
    expandNextPath env (inFolder origin globType token current folderToken stack expandedFiles) =
      .ok (if tokenText nextToken = [] then
          next origin globType token (stack ++ folders.map encoding.encode)
            (expandedFiles ++ matched env.core origin objects)
        else
          inFolder origin globType token folder (tokenText nextToken)
            (stack ++ folders.map encoding.encode)
            (expandedFiles ++ matched env.core origin objects), true) := by
  obtain ⟨hfiles, hfolders, htoken⟩ := readPage encoding page
  have hrequest := request_folder hkeeps hcurrent hquestion hanswer
  have hscan : scanCommonPrefix env
      (inFolder origin globType token current folderToken stack expandedFiles) =
      .ok (if tokenText nextToken = [] then
          popCommonPrefix { topLevel origin globType token expandedFiles with
            commonPrefixes := stack ++ folders.map encoding.encode }
        else
          inFolder origin globType token folder (tokenText nextToken)
            (stack ++ folders.map encoding.encode) expandedFiles,
          objects.filterMap fileInfo) := by
    unfold scanCommonPrefix inFolder
    simp only [hcurrent, hmatch, if_true, hrequest, hfiles, hfolders, htoken,
      List.isEmpty_iff, bind, Except.bind, pure, Except.pure]
    split
    · rename_i hlast
      rw [hlast]
      cases hstack : (stack ++ folders.map encoding.encode).getLast? with
      | none =>
          simp only [popCommonPrefix, hstack]
          rfl
      | some last =>
          simp only [popCommonPrefix, hstack]
          rfl
    · rfl
  rw [expandNextPath_folder rfl hne hscan]
  split
  · rw [endCall_pop]
  · simp [endCall, inFolder, matched, expandKeys, hfolder]

theorem folder_run (hkeeps : KeepsFolders env.core origin) (hfolder : folder ≠ [])
    (hquestion : questionMark ∉ folder)
    (hmatch :
      matchSegments env.core.glob false (split origin.parsedS3Url.key) (split folder) = true)
    (hne : current ≠ []) (hcurrent : env.core.urlDecode current = folder)
    (hstable : hasNextPage (env.server {
      bucket := origin.parsedS3Url.bucket, listPrefix := folder, continuationToken := folderToken
      useDelimiter := true }) = true → env.core.urlDecode folder = folder)
    (hpages : Pages encoding (fun continuationToken => env.server {
      bucket := origin.parsedS3Url.bucket, listPrefix := folder, continuationToken
      useDelimiter := true }) folderToken objects folders)
    (hafter : ∀ expandedFiles, Yields env (next origin globType token
      (stack ++ folders.map encoding.encode) expandedFiles) files)
    (expandedFiles : List OpenFileInfo) :
    Yields env (inFolder origin globType token current folderToken stack expandedFiles)
      (matched env.core origin objects ++ files) := by
  induction hpages generalizing current stack expandedFiles with
  | last page hanswer =>
      exact Yields.step (folder_page _ _ _ expandedFiles hkeeps hne hcurrent hfolder hquestion
        hmatch page hanswer) (next_expandedFiles _ _ _ _) (hafter _)
  | next page hanswer htoken _ ih =>
      -- a second page is asked for with the folder decoded once more
      have hdecoded : env.core.urlDecode folder = folder := by
        refine hstable ?_
        have hread := (readPage encoding page).2.2
        rw [hanswer, hasNextPage]
        simp [hread, tokenText, htoken]
      have hcall := folder_page globType token stack expandedFiles hkeeps hne hcurrent hfolder
        hquestion hmatch page hanswer
      rw [if_neg (by simpa [tokenText] using htoken)] at hcall
      rw [matched_append, List.append_assoc]
      refine Yields.step hcall rfl (ih hfolder hdecoded (fun _ => hdecoded) ?_ _)
      intro expandedFiles
      rw [List.append_assoc, ← List.map_append]
      exact hafter expandedFiles

end Folders

/-- The scan of a folder goes on as it began. -/
structure Traversable (env : GlobEnv) (origin : S3GlobResult) (folder : Bytes) : Prop where
  questionMark : questionMark ∉ folder
  stable : hasNextPage (env.server {
    bucket := origin.parsedS3Url.bucket, listPrefix := folder, continuationToken := []
    useDelimiter := true }) = true → env.core.urlDecode folder = folder

/-- A folder of the bucket under what the glob asks for. -/
structure FolderOf (objects : List S3Object) (leading folder : Bytes) : Prop where
  slash : ∃ directory, folder = directory ++ [slash]
  leading : leading <+: folder
  object : ∃ object ∈ objects, folder <+: object.key

/-- The folders that the traversal asks for are traversable. -/
def FoldersTraversable (env : GlobEnv) (origin : S3GlobResult) (objects : List S3Object)
    (leading : Bytes) : Prop :=
  ∀ folder, FolderOf objects leading folder →
    matchSegments env.core.glob false (split origin.parsedS3Url.key) (split folder) = true →
      Traversable env origin folder

theorem folderOf_commonPrefix {leading within folder : Bytes}
    (hleading : leading <+: within) (hfolder : folder ∈ commonPrefixesUnder objects within) :
    FolderOf objects leading folder ∧ within.length < folder.length := by
  obtain ⟨hlength, hslash, hwithin, hobject⟩ := mem_commonPrefixesUnder hfolder
  exact ⟨⟨hslash, hleading.trans hwithin, hobject⟩, hlength⟩

theorem matched_of_pruned {folder : Bytes} (hslash : ∃ directory, folder = directory ++ [slash])
    (hpruned : matchSegments env.core.glob false (split origin.parsedS3Url.key) (split folder) =
      false) : matched env.core origin (objectsUnder objects folder) = [] := by
  obtain ⟨directory, rfl⟩ := hslash
  have hnone : ∀ file ∈ (objectsUnder objects (directory ++ [slash])).filterMap fileInfo,
      matchSegments env.core.glob true (split origin.parsedS3Url.key) (split file.path) =
        false := by
    intro file hfile
    obtain ⟨object, hobject, hinfo⟩ := List.mem_filterMap.mp hfile
    obtain ⟨rest, hrest⟩ := (mem_objectsUnder.mp hobject).2
    have hpath : file.path = directory ++ slash :: rest := by
      unfold fileInfo at hinfo
      split at hinfo
      · cases hinfo
      · cases hinfo
        simp [← hrest]
    rw [hpath]
    exact pruned_leads_to_no_match hpruned rest
  unfold matched expandKeys
  rw [List.map_eq_nil_iff, List.filter_eq_nil_iff]
  intro file hfile
  rw [hnone file hfile]
  exact Bool.false_ne_true

section Stack

variable {leading token : Bytes} {globType : GlobType}

theorem folder_whole {folder : Bytes} {stack : List Bytes} (hkeeps : KeepsFolders env.core origin)
    (hserver : Conforms encoding env.server origin.parsedS3Url.bucket objects)
    (htraversable : FoldersTraversable env origin objects leading)
    (hfolder : FolderOf objects leading folder)
    (hafter : ∀ expandedFiles, Yields env (next origin globType token stack expandedFiles) files)
    (hinner : ∀ folders : List Bytes,
      (∀ inner ∈ folders, FolderOf objects leading inner ∧ folder.length < inner.length) →
      ∀ expandedFiles, Yields env
        (next origin globType token (stack ++ folders.map encoding.encode) expandedFiles)
        (matched env.core origin (folders.flatMap (objectsUnder objects)) ++ files))
    (expandedFiles : List OpenFileInfo) :
    Yields env (next origin globType token (stack ++ [encoding.encode folder]) expandedFiles)
      (matched env.core origin (objectsUnder objects folder) ++ files) := by
  have hne : folder ≠ [] := by
    obtain ⟨directory, rfl⟩ := hfolder.slash
    simp
  have hencode : encoding.encode folder ≠ [] := encode_ne_nil hkeeps.decodes hne
  have hdecode := encoding.decode_encode folder
  rw [next_of_folder hencode]
  cases hmatch : matchSegments env.core.glob false (split origin.parsedS3Url.key)
      (split folder) with
  | false =>
      have hcall := folder_pruned globType token stack expandedFiles hencode hdecode hmatch
      have hsame : (next origin globType token stack expandedFiles).expandedFiles =
          expandedFiles ++ [] := by
        rw [next_expandedFiles, List.append_nil]
      rw [matched_of_pruned hfolder.slash hmatch]
      exact Yields.step hcall hsame (hafter _)
  | true =>
      obtain ⟨hquestion, hstable⟩ := htraversable folder hfolder hmatch
      obtain ⟨listed, folders, hlisted, hfolders, hpages⟩ := hserver.delimited folder
      have hinside : ∀ inner ∈ folders,
          FolderOf objects leading inner ∧ folder.length < inner.length := fun inner hmem =>
        folderOf_commonPrefix hfolder.leading (hfolders.subset hmem)
      refine (folder_run hkeeps hne hquestion hmatch hencode hdecode hstable hpages
        (hinner folders hinside) expandedFiles).perm ?_
      rw [← List.append_assoc, ← matched_append]
      refine (matched_perm ?_).append_right files
      exact (hlisted.append (hfolders.flatMap_right _)).trans
        (objectsUnder_perm objects folder).symm

theorem stack_run (hkeeps : KeepsFolders env.core origin)
    (hserver : Conforms encoding env.server origin.parsedS3Url.bucket objects)
    (htraversable : FoldersTraversable env origin objects leading) {longest : Nat}
    (hlongest : ∀ object ∈ objects, object.key.length ≤ longest) (depth : Nat)
    {folders stack : List Bytes}
    (hfolders : ∀ folder ∈ folders,
      FolderOf objects leading folder ∧ longest < folder.length + depth)
    (hafter : ∀ expandedFiles, Yields env (next origin globType token stack expandedFiles) files)
    (expandedFiles : List OpenFileInfo) :
    Yields env (next origin globType token (stack ++ folders.map encoding.encode) expandedFiles)
      (matched env.core origin (folders.flatMap (objectsUnder objects)) ++ files) := by
  -- on how much longer than a folder a key can be, then on the stack from its top
  induction depth generalizing folders stack files expandedFiles with
  | zero =>
      cases folders with
      | nil => simpa [matched, expandKeys] using hafter expandedFiles
      | cons folder folders =>
          obtain ⟨⟨-, -, object, hobject, hkey⟩, hlength⟩ := hfolders folder List.mem_cons_self
          have hfits := hlongest object hobject
          have hwithin := hkey.length_le
          omega
  | succ depth ih =>
      induction folders using List.reverseRecOn generalizing expandedFiles with
      | nil => simpa [matched, expandKeys] using hafter expandedFiles
      | append_singleton folders folder ihFolders =>
          obtain ⟨hfolder, hlength⟩ := hfolders folder (by simp)
          have hrest := ihFolders fun other hother => hfolders other (by simp [hother])
          rw [List.map_append, List.map_singleton, ← List.append_assoc, List.flatMap_append,
            List.flatMap_singleton]
          refine (folder_whole hkeeps hserver htraversable hfolder hrest (fun inner hinner => ?_)
            expandedFiles).perm ?_
          · exact ih (fun deep hdeep => ⟨(hinner deep hdeep).1, by
              have hlonger := (hinner deep hdeep).2
              omega⟩) hrest
          · rw [matched_append, List.append_assoc]
            exact List.perm_append_comm_assoc _ _ _

variable {shared : ParsedS3Url} {folders : List Bytes}

theorem hierarchical_page {nextToken : Option Text} (expandedFiles : List OpenFileInfo)
    (hshared : s3UrlParse origin.sharedPath origin.s3AuthParams = .ok shared)
    (page : Page objects folders nextToken)
    (hanswer : env.server { bucket := shared.bucket, listPrefix := shared.key
                            continuationToken := token, useDelimiter := true } =
      .ok { body := encoding.renderItems page.items }) :
    expandNextPath env (topLevel origin .hierarchical token expandedFiles) =
      .ok (next origin .hierarchical (tokenText nextToken) (folders.map encoding.encode)
        (expandedFiles ++ matched env.core origin objects), true) := by
  obtain ⟨hfiles, hfolders, htoken⟩ := readPage encoding page
  have hrequest := request_answered hshared hanswer
  rw [← endCall_pop]
  refine expandNextPath_topLevel rfl rfl ?_
  have hsettled : decide (GlobType.hierarchical = GlobType.unknown) = false := rfl
  unfold scanTopLevel topLevel
  simp only [List.isEmpty_nil, Bool.not_true, Bool.false_eq_true, if_false, decide_true, hsettled,
    Bool.and_false, Bool.false_and, hrequest, htoken, hfiles, hfolders, bind, Except.bind, pure,
    Except.pure]

theorem switched_page {nextToken : Option Text} {body : Bytes} (expandedFiles : List OpenFileInfo)
    (hshared : s3UrlParse origin.sharedPath origin.s3AuthParams = .ok shared)
    (hopen : investigates env origin .unknown = true)
    (hlisted : env.server { bucket := shared.bucket, listPrefix := shared.key
                            continuationToken := [], useDelimiter := false } = .ok { body })
    (hlarge : foldersAreLarge env.core (.ok { body }) = true)
    (page : Page objects folders nextToken)
    (hanswer : env.server { bucket := shared.bucket, listPrefix := shared.key
                            continuationToken := [], useDelimiter := true } =
      .ok { body := encoding.renderItems page.items }) :
    expandNextPath env (topLevel origin .unknown [] expandedFiles) =
      .ok (next origin .hierarchical (tokenText nextToken) (folders.map encoding.encode)
        (expandedFiles ++ matched env.core origin objects), true) := by
  obtain ⟨hfiles, hfolders, htoken⟩ := readPage encoding page
  have hrequest := request_answered hshared hanswer
  have hlisting := request_answered hshared hlisted
  rw [← endCall_pop]
  refine expandNextPath_topLevel rfl rfl ?_
  unfold foldersAreLarge at hlarge
  simp only at hlarge
  split at hlarge
  · rename_i first files hfirst hlistedFiles
    rw [Bool.and_eq_true] at hlarge
    have hmode : decide (GlobType.unknown = GlobType.hierarchical) = false := rfl
    simp only [investigates, decide_true, Bool.and_true] at hopen
    unfold scanTopLevel topLevel
    simp only [List.isEmpty_nil, Bool.not_true, Bool.false_eq_true, if_false, hmode, decide_true,
      Bool.and_true, hopen, hlisting, hfirst, hlistedFiles, hlarge.1, hlarge.2, if_true, hrequest,
      htoken, hfiles, hfolders, bind, Except.bind, pure, Except.pure]
  · cases hlarge

theorem exists_longest (objects : List S3Object) :
    ∃ longest, ∀ object ∈ objects, object.key.length ≤ longest := by
  induction objects with
  | nil => exact ⟨0, nofun⟩
  | cons object objects ih =>
      obtain ⟨longest, hlongest⟩ := ih
      refine ⟨max object.key.length longest, ?_⟩
      intro other hother
      rcases List.mem_cons.mp hother with rfl | hmem
      · exact Nat.le_max_left _ _
      · exact Nat.le_trans (hlongest other hmem) (Nat.le_max_right _ _)

theorem delimited_run (hkeeps : KeepsFolders env.core origin)
    (hserver : Conforms encoding env.server origin.parsedS3Url.bucket objects)
    (htraversable : FoldersTraversable env origin objects leading)
    (hshared : s3UrlParse origin.sharedPath origin.s3AuthParams = .ok shared)
    {listed : List S3Object}
    (hpages : Pages encoding (fun continuationToken => env.server {
      bucket := shared.bucket, listPrefix := shared.key, continuationToken
      useDelimiter := true }) token listed folders)
    (hfolders : ∀ folder ∈ folders, FolderOf objects leading folder)
    (hcall : ∀ {listed : List S3Object} {folders : List Bytes} {nextToken : Option Text}
      (page : Page listed folders nextToken),
      env.server { bucket := shared.bucket, listPrefix := shared.key
                   continuationToken := token, useDelimiter := true } =
        .ok { body := encoding.renderItems page.items } →
      expandNextPath env g = .ok (next origin .hierarchical (tokenText nextToken)
        (folders.map encoding.encode)
        (g.expandedFiles ++ matched env.core origin listed), true)) :
    Yields env g
      (matched env.core origin (listed ++ folders.flatMap (objectsUnder objects))) := by
  obtain ⟨longest, hlongest⟩ := exists_longest objects
  have hstack : ∀ {folders : List Bytes} {token : Bytes} {files : List OpenFileInfo}
      (expandedFiles : List OpenFileInfo), (∀ folder ∈ folders, FolderOf objects leading folder) →
      (∀ expandedFiles, Yields env (next origin .hierarchical token [] expandedFiles) files) →
      Yields env (next origin .hierarchical token (folders.map encoding.encode) expandedFiles)
        (matched env.core origin (folders.flatMap (objectsUnder objects)) ++ files) := by
    intro folders token files expandedFiles hfolders hafter
    exact stack_run hkeeps hserver htraversable hlongest (longest + 1)
      (fun folder hfolder => ⟨hfolders folder hfolder, by omega⟩) hafter expandedFiles
  induction hpages generalizing g with
  | last page hanswer =>
      have hrun := Yields.step (hcall page hanswer) (next_expandedFiles _ _ _ _)
        (hstack _ hfolders fun _ => Yields.finished rfl)
      rwa [List.append_nil, ← matched_append] at hrun
  | @next token listed more folders moreFolders nextToken page hanswer htoken _ ih =>
      have hrest := fun expandedFiles =>
        ih (g := topLevel origin .hierarchical nextToken.1 expandedFiles)
          (fun folder hfolder => hfolders folder (List.mem_append_right _ hfolder))
          (fun page hanswer => hierarchical_page expandedFiles hshared page hanswer)
      have hrun := Yields.step (hcall page hanswer) (next_expandedFiles _ _ _ _)
        (hstack _ (fun folder hfolder => hfolders folder (List.mem_append_left _ hfolder))
          fun expandedFiles => by
            rw [tokenText, Option.elim_some, next_of_more htoken]
            exact hrest expandedFiles)
      rw [← matched_append, ← matched_append] at hrun
      refine hrun.perm (matched_perm ?_)
      rw [List.flatMap_append, List.append_assoc]
      exact (List.perm_append_comm_assoc _ _ _).append_left listed

end Stack

/-- A key matches if it is no directory marker, begins as the pattern does and its
segments match. -/
def matchesPattern (core : Core) (pattern key : Bytes) : Bool :=
  startsWith key (literalPart pattern) && (key.getLast? ≠ some slash &&
    matchSegments core.glob true (split pattern) (split key))

/-- The pattern is one, its first wildcard stands behind the bucket, and a traversal
that goes by folders finds every folder that it asks for again. -/
structure Traverses (env : GlobEnv) (g : S3GlobResult) (bucket : Bucket) : Prop where
  glob : g.finished = false
  requested : ∃ shared, s3UrlParse g.sharedPath g.s3AuthParams = .ok shared
  folders : investigates env g .unknown = true →
    foldersAreLarge env.core (env.server {
      bucket := g.parsedS3Url.bucket, listPrefix := literalPart g.parsedS3Url.key
      continuationToken := [], useDelimiter := false }) = true →
    (percent ∉ g.parsedS3Url.bucket ∧ plus ∉ g.parsedS3Url.bucket) ∧
      FoldersTraversable env g bucket.objects (literalPart g.parsedS3Url.key)

theorem paths_fileInfo (objects : List S3Object) :
    (objects.filterMap fileInfo).map (·.path) =
      (objects.map (·.key)).filter fun key => key.getLast? ≠ some slash := by
  induction objects with
  | nil => rfl
  | cons object objects ih =>
      by_cases hmarker : object.key.getLast? = some slash
      · simp [fileInfo, hmarker, ih]
      · simp [fileInfo, hmarker, ih]

theorem paths_matched (objects : List S3Object) :
    (matched env.core g (objectsUnder objects (literalPart g.parsedS3Url.key))).map (·.path) =
      ((objects.map (·.key)).filter (matchesPattern env.core g.parsedS3Url.key)).map
        (resultFullUrl g.parsedS3Url) := by
  have hunder : (objectsUnder objects (literalPart g.parsedS3Url.key)).map (·.key) =
      (objects.map (·.key)).filter fun key => startsWith key (literalPart g.parsedS3Url.key) := by
    rw [objectsUnder, List.filter_map]
    rfl
  have hfilter : ∀ files : List OpenFileInfo,
      (expandKeys env.core g files).map (·.path) = ((files.map (·.path)).filter fun key =>
        matchSegments env.core.glob true (split g.parsedS3Url.key) (split key)).map
          (resultFullUrl g.parsedS3Url) := by
    intro files
    rw [expandKeys, List.map_map, List.filter_map, List.map_map]
    rfl
  rw [matched, hfilter, paths_fileInfo, hunder, List.filter_filter, List.filter_filter]
  congr 1
  refine List.filter_congr fun key _ => ?_
  rw [matchesPattern]
  cases startsWith key (literalPart g.parsedS3Url.key) with
  | _ => simp [Bool.and_comm]

theorem resultFullUrl_injective (glob : ParsedS3Url) :
    Function.Injective (resultFullUrl glob) := by
  intro key key' heq
  rw [resultFullUrl_eq, resultFullUrl_eq] at heq
  have hprinted := List.tail_eq_of_cons_eq (List.append_cancel_left heq)
  unfold printedKey at hprinted
  split at hprinted
  · exact hprinted
  · exact List.append_cancel_right hprinted

/-- What the constructor leaves behind unless it is done at once. -/
structure Open (params : S3AuthParams) (pattern : Bytes) (g : S3GlobResult) : Prop where
  fresh : g = topLevel g .unknown [] []
  compatibility : params.s3UrlCompatibilityMode = false
  kept : g.s3AuthParams.s3UrlCompatibilityMode = false
  parse : s3UrlParse pattern params = .ok g.parsedS3Url
  wildcard : ∃ n, firstWildcard g.parsedS3Url.trimmedS3Url = some n ∧
    g.sharedPath = g.parsedS3Url.trimmedS3Url.take n

theorem newS3GlobResult_cases {parseGetParameters : Bytes → QueryParams} {params : S3AuthParams}
    {pattern : Bytes} (hglob : newS3GlobResult parseGetParameters params pattern = .ok g) :
    (g.finished = true ∧ g.expandedFiles = [{ path := pattern }]) ∨
      (g.finished = false ∧ Open params pattern g) := by
  unfold newS3GlobResult at hglob
  simp only at hglob
  split at hglob
  · cases hglob
    exact .inl ⟨rfl, rfl⟩
  rename_i hcompat
  rw [Bool.not_eq_true] at hcompat
  split at hglob
  · cases hglob
  rename_i parsed hparse
  split at hglob
  · cases hglob
    exact .inl ⟨rfl, rfl⟩
  rename_i n hwildcard
  obtain ⟨authParams, hread, hmade⟩ := bind_eq_ok.mp hglob
  cases hmade
  have hkept := (readQueryParams_compatibilityMode hread).trans hcompat
  exact .inr ⟨rfl, rfl, hcompat, hkept, hparse, n, hwildcard, rfl⟩

theorem Open.of_new {parseGetParameters : Bytes → QueryParams} {params : S3AuthParams}
    {pattern : Bytes} (hglob : newS3GlobResult parseGetParameters params pattern = .ok g)
    (hfinished : g.finished = false) : Open params pattern g := by
  rcases newS3GlobResult_cases hglob with ⟨hdone, -⟩ | ⟨-, hopen⟩
  · rw [hfinished] at hdone
    cases hdone
  · exact hopen

theorem Open.request {params : S3AuthParams} {pattern : Bytes} {shared : ParsedS3Url}
    (hopen : Open params pattern g)
    (hshared : s3UrlParse g.sharedPath g.s3AuthParams = .ok shared) :
    shared.bucket = g.parsedS3Url.bucket ∧ shared.key = literalPart g.parsedS3Url.key ∧
      questionMark ∉ g.parsedS3Url.bucket := by
  obtain ⟨-, hcompat, hkept, hparse, n, hwildcard, hpath⟩ := hopen
  rw [hpath] at hshared
  exact request_of_shared hcompat hkept hparse hwildcard hshared

theorem paths_of_traverses {parseGetParameters : Bytes → QueryParams} {params : S3AuthParams}
    {pattern : Bytes} {bucket : Bucket} (hdecodes : DecodesPlainText env.core)
    (hglob : newS3GlobResult parseGetParameters params pattern = .ok g)
    (hserver : Conforms encoding env.server g.parsedS3Url.bucket bucket.objects)
    (htraverses : Traverses env g bucket) :
    ∃ fuel files, expandAll env fuel g = some (.ok files) ∧ (files.map (·.path)).Perm
      (((bucket.objects.map (·.key)).filter (matchesPattern env.core g.parsedS3Url.key)).map
        (resultFullUrl g.parsedS3Url)) := by
  obtain ⟨hfinished, ⟨shared, hshared⟩, hfolders⟩ := htraverses
  have hopen := Open.of_new hglob hfinished
  obtain ⟨hbucket, hkey, hquestion⟩ := hopen.request hshared
  have hparsed := parsed_of_s3UrlParse hopen.compatibility hopen.parse
  have hfresh := hopen.fresh
  have hnothing : g.expandedFiles = [] := by
    rw [hfresh]
    rfl
  suffices hrun : Yields env (topLevel g .unknown [] []) (matched env.core g
      (objectsUnder bucket.objects (literalPart g.parsedS3Url.key))) by
    rw [← hfresh] at hrun
    obtain ⟨fuel, files, hcalls, hperm⟩ := hrun
    rw [hnothing, List.nil_append] at hcalls
    refine ⟨fuel, files, hcalls, ?_⟩
    rw [← paths_matched]
    exact hperm.map (·.path)
  rw [← hbucket] at hserver hfolders
  rw [← hkey] at hfolders ⊢
  obtain ⟨listed, hlisted, hpages⟩ := hserver.recursive shared.key
  by_cases hswitch : investigates env g .unknown = true ∧ foldersAreLarge env.core (env.server {
      bucket := shared.bucket, listPrefix := shared.key, continuationToken := []
      useDelimiter := false }) = true
  · obtain ⟨⟨hpercent, hplus⟩, htraversable⟩ := hfolders hswitch.1 hswitch.2
    obtain ⟨body, hbody⟩ := hpages.answered
    obtain ⟨direct, folders, hdirect, hfolded, hdelimited⟩ := hserver.delimited shared.key
    have hkeeps : KeepsFolders env.core g :=
      ⟨hdecodes, hopen.kept, hparsed, hquestion, hbucket ▸ hpercent, hbucket ▸ hplus⟩
    rw [hbody] at hswitch
    refine (delimited_run hkeeps (hbucket ▸ hserver) htraversable hshared hdelimited
      (fun folder hfolder => ?_) fun page hanswer => ?_).perm (matched_perm ?_)
    · exact (folderOf_commonPrefix (List.prefix_refl _) (hfolded.subset hfolder)).1
    · exact switched_page [] hshared hswitch.1 hbody hswitch.2 page hanswer
    · exact (hdirect.append (hfolded.flatMap_right _)).trans
        (objectsUnder_perm bucket.objects shared.key).symm
  · refine (listing_run hshared (by decide) (fun hopen => ?_) hpages rfl).perm
      (matched_perm hlisted)
    cases hlarge : foldersAreLarge env.core (env.server {
        bucket := shared.bucket, listPrefix := shared.key, continuationToken := []
        useDelimiter := false }) with
    | false => rfl
    | true => exact absurd ⟨hopen, hlarge⟩ hswitch

theorem percentDecode_plain {text : Bytes} (htext : percent ∉ text) (rest : Bytes) :
    percentDecode (text ++ rest) = text ++ percentDecode rest := by
  induction text with
  | nil => rfl
  | cons c text ih =>
      rw [List.mem_cons, not_or] at htext
      rw [List.cons_append, percentDecode, ih htext.2]
      · rfl
      · rintro high low more hc
        exact absurd hc (Ne.symm htext.1)

theorem percentCore_decodes : DecodesPlainText percentCore where
  nil := rfl
  append text rest hpercent hplus := by
    change formDecode (text ++ rest) = text ++ formDecode rest
    rw [formDecode, List.map_append, map_plus_of_notMem hplus, percentDecode_plain hpercent]
    rfl

end HaybarnHttpfs.GlobTraversal
