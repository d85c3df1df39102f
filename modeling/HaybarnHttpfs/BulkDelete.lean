import HaybarnHttpfs.DeleteBatchKeys
import HaybarnHttpfs.DeleteDocument
import HaybarnHttpfs.Foundation.Exceptions
import Mathlib.Data.List.Forall2

/-!
The objects that the requests of `RemoveFiles` name. Batches hold paths that depend
on nothing but what the key of the batch says, so one path can speak for a request.
-/

namespace HaybarnHttpfs.BulkDelete

open HaybarnHttpfs.Foundation.ByteStrings HaybarnHttpfs.Foundation.Blocks
open HaybarnHttpfs.Foundation.Exceptions
open HaybarnHttpfs.S3Auth HaybarnHttpfs.S3Url HaybarnHttpfs.ReadAuthParams
open HaybarnHttpfs.S3RequestLoop HaybarnHttpfs.RemoveFiles HaybarnHttpfs.DeleteBatchKeys
open HaybarnHttpfs.DeleteDocument

universe u

variable {σ : Type u} {context : DeleteContext σ} {s s' : σ} {path path' : Bytes}
  {urlInfo urlInfo' : S3DeleteBatchUrlInfo}

structure S3Object where
  host : Bytes
  bucketPath : Bytes
  key : Bytes
  deriving DecidableEq, Repr

/-- The object that a path names under the parameters the path resolves to. -/
def objectOf (context : DeleteContext σ) (s : σ) (path : Bytes) : Option S3Object :=
  match readS3AuthParams context.toSecrets s path with
  | .error _ => none
  | .ok authParams =>
      match s3UrlParse path authParams with
      | .error _ => none
      | .ok parsed =>
          some { host := parsed.host, bucketPath := getS3BucketPath parsed, key := parsed.key }

theorem s3UrlParse_key {url : Bytes} {params params' : S3AuthParams} {parsed : ParsedS3Url}
    (hmode : params'.s3UrlCompatibilityMode = params.s3UrlCompatibilityMode)
    (hparse : s3UrlParse url params = .ok parsed) :
    ∃ parsed', s3UrlParse url params' = .ok parsed' ∧ parsed'.key = parsed.key := by
  have hsplit : ∀ slashPos, splitQuery params' url slashPos = splitQuery params url slashPos := by
    intro slashPos
    rw [splitQuery, splitQuery, hmode]
  unfold s3UrlParse at hparse ⊢
  simp only [bind, Except.bind, pure, Except.pure, hsplit] at hparse ⊢
  split at hparse
  · cases hparse
  · split at hparse
    · cases hparse
    · split at hparse
      · cases hparse
      · split at hparse
        · cases hparse
        · cases hparse
          simp_all

/-- What the first loop finds out about a path holds of its object. -/
structure TargetOf (context : DeleteContext σ) (s : σ) (path : Bytes) (t : Target) : Prop where
  batchKey : t.batchKey = createDeleteBatchKey context s t.urlInfo path
  auth : readS3AuthParams context.toSecrets s path = .ok t.urlInfo.authParams
  object : ∃ parsed, s3UrlParse path t.urlInfo.authParams = .ok parsed ∧
    objectOf context s path =
      some { host := parsed.host, bucketPath := getS3BucketPath parsed, key := t.key }

theorem targetOf_of_target {t : Target} (htarget : target context s path = .ok t) :
    TargetOf context s path t := by
  unfold target at htarget
  simp only at htarget
  split at htarget
  · cases htarget
  rename_i parsed hparse
  obtain ⟨authParams, hread, hmade⟩ := bind_eq_ok.mp htarget
  cases hmade
  have hauth : readS3AuthParams context.toSecrets s path = .ok authParams := by
    simp [readS3AuthParams, hparse, hread]
  obtain ⟨parsed', hparse', hkey⟩ :=
    s3UrlParse_key (readQueryParams_compatibilityMode hread) hparse
  refine ⟨rfl, hauth, parsed', hparse', ?_⟩
  simp only [objectOf, hauth, hparse', hkey]

/-- The keys of a batch are those of its paths, and all the paths agree on what the
requests of the batch are made from. -/
structure BatchOf (context : DeleteContext σ) (s : σ) (batchKey : Bytes)
    (batch : S3DeleteBatch) : Prop where
  batchKey : ∃ path, batchKey = createDeleteBatchKey context s batch.urlInfo path
  targets : List.Forall₂ (fun key path => ∃ t, target context s path = .ok t ∧
    t.urlInfo = batch.urlInfo ∧ t.key = key) batch.keys batch.secretLookupPaths

def batchPaths (batches : DeleteBatches) : List Bytes :=
  batches.flatMap fun entry => entry.2.secretLookupPaths

theorem addToBatch_spec {t : Target} (htarget : target context s path = .ok t)
    {batches : DeleteBatches} (hbatches : ∀ entry ∈ batches, BatchOf context s entry.1 entry.2) :
    (∀ entry ∈ addToBatch t path batches, BatchOf context s entry.1 entry.2) ∧
      (batchPaths (addToBatch t path batches)).Perm (path :: batchPaths batches) := by
  have hkey := (targetOf_of_target htarget).batchKey
  induction batches with
  | nil =>
      refine ⟨?_, List.Perm.refl _⟩
      intro entry hentry
      rw [addToBatch, List.mem_singleton] at hentry
      subst hentry
      exact ⟨⟨path, hkey⟩, .cons ⟨t, htarget, rfl, rfl⟩ .nil⟩
  | cons entry batches ih =>
      obtain ⟨batchKey, batch⟩ := entry
      have hbatch := hbatches _ List.mem_cons_self
      have hrest := fun other hother => hbatches other (List.mem_cons_of_mem _ hother)
      rw [addToBatch]
      split
      · rename_i hsame
        constructor
        · intro other hother
          rcases List.mem_cons.mp hother with rfl | hmem
          · obtain ⟨path', hpath'⟩ := hbatch.batchKey
            have hinfo : t.urlInfo = batch.urlInfo :=
              urlInfo_of_batchKey (hkey.symm.trans (hsame.symm.trans hpath'))
            exact ⟨⟨path', hpath'⟩,
              List.rel_append hbatch.targets (.cons ⟨t, htarget, hinfo, rfl⟩ .nil)⟩
          · exact hrest other hmem
        · simp only [batchPaths, List.flatMap_cons, List.append_assoc]
          exact List.perm_middle
      · obtain ⟨hmembers, hperm⟩ := ih hrest
        constructor
        · intro other hother
          rcases List.mem_cons.mp hother with rfl | hmem
          · exact hbatch
          · exact hmembers other hmem
        · simp only [batchPaths, List.flatMap_cons] at hperm ⊢
          exact (hperm.append_left _).trans List.perm_middle

theorem collect_spec {paths : List Bytes} {batches batches' : DeleteBatches}
    (hbatches : ∀ entry ∈ batches, BatchOf context s entry.1 entry.2)
    (hcollect : collect context s paths batches = .ok batches') :
    (∀ entry ∈ batches', BatchOf context s entry.1 entry.2) ∧
      (batchPaths batches').Perm (paths ++ batchPaths batches) := by
  induction paths generalizing batches with
  | nil =>
      cases hcollect
      exact ⟨hbatches, List.Perm.refl _⟩
  | cons path paths ih =>
      unfold collect at hcollect
      split at hcollect
      · cases hcollect
      · rename_i t htarget
        obtain ⟨hadded, hperm⟩ := addToBatch_spec htarget hbatches
        obtain ⟨hmembers, hall⟩ := ih hadded hcollect
        refine ⟨hmembers, hall.trans ?_⟩
        exact (hperm.append_left paths).trans List.perm_middle

/-- The key of the batch that a path is put into. -/
def batchKeyOf (context : DeleteContext σ) (s : σ) (path : Bytes) : Option Bytes :=
  (target context s path).toOption.map (·.batchKey)

/-- The paths of one batch, in the order of the list. -/
def batchmates (context : DeleteContext σ) (s : σ) (batchKey : Bytes) (paths : List Bytes) :
    List Bytes :=
  paths.filter fun path => batchKeyOf context s path = some batchKey

theorem keys_addToBatch (t : Target) (path : Bytes) (batches : DeleteBatches) :
    (addToBatch t path batches).map Prod.fst =
      if t.batchKey ∈ batches.map Prod.fst then batches.map Prod.fst
      else batches.map Prod.fst ++ [t.batchKey] := by
  induction batches with
  | nil => rfl
  | cons entry batches ih =>
      rw [addToBatch]
      by_cases hsame : entry.1 = t.batchKey
      · simp [hsame]
      · have hother : ¬ t.batchKey = entry.1 := fun heq => hsame heq.symm
        simp only [if_neg hsame, List.map_cons, ih, List.mem_cons, hother, false_or]
        split
        · rfl
        · rfl

/-- An entry after a path has been added: another one, or the batch of the path. -/
theorem mem_addToBatch {t : Target} {batches : DeleteBatches} {entry : Bytes × S3DeleteBatch}
    (hdistinct : (batches.map Prod.fst).Nodup) (hentry : entry ∈ addToBatch t path batches) :
    (entry ∈ batches ∧ entry.1 ≠ t.batchKey) ∨
      (entry.1 = t.batchKey ∧
        ((t.batchKey ∉ batches.map Prod.fst ∧ entry.2.secretLookupPaths = [path]) ∨
          ∃ old ∈ batches, old.1 = t.batchKey ∧
            entry.2.secretLookupPaths = old.2.secretLookupPaths ++ [path])) := by
  induction batches with
  | nil =>
      rw [addToBatch, List.mem_singleton] at hentry
      subst hentry
      exact .inr ⟨rfl, .inl ⟨nofun, rfl⟩⟩
  | cons first batches ih =>
      rw [List.map_cons, List.nodup_cons] at hdistinct
      rw [addToBatch] at hentry
      by_cases hsame : first.1 = t.batchKey
      · rw [if_pos hsame] at hentry
        rcases List.mem_cons.mp hentry with rfl | hmem
        · exact .inr ⟨hsame, .inr ⟨first, List.mem_cons_self, hsame, rfl⟩⟩
        · refine .inl ⟨List.mem_cons_of_mem _ hmem, ?_⟩
          intro hkey
          apply hdistinct.1
          rw [hsame, ← hkey]
          exact List.mem_map_of_mem hmem
      · rw [if_neg hsame] at hentry
        rcases List.mem_cons.mp hentry with rfl | hmem
        · exact .inl ⟨List.mem_cons_self, hsame⟩
        · rcases ih hdistinct.2 hmem with
            ⟨hold, hkey⟩ | ⟨hkey, ⟨hfresh, hpaths⟩ | ⟨old, hold, hrest⟩⟩
          · exact .inl ⟨List.mem_cons_of_mem _ hold, hkey⟩
          · refine .inr ⟨hkey, .inl ⟨?_, hpaths⟩⟩
            rw [List.map_cons, List.mem_cons, not_or]
            exact ⟨fun heq => hsame heq.symm, hfresh⟩
          · exact .inr ⟨hkey, .inr ⟨old, List.mem_cons_of_mem _ hold, hrest⟩⟩

/-- The batches once the paths of `seen` are in them. -/
structure Grouped (context : DeleteContext σ) (s : σ) (seen : List Bytes)
    (batches : DeleteBatches) : Prop where
  distinct : (batches.map Prod.fst).Nodup
  paths : ∀ entry ∈ batches, entry.2.secretLookupPaths = batchmates context s entry.1 seen
  complete : ∀ path ∈ seen, ∀ batchKey, batchKeyOf context s path = some batchKey →
    batchKey ∈ batches.map Prod.fst

theorem batchmates_append_other {batchKey : Bytes} {seen : List Bytes}
    (hother : batchKeyOf context s path ≠ some batchKey) :
    batchmates context s batchKey (seen ++ [path]) = batchmates context s batchKey seen := by
  simp [batchmates, List.filter_append, hother]

theorem batchmates_append_own {batchKey : Bytes} {seen : List Bytes}
    (hown : batchKeyOf context s path = some batchKey) :
    batchmates context s batchKey (seen ++ [path]) =
      batchmates context s batchKey seen ++ [path] := by
  simp [batchmates, List.filter_append, hown]

theorem Grouped.add {t : Target} {seen : List Bytes} {batches : DeleteBatches}
    (hgrouped : Grouped context s seen batches) (htarget : target context s path = .ok t) :
    Grouped context s (seen ++ [path]) (addToBatch t path batches) := by
  have hkey : batchKeyOf context s path = some t.batchKey := by
    rw [batchKeyOf, htarget]
    rfl
  have hkeys := keys_addToBatch t path batches
  refine ⟨?_, ?_, ?_⟩
  · rw [hkeys]
    split
    · exact hgrouped.distinct
    · rename_i hfresh
      exact List.nodup_append.mpr ⟨hgrouped.distinct, List.pairwise_singleton _ _,
        fun batchKey hbatchKey other hother => by
          rw [List.mem_singleton.mp hother]
          rintro rfl
          exact hfresh hbatchKey⟩
  · intro entry hentry
    rcases mem_addToBatch hgrouped.distinct hentry with
      ⟨hold, hother⟩ | ⟨hown, ⟨hfresh, hpaths⟩ | ⟨old, hold, hsame, hpaths⟩⟩
    · rw [batchmates_append_other, hgrouped.paths entry hold]
      rw [hkey]
      exact fun heq => hother (Option.some.inj heq).symm
    · have hnone : batchmates context s t.batchKey seen = [] := by
        apply List.filter_eq_nil_iff.mpr
        intro path' hpath' hmate
        exact hfresh (hgrouped.complete path' hpath' _ (by simpa using hmate))
      rw [hown, batchmates_append_own hkey, hpaths, hnone, List.nil_append]
    · rw [hown, batchmates_append_own hkey, hpaths, hgrouped.paths old hold, hsame]
  · intro path' hpath' batchKey hbatchKey
    have hmem : batchKey ∈ batches.map Prod.fst ∨ batchKey = t.batchKey := by
      rcases List.mem_append.mp hpath' with hseen | hnew
      · exact .inl (hgrouped.complete path' hseen batchKey hbatchKey)
      · rw [List.mem_singleton.mp hnew, hkey, Option.some.injEq] at hbatchKey
        exact .inr hbatchKey.symm
    rw [hkeys]
    split
    · rename_i hthere
      exact hmem.elim id fun heq => heq ▸ hthere
    · simpa using hmem

theorem grouped_nil : Grouped context s [] [] :=
  ⟨List.nodup_nil, fun _ hentry => absurd hentry List.not_mem_nil,
    fun _ hpath => absurd hpath List.not_mem_nil⟩

theorem grouped_of_collect {paths seen : List Bytes} {batches batches' : DeleteBatches}
    (hgrouped : Grouped context s seen batches)
    (hcollect : collect context s paths batches = .ok batches') :
    Grouped context s (seen ++ paths) batches' := by
  -- `seen` are the paths that the loop has behind it
  induction paths generalizing seen batches with
  | nil =>
      cases hcollect
      rwa [List.append_nil]
  | cons path paths ih =>
      unfold collect at hcollect
      split at hcollect
      · cases hcollect
      · rename_i t htarget
        have hrest := ih (hgrouped.add htarget) hcollect
        rwa [List.append_assoc, List.singleton_append] at hrest

theorem batchPaths_eq (batches : DeleteBatches) :
    batchPaths batches = (batches.map Prod.snd).flatMap (·.secretLookupPaths) := by
  rw [List.flatMap_map]
  rfl

theorem length_paths {batchKey : Bytes} {batch : S3DeleteBatch}
    (hbatch : BatchOf context s batchKey batch) :
    batch.keys.length = batch.secretLookupPaths.length := hbatch.targets.length_eq

theorem exists_of_forall₂_right {α β : Type*} {R : α → β → Prop} {as : List α} {bs : List β}
    (hall : List.Forall₂ R as bs) {b : β} (hb : b ∈ bs) : ∃ a ∈ as, R a b := by
  induction hall with
  | nil => cases hb
  | cons hfirst hrest ih =>
      rcases List.mem_cons.mp hb with rfl | hmem
      · exact ⟨_, List.mem_cons_self, hfirst⟩
      · obtain ⟨a, ha, hrel⟩ := ih hmem
        exact ⟨a, List.mem_cons_of_mem _ ha, hrel⟩

theorem forall₂_mem_imp {α β : Type*} {R R' : α → β → Prop} {as : List α} {bs : List β}
    (hall : List.Forall₂ R as bs) (himp : ∀ a, ∀ b ∈ bs, R a b → R' a b) :
    List.Forall₂ R' as bs := by
  induction hall with
  | nil => exact .nil
  | cons hfirst hrest ih =>
      exact .cons (himp _ _ List.mem_cons_self hfirst)
        (ih fun a b hb => himp a b (List.mem_cons_of_mem _ hb))

theorem BatchOf.target_of_mem {batchKey : Bytes} {batch : S3DeleteBatch}
    (hbatch : BatchOf context s batchKey batch) (hpath : path ∈ batch.secretLookupPaths) :
    ∃ t, target context s path = .ok t ∧ t.urlInfo = batch.urlInfo := by
  obtain ⟨key, -, t, htarget, hinfo, -⟩ := exists_of_forall₂_right hbatch.targets hpath
  exact ⟨t, htarget, hinfo⟩

def Succeeded (exchange : Exchange) : Prop :=
  match exchange.response with
  | .ok (some response) => response.status = 200
  | _ => False

instance (exchange : Exchange) : Decidable (Succeeded exchange) :=
  match hresponse : exchange.response with
  | .ok (some response) =>
      decidable_of_iff (response.status = 200) (by unfold Succeeded; rw [hresponse])
  | .ok none | .error _ => isFalse (by unfold Succeeded; rw [hresponse]; exact id)

/-- The keys of each request of a batch and their paths. -/
def requestParts (batch : S3DeleteBatch) : List (List Bytes × List Bytes) :=
  (List.range (requestCount batch)).map fun i =>
    (block maxKeysPerRequest batch.keys i, block maxKeysPerRequest batch.secretLookupPaths i)

/-- The request for these keys, of which the first belongs to the first path. -/
def RequestFor (context : DeleteContext σ) (authParams : S3AuthParams) (request : DeleteRequest)
    (part : List Bytes × List Bytes) : Prop :=
  deleteRequest context authParams (part.2.headD []) (xmlBody part.1) = .ok request

theorem isAuthRefreshFailure_of_ok {response : HTTPExchange.HTTPResponse}
    (hstatus : response.status = 200) : isAuthRefreshFailure response = false := by
  simp [isAuthRefreshFailure, hstatus]

theorem sendRequest_of_ok {lookupUrl body : Bytes} {retries : Nat} {authParams : S3AuthParams}
    {found : HTTPExchange.HTTPResponse × S3AuthParams}
    (hresult : (sendRequest context lookupUrl body retries authParams s).result = .ok found)
    (hok : ∀ exchange ∈ (sendRequest context lookupUrl body retries authParams s).exchanges,
      Succeeded exchange) :
    ∃ request, deleteRequest context authParams lookupUrl body = .ok request ∧
      (sendRequest context lookupUrl body retries authParams s).exchanges.map (·.request) =
        [request] ∧ found.2 = authParams := by
  unfold sendRequest at hresult hok ⊢
  cases hrequest : deleteRequest context authParams lookupUrl body with
  | error e =>
      rw [hrequest] at hresult
      cases hresult
  | ok request =>
      refine ⟨request, rfl, ?_⟩
      rcases hposted : context.postRequest s request with ⟨response, t⟩
      simp only [hrequest, hposted] at hresult hok ⊢
      cases response with
      | error error => cases hresult
      | ok returned =>
          cases returned with
          | none => cases hresult
          | some response =>
              have hstatus : Succeeded { request, response := .ok (some response) } := by
                apply hok
                cases retries with
                | zero => exact List.mem_singleton_self _
                | succ retries =>
                    simp only
                    split
                    · split
                      · exact List.mem_cons_self
                      · exact List.mem_cons_self
                      · exact List.mem_cons_self
                    · exact List.mem_singleton_self _
              cases retries with
              | zero =>
                  cases hresult
                  exact ⟨rfl, rfl⟩
              | succ retries =>
                  simp only [isAuthRefreshFailure_of_ok hstatus, Bool.false_eq_true, if_false]
                    at hresult ⊢
                  cases hresult
                  exact ⟨rfl, rfl⟩

theorem headD_block (paths : List Bytes) (i : Nat) :
    (block maxKeysPerRequest paths i).headD [] =
      (paths.drop (i * maxKeysPerRequest)).headD [] := by
  unfold block Foundation.Memory.slice
  cases paths.drop (i * maxKeysPerRequest) with
  | _ => rfl

theorem removeBatch_of_ok {batch : S3DeleteBatch} {i left : Nat} {authParams : S3AuthParams}
    (hresult : (removeBatch context batch i left authParams s).result = .ok ())
    (hok : ∀ exchange ∈ (removeBatch context batch i left authParams s).exchanges,
      Succeeded exchange) :
    List.Forall₂ (RequestFor context authParams)
      ((removeBatch context batch i left authParams s).exchanges.map (·.request))
      ((List.range' i left).map fun k =>
        (block maxKeysPerRequest batch.keys k,
          block maxKeysPerRequest batch.secretLookupPaths k)) := by
  induction left generalizing i authParams s with
  | zero => exact .nil
  | succ left ih =>
      unfold removeBatch at hresult hok ⊢
      simp only at hresult hok ⊢
      generalize hsent : sendRequest context
        ((batch.secretLookupPaths.drop (i * maxKeysPerRequest)).headD [])
        (xmlBody (block maxKeysPerRequest batch.keys i)) 1 authParams s = sent at hresult hok ⊢
      cases hfound : sent.result with
      | error error =>
          simp only [hfound] at hresult
          cases hresult
      | ok found =>
          obtain ⟨response, authParams'⟩ := found
          simp only [hfound] at hresult hok ⊢
          split at hresult
          · cases hresult
          rename_i hcheck
          simp only [hcheck] at hok ⊢
          subst hsent
          obtain ⟨request, hrequest, hexchanges, hsame⟩ := sendRequest_of_ok hfound
            fun exchange hmem => hok exchange (List.mem_append_left _ hmem)
          change authParams' = authParams at hsame
          subst hsame
          rw [List.map_append, hexchanges, List.range'_succ, List.map_cons, List.singleton_append]
          refine .cons ?_ (ih hresult fun exchange hmem =>
            hok exchange (List.mem_append_right _ hmem))
          rw [RequestFor, headD_block]
          exact hrequest

theorem removeBatches_of_ok {batches : List S3DeleteBatch}
    (hresult : (removeBatches context batches s).result = .ok ())
    (hok : ∀ exchange ∈ (removeBatches context batches s).exchanges, Succeeded exchange) :
    List.Forall₂ (fun request (entry : S3DeleteBatch × List Bytes × List Bytes) =>
        RequestFor context entry.1.urlInfo.authParams request entry.2)
      ((removeBatches context batches s).exchanges.map (·.request))
      (batches.flatMap fun batch => (requestParts batch).map (batch, ·)) := by
  induction batches generalizing s with
  | nil => exact .nil
  | cons batch batches ih =>
      unfold removeBatches at hresult hok ⊢
      simp only at hresult hok ⊢
      generalize hfirst : removeBatch context batch 0 (requestCount batch)
        batch.urlInfo.authParams s = first at hresult hok ⊢
      cases hfound : first.result with
      | error error =>
          simp only [hfound] at hresult
          cases hresult
      | ok found =>
          simp only [hfound] at hresult hok ⊢
          subst hfirst
          have hbatch := removeBatch_of_ok hfound
            fun exchange hmem => hok exchange (List.mem_append_left _ hmem)
          rw [List.map_append, List.flatMap_cons]
          refine List.rel_append ?_ (ih hresult fun exchange hmem =>
            hok exchange (List.mem_append_right _ hmem))
          rw [requestParts, List.range_eq_range', List.map_map, List.forall₂_map_right_iff]
          exact List.forall₂_map_right_iff.mp hbatch

def keyOf (context : DeleteContext σ) (s : σ) (path : Bytes) : Option Bytes :=
  (objectOf context s path).map (·.key)

/-- The object that `path` is taken for in a request that `first` speaks for. -/
def sentObject (context : DeleteContext σ) (s : σ) (first path : Bytes) : Option S3Object :=
  (objectOf context s first).bind fun object =>
    (keyOf context s path).map fun key => { object with key }

/-- The host and the bucket of the object that a path names. -/
def placeOf (context : DeleteContext σ) (s : σ) (path : Bytes) : Option (Bytes × Bytes) :=
  (objectOf context s path).map fun object => (object.host, object.bucketPath)

def PlainKeys (context : DeleteContext σ) (s : σ) (paths : List Bytes) : Prop :=
  ∀ path ∈ paths, ∀ key ∈ keyOf context s path, PlainKey key

/-- Of the paths with one batch key, every thousand lie in one bucket. -/
def OneBucket (context : DeleteContext σ) (s : σ) (paths : List Bytes) : Prop :=
  ∀ batchKey n, ∀ path ∈ block maxKeysPerRequest (batchmates context s batchKey paths) n,
    ∀ path' ∈ block maxKeysPerRequest (batchmates context s batchKey paths) n,
      placeOf context s path = placeOf context s path'

/-- No two buckets are asked for one key. -/
def KeysApart (context : DeleteContext σ) (s : σ) (paths : List Bytes) : Prop :=
  ∀ path ∈ paths, ∀ path' ∈ paths, keyOf context s path = keyOf context s path' →
    objectOf context s path = objectOf context s path'

/-- The objects that a request names, with the host and the bucket it is posted to. -/
def namedObjects (request : DeleteRequest) : Option (List S3Object) :=
  (readDeletion request.body).map fun names => names.map (S3Object.mk request.host request.path)

/-- The request names the keys of these paths, at most a thousand, and is signed with
the parameters that all of them resolve to. -/
structure Serves (context : DeleteContext σ) (s : σ) (request : DeleteRequest)
    (own : List Bytes) : Prop where
  keys : ∃ names, readDeletion request.body = some names ∧ names.length ≤ 1000 ∧
    (names.map some).Perm (own.map (keyOf context s))
  signed : ∀ path ∈ own, readS3AuthParams context.toSecrets s path = .ok request.authParams

structure DeletesExactly (context : DeleteContext σ) (s : σ) (paths : List Bytes)
    (requests : List DeleteRequest) : Prop where
  objects : ∃ named, requests.mapM namedObjects = some named ∧
    (named.flatten.map some).Perm (paths.map (objectOf context s))
  served : ∃ owns : List (List Bytes), owns.flatten.Perm paths ∧
    List.Forall₂ (Serves context s) requests owns

/-- What a request was made from. -/
structure Carries (context : DeleteContext σ) (s : σ) (request : DeleteRequest)
    (part : List Bytes × List Bytes) : Prop where
  body : request.body = xmlBody part.1
  size : part.1.length ≤ 1000
  keys : part.1.map some = part.2.map (keyOf context s)
  place : ∃ key, objectOf context s (part.2.headD []) =
    some { host := request.host, bucketPath := request.path, key }
  signed : ∀ path ∈ part.2, readS3AuthParams context.toSecrets s path = .ok request.authParams

theorem keyOf_of_target {t : Target} (htarget : target context s path = .ok t) :
    keyOf context s path = some t.key := by
  obtain ⟨parsed, -, hobject⟩ := (targetOf_of_target htarget).object
  rw [keyOf, hobject]
  rfl

theorem carries_of_requestFor {batchKey : Bytes} {batch : S3DeleteBatch}
    {request : DeleteRequest} {part : List Bytes × List Bytes}
    (hbatch : BatchOf context s batchKey batch) (hpart : part ∈ requestParts batch)
    (hrequest : RequestFor context batch.urlInfo.authParams request part) :
    Carries context s request part := by
  obtain ⟨i, hi, rfl⟩ := List.mem_map.mp hpart
  rw [List.mem_range] at hi
  have htargets : List.Forall₂ _ (block maxKeysPerRequest batch.keys i)
      (block maxKeysPerRequest batch.secretLookupPaths i) :=
    List.forall₂_take _ (List.forall₂_drop _ hbatch.targets)
  have hnonempty : block maxKeysPerRequest batch.secretLookupPaths i ≠ [] := by
    rw [ne_eq, ← List.length_eq_zero_iff, length_block, ← length_paths hbatch]
    unfold requestCount maxKeysPerRequest at hi
    unfold maxKeysPerRequest
    omega
  have hmember : ∀ path ∈ block maxKeysPerRequest batch.secretLookupPaths i,
      ∃ t, target context s path = .ok t ∧ t.urlInfo = batch.urlInfo := fun path hpath =>
    hbatch.target_of_mem (List.mem_of_mem_drop (List.mem_of_mem_take hpath))
  unfold RequestFor deleteRequest at hrequest
  obtain ⟨parsed, hparse, hmade⟩ := bind_eq_ok.mp hrequest
  cases hmade
  refine ⟨rfl, ?_, ?_, ?_, ?_⟩
  · rw [length_block]
    exact Nat.min_le_left _ _
  · rw [← List.forall₂_eq_eq_eq, List.forall₂_map_left_iff, List.forall₂_map_right_iff]
    refine htargets.imp ?_
    rintro key path ⟨t, htarget, -, rfl⟩
    exact (keyOf_of_target htarget).symm
  · obtain ⟨first, paths, hpaths⟩ := List.exists_cons_of_ne_nil hnonempty
    obtain ⟨t, htarget, hinfo⟩ := hmember first (by rw [hpaths]; exact List.mem_cons_self)
    obtain ⟨parsed', hparse', hobject⟩ := (targetOf_of_target htarget).object
    simp only [hpaths, List.headD_cons] at hparse ⊢
    rw [hinfo, hparse] at hparse'
    cases hparse'
    exact ⟨_, hobject⟩
  · intro path hpath
    obtain ⟨t, htarget, hinfo⟩ := hmember path hpath
    rw [(targetOf_of_target htarget).auth, hinfo]

theorem flatMap_requestParts {batchKey : Bytes} {batch : S3DeleteBatch}
    (hbatch : BatchOf context s batchKey batch) :
    (requestParts batch).flatMap Prod.snd = batch.secretLookupPaths := by
  have henough : batch.secretLookupPaths.length ≤ requestCount batch * maxKeysPerRequest := by
    rw [← length_paths hbatch]
    unfold requestCount maxKeysPerRequest
    omega
  rw [requestParts, List.flatMap_map]
  exact flatMap_block_of_le henough

def AllSucceed (run : Removed σ) : Prop :=
  run.result.isOk = true ∧ ∀ exchange ∈ run.exchanges, Succeeded exchange

instance (run : Removed σ) : Decidable (AllSucceed run) :=
  inferInstanceAs (Decidable (_ ∧ _))

def requestsOf (run : Removed σ) : List DeleteRequest := run.exchanges.map (·.request)

theorem mem_requestParts_iff {batches : DeleteBatches} {paths own : List Bytes}
    (hgrouped : Grouped context s paths batches)
    (hbatches : ∀ entry ∈ batches, BatchOf context s entry.1 entry.2) :
    own ∈ (batches.map Prod.snd).flatMap (fun batch => (requestParts batch).map Prod.snd) ↔
      own ≠ [] ∧ ∃ batchKey n,
        own = block maxKeysPerRequest (batchmates context s batchKey paths) n := by
  have hnonempty : ∀ entry ∈ batches, ∀ n, n < requestCount entry.2 ↔
      block maxKeysPerRequest (batchmates context s entry.1 paths) n ≠ [] := by
    intro entry hentry n
    rw [← hgrouped.paths entry hentry, ne_eq, ← List.length_eq_zero_iff, length_block,
      ← length_paths (hbatches entry hentry)]
    unfold requestCount maxKeysPerRequest
    omega
  constructor
  · intro hown
    obtain ⟨batch, hbatch, hpart⟩ := List.mem_flatMap.mp hown
    obtain ⟨entry, hentry, rfl⟩ := List.mem_map.mp hbatch
    simp only [requestParts, List.map_map, List.mem_map, List.mem_range] at hpart
    obtain ⟨n, hn, rfl⟩ := hpart
    simp only [Function.comp, hgrouped.paths entry hentry]
    exact ⟨(hnonempty entry hentry n).mp hn, entry.1, n, rfl⟩
  · rintro ⟨hown, batchKey, n, rfl⟩
    obtain ⟨path, hpath⟩ := List.exists_mem_of_ne_nil _ hown
    have hmate := List.mem_filter.mp (List.mem_of_mem_drop (List.mem_of_mem_take hpath))
    obtain ⟨entry, hentry, rfl⟩ := List.mem_map.mp
      (hgrouped.complete path hmate.1 batchKey (by simpa using hmate.2))
    refine List.mem_flatMap.mpr ⟨entry.2, List.mem_map_of_mem hentry, ?_⟩
    simp only [requestParts, List.map_map, List.mem_map, List.mem_range]
    refine ⟨n, (hnonempty entry hentry n).mpr hown, ?_⟩
    simp only [Function.comp, hgrouped.paths entry hentry]

theorem carries_of_allSucceed {paths : List Bytes}
    (hrun : AllSucceed (removeFiles context paths s)) :
    ∃ parts : List (List Bytes × List Bytes),
      List.Forall₂ (Carries context s) (requestsOf (removeFiles context paths s)) parts ∧
      (parts.flatMap Prod.snd).Perm paths ∧
      ∀ own, own ∈ parts.map Prod.snd ↔ own ≠ [] ∧ ∃ batchKey n,
        own = block maxKeysPerRequest (batchmates context s batchKey paths) n := by
  obtain ⟨hisOk, hok⟩ := hrun
  have hresult : (removeFiles context paths s).result = .ok () := by
    cases hcase : (removeFiles context paths s).result with
    | ok _ => rfl
    | error e =>
        rw [hcase] at hisOk
        cases hisOk
  unfold requestsOf
  unfold removeFiles at hresult hok ⊢
  cases hcollect : collect context s paths [] with
  | error e =>
      rw [hcollect] at hresult
      cases hresult
  | ok batches =>
      simp only [hcollect] at hresult hok ⊢
      obtain ⟨hbatches, hpaths⟩ := collect_spec
        (fun _ hentry => absurd hentry List.not_mem_nil) hcollect
      have hperm := context.iterate_perm batches
      generalize context.iterate batches = order at hresult hok hperm ⊢
      have horder : ∀ batch ∈ order.map Prod.snd,
          ∃ batchKey, BatchOf context s batchKey batch := by
        intro batch hbatch
        obtain ⟨entry, hentry, rfl⟩ := List.mem_map.mp hbatch
        exact ⟨entry.1, hbatches entry (hperm.subset hentry)⟩
      have hrequests := removeBatches_of_ok hresult hok
      refine ⟨(order.map Prod.snd).flatMap requestParts, ?_, ?_, ?_⟩
      · have hforget : (order.map Prod.snd).flatMap requestParts =
            ((order.map Prod.snd).flatMap fun batch =>
              (requestParts batch).map (batch, ·)).map Prod.snd := by
          simp [List.map_flatMap, Function.comp_def]
        rw [hforget, List.forall₂_map_right_iff]
        refine forall₂_mem_imp hrequests ?_
        rintro request ⟨batch, part⟩ hmem hrequest
        simp only at hrequest ⊢
        obtain ⟨batch', hbatch, hpart⟩ := List.mem_flatMap.mp hmem
        obtain ⟨part', hpart', heq⟩ := List.mem_map.mp hpart
        cases heq
        obtain ⟨batchKey, hbatchOf⟩ := horder batch hbatch
        exact carries_of_requestFor hbatchOf hpart' hrequest
      · have hflat : ((order.map Prod.snd).flatMap requestParts).flatMap Prod.snd =
            batchPaths order := by
          rw [batchPaths_eq, List.flatMap_assoc]
          refine List.flatMap_congr ?_
          intro batch hbatch
          obtain ⟨batchKey, hbatchOf⟩ := horder batch hbatch
          exact flatMap_requestParts hbatchOf
        rw [hflat]
        refine (hperm.flatMap_right _).trans ?_
        simpa [batchPaths] using hpaths
      · intro own
        have hgrouped : Grouped context s paths batches :=
          grouped_of_collect grouped_nil hcollect
        rw [← mem_requestParts_iff hgrouped fun entry hentry => hbatches entry hentry,
          ← List.map_flatMap, List.mem_map, List.mem_map]
        exact exists_congr fun part => and_congr_left fun _ =>
          ((hperm.map Prod.snd).flatMap_right _).mem_iff

variable {requests : List DeleteRequest} {parts : List (List Bytes × List Bytes)}
  {paths : List Bytes}

theorem namedObjects_of_plain {request : DeleteRequest} {part : List Bytes × List Bytes}
    (hcarries : Carries context s request part) (hplain : ∀ key ∈ part.1, PlainKey key) :
    ∃ named, namedObjects request = some named ∧
      named.map some = part.2.map (sentObject context s (part.2.headD [])) := by
  refine ⟨part.1.map (S3Object.mk request.host request.path), ?_, ?_⟩
  · rw [namedObjects, hcarries.body, readDeletion_xmlBody hplain]
    rfl
  · obtain ⟨first, hfirst⟩ := hcarries.place
    have hsent : ∀ path, sentObject context s (part.2.headD []) path =
        (keyOf context s path).map (S3Object.mk request.host request.path) := by
      intro path
      rw [sentObject, hfirst]
      rfl
    have hkeys := congrArg (List.map (Option.map (S3Object.mk request.host request.path)))
      hcarries.keys
    rw [List.map_map, List.map_map] at hkeys
    rw [List.map_map, List.map_congr_left fun path _ => hsent path]
    exact hkeys

theorem mapM_namedObjects_of_plain (hcarries : List.Forall₂ (Carries context s) requests parts)
    (hplain : ∀ part ∈ parts, ∀ key ∈ part.1, PlainKey key) :
    ∃ named, requests.mapM namedObjects = some named ∧ named.flatten.map some =
      (parts.map Prod.snd).flatMap fun own =>
        own.map (sentObject context s (own.headD [])) := by
  induction hcarries with
  | nil => exact ⟨[], rfl, rfl⟩
  | cons hfirst hrest ih =>
      obtain ⟨named, hnamed, hsent⟩ :=
        namedObjects_of_plain hfirst (hplain _ List.mem_cons_self)
      obtain ⟨rest, hmap, hflat⟩ :=
        ih fun part hpart => hplain part (List.mem_cons_of_mem _ hpart)
      refine ⟨named :: rest, ?_, ?_⟩
      · rw [List.mapM_cons, hnamed, hmap]
        rfl
      · rw [List.flatten_cons, List.map_append, hsent, hflat, List.map_cons, List.flatMap_cons]

theorem readBack_of_mapM (hcarries : List.Forall₂ (Carries context s) requests parts)
    {named : List (List S3Object)} (hnamed : requests.mapM namedObjects = some named) :
    ReadBack (parts.flatMap Prod.fst) (named.flatten.map (·.key)) := by
  induction hcarries generalizing named with
  | nil =>
      cases hnamed
      exact ⟨nofun, Nat.le_refl _, fun _ => ⟨nofun, nofun⟩⟩
  | @cons request part requests parts hfirst hrest ih =>
      rw [List.mapM_cons] at hnamed
      obtain ⟨first, hread, hothers⟩ := Option.bind_eq_some_iff.mp hnamed
      obtain ⟨rest, hmap, hjoin⟩ := Option.bind_eq_some_iff.mp hothers
      cases hjoin
      obtain ⟨names, hnames, rfl⟩ := Option.map_eq_some_iff.mp hread
      rw [hfirst.body] at hnames
      -- what this request reads back weighs no more than the keys it was made from
      have hback := readBack_of_readDeletion hnames
      have hmore := ih hmap
      have hkeys : (names.map (S3Object.mk request.host request.path)).map (·.key) = names := by
        simp [Function.comp_def]
      rw [List.flatten_cons, List.map_append, hkeys, List.flatMap_cons]
      have hweight := hback.weight
      have hweights := hmore.weight
      constructor
      · intro key hkey
        rcases List.mem_append.mp hkey with hmem | hmem
        · exact hback.text key hmem
        · exact hmore.text key hmem
      · simp only [List.map_append, List.sum_append]
        omega
      · simp only [List.map_append, List.sum_append]
        intro hequal
        obtain ⟨hverbatim, hreturn⟩ := hback.verbatim (by omega)
        obtain ⟨hverbatims, hreturns⟩ := hmore.verbatim (by omega)
        simp only [List.mem_append]
        exact ⟨fun name hname => hname.elim (hverbatim name) (hverbatims name),
          fun key hkey => hkey.elim (hreturn key) (hreturns key)⟩

theorem keys_of_carries (hcarries : List.Forall₂ (Carries context s) requests parts) :
    (parts.flatMap Prod.fst).map some = (parts.flatMap Prod.snd).map (keyOf context s) := by
  induction hcarries with
  | nil => rfl
  | cons hfirst hrest ih =>
      rw [List.flatMap_cons, List.flatMap_cons, List.map_append, List.map_append, ih, hfirst.keys]

theorem plain_of_named (hcarries : List.Forall₂ (Carries context s) requests parts)
    (hpaths : (parts.flatMap Prod.snd).Perm paths) {named : List (List S3Object)}
    (hnamed : requests.mapM namedObjects = some named)
    (hperm : (named.flatten.map some).Perm (paths.map (objectOf context s))) :
    ∀ key ∈ parts.flatMap Prod.fst, PlainKey key := by
  have hback := readBack_of_mapM hcarries hnamed
  have hsome : ((named.flatten.map (·.key)).map some).Perm
      ((parts.flatMap Prod.fst).map some) := by
    rw [keys_of_carries hcarries]
    have hkeys := hperm.map (Option.map (·.key))
    rw [List.map_map, List.map_map] at hkeys
    rw [List.map_map]
    exact hkeys.trans (hpaths.map _).symm
  have hkeys : (named.flatten.map (·.key)).Perm (parts.flatMap Prod.fst) := by
    have hback := hsome.filterMap id
    simpa [List.filterMap_map, Function.comp_def] using hback
  obtain ⟨hverbatim, hreturn⟩ := hback.verbatim (hkeys.map keyWeight).sum_nat
  intro key hkey
  obtain ⟨hnonempty, hdata⟩ := hverbatim key (hkeys.symm.subset hkey)
  exact ⟨hnonempty, hback.text key hkey, hdata, hreturn key hkey⟩

theorem serves_of_plain {request : DeleteRequest} {part : List Bytes × List Bytes}
    (hcarries : Carries context s request part) (hplain : ∀ key ∈ part.1, PlainKey key) :
    Serves context s request part.2 := by
  refine ⟨⟨part.1, ?_, hcarries.size, ?_⟩, hcarries.signed⟩
  · rw [hcarries.body, readDeletion_xmlBody hplain]
  · rw [hcarries.keys]

theorem sentObject_eq_iff {first : Bytes} {object : S3Object}
    (hobject : objectOf context s path = some object)
    (hfirst : (objectOf context s first).isSome) :
    sentObject context s first path = objectOf context s path ↔
      placeOf context s first = placeOf context s path := by
  obtain ⟨⟨host, bucketPath, key⟩, hfirst⟩ := Option.isSome_iff_exists.mp hfirst
  obtain ⟨host', bucketPath', key'⟩ := object
  simp [sentObject, placeOf, keyOf, hobject, hfirst]

theorem key_sentObject {first : Bytes} (hfirst : (objectOf context s first).isSome) :
    (sentObject context s first path).map (·.key) = keyOf context s path := by
  obtain ⟨object, hfirst⟩ := Option.isSome_iff_exists.mp hfirst
  simp [sentObject, hfirst, Function.comp_def]

theorem objectOf_of_mem (hcarries : List.Forall₂ (Carries context s) requests parts)
    (hpath : path ∈ parts.flatMap Prod.snd) :
    ∃ object, objectOf context s path = some object := by
  have hkey := List.mem_map_of_mem (f := keyOf context s) hpath
  rw [← keys_of_carries hcarries] at hkey
  obtain ⟨key, -, hkey⟩ := List.mem_map.mp hkey
  obtain ⟨object, hobject, -⟩ := Option.map_eq_some_iff.mp hkey.symm
  exact ⟨object, hobject⟩

theorem place_of_mem (hcarries : List.Forall₂ (Carries context s) requests parts)
    {own : List Bytes} (hown : own ∈ parts.map Prod.snd) :
    (objectOf context s (own.headD [])).isSome := by
  obtain ⟨part, hpart, rfl⟩ := List.mem_map.mp hown
  obtain ⟨request, -, hpartCarries⟩ := exists_of_forall₂_right hcarries hpart
  obtain ⟨key, hfirst⟩ := hpartCarries.place
  rw [hfirst]
  rfl

theorem headD_mem {own : List Bytes} (hown : own ≠ []) : own.headD [] ∈ own := by
  cases own with
  | nil => exact absurd rfl hown
  | cons first own => exact List.mem_cons_self

theorem sent_of_oneBucket (hcarries : List.Forall₂ (Carries context s) requests parts)
    (hblocks : ∀ own, own ∈ parts.map Prod.snd ↔ own ≠ [] ∧ ∃ batchKey n,
      own = block maxKeysPerRequest (batchmates context s batchKey paths) n)
    (hbucket : OneBucket context s paths) :
    (parts.map Prod.snd).flatMap (fun own => own.map (sentObject context s (own.headD []))) =
      (parts.flatMap Prod.snd).map (objectOf context s) := by
  rw [List.flatMap_def, List.flatMap_def, List.map_flatten]
  refine congrArg List.flatten (List.map_congr_left ?_)
  intro own hown
  obtain ⟨hnonempty, batchKey, n, hblock⟩ := (hblocks own).mp hown
  refine List.map_congr_left fun path hpath => ?_
  obtain ⟨object, hobject⟩ := objectOf_of_mem hcarries
    (List.flatMap_def ▸ List.mem_flatten_of_mem hown hpath)
  rw [sentObject_eq_iff hobject (place_of_mem hcarries hown)]
  rw [hblock] at hpath hnonempty ⊢
  exact hbucket batchKey n _ (headD_mem hnonempty) path hpath

theorem oneBucket_of_sent (hcarries : List.Forall₂ (Carries context s) requests parts)
    (hpaths : (parts.flatMap Prod.snd).Perm paths)
    (hblocks : ∀ own, own ∈ parts.map Prod.snd ↔ own ≠ [] ∧ ∃ batchKey n,
      own = block maxKeysPerRequest (batchmates context s batchKey paths) n)
    (hapart : KeysApart context s paths)
    (hsent : ((parts.map Prod.snd).flatMap fun own =>
      own.map (sentObject context s (own.headD []))).Perm (paths.map (objectOf context s))) :
    OneBucket context s paths := by
  intro batchKey n
  generalize hblock : block maxKeysPerRequest (batchmates context s batchKey paths) n = own
  have hfirst : ∀ path ∈ own, placeOf context s (own.headD []) = placeOf context s path := by
    intro path hpath
    have hown := (hblocks own).mpr ⟨List.ne_nil_of_mem hpath, batchKey, n, hblock.symm⟩
    have hmem : path ∈ parts.flatMap Prod.snd :=
      List.flatMap_def ▸ List.mem_flatten_of_mem hown hpath
    obtain ⟨object, hobject⟩ := objectOf_of_mem hcarries hmem
    have hhead := place_of_mem hcarries hown
    rw [← sentObject_eq_iff hobject hhead]
    obtain ⟨path', hpath', hsame⟩ := List.mem_map.mp (hsent.subset
      (List.mem_flatMap.mpr ⟨own, hown, List.mem_map_of_mem hpath⟩))
    -- some path asks for the object sent for this one, under the same key
    have hkey : keyOf context s path' = keyOf context s path := by
      rw [keyOf, hsame, key_sentObject hhead]
    rw [← hsame]
    exact hapart path' hpath' path (hpaths.subset hmem) hkey
  intro path hpath path' hpath'
  exact (hfirst path hpath).symm.trans (hfirst path' hpath')

/-- `RemoveFiles` writes keys into the XML of its requests as they are. It deletes
exactly the objects asked for only if every key stands for itself there, and if
every request is about one bucket, this is enough. Where no two buckets are asked
for one key, it does so exactly if both hold. -/
theorem deletesExactly_iff (hrun : AllSucceed (removeFiles context paths s)) :
    (DeletesExactly context s paths (requestsOf (removeFiles context paths s)) →
      PlainKeys context s paths) ∧
    (OneBucket context s paths →
      (DeletesExactly context s paths (requestsOf (removeFiles context paths s)) ↔
        PlainKeys context s paths)) ∧
    (KeysApart context s paths →
      (DeletesExactly context s paths (requestsOf (removeFiles context paths s)) ↔
        PlainKeys context s paths ∧ OneBucket context s paths)) := by
  obtain ⟨parts, hcarries, hpaths, hblocks⟩ := carries_of_allSucceed hrun
  generalize requestsOf (removeFiles context paths s) = requests at hcarries
  have hkeys := keys_of_carries hcarries
  have hmem : PlainKeys context s paths ↔ ∀ key ∈ parts.flatMap Prod.fst, PlainKey key := by
    constructor
    · intro hplain key hkey
      have hsome := List.mem_map_of_mem (f := some) hkey
      rw [hkeys] at hsome
      obtain ⟨path, hpath, hpathKey⟩ := List.mem_map.mp hsome
      exact hplain path (hpaths.subset hpath) key hpathKey
    · intro hplain path hpath key hkey
      have hsome := List.mem_map_of_mem (f := keyOf context s) (hpaths.symm.subset hpath)
      rw [← hkeys, hkey] at hsome
      obtain ⟨key', hkey', heq⟩ := List.mem_map.mp hsome
      cases heq
      exact hplain key hkey'
  have hpart : PlainKeys context s paths → ∀ part ∈ parts, ∀ key ∈ part.1, PlainKey key :=
    fun hplain part hpart key hkey =>
      hmem.mp hplain key (List.mem_flatMap.mpr ⟨part, hpart, hkey⟩)
  have hplainOf : DeletesExactly context s paths requests → PlainKeys context s paths := by
    rintro ⟨⟨named, hnamed, hperm⟩, -⟩
    exact hmem.mpr (plain_of_named hcarries hpaths hnamed hperm)
  -- with one bucket a block, its first path speaks for all of it
  have hexact : PlainKeys context s paths → OneBucket context s paths →
      DeletesExactly context s paths requests := by
    intro hplain hbucket
    obtain ⟨named, hnamed, hflat⟩ := mapM_namedObjects_of_plain hcarries (hpart hplain)
    refine ⟨⟨named, hnamed, ?_⟩, parts.map Prod.snd, ?_, ?_⟩
    · rw [hflat, sent_of_oneBucket hcarries hblocks hbucket]
      exact hpaths.map _
    · rwa [← List.flatMap_def]
    · rw [List.forall₂_map_right_iff]
      exact forall₂_mem_imp hcarries fun request part hmem hcarries =>
        serves_of_plain hcarries (hpart hplain part hmem)
  refine ⟨hplainOf, fun hbucket => ⟨hplainOf, fun hplain => hexact hplain hbucket⟩, ?_⟩
  intro hapart
  refine ⟨fun hdeletes => ⟨hplainOf hdeletes, ?_⟩, fun hboth => hexact hboth.1 hboth.2⟩
  obtain ⟨named, hnamed, hperm⟩ := hdeletes.objects
  obtain ⟨named', hnamed', hflat⟩ :=
    mapM_namedObjects_of_plain hcarries (hpart (hplainOf hdeletes))
  rw [hnamed] at hnamed'
  cases hnamed'
  exact oneBucket_of_sent hcarries hpaths hblocks hapart (hflat ▸ hperm)

/-- The query strings leave endpoint and URL style as settings and secrets have them. -/
def SettingsRule (context : DeleteContext σ) (s : σ) (path : Bytes) : Prop :=
  ∀ t, target context s path = .ok t →
    t.urlInfo.authParams.endpoint = (readFrom (context.reader s path) path).endpoint ∧
      t.urlInfo.authParams.urlStyle = (readFrom (context.reader s path) path).urlStyle

theorem s3UrlParse_place {url : Bytes} {params params' : S3AuthParams}
    {parsed parsed' : ParsedS3Url}
    (hmode : params'.s3UrlCompatibilityMode = params.s3UrlCompatibilityMode)
    (hendpoint : params'.endpoint = params.endpoint)
    (hstyle : params'.urlStyle = params.urlStyle)
    (hparse : s3UrlParse url params = .ok parsed)
    (hparse' : s3UrlParse url params' = .ok parsed') :
    parsed'.host = parsed.host ∧ getS3BucketPath parsed' = getS3BucketPath parsed := by
  have hsplit : ∀ slashPos, splitQuery params' url slashPos = splitQuery params url slashPos := by
    intro slashPos
    rw [splitQuery, splitQuery, hmode]
  have hplace : ∀ bucket, hostAndPath params' bucket = hostAndPath params bucket := by
    intro bucket
    rw [hostAndPath, hostAndPath, hendpoint, hstyle]
  unfold s3UrlParse at hparse hparse'
  simp only [bind, Except.bind, pure, Except.pure, hsplit, hplace] at hparse hparse'
  split at hparse
  · cases hparse
  · split at hparse
    · cases hparse
    · split at hparse
      · cases hparse
      · split at hparse
        · cases hparse
        · cases hparse
          simp_all
          cases hparse'
          exact ⟨rfl, rfl⟩

theorem placeOf_of_settingsRule {t : Target} (hrule : SettingsRule context s path)
    (htarget : target context s path = .ok t) :
    placeOf context s path = some (t.urlInfo.host, t.urlInfo.path) := by
  obtain ⟨hendpoint, hstyle⟩ := hrule t htarget
  obtain ⟨parsed', hparse', hobject⟩ := (targetOf_of_target htarget).object
  unfold target at htarget
  simp only at htarget
  split at htarget
  · cases htarget
  rename_i parsed hparse
  obtain ⟨authParams, hread, hmade⟩ := bind_eq_ok.mp htarget
  cases hmade
  obtain ⟨hhost, hpath⟩ := s3UrlParse_place (readQueryParams_compatibilityMode hread)
    hendpoint hstyle hparse hparse'
  rw [placeOf, hobject]
  simp [hhost, hpath]

theorem oneBucket_of_settingsRule {paths : List Bytes}
    (hrule : ∀ path ∈ paths, SettingsRule context s path) : OneBucket context s paths := by
  have hplace : ∀ batchKey n, ∀ path ∈ block maxKeysPerRequest
      (batchmates context s batchKey paths) n, ∃ t, target context s path = .ok t ∧
        t.batchKey = batchKey ∧
          placeOf context s path = some (t.urlInfo.host, t.urlInfo.path) := by
    intro batchKey n path hpath
    obtain ⟨hmem, hmate⟩ := List.mem_filter.mp (List.mem_of_mem_drop (List.mem_of_mem_take hpath))
    obtain ⟨t, htarget, hkey⟩ := Option.map_eq_some_iff.mp (of_decide_eq_true hmate)
    have htarget : target context s path = .ok t := by
      cases hresult : target context s path with
      | error e =>
          rw [hresult] at htarget
          cases htarget
      | ok t' =>
          rw [hresult] at htarget
          cases htarget
          rfl
    exact ⟨t, htarget, hkey, placeOf_of_settingsRule (hrule path hmem) htarget⟩
  intro batchKey n path hpath path' hpath'
  obtain ⟨t, htarget, hkey, hhere⟩ := hplace batchKey n path hpath
  obtain ⟨t', htarget', hkey', hthere⟩ := hplace batchKey n path' hpath'
  have hsame : createDeleteBatchKey context s t.urlInfo path =
      createDeleteBatchKey context s t'.urlInfo path' := by
    rw [← (targetOf_of_target htarget).batchKey, ← (targetOf_of_target htarget').batchKey,
      hkey, hkey']
  have hinfo : t.urlInfo = t'.urlInfo := urlInfo_of_batchKey hsame
  rw [hhere, hthere, hinfo]

/-- No secret manager, default settings, and a server that answers every request with
an empty body. -/
def plainContext : DeleteContext Unit where
  reader _ _ := { text := fun _ _ => none, flag := fun _ _ => none, secretText := fun _ => none }
  initializeParameters _ _ := {}
  parseGetParameters _ := []
  lookupSecret := none
  credentialRefreshEnabled := false
  hasRefreshableS3Secret _ _ := false
  postRequest _ _ := (.ok (some { status := 200 }), ())
  tryRefreshS3AuthParams _ _ _ _ := (.ok none, ())
  urlEncode := id
  iterate := id
  iterate_perm _ := List.Perm.refl _

theorem endpoint_of_noQuery {query : Bytes} {params params' : S3AuthParams}
    (hread : readQueryParams (fun _ => []) query params = .ok params') :
    params'.endpoint = params.endpoint ∧ params'.urlStyle = params.urlStyle := by
  unfold readQueryParams at hread
  simp only [bind, Except.bind, pure, Except.pure, getQueryParam, getQueryFlag, List.lookup_nil,
    List.isEmpty_nil, Bool.not_true, Bool.false_eq_true, if_false] at hread
  split at hread
  all_goals
    cases hread
    exact ⟨rfl, rfl⟩

theorem deletesExactly_iff_two_keys :
    AllSucceed (removeFiles plainContext [bytes "s3://b/x/1", bytes "s3://b/y"] ()) ∧
      DeletesExactly plainContext () [bytes "s3://b/x/1", bytes "s3://b/y"]
        (requestsOf (removeFiles plainContext [bytes "s3://b/x/1", bytes "s3://b/y"] ())) := by
  have hrun : AllSucceed
      (removeFiles plainContext [bytes "s3://b/x/1", bytes "s3://b/y"] ()) := by
    decide +kernel
  have hplain : PlainKeys plainContext () [bytes "s3://b/x/1", bytes "s3://b/y"] := by
    unfold PlainKeys
    decide +kernel
  have hbucket : OneBucket plainContext () [bytes "s3://b/x/1", bytes "s3://b/y"] := by
    apply oneBucket_of_settingsRule
    intro path hpath t htarget
    unfold target at htarget
    simp only at htarget
    split at htarget
    · cases htarget
    · obtain ⟨authParams, hread, hmade⟩ := bind_eq_ok.mp htarget
      cases hmade
      exact endpoint_of_noQuery hread
  exact ⟨hrun, ((deletesExactly_iff hrun).2.1 hbucket).mpr hplain⟩

/-- A key that looks like a reference: the request for `a&amp;b` names `a&b`. -/
theorem other_object_deleted :
    AllSucceed (removeFiles plainContext [bytes "s3://b/a&amp;b"] ()) ∧
      ¬ DeletesExactly plainContext () [bytes "s3://b/a&amp;b"]
        (requestsOf (removeFiles plainContext [bytes "s3://b/a&amp;b"] ())) := by
  refine ⟨by decide +kernel, ?_⟩
  rintro ⟨⟨named, hnamed, hperm⟩, -⟩
  have hread : (requestsOf (removeFiles plainContext [bytes "s3://b/a&amp;b"] ())).mapM
      namedObjects = some [[{ host := bytes "b.s3.amazonaws.com", bucketPath := bytes "/"
                              key := bytes "a&b" }]] := by
    decide +kernel
  have hobject : [bytes "s3://b/a&amp;b"].map (objectOf plainContext ()) =
      [some { host := bytes "b.s3.amazonaws.com", bucketPath := bytes "/"
              key := bytes "a&amp;b" }] := by
    decide +kernel
  rw [hread] at hnamed
  cases hnamed
  rw [hobject] at hperm
  have hsame := List.perm_singleton.mp hperm
  exact absurd hsame (by decide)

end HaybarnHttpfs.BulkDelete
