import HaybarnHttpfs.HTTPExchange
import HaybarnHttpfs.S3Auth
import HaybarnHttpfs.S3Xml

/-!
`RunS3RequestWithAuthRefreshInternal`: the loop that sends an S3 request, with a
credential refresh and a region redirect of one shot each.
-/

namespace HaybarnHttpfs.S3RequestLoop

open HaybarnHttpfs.Foundation.ByteStrings
open HaybarnHttpfs.HTTPExchange HaybarnHttpfs.S3Auth HaybarnHttpfs.S3Xml

universe u

def isAuthRefreshFailure (response : HTTPResponse) : Bool :=
  if response.status = 401 ∨ response.status = 403 then true
  else if response.status ≠ 400 then false
  else tryGetS3ErrorCode response.body = some (bytes "ExpiredToken")

/-- `IsAuthRefreshFailure` of an exception. -/
def isAuthRefreshError (error : ErrorData) : Bool :=
  match error.extraInfo.lookup (bytes "status_code") with
  | none => false
  | some statusCode =>
      if statusCode = bytes "401" ∨ statusCode = bytes "403" then true
      else if statusCode ≠ bytes "400" then false
      else
        match error.extraInfo.lookup (bytes "response_body") with
        | none => false
        | some body => tryGetS3ErrorCode body = some (bytes "ExpiredToken")

def getRegionRedirect (response : HTTPResponse) (authParams : S3AuthParams) : Option Bytes :=
  if response.status ≠ 301 ∧ response.status ≠ 400 then none
  else if !response.hasHeader (bytes "x-amz-bucket-region") then none
  else
    let responseRegion := response.getHeaderValue (bytes "x-amz-bucket-region")
    if responseRegion.isEmpty || responseRegion = authParams.region then none
    else some responseRegion

/-- `GetRegionRedirect` of an exception. -/
def getRegionRedirectError (error : ErrorData) (authParams : S3AuthParams) : Option Bytes :=
  match error.extraInfo.lookup (bytes "status_code") with
  | none => none
  | some statusCode =>
      if statusCode ≠ bytes "301" ∧ statusCode ≠ bytes "400" then none
      else
        match error.extraInfo.lookup (bytes "header_x-amz-bucket-region") with
        | none => none
        | some newRegion =>
            if newRegion.isEmpty || newRegion = authParams.region then none else some newRegion

structure S3RequestData where
  authParams : S3AuthParams
  refreshableHttpParams : S3RefreshableHTTPParams
  sourceUrl : Bytes := []
  httpUrl : Bytes := []
  headers : List (Bytes × Bytes) := []
  etag : Bytes := []

/-- What `request` gives back: a pointer to a response, which may be null. -/
abbrev Returned := Option HTTPResponse

/-- The four callables the loop is instantiated with. They share the state of the
handle and of everything else that they read. -/
structure Callbacks (σ : Type u) where
  createData : σ → Except ErrorData S3RequestData × σ
  request : σ → S3RequestData → Except ErrorData Returned × σ
  refreshAuthParams : σ → S3AuthParams → S3RefreshableHTTPParams → Except ErrorData Bool × σ
  setRegion : σ → Bytes → Except ErrorData Unit × σ

/-- A call that the loop made, with what came back. -/
inductive Call where
  | createData (result : Except ErrorData S3RequestData)
  | request (data : S3RequestData) (result : Except ErrorData Returned)
  | refreshAuthParams (authParams : S3AuthParams) (httpParams : S3RefreshableHTTPParams)
      (result : Except ErrorData Bool)
  | setRegion (region : Bytes) (result : Except ErrorData Unit)

structure Entry (σ : Type u) where
  before : σ
  call : Call
  after : σ

inductive Recovery where
  | authRefresh
  | region
  deriving DecidableEq

/-- How one iteration of the loop ends. -/
inductive Verdict where
  | retry (recovery : Recovery)
  | ended (result : Except ErrorData Returned)

variable {σ : Type u}

def switchRegion (callbacks : Callbacks σ) (retriedRegion : Bool) (redirect : Option Bytes)
    (s : σ) : Except ErrorData (Option Recovery) × σ × List (Entry σ) :=
  match (if retriedRegion then none else redirect) with
  | none => (.ok none, s, [])
  | some correctRegion =>
      match callbacks.setRegion s correctRegion with
      | (.error error, t) =>
          (.error error, t, [⟨s, .setRegion correctRegion (.error error), t⟩])
      | (.ok (), t) => (.ok (some .region), t, [⟨s, .setRegion correctRegion (.ok ()), t⟩])

/-- The two recoveries, which stand in the `try` block and once more in the
`catch` block. -/
def tryRecover (callbacks : Callbacks σ) (retriedAuthRefresh retriedRegion : Bool)
    (data : S3RequestData) (authFailure : Bool) (redirect : Option Bytes) (s : σ) :
    Except ErrorData (Option Recovery) × σ × List (Entry σ) :=
  if !retriedAuthRefresh && authFailure then
    let refresh := Call.refreshAuthParams data.authParams data.refreshableHttpParams
    match callbacks.refreshAuthParams s data.authParams data.refreshableHttpParams with
    | (.error error, t) => (.error error, t, [⟨s, refresh (.error error), t⟩])
    | (.ok true, t) => (.ok (some .authRefresh), t, [⟨s, refresh (.ok true), t⟩])
    | (.ok false, t) =>
        let (recovery, u, entries) := switchRegion callbacks retriedRegion redirect t
        (recovery, u, ⟨s, refresh (.ok false), t⟩ :: entries)
  else switchRegion callbacks retriedRegion redirect s

/-- The `catch` block. -/
def onException (callbacks : Callbacks σ) (retriedAuthRefresh retriedRegion : Bool)
    (data : S3RequestData) (error : ErrorData) (s : σ) : Verdict × σ × List (Entry σ) :=
  match tryRecover callbacks retriedAuthRefresh retriedRegion data (isAuthRefreshError error)
      (getRegionRedirectError error data.authParams) s with
  | (.ok (some recovery), t, entries) => (.retry recovery, t, entries)
  | (.ok none, t, entries) => (.ended (.error error), t, entries)
  | (.error thrown, t, entries) => (.ended (.error thrown), t, entries)

/-- The `try` block once the request has returned. -/
def onReturned (callbacks : Callbacks σ) (retriedAuthRefresh retriedRegion : Bool)
    (data : S3RequestData) (result : Returned) (s : σ) : Verdict × σ × List (Entry σ) :=
  match result with
  | none => (.ended (.ok none), s, [])
  | some response =>
      match tryRecover callbacks retriedAuthRefresh retriedRegion data
          (isAuthRefreshFailure response) (getRegionRedirect response data.authParams) s with
      | (.ok (some recovery), t, entries) => (.retry recovery, t, entries)
      | (.ok none, t, entries) => (.ended (.ok (some response)), t, entries)
      | (.error thrown, t, entries) =>
          -- the callbacks run inside the `try` block
          let (verdict, u, more) :=
            onException callbacks retriedAuthRefresh retriedRegion data thrown t
          (verdict, u, entries ++ more)

def iteration (callbacks : Callbacks σ) (retriedAuthRefresh retriedRegion : Bool) (s : σ) :
    Verdict × σ × List (Entry σ) :=
  match callbacks.createData s with
  | (.error error, t) => (.ended (.error error), t, [⟨s, .createData (.error error), t⟩])
  | (.ok data, t) =>
      let (result, u) := callbacks.request t data
      let (verdict, v, entries) := match result with
        | .error error => onException callbacks retriedAuthRefresh retriedRegion data error u
        | .ok returned => onReturned callbacks retriedAuthRefresh retriedRegion data returned u
      (verdict, v, ⟨s, .createData (.ok data), t⟩ :: ⟨t, .request data result, u⟩ :: entries)

/-- How a run of the loop ended, in which state and after which calls. -/
structure Ended (σ : Type u) where
  result : Except ErrorData Returned
  state : σ
  entries : List (Entry σ)

/-- The loop, for at most `fuel` iterations. -/
def runS3Request (callbacks : Callbacks σ) :
    Nat → (retriedAuthRefresh retriedRegion : Bool) → σ → Option (Ended σ)
  | 0, _, _, _ => none
  | fuel + 1, retriedAuthRefresh, retriedRegion, s =>
      match iteration callbacks retriedAuthRefresh retriedRegion s with
      | (.ended result, t, entries) => some { result, state := t, entries }
      | (.retry .authRefresh, t, entries) =>
          (runS3Request callbacks fuel true retriedRegion t).map fun rest =>
            { rest with entries := entries ++ rest.entries }
      | (.retry .region, t, entries) =>
          (runS3Request callbacks fuel retriedAuthRefresh true t).map fun rest =>
            { rest with entries := entries ++ rest.entries }

def Genuine (callbacks : Callbacks σ) (entry : Entry σ) : Prop :=
  match entry.call with
  | .createData result => callbacks.createData entry.before = (result, entry.after)
  | .request data result => callbacks.request entry.before data = (result, entry.after)
  | .refreshAuthParams authParams httpParams result =>
      callbacks.refreshAuthParams entry.before authParams httpParams = (result, entry.after)
  | .setRegion region result => callbacks.setRegion entry.before region = (result, entry.after)

/-- The calls follow one another from state to state. -/
def Linked (callbacks : Callbacks σ) : σ → List (Entry σ) → σ → Prop
  | s, [], t => s = t
  | s, entry :: entries, t =>
      entry.before = s ∧ Genuine callbacks entry ∧ Linked callbacks entry.after entries t

def Call.built : Call → Option S3RequestData
  | .createData (.ok data) => some data
  | _ => none

/-- Every request is made with what the call of `create_data` right before it
built. -/
def Fresh : Option S3RequestData → List (Entry σ) → Prop
  | _, [] => True
  | last, entry :: entries =>
      (∀ data result, entry.call = .request data result → last = some data) ∧
        Fresh entry.call.built entries

def Call.answer : Call → Option (Except ErrorData Returned)
  | .request _ result => some result
  | _ => none

def answers (entries : List (Entry σ)) : List (Except ErrorData Returned) :=
  entries.filterMap fun entry => entry.call.answer

def refreshed (entry : Entry σ) : Bool := entry.call matches .refreshAuthParams _ _ (.ok true)

def switched (entry : Entry σ) : Bool := entry.call matches .setRegion _ (.ok _)

/-- A callback other than the request threw. -/
def Threw (entry : Entry σ) (error : ErrorData) : Prop :=
  match entry.call with
  | .createData result => result = .error error
  | .request _ _ => False
  | .refreshAuthParams _ _ result => result = .error error
  | .setRegion _ result => result = .error error

/-- The result is what the last request gave back or threw, or what a callback
threw. -/
def EndsAsLast (entries : List (Entry σ)) (result : Except ErrorData Returned) : Prop :=
  (answers entries).getLast? = some result ∨
    ∃ entry ∈ entries, ∃ error, Threw entry error ∧ result = .error error

variable {callbacks : Callbacks σ} {retriedAuthRefresh retriedRegion : Bool} {s t u : σ}
  {entries more : List (Entry σ)}

theorem Linked.append (hfirst : Linked callbacks s entries t)
    (hsecond : Linked callbacks t more u) : Linked callbacks s (entries ++ more) u := by
  induction entries generalizing s with
  | nil =>
      cases hfirst
      exact hsecond
  | cons entry entries ih => exact ⟨hfirst.1, hfirst.2.1, ih hfirst.2.2⟩

theorem Fresh.weaken {last : Option S3RequestData} (hfresh : Fresh none entries) :
    Fresh last entries := by
  cases entries with
  | nil => trivial
  | cons entry entries =>
      refine ⟨fun data result hcall => ?_, hfresh.2⟩
      cases hfresh.1 data result hcall

theorem Fresh.append {last : Option S3RequestData} (hfirst : Fresh last entries)
    (hsecond : Fresh none more) : Fresh last (entries ++ more) := by
  induction entries generalizing last with
  | nil => exact hsecond.weaken
  | cons entry entries ih => exact ⟨hfirst.1, ih hfirst.2⟩

theorem fresh_of_no_request (hnone : answers entries = []) : Fresh none entries := by
  induction entries with
  | nil => trivial
  | cons entry entries ih =>
      cases hcall : entry.call with
      | request data result => simp [answers, hcall, Call.answer] at hnone
      | createData | refreshAuthParams | setRegion =>
          refine ⟨by simp [hcall], Fresh.weaken (ih ?_)⟩
          simpa [answers, hcall, Call.answer] using hnone

theorem EndsAsLast.append {result : Except ErrorData Returned}
    (hends : EndsAsLast more result) : EndsAsLast (entries ++ more) result := by
  rcases hends with hlast | ⟨entry, hentry, error, hthrew, hresult⟩
  · left
    rw [answers, List.filterMap_append, List.getLast?_append]
    rw [answers] at hlast
    rw [hlast]
    rfl
  · exact .inr ⟨entry, List.mem_append_right _ hentry, error, hthrew, hresult⟩

/-- The recovery that was made, if any. -/
def made : Except ErrorData (Option Recovery) → Option Recovery
  | .ok recovery => recovery
  | .error _ => none

def Verdict.recovery : Verdict → Option Recovery
  | .retry recovery => some recovery
  | .ended _ => none

/-- What a try at the recoveries does. -/
structure Recovers (callbacks : Callbacks σ) (retriedAuthRefresh retriedRegion : Bool) (s : σ)
    (recovery : Except ErrorData (Option Recovery)) (t : σ) (entries : List (Entry σ)) :
    Prop where
  linked : Linked callbacks s entries t
  noRequest : answers entries = []
  refreshes : entries.countP refreshed = if made recovery = some .authRefresh then 1 else 0
  switches : entries.countP switched = if made recovery = some .region then 1 else 0
  authRefresh : made recovery = some .authRefresh → retriedAuthRefresh = false
  region : made recovery = some .region → retriedRegion = false
  threw : ∀ error, recovery = .error error → ∃ entry ∈ entries, Threw entry error
  thrown : ∀ entry ∈ entries, ∀ error, Threw entry error → recovery = .error error

theorem recovers_switchRegion (callbacks : Callbacks σ) (retriedAuthRefresh retriedRegion : Bool)
    (redirect : Option Bytes) (s : σ) :
    Recovers callbacks retriedAuthRefresh retriedRegion s
      (switchRegion callbacks retriedRegion redirect s).1
      (switchRegion callbacks retriedRegion redirect s).2.1
      (switchRegion callbacks retriedRegion redirect s).2.2 := by
  unfold switchRegion
  split
  · exact ⟨rfl, rfl, rfl, rfl, nofun, nofun, nofun, nofun⟩
  · rename_i correctRegion hredirect
    have hfirst : retriedRegion = false := by
      by_contra hretried
      simp [hretried] at hredirect
    split
    · rename_i error t hset
      refine ⟨⟨rfl, hset, rfl⟩, rfl, rfl, rfl, nofun, nofun, ?_, ?_⟩
      · rintro _ ⟨⟩
        exact ⟨_, List.mem_singleton_self _, rfl⟩
      · intro entry hentry thrown hthrew
        rw [List.mem_singleton] at hentry
        subst hentry
        cases hthrew
        rfl
    · rename_i t hset
      refine ⟨⟨rfl, hset, rfl⟩, rfl, rfl, rfl, nofun, fun _ => hfirst, nofun, ?_⟩
      intro entry hentry error hthrew
      rw [List.mem_singleton] at hentry
      subst hentry
      cases hthrew

theorem recovers_tryRecover (callbacks : Callbacks σ) (retriedAuthRefresh retriedRegion : Bool)
    (data : S3RequestData) (authFailure : Bool) (redirect : Option Bytes) (s : σ) :
    Recovers callbacks retriedAuthRefresh retriedRegion s
      (tryRecover callbacks retriedAuthRefresh retriedRegion data authFailure redirect s).1
      (tryRecover callbacks retriedAuthRefresh retriedRegion data authFailure redirect s).2.1
      (tryRecover callbacks retriedAuthRefresh retriedRegion data authFailure
        redirect s).2.2 := by
  unfold tryRecover
  split
  · rename_i hfailure
    have hfirst : retriedAuthRefresh = false := by
      by_contra hretried
      simp [hretried] at hfailure
    simp only
    split
    · rename_i error t hrefresh
      refine ⟨⟨rfl, hrefresh, rfl⟩, rfl, rfl, rfl, nofun, nofun, ?_, ?_⟩
      · rintro _ ⟨⟩
        exact ⟨_, List.mem_singleton_self _, rfl⟩
      · intro entry hentry thrown hthrew
        rw [List.mem_singleton] at hentry
        subst hentry
        cases hthrew
        rfl
    · rename_i t hrefresh
      refine ⟨⟨rfl, hrefresh, rfl⟩, rfl, rfl, rfl, fun _ => hfirst, nofun, nofun, ?_⟩
      intro entry hentry thrown hthrew
      rw [List.mem_singleton] at hentry
      subst hentry
      cases hthrew
    · rename_i t hrefresh
      have hswitch := recovers_switchRegion callbacks retriedAuthRefresh retriedRegion redirect t
      refine ⟨⟨rfl, hrefresh, hswitch.linked⟩, hswitch.noRequest, ?_, ?_, hswitch.authRefresh,
        hswitch.region, ?_, ?_⟩
      · exact hswitch.refreshes
      · exact hswitch.switches
      · intro error herror
        obtain ⟨entry, hentry, hthrew⟩ := hswitch.threw error herror
        exact ⟨entry, List.mem_cons_of_mem _ hentry, hthrew⟩
      · intro entry hentry thrown hthrew
        rcases List.mem_cons.mp hentry with rfl | hlater
        · cases hthrew
        · exact hswitch.thrown entry hlater thrown hthrew
  · exact recovers_switchRegion callbacks retriedAuthRefresh retriedRegion redirect s

/-- What handling an answer does: no request, and a recovery only on a retry. -/
structure Handles (callbacks : Callbacks σ) (retriedAuthRefresh retriedRegion : Bool) (s : σ)
    (answer : Except ErrorData Returned) (verdict : Verdict) (t : σ)
    (entries : List (Entry σ)) : Prop where
  linked : Linked callbacks s entries t
  noRequest : answers entries = []
  refreshes : entries.countP refreshed = if verdict.recovery = some .authRefresh then 1 else 0
  switches : entries.countP switched = if verdict.recovery = some .region then 1 else 0
  authRefresh : verdict.recovery = some .authRefresh → retriedAuthRefresh = false
  region : verdict.recovery = some .region → retriedRegion = false
  ends : ∀ result, verdict = .ended result →
    result = answer ∨ ∃ entry ∈ entries, ∃ error, Threw entry error ∧ result = .error error

theorem handles_onException (callbacks : Callbacks σ) (retriedAuthRefresh retriedRegion : Bool)
    (data : S3RequestData) (error : ErrorData) (s : σ) :
    Handles callbacks retriedAuthRefresh retriedRegion s (.error error)
      (onException callbacks retriedAuthRefresh retriedRegion data error s).1
      (onException callbacks retriedAuthRefresh retriedRegion data error s).2.1
      (onException callbacks retriedAuthRefresh retriedRegion data error s).2.2 := by
  have hrecover := recovers_tryRecover callbacks retriedAuthRefresh retriedRegion data
    (isAuthRefreshError error) (getRegionRedirectError error data.authParams) s
  unfold onException
  generalize tryRecover callbacks retriedAuthRefresh retriedRegion data (isAuthRefreshError error)
    (getRegionRedirectError error data.authParams) s = tried at *
  obtain ⟨recovery, t, entries⟩ := tried
  cases recovery with
  | error thrown =>
      refine ⟨hrecover.linked, hrecover.noRequest, hrecover.refreshes, hrecover.switches, nofun,
        nofun, ?_⟩
      rintro _ ⟨⟩
      obtain ⟨entry, hentry, hthrew⟩ := hrecover.threw thrown rfl
      exact .inr ⟨entry, hentry, thrown, hthrew, rfl⟩
  | ok recovery =>
      cases recovery with
      | none =>
          refine ⟨hrecover.linked, hrecover.noRequest, hrecover.refreshes, hrecover.switches,
            nofun, nofun, ?_⟩
          rintro _ ⟨⟩
          exact .inl rfl
      | some recovery =>
          exact ⟨hrecover.linked, hrecover.noRequest, hrecover.refreshes, hrecover.switches,
            hrecover.authRefresh, hrecover.region, nofun⟩

theorem handles_onReturned (callbacks : Callbacks σ) (retriedAuthRefresh retriedRegion : Bool)
    (data : S3RequestData) (returned : Returned) (s : σ) :
    Handles callbacks retriedAuthRefresh retriedRegion s (.ok returned)
      (onReturned callbacks retriedAuthRefresh retriedRegion data returned s).1
      (onReturned callbacks retriedAuthRefresh retriedRegion data returned s).2.1
      (onReturned callbacks retriedAuthRefresh retriedRegion data returned s).2.2 := by
  unfold onReturned
  cases returned with
  | none =>
      refine ⟨rfl, rfl, rfl, rfl, nofun, nofun, ?_⟩
      rintro _ ⟨⟩
      exact .inl rfl
  | some response =>
      have hrecover := recovers_tryRecover callbacks retriedAuthRefresh retriedRegion data
        (isAuthRefreshFailure response) (getRegionRedirect response data.authParams) s
      simp only
      generalize tryRecover callbacks retriedAuthRefresh retriedRegion data
        (isAuthRefreshFailure response) (getRegionRedirect response data.authParams) s = tried
        at *
      obtain ⟨recovery, t, entries⟩ := tried
      cases recovery with
      | error thrown =>
          have hcaught := handles_onException callbacks retriedAuthRefresh retriedRegion data
            thrown t
          simp only
          refine ⟨hrecover.linked.append hcaught.linked, ?_, ?_, ?_, hcaught.authRefresh,
            hcaught.region, ?_⟩
          · rw [answers, List.filterMap_append]
            exact List.append_eq_nil_iff.mpr ⟨hrecover.noRequest, hcaught.noRequest⟩
          · rw [List.countP_append, hrecover.refreshes]
            exact (Nat.zero_add _).trans hcaught.refreshes
          · rw [List.countP_append, hrecover.switches]
            exact (Nat.zero_add _).trans hcaught.switches
          · intro result hended
            right
            obtain ⟨entry, hentry, hthrew⟩ := hrecover.threw thrown rfl
            rcases hcaught.ends result hended with hsame
              | ⟨entry', hentry', error, hthrew', hresult⟩
            · exact ⟨entry, List.mem_append_left _ hentry, thrown, hthrew, hsame⟩
            · exact ⟨entry', List.mem_append_right _ hentry', error, hthrew', hresult⟩
      | ok recovery =>
          cases recovery with
          | none =>
              refine ⟨hrecover.linked, hrecover.noRequest, hrecover.refreshes,
                hrecover.switches, nofun, nofun, ?_⟩
              rintro _ ⟨⟩
              exact .inl rfl
          | some recovery =>
              exact ⟨hrecover.linked, hrecover.noRequest, hrecover.refreshes, hrecover.switches,
                hrecover.authRefresh, hrecover.region, nofun⟩

/-- What a run of the loop may do with the one-shot recoveries that are left. -/
structure Bounded (callbacks : Callbacks σ) (retriedAuthRefresh retriedRegion : Bool) (s : σ)
    (run : Ended σ) : Prop where
  linked : Linked callbacks s run.entries run.state
  fresh : Fresh none run.entries
  requests : (answers run.entries).length ≤
    1 + run.entries.countP refreshed + run.entries.countP switched
  refreshes : run.entries.countP refreshed ≤ if retriedAuthRefresh then 0 else 1
  switches : run.entries.countP switched ≤ if retriedRegion then 0 else 1
  ends : EndsAsLast run.entries run.result

/-- One iteration: it ends the run, or it retries after a recovery of its own. -/
structure Iterates (callbacks : Callbacks σ) (retriedAuthRefresh retriedRegion : Bool) (s : σ)
    (verdict : Verdict) (t : σ) (entries : List (Entry σ)) : Prop where
  linked : Linked callbacks s entries t
  fresh : Fresh none entries
  requests : (answers entries).length ≤ 1
  refreshes : entries.countP refreshed = if verdict.recovery = some .authRefresh then 1 else 0
  switches : entries.countP switched = if verdict.recovery = some .region then 1 else 0
  authRefresh : verdict.recovery = some .authRefresh → retriedAuthRefresh = false
  region : verdict.recovery = some .region → retriedRegion = false
  ends : ∀ result, verdict = .ended result → EndsAsLast entries result

theorem Handles.iterates {data : S3RequestData} {answer : Except ErrorData Returned}
    {verdict : Verdict} {s' s'' : σ} (hcreate : callbacks.createData s = (.ok data, s'))
    (hrequest : callbacks.request s' data = (answer, s''))
    (hhandles : Handles callbacks retriedAuthRefresh retriedRegion s'' answer verdict t entries) :
    Iterates callbacks retriedAuthRefresh retriedRegion s verdict t
      (⟨s, .createData (.ok data), s'⟩ :: ⟨s', .request data answer, s''⟩ :: entries) := by
  have hanswers : answers (⟨s, .createData (.ok data), s'⟩ ::
      ⟨s', .request data answer, s''⟩ :: entries) = [answer] := by
    show answer :: answers entries = [answer]
    rw [hhandles.noRequest]
  refine ⟨⟨rfl, hcreate, rfl, hrequest, hhandles.linked⟩, ?_, ?_, hhandles.refreshes,
    hhandles.switches, hhandles.authRefresh, hhandles.region, ?_⟩
  · refine ⟨nofun, ?_, (fresh_of_no_request hhandles.noRequest).weaken⟩
    rintro _ _ ⟨⟩
    rfl
  · rw [hanswers]
    exact Nat.le_refl 1
  · intro result hended
    rcases hhandles.ends result hended with rfl | ⟨entry, hentry, hthrew⟩
    · left
      rw [hanswers]
      rfl
    · exact .inr ⟨entry, List.mem_cons_of_mem _ (List.mem_cons_of_mem _ hentry), hthrew⟩

theorem iterates_iteration (callbacks : Callbacks σ) (retriedAuthRefresh retriedRegion : Bool)
    (s : σ) :
    Iterates callbacks retriedAuthRefresh retriedRegion s
      (iteration callbacks retriedAuthRefresh retriedRegion s).1
      (iteration callbacks retriedAuthRefresh retriedRegion s).2.1
      (iteration callbacks retriedAuthRefresh retriedRegion s).2.2 := by
  cases hcreate : callbacks.createData s with
  | mk result t =>
      cases result with
      | error error =>
          simp only [iteration, hcreate]
          refine ⟨⟨rfl, hcreate, rfl⟩, ⟨nofun, trivial⟩, Nat.zero_le 1, rfl, rfl,
            nofun, nofun, ?_⟩
          rintro _ ⟨⟩
          exact .inr ⟨_, List.mem_singleton_self _, error, rfl, rfl⟩
      | ok data =>
          cases hrequest : callbacks.request t data with
          | mk answer u =>
              simp only [iteration, hcreate, hrequest]
              cases answer with
              | error error =>
                  exact (handles_onException callbacks retriedAuthRefresh retriedRegion data
                    error u).iterates hcreate hrequest
              | ok returned =>
                  exact (handles_onReturned callbacks retriedAuthRefresh retriedRegion data
                    returned u).iterates hcreate hrequest

theorem Iterates.andThen {verdict : Verdict} {run : Ended σ}
    {retriedAuthRefresh' retriedRegion' : Bool}
    (hiterates : Iterates callbacks retriedAuthRefresh retriedRegion s verdict t entries)
    (hrun : Bounded callbacks retriedAuthRefresh' retriedRegion' t run)
    (hretry : entries.countP refreshed + entries.countP switched = 1)
    (hauth : entries.countP refreshed + (if retriedAuthRefresh' then 0 else 1) ≤
      if retriedAuthRefresh then 0 else 1)
    (hregion : entries.countP switched + (if retriedRegion' then 0 else 1) ≤
      if retriedRegion then 0 else 1) :
    Bounded callbacks retriedAuthRefresh retriedRegion s
      { run with entries := entries ++ run.entries } := by
  refine ⟨hiterates.linked.append hrun.linked, hiterates.fresh.append hrun.fresh, ?_, ?_, ?_,
    hrun.ends.append⟩
  · have hfirst := hiterates.requests
    have hrest := hrun.requests
    simp only [answers, List.filterMap_append, List.length_append, List.countP_append] at *
    omega
  · rw [List.countP_append]
    exact Nat.le_trans (Nat.add_le_add_left hrun.refreshes _) hauth
  · rw [List.countP_append]
    exact Nat.le_trans (Nat.add_le_add_left hrun.switches _) hregion

/-- The one-shot recoveries that are left. -/
def recoveriesLeft (retriedAuthRefresh retriedRegion : Bool) : Nat :=
  (if retriedAuthRefresh then 0 else 1) + if retriedRegion then 0 else 1

/-- Each retry uses up a recovery, so that the loop ends. -/
theorem exists_bounded_run (callbacks : Callbacks σ) (retriedAuthRefresh retriedRegion : Bool)
    (s : σ) :
    ∃ run, Bounded callbacks retriedAuthRefresh retriedRegion s run ∧
      ∀ fuel, recoveriesLeft retriedAuthRefresh retriedRegion < fuel →
        runS3Request callbacks fuel retriedAuthRefresh retriedRegion s = some run := by
  -- on the recoveries left, of which a retry uses one up
  generalize hleft : recoveriesLeft retriedAuthRefresh retriedRegion = left
  induction left using Nat.strongRecOn generalizing retriedAuthRefresh retriedRegion s with
  | _ left ih =>
      subst hleft
      have hiterates := iterates_iteration callbacks retriedAuthRefresh retriedRegion s
      have hunfold : ∀ fuel,
          runS3Request callbacks (fuel + 1) retriedAuthRefresh retriedRegion s =
          match iteration callbacks retriedAuthRefresh retriedRegion s with
          | (.ended result, t, entries) => some { result, state := t, entries }
          | (.retry .authRefresh, t, entries) =>
              (runS3Request callbacks fuel true retriedRegion t).map fun rest =>
                { rest with entries := entries ++ rest.entries }
          | (.retry .region, t, entries) =>
              (runS3Request callbacks fuel retriedAuthRefresh true t).map fun rest =>
                { rest with entries := entries ++ rest.entries } := fun _ => rfl
      generalize iteration callbacks retriedAuthRefresh retriedRegion s = iterated at *
      obtain ⟨verdict, t, entries⟩ := iterated
      have hiterates : Iterates callbacks retriedAuthRefresh retriedRegion s verdict t entries :=
        hiterates
      cases verdict with
      | ended result =>
          refine ⟨{ result, state := t, entries }, ?_, ?_⟩
          · refine ⟨hiterates.linked, hiterates.fresh, ?_, ?_, ?_, hiterates.ends result rfl⟩
            · exact Nat.le_trans hiterates.requests (by omega)
            · exact Nat.le_trans (Nat.le_of_eq hiterates.refreshes) (Nat.zero_le _)
            · exact Nat.le_trans (Nat.le_of_eq hiterates.switches) (Nat.zero_le _)
          · intro fuel hfuel
            obtain ⟨fuel, rfl⟩ :=
              Nat.exists_eq_succ_of_ne_zero (Nat.ne_of_gt (Nat.zero_lt_of_lt hfuel))
            exact hunfold fuel
      | retry recovery =>
          cases recovery with
          | authRefresh =>
              have hfirst := hiterates.authRefresh rfl
              subst hfirst
              have hrefreshes : entries.countP refreshed = 1 := hiterates.refreshes
              have hswitches : entries.countP switched = 0 := hiterates.switches
              have hless : recoveriesLeft true retriedRegion <
                  recoveriesLeft false retriedRegion := by
                simp [recoveriesLeft]
              obtain ⟨run, hrun, hloop⟩ := ih _ hless true retriedRegion t rfl
              refine ⟨_, hiterates.andThen hrun ?_ ?_ ?_, ?_⟩
              · omega
              · simp [hrefreshes]
              · exact Nat.le_of_eq (by rw [hswitches, Nat.zero_add])
              · intro fuel hfuel
                obtain ⟨fuel, rfl⟩ := Nat.exists_eq_succ_of_ne_zero
                  (Nat.ne_of_gt (Nat.zero_lt_of_lt hfuel))
                rw [hunfold fuel]
                simp only
                rw [hloop fuel (by omega)]
                rfl
          | region =>
              have hfirst := hiterates.region rfl
              subst hfirst
              have hrefreshes : entries.countP refreshed = 0 := hiterates.refreshes
              have hswitches : entries.countP switched = 1 := hiterates.switches
              have hless : recoveriesLeft retriedAuthRefresh true <
                  recoveriesLeft retriedAuthRefresh false := by
                simp [recoveriesLeft]
              obtain ⟨run, hrun, hloop⟩ := ih _ hless retriedAuthRefresh true t rfl
              refine ⟨_, hiterates.andThen hrun ?_ ?_ ?_, ?_⟩
              · omega
              · exact Nat.le_of_eq (by rw [hrefreshes, Nat.zero_add])
              · simp [hswitches]
              · intro fuel hfuel
                obtain ⟨fuel, rfl⟩ := Nat.exists_eq_succ_of_ne_zero
                  (Nat.ne_of_gt (Nat.zero_lt_of_lt hfuel))
                rw [hunfold fuel]
                simp only
                rw [hloop fuel (by omega)]
                rfl

theorem isAuthRefreshError_httpException (core : HTTPCore) (response : HTTPResponse)
    (message : Bytes) :
    isAuthRefreshError (core.httpException response message) = isAuthRefreshFailure response := by
  have hstatus : ∀ n, decimal response.status = decimal n ↔ response.status = n := by
    intro n
    exact ⟨decimal_injective, congrArg decimal⟩
  have h401 := hstatus 401
  have h403 := hstatus 403
  have h400 := hstatus 400
  unfold isAuthRefreshError isAuthRefreshFailure
  rw [core.status_code, core.response_body]
  simp only [show bytes "401" = decimal 401 from by decide,
    show bytes "403" = decimal 403 from by decide, show bytes "400" = decimal 400 from by decide,
    h401, h403, h400, ne_eq]

theorem getRegionRedirectError_httpException {core : HTTPCore} {response : HTTPResponse}
    (hreceived : Received core response.headers) (message : Bytes) (authParams : S3AuthParams) :
    getRegionRedirectError (core.httpException response message) authParams =
      getRegionRedirect response authParams := by
  have hstatus : ∀ n, decimal response.status = decimal n ↔ response.status = n := by
    intro n
    exact ⟨decimal_injective, congrArg decimal⟩
  have h301 := hstatus 301
  have h400 := hstatus 400
  have hlookup := core.header_name response message (bytes "x-amz-bucket-region")
  have hfind := hreceived.find (bytes "x-amz-bucket-region") (by decide) (by decide)
  rw [← hfind] at hlookup
  unfold getRegionRedirectError getRegionRedirect HTTPResponse.hasHeader
    HTTPResponse.getHeaderValue
  rw [core.status_code, show bytes "header_x-amz-bucket-region" =
    bytes "header_" ++ bytes "x-amz-bucket-region" from by decide, hlookup]
  simp only [show bytes "301" = decimal 301 from by decide,
    show bytes "400" = decimal 400 from by decide, h301, h400, ne_eq]
  split
  · rfl
  · cases response.headers.find (bytes "x-amz-bucket-region") with
    | none => rfl
    | some entry => rfl

/-- The same recovery with the same calls, or an end with the failure in the form
in which it came. -/
def SameTreatment (response : HTTPResponse) (error : ErrorData)
    (returned thrown : Verdict × σ × List (Entry σ)) : Prop :=
  returned.2 = thrown.2 ∧
    ((∃ recovery, returned.1 = .retry recovery ∧ thrown.1 = .retry recovery) ∨
      (returned.1 = .ended (.ok (some response)) ∧ thrown.1 = .ended (.error error)))

/-- How a response is handled next to how the exception built from it is: the
same, unless a callback throws; what it throws is then handled in its place. -/
structure TreatedAlike (callbacks : Callbacks σ) (retriedAuthRefresh retriedRegion : Bool)
    (data : S3RequestData) (s : σ) (response : HTTPResponse) (error : ErrorData) : Prop where
  same : (¬ ∃ entry ∈ (onException callbacks retriedAuthRefresh retriedRegion data error s).2.2,
      ∃ thrown, Threw entry thrown) →
    SameTreatment response error
      (onReturned callbacks retriedAuthRefresh retriedRegion data (some response) s)
      (onException callbacks retriedAuthRefresh retriedRegion data error s)
  threw : ∀ t entries thrown,
    onException callbacks retriedAuthRefresh retriedRegion data error s =
        (.ended (.error thrown), t, entries) →
    (∃ entry ∈ entries, Threw entry thrown) →
    onReturned callbacks retriedAuthRefresh retriedRegion data (some response) s =
      ((onException callbacks retriedAuthRefresh retriedRegion data thrown t).1,
        (onException callbacks retriedAuthRefresh retriedRegion data thrown t).2.1,
        entries ++ (onException callbacks retriedAuthRefresh retriedRegion data thrown t).2.2)

theorem treatedAlike_httpException {core : HTTPCore} {response : HTTPResponse}
    (hreceived : Received core response.headers) (message : Bytes) (callbacks : Callbacks σ)
    (retriedAuthRefresh retriedRegion : Bool) (data : S3RequestData) (s : σ) :
    TreatedAlike callbacks retriedAuthRefresh retriedRegion data s response
      (core.httpException response message) := by
  have hrecover := recovers_tryRecover callbacks retriedAuthRefresh retriedRegion data
    (isAuthRefreshFailure response) (getRegionRedirect response data.authParams) s
  have hthrown : onException callbacks retriedAuthRefresh retriedRegion data
      (core.httpException response message) s =
        match tryRecover callbacks retriedAuthRefresh retriedRegion data
          (isAuthRefreshFailure response) (getRegionRedirect response data.authParams) s with
        | (.ok (some recovery), t, entries) => (.retry recovery, t, entries)
        | (.ok none, t, entries) =>
            (.ended (.error (core.httpException response message)), t, entries)
        | (.error thrown, t, entries) => (.ended (.error thrown), t, entries) := by
    unfold onException
    rw [isAuthRefreshError_httpException, getRegionRedirectError_httpException hreceived]
  constructor
  · intro hquiet
    rw [hthrown] at hquiet ⊢
    simp only [onReturned]
    generalize tryRecover callbacks retriedAuthRefresh retriedRegion data
      (isAuthRefreshFailure response) (getRegionRedirect response data.authParams) s = tried at *
    obtain ⟨recovery, t, entries⟩ := tried
    cases recovery with
    | error thrown =>
        obtain ⟨entry, hentry, hthrew⟩ := hrecover.threw thrown rfl
        exact absurd ⟨entry, hentry, thrown, hthrew⟩ hquiet
    | ok recovery =>
        cases recovery with
        | none => exact ⟨rfl, .inr ⟨rfl, rfl⟩⟩
        | some recovery => exact ⟨rfl, .inl ⟨recovery, rfl, rfl⟩⟩
  · intro t entries thrown hended hthrew
    rw [hthrown] at hended
    simp only [onReturned]
    generalize tryRecover callbacks retriedAuthRefresh retriedRegion data
      (isAuthRefreshFailure response) (getRegionRedirect response data.authParams) s = tried at *
    obtain ⟨recovery, t', entries'⟩ := tried
    cases recovery with
    | error thrown' =>
        cases hended
        rfl
    | ok recovery =>
        cases recovery with
        | none =>
            cases hended
            obtain ⟨entry, hentry, hthrew⟩ := hthrew
            cases hrecover.thrown entry hentry _ hthrew
        | some recovery => cases hended

/-- The loop always ends, after at most three requests, with what the last of them
gave or with what a callback threw; and a failure is treated alike in both forms. -/
theorem runS3Request_bounded_faithful (core : HTTPCore) (callbacks : Callbacks σ) (s : σ) :
    (∃ run, (∀ fuel, 3 ≤ fuel → runS3Request callbacks fuel false false s = some run) ∧
        (answers run.entries).length ≤ 3 ∧ Bounded callbacks false false s run) ∧
      ∀ response, Received core response.headers →
        ∀ message retriedAuthRefresh retriedRegion data s,
          TreatedAlike callbacks retriedAuthRefresh retriedRegion data s response
            (core.httpException response message) := by
  constructor
  · obtain ⟨run, hbounded, hloop⟩ := exists_bounded_run callbacks false false s
    refine ⟨run, fun fuel hfuel => hloop fuel hfuel, ?_, hbounded⟩
    have hrequests := hbounded.requests
    have hrefreshes : run.entries.countP refreshed ≤ 1 := hbounded.refreshes
    have hswitches : run.entries.countP switched ≤ 1 := hbounded.switches
    omega
  · intro response hreceived message retriedAuthRefresh retriedRegion data s
    exact treatedAlike_httpException hreceived message callbacks retriedAuthRefresh
      retriedRegion data s

def denied : HTTPResponse := { status := 403 }

theorem received_denied : Received plainCore denied.headers := .inl ⟨[], rfl⟩

/-- The first refresh throws an exception of its own with status 403, the second
one succeeds, and so does the request after it. -/
def refreshThrowsFirst (asException : Bool) : Callbacks Nat where
  createData s := (.ok { authParams := {}, refreshableHttpParams := {} }, s)
  request s _ :=
    if s = 2 then (.ok (some { status := 200 }), s)
    else if asException then (.error (plainCore.httpException denied []), s)
    else (.ok (some denied), s)
  refreshAuthParams s _ _ :=
    if s = 0 then (.error { extraInfo := [(bytes "status_code", bytes "403")] }, 1)
    else (.ok true, 2)
  setRegion s _ := (.ok (), s)

theorem runS3Request_bounded_faithful_denied :
    TreatedAlike (refreshThrowsFirst false) false false
      { authParams := {}, refreshableHttpParams := {} } 0 denied
      (plainCore.httpException denied []) :=
  (runS3Request_bounded_faithful plainCore (refreshThrowsFirst false) 0).2 denied
    received_denied [] false false _ 0

def endStatus (run : Ended Nat) : Option Nat :=
  match run.result with
  | .ok (some response) => some response.status
  | _ => none

/-- The response with status 403 is retried to success where the exception built
from it ends the call. -/
theorem callback_exception_retried_for_response :
    (runS3Request (refreshThrowsFirst false) 3 false false 0).map endStatus = some (some 200) ∧
      (runS3Request (refreshThrowsFirst true) 3 false false 0).map endStatus = some none ∧
      ¬ SameTreatment denied (plainCore.httpException denied [])
        (onReturned (refreshThrowsFirst false) false false
          { authParams := {}, refreshableHttpParams := {} } (some denied) 0)
        (onException (refreshThrowsFirst false) false false
          { authParams := {}, refreshableHttpParams := {} }
          (plainCore.httpException denied []) 0) := by
  refine ⟨by decide, by decide, ?_⟩
  intro hsame
  have hstates := congrArg Prod.fst hsame.1
  revert hstates
  decide

end HaybarnHttpfs.S3RequestLoop
