import HaybarnHttpfs.HuggingFaceFileSystem
import HaybarnHttpfs.Foundation.Exceptions

/-!
A listing as the server writes it, page by page, and what one request for a page gives
back over its attempts.
-/

namespace HaybarnHttpfs.HuggingFacePages

open HaybarnHttpfs.Foundation.ByteStrings HaybarnHttpfs.Foundation.Exceptions
open HaybarnHttpfs.HTTPExchange
open HaybarnHttpfs.HuggingFaceFileSystem

def scanAll (s : ListScan) (input : Bytes) : Except HFError ListScan :=
  parseListFrom input.length s input

variable {s s' : ListScan} {c : UInt8} {rest left : Bytes}

/-- What a step can do: end an entry, or keep the lists and add to the current string at most
the character, which is then no quote. -/
theorem listScanStep_cases (hstep : listScanStep s c rest = .ok (s', left)) :
    left.length ≤ rest.length ∧ (s.endEntry = .ok s' ∨
      (s'.files = s.files ∧ s'.directories = s.directories) ∧
        (s'.currentString = s.currentString ∨
          c ≠ 34 ∧ s'.currentString = s.currentString ++ [c])) := by
  unfold listScanStep at hstep
  cases hlabel : s.label with
  | base =>
      simp only [hlabel] at hstep
      split at hstep
      · (cases hstep; exact ⟨Nat.le_refl _, .inr ⟨⟨rfl, rfl⟩, .inl rfl⟩⟩)
      · (cases hstep; exact ⟨Nat.le_refl _, .inr ⟨⟨rfl, rfl⟩, .inl rfl⟩⟩)
  | entry =>
      simp only [hlabel] at hstep
      split at hstep
      · split at hstep
        · cases hstep
          exact ⟨Nat.le_refl _, .inr ⟨⟨rfl, rfl⟩, .inl rfl⟩⟩
        · obtain ⟨ended, hend, hpair⟩ := map_eq_ok.mp hstep
          cases hpair
          exact ⟨Nat.le_refl _, .inl hend⟩
      · split at hstep
        · cases hstep
          exact ⟨Nat.le_refl _, .inr ⟨⟨rfl, rfl⟩, .inl rfl⟩⟩
        · split at hstep
          · cases hstep
            exact ⟨by simp, .inr ⟨⟨rfl, rfl⟩, .inl rfl⟩⟩
          · split at hstep
            · cases hstep
              exact ⟨by simp, .inr ⟨⟨rfl, rfl⟩, .inl rfl⟩⟩
            · split at hstep
              · (cases hstep; exact ⟨by simp, .inr ⟨⟨rfl, rfl⟩, .inl rfl⟩⟩)
              · (cases hstep; exact ⟨by simp, .inr ⟨⟨rfl, rfl⟩, .inl rfl⟩⟩)
  | pathname =>
      simp only [hlabel] at hstep
      split at hstep
      · rename_i hescaped
        -- one character is never a backslash and a quote
        rw [hescaped.1] at hescaped
        exact absurd hescaped.2.2 (by decide)
      · split at hstep
        · cases hstep
          exact ⟨Nat.le_refl _, .inr ⟨⟨rfl, rfl⟩, .inl rfl⟩⟩
        · rename_i hquote
          cases hstep
          exact ⟨Nat.le_refl _, .inr ⟨⟨rfl, rfl⟩, .inr ⟨hquote, rfl⟩⟩⟩

theorem length_left (hstep : listScanStep s c rest = .ok (s', left)) :
    left.length ≤ rest.length :=
  (listScanStep_cases hstep).1

theorem parseListFrom_eq_scanAll {fuel : Nat} {input : Bytes} (hfuel : input.length ≤ fuel) :
    parseListFrom fuel s input = scanAll s input := by
  unfold scanAll
  -- a step may take more than one character, so the fuel goes down faster than by one
  induction fuel using Nat.strongRecOn generalizing s input with
  | ind fuel ih =>
      cases input with
      | nil =>
          cases fuel with
          | _ => rfl
      | cons c rest =>
          obtain ⟨fuel, rfl⟩ := Nat.exists_eq_add_of_lt hfuel
          rw [List.length_cons, parseListFrom, parseListFrom]
          cases hstep : listScanStep s c rest with
          | error e => rfl
          | ok next =>
              obtain ⟨s', left⟩ := next
              have hleft := length_left hstep
              simp only
              rw [ih (rest.length + fuel) (by simp) (by omega),
                ih rest.length (by omega) hleft]

theorem scanAll_cons (hstep : listScanStep s c rest = .ok (s', left)) :
    scanAll s (c :: rest) = scanAll s' left := by
  rw [scanAll, List.length_cons, parseListFrom, hstep]
  exact parseListFrom_eq_scanAll (length_left hstep)

theorem scanAll_between (hbase : s.label = .base) (text : Bytes) (htext : (123 : UInt8) ∉ text)
    (rest : Bytes) : scanAll s (text ++ rest) = scanAll s rest := by
  induction text with
  | nil => rfl
  | cons c text ih =>
      rw [List.mem_cons, not_or] at htext
      have hstep : listScanStep s c (text ++ rest) = .ok (s, text ++ rest) := by
        simp [listScanStep, hbase, Ne.symm htext.1]
      rw [List.cons_append, scanAll_cons hstep, ih htext.2]

/-- Text between the fields of an entry that the scanner passes over: it has no brace,
and no quote in it starts one of the fields that are looked for. -/
def quiet : Bytes → Bool
  | [] => true
  | c :: text =>
      c ≠ 123 && c ≠ 125 &&
        (c ≠ 34 || match text with
          | d :: e :: _ => d ≠ 116 && (d ≠ 112 || e ≠ 97)
          | [d] => d ≠ 116 && d ≠ 112
          | [] => false) && quiet text

theorem startsWith_cons (a b : UInt8) (text leading : Bytes) :
    startsWith (a :: text) (b :: leading) = (b == a && startsWith text leading) := rfl

theorem scanAll_quiet {text : Bytes} (hentry : s.label = .entry) (htext : quiet text = true)
    (rest : Bytes) : scanAll s (text ++ rest) = scanAll s rest := by
  have hdirectory : bytes "\"type\":\"directory\"" =
      34 :: 116 :: (bytes "ype\":\"directory\"") := by
    decide
  have hfile : bytes "\"type\":\"file\"" = 34 :: 116 :: (bytes "ype\":\"file\"") := by decide
  have hpath : bytes "\"path\":\"" = 34 :: 112 :: 97 :: (bytes "th\":\"") := by decide
  induction text with
  | nil => rfl
  | cons c text ih =>
      simp only [quiet, Bool.and_eq_true, Bool.or_eq_true, decide_eq_true_eq] at htext
      obtain ⟨⟨⟨hopen, hclose⟩, hquote⟩, hrest⟩ := htext
      have hstep : listScanStep s c (text ++ rest) = .ok (s, text ++ rest) := by
        simp only [listScanStep, hentry, hclose, hopen, if_false, hdirectory, hfile, hpath]
        rw [startsWith_cons, startsWith_cons, startsWith_cons]
        rcases hquote with hother | hquote
        · simp [Ne.symm hother]
        · match text, hquote with
          | d :: e :: text, hquote =>
              simp only [Bool.and_eq_true, Bool.or_eq_true, decide_eq_true_eq] at hquote
              obtain ⟨ht, hp⟩ := hquote
              simp only [List.cons_append, startsWith_cons]
              rcases hp with hp | ha
              · simp [Ne.symm ht, Ne.symm hp]
              · simp [Ne.symm ht, Ne.symm ha]
          | [d], hquote =>
              simp only [Bool.and_eq_true, decide_eq_true_eq] at hquote
              simp only [List.cons_append, startsWith_cons]
              simp [Ne.symm hquote.1, Ne.symm hquote.2]
          | [], hquote => cases hquote
      rw [List.cons_append, scanAll_cons hstep, ih hrest]

theorem scanAll_pathname {name : Bytes} (hlabel : s.label = .pathname)
    (hname : (34 : UInt8) ∉ name) (rest : Bytes) :
    scanAll s (name ++ 34 :: rest) =
      scanAll { s with label := .entry, currentString := s.currentString ++ name } rest := by
  induction name generalizing s with
  | nil =>
      have hstep : listScanStep s 34 rest = .ok ({ s with label := .entry }, rest) := by
        simp [listScanStep, hlabel]
      rw [List.nil_append, scanAll_cons hstep, List.append_nil]
  | cons c name ih =>
      rw [List.mem_cons, not_or] at hname
      have hstep : listScanStep s c (name ++ 34 :: rest) =
          .ok ({ s with currentString := s.currentString ++ [c] }, name ++ 34 :: rest) := by
        simp [listScanStep, hlabel, Ne.symm hname.1]
      rw [List.cons_append, scanAll_cons hstep,
        ih (s := { s with currentString := s.currentString ++ [c] }) hlabel hname.2]
      simp

/-- An entry of a listing, with its other fields: one of them may be an object. The
names of a repository here need no escape in JSON. -/
structure Entry where
  path : Bytes
  isDirectory : Bool
  fields : Bytes := bytes ","
  object : Option (Bytes × Bytes) := none
  plain : (34 : UInt8) ∉ path
  fields_quiet : quiet fields = true := by decide
  object_quiet : ∀ parts ∈ object, quiet parts.1 = true ∧ quiet parts.2 = true := by decide

def Entry.type (e : Entry) : Bytes :=
  if e.isDirectory then bytes "\"type\":\"directory\"" else bytes "\"type\":\"file\""

def Entry.objectText (e : Entry) : Bytes :=
  match e.object with
  | none => []
  | some (inside, after) => 123 :: (inside ++ 125 :: after)

def Entry.render (e : Entry) : Bytes :=
  123 :: (e.type ++ (e.fields ++ (e.objectText ++ (bytes "\"path\":\"" ++ (e.path ++
    34 :: [125])))))

def Entry.url (e : Entry) : Bytes := slash :: e.path

def renderEntries : List Entry → Bytes
  | [] => []
  | [e] => e.render
  | e :: es => e.render ++ 44 :: renderEntries es

def renderPage (es : List Entry) : Bytes := 91 :: (renderEntries es ++ [93])

def filesOf (es : List Entry) : List Bytes := (es.filter (!·.isDirectory)).map Entry.url

def dirsOf (es : List Entry) : List Bytes := (es.filter (·.isDirectory)).map Entry.url

/-- The scanner between two entries. -/
def ready (files directories : List Bytes) : ListScan := { files, directories }

variable {files dirs : List Bytes} {e : Entry} {es : List Entry}

theorem scanAll_type (hentry : s.label = .entry) (e : Entry) (rest : Bytes) :
    scanAll s (e.type ++ rest) =
      scanAll { s with type := if e.isDirectory then .dir else .file } rest := by
  obtain ⟨_, _, _, _, _, _, _⟩ := s
  cases hentry
  unfold Entry.type
  split
  · exact scanAll_cons rfl
  · exact scanAll_cons rfl

theorem scanAll_path (hentry : s.label = .entry) (rest : Bytes) :
    scanAll s (bytes "\"path\":\"" ++ rest) =
      scanAll { s with label := .pathname, foundPath := true } rest := by
  obtain ⟨_, _, _, _, _, _, _⟩ := s
  cases hentry
  exact scanAll_cons rfl

theorem scanAll_object (hentry : s.label = .entry) (hnested : s.nested = 0) (e : Entry)
    (rest : Bytes) : scanAll s (e.objectText ++ rest) = scanAll s rest := by
  unfold Entry.objectText
  cases hobject : e.object with
  | none => rfl
  | some parts =>
      obtain ⟨inside, after⟩ := parts
      obtain ⟨hinside, hafter⟩ : quiet inside = true ∧ quiet after = true :=
        e.object_quiet _ hobject
      have hopen : listScanStep s 123 (inside ++ 125 :: (after ++ rest)) =
          .ok ({ s with nested := 1 }, inside ++ 125 :: (after ++ rest)) := by
        simp [listScanStep, hentry, hnested]
      have hclose : listScanStep { s with nested := 1 } 125 (after ++ rest) =
          .ok (s, after ++ rest) := by
        obtain ⟨_, _, _, _, _, _, _⟩ := s
        simp only at hentry hnested
        subst hentry hnested
        rfl
      simp only [List.cons_append, List.append_assoc]
      rw [scanAll_cons hopen, scanAll_quiet (s := { s with nested := 1 }) hentry hinside,
        scanAll_cons hclose, scanAll_quiet hentry hafter]

theorem scanAll_entry (e : Entry) (files dirs : List Bytes) (rest : Bytes) :
    scanAll (ready files dirs) (e.render ++ rest) =
      scanAll (ready (files ++ filesOf [e]) (dirs ++ dirsOf [e])) rest := by
  have hopen : ∀ more, listScanStep (ready files dirs) 123 more =
      .ok ({ ready files dirs with label := .entry }, more) := fun _ => rfl
  unfold Entry.render
  simp only [List.cons_append, List.append_assoc, List.nil_append]
  rw [scanAll_cons (hopen _), scanAll_type rfl, scanAll_quiet rfl e.fields_quiet,
    scanAll_object rfl rfl, scanAll_path rfl, scanAll_pathname rfl e.plain]
  cases hdirectory : e.isDirectory with
  | true =>
      refine scanAll_cons ?_
      simp [listScanStep, ready, ListScan.endEntry, Except.map, filesOf, dirsOf, hdirectory,
        Entry.url]
  | false =>
      refine scanAll_cons ?_
      simp [listScanStep, ready, ListScan.endEntry, Except.map, filesOf, dirsOf, hdirectory,
        Entry.url]

theorem filesOf_append (es more : List Entry) :
    filesOf (es ++ more) = filesOf es ++ filesOf more := by
  simp [filesOf]

theorem dirsOf_append (es more : List Entry) :
    dirsOf (es ++ more) = dirsOf es ++ dirsOf more := by
  simp [dirsOf]

theorem scanAll_entries (es : List Entry) (files dirs : List Bytes) (rest : Bytes) :
    scanAll (ready files dirs) (renderEntries es ++ rest) =
      scanAll (ready (files ++ filesOf es) (dirs ++ dirsOf es)) rest := by
  induction es generalizing files dirs with
  | nil => simp [renderEntries, filesOf, dirsOf]
  | cons e es ih =>
      cases es with
      | nil => exact scanAll_entry e files dirs rest
      | cons e' es =>
          have hcomma := scanAll_between (s := ready (files ++ filesOf [e]) (dirs ++ dirsOf [e]))
            rfl [44] (by decide) (renderEntries (e' :: es) ++ rest)
          have hrender : renderEntries (e :: e' :: es) =
              e.render ++ 44 :: renderEntries (e' :: es) := rfl
          have hfiles : filesOf (e :: e' :: es) = filesOf [e] ++ filesOf (e' :: es) :=
            filesOf_append [e] (e' :: es)
          have hdirs : dirsOf (e :: e' :: es) = dirsOf [e] ++ dirsOf (e' :: es) :=
            dirsOf_append [e] (e' :: es)
          rw [hrender, List.append_assoc, List.cons_append, scanAll_entry]
          rw [List.singleton_append] at hcomma
          rw [hcomma, ih, hfiles, hdirs, List.append_assoc, List.append_assoc]

theorem scanAll_page (es : List Entry) (files dirs : List Bytes) :
    scanAll (ready files dirs) (renderPage es) =
      .ok (ready (files ++ filesOf es) (dirs ++ dirsOf es)) := by
  have hopen := scanAll_between (s := ready files dirs) rfl [91] (by decide)
    (renderEntries es ++ [93])
  have hclose := scanAll_between (s := ready (files ++ filesOf es) (dirs ++ dirsOf es))
    rfl [93] (by decide) []
  rw [List.append_nil] at hclose
  rw [renderPage, ← List.singleton_append, hopen, scanAll_entries, hclose]
  rfl

theorem parseListResult_page {before : Bytes} (hbefore : (123 : UInt8) ∉ before)
    (es : List Entry) (files dirs : List Bytes) :
    parseListResult (before ++ renderPage es) files dirs =
      .ok (ready (files ++ filesOf es) (dirs ++ dirsOf es)) := by
  change scanAll (ready files dirs) (before ++ renderPage es) = _
  rw [scanAll_between rfl before hbefore, scanAll_page]

theorem splitChar_of_notMem {c : UInt8} {text : Bytes} (hc : c ∉ text) (hne : text ≠ []) :
    splitChar c text = [text] := by
  have hparts : text.splitOnP (· == c) = [text] := by
    apply List.splitOnP_eq_singleton
    intro d hd
    exact beq_eq_false_iff_ne.mpr fun heq => hc (heq ▸ hd)
  simp [splitChar, hparts, hne]

theorem splitChar_two {c : UInt8} {first second : Bytes} (hfirst : c ∉ first)
    (hsecond : c ∉ second) (hne : second ≠ []) :
    splitChar c (first ++ c :: second) = [first, second] := by
  have hother : ∀ {text : Bytes}, c ∉ text → ∀ d ∈ text, (d == c) = false := by
    intro text hc d hd
    exact beq_eq_false_iff_ne.mpr fun heq => hc (heq ▸ hd)
  have hparts : (first ++ c :: second).splitOnP (· == c) = [first, second] := by
    rw [List.splitOnP_append_cons_of_forall_mem (hother hfirst) c (beq_self_eq_true c),
      List.splitOnP_eq_singleton (hother hsecond)]
  simp [splitChar, hparts, hne]

def linkText (url : Bytes) : Bytes := 60 :: (url ++ [62]) ++ 59 :: bytes " rel=\"next\""

theorem trim_target (url : Bytes) : trim (60 :: (url ++ [62])) = 60 :: (url ++ [62]) := by
  simp [trim, isSpace, List.dropWhile]

theorem parseNextUrl_linkText {url : Bytes} (hcomma : (44 : UInt8) ∉ url)
    (hsemicolon : (59 : UInt8) ∉ url) :
    parseNextUrlFromLinkHeader (linkText url) = .ok url := by
  have hlink : splitChar 44 (linkText url) = [linkText url] := by
    apply splitChar_of_notMem
    · have hrel : (44 : UInt8) ∉ bytes " rel=\"next\"" := by decide
      simp [linkText, hcomma, hrel]
    · simp [linkText]
  have hparts : splitChar 59 (linkText url) = [60 :: (url ++ [62]), bytes " rel=\"next\""] := by
    apply splitChar_two
    · simp [hsemicolon]
    · decide
    · decide
  have hrel : trim (bytes " rel=\"next\"") = bytes "rel=\"next\"" := by decide
  have hopen : startsWith (60 :: (url ++ [62])) (bytes "<") = true := by
    have hbytes : bytes "<" = [60] := by decide
    simp [startsWith, hbytes]
  have hclose : endsWith (60 :: (url ++ [62])) (bytes ">") = true := by
    have hbytes : bytes ">" = [62] := by decide
    rw [endsWith, List.isSuffixOf_iff_suffix, hbytes]
    exact ⟨60 :: url, rfl⟩
  have htarget : substr (60 :: (url ++ [62])) 1 ((60 :: (url ++ [62])).length - 2) = url := by
    simp [substr]
  rw [parseNextUrlFromLinkHeader, hlink, parseNextUrlFrom, hparts]
  simp only [hrel, if_true, trim_target, hopen, hclose, Bool.not_true, Bool.or_self,
    Bool.false_eq_true, if_false, htarget]

/-- A page and the URL of the one after it. -/
structure ServerPage where
  entries : List Entry
  next : Option Bytes := none

def ServerPage.link (page : ServerPage) : Bytes := (page.next.map linkText).getD []

/-- The head of the response that brings the page. -/
structure Answers (page : ServerPage) (response : HTTPResponse) : Prop where
  ok : response.status = 200
  hasLink : response.hasHeader (bytes "Link") = page.next.isSome
  link : response.getHeaderValue (bytes "Link") = page.link

/-- An attempt fails without a response, with an error status or within the body. -/
inductive Failed (page : ServerPage) (attempt : Attempt) : Prop where
  | connection (hnone : attempt.response = none)
  | status (response : HTTPResponse) (hresponse : attempt.response = some response)
      (herror : 400 ≤ response.status)
  | body (response : HTTPResponse) (hresponse : attempt.response = some response)
      (hanswers : Answers page response) (hpart : attempt.delivered <+: renderPage page.entries)

/-- What the attempts at a request for the page are. -/
structure TransferOf (page : ServerPage) (transfer : Transfer) : Prop where
  failed : ∀ attempt ∈ transfer.failed, Failed page attempt
  answered : ∃ response, transfer.last.response = some response ∧ Answers page response
  whole : transfer.last.delivered = renderPage page.entries

/-- No attempt that failed got as far as the first entry of its page. -/
def CutBeforeEntries (transfer : Transfer) : Prop :=
  ∀ attempt ∈ transfer.failed, ∀ response ∈ attempt.response, response.status < 400 →
    (123 : UInt8) ∉ attempt.delivered

/-- What is left in the handlers by attempts that delivered no entry. -/
structure Leftover (page : ServerPage) (h : Handlers) : Prop where
  link : h.linkHeaderResult = [] ∨ h.linkHeaderResult = page.link
  response : (123 : UInt8) ∉ h.response

variable {page : ServerPage} {attempt : Attempt} {h : Handlers} {response : HTTPResponse}

theorem onAttempt_answered (hresponse : attempt.response = some response)
    (hanswers : Answers page response)
    (hlink : h.linkHeaderResult = [] ∨ h.linkHeaderResult = page.link) :
    onAttempt h attempt = ⟨page.link, h.response ++ attempt.delivered⟩ := by
  have hstatus : ¬ 400 ≤ response.status := by
    rw [hanswers.ok]
    decide
  simp only [onAttempt, hresponse, hstatus, if_false, hanswers.hasLink, hanswers.link]
  cases hnext : page.next with
  | some url => simp
  | none =>
      have hempty : page.link = [] := by simp [ServerPage.link, hnext]
      rw [hempty, or_self] at hlink
      simp [hempty, hlink]

theorem Leftover.onAttempt (hleft : Leftover page h) (hfailed : Failed page attempt)
    (hcut : ∀ response ∈ attempt.response, response.status < 400 →
      (123 : UInt8) ∉ attempt.delivered) : Leftover page (onAttempt h attempt) := by
  cases hfailed with
  | connection hnone => simpa only [HuggingFaceFileSystem.onAttempt, hnone] using hleft
  | status response hresponse herror =>
      simpa only [HuggingFaceFileSystem.onAttempt, hresponse, herror, if_true] using hleft
  | body response hresponse hanswers hpart =>
      rw [onAttempt_answered hresponse hanswers hleft.link]
      have hdelivered := hcut response hresponse (by rw [hanswers.ok]; decide)
      exact ⟨.inr rfl, by simp [hleft.response, hdelivered]⟩

theorem Leftover.foldl {failed : List Attempt} (hleft : Leftover page h)
    (hfailed : ∀ attempt ∈ failed, Failed page attempt)
    (hcut : ∀ attempt ∈ failed, ∀ response ∈ attempt.response, response.status < 400 →
      (123 : UInt8) ∉ attempt.delivered) :
    Leftover page (failed.foldl HuggingFaceFileSystem.onAttempt h) := by
  induction failed generalizing h with
  | nil => exact hleft
  | cons attempt failed ih =>
      rw [List.foldl_cons]
      apply ih
      · exact hleft.onAttempt (hfailed attempt List.mem_cons_self)
          (hcut attempt List.mem_cons_self)
      · exact fun other hother => hfailed other (List.mem_cons_of_mem _ hother)
      · exact fun other hother => hcut other (List.mem_cons_of_mem _ hother)

theorem requestUrl_absolute {url : ParsedHFUrl} {nextPageUrl : Bytes}
    (habsolute : url.endpoint ++ [slash] <+: nextPageUrl) :
    requestUrl url nextPageUrl = nextPageUrl := by
  obtain ⟨after, rfl⟩ := habsolute
  simp [requestUrl, startsWith]

theorem listHFRequest_page {env : HFEnv} (n : Nat) (url : ParsedHFUrl) {nextPageUrl : Bytes}
    (habsolute : url.endpoint ++ [slash] <+: nextPageUrl)
    (htransfer : TransferOf page (env.transport n nextPageUrl))
    (hcut : CutBeforeEntries (env.transport n nextPageUrl))
    (hnext : ∀ next ∈ page.next, (44 : UInt8) ∉ next ∧ (59 : UInt8) ∉ next) :
    ∃ before, (123 : UInt8) ∉ before ∧ listHFRequest env n url nextPageUrl =
      .ok (before ++ renderPage page.entries, page.next.getD []) := by
  obtain ⟨response, hresponse, hanswers⟩ := htransfer.answered
  have hleft : Leftover page {} := ⟨.inl rfl, List.not_mem_nil⟩
  have hleft := hleft.foldl htransfer.failed hcut
  refine ⟨_, hleft.response, ?_⟩
  have hstatus : ¬ 400 ≤ (200 : Nat) := by decide
  simp only [listHFRequest, requestUrl_absolute habsolute, hresponse, hanswers.ok, hstatus,
    if_false, ne_eq, not_true_eq_false, onAttempt_answered hresponse hanswers hleft.link,
    htransfer.whole]
  cases hurl : page.next with
  | none => simp [ServerPage.link, hurl]
  | some next =>
      obtain ⟨hcomma, hsemicolon⟩ := hnext next hurl
      have hlink : page.link = linkText next := by simp [ServerPage.link, hurl]
      have hne : (linkText next).isEmpty = false := rfl
      rw [hlink, hne, parseNextUrl_linkText hcomma hsemicolon]
      rfl

end HaybarnHttpfs.HuggingFacePages
