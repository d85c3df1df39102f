import HaybarnHttpfs.Foundation.ByteStrings

/-!
Responses and the exceptions built from them. The header map and the exception
class are the engine's; of them only what is documented is assumed.
-/

namespace HaybarnHttpfs.HTTPExchange

open HaybarnHttpfs.Foundation.ByteStrings

/-- The header map finds a name in any case and keeps it as it was inserted. -/
structure HTTPHeaders where
  entries : List (Bytes × Bytes) := []
  distinct : (entries.map fun entry => lower entry.1).Nodup := by exact List.nodup_nil

def HTTPHeaders.find (headers : HTTPHeaders) (name : Bytes) : Option (Bytes × Bytes) :=
  headers.entries.find? fun entry => lower entry.1 = lower name

def HTTPHeaders.names (headers : HTTPHeaders) : List Bytes := headers.entries.map Prod.fst

structure HTTPResponse where
  status : Nat
  body : Bytes := []
  headers : HTTPHeaders := {}

def HTTPResponse.hasHeader (response : HTTPResponse) (name : Bytes) : Bool :=
  (response.headers.find name).isSome

def HTTPResponse.getHeaderValue (response : HTTPResponse) (name : Bytes) : Bytes :=
  ((response.headers.find name).map Prod.snd).getD []

structure ErrorData where
  extraInfo : List (Bytes × Bytes) := []
  message : Bytes := []

/-- What the engine's `HTTPHeaders::Insert` and `HTTPException` do: the map keeps
the name it is given or one it has, and the exception carries the status, the
body and a `header_<name>` for every header. -/
structure HTTPCore where
  insert : HTTPHeaders → Bytes → Bytes → HTTPHeaders
  httpException : HTTPResponse → Bytes → ErrorData
  insert_names : ∀ headers name value, ∀ name' ∈ (insert headers name value).names,
    name' = name ∨ name' ∈ headers.names
  status_code : ∀ response message,
    (httpException response message).extraInfo.lookup (bytes "status_code") =
      some (decimal response.status)
  response_body : ∀ response message,
    (httpException response message).extraInfo.lookup (bytes "response_body") =
      some response.body
  header_name : ∀ response message name,
    (httpException response message).extraInfo.lookup (bytes "header_" ++ name) =
      response.headers.entries.lookup name

def insertAll (core : HTTPCore) (headers : HTTPHeaders) (fields : List (Bytes × Bytes)) :
    HTTPHeaders :=
  fields.foldl (fun headers field => core.insert headers field.1 field.2) headers

/-- `NormalizeHeaderName`: both clients insert the names of a response in lower case. -/
def normalizeHeaderNames (fields : List (Bytes × Bytes)) : List (Bytes × Bytes) :=
  fields.map fun field => (lower field.1, field.2)

/-- `TransformResponse` of the httplib client. -/
def httplibHeaders (core : HTTPCore) (fields : List (Bytes × Bytes)) : HTTPHeaders :=
  insertAll core {} (normalizeHeaderNames fields)

/-- What `RequestHeaderCallback` of the curl client collects. -/
def curlCollected (core : HTTPCore) (statusLine : Bytes) (fields : List (Bytes × Bytes)) :
    HTTPHeaders :=
  insertAll core (core.insert {} (bytes "__RESPONSE_STATUS__") statusLine)
    (normalizeHeaderNames fields)

/-- What the curl client hands on: a body that curl decoded gets a length of its own. -/
def curlHeaders (core : HTTPCore) (statusLine : Bytes) (fields : List (Bytes × Bytes))
    (bodyWasDecoded : Bool) (bodySize : Nat) : HTTPHeaders :=
  let kept := (curlCollected core statusLine fields).entries.filter fun entry =>
    entry.1 ≠ bytes "__RESPONSE_STATUS__" &&
      !(bodyWasDecoded && (lower entry.1 = bytes "content-length" ||
        lower entry.1 = bytes "content-encoding"))
  let headers := insertAll core {} kept
  if bodyWasDecoded then core.insert headers (bytes "Content-Length") (decimal bodySize)
  else headers

/-- The headers that one of the clients gives a response. -/
def Received (core : HTTPCore) (headers : HTTPHeaders) : Prop :=
  (∃ fields, headers = httplibHeaders core fields) ∨
    ∃ statusLine fields bodyWasDecoded bodySize,
      headers = curlHeaders core statusLine fields bodyWasDecoded bodySize

theorem insertAll_names {core : HTTPCore} {headers : HTTPHeaders}
    {fields : List (Bytes × Bytes)} {name : Bytes}
    (hname : name ∈ (insertAll core headers fields).names) :
    name ∈ headers.names ∨ ∃ field ∈ fields, field.1 = name := by
  induction fields generalizing headers with
  | nil => exact .inl hname
  | cons field fields ih =>
      rcases ih hname with hbefore | ⟨field', hfield', hname'⟩
      · rcases core.insert_names headers field.1 field.2 name hbefore with rfl | hold
        · exact .inr ⟨field, List.mem_cons_self, rfl⟩
        · exact .inl hold
      · exact .inr ⟨field', List.mem_cons_of_mem _ hfield', hname'⟩

theorem lower_normalized {fields : List (Bytes × Bytes)} {field : Bytes × Bytes}
    (hfield : field ∈ normalizeHeaderNames fields) : lower field.1 = field.1 := by
  obtain ⟨wire, -, rfl⟩ := List.mem_map.mp hfield
  exact lower_lower wire.1

theorem curlCollected_name {core : HTTPCore} {statusLine : Bytes}
    {fields : List (Bytes × Bytes)} {entry : Bytes × Bytes}
    (hentry : entry ∈ (curlCollected core statusLine fields).entries)
    (hfield : entry.1 ≠ bytes "__RESPONSE_STATUS__") : lower entry.1 = entry.1 := by
  rcases insertAll_names (List.mem_map_of_mem hentry) with hstatus | ⟨field, hmem, hname⟩
  · rcases core.insert_names _ _ _ _ hstatus with hline | hnone
    · exact absurd hline hfield
    · cases hnone
  · rw [← hname]
    exact lower_normalized hmem

/-- A client never hands on a name in mixed case, other than the length it computes. -/
theorem Received.names {core : HTTPCore} {headers : HTTPHeaders}
    (hreceived : Received core headers) {name : Bytes} (hname : name ∈ headers.names) :
    lower name = name ∨ name = bytes "Content-Length" := by
  rcases hreceived with ⟨fields, rfl⟩ | ⟨statusLine, fields, bodyWasDecoded, bodySize, rfl⟩
  · rcases insertAll_names hname with hnone | ⟨field, hmem, rfl⟩
    · cases hnone
    · exact .inl (lower_normalized hmem)
  · have hkept : ∀ kept, (∀ entry ∈ kept, entry ∈ (curlCollected core statusLine fields).entries ∧
        entry.1 ≠ bytes "__RESPONSE_STATUS__") →
          name ∈ (insertAll core {} kept).names → lower name = name := by
      intro kept hkept hname
      rcases insertAll_names hname with hnone | ⟨entry, hmem, rfl⟩
      · cases hnone
      · exact curlCollected_name (hkept entry hmem).1 (hkept entry hmem).2
    have hfiltered : ∀ entry ∈ (curlCollected core statusLine fields).entries.filter
        fun entry => entry.1 ≠ bytes "__RESPONSE_STATUS__" &&
          !(bodyWasDecoded && (lower entry.1 = bytes "content-length" ||
            lower entry.1 = bytes "content-encoding")),
        entry ∈ (curlCollected core statusLine fields).entries ∧
          entry.1 ≠ bytes "__RESPONSE_STATUS__" := by
      intro entry hentry
      rw [List.mem_filter, Bool.and_eq_true, decide_eq_true_eq] at hentry
      exact ⟨hentry.1, hentry.2.1⟩
    unfold curlHeaders at hname
    simp only at hname
    split at hname
    · rcases core.insert_names _ _ _ _ hname with hlength | hbefore
      · exact .inr hlength
      · exact .inl (hkept _ hfiltered hbefore)
    · exact .inl (hkept _ hfiltered hname)

/-- A received header is found under its lower-case name exactly if it is stored under it. -/
theorem Received.find {core : HTTPCore} {headers : HTTPHeaders}
    (hreceived : Received core headers) (name : Bytes) (hlower : lower name = name)
    (hlength : name ≠ bytes "content-length") :
    (headers.find name).map Prod.snd = headers.entries.lookup name := by
  have hsame : ∀ entry ∈ headers.entries, lower entry.1 = lower name ↔ entry.1 = name := by
    intro entry hentry
    rw [hlower]
    rcases hreceived.names (List.mem_map_of_mem hentry) with hstored | hstored
    · rw [hstored]
    · rw [hstored]
      constructor
      · intro heq
        exact absurd (heq.symm.trans (by decide)) hlength
      · rintro rfl
        exact absurd hlower (by decide)
  unfold HTTPHeaders.find
  generalize headers.entries = entries at hsame
  induction entries with
  | nil => rfl
  | cons entry entries ih =>
      rw [List.forall_mem_cons] at hsame
      by_cases hhere : entry.1 = name
      · have hbeq : (name == entry.1) = true := by simpa using hhere.symm
        rw [List.find?_cons_of_pos (by simpa using hsame.1.mpr hhere), List.lookup_cons, hbeq]
        rfl
      · have hnot : ¬ lower entry.1 = lower name := fun heq => hhere (hsame.1.mp heq)
        have hbeq : (name == entry.1) = false := by simpa using fun heq => hhere heq.symm
        rw [List.find?_cons_of_neg (by simpa using hnot), List.lookup_cons, hbeq]
        exact ih hsame.2

/-- A map that keeps the first value of a name. -/
def insertFirst (headers : HTTPHeaders) (name value : Bytes) : HTTPHeaders :=
  if hpresent : lower name ∈ headers.entries.map fun entry => lower entry.1 then headers
  else
    { entries := headers.entries ++ [(name, value)]
      distinct := by
        rw [List.map_append, List.map_singleton, List.nodup_append]
        refine ⟨headers.distinct, by simp, ?_⟩
        intro a ha b hb heq
        rw [List.mem_singleton] at hb
        subst hb
        subst heq
        exact hpresent ha }

theorem lookup_header_name (headers : List (Bytes × Bytes)) (name : Bytes) :
    (headers.map fun entry => (bytes "header_" ++ entry.1, entry.2)).lookup
      (bytes "header_" ++ name) = headers.lookup name := by
  induction headers with
  | nil => rfl
  | cons entry headers ih =>
      rw [List.map_cons, List.lookup_cons, List.lookup_cons, ih]
      have hsame : (bytes "header_" ++ name == bytes "header_" ++ entry.1) =
          (name == entry.1) := by
        rw [Bool.eq_iff_iff, beq_iff_eq, beq_iff_eq]
        exact List.append_right_inj _
      rw [hsame]

/-- The least such core. -/
def plainCore : HTTPCore where
  insert := insertFirst
  httpException response message :=
    { extraInfo := (bytes "status_code", decimal response.status) ::
        (bytes "response_body", response.body) ::
        response.headers.entries.map fun entry => (bytes "header_" ++ entry.1, entry.2)
      message }
  insert_names := by
    intro headers name value name' hname
    unfold insertFirst at hname
    split at hname
    · exact .inr hname
    · simp only [HTTPHeaders.names, List.map_append, List.map_cons, List.map_nil,
        List.mem_append, List.mem_singleton] at hname ⊢
      exact hname.symm
  status_code _ _ := rfl
  response_body _ _ := rfl
  header_name _ _ _ := lookup_header_name _ _

end HaybarnHttpfs.HTTPExchange
