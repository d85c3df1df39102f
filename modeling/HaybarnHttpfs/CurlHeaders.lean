import HaybarnHttpfs.HTTPExchange

/-!
`RequestHeaderCallback` of the curl client: curl calls it once for every header line of
every response it receives, and a status line opens a new block. The callback runs inside
curl, where it must not throw.
-/

namespace HaybarnHttpfs.CurlHeaders

open HaybarnHttpfs.Foundation.ByteStrings HaybarnHttpfs.HTTPExchange

def headerValue (headers : HTTPHeaders) (name : Bytes) : Option Bytes :=
  (headers.find name).map Prod.snd

/-- `HTTPHeaders::Insert` keeps one value for a name, the first one. -/
structure HeaderCore extends HTTPCore where
  insert_other : ∀ headers name value name', lower name' ≠ lower name →
    (insert headers name value).find name' = headers.find name'
  insert_new : ∀ headers name value, headers.find name = none →
    (insert headers name value).find name = some (name, value)
  insert_kept : ∀ headers name value entry, headers.find name = some entry →
    (insert headers name value).find name = some entry

/-- The value of the first of `fields` with the name, in any case. -/
def firstValue (fields : List (Bytes × Bytes)) (name : Bytes) : Option Bytes :=
  (fields.find? fun field => lower field.1 = lower name).map Prod.snd

theorem find_of_lower {headers : HTTPHeaders} {name name' : Bytes}
    (hsame : lower name = lower name') :
    headers.find name = headers.find name' := by
  unfold HTTPHeaders.find
  rw [hsame]

theorem value_insert (core : HeaderCore) (headers : HTTPHeaders) (name value name' : Bytes) :
    headerValue (core.insert headers name value) name' =
      (headerValue headers name').or (if lower name = lower name' then some value else none) := by
  unfold headerValue
  by_cases hsame : lower name = lower name'
  · rw [if_pos hsame, ← find_of_lower hsame, ← find_of_lower hsame]
    cases hfound : headers.find name with
    | none => rw [core.insert_new headers name value hfound]; rfl
    | some entry => rw [core.insert_kept headers name value entry hfound]; rfl
  · rw [if_neg hsame, core.insert_other headers name value name' fun heq => hsame heq.symm]
    exact (Option.or_none).symm

theorem firstValue_cons (field : Bytes × Bytes) (fields : List (Bytes × Bytes)) (name : Bytes) :
    firstValue (field :: fields) name =
      (if lower field.1 = lower name then some field.2 else none).or
        (firstValue fields name) := by
  unfold firstValue
  by_cases hsame : lower field.1 = lower name
  · rw [List.find?_cons_of_pos (by simpa using hsame), if_pos hsame]
    rfl
  · rw [List.find?_cons_of_neg (by simpa using hsame), if_neg hsame]
    rfl

theorem value_insertAll (core : HeaderCore) (headers : HTTPHeaders)
    (fields : List (Bytes × Bytes))
    (name : Bytes) : headerValue (insertAll core.toHTTPCore headers fields) name =
      (headerValue headers name).or (firstValue fields name) := by
  unfold insertAll
  induction fields generalizing headers with
  | nil => exact (Option.or_none).symm
  | cons field fields ih =>
      rw [List.foldl_cons, ih, value_insert, firstValue_cons, Option.or_assoc]

theorem firstValue_normalized (fields : List (Bytes × Bytes)) (name : Bytes) :
    firstValue (normalizeHeaderNames fields) name = firstValue fields name := by
  induction fields with
  | nil => rfl
  | cons field fields ih =>
      rw [normalizeHeaderNames, List.map_cons, firstValue_cons, firstValue_cons, lower_lower]
      exact congrArg _ ih

theorem firstValue_append (fields fields' : List (Bytes × Bytes)) (name : Bytes) :
    firstValue (fields ++ fields') name =
      (firstValue fields name).or (firstValue fields' name) := by
  unfold firstValue
  rw [List.find?_append]
  cases fields.find? _ with
  | _ => rfl

inductive CallbackError where
  /-- `std::string::at` throws. -/
  | outOfRange
  /-- `back` of an empty collection, which is undefined. -/
  | noHeaders
  deriving DecidableEq, Repr

def colon : UInt8 := 58

def trimLineEnd (header : Bytes) : Bytes :=
  if header.getLast? = some 10 then
    let header := header.dropLast
    if header.getLast? = some 13 then header.dropLast else header
  else header

def isStatusLine (header : Bytes) : Bool := startsWith header (bytes "HTTP/")

/-- Returns the number of bytes that curl is told are consumed. -/
def requestHeaderCallback (core : HTTPCore) (contents : Bytes)
    (headerCollection : List HTTPHeaders) : Except CallbackError (Nat × List HTTPHeaders) :=
  let header := trimLineEnd contents
  let headerCollection :=
    if isStatusLine header then
      headerCollection ++ [core.insert {} (bytes "__RESPONSE_STATUS__") header]
    else headerCollection
  match find [colon] header with
  | none => .ok (contents.length, headerCollection)
  | some colonPos =>
      let part1 := header.take colonPos
      match header.drop (colonPos + 1) with
      -- nothing behind the colon, not even the line end that was trimmed
      | [] => .error .outOfRange
      | c :: rest =>
          let part2 := if c = 32 then rest else c :: rest
          match headerCollection.getLast? with
          | none => .error .noHeaders
          | some back =>
              .ok (contents.length,
                headerCollection.dropLast ++ [core.insert back (lower part1) part2])

/-- The calls for the lines of a transfer, with what each of them returns. -/
def collect (core : HTTPCore) :
    List Bytes → List HTTPHeaders → Except CallbackError (List Nat × List HTTPHeaders)
  | [], headerCollection => .ok ([], headerCollection)
  | line :: lines, headerCollection => do
      let (consumed, headerCollection) ← requestHeaderCallback core line headerCollection
      let (consumedNext, headerCollection) ← collect core lines headerCollection
      return (consumed :: consumedNext, headerCollection)

/-- A status line and what follows it up to the next one: field lines, lines without a
colon, the empty line and trailers. The name of a field has no slash, so that no field
line reads like a status line. -/
structure Block where
  statusLine : Bytes
  fieldLines : List Bytes
  opens : isStatusLine (trimLineEnd statusLine) = true
  tokens : ∀ line ∈ fieldLines, startsWith (lower (trimLineEnd line)) (bytes "http/") = false

def Block.lines (block : Block) : List Bytes := block.statusLine :: block.fieldLines

def linesOf (blocks : List Block) : List Bytes := blocks.flatMap Block.lines

/-- The name of a line's field and its value, without the one leading space. -/
def fieldOf (line : Bytes) : Option (Bytes × Bytes) :=
  (find [colon] (trimLineEnd line)).map fun colonPos =>
    let value := (trimLineEnd line).drop (colonPos + 1)
    ((trimLineEnd line).take colonPos, if value.head? = some 32 then value.tail else value)

def Block.fields (block : Block) : List (Bytes × Bytes) := block.fieldLines.filterMap fieldOf

/-- No call throws, each consumes its whole line, and the last block has the value of
every field of the final response; of a field on several lines, that of the first. -/
def Collects (core : HTTPCore) (blocks : List Block) : Prop :=
  ∃ headerCollection,
    collect core (linesOf blocks) [] = .ok ((linesOf blocks).map List.length, headerCollection) ∧
      ∀ before final, blocks = before ++ [final] →
        ∃ headers, headerCollection.getLast? = some headers ∧
          ∀ field ∈ final.fields,
            headerValue headers (lower field.1) = firstValue final.fields field.1

/-- A colon, if there is one, is not the end of the line. -/
def Valued (line : Bytes) : Prop :=
  ∀ colonPos, find [colon] (trimLineEnd line) = some colonPos →
    colonPos + 1 < (trimLineEnd line).length

instance (line : Bytes) : Decidable (Valued line) :=
  decidable_of_iff (∀ colonPos ∈ find [colon] (trimLineEnd line),
    colonPos + 1 < (trimLineEnd line).length) Iff.rfl

/-- Every line goes on behind its colon, and the final response has no field under the
name that the callback keeps the status line under, or one that repeats it. -/
structure Harmless (blocks : List Block) : Prop where
  valued : ∀ line ∈ linesOf blocks, Valued line
  reserved : ∀ before final, blocks = before ++ [final] →
    ∀ value, firstValue final.fields (bytes "__RESPONSE_STATUS__") = some value →
      value = trimLineEnd final.statusLine

variable {core : HeaderCore} {line : Bytes} {lines : List Bytes}
  {headerCollection : List HTTPHeaders} {headers : HTTPHeaders}

/-- What a line adds to the block it belongs to. -/
def received (core : HTTPCore) (headers : HTTPHeaders) (line : Bytes) : HTTPHeaders :=
  insertAll core headers (normalizeHeaderNames (fieldOf line).toList)

theorem callback_of_colon {c : UInt8} {rest : Bytes} {colonPos : Nat}
    (hcolon : find [colon] (trimLineEnd line) = some colonPos)
    (hvalue : (trimLineEnd line).drop (colonPos + 1) = c :: rest) (headers : HTTPHeaders)
    (before : List HTTPHeaders)
    (hopened : (if isStatusLine (trimLineEnd line) then
      headerCollection ++ [core.insert {} (bytes "__RESPONSE_STATUS__") (trimLineEnd line)]
      else headerCollection) = before ++ [headers]) :
    requestHeaderCallback core.toHTTPCore line headerCollection =
      .ok (line.length, before ++ [received core.toHTTPCore headers line]) := by
  have hfield : fieldOf line = some ((trimLineEnd line).take colonPos,
      if c = 32 then rest else c :: rest) := by
    unfold fieldOf
    rw [hcolon, Option.map_some, hvalue]
    simp only [List.head?_cons, Option.some.injEq, List.tail_cons]
  unfold requestHeaderCallback
  simp only [hopened, hcolon, hvalue, List.getLast?_concat, List.dropLast_concat]
  unfold received
  rw [hfield]
  rfl

theorem callback_of_valued (hvalued : Valued line) (headers : HTTPHeaders)
    (before : List HTTPHeaders)
    (hopened : (if isStatusLine (trimLineEnd line) then
      headerCollection ++ [core.insert {} (bytes "__RESPONSE_STATUS__") (trimLineEnd line)]
      else headerCollection) = before ++ [headers]) :
    requestHeaderCallback core.toHTTPCore line headerCollection =
      .ok (line.length, before ++ [received core.toHTTPCore headers line]) := by
  cases hcolon : find [colon] (trimLineEnd line) with
  | none =>
      have hfield : fieldOf line = none := by
        unfold fieldOf
        rw [hcolon]
        rfl
      unfold requestHeaderCallback
      simp only [hopened, hcolon]
      unfold received
      rw [hfield]
      rfl
  | some colonPos =>
      have hlt := hvalued colonPos hcolon
      obtain ⟨c, rest, hvalue⟩ := List.exists_cons_of_ne_nil
        (l := (trimLineEnd line).drop (colonPos + 1)) (by simpa using hlt)
      exact callback_of_colon hcolon hvalue headers before hopened

theorem callback_field (hvalued : Valued line) (hfield : isStatusLine (trimLineEnd line) = false)
    (headers : HTTPHeaders) (before : List HTTPHeaders) :
    requestHeaderCallback core.toHTTPCore line (before ++ [headers]) =
      .ok (line.length, before ++ [received core.toHTTPCore headers line]) :=
  callback_of_valued hvalued headers before (by rw [hfield]; rfl)

theorem callback_status (hvalued : Valued line)
    (hopens : isStatusLine (trimLineEnd line) = true) :
    requestHeaderCallback core.toHTTPCore line headerCollection =
      .ok (line.length, headerCollection ++ [received core.toHTTPCore
        (core.insert {} (bytes "__RESPONSE_STATUS__") (trimLineEnd line)) line]) :=
  callback_of_valued hvalued _ _ (if_pos hopens)

theorem callback_unvalued (hunvalued : ¬ Valued line) :
    requestHeaderCallback core.toHTTPCore line headerCollection = .error .outOfRange := by
  simp only [Valued, not_forall] at hunvalued
  obtain ⟨colonPos, hcolon, hlength⟩ := hunvalued
  unfold requestHeaderCallback
  simp only [hcolon, List.drop_of_length_le (Nat.le_of_not_lt hlength)]

theorem lower_statusLine (rest : Bytes) :
    lower (bytes "HTTP/" ++ rest) = bytes "http/" ++ lower rest := by
  unfold lower
  rw [List.map_append]
  rfl

theorem not_isStatusLine {header : Bytes}
    (htoken : startsWith (lower header) (bytes "http/") = false) :
    isStatusLine header = false := by
  rw [Bool.eq_false_iff] at htoken ⊢
  intro hopens
  apply htoken
  obtain ⟨rest, rfl⟩ := List.isPrefixOf_iff_prefix.mp hopens
  apply List.isPrefixOf_iff_prefix.mpr
  exact ⟨lower rest, (lower_statusLine rest).symm⟩

theorem received_all (core : HTTPCore) (headers : HTTPHeaders) (lines : List Bytes) :
    lines.foldl (received core) headers =
      insertAll core headers (normalizeHeaderNames (lines.filterMap fieldOf)) := by
  induction lines generalizing headers with
  | nil => rfl
  | cons line lines ih =>
      rw [List.foldl_cons, ih, List.filterMap_cons]
      unfold received
      cases fieldOf line with
      | _ => rfl

/-- The callback collects for a block what is assumed of it elsewhere; a status line with
a colon counts as a field. -/
def Block.collected (core : HTTPCore) (block : Block) : HTTPHeaders :=
  curlCollected core (trimLineEnd block.statusLine) (block.lines.filterMap fieldOf)

theorem collected_eq (core : HTTPCore) (block : Block) :
    block.collected core = block.fieldLines.foldl (received core) (received core
      (core.insert {} (bytes "__RESPONSE_STATUS__") (trimLineEnd block.statusLine))
      block.statusLine) := by
  unfold Block.collected curlCollected Block.lines
  rw [← received_all, List.foldl_cons]

theorem collect_cons_ok {calls : Nat × List HTTPHeaders}
    (hcall : requestHeaderCallback core.toHTTPCore line headerCollection = .ok calls) :
    collect core.toHTTPCore (line :: lines) headerCollection =
      (collect core.toHTTPCore lines calls.2).map fun rest => (calls.1 :: rest.1, rest.2) := by
  simp only [collect, hcall]
  show (collect core.toHTTPCore lines calls.2).bind _ = _
  cases collect core.toHTTPCore lines calls.2 with
  | _ => rfl

theorem collect_append {first second : List Bytes} {calls : List Nat × List HTTPHeaders}
    (hfirst : collect core.toHTTPCore first headerCollection = .ok calls) :
    collect core.toHTTPCore (first ++ second) headerCollection =
      (collect core.toHTTPCore second calls.2).map fun rest => (calls.1 ++ rest.1, rest.2) := by
  induction first generalizing headerCollection calls with
  | nil =>
      cases hfirst
      cases hsecond : collect core.toHTTPCore second headerCollection with
      | _ => simp [hsecond, Except.map]
  | cons line first ih =>
      cases hcall : requestHeaderCallback core.toHTTPCore line headerCollection with
      | error e =>
          simp only [collect, hcall] at hfirst
          cases hfirst
      | ok call =>
          rw [collect_cons_ok hcall] at hfirst
          cases hrest : collect core.toHTTPCore first call.2 with
          | error e =>
              rw [hrest] at hfirst
              cases hfirst
          | ok rest =>
              rw [hrest] at hfirst
              cases hfirst
              rw [List.cons_append, collect_cons_ok hcall, ih hrest]
              cases collect core.toHTTPCore second rest.2 with
              | _ => rfl

theorem collect_fields (before : List HTTPHeaders) (headers : HTTPHeaders)
    (hvalued : ∀ line ∈ lines, Valued line)
    (htokens : ∀ line ∈ lines, startsWith (lower (trimLineEnd line)) (bytes "http/") = false) :
    collect core.toHTTPCore lines (before ++ [headers]) =
      .ok (lines.map List.length,
        before ++ [lines.foldl (received core.toHTTPCore) headers]) := by
  induction lines generalizing headers with
  | nil => rfl
  | cons line lines ih =>
      rw [List.forall_mem_cons] at hvalued htokens
      rw [collect_cons_ok (callback_field hvalued.1 (not_isStatusLine htokens.1) headers before),
        ih _ hvalued.2 htokens.2]
      rfl

theorem collect_block {block : Block} (hvalued : ∀ line ∈ block.lines, Valued line)
    (headerCollection : List HTTPHeaders) :
    collect core.toHTTPCore block.lines headerCollection =
      .ok (block.lines.map List.length,
        headerCollection ++ [block.collected core.toHTTPCore]) := by
  unfold Block.lines at hvalued ⊢
  rw [List.forall_mem_cons] at hvalued
  rw [collect_cons_ok (callback_status hvalued.1 block.opens),
    collect_fields _ _ hvalued.2 block.tokens, collected_eq]
  rfl

theorem collect_blocks {blocks : List Block} (hvalued : ∀ line ∈ linesOf blocks, Valued line)
    (headerCollection : List HTTPHeaders) :
    collect core.toHTTPCore (linesOf blocks) headerCollection =
      .ok ((linesOf blocks).map List.length,
        headerCollection ++ blocks.map (Block.collected core.toHTTPCore)) := by
  induction blocks generalizing headerCollection with
  | nil => exact congrArg (fun collection => Except.ok ([], collection)) (List.append_nil _).symm
  | cons block blocks ih =>
      unfold linesOf at hvalued ih ⊢
      rw [List.flatMap_cons] at hvalued ⊢
      rw [List.forall_mem_append] at hvalued
      rw [collect_append (collect_block hvalued.1 headerCollection), ih hvalued.2,
        List.map_append, List.map_cons, ← List.append_cons]
      rfl

theorem valued_of_collect {calls : List Nat × List HTTPHeaders}
    (hcollect : collect core.toHTTPCore lines headerCollection = .ok calls) :
    ∀ line ∈ lines, Valued line := by
  induction lines generalizing headerCollection calls with
  | nil => exact fun _ hline => absurd hline List.not_mem_nil
  | cons line lines ih =>
      cases hcall : requestHeaderCallback core.toHTTPCore line headerCollection with
      | error e =>
          simp only [collect, hcall] at hcollect
          cases hcollect
      | ok call =>
          rw [collect_cons_ok hcall] at hcollect
          cases hrest : collect core.toHTTPCore lines call.2 with
          | error e =>
              rw [hrest] at hcollect
              cases hcollect
          | ok rest =>
              refine List.forall_mem_cons.mpr ⟨?_, ih hrest⟩
              by_contra hunvalued
              rw [callback_unvalued hunvalued] at hcall
              cases hcall

theorem statusField_ne {block : Block} {field pseudo : Bytes × Bytes}
    (hfield : field ∈ block.fields)
    (hpseudo : fieldOf block.statusLine = some pseudo) : lower pseudo.1 ≠ lower field.1 := by
  intro hsame
  obtain ⟨line, hline, hof⟩ := List.mem_filterMap.mp hfield
  unfold fieldOf at hpseudo hof
  obtain ⟨colonPos, hcolon, rfl⟩ := Option.map_eq_some_iff.mp hpseudo
  obtain ⟨colonPos', -, rfl⟩ := Option.map_eq_some_iff.mp hof
  have hopens := List.isPrefixOf_iff_prefix.mp block.opens
  obtain ⟨rest, hrest⟩ := hopens
  have hlong : 5 ≤ colonPos := by
    by_contra hshort
    obtain ⟨rest', hdrop⟩ := drop_of_find_singleton hcolon
    have hget : (trimLineEnd block.statusLine)[colonPos]? = some colon := by
      rw [← List.head?_drop, hdrop]
      rfl
    rw [← hrest] at hget
    have hcases : colonPos = 0 ∨ colonPos = 1 ∨ colonPos = 2 ∨ colonPos = 3 ∨ colonPos = 4 := by
      omega
    rcases hcases with rfl | rfl | rfl | rfl | rfl
    all_goals cases hget
  have hname : bytes "http/" <+: lower ((trimLineEnd block.statusLine).take colonPos) := by
    rw [← hrest, List.take_append, List.take_of_length_le hlong]
    exact ⟨lower (rest.take (colonPos - 5)), (lower_statusLine _).symm⟩
  have htoken := block.tokens line hline
  rw [Bool.eq_false_iff] at htoken
  apply htoken
  apply List.isPrefixOf_iff_prefix.mpr
  rw [hsame] at hname
  exact hname.trans ((List.take_prefix _ _).map lowerByte)

theorem firstValue_lower (fields : List (Bytes × Bytes)) (name : Bytes) :
    firstValue fields (lower name) = firstValue fields name := by
  unfold firstValue
  rw [lower_lower]

theorem value_collected {block : Block} {field : Bytes × Bytes} (hfield : field ∈ block.fields) :
    headerValue (block.collected core.toHTTPCore) (lower field.1) =
      (if lower (bytes "__RESPONSE_STATUS__") = lower field.1 then
        some (trimLineEnd block.statusLine) else none).or (firstValue block.fields field.1) := by
  have hstatus : firstValue (fieldOf block.statusLine).toList field.1 = none := by
    cases hpseudo : fieldOf block.statusLine with
    | none => rfl
    | some pseudo =>
        rw [Option.toList_some, firstValue_cons, if_neg (statusField_ne hfield hpseudo)]
        rfl
  have hfields : block.lines.filterMap fieldOf =
      (fieldOf block.statusLine).toList ++ block.fields := by
    unfold Block.lines Block.fields
    rw [List.filterMap_cons]
    cases fieldOf block.statusLine with
    | _ => rfl
  unfold Block.collected curlCollected
  rw [value_insertAll, value_insert, firstValue_normalized, firstValue_lower, hfields,
    firstValue_append, hstatus, lower_lower]
  rfl

theorem exists_field_of_firstValue {fields : List (Bytes × Bytes)} {name value : Bytes}
    (hvalue : firstValue fields name = some value) :
    ∃ field ∈ fields, lower field.1 = lower name := by
  obtain ⟨field, hfind, -⟩ := Option.map_eq_some_iff.mp hvalue
  exact ⟨field, List.mem_of_find?_eq_some hfind, by simpa using List.find?_some hfind⟩

theorem exists_firstValue {fields : List (Bytes × Bytes)} {field : Bytes × Bytes}
    (hfield : field ∈ fields) : ∃ value, firstValue fields field.1 = some value := by
  unfold firstValue
  cases hfind : fields.find? fun other => lower other.1 = lower field.1 with
  | none => exact absurd (List.find?_eq_none.mp hfind field hfield) (by simp)
  | some found => exact ⟨found.2, rfl⟩

theorem firstValue_congr {fields : List (Bytes × Bytes)} {name name' : Bytes}
    (hsame : lower name = lower name') : firstValue fields name = firstValue fields name' := by
  unfold firstValue
  rw [hsame]

theorem harmless_of_collects {blocks : List Block} (hcollects : Collects core.toHTTPCore blocks) :
    Harmless blocks := by
  obtain ⟨headerCollection, hcollect, hlast⟩ := hcollects
  have hvalued := valued_of_collect hcollect
  constructor
  · exact hvalued
  · intro before final hblocks value hvalue
    obtain ⟨headers, hheaders, hfields⟩ := hlast before final hblocks
    rw [collect_blocks hvalued, hblocks, List.map_append, List.nil_append] at hcollect
    cases hcollect
    rw [List.map_singleton, List.getLast?_concat] at hheaders
    cases hheaders
    obtain ⟨field, hfield, hsame⟩ := exists_field_of_firstValue hvalue
    have hread := hfields field hfield
    rw [value_collected hfield, if_pos hsame.symm, firstValue_congr hsame, hvalue] at hread
    exact (Option.some.inj hread).symm

theorem collects_of_harmless {blocks : List Block} (hharmless : Harmless blocks) :
    Collects core.toHTTPCore blocks := by
  refine ⟨_, collect_blocks hharmless.valued [], ?_⟩
  intro before final hblocks
  refine ⟨final.collected core.toHTTPCore, ?_, ?_⟩
  · rw [hblocks, List.map_append, List.nil_append, List.map_singleton, List.getLast?_concat]
  · intro field hfield
    rw [value_collected hfield]
    split
    · rename_i hsame
      obtain ⟨value, hvalue⟩ := exists_firstValue hfield
      have hreserved := hharmless.reserved before final hblocks value
        ((firstValue_congr hsame).trans hvalue)
      rw [hvalue, hreserved]
      rfl
    · rfl

/-- The headers of every legal stream are collected, exactly if no line ends with its
colon and no field has the callback's own name. -/
theorem collects_iff_harmless (core : HeaderCore) (blocks : List Block) :
    Collects core.toHTTPCore blocks ↔ Harmless blocks := by
  constructor
  · exact harmless_of_collects
  · exact collects_of_harmless

theorem find_insertFirst (headers : HTTPHeaders) (name value name' : Bytes) :
    (insertFirst headers name value).find name' =
      (headers.find name').or
        (if lower name = lower name' then some (name, value) else none) := by
  unfold insertFirst
  split
  · rename_i hpresent
    split
    · rename_i hsame
      obtain ⟨entry, hentry, hname⟩ := List.mem_map.mp hpresent
      have hfound : (headers.find name').isSome = true := by
        rw [← find_of_lower hsame]
        unfold HTTPHeaders.find
        rw [List.find?_isSome]
        exact ⟨entry, hentry, by simpa using hname⟩
      rw [Option.or_of_isSome hfound]
    · exact (Option.or_none).symm
  · unfold HTTPHeaders.find
    rw [List.find?_append]
    congr 1
    by_cases hsame : lower name = lower name'
    · simp [hsame]
    · simp [hsame]

def plainHeaderCore : HeaderCore where
  toHTTPCore := plainCore
  insert_other headers name value name' hother := by
    show (insertFirst headers name value).find name' = _
    rw [find_insertFirst, if_neg fun hsame => hother hsame.symm]
    exact Option.or_none
  insert_new headers name value hnone := by
    show (insertFirst headers name value).find name = _
    rw [find_insertFirst, hnone, if_pos rfl]
    rfl
  insert_kept headers name value entry hfound := by
    show (insertFirst headers name value).find name = _
    rw [find_insertFirst, hfound]
    rfl

/-- A response with an empty `Server` field. -/
def emptyServer : Block where
  statusLine := bytes "HTTP/1.1 200 OK\r\n"
  fieldLines := [bytes "Server:\r\n", bytes "\r\n"]
  opens := by decide
  tokens := by decide

theorem empty_value_throws : ¬ ∀ blocks, Collects plainHeaderCore.toHTTPCore blocks := by
  intro hall
  have hvalued := (harmless_of_collects (hall [emptyServer])).valued (bytes "Server:\r\n")
    (by decide) 6 (by decide)
  exact absurd hvalued (by decide)

end HaybarnHttpfs.CurlHeaders
