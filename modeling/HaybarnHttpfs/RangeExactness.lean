import HaybarnHttpfs.BufferedRead

/-!
Range reads of an immutable object: what `TryRangeRequest` accepts when attempts
are honoured, ignored, failing or cut off.
-/

namespace HaybarnHttpfs.RangeExactness

open HaybarnHttpfs.Foundation.Memory
open HaybarnHttpfs.BufferedRead HaybarnHttpfs.RangeRequest

universe u

variable {α : Type u} {get : RangeGet} {object : List α} {offset : Nat}

/-- What an attempt at `object[offset, offset + len)` may be; each body may be cut
off at any byte. -/
inductive Serves (object : List α) (offset len : Nat) : Transfer α → Prop where
  | honoured {transfer : Transfer α} {head : ResponseHead} :
      transfer.head = some head → head.status = 206 → head.success →
        transfer.chunks.flatten <+: slice object offset len → Serves object offset len transfer
  | ignored {transfer : Transfer α} {head : ResponseHead} :
      transfer.head = some head → head.status = 200 → head.success →
        head.contentLength = none ∨ head.contentLength = some object.length →
        transfer.chunks.flatten <+: object → Serves object offset len transfer
  | failed {transfer : Transfer α} :
      (∀ head, transfer.head = some head → 300 ≤ head.status ∧ head.success = false) →
        Serves object offset len transfer

def rangeReply (get : RangeGet) (transfers : List (Transfer α)) (bufferOut : Cells α) :
    RangeReply α :=
  { written := (runGetRangeRequest get transfers bufferOut).1
    result := (runGetRangeRequest get transfers bufferOut).2 }

/-- `TryRangeRequest` returns true only with the range in the buffer, and writes
nowhere else. -/
structure RangeExact (h : HTTPFileHandle α) (get : RangeGet) (object : List α) (offset : Nat)
    (transfers : List (Transfer α)) (bufferOut : Cells α) : Prop where
  exact : (tryRangeRequest h offset get.bufferOutLen (rangeReply get transfers bufferOut)).2 =
      .ok true →
    Holds (rangeReply get transfers bufferOut).written (slice object offset get.bufferOutLen)
  within : ∀ i, get.bufferOutLen ≤ i →
    (rangeReply get transfers bufferOut).written i = bufferOut i

/-- The last attempt ignored the range, named no length, and was cut off without
an error after as many bytes as were asked for, which are not those asked for. -/
def CutAtLength (get : RangeGet) (object : List α) (transfers : List (Transfer α))
    (offset : Nat) : Prop :=
  ∃ transfer head, transfers.getLast? = some transfer ∧ transfer.head = some head ∧
    head.status = 200 ∧ head.contentLength = none ∧ etagMismatch get head = false ∧
    transfer.completed ∧ transfer.chunks.flatten.length = get.bufferOutLen ∧
    object.take get.bufferOutLen ≠ slice object offset get.bufferOutLen

theorem contentHandler_within (data : List α) (out : OutBuffer α) {i : Nat}
    (hi : get.bufferOutLen ≤ i) :
    (contentHandler get data out).1.bufferOut i = out.bufferOut i := by
  unfold contentHandler
  split
  · rfl
  · rename_i hroom
    simp only [store]
    rw [if_neg (by omega)]

theorem receiveBody_within (chunks : List (List α)) (out : OutBuffer α) {i : Nat}
    (hi : get.bufferOutLen ≤ i) :
    (receiveBody get chunks out).1.bufferOut i = out.bufferOut i := by
  induction chunks generalizing out with
  | nil => rfl
  | cons data chunks ih =>
      have hchunk := contentHandler_within data out hi
      unfold receiveBody
      split
      · rename_i out' hhandler
        rw [hhandler] at hchunk
        exact (ih out').trans hchunk
      · rename_i out' e hhandler
        rw [hhandler] at hchunk
        exact hchunk

theorem responseHandler_bufferOut (get : RangeGet) (head : ResponseHead) (out : OutBuffer α) :
    (responseHandler get head out).1.bufferOut = out.bufferOut := by
  unfold responseHandler
  split
  · simp only
    split
    · rfl
    · split
      · rfl
      · rfl
  · rfl

theorem runAttempt_within (transfer : Transfer α) (out : OutBuffer α) {i : Nat}
    (hi : get.bufferOutLen ≤ i) :
    (runAttempt get transfer out).1.bufferOut i = out.bufferOut i := by
  unfold runAttempt
  split
  · rfl
  · rename_i head hhead
    have hbuffer := responseHandler_bufferOut get head out
    split
    · rename_i out' e hhandler
      rw [hhandler] at hbuffer
      exact congrFun hbuffer i
    · rename_i out' hhandler
      rw [hhandler] at hbuffer
      have hbody := receiveBody_within
        (if head.status ≥ 400 then [] else transfer.chunks) out' hi
      simp only
      split
      · rename_i out'' e hreceive
        rw [hreceive] at hbody
        exact hbody.trans (congrFun hbuffer i)
      · rename_i out'' hreceive
        rw [hreceive] at hbody
        split
        · exact hbody.trans (congrFun hbuffer i)
        · exact hbody.trans (congrFun hbuffer i)

theorem runAttempts_within (transfers : List (Transfer α)) (out : OutBuffer α) {i : Nat}
    (hi : get.bufferOutLen ≤ i) :
    (runAttempts get transfers out).1.bufferOut i = out.bufferOut i := by
  induction transfers generalizing out with
  | nil => rfl
  | cons transfer transfers ih =>
      cases transfers with
      | nil => exact runAttempt_within transfer out hi
      | cons next transfers => exact (ih _).trans (runAttempt_within transfer out hi)

theorem runGetRangeRequest_within (transfers : List (Transfer α)) (bufferOut : Cells α)
    {i : Nat} (hi : get.bufferOutLen ≤ i) :
    (runGetRangeRequest get transfers bufferOut).1 i = bufferOut i := by
  have hattempts := runAttempts_within transfers { bufferOut := bufferOut } hi
  unfold runGetRangeRequest
  generalize runAttempts get transfers { bufferOut := bufferOut } = outcome at *
  obtain ⟨out, result⟩ := outcome
  cases result with
  | ok head => exact hattempts
  | error e =>
      simp only
      split
      · exact hattempts
      · exact hattempts

theorem runAttempts_last {transfers : List (Transfer α)} {transfer : Transfer α}
    (out : OutBuffer α) (hlast : transfers.getLast? = some transfer) :
    ∃ out₀, runAttempts get transfers out = runAttempt get transfer out₀ := by
  induction transfers generalizing out with
  | nil => cases hlast
  | cons first transfers ih =>
      cases transfers with
      | nil =>
          cases hlast
          exact ⟨out, rfl⟩
      | cons next transfers =>
          rw [List.getLast?_cons_cons] at hlast
          exact ih _ hlast

theorem receiveBody_of_room {chunks : List (List α)} {out : OutBuffer α}
    (hroom : out.outOffset + chunks.flatten.length ≤ get.bufferOutLen) :
    ∃ out', receiveBody get chunks out = (out', .ok ()) := by
  induction chunks generalizing out with
  | nil => exact ⟨out, rfl⟩
  | cons data chunks ih =>
      rw [List.flatten_cons, List.length_append] at hroom
      unfold receiveBody contentHandler
      rw [if_neg (by omega)]
      apply ih
      simp only
      omega

theorem holds_of_accepted {transfer : Transfer α} {head : ResponseHead} {written : Cells α}
    (hwithin : offset + get.bufferOutLen ≤ object.length)
    (hserves : Serves object offset get.bufferOutLen transfer)
    (hhead : transfer.head = some head) (haccepted : acceptsHead head)
    (hlength : contentLengthMismatch get head = false)
    (hreceived : transfer.chunks.flatten.length = get.bufferOutLen)
    (hholds : Holds written transfer.chunks.flatten)
    (hwhole : head.status = 200 → head.contentLength = none →
      object.take get.bufferOutLen = slice object offset get.bufferOutLen) :
    Holds written (slice object offset get.bufferOutLen) := by
  have hslice : (slice object offset get.bufferOutLen).length = get.bufferOutLen :=
    length_slice hwithin
  cases hserves with
  | honoured _ _ _ hbody =>
      rw [hbody.eq_of_length (hreceived.trans hslice.symm)] at hholds
      exact hholds
  | ignored hhead' hstatus _ hnamed hbody =>
      rw [hhead, Option.some.injEq] at hhead'
      subst hhead'
      have htaken : transfer.chunks.flatten = object.take get.bufferOutLen := by
        rw [List.prefix_iff_eq_take.mp hbody, hreceived]
      rcases hnamed with hnone | hsome
      · rw [htaken, hwhole hstatus hnone] at hholds
        exact hholds
      · -- the length named is the one asked for, so that the range is the object
        have hall : object.length = get.bufferOutLen := by
          simpa [contentLengthMismatch, hsome] using hlength
        have hstart : offset = 0 := by omega
        rw [htaken] at hholds
        rw [hstart, slice, List.drop_zero]
        exact hholds
  | failed hfailed =>
      obtain ⟨hstatus, hfailure⟩ := hfailed head hhead
      simp only [acceptsHead, hfailure, Bool.false_or, Bool.or_eq_true, decide_eq_true_eq]
        at haccepted
      omega

theorem runAttempt_named {transfer : Transfer α} {out out' : OutBuffer α} {head : ResponseHead}
    (hattempt : runAttempt get transfer out = (out', .ok head)) (hstatus : head.status < 300) :
    contentLengthMismatch get head = false := by
  have hhead := (runAttempt_ok hattempt).1
  by_contra hmismatch
  unfold runAttempt at hattempt
  rw [hhead] at hattempt
  simp only [responseHandler, if_pos hstatus, eq_true_of_ne_false hmismatch, if_true] at hattempt
  split at hattempt
  · cases hattempt
  · rename_i hhandler
    split at hhandler
    · cases hhandler
    · cases hhandler

theorem runGetRangeRequest_last {transfers : List (Transfer α)} {bufferOut : Cells α}
    {head : ResponseHead}
    (hresponse : (runGetRangeRequest get transfers bufferOut).2 = .response head) :
    ∃ transfer out out', transfers.getLast? = some transfer ∧
      runAttempt get transfer out = (out', .ok head) ∧
      (runGetRangeRequest get transfers bufferOut).1 = out'.bufferOut ∧
      (head.success → out'.outOffset = get.bufferOutLen) := by
  unfold runGetRangeRequest at hresponse ⊢
  cases hlast : transfers.getLast? with
  | none =>
      rw [List.getLast?_eq_none_iff] at hlast
      subst hlast
      simp only [runAttempts] at hresponse
      split at hresponse
      · cases hresponse
      · cases hresponse
  | some transfer =>
      obtain ⟨out, hattempts⟩ := runAttempts_last { bufferOut := bufferOut } hlast
      rw [hattempts] at hresponse ⊢
      cases hattempt : runAttempt get transfer out with
      | mk out' outcome =>
          rw [hattempt] at hresponse
          cases outcome with
          | error e =>
              simp only at hresponse
              split at hresponse
              · cases hresponse
              · cases hresponse
          | ok head' =>
              simp only [checkResponse] at hresponse
              split at hresponse
              · cases hresponse
              · split at hresponse
                · cases hresponse
                cases hresponse
                rename_i hshort
                refine ⟨transfer, out, out', rfl, hattempt, rfl, ?_⟩
                intro hsuccess
                by_contra hne
                exact hshort ⟨hsuccess, hne⟩

theorem cut_accepted {transfers : List (Transfer α)} {transfer : Transfer α} {head : ResponseHead}
    (hlast : transfers.getLast? = some transfer) (hhead : transfer.head = some head)
    (hstatus : head.status = 200) (hnone : head.contentLength = none)
    (hetag : etagMismatch get head = false) (hcompleted : transfer.completed)
    (hreceived : transfer.chunks.flatten.length = get.bufferOutLen) (bufferOut : Cells α) :
    (runGetRangeRequest get transfers bufferOut).2 = .response head ∧
      Holds (runGetRangeRequest get transfers bufferOut).1 transfer.chunks.flatten := by
  obtain ⟨out, hattempts⟩ := runAttempts_last { bufferOut := bufferOut } hlast
  have hhandler : responseHandler get head out = ({ out with outOffset := 0 }, .ok ()) := by
    simp [responseHandler, hstatus, hetag, contentLengthMismatch, hnone]
  have hroom : ({ out with outOffset := 0 } : OutBuffer α).outOffset +
      transfer.chunks.flatten.length ≤ get.bufferOutLen := by
    simp [hreceived]
  obtain ⟨out', hreceive⟩ := receiveBody_of_room hroom
  have hattempt : runAttempt get transfer out = (out', .ok head) := by
    simp [runAttempt, hhead, hhandler, hstatus, hreceive, hcompleted]
  obtain ⟨-, -, hstored⟩ := runAttempt_ok hattempt
  obtain ⟨-, hoffset, hholds⟩ := hstored (by omega)
  have hcheck : checkResponse get out'.outOffset head = .response head := by
    simp [checkResponse, hstatus, hoffset, hreceived]
  unfold runGetRangeRequest
  rw [hattempts, hattempt]
  exact ⟨hcheck, hholds⟩

/-- A range read is exact or fails, but for one kind of last attempt. -/
theorem rangeExact_iff_not_cutAtLength (h : HTTPFileHandle α) {transfers : List (Transfer α)}
    (bufferOut : Cells α) (hwithin : offset + get.bufferOutLen ≤ object.length)
    (hserved : ∀ transfer ∈ transfers, Serves object offset get.bufferOutLen transfer) :
    RangeExact h get object offset transfers bufferOut ↔
      ¬ CutAtLength get object transfers offset := by
  constructor
  · rintro hexact ⟨transfer, head, hlast, hhead, hstatus, hnone, hetag, hcompleted, hreceived,
      hdiffers⟩
    have hserves := hserved transfer (List.mem_of_getLast? hlast)
    -- neither an honoured nor a failed request has this status, so the range was ignored
    have hbody : head.success ∧ transfer.chunks.flatten <+: object := by
      cases hserves with
      | honoured hhead' hstatus' =>
          rw [hhead, Option.some.injEq] at hhead'
          subst hhead'
          omega
      | ignored hhead' _ hsuccess _ hbody =>
          rw [hhead, Option.some.injEq] at hhead'
          subst hhead'
          exact ⟨hsuccess, hbody⟩
      | failed hfailed =>
          have hhigh := (hfailed head hhead).1
          omega
    obtain ⟨hresponse, hholds⟩ := cut_accepted hlast hhead hstatus hnone hetag hcompleted
      hreceived bufferOut
    have htrue : (tryRangeRequest h offset get.bufferOutLen
        (rangeReply get transfers bufferOut)).2 = .ok true := by
      rw [tryRangeRequest_verdict, rangeReply, hresponse]
      simp [accepted, acceptsHead, hbody.1]
    have hsame := hholds.unique (hexact.exact htrue) (by rw [hreceived, length_slice hwithin])
    apply hdiffers
    rw [← hsame, List.prefix_iff_eq_take.mp hbody.2, hreceived]
  · intro huncut
    refine ⟨?_, fun i hi => runGetRangeRequest_within transfers bufferOut hi⟩
    intro htrue
    rw [tryRangeRequest_verdict] at htrue
    have haccepted : accepted (runGetRangeRequest get transfers bufferOut).2 := htrue
    cases hresult : (runGetRangeRequest get transfers bufferOut).2 with
    | requestError e =>
        rw [hresult] at haccepted
        cases haccepted
    | threw e =>
        rw [hresult] at haccepted
        cases haccepted
    | response head =>
        rw [hresult] at haccepted
        obtain ⟨transfer, out, out', hlast, hattempt, hwritten, hshort⟩ :=
          runGetRangeRequest_last hresult
        have hserves := hserved transfer (List.mem_of_getLast? hlast)
        obtain ⟨hhead, hcompleted, hstored⟩ := runAttempt_ok hattempt
        have hdata : head.status < 300 ∧ head.success := by
          cases hserves with
          | honoured hhead' hstatus hsuccess =>
              rw [hhead, Option.some.injEq] at hhead'
              subst hhead'
              exact ⟨by omega, hsuccess⟩
          | ignored hhead' hstatus hsuccess =>
              rw [hhead, Option.some.injEq] at hhead'
              subst hhead'
              exact ⟨by omega, hsuccess⟩
          | failed hfailed =>
              obtain ⟨hstatus, hfailure⟩ := hfailed head hhead
              simp only [accepted, acceptsHead, hfailure, Bool.false_or, Bool.or_eq_true,
                decide_eq_true_eq] at haccepted
              omega
        obtain ⟨hetag, hoffset, hholds⟩ := hstored hdata.1
        have hreceived := hoffset.symm.trans (hshort hdata.2)
        show Holds (runGetRangeRequest get transfers bufferOut).1 _
        rw [hwritten]
        apply holds_of_accepted hwithin hserves hhead haccepted
          (runAttempt_named hattempt hdata.1) hreceived hholds
        -- what is left is a body cut off at the length asked for
        intro hstatus hnone
        by_contra hdiffers
        exact huncut ⟨transfer, head, hlast, hhead, hstatus, hnone, hetag, hcompleted, hreceived,
          hdiffers⟩

def fourBytes : List Nat := [1, 2, 3, 4]

/-- A broken attempt that had delivered other bytes, and one that honours the range. -/
def retriedRange : List (Transfer Nat) :=
  [{ head := some { status := 200 }, chunks := [[1], [2]], completed := false },
    { head := some { status := 206, contentLength := some 2 }, chunks := [[3], [4]] }]

theorem rangeExact_iff_not_cutAtLength_retried :
    RangeExact { length := 4 } { bufferOutLen := 2 } fourBytes 2 retriedRange blank ↔
      ¬ CutAtLength { bufferOutLen := 2 } fourBytes retriedRange 2 := by
  apply rangeExact_iff_not_cutAtLength
  · decide
  · intro transfer htransfer
    simp only [retriedRange, List.mem_cons, List.not_mem_nil, or_false] at htransfer
    rcases htransfer with rfl | rfl
    · exact .ignored rfl rfl rfl (.inl rfl) (by decide)
    · exact .honoured rfl rfl rfl (by decide)

/-- The server sends the whole object without a length and closes the connection
after two bytes. -/
theorem cut_object_taken_for_range :
    ∃ transfers, (∀ transfer ∈ transfers, Serves fourBytes 2 2 transfer) ∧
      ¬ RangeExact { length := 4 } { bufferOutLen := 2 } fourBytes 2 transfers blank := by
  refine ⟨[{ head := some { status := 200 }, chunks := [[1, 2]] }], ?_, ?_⟩
  · intro transfer htransfer
    rw [List.mem_singleton] at htransfer
    subst htransfer
    exact .ignored rfl rfl rfl (.inl rfl) (by decide)
  · intro hexact
    have hholds := hexact.exact (by decide)
    have hfirst := hholds 0 (by decide)
    revert hfirst
    decide

end HaybarnHttpfs.RangeExactness
