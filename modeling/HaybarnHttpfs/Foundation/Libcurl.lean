import HaybarnHttpfs.Foundation.ByteStrings
import Mathlib.Data.List.Basic

/-!
Easy handles of libcurl, by what its documentation says of them: options stay as they are from
one transfer to the next, some of them pick the kind of request as a side effect, and the
options determine the request that goes out.
-/

namespace HaybarnHttpfs.Foundation.Libcurl

open HaybarnHttpfs.Foundation.ByteStrings

universe u v

/-- The options that hold a value. -/
inductive EasyOption where
  | acceptEncoding
  | caInfo
  | connectTimeout
  | curlu
  | customRequest
  | followLocation
  | forbidReuse
  | headerData
  | headerFunction
  | httpAuth
  | httpHeader
  | httpVersion
  | lowSpeedLimit
  | lowSpeedTime
  | noProgress
  | pipeWait
  | postFields
  | postFieldSize
  | privateData
  | proxy
  | proxyPassword
  | proxyUsername
  | sslOptions
  | sslVerifyHost
  | sslVerifyPeer
  | timeout
  | url
  | verbose
  | writeData
  | writeFunction
  | xferInfoData
  | xferInfoFunction
  | xoauth2Bearer
  deriving DecidableEq, Repr

/-- `address` is a pointer to something of the caller's, `callback` one to a function of that
name. -/
inductive OptionValue where
  | null
  | long (n : Int)
  | text (text : Bytes)
  | list (lines : List Bytes)
  | parsedUrl (base relative : Bytes)
  | address (pointer : Nat)
  | callback (name : String)
  deriving DecidableEq, Repr

inductive RequestKind where
  | get
  | head
  | post
  deriving DecidableEq, Repr

inductive Setting where
  | noBody (enabled : Bool)
  | httpGet (enabled : Bool)
  | post (enabled : Bool)
  | value (option : EasyOption) (value : OptionValue)

def Setting.value? (option : EasyOption) : Setting → Option OptionValue
  | .value target new => if target = option then some new else none
  | .noBody _ | .httpGet _ | .post _ => none

/-- The kind of request and whether it is without a body, once the option is set. Setting
`CURLOPT_POSTFIELDS` implies a `POST`. -/
def Setting.picks (kind : RequestKind) (noBody : Bool) : Setting → RequestKind × Bool
  | .noBody true => (.head, true)
  | .noBody false => (if kind = .head then .get else kind, false)
  | .httpGet true => (.get, false)
  | .httpGet false => (kind, noBody)
  | .post true => (.post, false)
  | .post false => (.get, noBody)
  | .value option _ => (if option = .postFields then .post else kind, noBody)

/-- What a transfer does not read of a handle, or only for a `POST`: these say which request it
is, wait for connections of a multi handle, or are the caller's. -/
def EasyOption.internal : EasyOption → Bool
  | .customRequest | .postFields | .postFieldSize | .pipeWait | .privateData | .headerData
  | .writeData => true
  | _ => false

/-- Easy handles `H` that make transfers `R`. -/
class EasyHandles (H : Type u) (R : outParam (Type v)) where
  easyInit : H
  setopt : H → Setting → H
  kindOf : H → RequestKind
  noBodyOf : H → Bool
  valueOf : H → EasyOption → OptionValue
  transferOf : H → R
  bodyOf : R → Option Bytes
  kindOf_easyInit : kindOf easyInit = .get
  noBodyOf_easyInit : noBodyOf easyInit = false
  valueOf_easyInit : ∀ option ∈ [EasyOption.customRequest, .postFields, .privateData],
    valueOf easyInit option = .null
  valueOf_setopt : ∀ handle setting option, valueOf (setopt handle setting) option =
    (setting.value? option).getD (valueOf handle option)
  picks_setopt : ∀ handle setting,
    (kindOf (setopt handle setting), noBodyOf (setopt handle setting)) =
    setting.picks (kindOf handle) (noBodyOf handle)
  /-- The request is the one that the options describe. -/
  transferOf_congr : ∀ handle handle', kindOf handle = kindOf handle' →
    noBodyOf handle = noBodyOf handle' →
    valueOf handle .customRequest = valueOf handle' .customRequest →
    (kindOf handle = .post → valueOf handle .postFields = valueOf handle' .postFields ∧
      valueOf handle .postFieldSize = valueOf handle' .postFieldSize) →
    (∀ option, option.internal = false → valueOf handle option = valueOf handle' option) →
      transferOf handle = transferOf handle'
  bodyOf_get : ∀ handle, kindOf handle = .get → bodyOf (transferOf handle) = none
  /-- A size of zero makes a `POST` of no bytes. -/
  bodyOf_emptyPost : ∀ handle, kindOf handle = .post → valueOf handle .postFieldSize = .long 0 →
    bodyOf (transferOf handle) = some []

export EasyHandles (easyInit setopt kindOf noBodyOf valueOf transferOf bodyOf)

variable {H : Type u} {R : Type v} [EasyHandles H R] {handle handle' : H}
  {settings more : List Setting} {option : EasyOption}

def setAll (handle : H) (settings : List Setting) : H := settings.foldl setopt handle

/-- The value that a run of settings leaves behind, if it writes the option. -/
def written (option : EasyOption) : List Setting → Option OptionValue
  | [] => none
  | setting :: settings => (written option settings).or (setting.value? option)

theorem written_append (option : EasyOption) (settings more : List Setting) :
    written option (settings ++ more) = (written option more).or (written option settings) := by
  induction settings with
  | nil => simp [written]
  | cons setting settings ih => rw [List.cons_append, written, ih, written, Option.or_assoc]

theorem valueOf_setAll (handle : H) (settings : List Setting) (option : EasyOption) :
    valueOf (setAll handle settings) option =
      (written option settings).getD (valueOf handle option) := by
  induction settings generalizing handle with
  | nil => rfl
  | cons setting settings ih =>
      have hstep : setAll handle (setting :: settings) =
          setAll (setopt handle setting) settings := rfl
      rw [hstep, ih, EasyHandles.valueOf_setopt, written]
      cases written option settings with
      | none => rfl
      | some value => rfl

theorem setAll_append (handle : H) (settings more : List Setting) :
    setAll handle (settings ++ more) = setAll (setAll handle settings) more :=
  List.foldl_append

theorem valueOf_setAll_congr (settings : List Setting)
    (hsame : written option settings = none → valueOf handle option = valueOf handle' option) :
    valueOf (setAll handle settings) option = valueOf (setAll handle' settings) option := by
  rw [valueOf_setAll, valueOf_setAll]
  cases hwritten : written option settings with
  | none => exact hsame hwritten
  | some value => rfl

/-- The kind of request and the flag after a run of settings. -/
def picksAll (kind : RequestKind) (noBody : Bool) (settings : List Setting) :
    RequestKind × Bool :=
  settings.foldl (fun picked setting => setting.picks picked.1 picked.2) (kind, noBody)

theorem picks_setAll (handle : H) (settings : List Setting) :
    (kindOf (setAll handle settings), noBodyOf (setAll handle settings)) =
      picksAll (kindOf handle) (noBodyOf handle) settings := by
  induction settings generalizing handle with
  | nil => rfl
  | cons setting settings ih =>
      have hstep : setAll handle (setting :: settings) =
          setAll (setopt handle setting) settings := rfl
      rw [hstep, ih, picksAll, picksAll, List.foldl_cons, ← EasyHandles.picks_setopt]

/-- A setting that has nothing to do with the kind of request. -/
def Setting.plain : Setting → Bool
  | .value option _ => option ≠ .postFields
  | .noBody _ | .httpGet _ | .post _ => false

theorem picksAll_plain (kind : RequestKind) (noBody : Bool)
    (hplain : settings.all Setting.plain = true) :
    picksAll kind noBody settings = (kind, noBody) := by
  induction settings with
  | nil => rfl
  | cons setting settings ih =>
      rw [List.all_cons, Bool.and_eq_true] at hplain
      cases setting with
      | noBody enabled => cases hplain.1
      | httpGet enabled => cases hplain.1
      | post enabled => cases hplain.1
      | value option value =>
          have hother : option ≠ .postFields := by simpa [Setting.plain] using hplain.1
          rw [picksAll, List.foldl_cons, Setting.picks, if_neg hother]
          exact ih hplain.2

theorem picksAll_append (kind : RequestKind) (noBody : Bool) (settings more : List Setting) :
    picksAll kind noBody (settings ++ more) =
      picksAll (picksAll kind noBody settings).1 (picksAll kind noBody settings).2 more :=
  List.foldl_append

end HaybarnHttpfs.Foundation.Libcurl
