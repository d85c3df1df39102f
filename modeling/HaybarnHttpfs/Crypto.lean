import HaybarnHttpfs.Foundation.ByteStrings
import HaybarnHttpfs.Foundation.Exceptions
import HaybarnHttpfs.Foundation.Numerals
import Mathlib.Algebra.Group.Int.Defs
import Mathlib.Data.List.SplitLengths

/-!
`AESStateSSL`: the order in which it drives an EVP context, for encryption and for decryption.
The context itself is OpenSSL's; what it does in GCM mode is a law about it.
-/

namespace HaybarnHttpfs.Crypto

open HaybarnHttpfs.Foundation.ByteStrings HaybarnHttpfs.Foundation.Exceptions
open HaybarnHttpfs.Foundation.Numerals

inductive CipherType where
  | gcm
  | ctr
  | cbc
  | other (code : Nat)
  deriving DecidableEq, Repr

structure EncryptionStateMetadata where
  cipher : CipherType
  keyLen : Nat

inductive Mode where
  | encrypt
  | decrypt
  deriving DecidableEq, Repr

inductive EvpCipher where
  | aes128gcm
  | aes192gcm
  | aes256gcm
  | aes128ctr
  | aes192ctr
  | aes256ctr
  | aes128cbc
  | aes192cbc
  | aes256cbc
  deriving DecidableEq, Repr

/-- The output pointer of an update; without one the input is authenticated only. -/
inductive Target where
  | null
  | buffer
  deriving DecidableEq, Repr

/-- What a call returns, leaves in the context, writes to the output and to `*outl`. -/
structure UpdateResult (Context : Type) where
  ret : Int
  context : Context
  written : Bytes
  outl : Int

structure Evp where
  Context : Type
  encryptInit : Context → Option EvpCipher → Option Bytes → Option Bytes → Int × Context
  decryptInit : Context → Option EvpCipher → Option Bytes → Option Bytes → Int × Context
  setIvLen : Context → Int → Int × Context
  encryptUpdate : Context → Target → Bytes → Int → UpdateResult Context
  decryptUpdate : Context → Target → Bytes → Int → UpdateResult Context
  encryptFinal : Context → UpdateResult Context
  decryptFinal : Context → UpdateResult Context
  getTag : Context → Int → Int × Context × Bytes
  setTag : Context → Int → Bytes → Int × Context

structure AESStateSSL (evp : Evp) where
  metadata : EncryptionStateMetadata
  context : evp.Context
  mode : Mode

/-- A nonce has one of the sizes that GCM takes. -/
structure EncryptionNonce where
  data : Bytes
  nonempty : 0 < data.length
  bounded : data.length ≤ 16

inductive CryptoError where
  | internal (message : Bytes)
  | invalidInput (message : Bytes)
  deriving DecidableEq, Repr

variable {evp : Evp}

/-- `(int)` of an `idx_t`. -/
def castInt (n : Nat) : Int := (n : Int).bmod (2 ^ 32)

/-- An `int` that is stored through a pointer to the low half of an `idx_t`. -/
def storeInt (n : Nat) (value : Int) : Nat := n / 2 ^ 32 * 2 ^ 32 + (value % 2 ^ 32).toNat

/-- `if (1 != ret) throw`. -/
def expectOne (ret : Int) (message : Bytes) : Except CryptoError Unit :=
  if ret = 1 then .ok () else .error (.internal message)

/-- `if (!ret) throw`. -/
def expectNonzero (ret : Int) (message : Bytes) : Except CryptoError Unit :=
  if ret = 0 then .error (.internal message) else .ok ()

def cipherOfLen (name : String) (keyLen : Nat) (short middle long : EvpCipher) :
    Except CryptoError EvpCipher :=
  if keyLen = 16 then .ok short
  else if keyLen = 24 then .ok middle
  else if keyLen = 32 then .ok long
  else .error (.internal (bytes "Invalid AES key length for " ++ bytes name))

def getCipher (metadata : EncryptionStateMetadata) : Except CryptoError EvpCipher :=
  match metadata.cipher with
  | .gcm => cipherOfLen "GCM" metadata.keyLen .aes128gcm .aes192gcm .aes256gcm
  | .ctr => cipherOfLen "CTR" metadata.keyLen .aes128ctr .aes192ctr .aes256ctr
  | .cbc => cipherOfLen "CBC" metadata.keyLen .aes128cbc .aes192cbc .aes256cbc
  | .other code =>
      .error (.internal (bytes "Invalid Encryption/Decryption Cipher: " ++ decimal code))

def initializeIVEncrypt (state : AESStateSSL evp) (nonce : EncryptionNonce) (key : Bytes) :
    Except CryptoError (AESStateSSL evp) := do
  let (ret, context) := evp.setIvLen state.context (castInt nonce.data.length)
  expectOne ret (bytes "EVP_CIPHER_CTX_ctrl failed (EVP_CTRL_GCM_SET_IVLEN)")
  let (ret, context) := evp.encryptInit context none (some key) (some nonce.data)
  expectOne ret (bytes "EncryptInit failed (attempt 2)")
  return { state with context }

def initializeIVDecrypt (state : AESStateSSL evp) (nonce : EncryptionNonce) (key : Bytes) :
    Except CryptoError (AESStateSSL evp) := do
  let (ret, context) := evp.setIvLen state.context (castInt nonce.data.length)
  expectOne ret (bytes "EVP_CIPHER_CTX_ctrl failed to set GCM iv len")
  let (ret, context) := evp.decryptInit context none (some key) (some nonce.data)
  expectOne ret (bytes "EVP_DecryptInit_ex failed to set iv/key")
  return { state with context }

/-- The end of both initializations: the update is the one of decryption in either. -/
def setAAD (state : AESStateSSL evp) (aad : Bytes) : Except CryptoError (AESStateSSL evp) :=
  if aad.length > 0 then do
    let result := evp.decryptUpdate state.context .null aad (castInt aad.length)
    expectNonzero result.ret (bytes "Setting Additional Authenticated Data  failed")
    return { state with context := result.context }
  else .ok state

def initializeEncryption (state : AESStateSSL evp) (nonce : EncryptionNonce) (key aad : Bytes) :
    Except CryptoError (AESStateSSL evp) := do
  let cipher ← getCipher state.metadata
  let (ret, context) := evp.encryptInit state.context (some cipher) none none
  expectOne ret (bytes "EncryptInit failed (attempt 1)")
  let state ← initializeIVEncrypt { state with mode := .encrypt, context } nonce key
  setAAD state aad

def initializeDecryption (state : AESStateSSL evp) (nonce : EncryptionNonce) (key aad : Bytes) :
    Except CryptoError (AESStateSSL evp) := do
  let cipher ← getCipher state.metadata
  let (ret, context) := evp.decryptInit state.context (some cipher) none none
  expectOne ret (bytes "EVP_DecryptInit_ex failed to set cipher")
  let state ← initializeIVDecrypt { state with mode := .decrypt, context } nonce key
  setAAD state aad

/-- The checks after an update: its return value, and the length that it stored. -/
def finishUpdate (state : AESStateSSL evp) (inLen outLen : Nat)
    (result : UpdateResult evp.Context)
    (message : Bytes) : Except CryptoError (AESStateSSL evp × Bytes) :=
  if result.ret ≠ 1 then .error (.internal message)
  else if storeInt outLen result.outl ≠ inLen then
    .error (.internal (bytes "AES GCM failed, in- and output lengths differ"))
  else .ok ({ state with context := result.context }, result.written)

/-- The state afterwards and what is in the output; the count that is returned is `in_len`. -/
def process (state : AESStateSSL evp) (input : Bytes) (outLen : Nat) :
    Except CryptoError (AESStateSSL evp × Bytes) :=
  match state.mode with
  | .encrypt =>
      finishUpdate state input.length outLen
        (evp.encryptUpdate state.context .buffer input (castInt input.length))
        (bytes "EncryptUpdate failed")
  | .decrypt =>
      finishUpdate state input.length outLen
        (evp.decryptUpdate state.context .buffer input (castInt input.length))
        (bytes "DecryptUpdate failed")

/-- What `Finalize` returns, writes behind the text, and leaves in the tag. -/
structure Finalized (evp : Evp) where
  state : AESStateSSL evp
  textLen : Nat
  written : Bytes
  tag : Bytes

def differs : CryptoError :=
  .invalidInput (bytes "Computed AES tag differs from read AES tag, are you using the right key?")

def finalizeGCM (state : AESStateSSL evp) (outLen : Nat) (tag : Bytes) :
    Except CryptoError (Finalized evp) :=
  match state.mode with
  | .encrypt => do
      let result := evp.encryptFinal state.context
      expectOne result.ret (bytes "EncryptFinal failed")
      let textLen := (outLen + storeInt outLen result.outl) % 2 ^ 64
      let (ret, context, tag) := evp.getTag result.context (castInt tag.length)
      expectOne ret (bytes "Calculating the tag failed")
      return { state := { state with context }, textLen, written := result.written, tag }
  | .decrypt => do
      let (ret, context) := evp.setTag state.context (castInt tag.length) tag
      expectNonzero ret (bytes "Finalizing tag failed")
      let result := evp.decryptFinal context
      let textLen := (outLen + storeInt outLen result.outl) % 2 ^ 64
      if result.ret > 0 then
        return { state := { state with context := result.context }, textLen
                 written := result.written, tag }
      else .error differs

/-- `tag` is the buffer for the tag, and the tag to compare with when decrypting. -/
def finalize (state : AESStateSSL evp) (outLen : Nat) (tag : Bytes) :
    Except CryptoError (Finalized evp) :=
  if state.metadata.cipher = .gcm then finalizeGCM state outLen tag
  else
    match state.mode with
    | .encrypt => do
        let result := evp.encryptFinal state.context
        expectOne result.ret (bytes "EncryptFinal failed")
        return { state := { state with context := result.context }
                 textLen := (outLen + storeInt outLen result.outl) % 2 ^ 64
                 written := result.written, tag }
    | .decrypt =>
        let result := evp.decryptFinal state.context
        if result.ret > 0 then
          .ok { state := { state with context := result.context }
                textLen := (outLen + storeInt outLen result.outl) % 2 ^ 64
                written := result.written, tag }
        else .error differs

/-- GCM: a stream of bytes that a text is XORed with, and a code of the cipher text. -/
structure Gcm where
  keystream : Bytes → Bytes → Nat → UInt8
  mac : Bytes → Bytes → Bytes → Bytes → Bytes
  length_mac : ∀ key iv aad text, (mac key iv aad text).length = 16

/-- A text whose first byte stands at a position of the stream. -/
def Gcm.crypt (gcm : Gcm) (key iv : Bytes) (start : Nat) (text : Bytes) : Bytes :=
  text.mapIdx fun i c => c ^^^ gcm.keystream key iv (start + i)

/-- How far a context has come; `text` is the cipher text so far. -/
inductive Session where
  | chosen (mode : Mode) (cipher : EvpCipher) (ivLen : Nat)
  | running (mode : Mode) (key iv aad text : Bytes)
  | sealed (key iv aad text : Bytes)
  | expecting (key iv aad text tag : Bytes)

def Evp.init (evp : Evp) : Mode → evp.Context → Option EvpCipher → Option Bytes → Option Bytes →
    Int × evp.Context
  | .encrypt => evp.encryptInit
  | .decrypt => evp.decryptInit

def Evp.update (evp : Evp) : Mode → evp.Context → Target → Bytes → Int → UpdateResult evp.Context
  | .encrypt => evp.encryptUpdate
  | .decrypt => evp.decryptUpdate

/-- The length of the key of a GCM cipher. -/
def gcmKeyLen : EvpCipher → Option Nat
  | .aes128gcm => some 16
  | .aes192gcm => some 24
  | .aes256gcm => some 32
  | _ => none

/-- The cipher text that an update adds. -/
def Gcm.ciphertext (gcm : Gcm) (key iv : Bytes) (start : Nat) (input : Bytes) : Mode → Bytes
  | .encrypt => gcm.crypt key iv start input
  | .decrypt => input

/-- The calls of one operation succeed in their order and compute GCM; an update of the other
direction fails. -/
structure Behaves (evp : Evp) (gcm : Gcm) where
  session : evp.Context → Option Session
  init_cipher : ∀ mode context cipher, (gcmKeyLen cipher).isSome →
    ∃ context' ivLen, evp.init mode context (some cipher) none none = (1, context') ∧
      session context' = some (.chosen mode cipher ivLen)
  setIvLen : ∀ context mode cipher ivLen len, session context = some (.chosen mode cipher ivLen) →
    0 < len → len ≤ 16 →
    ∃ context', evp.setIvLen context (len : Nat) = (1, context') ∧
      session context' = some (.chosen mode cipher len)
  init_key : ∀ mode context cipher key iv,
    session context = some (.chosen mode cipher iv.length) → gcmKeyLen cipher = some key.length →
    ∃ context', evp.init mode context none (some key) (some iv) = (1, context') ∧
      session context' = some (.running mode key iv [] [])
  update_aad : ∀ mode context key iv aad input,
    session context = some (.running mode key iv aad []) → input.length < 2 ^ 31 →
    ∃ context' outl, evp.update mode context .null input input.length =
        { ret := 1, context := context', written := [], outl } ∧
      session context' = some (.running mode key iv (aad ++ input) [])
  update_text : ∀ mode context key iv aad text input,
    session context = some (.running mode key iv aad text) →
    text.length + input.length < 2 ^ 31 →
    ∃ context', evp.update mode context .buffer input input.length =
        { ret := 1, context := context', written := gcm.crypt key iv text.length input,
          outl := input.length } ∧
      session context' =
        some (.running mode key iv aad (text ++ gcm.ciphertext key iv text.length input mode))
  update_other : ∀ mode mode' context key iv aad text target input inl,
    session context = some (.running mode key iv aad text) → mode' ≠ mode →
    (evp.update mode' context target input inl).ret = 0
  encryptFinal : ∀ context key iv aad text,
    session context = some (.running .encrypt key iv aad text) →
    ∃ context', evp.encryptFinal context =
        { ret := 1, context := context', written := [], outl := 0 } ∧
      session context' = some (.sealed key iv aad text)
  getTag : ∀ context key iv aad text len, session context = some (.sealed key iv aad text) →
    0 < len → len ≤ 16 →
    ∃ context', evp.getTag context (len : Nat) = (1, context', (gcm.mac key iv aad text).take len)
  setTag : ∀ context key iv aad text tag,
    session context = some (.running .decrypt key iv aad text) → 0 < tag.length →
      tag.length ≤ 16 →
    ∃ context', evp.setTag context tag.length tag = (1, context') ∧
      session context' = some (.expecting key iv aad text tag)
  decryptFinal : ∀ context key iv aad text tag,
    session context = some (.expecting key iv aad text tag) →
    ∃ ret context', evp.decryptFinal context =
        { ret, context := context', written := [], outl := 0 } ∧
      (ret > 0 ↔ tag = (gcm.mac key iv aad text).take tag.length)

/-- The chunks of a text, each with the length of the output that its call is given. -/
def chunks (text : Bytes) (cuts : List (Nat × Nat)) : List (Bytes × Nat) :=
  (List.splitLengths (cuts.map Prod.fst) text).zip (cuts.map Prod.snd)

def processAll :
    AESStateSSL evp → List (Bytes × Nat) → Except CryptoError (AESStateSSL evp × Bytes)
  | state, [] => .ok (state, [])
  | state, (input, outLen) :: rest => do
      let (state, written) ← process state input outLen
      let (state, output) ← processAll state rest
      return (state, written ++ output)

/-- The cipher text and the tag. -/
def encryptText (state : AESStateSSL evp) (nonce : EncryptionNonce) (key aad text : Bytes)
    (cuts : List (Nat × Nat)) (outLen tagLen : Nat) : Except CryptoError (Bytes × Bytes) := do
  let state ← initializeEncryption state nonce key aad
  let (state, output) ← processAll state (chunks text cuts)
  let finalized ← finalize state outLen (List.replicate tagLen 0)
  return (output ++ finalized.written, finalized.tag)

def decryptText (state : AESStateSSL evp) (nonce : EncryptionNonce) (key aad text : Bytes)
    (cuts : List (Nat × Nat)) (outLen : Nat) (tag : Bytes) : Except CryptoError Bytes := do
  let state ← initializeDecryption state nonce key aad
  let (state, output) ← processAll state (chunks text cuts)
  let finalized ← finalize state outLen tag
  return output ++ finalized.written

/-- The state that encrypts and the one that decrypts, what both are given, and the lengths
that the calls are given. -/
structure Transfer (evp : Evp) where
  encryptor : AESStateSSL evp
  decryptor : AESStateSSL evp
  nonce : EncryptionNonce
  key : Bytes
  aad : Bytes
  text : Bytes
  cuts : List (Nat × Nat)
  cuts' : List (Nat × Nat)
  outLen : Nat
  outLen' : Nat
  tagLen : Nat

/-- A GCM key on both sides, a text of a legal length that is cut as a whole, and a tag length
that GCM has. -/
structure Transfer.Legal (transfer : Transfer evp) : Prop where
  encryptor : transfer.encryptor.metadata = { cipher := .gcm, keyLen := transfer.key.length }
  decryptor : transfer.decryptor.metadata = { cipher := .gcm, keyLen := transfer.key.length }
  keyLen : transfer.key.length ∈ [16, 24, 32]
  short : transfer.text.length < 2 ^ 31
  cuts : (transfer.cuts.map Prod.fst).sum = transfer.text.length
  cuts' : (transfer.cuts'.map Prod.fst).sum = transfer.text.length
  tagLen : 0 < transfer.tagLen ∧ transfer.tagLen ≤ 16

def RoundTrips (transfer : Transfer evp) : Prop :=
  ∃ ciphertext tag,
    encryptText transfer.encryptor transfer.nonce transfer.key transfer.aad transfer.text
        transfer.cuts transfer.outLen transfer.tagLen = .ok (ciphertext, tag) ∧
      decryptText transfer.decryptor transfer.nonce transfer.key transfer.aad ciphertext
        transfer.cuts' transfer.outLen' tag = .ok transfer.text

variable {gcm : Gcm} {state : AESStateSSL evp} {nonce : EncryptionNonce} {mode : Mode}
  {key iv aad text input output : Bytes} {start outLen : Nat}

theorem length_crypt (gcm : Gcm) (key iv : Bytes) (start : Nat) (text : Bytes) :
    (gcm.crypt key iv start text).length = text.length :=
  List.length_mapIdx

theorem crypt_append (gcm : Gcm) (key iv : Bytes) (start : Nat) (first second : Bytes) :
    gcm.crypt key iv start (first ++ second) =
      gcm.crypt key iv start first ++ gcm.crypt key iv (start + first.length) second := by
  unfold Gcm.crypt
  rw [List.mapIdx_append]
  congr 2
  funext i c
  rw [Nat.add_comm i, Nat.add_assoc]

theorem crypt_crypt (gcm : Gcm) (key iv : Bytes) (start : Nat) (text : Bytes) :
    gcm.crypt key iv start (gcm.crypt key iv start text) = text := by
  unfold Gcm.crypt
  rw [List.mapIdx_mapIdx, List.mapIdx_eq_iff]
  intro i
  cases text[i]? with
  | none => rfl
  | some c =>
    simp only [Option.map_some, Function.comp_apply, UInt8.xor_assoc, UInt8.xor_self,
      UInt8.xor_zero]

theorem length_ciphertext (gcm : Gcm) (key iv : Bytes) (start : Nat) (input : Bytes)
    (mode : Mode) :
    (gcm.ciphertext key iv start input mode).length = input.length := by
  cases mode with
  | encrypt => exact length_crypt gcm key iv start input
  | decrypt => rfl

theorem ciphertext_append (gcm : Gcm) (key iv : Bytes) (start : Nat) (first second : Bytes)
    (mode : Mode) :
    gcm.ciphertext key iv start (first ++ second) mode =
      gcm.ciphertext key iv start first mode ++
        gcm.ciphertext key iv (start + first.length) second mode := by
  cases mode with
  | encrypt => exact crypt_append gcm key iv start first second
  | decrypt => rfl

theorem castInt_of_lt {n : Nat} (hn : n < 2 ^ 31) : castInt n = n :=
  Int.bmod_eq_of_le (by omega) (by omega)

theorem storeInt_eq_iff {n : Nat} (hn : n < 2 ^ 31) :
    storeInt outLen n = n ↔ outLen < 2 ^ 32 := by
  have hlow : ((n : Int) % 2 ^ 32).toNat = n := by omega
  unfold storeInt
  rw [hlow]
  omega

theorem process_eq (state : AESStateSSL evp) (input : Bytes) (outLen : Nat) :
    ∃ message, process state input outLen =
      finishUpdate state input.length outLen
        (evp.update state.mode state.context .buffer input (castInt input.length)) message := by
  obtain ⟨metadata, context, mode⟩ := state
  cases mode with
  | encrypt => exact ⟨bytes "EncryptUpdate failed", rfl⟩
  | decrypt => exact ⟨bytes "DecryptUpdate failed", rfl⟩

/-- A state in the middle of a text. -/
structure Running (hevp : Behaves evp gcm) (state : AESStateSSL evp) (mode : Mode)
    (key iv text : Bytes) : Prop where
  direction : state.mode = mode
  session : hevp.session state.context = some (.running mode key iv [] text)

theorem process_running (hevp : Behaves evp gcm) (input : Bytes) (outLen : Nat)
    (hrunning : Running hevp state mode key iv text)
    (hshort : text.length + input.length < 2 ^ 31) :
    if outLen < 2 ^ 32 then
      ∃ state', process state input outLen =
          .ok (state', gcm.crypt key iv text.length input) ∧
        state'.metadata = state.metadata ∧
        Running hevp state' mode key iv (text ++ gcm.ciphertext key iv text.length input mode)
    else ∃ e, process state input outLen = .error e := by
  have hinput : input.length < 2 ^ 31 := by omega
  obtain ⟨message, hprocess⟩ := process_eq state input outLen
  obtain ⟨context', hupdate, hsession⟩ := hevp.update_text mode state.context key iv [] text input
    hrunning.session hshort
  rw [castInt_of_lt hinput, hrunning.direction, hupdate] at hprocess
  unfold finishUpdate at hprocess
  rw [if_neg fun hne => hne rfl] at hprocess
  split
  · rename_i hnarrow
    rw [if_neg (not_not_intro ((storeInt_eq_iff hinput).mpr hnarrow))] at hprocess
    exact ⟨_, hprocess, rfl, ⟨hrunning.direction, hsession⟩⟩
  · rename_i hwide
    rw [if_pos fun heq => hwide ((storeInt_eq_iff hinput).mp heq)] at hprocess
    exact ⟨_, hprocess⟩

theorem processAll_running (hevp : Behaves evp gcm) (pieces : List (Bytes × Nat))
    (hrunning : Running hevp state mode key iv text)
    (hshort : text.length + (pieces.map Prod.fst).flatten.length < 2 ^ 31)
    (hnarrow : ∀ piece ∈ pieces, piece.2 < 2 ^ 32) :
    ∃ state', processAll state pieces =
        .ok (state', gcm.crypt key iv text.length (pieces.map Prod.fst).flatten) ∧
      state'.metadata = state.metadata ∧
      Running hevp state' mode key iv
        (text ++ gcm.ciphertext key iv text.length (pieces.map Prod.fst).flatten mode) := by
  induction pieces generalizing state text with
  | nil =>
      refine ⟨state, rfl, rfl, ?_⟩
      have hempty : gcm.ciphertext key iv text.length [] mode = [] :=
        List.eq_nil_of_length_eq_zero (length_ciphertext gcm key iv text.length [] mode)
      rw [List.map_nil, List.flatten_nil, hempty, List.append_nil]
      exact hrunning
  | cons piece pieces ih =>
      obtain ⟨input, outLen⟩ := piece
      rw [List.map_cons, List.flatten_cons, List.length_append] at hshort
      simp only at hshort
      rw [List.forall_mem_cons] at hnarrow
      have hstep := process_running hevp input outLen hrunning (by omega)
      rw [if_pos hnarrow.1] at hstep
      obtain ⟨next, hprocess, hmetadata, hnext⟩ := hstep
      obtain ⟨state', hrest, hmetadata', hrunning'⟩ := ih hnext
        (by rw [List.length_append, length_ciphertext]; omega) hnarrow.2
      rw [List.length_append, length_ciphertext] at hrest hrunning'
      refine ⟨state', ?_, hmetadata'.trans hmetadata, ?_⟩
      · rw [List.map_cons, List.flatten_cons, crypt_append]
        exact bind_eq_ok.mpr ⟨_, hprocess, bind_eq_ok.mpr ⟨_, hrest, rfl⟩⟩
      · rw [List.map_cons, List.flatten_cons, ciphertext_append, ← List.append_assoc]
        exact hrunning'

theorem narrow_of_processAll (hevp : Behaves evp gcm) {pieces : List (Bytes × Nat)}
    {result : AESStateSSL evp × Bytes} (hrunning : Running hevp state mode key iv text)
    (hshort : text.length + (pieces.map Prod.fst).flatten.length < 2 ^ 31)
    (hprocessed : processAll state pieces = .ok result) : ∀ piece ∈ pieces, piece.2 < 2 ^ 32 := by
  induction pieces generalizing state text result with
  | nil => exact nofun
  | cons piece pieces ih =>
      obtain ⟨input, outLen⟩ := piece
      rw [List.map_cons, List.flatten_cons, List.length_append] at hshort
      simp only at hshort
      have hstep := process_running hevp input outLen hrunning (by omega)
      simp only [processAll] at hprocessed
      obtain ⟨⟨next, written⟩, hprocess, hrest⟩ := bind_eq_ok.mp hprocessed
      obtain ⟨⟨state', output⟩, hrest, -⟩ := bind_eq_ok.mp hrest
      rw [List.forall_mem_cons]
      split at hstep
      · rename_i hnarrow
        obtain ⟨next', hprocess', -, hnext⟩ := hstep
        rw [hprocess] at hprocess'
        cases hprocess'
        exact ⟨hnarrow, ih hnext (by rw [List.length_append, length_ciphertext]; omega) hrest⟩
      · obtain ⟨e, hthrows⟩ := hstep
        rw [hprocess] at hthrows
        cases hthrows

theorem getCipher_gcm (metadata : EncryptionStateMetadata) (hgcm : metadata.cipher = .gcm)
    (hkeyLen : metadata.keyLen ∈ [16, 24, 32]) :
    ∃ cipher, getCipher metadata = .ok cipher ∧ gcmKeyLen cipher = some metadata.keyLen := by
  obtain ⟨cipher, keyLen⟩ := metadata
  cases hgcm
  simp only [List.mem_cons, List.not_mem_nil, or_false] at hkeyLen
  rcases hkeyLen with rfl | rfl | rfl
  · exact ⟨.aes128gcm, rfl, rfl⟩
  · exact ⟨.aes192gcm, rfl, rfl⟩
  · exact ⟨.aes256gcm, rfl, rfl⟩

def initializeFor (mode : Mode) (state : AESStateSSL evp) (nonce : EncryptionNonce)
    (key aad : Bytes) :
    Except CryptoError (AESStateSSL evp) :=
  match mode with
  | .encrypt => initializeEncryption state nonce key aad
  | .decrypt => initializeDecryption state nonce key aad

theorem ok_bind {α β : Type} (a : α) (f : α → Except CryptoError β) : (.ok a >>= f) = f a :=
  rfl

theorem initializeFor_eq (hevp : Behaves evp gcm) (mode : Mode)
    (hmetadata : state.metadata = { cipher := .gcm, keyLen := key.length })
    (hkeyLen : key.length ∈ [16, 24, 32]) (nonce : EncryptionNonce) (aad : Bytes) :
    ∃ state', initializeFor mode state nonce key aad = setAAD state' aad ∧
      state'.metadata = state.metadata ∧ Running hevp state' mode key nonce.data [] := by
  obtain ⟨cipher, hcipher, hcipherLen⟩ := getCipher_gcm state.metadata
    (by rw [hmetadata]) (by rw [hmetadata]; exact hkeyLen)
  rw [hmetadata] at hcipherLen
  obtain ⟨chosen, ivLen, hinit, hchosen⟩ := hevp.init_cipher mode state.context cipher
    (by rw [hcipherLen]; rfl)
  obtain ⟨sized, hsize, hsized⟩ :=
    hevp.setIvLen chosen mode cipher ivLen nonce.data.length hchosen nonce.nonempty nonce.bounded
  obtain ⟨started, hstart, hstarted⟩ :=
    hevp.init_key mode sized cipher key nonce.data hsized hcipherLen
  have hcast := castInt_of_lt (Nat.lt_of_le_of_lt nonce.bounded (by decide : 16 < 2 ^ 31))
  refine ⟨{ state with mode, context := started }, ?_, rfl, ⟨rfl, hstarted⟩⟩
  cases mode with
  | encrypt =>
      change evp.encryptInit state.context (some cipher) none none = _ at hinit
      change evp.encryptInit sized none (some key) (some nonce.data) = _ at hstart
      unfold initializeFor initializeEncryption initializeIVEncrypt
      rw [hcipher, ok_bind]
      simp only [hinit, hcast, hsize, hstart]
      rfl
  | decrypt =>
      change evp.decryptInit state.context (some cipher) none none = _ at hinit
      change evp.decryptInit sized none (some key) (some nonce.data) = _ at hstart
      unfold initializeFor initializeDecryption initializeIVDecrypt
      rw [hcipher, ok_bind]
      simp only [hinit, hcast, hsize, hstart]
      rfl

theorem setAAD_nil (state : AESStateSSL evp) : setAAD state [] = .ok state :=
  rfl

theorem setAAD_encrypt (hevp : Behaves evp gcm)
    (hrunning : Running hevp state .encrypt key iv text)
    (haad : aad ≠ []) : ∃ e, setAAD state aad = .error e := by
  have hpositive : aad.length > 0 := List.length_pos_of_ne_nil haad
  have hfails := hevp.update_other .encrypt .decrypt state.context key iv [] text .null aad
    (castInt aad.length) hrunning.session (by decide)
  change (evp.decryptUpdate state.context .null aad (castInt aad.length)).ret = 0 at hfails
  refine ⟨.internal (bytes "Setting Additional Authenticated Data  failed"), ?_⟩
  simp only [setAAD, if_pos hpositive, hfails]
  rfl

theorem finalize_encrypt (hevp : Behaves evp gcm)
    (hmetadata : state.metadata.cipher = .gcm)
    (hrunning : Running hevp state .encrypt key iv text) (outLen : Nat) {tagLen : Nat}
    (hpositive : 0 < tagLen) (hbounded : tagLen ≤ 16) :
    ∃ finalized, finalize state outLen (List.replicate tagLen 0) = .ok finalized ∧
      finalized.written = [] ∧ finalized.tag = (gcm.mac key iv [] text).take tagLen := by
  obtain ⟨final, hfinal, hsealed⟩ :=
    hevp.encryptFinal state.context key iv [] text hrunning.session
  obtain ⟨tagged, htag⟩ := hevp.getTag final key iv [] text tagLen hsealed hpositive hbounded
  have hcast := castInt_of_lt (Nat.lt_of_le_of_lt hbounded (by decide : 16 < 2 ^ 31))
  refine ⟨{ state := { state with context := tagged }
            textLen := (outLen + storeInt outLen 0) % 2 ^ 64
            written := [], tag := (gcm.mac key iv [] text).take tagLen }, ?_, rfl, rfl⟩
  simp only [finalize, if_pos hmetadata, finalizeGCM, hrunning.direction, hfinal,
    List.length_replicate, hcast, htag]
  rfl

theorem finalize_decrypt (hevp : Behaves evp gcm) {tag : Bytes}
    (hmetadata : state.metadata.cipher = .gcm)
    (hrunning : Running hevp state .decrypt key iv text) (outLen : Nat)
    (hpositive : 0 < tag.length) (hbounded : tag.length ≤ 16)
    (htag : tag = (gcm.mac key iv [] text).take tag.length) :
    ∃ finalized, finalize state outLen tag = .ok finalized ∧ finalized.written = [] := by
  obtain ⟨expecting, hset, hexpecting⟩ :=
    hevp.setTag state.context key iv [] text tag hrunning.session hpositive hbounded
  obtain ⟨ret, final, hfinal, hret⟩ :=
    hevp.decryptFinal expecting key iv [] text tag hexpecting
  have hcast := castInt_of_lt (Nat.lt_of_le_of_lt hbounded (by decide : 16 < 2 ^ 31))
  have haccepted : ret > 0 := hret.mpr htag
  refine ⟨{ state := { state with context := final }
            textLen := (outLen + storeInt outLen 0) % 2 ^ 64, written := [], tag }, ?_, rfl⟩
  simp only [finalize, if_pos hmetadata, finalizeGCM, hrunning.direction, hcast, hset, hfinal]
  rw [if_pos haccepted]
  rfl

theorem chunks_texts {text : Bytes} {cuts : List (Nat × Nat)}
    (hcuts : (cuts.map Prod.fst).sum = text.length) :
    ((chunks text cuts).map Prod.fst).flatten = text := by
  unfold chunks
  rw [List.map_fst_zip (by simp)]
  exact List.flatten_splitLengths _ _ (Nat.le_of_eq hcuts.symm)

theorem chunks_outLens (text : Bytes) (cuts : List (Nat × Nat)) :
    (∀ piece ∈ chunks text cuts, piece.2 < 2 ^ 32) ↔ ∀ cut ∈ cuts, cut.2 < 2 ^ 32 := by
  have hlens : (chunks text cuts).map Prod.snd = cuts.map Prod.snd := by
    unfold chunks
    rw [List.map_snd_zip (by simp)]
  have hpieces := List.forall_mem_map (f := Prod.snd) (l := chunks text cuts)
    (P := fun outLen => outLen < 2 ^ 32)
  rw [← hpieces, hlens, List.forall_mem_map]

theorem encryptText_ok (hevp : Behaves evp gcm) {tagLen : Nat} {cuts : List (Nat × Nat)}
    (hmetadata : state.metadata = { cipher := .gcm, keyLen := key.length })
    (hkeyLen : key.length ∈ [16, 24, 32]) (nonce : EncryptionNonce)
    (hshort : text.length < 2 ^ 31) (hcuts : (cuts.map Prod.fst).sum = text.length)
    (hpositive : 0 < tagLen) (hbounded : tagLen ≤ 16) (hnarrow : ∀ cut ∈ cuts, cut.2 < 2 ^ 32) :
    encryptText state nonce key [] text cuts outLen tagLen =
      .ok (gcm.crypt key nonce.data 0 text,
        (gcm.mac key nonce.data [] (gcm.crypt key nonce.data 0 text)).take tagLen) := by
  obtain ⟨started, hinitialized, hmetadata', hstarted⟩ :=
    initializeFor_eq hevp .encrypt hmetadata hkeyLen nonce []
  change initializeEncryption state nonce key [] = setAAD started [] at hinitialized
  have htexts := chunks_texts hcuts
  obtain ⟨processed, hprocessed, hmetadata'', hrunning⟩ := processAll_running hevp
    (chunks text cuts) hstarted (by rw [htexts, List.length_nil, Nat.zero_add]; exact hshort)
    ((chunks_outLens text cuts).mpr hnarrow)
  rw [htexts] at hprocessed hrunning
  obtain ⟨finalized, hfinalize, hwritten, htag⟩ := finalize_encrypt hevp
    (by rw [hmetadata'', hmetadata', hmetadata]) hrunning outLen hpositive hbounded
  unfold encryptText
  rw [hinitialized, setAAD_nil, ok_bind, hprocessed, ok_bind]
  simp only
  rw [hfinalize, ok_bind, hwritten, htag, List.append_nil]
  rfl

theorem decryptText_ok (hevp : Behaves evp gcm) {tag : Bytes} {cuts : List (Nat × Nat)}
    (hmetadata : state.metadata = { cipher := .gcm, keyLen := key.length })
    (hkeyLen : key.length ∈ [16, 24, 32]) (nonce : EncryptionNonce)
    (hshort : text.length < 2 ^ 31) (hcuts : (cuts.map Prod.fst).sum = text.length)
    (hpositive : 0 < tag.length) (hbounded : tag.length ≤ 16)
    (htag : tag = (gcm.mac key nonce.data [] text).take tag.length)
    (hnarrow : ∀ cut ∈ cuts, cut.2 < 2 ^ 32) :
    decryptText state nonce key [] text cuts outLen tag =
      .ok (gcm.crypt key nonce.data 0 text) := by
  obtain ⟨started, hinitialized, hmetadata', hstarted⟩ :=
    initializeFor_eq hevp .decrypt hmetadata hkeyLen nonce []
  change initializeDecryption state nonce key [] = setAAD started [] at hinitialized
  have htexts := chunks_texts hcuts
  obtain ⟨processed, hprocessed, hmetadata'', hrunning⟩ := processAll_running hevp
    (chunks text cuts) hstarted (by rw [htexts, List.length_nil, Nat.zero_add]; exact hshort)
    ((chunks_outLens text cuts).mpr hnarrow)
  rw [htexts] at hprocessed hrunning
  obtain ⟨finalized, hfinalize, hwritten⟩ := finalize_decrypt hevp
    (by rw [hmetadata'', hmetadata', hmetadata]) hrunning outLen hpositive hbounded htag
  unfold decryptText
  rw [hinitialized, setAAD_nil, ok_bind, hprocessed, ok_bind]
  simp only
  rw [hfinalize, ok_bind, hwritten, List.append_nil]
  rfl

theorem encryptText_inv (hevp : Behaves evp gcm) {tagLen : Nat} {cuts : List (Nat × Nat)}
    {result : Bytes × Bytes}
    (hmetadata : state.metadata = { cipher := .gcm, keyLen := key.length })
    (hkeyLen : key.length ∈ [16, 24, 32]) (hshort : text.length < 2 ^ 31)
    (hcuts : (cuts.map Prod.fst).sum = text.length)
    (hencrypted : encryptText state nonce key aad text cuts outLen tagLen = .ok result) :
    aad = [] ∧ ∀ cut ∈ cuts, cut.2 < 2 ^ 32 := by
  obtain ⟨started, hinitialized, -, hstarted⟩ :=
    initializeFor_eq hevp .encrypt hmetadata hkeyLen nonce aad
  change initializeEncryption state nonce key aad = setAAD started aad at hinitialized
  unfold encryptText at hencrypted
  rw [hinitialized] at hencrypted
  obtain ⟨running, hset, hencrypted⟩ := bind_eq_ok.mp hencrypted
  have haad : aad = [] := by
    by_contra hsome
    obtain ⟨e, hthrows⟩ := setAAD_encrypt hevp hstarted hsome
    rw [hthrows] at hset
    cases hset
  subst haad
  cases hset
  obtain ⟨processed, hprocessed, -⟩ := bind_eq_ok.mp hencrypted
  have hnarrow := narrow_of_processAll hevp hstarted
    (by rw [chunks_texts hcuts, List.length_nil, Nat.zero_add]; exact hshort) hprocessed
  exact ⟨rfl, (chunks_outLens text cuts).mp hnarrow⟩

theorem decryptText_inv (hevp : Behaves evp gcm) {tag : Bytes} {cuts : List (Nat × Nat)}
    {result : Bytes} (hmetadata : state.metadata = { cipher := .gcm, keyLen := key.length })
    (hkeyLen : key.length ∈ [16, 24, 32]) (hshort : text.length < 2 ^ 31)
    (hcuts : (cuts.map Prod.fst).sum = text.length)
    (hdecrypted : decryptText state nonce key [] text cuts outLen tag = .ok result) :
    ∀ cut ∈ cuts, cut.2 < 2 ^ 32 := by
  obtain ⟨started, hinitialized, -, hstarted⟩ :=
    initializeFor_eq hevp .decrypt hmetadata hkeyLen nonce []
  change initializeDecryption state nonce key [] = setAAD started [] at hinitialized
  unfold decryptText at hdecrypted
  rw [hinitialized, setAAD_nil, ok_bind] at hdecrypted
  obtain ⟨processed, hprocessed, -⟩ := bind_eq_ok.mp hdecrypted
  exact (chunks_outLens text cuts).mp (narrow_of_processAll hevp hstarted
    (by rw [chunks_texts hcuts, List.length_nil, Nat.zero_add]; exact hshort) hprocessed)

/-- Decryption undoes encryption in any chunks, but only without additional data: those go
through the update of decryption, which a context for encryption refuses. -/
theorem roundTrips_iff (hevp : Behaves evp gcm) (transfer : Transfer evp)
    (hlegal : transfer.Legal) :
    RoundTrips transfer ↔
      transfer.aad = [] ∧ ∀ cut ∈ transfer.cuts ++ transfer.cuts', cut.2 < 2 ^ 32 := by
  obtain ⟨encryptor, decryptor, nonce, key, aad, text, cuts, cuts', outLen, outLen', tagLen⟩ :=
    transfer
  obtain ⟨hencryptor, hdecryptor, hkeyLen, hshort, hcuts, hcuts', hpositive, hbounded⟩ := hlegal
  simp only at hencryptor hdecryptor hkeyLen hshort hcuts hcuts' hpositive hbounded
  have hcipherLen := length_crypt gcm key nonce.data 0 text
  rw [List.forall_mem_append]
  unfold RoundTrips
  simp only
  constructor
  · rintro ⟨ciphertext, tag, hencrypted, hdecrypted⟩
    obtain ⟨rfl, hnarrow⟩ := encryptText_inv hevp hencryptor hkeyLen hshort hcuts hencrypted
    rw [encryptText_ok hevp hencryptor hkeyLen nonce hshort hcuts hpositive hbounded hnarrow]
      at hencrypted
    cases hencrypted
    exact ⟨rfl, hnarrow, decryptText_inv hevp hdecryptor hkeyLen (hcipherLen ▸ hshort)
      (hcuts'.trans hcipherLen.symm) hdecrypted⟩
  · rintro ⟨rfl, hnarrow, hnarrow'⟩
    refine ⟨_, _, encryptText_ok hevp hencryptor hkeyLen nonce hshort hcuts hpositive hbounded
      hnarrow, ?_⟩
    have htagLen : ((gcm.mac key nonce.data [] (gcm.crypt key nonce.data 0 text)).take
        tagLen).length = tagLen := by
      rw [List.length_take, gcm.length_mac]
      exact Nat.min_eq_left hbounded
    rw [decryptText_ok hevp hdecryptor hkeyLen nonce (hcipherLen ▸ hshort)
      (hcuts'.trans hcipherLen.symm) (by rw [htagLen]; exact hpositive)
      (by rw [htagLen]; exact hbounded) (by rw [htagLen]) hnarrow', crypt_crypt]

def referenceInit (mode : Mode) (context : Option Session) (cipher : Option EvpCipher)
    (key iv : Option Bytes) : Int × Option Session :=
  match cipher, key, iv with
  | some cipher, none, none => (1, some (.chosen mode cipher 12))
  | none, some key, some iv =>
      match context with
      | some (.chosen mode' cipher ivLen) =>
          if mode' = mode ∧ gcmKeyLen cipher = some key.length ∧ iv.length = ivLen then
            (1, some (.running mode key iv [] []))
          else (0, context)
      | _ => (0, context)
  | _, _, _ => (0, context)

def referenceUpdate (gcm : Gcm) (mode : Mode) (context : Option Session) (target : Target)
    (input : Bytes) (inl : Int) : UpdateResult (Option Session) :=
  match context with
  | some (.running mode' key iv aad text) =>
      if mode = mode' ∧ inl = input.length then
        match target with
        | .null =>
            { ret := 1, context := some (.running mode key iv (aad ++ input) text), written := []
              outl := input.length }
        | .buffer =>
            { ret := 1
              context := some (.running mode key iv aad
                (text ++ gcm.ciphertext key iv text.length input mode))
              written := gcm.crypt key iv text.length input
              outl := input.length }
      else { ret := 0, context, written := [], outl := 0 }
  | _ => { ret := 0, context, written := [], outl := 0 }

def referenceEvp (gcm : Gcm) : Evp where
  Context := Option Session
  encryptInit := referenceInit .encrypt
  decryptInit := referenceInit .decrypt
  setIvLen context len :=
    match context with
    | some (.chosen mode cipher _) => (1, some (.chosen mode cipher len.toNat))
    | _ => (0, context)
  encryptUpdate := referenceUpdate gcm .encrypt
  decryptUpdate := referenceUpdate gcm .decrypt
  encryptFinal context :=
    match context with
    | some (.running .encrypt key iv aad text) =>
        { ret := 1, context := some (.sealed key iv aad text), written := [], outl := 0 }
    | _ => { ret := 0, context, written := [], outl := 0 }
  decryptFinal context :=
    match context with
    | some (.expecting key iv aad text tag) =>
        { ret := if tag = (gcm.mac key iv aad text).take tag.length then 1 else 0
          context, written := [], outl := 0 }
    | _ => { ret := 0, context, written := [], outl := 0 }
  getTag context len :=
    match context with
    | some (.sealed key iv aad text) => (1, context, (gcm.mac key iv aad text).take len.toNat)
    | _ => (0, context, [])
  setTag context _ tag :=
    match context with
    | some (.running .decrypt key iv aad text) => (1, some (.expecting key iv aad text tag))
    | _ => (0, context)

def referenceBehaves (gcm : Gcm) : Behaves (referenceEvp gcm) gcm where
  session := id
  init_cipher := by
    intro mode context cipher _
    cases mode with
    | _ => exact ⟨_, 12, rfl, rfl⟩
  setIvLen := by
    rintro context mode cipher ivLen len hsession - -
    cases hsession
    exact ⟨_, rfl, rfl⟩
  init_key := by
    intro mode context cipher key iv hsession hkeyLen
    cases hsession
    refine ⟨_, ?_, rfl⟩
    cases mode with
    | _ => exact if_pos ⟨rfl, hkeyLen, rfl⟩
  update_aad := by
    intro mode context key iv aad input hsession _
    cases hsession
    refine ⟨_, input.length, ?_, rfl⟩
    cases mode with
    | _ => exact if_pos ⟨rfl, rfl⟩
  update_text := by
    intro mode context key iv aad text input hsession _
    cases hsession
    refine ⟨_, ?_, rfl⟩
    cases mode with
    | _ => exact if_pos ⟨rfl, rfl⟩
  update_other := by
    intro mode mode' context key iv aad text target input inl hsession hother
    cases hsession
    cases mode' with
    | _ => exact congrArg UpdateResult.ret (if_neg fun hsame => hother hsame.1)
  encryptFinal := by
    intro context key iv aad text hsession
    cases hsession
    exact ⟨_, rfl, rfl⟩
  getTag := by
    rintro context key iv aad text len hsession - -
    cases hsession
    exact ⟨_, rfl⟩
  setTag := by
    rintro context key iv aad text tag hsession - -
    cases hsession
    exact ⟨_, rfl, rfl⟩
  decryptFinal := by
    intro context key iv aad text tag hsession
    cases hsession
    refine ⟨_, _, rfl, ?_⟩
    split
    · rename_i hsame
      exact iff_of_true (by decide) hsame
    · rename_i hdiffers
      exact iff_of_false (by decide) hdiffers

/-- The stream and the code of a block of zeros under the key and the nonce of zeros. -/
def zeroGcm : Gcm where
  keystream _ _ i :=
    [0x03, 0x88, 0xda, 0xce, 0x60, 0xb6, 0xa3, 0x92, 0xf3, 0x28, 0xc2, 0xb9, 0x71, 0xb2, 0xfe,
      0x78].getD i 0
  mac _ _ _ _ :=
    [0xab, 0x6e, 0x47, 0xd4, 0x2c, 0xec, 0x13, 0xbd, 0xf5, 0x3a, 0x67, 0xb2, 0x12,
      0x57, 0xbd, 0xdf]
  length_mac _ _ _ _ := rfl

def zeroState : AESStateSSL (referenceEvp zeroGcm) where
  metadata := { cipher := .gcm, keyLen := 16 }
  context := none
  mode := .encrypt

def zeroTransfer : Transfer (referenceEvp zeroGcm) where
  encryptor := zeroState
  decryptor := zeroState
  nonce := { data := List.replicate 12 0, nonempty := by decide, bounded := by decide }
  key := List.replicate 16 0
  aad := []
  text := List.replicate 16 0
  cuts := [(5, 5), (11, 11)]
  cuts' := [(16, 16)]
  outLen := 16
  outLen' := 16
  tagLen := 16

theorem roundTrips_iff_zero : RoundTrips zeroTransfer ↔
    zeroTransfer.aad = [] ∧ ∀ cut ∈ zeroTransfer.cuts ++ zeroTransfer.cuts', cut.2 < 2 ^ 32 :=
  roundTrips_iff (referenceBehaves zeroGcm) zeroTransfer
    ⟨rfl, rfl, by decide, by decide, by decide, by decide, by decide⟩

/-- One byte of additional data stops the encryption before the text. -/
theorem aad_refused :
    initializeEncryption zeroTransfer.encryptor zeroTransfer.nonce zeroTransfer.key [1] =
        .error (.internal (bytes "Setting Additional Authenticated Data  failed")) ∧
      ¬ RoundTrips { zeroTransfer with aad := [1] } := by
  have hrefused : initializeEncryption zeroTransfer.encryptor zeroTransfer.nonce zeroTransfer.key
      [1] = .error (.internal (bytes "Setting Additional Authenticated Data  failed")) := rfl
  refine ⟨hrefused, ?_⟩
  rintro ⟨ciphertext, tag, hencrypted, -⟩
  unfold encryptText at hencrypted
  simp only [hrefused] at hencrypted
  cases hencrypted

end HaybarnHttpfs.Crypto
