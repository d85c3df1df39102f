import HaybarnHttpfs.S3MultiPartUpload
import Mathlib.Algebra.Order.Floor.Div

/-!
`S3ConfigParams::ReadFrom` and the part size that `S3FileHandle::Initialize` computes
from it, with the 16-bit numbers that a part index and the counter of parts have to
fit into. Memory limits are parsed by the engine, which also fixes the block size.
-/

namespace HaybarnHttpfs.PartSizing

open HaybarnHttpfs.Foundation.ByteStrings
open HaybarnHttpfs.S3MultiPartUpload (uint16Limit)

def uint64Limit : Nat := 2 ^ 64

/-- `uint64_t` values. -/
structure S3ConfigParams where
  maxFileSize : Fin uint64Limit
  maxPartsPerFile : Fin uint64Limit
  maxUploadThreads : Fin uint64Limit
  deriving DecidableEq

structure Settings where
  s3UploaderMaxFilesize : Option Bytes
  s3UploaderMaxPartsPerFile : Option (Fin uint64Limit)
  s3UploaderThreadLimit : Option (Fin uint64Limit)

def defaultMaxFilesize : Fin uint64Limit := ⟨800000000000, by decide⟩

def defaultMaxPartsPerFile : Fin uint64Limit := ⟨10000, by decide⟩

def defaultMaxUploadThreads : Fin uint64Limit := ⟨50, by decide⟩

def readFrom (parseMemoryLimit : Bytes → Fin uint64Limit) (settings : Settings) :
    S3ConfigParams :=
  { maxFileSize := (settings.s3UploaderMaxFilesize.map parseMemoryLimit).getD defaultMaxFilesize
    maxPartsPerFile := settings.s3UploaderMaxPartsPerFile.getD defaultMaxPartsPerFile
    maxUploadThreads := settings.s3UploaderThreadLimit.getD defaultMaxUploadThreads }

/-- `Storage::DEFAULT_BLOCK_SIZE`. -/
structure Storage where
  defaultBlockSize : Nat
  positive : 0 < defaultBlockSize := by decide

def awsMinimumPartSize : Nat := 5242880

/-- `none` if there is nothing to divide by. -/
def minimumPartSize (config : S3ConfigParams) : Option Nat :=
  if config.maxPartsPerFile.val = 0 then none
  else some (max awsMinimumPartSize (config.maxFileSize.val / config.maxPartsPerFile.val))

def partSize (storage : Storage) (config : S3ConfigParams) : Option Nat :=
  (minimumPartSize config).map fun minimumPartSize =>
    (minimumPartSize + storage.defaultBlockSize - 1) % uint64Limit / storage.defaultBlockSize *
      storage.defaultBlockSize % uint64Limit

/-- The size of the parts is right for every file that the settings allow; the last two
fields are about the part indexes and the count of the parts. -/
structure Sound (storage : Storage) (config : S3ConfigParams) (size : Nat) : Prop where
  noOverflow : ∀ minimum ∈ minimumPartSize config,
    minimum + storage.defaultBlockSize - 1 < uint64Limit
  multiple : storage.defaultBlockSize ∣ size
  atLeast : awsMinimumPartSize ≤ size
  covers : config.maxFileSize.val ≤ size * config.maxPartsPerFile.val
  index : ∀ offset < config.maxFileSize.val, offset / size < uint16Limit
  count : ∀ n ≤ config.maxFileSize.val, n ⌈/⌉ size < uint16Limit

def SizingSound (storage : Storage) (config : S3ConfigParams) : Prop :=
  ∃ size, partSize storage config = some size ∧ Sound storage config size

/-- The least multiple of the block size that is not below `n`. -/
def roundedUp (storage : Storage) (n : Nat) : Nat :=
  storage.defaultBlockSize * (n ⌈/⌉ storage.defaultBlockSize)

/-- The settings that give sound sizes. The quotient is rounded down first, so its
remainder is lost unless something is added afterwards. -/
structure SizingHoldsWhen (storage : Storage) (config : S3ConfigParams) : Prop where
  positive : config.maxPartsPerFile.val ≠ 0
  small : max awsMinimumPartSize (config.maxFileSize.val / config.maxPartsPerFile.val) +
    storage.defaultBlockSize ≤ uint64Limit
  remainder : config.maxPartsPerFile.val ∣ config.maxFileSize.val ∨
    config.maxFileSize.val / config.maxPartsPerFile.val < awsMinimumPartSize ∨
      ¬ storage.defaultBlockSize ∣ config.maxFileSize.val / config.maxPartsPerFile.val
  few : config.maxFileSize.val ≤
    roundedUp storage
      (max awsMinimumPartSize (config.maxFileSize.val / config.maxPartsPerFile.val)) *
        (uint16Limit - 1)

instance (storage : Storage) (config : S3ConfigParams) :
    Decidable (SizingHoldsWhen storage config) :=
  decidable_of_iff (_ ∧ _ ∧ _ ∧ _)
    ⟨fun h => ⟨h.1, h.2.1, h.2.2.1, h.2.2.2⟩, fun h => ⟨h.positive, h.small, h.remainder, h.few⟩⟩

variable {storage : Storage} {config : S3ConfigParams} {size n : Nat}

theorem le_roundedUp (storage : Storage) (n : Nat) : n ≤ roundedUp storage n :=
  le_smul_ceilDiv storage.positive

theorem roundedUp_lt (storage : Storage) (n : Nat) :
    roundedUp storage n < n + storage.defaultBlockSize := by
  have hpositive := storage.positive
  have hle : storage.defaultBlockSize * (n ⌈/⌉ storage.defaultBlockSize) ≤
      n + storage.defaultBlockSize - 1 := by
    rw [Nat.ceilDiv_eq_add_pred_div]
    exact Nat.mul_div_le _ _
  unfold roundedUp
  omega

theorem roundedUp_of_dvd (hdvd : storage.defaultBlockSize ∣ n) : roundedUp storage n = n := by
  obtain ⟨k, rfl⟩ := hdvd
  unfold roundedUp
  congr 1
  exact smul_ceilDiv storage.positive k

theorem partSize_eq (hpositive : config.maxPartsPerFile.val ≠ 0)
    (hsmall : max awsMinimumPartSize (config.maxFileSize.val / config.maxPartsPerFile.val) +
      storage.defaultBlockSize ≤ uint64Limit) :
    partSize storage config = some (roundedUp storage
      (max awsMinimumPartSize (config.maxFileSize.val / config.maxPartsPerFile.val))) := by
  have hblock := storage.positive
  have hrounded := roundedUp_lt storage
    (max awsMinimumPartSize (config.maxFileSize.val / config.maxPartsPerFile.val))
  rw [partSize, minimumPartSize, if_neg hpositive, Option.map_some]
  rw [roundedUp, Nat.ceilDiv_eq_add_pred_div] at hrounded ⊢
  rw [Nat.mod_eq_of_lt (a := _ + storage.defaultBlockSize - 1) (by omega), Nat.mul_comm,
    Nat.mod_eq_of_lt (by omega)]

theorem count_iff (hsize : 0 < size) (limit : Nat) :
    (∀ n ≤ config.maxFileSize.val, n ⌈/⌉ size < limit + 1) ↔
      config.maxFileSize.val ≤ size * limit := by
  constructor
  · intro hcount
    exact (ceilDiv_le_iff_le_mul hsize).mp (Nat.le_of_lt_succ (hcount _ (Nat.le_refl _)))
  · intro hle n hn
    exact Nat.lt_succ_of_le ((ceilDiv_le_iff_le_mul hsize).mpr (hn.trans hle))

theorem covers_of_remainder (hpositive : config.maxPartsPerFile.val ≠ 0)
    (hremainder : config.maxPartsPerFile.val ∣ config.maxFileSize.val ∨
      config.maxFileSize.val / config.maxPartsPerFile.val < size)
    (hsize : config.maxFileSize.val / config.maxPartsPerFile.val ≤ size) :
    config.maxFileSize.val ≤ size * config.maxPartsPerFile.val := by
  rcases hremainder with hdvd | hlt
  · calc config.maxFileSize.val
        = config.maxFileSize.val / config.maxPartsPerFile.val * config.maxPartsPerFile.val :=
          (Nat.div_mul_cancel hdvd).symm
      _ ≤ size * config.maxPartsPerFile.val := Nat.mul_le_mul_right _ hsize
  · exact Nat.le_of_lt (Nat.lt_mul_of_div_lt hlt (Nat.pos_of_ne_zero hpositive))

theorem sound_of_holdsWhen (hwhen : SizingHoldsWhen storage config) :
    SizingSound storage config := by
  refine ⟨_, partSize_eq hwhen.positive hwhen.small, ?_⟩
  have hminimum := le_roundedUp storage
    (max awsMinimumPartSize (config.maxFileSize.val / config.maxPartsPerFile.val))
  have haws : awsMinimumPartSize ≤ roundedUp storage
      (max awsMinimumPartSize (config.maxFileSize.val / config.maxPartsPerFile.val)) :=
    (Nat.le_max_left _ _).trans hminimum
  have hquotient : config.maxFileSize.val / config.maxPartsPerFile.val ≤ roundedUp storage
      (max awsMinimumPartSize (config.maxFileSize.val / config.maxPartsPerFile.val)) :=
    (Nat.le_max_right _ _).trans hminimum
  have hsize : 0 < roundedUp storage
      (max awsMinimumPartSize (config.maxFileSize.val / config.maxPartsPerFile.val)) :=
    Nat.lt_of_lt_of_le (by decide) haws
  constructor
  case noOverflow =>
    intro minimum hmem
    rw [minimumPartSize, if_neg hwhen.positive] at hmem
    cases hmem
    have hsmall := hwhen.small
    have hblock := storage.positive
    omega
  case multiple => exact Nat.dvd_mul_right _ _
  case atLeast => exact haws
  case covers =>
    apply covers_of_remainder hwhen.positive _ hquotient
    rcases hwhen.remainder with hdvd | hlt | hblock
    · exact .inl hdvd
    · exact .inr (Nat.lt_of_lt_of_le hlt haws)
    · -- a rounded size is a multiple of the block size, which the quotient is not
      refine .inr (Nat.lt_of_le_of_ne hquotient fun heq => hblock ?_)
      rw [heq]
      exact Nat.dvd_mul_right _ _
  case index =>
    intro offset hoffset
    apply Nat.div_lt_of_lt_mul
    calc offset
        < config.maxFileSize.val := hoffset
      _ ≤ _ := hwhen.few
      _ ≤ _ := Nat.mul_le_mul_left _ (by decide)
  case count => exact (count_iff hsize (uint16Limit - 1)).mpr hwhen.few

theorem holdsWhen_of_sound (hsound : SizingSound storage config) :
    SizingHoldsWhen storage config := by
  obtain ⟨size, hsize, hsound⟩ := hsound
  have hblock := storage.positive
  have hpositive : config.maxPartsPerFile.val ≠ 0 := by
    intro hzero
    simp [partSize, minimumPartSize, hzero] at hsize
  have hsmall : max awsMinimumPartSize (config.maxFileSize.val / config.maxPartsPerFile.val) +
      storage.defaultBlockSize ≤ uint64Limit := by
    have hexact := hsound.noOverflow _ (by rw [minimumPartSize, if_neg hpositive]; rfl)
    omega
  rw [partSize_eq hpositive hsmall, Option.some.injEq] at hsize
  subst hsize
  refine ⟨hpositive, hsmall, ?_, ?_⟩
  · by_contra hlost
    rw [not_or, not_or, not_lt, not_not] at hlost
    obtain ⟨hdvd, haws, hmultiple⟩ := hlost
    have hcovers := hsound.covers
    rw [max_eq_right haws, roundedUp_of_dvd hmultiple] at hcovers
    exact hdvd ((Nat.dvd_iff_div_mul_eq _ _).mpr
      (Nat.le_antisymm (Nat.div_mul_le_self _ _) hcovers))
  · have haws : 0 < awsMinimumPartSize := by decide
    have hpos := Nat.lt_of_lt_of_le haws hsound.atLeast
    exact (count_iff hpos (uint16Limit - 1)).mp hsound.count

/-- The sizes are sound for exactly these settings. -/
theorem sizingSound_iff (storage : Storage) (config : S3ConfigParams) :
    SizingSound storage config ↔ SizingHoldsWhen storage config :=
  ⟨holdsWhen_of_sound, sound_of_holdsWhen⟩

def engineStorage : Storage := { defaultBlockSize := 262136 }

/-- Settings within their documented bounds: ten thousand parts of one part size less
one byte. -/
def oneByteMore : S3ConfigParams where
  maxFileSize := ⟨55048560001, by decide⟩
  maxPartsPerFile := ⟨10000, by decide⟩
  maxUploadThreads := defaultMaxUploadThreads

theorem oneByteMore_not_covered : partSize engineStorage oneByteMore = some 5504856 ∧
    ¬ SizingSound engineStorage oneByteMore := by
  refine ⟨by decide +kernel, ?_⟩
  rintro ⟨size, hsize, hsound⟩
  have hpart : partSize engineStorage oneByteMore = some 5504856 := by decide +kernel
  rw [hpart, Option.some.injEq] at hsize
  subst hsize
  exact absurd hsound.covers (by decide +kernel)

example : SizingHoldsWhen engineStorage (readFrom (fun _ => defaultMaxFilesize)
    ⟨none, none, none⟩) := by
  decide +kernel

end HaybarnHttpfs.PartSizing
