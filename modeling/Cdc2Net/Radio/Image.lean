import Cdc2Net.Lib.NorFlash

/-!
# Staged radio images

The `radio_fw` partition holds the merged factory image of the companion radio.
`imgSize` and `Accepts` are the acceptance checks of `radio_flash_sync`;
`chipId` is the header field the upload fence compares.
-/

set_option autoImplicit false

namespace Cdc2Net.Radio

open Cdc2Net.Lib.NorFlash

/-- `APP_IMAGE_ADDR` and `RADIO_APP_IMAGE_ADDR`. -/
def appImageAddr : Nat := 0x20000
/-- `APP_DESC_ADDR`. -/
def appDescAddr : Nat := appImageAddr + 0x20
/-- `sizeof(esp_app_desc_t)`. -/
def sizeofAppDesc : Nat := 256
/-- `ESP_APP_DESC_MAGIC_WORD`. -/
def appDescMagicWord : Nat := 0xABCD5432
/-- `RADIO_MIN_IMAGE`. -/
def radioMinImage : Nat := appImageAddr + 0x20 + sizeofAppDesc
/-- The first byte of an ESP image. -/
def imageMagic : UInt8 := 0xE9
/-- The flash sector size, which is `sizeof(sec0)` of `h_radio_body`. -/
def sectorSize : Nat := 4096

/-- The little-endian word at `a`. -/
def word (f : Flash) (a : Nat) : Nat :=
  (f a).toNat + 256 * (f (a + 1)).toNat + 65536 * (f (a + 2)).toNat + 16777216 * (f (a + 3)).toNat

/-- `desc_valid` of the descriptor at `APP_DESC_ADDR`. -/
def DescValid (f : Flash) : Prop := word f appDescAddr = appDescMagicWord

instance (f : Flash) : Decidable (DescValid f) := by
  unfold DescValid
  infer_instance

/-- The chip id of an image header, bytes 12 and 13. -/
def chipId (f : Flash) : Nat := (f 12).toNat ||| (f 13).toNat <<< 8

/-- `img_size`: the partition without its erased tail, rounded up to 4. -/
def imgSize (img : Flash) (size : Nat) : Nat := (trim img size + 3) / 4 * 4

/-- The checks `radio_flash_sync` makes before it hands an image to the flasher. -/
def Accepts (img : Flash) (size : Nat) : Prop :=
  appDescAddr + sizeofAppDesc < imgSize img size ∧ img 0 = imageMagic ∧ DescValid img

instance (img : Flash) (size : Nat) : Decidable (Accepts img size) := by
  unfold Accepts
  infer_instance

variable {img img' : Flash} {size a : Nat}

theorem word_congr (h : ∀ k, k < 4 → img (a + k) = img' (a + k)) : word img a = word img' a := by
  have h0 := h 0 (by omega)
  rw [Nat.add_zero] at h0
  rw [word, word, h0, h 1 (by omega), h 2 (by omega), h 3 (by omega)]

/-- The low byte of the magic word is not that of erased flash. -/
theorem DescValid.not_erased (h : DescValid img) : img appDescAddr ≠ erased := by
  intro he
  rw [DescValid, word, he] at h
  simp only [erased, appDescMagicWord, show (0xFF : UInt8).toNat = 255 from rfl] at h
  omega

theorem chipId_congr (h12 : img 12 = img' 12) (h13 : img 13 = img' 13) :
    chipId img = chipId img' := by
  rw [chipId, chipId, h12, h13]

theorem appDescAddr_lt_imgSize (h : Accepts img size) : appDescAddr < imgSize img size :=
  Nat.lt_of_le_of_lt (Nat.le_add_right _ _) h.1

/-- The rounded size ends within four bytes of a byte that is not erased. -/
theorem imgSize_last (h : 0 < imgSize img size) :
    ∃ a, a < size ∧ a < imgSize img size ∧ imgSize img size ≤ a + 4 ∧ img a ≠ erased := by
  have hpos : 0 < trim img size := by
    rcases Nat.eq_zero_or_pos (trim img size) with hz | hpos
    · simp [imgSize, hz] at h
    · exact hpos
  have hle := trim_le img size
  refine ⟨trim img size - 1, by omega, ?_, ?_, trim_last hpos⟩
  · simp only [imgSize]
    omega
  · simp only [imgSize]
    omega

/-- The size of `sampleImage`: the application region is one sector. -/
def sampleSize : Nat := appImageAddr + sectorSize

/-- A small image for chip `chip`: magic, chip id and descriptor magic, else zeros. -/
def sampleImage (chip : UInt8) : Flash := fun a =>
  if a = 0 then imageMagic
  else if a = 12 then chip
  else if a = appDescAddr then 0x32
  else if a = appDescAddr + 1 then 0x54
  else if a = appDescAddr + 2 then 0xCD
  else if a = appDescAddr + 3 then 0xAB
  else 0

theorem imgSize_sample {f : Flash} (h : f (sampleSize - 1) ≠ erased) :
    imgSize f sampleSize = sampleSize := by
  have hlo := lt_trim (n := sampleSize) (Nat.sub_lt (by decide) Nat.one_pos) h
  have hhi := trim_le f sampleSize
  simp only [imgSize, sampleSize, appImageAddr, sectorSize] at hlo hhi ⊢
  omega

theorem sampleImage_desc (chip : UInt8) : DescValid (sampleImage chip) := by
  simp [DescValid, word, sampleImage, appDescAddr, appImageAddr, appDescMagicWord]

theorem sampleImage_last (chip : UInt8) : sampleImage chip (sampleSize - 1) = 0 := by
  simp [sampleImage, sampleSize, appDescAddr, appImageAddr, sectorSize]

/-- An image that has the sample's bytes at 0 and from the descriptor on is accepted. -/
theorem accepts_sample {f : Flash} {chip : UInt8} (h0 : f 0 = imageMagic)
    (h : ∀ a, appDescAddr ≤ a → a < sampleSize → f a = sampleImage chip a) :
    Accepts f sampleSize := by
  simp only [appDescAddr, appImageAddr, sampleSize, sectorSize] at h
  refine ⟨?_, h0, ?_⟩
  · have hlast : f (sampleSize - 1) ≠ erased := by
      rw [h _ (by simp [sampleSize, appImageAddr, sectorSize])
        (by simp [sampleSize, appImageAddr, sectorSize]), sampleImage_last]
      simp [erased]
    rw [imgSize_sample hlast]
    simp [appDescAddr, sizeofAppDesc, sampleSize, sectorSize, appImageAddr]
  · rw [DescValid, ← sampleImage_desc chip]
    refine word_congr fun k hk => h _ ?_ ?_
    · simp only [appDescAddr, appImageAddr]
      omega
    · simp only [appDescAddr, appImageAddr]
      omega

end Cdc2Net.Radio
