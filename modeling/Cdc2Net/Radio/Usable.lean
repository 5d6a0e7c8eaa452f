import Cdc2Net.Radio.CrashConsistency
import Cdc2Net.Radio.Sync

/-!
# What the uploader stages and the flasher takes

`h_radio_body` judges a body by `content_len` against `RADIO_MIN_IMAGE`; after the
reboot `radio_flash_sync` judges the partition by what is left of it without its
erased tail, and wants strictly more than the end of the app descriptor. A staged body
is usable exactly if it has a byte other than 0xFF behind the descriptor (`usable_iff`):
one that ends with its descriptor, or is padded from there on, is answered "staged"
and then skipped.
-/

set_option autoImplicit false

namespace Cdc2Net.Radio

open Cdc2Net.Lib.NorFlash
open Cdc2Net.Lib.Transition

/-- The step in which the handler answers "staged" for `b`. -/
def AnswersStaged (sectors : Nat) (s t : Stage) (b : Body) : Prop :=
  ∃ q n, s.pc = .commit q n ∧ q.body = b ∧
    (stageSystem sectors).step s .run = some t ∧ t.pc = .idle

/-- The next `radio_flash_sync` takes the partition for the image `b`. -/
structure Usable (part : Flash) (size : Nat) (b : Body) : Prop where
  /-- A sync whose verification does not succeed goes on to the rewrite. -/
  passes : ∀ radio, (syncSystem part size).step ⟨radio, .idle⟩ (.sync false) =
    some ⟨radio, .erase 0⟩
  /-- The image handed to the flasher is mapped. -/
  mapped : imgSize part size ≤ size
  /-- It is the body, padded to a word with 0xFF. -/
  image : ∀ a, a < imgSize part size → part a = if a < b.len then b.byte a else erased
  /-- What it leaves out of the body is padding. -/
  rest : ∀ a, a < b.len → imgSize part size ≤ a → b.byte a = erased
  /-- The application part is not empty. -/
  app : appImageAddr < imgSize part size

variable {sectors size : Nat} {part : Flash} {s t : Stage} {b : Body}

/-- The acceptance checks decide whether a sync that finds no match goes on to the rewrite. -/
theorem syncSystem_passes_iff (radio : Flash) :
    (syncSystem part size).step ⟨radio, .idle⟩ (.sync false) = some ⟨radio, .erase 0⟩ ↔
      Accepts part size := by
  by_cases hacc : Accepts part size
  · exact iff_of_true (by simp [syncSystem, stepSync, hacc]) hacc
  · exact iff_of_false (by simp [syncSystem, stepSync, hacc]) hacc

/-- What an answered request leaves: the whole body in the partition, and the marker. -/
theorem AnswersStaged.spec (h : AnswersStaged sectors s t b) (hinv : StageInv sectors s) :
    Holds (sectorSize * sectors) t.part b ∧
      (appDescAddr + sizeofAppDesc < imgSize t.part (sectorSize * sectors) →
        Accepts t.part (sectorSize * sectors)) := by
  rcases h with ⟨q, n, hpc, rfl, hstep, hidle⟩
  have hcommit := hinv
  simp only [StageInv, hpc] at hcommit
  obtain ⟨-, -, -, -, hstaged, hn, -⟩ := hcommit
  simp only [stageSystem, stepStage, hpc] at hstep
  split at hstep
  · -- a commit that goes on is not answered
    cases hstep
    cases hidle
  · cases hstep
    have hpos : 0 < n := Nat.lt_of_lt_of_le (by decide : 0 < sectorSize) (by omega)
    have haccepts := accepts_commit hinv hpc hpos
    refine ⟨?_, haccepts⟩
    rw [← hstaged]
    refine (holds_commit_iff hinv hpc).2 ?_
    intro a hlo hsec
    omega

/-- The partition of a whole image and the image itself trim alike. -/
theorem lt_trim_holds_iff {m : Nat} (h : Holds size part b) :
    m < trim part size ↔ ∃ a, m ≤ a ∧ a < b.len ∧ b.byte a ≠ erased := by
  rcases h with ⟨hlen, hholds⟩
  rw [lt_trim_iff]
  constructor
  · rintro ⟨a, hm, ha, hne⟩
    rw [hholds a ha] at hne
    split at hne
    · next hin => exact ⟨a, hm, hin, hne⟩
    · exact absurd rfl hne
  · rintro ⟨a, hm, ha, hne⟩
    have hin : a < size := Nat.lt_of_lt_of_le ha hlen
    exact ⟨a, hm, hin, by rwa [hholds a hin, if_pos ha]⟩

/-- The minimum of the flasher is that of the uploader, but strict, and of the trimmed
image: the descriptor ends at a word. -/
theorem imgSize_min_iff :
    appDescAddr + sizeofAppDesc < imgSize part size ↔ radioMinImage < trim part size := by
  simp only [imgSize, radioMinImage, appDescAddr, appImageAddr, sizeofAppDesc]
  omega

/-- An image the flasher takes goes on behind its descriptor. -/
theorem Usable.goes_on (h : Usable part size b) (hholds : Holds size part b) :
    ∃ a, radioMinImage ≤ a ∧ a < b.len ∧ b.byte a ≠ erased := by
  have hacc : Accepts part size := (syncSystem_passes_iff fun _ => erased).1 (h.passes _)
  exact (lt_trim_holds_iff hholds).1 (imgSize_min_iff.1 hacc.1)

/-- What the flasher makes of a partition of whole sectors that holds an accepted body. -/
theorem usable_of_accepts (hacc : Accepts part (sectorSize * sectors))
    (hholds : Holds (sectorSize * sectors) part b) : Usable part (sectorSize * sectors) b := by
  have htrim := trim_le part (sectorSize * sectors)
  have hmapped : imgSize part (sectorSize * sectors) ≤ sectorSize * sectors := by
    simp only [imgSize, sectorSize] at htrim ⊢
    omega
  have hround : trim part (sectorSize * sectors) ≤ imgSize part (sectorSize * sectors) := by
    rw [imgSize]
    omega
  exact {
    passes := fun radio => (syncSystem_passes_iff radio).2 hacc
    mapped := hmapped
    image := fun a ha => hholds.2 a (Nat.lt_of_lt_of_le ha hmapped)
    rest := by
      intro a ha hle
      have hin : a < sectorSize * sectors := Nat.lt_of_lt_of_le ha hholds.1
      have hgone := erased_of_trim_le hin (Nat.le_trans hround hle)
      rwa [hholds.2 a hin, if_pos ha] at hgone
    app := Nat.lt_of_le_of_lt (Nat.le_add_right _ _) (appDescAddr_lt_imgSize hacc) }

theorem stageInv_reaches_idle {start : Stage} (hidle : start.pc = .idle)
    (h : (stageSystem sectors).Reaches (fun _ _ => True) start s) : StageInv sectors s := by
  refine stageInv_reaches h ?_
  rw [StageInv, hidle]
  trivial

/-- **A staged body is usable exactly if it goes on behind its descriptor.** In every run
of uploads, of whatever bodies and on whatever partition, when the handler answers "staged",
the next sync takes the image, and takes it as the body without trailing padding, if and only if
the body has a byte other than 0xFF from `RADIO_MIN_IMAGE` on. -/
theorem usable_iff {start : Stage} (hidle : start.pc = .idle)
    (h : (stageSystem sectors).Reaches (fun _ _ => True) start s)
    (ha : AnswersStaged sectors s t b) :
    Usable t.part (sectorSize * sectors) b ↔
      ∃ a, radioMinImage ≤ a ∧ a < b.len ∧ b.byte a ≠ erased := by
  obtain ⟨hholds, haccepts⟩ := ha.spec (stageInv_reaches_idle hidle h)
  constructor
  · exact fun husable => husable.goes_on hholds
  · intro hbyte
    have hlen := imgSize_min_iff.2 ((lt_trim_holds_iff hholds).2 hbyte)
    exact usable_of_accepts (haccepts hlen) hholds

/-- A body with image magic and a good descriptor, of a length in range, is answered "staged"
on a blank partition. -/
theorem answersStaged_blank (hfits : b.Fits sectors) (hmagic : b.byte 0 = imageMagic)
    (hdesc : DescValid b.byte) : ∃ s t,
    (stageSystem sectors).Reaches (fun _ _ => True) blankStage s ∧
      AnswersStaged sectors s t b := by
  have herase : (stageSystem sectors).Reaches (fun _ _ => True) blankStage
      { blankStage with pc := .erase ⟨b, none, false, 0⟩ 0 } :=
    Relation.ReflTransGen.single ⟨_, trivial, start_fits true rfl hfits⟩
  let ok : Stage → StageLabel → Prop := fun _ _ => True
  have hrun : ∀ s, ok s .run := fun _ => trivial
  have hrecv : ∀ s r, ok s (.recv r) := fun _ _ => trivial
  obtain ⟨part₁, sec0, q, hcommit, hbody⟩ := reaches_commit hrun hrecv rfl
    (stageInv_reaches herase trivial) hmagic nofun hdesc
  let first : Stage := ⟨part₁, sec0, .commit q 0, b, blankStage.staged⟩
  have hfirst : first.pc = .commit q 0 := rfl
  obtain ⟨part₂, hbyte⟩ := reaches_commit_byte hrun hfirst (Nat.zero_le sectorSize)
    (Nat.le_refl sectorSize)
  refine ⟨_, { first with part := part₂, pc := .idle }, herase.trans (hcommit.trans hbyte),
    q, sectorSize, rfl, hbody, ?_, rfl⟩
  simp only [stageSystem, stepStage]
  rw [if_neg (Nat.lt_irrefl sectorSize)]

/-- The sample image, on the real partition of 192 sectors. -/
theorem usable_sample : ∃ t : Stage, Usable t.part (sectorSize * 192) (sampleUpload 13) := by
  have hfits : (sampleUpload 13).Fits 192 := by
    simp [Body.Fits, sampleUpload, sampleSize, radioMinImage, appImageAddr, sizeofAppDesc,
      sectorSize]
  obtain ⟨s, t, hreach, ha⟩ := answersStaged_blank hfits rfl (sampleImage_desc 13)
  have hlast : (sampleUpload 13).byte (sampleSize - 1) ≠ erased := by
    change sampleImage 13 (sampleSize - 1) ≠ erased
    rw [sampleImage_last]
    decide
  exact ⟨t, (usable_iff rfl hreach ha).2 ⟨sampleSize - 1, by decide, by decide, hlast⟩⟩

/-- An image that ends with its descriptor is of the smallest length the uploader takes, and is
skipped by the flasher. -/
theorem usable_fails : ¬ ∀ (sectors : Nat) (start s t : Stage) (b : Body), start.pc = .idle →
    (stageSystem sectors).Reaches (fun _ _ => True) start s → AnswersStaged sectors s t b →
    Usable t.part (sectorSize * sectors) b := by
  intro hall
  have hfits : Body.Fits 192 ⟨radioMinImage, sampleImage 13⟩ := by
    simp [Body.Fits, radioMinImage, appImageAddr, sizeofAppDesc, sectorSize]
  obtain ⟨s, t, hreach, ha⟩ := answersStaged_blank hfits rfl (sampleImage_desc 13)
  obtain ⟨hholds, -⟩ := ha.spec (stageInv_reaches_idle rfl hreach)
  obtain ⟨a, hmin, hlen, -⟩ := (hall 192 _ s t _ rfl hreach ha).goes_on hholds
  exact absurd hmin (Nat.not_le.2 hlen)

end Cdc2Net.Radio
