import Cdc2Net.Lib.Transition
import Cdc2Net.Radio.Image
import Mathlib.Data.Nat.Basic

/-!
# Syncing the radio with the staged image

`radio_flash_sync` compares the radio's application region with the staged image
and, unless that verification succeeds, rewrites the radio: `flash_start` erases
the sectors of `[0, img_size)` one by one, `flash_write` then programs block after
block. A power loss or a loader error may end it between any two of these steps.

The comparison starts at `APP_IMAGE_ADDR`, the rewrite at 0. When the region is
unchanged and the verification failed all the same, a rewrite that ends before it
has erased the region leaves the bootloader erased and the region intact, and the
next sync finds the radio in sync (`next_sync_rewrites_fails`). This is the only
way (`next_sync_rewrites`).
-/

set_option autoImplicit false

namespace Cdc2Net.Radio

open Cdc2Net.Lib.NorFlash
open Cdc2Net.Lib.Transition

/-- `FLASH_BLOCK_SIZE`. -/
def flashBlockSize : Nat := 1024

/-- Where a sync stands. -/
inductive SyncPc where
  /-- Not running, or over. -/
  | idle
  /-- In `flash_start`, with the next sector to erase. -/
  | erase (k : Nat)
  /-- At the top of the write loop, with `written`. -/
  | write (written : Nat)
  deriving DecidableEq, Repr

/-- The radio's flash and the sync. -/
structure SyncState where
  radio : Flash
  pc : SyncPc

/-- The steps of a sync. -/
inductive SyncLabel where
  /-- The checks and the verification, which succeeds or not. -/
  | sync (verified : Bool)
  /-- One sector of `flash_start`, one block of the write loop, or its end. -/
  | run
  /-- Power loss or a loader error. -/
  | cut
  deriving DecidableEq, Repr

section Machine

variable (part : Flash) (size : Nat)

/-- The region `esp_loader_flash_verify_known_md5` compares. -/
def RegionMatches (radio : Flash) : Prop :=
  ∀ a, a < imgSize part size → appImageAddr ≤ a → radio a = part a

instance (radio : Flash) : Decidable (RegionMatches part size radio) :=
  inferInstanceAs (Decidable (∀ a, a < imgSize part size → appImageAddr ≤ a → radio a = part a))

/-- The number of sectors `flash_start` erases. -/
def eraseSectors : Nat := (imgSize part size + (sectorSize - 1)) / sectorSize

/-- The end of the block that begins at `written`. -/
def blockEnd (written : Nat) : Nat := min (written + flashBlockSize) (imgSize part size)

/-- The part of `radio_flash_sync` up to the decision. An image that is not
accepted leaves the radio untouched, and so does a verification that succeeds; it
succeeds only on a region that matches. -/
def stepSync (s : SyncState) (verified : Bool) : Option SyncState :=
  if s.pc = .idle then
    if Accepts part size then
      if verified then
        if RegionMatches part size s.radio then some s else none
      -- a mismatch, and a verification that could not be carried out
      else some { s with pc := .erase 0 }
    else some s
  else none

/-- The next step of the rewrite. -/
def stepRun (s : SyncState) : Option SyncState :=
  match s.pc with
  | .idle => none
  | .erase k =>
    -- the sectors go from 0 upwards, the region's from `APP_IMAGE_ADDR` on among them
    if k < eraseSectors part size then
      some { radio := eraseSector sectorSize k s.radio, pc := .erase (k + 1) }
    else some { s with pc := .write 0 }
  | .write n =>
    if n < imgSize part size then
      some {
        radio := programRange part n (blockEnd part size n - n) s.radio
        pc := .write (blockEnd part size n) }
    else some { s with pc := .idle }

/-- The syncs of one staged image. -/
def syncSystem : Machine SyncState SyncLabel where
  step s
    | .sync verified => stepSync part size s verified
    | .run => stepRun part size s
    | .cut => if s.pc = .idle then none else some { s with pc := .idle }

/-- The rewrite has begun to erase and has not written its last block. -/
def MidRewrite : SyncPc → Prop
  | .idle => False
  | .erase k => 0 < k
  | .write n => n < imgSize part size

/-- What a rewrite of a radio that held `old` has done so far. -/
def RewriteInv (old : Flash) (s : SyncState) : Prop :=
  match s.pc with
  | .idle => True
  | .erase k => k ≤ eraseSectors part size ∧
      ∀ a, s.radio a = if a < sectorSize * k then erased else old a
  | .write n => (n < imgSize part size → n % flashBlockSize = 0) ∧
      ∀ a, s.radio a = if a < n then part a
        else if a < sectorSize * eraseSectors part size then erased else old a

end Machine

variable {part old : Flash} {size : Nat} {s t : SyncState}

theorem imgSize_le_erased (part : Flash) (size : Nat) :
    imgSize part size ≤ sectorSize * eraseSectors part size := by
  simp only [eraseSectors, sectorSize]
  omega

/-- One sector more of the old content is erased. -/
theorem eraseSector_old {k : Nat} {f : Flash}
    (h : ∀ a, f a = if a < sectorSize * k then erased else old a) (a : Nat) :
    eraseSector sectorSize k f a = if a < sectorSize * (k + 1) then erased else old a := by
  by_cases hend : a < sectorSize * (k + 1)
  · rw [if_pos hend]
    refine eraseSector_prefix (fun b hb => ?_) a hend
    rw [h b, if_pos hb]
  · rw [if_neg hend, eraseSector_of_not_mem (Or.inr (by omega)), h a, if_neg]
    simp only [sectorSize] at hend ⊢
    omega

/-- One block more of the image is written on the erased range. -/
theorem programRange_block {n m top : Nat} {f : Flash} (hm : n + m ≤ top)
    (h : ∀ a, f a = if a < n then part a else if a < top then erased else old a) (a : Nat) :
    programRange part n m f a =
      if a < n + m then part a else if a < top then erased else old a := by
  rw [programRange_erased]
  · by_cases hin : n ≤ a ∧ a < n + m
    · rw [if_pos hin, if_pos hin.2]
    · rw [if_neg hin, h a]
      by_cases hlo : a < n
      · rw [if_pos hlo, if_pos (by omega)]
      · have hend : ¬ a < n + m := fun hhi => hin ⟨by omega, hhi⟩
        rw [if_neg hlo, if_neg hend]
  · intro b hlo hhi
    rw [h b, if_neg (by omega), if_pos (by omega)]

theorem rewriteInv_run (h : RewriteInv part size old s) (hs : stepRun part size s = some t) :
    RewriteInv part size old t := by
  rcases s with ⟨radio, pc⟩
  cases pc with
  | idle => cases hs
  | erase k =>
      rcases h with ⟨hk, hradio⟩
      simp only [stepRun] at hs
      split at hs
      · next hlt =>
        cases hs
        exact ⟨hlt, eraseSector_old hradio⟩
      · next hge =>
        -- all sectors of the image are erased: the write loop starts
        cases hs
        have hall : k = eraseSectors part size := by omega
        subst hall
        exact ⟨fun _ => rfl, fun a => by rw [hradio a, if_neg (Nat.not_lt_zero a)]⟩
  | write n =>
      rcases h with ⟨hblock, hradio⟩
      simp only [stepRun] at hs
      split at hs
      · next hlt =>
        cases hs
        have hle : blockEnd part size n ≤ imgSize part size := Nat.min_le_right _ _
        have hge : n ≤ blockEnd part size n := by
          simp only [blockEnd, flashBlockSize]
          omega
        have htop := imgSize_le_erased part size
        constructor
        · intro hmore
          have hstart := hblock hlt
          simp only [blockEnd, flashBlockSize] at hmore hstart ⊢
          omega
        · intro a
          show programRange part n (blockEnd part size n - n) radio a = _
          rw [programRange_block (by omega) hradio a, Nat.add_sub_cancel' hge]
      · cases hs
        trivial

/-- A radio that is being rewritten shows the staged region only if it showed it
before and the region's first sector is not erased yet. -/
theorem regionMatches_mid (hacc : Accepts part size) (h : RewriteInv part size old s)
    (hmid : MidRewrite part size s.pc) :
    RegionMatches part size s.radio ↔
      RegionMatches part size old ∧ ∃ k, s.pc = .erase k ∧ sectorSize * k ≤ appImageAddr := by
  rcases s with ⟨radio, pc⟩
  have hdesc : part appDescAddr ≠ erased := hacc.2.2.not_erased
  have hlen := appDescAddr_lt_imgSize hacc
  have haddr : appImageAddr ≤ appDescAddr := Nat.le_add_right _ _
  cases pc with
  | idle => exact hmid.elim
  | erase k =>
      rcases h with ⟨-, hradio⟩
      by_cases hk : sectorSize * k ≤ appImageAddr
      · -- the region is untouched
        have hsame : ∀ a, appImageAddr ≤ a → radio a = old a := fun a ha =>
          (hradio a).trans (if_neg (by omega))
        constructor
        · exact fun hm => ⟨fun a hlt ha => (hsame a ha).symm.trans (hm a hlt ha), k, rfl, hk⟩
        · exact fun hm a hlt ha => (hsame a ha).trans (hm.1 a hlt ha)
      · -- the descriptor is erased
        constructor
        · intro hm
          have hin : appDescAddr < sectorSize * k := by
            simp only [sectorSize, appImageAddr, appDescAddr] at hk ⊢
            omega
          have hgone : radio appDescAddr = erased := (hradio appDescAddr).trans (if_pos hin)
          exact absurd ((hm appDescAddr hlen haddr).symm.trans hgone) hdesc
        · rintro ⟨-, k', hpc, hk'⟩
          cases hpc
          exact absurd hk' hk
  | write n =>
      rcases h with ⟨hblock, hradio⟩
      constructor
      · intro hm
        -- the last byte of the image that is not erased is still to be written
        obtain ⟨a, -, hlt, hlast, hbyte⟩ := imgSize_last (Nat.lt_of_le_of_lt (Nat.zero_le _) hlen)
        have htop := imgSize_le_erased part size
        have hna : n ≤ a := by
          have hstart := hblock hmid
          have hmul : imgSize part size % 4 = 0 := Nat.mul_mod_left _ 4
          simp only [MidRewrite, flashBlockSize] at hmid hstart
          omega
        have happ : appImageAddr ≤ a := by
          have hlong := hacc.1
          simp only [appDescAddr, appImageAddr, sizeofAppDesc] at hlong ⊢
          omega
        have hgone : radio a = erased :=
          (hradio a).trans ((if_neg (by omega)).trans (if_pos (by omega)))
        exact absurd ((hm a hlt happ).symm.trans hgone) hbyte
      · rintro ⟨-, k, hpc, -⟩
        cases hpc

/-- **The next sync rewrites.** Let the rewrite of a radio that held `old`, with an
accepted image, be cut after its first erase and before its last block. The next
sync cannot take the branch "already in sync" exactly if `old` did not match in
the application region or the region's first sector had been erased. -/
theorem next_sync_rewrites (hacc : Accepts part size)
    (h : (syncSystem part size).Reaches (fun _ l => l = .run) ⟨old, .erase 0⟩ s)
    (hmid : MidRewrite part size s.pc) (hcut : (syncSystem part size).step s .cut = some t) :
    (syncSystem part size).step t (.sync true) = none ↔
      ¬ RegionMatches part size old ∨ ∀ k, s.pc = .erase k → appImageAddr < sectorSize * k := by
  have hinv : RewriteInv part size old s := by
    refine Machine.Reaches.invariant h ⟨Nat.zero_le _, fun a => rfl⟩ ?_
    rintro s l t hs rfl ht
    exact rewriteInv_run hs ht
  have hmatch := regionMatches_mid hacc hinv hmid
  have hbusy : s.pc ≠ .idle := by
    intro hidle
    rw [hidle] at hmid
    exact hmid
  simp only [syncSystem, if_neg hbusy, Option.some.injEq] at hcut
  subst hcut
  have hstep : (syncSystem part size).step { s with pc := .idle } (.sync true) = none ↔
      ¬ RegionMatches part size s.radio := by
    simp [syncSystem, stepSync, hacc]
  rw [hstep, hmatch, not_and_or, not_exists]
  refine or_congr_right (forall_congr' fun k => ?_)
  rw [not_and, Nat.not_le]

/-- A rewrite that has erased its first sector. -/
theorem reaches_erase_one (hacc : Accepts part size) (old : Flash) :
    (syncSystem part size).Reaches (fun _ l => l = .run) ⟨old, .erase 0⟩
      ⟨eraseSector sectorSize 0 old, .erase 1⟩ := by
  have hlt : 0 < eraseSectors part size := by
    have hlen := appDescAddr_lt_imgSize hacc
    simp only [eraseSectors, sectorSize]
    omega
  exact Relation.ReflTransGen.single ⟨.run, rfl, if_pos hlt⟩

/-- A blank radio, cut after the first erase: the next sync cannot find it in sync. -/
theorem next_sync_rewrites_blank :
    (syncSystem (sampleImage 13) sampleSize).step
      ⟨eraseSector sectorSize 0 fun _ => erased, .idle⟩ (.sync true) = none := by
  have hacc : Accepts (sampleImage 13) sampleSize := accepts_sample rfl fun _ _ _ => rfl
  refine (next_sync_rewrites hacc (reaches_erase_one hacc fun _ => erased) Nat.one_pos rfl).2
    (Or.inl fun hm => ?_)
  exact hacc.2.2.not_erased (hm _ (appDescAddr_lt_imgSize hacc) (Nat.le_add_right _ _)).symm

/-- A radio that holds the staged image, a verification that fails all the same, and
a power loss after the first erase: the bootloader's sector is gone, and the next
sync can find the radio in sync. -/
theorem next_sync_rewrites_fails :
    ¬ ∀ part size old s t, Accepts part size →
      (syncSystem part size).Reaches (fun _ l => l = .run) ⟨old, .erase 0⟩ s →
      MidRewrite part size s.pc → (syncSystem part size).step s .cut = some t →
      (syncSystem part size).step t (.sync true) = none := by
  intro hall
  have hacc : Accepts (sampleImage 13) sampleSize := accepts_sample rfl fun _ _ _ => rfl
  have hnone := hall (sampleImage 13) sampleSize (sampleImage 13) _ _ hacc
    (reaches_erase_one hacc _) Nat.one_pos rfl
  have hmatch : RegionMatches (sampleImage 13) sampleSize
      (eraseSector sectorSize 0 (sampleImage 13)) := by
    intro a _ ha
    refine eraseSector_of_not_mem (Or.inr ?_)
    simp only [sectorSize, appImageAddr] at ha ⊢
    omega
  simp [syncSystem, stepSync, hacc, hmatch] at hnone

end Cdc2Net.Radio
