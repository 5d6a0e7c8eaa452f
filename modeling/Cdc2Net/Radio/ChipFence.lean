import Cdc2Net.Radio.Stage

/-!
# The chip id fence

The fence compares the chip id of a new image with that of the image the partition
holds when the request arrives. A request that fails after its erase leaves no header
behind, and the next one meets no fence; a commit that is cut between the marker and
the chip id leaves a wrong one. `chip_fence_holds` says that the fence holds over every
history without these, and that each of them can be followed by the commit of an image
for another chip.
-/

set_option autoImplicit false

namespace Cdc2Net.Radio

open Cdc2Net.Lib.NorFlash
open Cdc2Net.Lib.Transition

/-- The body passes every check of the handler but the fence. -/
def Body.Stageable (sectors : Nat) (b : Body) : Prop :=
  b.Fits sectors ∧ b.byte 0 = imageMagic ∧ DescValid b.byte

/-- What is written to sector 0 is the header of an image for chip `X`. -/
def CommitsOnly (X : Nat) (s : Stage) : Prop :=
  ∀ q next, s.pc = .commit q next → chipId s.sec0 = X

/-- A commit that has its marker has the chip id as well. -/
def ChipWritten (X : Nat) (s : Stage) : Prop :=
  ∀ q next, s.pc = .commit q next → 0 < next → chipId s.part = X

/-- A request that only the fence can stop finds the header of an image, and a commit is
not cut between its marker and the chip id. -/
def FenceKept (sectors X : Nat) (s : Stage) : StageLabel → Prop
  | .start body hdrRead => body.Stageable sectors → chipId body.byte ≠ X →
      hdrRead = true ∧ s.part 0 = imageMagic
  | .fail => ChipWritten X s
  | .restart => ChipWritten X s
  | _ => True

/-- The header in the partition, if there is one, is that of an image for chip `X`. -/
def HeaderOf (X : Nat) (part : Flash) : Prop := part 0 = imageMagic → chipId part = X

/-- The fence of the request lets only images for chip `X` pass. -/
def Request.Fenced (sectors X : Nat) (q : Request) : Prop := q.body.Stageable sectors →
  (∀ c ∈ q.oldChip, chipId q.body.byte = c) → chipId q.body.byte = X

/-- The request in progress. -/
def StagePc.request? : StagePc → Option Request
  | .idle => none
  | .erase q _ => some q
  | .recv q => some q
  | .write q _ _ => some q
  | .verify q => some q
  | .commit q _ => some q

/-- The request in progress is fenced, and so is the next one. -/
def FenceInv (sectors X : Nat) (s : Stage) : Prop := StageInv sectors s ∧
  (s.pc.Untouched → HeaderOf X s.part) ∧ ∀ q ∈ s.pc.request?, q.Fenced sectors X

variable {sectors X : Nat} {s t : Stage} {q : Request} {next : Nat}

theorem headerOf_of_erased {part : Flash} (h : part 0 = erased) : HeaderOf X part :=
  fun hmagic => absurd (h.symm.trans hmagic) (by decide)

/-- The request after a step is the one before it, as far as the fence goes, or a new one. -/
theorem request_step {l : StageLabel} (hs : (stageSystem sectors).step s l = some t)
    (hq : q ∈ t.pc.request?) :
    (∃ q' ∈ s.pc.request?, q.body = q'.body ∧ q.oldChip = q'.oldChip) ∨
      ∃ body hdrRead, l = .start body hdrRead ∧ s.pc = .idle ∧
        q = ⟨body, oldChipOf s.part hdrRead, false, 0⟩ := by
  have hkept (q' : Request) (hpc : q' ∈ s.pc.request?) (hbody : q.body = q'.body)
      (hold : q.oldChip = q'.oldChip) : (∃ q' ∈ s.pc.request?, q.body = q'.body ∧
        q.oldChip = q'.oldChip) ∨ ∃ body hdrRead, l = .start body hdrRead ∧ s.pc = .idle ∧
        q = ⟨body, oldChipOf s.part hdrRead, false, 0⟩ := Or.inl ⟨q', hpc, hbody, hold⟩
  cases stage_cases hs with
  | refused body hdrRead hpc => exact hkept q hq rfl rfl
  | started body hdrRead hpc hfits =>
      cases hq
      exact Or.inr ⟨body, hdrRead, rfl, hpc, rfl⟩
  | chunk q' r checked hpc hr hcheck =>
      cases hq
      exact hkept q' (by rw [hpc]; rfl) rfl rfl
  | rejected q' r hpc => cases hq
  | sectorErased q' k hpc hk =>
      cases hq
      exact hkept q (by rw [hpc]; rfl) rfl rfl
  | allErased q' k hpc hk =>
      cases hq
      exact hkept q (by rw [hpc]; rfl) rfl rfl
  | byteWritten q' next stop hpc hlt =>
      cases hq
      exact hkept q (by rw [hpc]; rfl) rfl rfl
  | chunkWritten q' next stop hpc hge hmore =>
      cases hq
      exact hkept q' (by rw [hpc]; rfl) rfl rfl
  | allWritten q' next stop hpc hge hdone =>
      cases hq
      exact hkept q' (by rw [hpc]; rfl) rfl rfl
  | verified q' hpc hdesc =>
      cases hq
      exact hkept q (by rw [hpc]; rfl) rfl rfl
  | invalid q' hpc => cases hq
  | byteCommitted q' next hpc hlt =>
      cases hq
      exact hkept q (by rw [hpc]; rfl) rfl rfl
  | done q' next hpc hge => cases hq
  | failed => cases hq
  | restarted => cases hq

/-- At the commit, all other checks have passed. -/
theorem commit_stageable (h : StageInv sectors s) (hpc : s.pc = .commit q next) :
    q.body.Stageable sectors ∧ (∀ c ∈ q.oldChip, chipId q.body.byte = c) ∧
      chipId s.sec0 = chipId q.body.byte := by
  rcases s with ⟨part, sec0, pc, staged, before⟩
  cases hpc
  rcases h with ⟨hfits, hchecked, hflag, hdesc, -, -, -, hheld⟩
  obtain ⟨hmagic, hchip⟩ := hchecked hflag
  refine ⟨⟨hfits, hmagic, hdesc⟩, hchip, chipId_held hheld ?_⟩
  exact Nat.le_of_lt (Nat.lt_of_le_of_lt (by decide) hfits.sectorSize_lt)

theorem commitsOnly (h : FenceInv sectors X s) : CommitsOnly X s := by
  intro q next hpc
  rcases h with ⟨hinv, -, hfenced⟩
  obtain ⟨hstageable, hchip, hsec0⟩ := commit_stageable hinv hpc
  exact hsec0.trans (hfenced q (by rw [hpc]; rfl) hstageable hchip)

/-- A commit that has programmed the header has the chip id of what it programs. -/
theorem chipId_commit (h : StageInv sectors s) (hpc : s.pc = .commit q next) (hnext : 14 ≤ next) :
    chipId s.part = chipId q.body.byte := by
  rcases s with ⟨part, sec0, pc, staged, before⟩
  cases hpc
  rcases h with ⟨hfits, -, -, -, -, -, hcommitted, -⟩
  have hlong := hfits.sectorSize_lt
  have hsize := hfits.2
  have hsec : 14 ≤ sectorSize := by decide
  have hbyte (a : Nat) (ha : a < 14) : part a = q.body.byte a :=
    (hcommitted a (by omega)).trans (if_pos ⟨by omega, Or.inl (by omega)⟩)
  exact chipId_congr (hbyte 12 (by decide)) (hbyte 13 (by decide))

theorem fenceInv_step {l : StageLabel} (h : FenceInv sectors X s) (hok : FenceKept sectors X s l)
    (hs : (stageSystem sectors).step s l = some t) : FenceInv sectors X t := by
  have hcommits := commitsOnly h
  rcases h with ⟨hinv, hheader, hfenced⟩
  refine ⟨stageInv_step hinv hs, fun ht => ?_, fun q hq => ?_⟩
  · obtain ⟨hpart, -, hcut⟩ := untouched_step hs ht
    rw [hpart]
    rcases s.pc.phases with huntouched | hunmarked | ⟨q, next, hpc, hpos⟩
    · exact hheader huntouched
    · exact headerOf_of_erased (part_zero_erased hinv hunmarked)
    · -- the header is in place: by the condition if the commit was cut, else by its end
      intro _
      rcases hcut q next hpc with (rfl | rfl) | hdone
      · exact hok q next hpc hpos
      · exact hok q next hpc hpos
      · have hnext : 14 ≤ next := Nat.le_trans (by decide) hdone
        rw [chipId_commit hinv hpc hnext, ← (commit_stageable hinv hpc).2.2]
        exact hcommits q next hpc
  · rcases request_step hs hq with ⟨q', hq', hbody, hold⟩ | ⟨body, hdrRead, rfl, hidle, rfl⟩
    · rw [Request.Fenced, hbody, hold]
      exact hfenced q' hq'
    · intro hstageable hchip
      by_contra hne
      obtain ⟨hread, hmagic⟩ := hok hstageable hne
      -- the header that was read is that of an image for chip `X`
      have hX : chipId s.part = X := hheader (by rw [hidle]; trivial) hmagic
      have hc : chipId body.byte = chipId s.part :=
        hchip _ (by rw [oldChipOf, if_pos ⟨hread, hmagic⟩]; rfl)
      exact hne (hc.trans hX)

/-- A request that passes all checks and is for another chip comes to its commit. -/
theorem breach_of_erase {k : Nat} (hinv : StageInv sectors s) (hpc : s.pc = .erase q k)
    (hbody : q.body.Stageable sectors) (hchip : ∀ c ∈ q.oldChip, chipId q.body.byte = c)
    (hne : chipId q.body.byte ≠ X) :
    ∃ u, (stageSystem sectors).Reaches (fun _ _ => True) s u ∧ ¬ CommitsOnly X u := by
  obtain ⟨-, hmagic, hdesc⟩ := hbody
  obtain ⟨part, sec0, q', hreach, hbody'⟩ : ∃ part sec0 q',
      (stageSystem sectors).Reaches (fun _ _ => True) s
        ⟨part, sec0, .commit q' 0, q.body, s.staged⟩ ∧ q'.body = q.body :=
    reaches_commit (fun _ => trivial) (fun _ _ => trivial) hpc hinv hmagic hchip hdesc
  refine ⟨_, hreach, fun honly => hne ?_⟩
  obtain ⟨-, -, hsec0⟩ := commit_stageable (stageInv_reaches hreach hinv) rfl
  rw [← hbody', ← hsec0]
  exact honly q' 0 rfl

/-- A request that passes all checks and is for another chip can be begun. -/
theorem breach_of_idle {body : Body} (hpc : s.pc = .idle) (hbody : body.Stageable sectors)
    (hchip : ∀ c ∈ oldChipOf s.part true, chipId body.byte = c) (hne : chipId body.byte ≠ X) :
    ∃ u, (stageSystem sectors).Reaches (fun _ _ => True) s u ∧ ¬ CommitsOnly X u := by
  have hinv : StageInv sectors s := by
    rw [StageInv, hpc]
    trivial
  have hstep := start_fits true hpc hbody.1
  obtain ⟨u, hreach, hbreach⟩ := breach_of_erase (stageInv_step hinv hstep) rfl hbody hchip hne
  exact ⟨u, hreach.head ⟨_, trivial, hstep⟩, hbreach⟩

/-- A partition with the marker and a wrong chip id lets images with that chip id pass. -/
theorem breach_of_cut (hinv : StageInv sectors s) (hpc : s.pc = .commit q next) (hpos : 0 < next)
    (hne : chipId s.part ≠ X) (hidle : t.pc = .idle) (hpart : t.part = s.part) :
    ∃ u, (stageSystem sectors).Reaches (fun _ _ => True) t u ∧ ¬ CommitsOnly X u := by
  rcases s with ⟨part, sec0, pc, staged, before⟩
  cases hpc
  rcases hinv with ⟨hfits, hchecked, hflag, hdesc, -, -, hcommitted, -⟩
  -- the torn image itself, as a body
  let body : Body := ⟨q.body.len, part⟩
  have hmagic : part 0 = imageMagic :=
    (hcommitted 0 hfits.size_pos).trans
      ((if_pos ⟨Nat.lt_of_le_of_lt (Nat.zero_le _) hfits.sectorSize_lt, Or.inl hpos⟩).trans
        (hchecked hflag).1)
  have hbody : body.Stageable sectors := ⟨hfits, hmagic, (committed_desc hfits hcommitted).2 hdesc⟩
  refine breach_of_idle hidle hbody (fun c hc => ?_) hne
  rw [hpart, oldChipOf, if_pos ⟨rfl, hmagic⟩] at hc
  exact Option.some.inj hc

/-- **The chip id fence.** Over every history in which a request that only the fence can
stop finds the header of an image, and no commit is cut between the marker and the
chip id, only images for the chip of the first image are committed; and a step that
breaks this condition can be followed by the commit of an image for another chip. -/
theorem chip_fence_holds {part sec0 : Flash} {staged before : Body} (hpart : chipId part = X)
    (h : (stageSystem sectors).Reaches (FenceKept sectors X)
      ⟨part, sec0, .idle, staged, before⟩ s) :
    CommitsOnly X s ∧ ∀ l t, (stageSystem sectors).step s l = some t → ¬ FenceKept sectors X s l →
      ∃ u, (stageSystem sectors).Reaches (fun _ _ => True) t u ∧ ¬ CommitsOnly X u := by
  have hinv : FenceInv sectors X s := by
    refine Machine.Reaches.invariant h ⟨trivial, fun _ _ => hpart, nofun⟩ ?_
    intro s l t hs hok ht
    exact fenceInv_step hs hok ht
  refine ⟨commitsOnly hinv, fun l t hs hbroken => ?_⟩
  have hcut (hw : ¬ ChipWritten X s) (hidle : t.pc = .idle) (hsame : t.part = s.part) :
      ∃ u, (stageSystem sectors).Reaches (fun _ _ => True) t u ∧ ¬ CommitsOnly X u := by
    simp only [ChipWritten, not_forall] at hw
    obtain ⟨q, next, hpc, hpos, hne⟩ := hw
    exact breach_of_cut hinv.1 hpc hpos hne hidle hsame
  cases l with
  | start body hdrRead =>
      simp only [FenceKept, Classical.not_imp] at hbroken
      obtain ⟨hbody, hne, hnone⟩ := hbroken
      have hidle : s.pc = .idle := by
        simp only [stageSystem, stepStart] at hs
        split at hs
        · assumption
        · cases hs
      rw [start_fits hdrRead hidle hbody.1] at hs
      cases hs
      -- no header was found, so the fence lets the body pass
      have hstep := start_fits hdrRead hidle hbody.1
      refine breach_of_erase (stageInv_step hinv.1 hstep) rfl hbody ?_ hne
      intro c hc
      rw [oldChipOf, if_neg hnone] at hc
      cases hc
  | recv r => exact absurd trivial hbroken
  | run => exact absurd trivial hbroken
  | fail =>
      cases hs
      exact hcut hbroken rfl rfl
  | restart =>
      cases hs
      exact hcut hbroken rfl rfl

/-- A partition of 33 sectors that holds the sample image for chip 13. -/
def sampleStage : Stage :=
  ⟨sampleImage 13, fun _ => 0, .idle, sampleUpload 13, sampleUpload 13⟩

theorem sampleUpload_stageable (chip : UInt8) : (sampleUpload chip).Stageable 33 :=
  ⟨sampleUpload_fits chip, rfl, sampleImage_desc chip⟩

/-- An update of the sample image for the same chip comes to its commit. -/
theorem chip_fence_holds_update : ∃ s q,
    (stageSystem 33).Reaches (FenceKept 33 13) sampleStage s ∧ s.pc = .commit q 0 ∧
      chipId s.sec0 = 13 := by
  have hchip : chipId (sampleImage 13) = 13 := by decide
  have hkept (s : Stage) (b : Bool) : FenceKept 33 13 s (.start (sampleUpload 13) b) :=
    fun _ hne => absurd hchip hne
  have hstep := start_fits true (rfl : sampleStage.pc = .idle) (sampleUpload_fits 13)
  have hinv : StageInv 33 sampleStage := trivial
  obtain ⟨part, sec0, q, hreach, -⟩ : ∃ part sec0 q,
      (stageSystem 33).Reaches (FenceKept 33 13)
        { sampleStage with pc := .erase ⟨sampleUpload 13, some 13, false, 0⟩ 0 }
        ⟨part, sec0, .commit q 0, sampleUpload 13, sampleStage.staged⟩ ∧ q.body = sampleUpload 13 :=
    reaches_commit (fun _ => trivial) (fun _ _ => trivial) rfl (stageInv_step hinv hstep) rfl
      (fun c hc => hchip.trans (Option.some.inj hc)) (sampleImage_desc 13)
  have hall := hreach.head ⟨_, hkept _ true, hstep⟩
  exact ⟨_, q, hall, rfl, (chip_fence_holds hchip hall).1 q 0 rfl⟩

/-- An upload for another chip whose connection is lost after the erase, and the same
upload again: it meets no fence. -/
theorem chip_fence_holds_fails :
    ¬ ∀ (sectors X : Nat) (part sec0 : Flash) (staged before : Body) (s : Stage),
      Accepts part (sectorSize * sectors) → Holds (sectorSize * sectors) part staged →
      chipId part = X →
      (stageSystem sectors).Reaches (fun _ _ => True) ⟨part, sec0, .idle, staged, before⟩ s →
      CommitsOnly X s := by
  intro hall
  have hstep := start_fits true (rfl : sampleStage.pc = .idle) (sampleUpload_fits 5)
  have hpc : ({ sampleStage with pc := .erase ⟨sampleUpload 5, some 13, false, 0⟩ 0 } : Stage).pc =
      .erase ⟨sampleUpload 5, some 13, false, 0⟩ 0 := rfl
  obtain ⟨part, hrecv⟩ : ∃ part, (stageSystem 33).Reaches (fun _ _ => True)
      { sampleStage with pc := .erase ⟨sampleUpload 5, some 13, false, 0⟩ 0 }
      { sampleStage with part := part, pc := .recv ⟨sampleUpload 5, some 13, false, 0⟩ } :=
    reaches_recv (fun _ => trivial) hpc (Nat.zero_le 33)
  have hreach := hrecv.head ⟨.start (sampleUpload 5) true, trivial, hstep⟩
  have herased : part 0 = erased := part_zero_erased (stageInv_reaches hreach trivial) trivial
  let lost : Stage := { sampleStage with part := part }
  have hlost : (stageSystem 33).Reaches (fun _ _ => True) sampleStage lost :=
    hreach.tail ⟨.fail, trivial, rfl⟩
  have hnone : ∀ c ∈ oldChipOf lost.part true, chipId (sampleImage 5) = c := by
    intro c hc
    rw [oldChipOf, if_neg fun h => absurd (herased.symm.trans h.2) (by decide)] at hc
    cases hc
  obtain ⟨u, hu, hbreach⟩ :=
    breach_of_idle (X := 13) (s := lost) rfl (sampleUpload_stageable 5) hnone (by decide)
  refine hbreach (hall 33 13 _ _ _ _ u ?_ ?_ (by decide) (hlost.trans hu))
  · exact accepts_sample rfl fun _ _ _ => rfl
  · exact ⟨Nat.le_refl _, fun a ha => (if_pos ha).symm⟩

end Cdc2Net.Radio
