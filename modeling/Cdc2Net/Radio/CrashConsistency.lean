import Cdc2Net.Radio.Stage

/-!
# What a crash leaves in the staging partition

Sector 0 carries the commit marker: its first byte is 0xE9 in an image and 0xFF
while a body is still on its way (`part_zero_erased`), so nothing is accepted
before the commit. The marker is the first byte of the commit, though, not its last:
a commit that is cut after it leaves a torn sector 0 behind the marker. An accepted
partition holds one complete body exactly if no commit was torn
(`staging_crash_consistent`).
-/

set_option autoImplicit false

namespace Cdc2Net.Radio

open Cdc2Net.Lib.NorFlash
open Cdc2Net.Lib.Transition

/-- The commit has programmed its first byte and still has a byte to program that is not
0xFF, of an image that is long enough for `radio_flash_sync`. -/
def Torn (size : Nat) (s : Stage) : Prop := ∃ q next, s.pc = .commit q next ∧ 0 < next ∧
  (∃ a, next ≤ a ∧ a < sectorSize ∧ s.sec0 a ≠ erased) ∧
  appDescAddr + sizeofAppDesc < imgSize s.part size

/-- No commit is cut while it is torn. -/
def NotTornCut (size : Nat) (s : Stage) : StageLabel → Prop
  | .fail => ¬ Torn size s
  | .restart => ¬ Torn size s
  | _ => True

variable {sectors : Nat} {s t : Stage} {q : Request} {next : Nat}

theorem not_accepts_of_erased {img : Flash} {size : Nat} (h : img 0 = erased) :
    ¬ Accepts img size := by
  rintro ⟨-, hmagic, -⟩
  exact absurd (h.symm.trans hmagic) (by decide)

/-- A commit that has its marker is accepted if its image is long enough. -/
theorem accepts_commit (h : StageInv sectors s) (hpc : s.pc = .commit q next) (hpos : 0 < next)
    (hlen : appDescAddr + sizeofAppDesc < imgSize s.part (sectorSize * sectors)) :
    Accepts s.part (sectorSize * sectors) := by
  rcases s with ⟨part, sec0, pc, staged, before⟩
  cases hpc
  rcases h with ⟨hfits, hchecked, hflag, hdesc, -, -, hcommitted, -⟩
  refine ⟨hlen, ?_, (committed_desc hfits hcommitted).2 hdesc⟩
  have hbody : 0 < q.body.len := Nat.lt_of_le_of_lt (Nat.zero_le _) hfits.sectorSize_lt
  exact (hcommitted 0 hfits.size_pos).trans ((if_pos ⟨hbody, Or.inl hpos⟩).trans (hchecked hflag).1)

/-- A partition whose commit has come to `next` holds the body exactly if the rest of
sector 0 is 0xFF. -/
theorem holds_commit_iff (h : StageInv sectors s) (hpc : s.pc = .commit q next) :
    Holds (sectorSize * sectors) s.part s.staged ↔
      ∀ a, next ≤ a → a < sectorSize → s.sec0 a = erased := by
  rcases s with ⟨part, sec0, pc, staged, before⟩
  cases hpc
  rcases h with ⟨hfits, -, -, -, hstaged, -, hcommitted, hheld⟩
  cases hstaged
  have hlong := hfits.sectorSize_lt
  have hsize := hfits.2
  constructor
  · rintro ⟨-, hholds⟩ a hlo hsec
    have hlen : a < q.body.len := by omega
    have hbody : part a = q.body.byte a := (hholds a (by omega)).trans (if_pos hlen)
    have hgone : part a = erased := (hcommitted a (by omega)).trans (if_neg (by omega))
    exact (hheld a (by omega) hsec).trans (hbody.symm.trans hgone)
  · intro hrest
    refine ⟨hsize, fun a ha => (hcommitted a ha).trans ?_⟩
    by_cases hin : a < q.body.len ∧ (a < next ∨ sectorSize ≤ a)
    · rw [if_pos hin, if_pos hin.1]
    · rw [if_neg hin]
      by_cases hlen : a < q.body.len
      · -- a byte of sector 0 that is still to come, and is 0xFF
        rw [if_pos hlen, ← hheld a hlen (by omega)]
        exact (hrest a (by omega) (by omega)).symm
      · rw [if_neg hlen]

/-- During a commit the partition is accepted without holding the body exactly if the
commit is torn. -/
theorem torn_iff (h : StageInv sectors s) (hpc : s.pc = .commit q next) :
    (Accepts s.part (sectorSize * sectors) → Holds (sectorSize * sectors) s.part s.staged) ↔
      ¬ Torn (sectorSize * sectors) s := by
  constructor
  · -- a torn commit is accepted, and lacks a byte of the body
    rintro himp ⟨q', next', hpc', hpos, ⟨a, hlo, hsec, hbyte⟩, hlen⟩
    cases hpc.symm.trans hpc'
    exact hbyte ((holds_commit_iff h hpc).1 (himp (accepts_commit h hpc hpos hlen)) a hlo hsec)
  · intro hntorn hacc
    -- it is accepted, so it has its marker
    have hpos : 0 < next := by
      rcases Nat.eq_zero_or_pos next with rfl | hpos
      · exact absurd hacc (not_accepts_of_erased (part_zero_erased h (by rw [hpc]; rfl)))
      · exact hpos
    refine (holds_commit_iff h hpc).2 fun a hlo hsec => ?_
    by_contra hbyte
    exact hntorn ⟨q, next, hpc, hpos, ⟨a, hlo, hsec, hbyte⟩, hacc.1⟩

/-- A partition that a request has not touched holds the last committed body, if it is
accepted. -/
def CrashInv (sectors : Nat) (s : Stage) : Prop := StageInv sectors s ∧
  (s.pc.Untouched → Accepts s.part (sectorSize * sectors) →
    Holds (sectorSize * sectors) s.part s.staged)

/-- A cut at this point leaves one complete body or a partition that is refused, exactly
if the commit is not torn. -/
theorem cut_iff (h : CrashInv sectors s) :
    (Accepts s.part (sectorSize * sectors) → Holds (sectorSize * sectors) s.part s.staged) ↔
      ¬ Torn (sectorSize * sectors) s := by
  rcases h with ⟨hinv, hkeep⟩
  -- nothing is torn outside the commit, and nothing is accepted without the marker
  rcases s.pc.phases with huntouched | hunmarked | ⟨q, next, hpc, -⟩
  · refine iff_of_true (hkeep huntouched) ?_
    rintro ⟨q, next, hpc, -⟩
    rw [hpc] at huntouched
    exact huntouched
  · have hrefused : ¬ Accepts s.part (sectorSize * sectors) :=
      not_accepts_of_erased (part_zero_erased hinv hunmarked)
    refine iff_of_true (fun hacc => absurd hacc hrefused) ?_
    rintro ⟨q, next, hpc, hpos, -⟩
    rw [hpc] at hunmarked
    exact absurd hunmarked (Nat.ne_of_gt hpos)
  · exact torn_iff hinv hpc

theorem crashInv_step {l : StageLabel} (h : CrashInv sectors s)
    (hok : NotTornCut (sectorSize * sectors) s l) (hs : (stageSystem sectors).step s l = some t) :
    CrashInv sectors t := by
  refine ⟨stageInv_step h.1 hs, fun ht => ?_⟩
  obtain ⟨hpart, hstaged, hcommit⟩ := untouched_step hs ht
  rw [hpart, hstaged]
  refine (cut_iff h).2 ?_
  intro htorn
  rcases id htorn with ⟨q, next, hpc, -, ⟨a, hlo, hsec, -⟩, -⟩
  rcases hcommit q next hpc with (rfl | rfl) | hdone
  · exact hok htorn
  · exact hok htorn
  · omega

/-- **Staging is crash consistent but for torn commits.** In every run in which no torn
commit is cut, from a partition that holds `old` if it is accepted, a partition that
is accepted when the handler is done holds all of the last committed body and nothing
else; and each failure or restart keeps this so exactly if it does not cut a torn commit. -/
theorem staging_crash_consistent {part sec0 : Flash} {old before : Body}
    (hold : Accepts part (sectorSize * sectors) → Holds (sectorSize * sectors) part old)
    (h : (stageSystem sectors).Reaches (NotTornCut (sectorSize * sectors))
      ⟨part, sec0, .idle, old, before⟩ s) :
    (s.pc = .idle → Accepts s.part (sectorSize * sectors) →
      Holds (sectorSize * sectors) s.part s.staged) ∧
    ∀ l t, l = .fail ∨ l = .restart → (stageSystem sectors).step s l = some t →
      ((Accepts t.part (sectorSize * sectors) → Holds (sectorSize * sectors) t.part t.staged) ↔
        NotTornCut (sectorSize * sectors) s l) := by
  have hinv : CrashInv sectors s := by
    refine Machine.Reaches.invariant h ⟨trivial, fun _ => hold⟩ ?_
    intro s l t hs hok ht
    exact crashInv_step hs hok ht
  constructor
  · intro hidle
    exact hinv.2 (by rw [hidle]; trivial)
  · rintro l t (rfl | rfl) ht
    · cases ht
      exact cut_iff hinv
    · cases ht
      exact cut_iff hinv

/-- An erased partition of 33 sectors. -/
def blankStage : Stage := ⟨fun _ => erased, fun _ => 0, .idle, ⟨0, fun _ => 0⟩, ⟨0, fun _ => 0⟩⟩

/-- On a blank partition the commit of the sample image comes to every one of its bytes. -/
theorem reaches_sample_commit {ok : Stage → StageLabel → Prop}
    (hstart : ∀ s b r, ok s (.start b r)) (hrun : ∀ s, ok s .run)
    (hrecv : ∀ s r, ok s (.recv r)) {n : Nat} (hn : n ≤ sectorSize) : ∃ part sec0 q,
    (stageSystem 33).Reaches ok blankStage
      ⟨part, sec0, .commit q n, sampleUpload 13, blankStage.staged⟩ ∧
    Committed sampleSize part (sampleUpload 13) n := by
  have herase : (stageSystem 33).Reaches ok blankStage
      { blankStage with pc := .erase ⟨sampleUpload 13, none, false, 0⟩ 0 } :=
    Relation.ReflTransGen.single ⟨_, hstart _ _ true, start_fits true rfl (sampleUpload_fits 13)⟩
  obtain ⟨part₁, sec0, q, hcommit, hbody⟩ := reaches_commit hrun hrecv rfl
    (stageInv_reaches herase trivial) rfl nofun (sampleImage_desc 13)
  change q.body = sampleUpload 13 at hbody
  let first : Stage := ⟨part₁, sec0, .commit q 0, sampleUpload 13, blankStage.staged⟩
  have hfirst : first.pc = .commit q 0 := rfl
  obtain ⟨part₂, hbyte⟩ := reaches_commit_byte hrun hfirst (Nat.zero_le n) hn
  have hreach := herase.trans (hcommit.trans hbyte)
  obtain ⟨-, -, -, -, -, -, hcommitted, -⟩ := stageInv_reaches hreach trivial
  exact ⟨part₂, sec0, q, hreach, hbody ▸ hcommitted⟩

/-- A commit of the sample image that has its marker is accepted. -/
theorem accepts_sample_commit {part : Flash} {n : Nat} (hn : 0 < n)
    (h : Committed sampleSize part (sampleUpload 13) n) : Accepts part sampleSize := by
  have hdesc (a : Nat) (hlo : appDescAddr ≤ a) (hsize : a < sampleSize) :
      part a = sampleImage 13 a :=
    (h a hsize).trans (if_pos ⟨hsize, Or.inr (Nat.le_trans (by decide) hlo)⟩)
  exact accepts_sample ((h 0 (by decide)).trans (if_pos ⟨by decide, Or.inl hn⟩)) hdesc

/-- The sample image staged on a blank partition without a cut. -/
theorem staging_crash_consistent_upload : ∃ s,
    (stageSystem 33).Reaches (NotTornCut (sectorSize * 33)) blankStage s ∧
    s.pc = .idle ∧ Accepts s.part (sectorSize * 33) ∧
    Holds (sectorSize * 33) s.part (sampleUpload 13) := by
  obtain ⟨part, sec0, q, hreach, hcommitted⟩ :
      ∃ part sec0 q, (stageSystem 33).Reaches (NotTornCut (sectorSize * 33)) blankStage
        ⟨part, sec0, .commit q sectorSize, sampleUpload 13, blankStage.staged⟩ ∧
      Committed sampleSize part (sampleUpload 13) sectorSize :=
    reaches_sample_commit (fun _ _ _ => trivial) (fun _ => trivial) (fun _ _ => trivial)
      (Nat.le_refl sectorSize)
  let done : Stage := ⟨part, sec0, .idle, sampleUpload 13, blankStage.staged⟩
  have hdone : (stageSystem 33).Reaches (NotTornCut (sectorSize * 33)) blankStage done := by
    refine hreach.tail ⟨.run, trivial, ?_⟩
    simp only [stageSystem, stepStage]
    rw [if_neg (Nat.lt_irrefl sectorSize)]
  have hacc : Accepts part (sectorSize * 33) := accepts_sample_commit (by decide) hcommitted
  have hblank : ¬ Accepts blankStage.part (sectorSize * 33) := not_accepts_of_erased rfl
  exact ⟨done, hdone, rfl, hacc,
    (staging_crash_consistent (fun h => absurd h hblank) hdone).1 rfl hacc⟩

/-- A power loss after the first byte of the commit, on a partition that was blank: the
marker stands, so the partition is accepted, but the rest of sector 0 is erased. -/
theorem staging_crash_consistent_fails :
    ¬ ∀ (sectors : Nat) (part sec0 : Flash) (old before : Body) (s : Stage),
      (Accepts part (sectorSize * sectors) → Holds (sectorSize * sectors) part old) →
      (stageSystem sectors).Reaches (fun _ _ => True) ⟨part, sec0, .idle, old, before⟩ s →
      s.pc = .idle → Accepts s.part (sectorSize * sectors) →
      Holds (sectorSize * sectors) s.part s.staged ∨
        Holds (sectorSize * sectors) s.part s.before := by
  intro hall
  obtain ⟨part, sec0, q, hreach, hcommitted⟩ :
      ∃ part sec0 q, (stageSystem 33).Reaches (fun _ _ => True) blankStage
        ⟨part, sec0, .commit q 1, sampleUpload 13, blankStage.staged⟩ ∧
      Committed sampleSize part (sampleUpload 13) 1 :=
    reaches_sample_commit (fun _ _ _ => trivial) (fun _ => trivial) (fun _ _ => trivial)
      (by decide)
  let cut : Stage := ⟨part, fun _ => 0, .idle, sampleUpload 13, blankStage.staged⟩
  have hcut : (stageSystem 33).Reaches (fun _ _ => True) blankStage cut :=
    hreach.tail ⟨.restart, trivial, rfl⟩
  have hacc : Accepts part (sectorSize * 33) := accepts_sample_commit Nat.one_pos hcommitted
  have hblank : ¬ Accepts blankStage.part (sectorSize * 33) := not_accepts_of_erased rfl
  rcases hall 33 _ _ _ _ cut (fun h => absurd h hblank) hcut rfl hacc with hstaged | hbefore
  · -- byte 12 of the image is the chip id, that of the partition is erased
    have hlen : 12 < (sampleUpload 13).len := by decide
    have hchip : part 12 = 13 := (hstaged.2 12 (by decide)).trans (if_pos hlen)
    have hgone : part 12 = erased := (hcommitted 12 (by decide)).trans (if_neg (by decide))
    exact absurd (hchip.symm.trans hgone) (by decide)
  · have hgone : part 0 = erased :=
      (hbefore.2 0 (by decide)).trans (if_neg (Nat.not_lt_zero 0))
    exact absurd hacc (not_accepts_of_erased hgone)

end Cdc2Net.Radio
