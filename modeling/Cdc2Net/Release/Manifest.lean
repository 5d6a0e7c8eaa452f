import Cdc2Net.Lib.LastEntry
import Mathlib.Data.String.Basic

/-!
# The manifest of a mission

`merge_manifest.py` merges the build of one chip into the manifest of its mission. A release
is a version with the merges since it was started: a merge of that version goes on with it, and
one of another version is refused, or starts the next release if the operator allows it. The
manifest holds, for each chip family of the release, what its last merge gave
(`represents_runs`), so the order in which different chips are merged does not matter, unless
it decides which of them come before the start of the release (`manifest_kept`).
-/

set_option autoImplicit false

namespace Cdc2Net.Release

open Cdc2Net.Lib.LastEntry

universe u

/-! ## The script -/

/-- A flash part. -/
structure Part (S : Type u) where
  path : S
  offset : Int
  deriving DecidableEq

/-- An entry of `builds`. -/
structure Build (S : Type u) where
  chipFamily : S
  improv : Bool
  parts : List (Part S)
  deriving DecidableEq

/-- An item of `ota`. -/
structure OtaImage (S : Type u) where
  path : S
  md5 : S
  deriving DecidableEq

/-- A manifest as the script writes it, with all its members; `ota` has its items in the order
of the file. -/
structure Manifest (S : Type u) where
  name : S
  version : S
  fundingUrl : String
  newInstallPromptErase : Bool
  builds : List (Build S)
  ota : List (S × OtaImage S)
  deriving DecidableEq

/-- The arguments of a run behind the path of the manifest, and whether
`ALLOW_NEW_MISSION_VERSION` is 1. -/
structure Args (S : Type u) where
  name : S
  version : S
  chipfamily : S
  factory : S
  firmware : S
  fwMd5 : S
  specs : List S
  allowNew : Bool
  deriving DecidableEq

/-- How a run ends. -/
inductive Outcome where
  | merged
  /-- `sys.exit(3)`. -/
  | aborted
  /-- A `ValueError` of a part. -/
  | badPart
  deriving DecidableEq

section Script

variable {S : Type u}

/-- The manifest that a release starts with. -/
def fresh (name version : S) : Manifest S :=
  ⟨name, version, "https://busware.de", true, [], []⟩

/-- The entry of the chip in `builds`. -/
def Args.build (a : Args S) (extra : List (Part S)) : Build S :=
  ⟨a.chipfamily, true, ⟨a.factory, 0⟩ :: extra⟩

/-- The item of the chip in `ota`. -/
def Args.ota (a : Args S) : OtaImage S := ⟨a.firmware, a.fwMd5⟩

-- `str` with its order, and `rsplit` and `int` on an argument "path@offset"
variable [LinearOrder S] (partOf : S → Option (Part S))

/-- What the script does with the manifest from `m["name"] = name` on. -/
def merge (m : Manifest S) (a : Args S) (extra : List (Part S)) : Manifest S :=
  { m with
    name := a.name
    version := a.version
    builds := putSorted Build.chipFamily m.builds (a.build extra)
    ota := setItem m.ota a.chipfamily a.ota }

/-- `main`; no manifest if there is no file. -/
def main (file : Option (Manifest S)) (a : Args S) : Outcome × Option (Manifest S) :=
  match a.specs.mapM partOf with
  | none => (.badPart, file)
  | some extra =>
    match file with
    | some m =>
      if m.version ≠ a.version then
        if a.allowNew then (.merged, some (merge (fresh a.name a.version) a extra))
        else (.aborted, file)
      else (.merged, some (merge m a extra))
    | none => (.merged, some (merge (fresh a.name a.version) a extra))

/-- A sequence of runs. -/
def runs (file : Option (Manifest S)) (as : List (Args S)) : Option (Manifest S) :=
  as.foldl (fun file a => (main partOf file a).2) file

end Script

/-! ## The releases of a mission -/

/-- A version with the merges since it was started. -/
structure Version (S : Type u) where
  version : S
  merges : List (Args S)

section Releases

variable {S : Type u} [LinearOrder S] (partOf : S → Option (Part S))

/-- A merge, as the release sees it. -/
def noteMerge : Option (Version S) → Args S → Option (Version S)
  | none, a => some ⟨a.version, [a]⟩
  | some r, a =>
    if r.version = a.version then some ⟨r.version, r.merges ++ [a]⟩
    else if a.allowNew then some ⟨a.version, [a]⟩ else some r

/-- A run, as the release sees it. -/
def nextRelease (r : Option (Version S)) (a : Args S) : Option (Version S) :=
  if a.specs.mapM partOf = none then r else noteMerge r a

/-- The release that a mission is at after the runs. -/
def releases (r : Option (Version S)) (as : List (Args S)) : Option (Version S) :=
  as.foldl (nextRelease partOf) r

/-- The entry that a merge makes. -/
def buildOf (a : Args S) : Build S := a.build ((a.specs.mapM partOf).getD [])

/-- The last merge of a chip. -/
def lastMerge (as : List (Args S)) (chip : S) : Option (Args S) := last Args.chipfamily as chip

/-- The manifest holds the release: its version, and for each chip family that was merged since
it was started one entry and one item, those of its last merge. -/
structure Holds (m : Manifest S) (r : Version S) : Prop where
  version : m.version = r.version
  name : r.merges.getLast?.map Args.name = some m.name
  constant : m.fundingUrl = "https://busware.de" ∧ m.newInstallPromptErase = true
  sorted : m.builds.Pairwise fun b c => b.chipFamily < c.chipFamily
  builds : ∀ b, b ∈ m.builds ↔
    ∃ a, lastMerge r.merges b.chipFamily = some a ∧ b = buildOf partOf a
  items : (m.ota.map Prod.fst).Nodup
  ota : ∀ chip, m.ota.lookup chip = (lastMerge r.merges chip).map Args.ota

/-- No manifest without a release. -/
def Represents : Option (Manifest S) → Option (Version S) → Prop
  | none, none => True
  | some m, some r => Holds partOf m r
  | _, _ => False

variable {partOf} {file : Option (Manifest S)} {r : Option (Version S)} {m : Manifest S}
  {a : Args S} {extra : List (Part S)}

theorem lastMerge_concat (as : List (Args S)) (a : Args S) (chip : S) :
    lastMerge (as ++ [a]) chip = if a.chipfamily = chip then some a else lastMerge as chip :=
  last_concat as a chip

/-- A merge takes a manifest from what the merges before it left to what it leaves. -/
theorem holds_merge (as : List (Args S)) (h : a.specs.mapM partOf = some extra)
    (hconst : m.fundingUrl = "https://busware.de" ∧ m.newInstallPromptErase = true)
    (hsorted : m.builds.Pairwise fun b c => b.chipFamily < c.chipFamily)
    (hbuilds : ∀ b, b ∈ m.builds ↔
      ∃ a, lastMerge as b.chipFamily = some a ∧ b = buildOf partOf a)
    (hitems : (m.ota.map Prod.fst).Nodup)
    (hota : ∀ chip, m.ota.lookup chip = (lastMerge as chip).map Args.ota) :
    Holds partOf (merge m a extra) ⟨a.version, as ++ [a]⟩ where
  version := rfl
  name := by
    rw [List.getLast?_concat]
    rfl
  constant := hconst
  sorted := putSorted_sorted hsorted
  builds b := by
    have hbuild : a.build extra = buildOf partOf a := by rw [buildOf, h, Option.getD_some]
    rw [merge, hbuild]
    exact mem_putSorted_last (fun _ => rfl) hbuilds a b
  items := nodup_setItem hitems
  ota chip := by
    change (setItem m.ota a.chipfamily a.ota).lookup chip = _
    rw [lookup_setItem, lastMerge_concat, hota]
    by_cases hchip : a.chipfamily = chip
    · rw [if_pos hchip, if_pos hchip.symm, Option.map_some]
    · rw [if_neg hchip, if_neg (Ne.symm hchip)]

theorem holds_fresh (h : a.specs.mapM partOf = some extra) :
    Holds partOf (merge (fresh a.name a.version) a extra) ⟨a.version, [a]⟩ := by
  refine holds_merge [] h ⟨rfl, rfl⟩ List.Pairwise.nil (fun b => ?_) List.nodup_nil
    fun _ => rfl
  refine iff_of_false List.not_mem_nil ?_
  rintro ⟨a', ha', -⟩
  cases ha'

/-- A run takes a manifest that represents a release to one that represents the next. -/
theorem represents_main (h : Represents partOf file r) (a : Args S) :
    Represents partOf (main partOf file a).2 (nextRelease partOf r a) := by
  rw [main, nextRelease]
  cases hextra : a.specs.mapM partOf with
  | none =>
    rw [if_pos rfl]
    exact h
  | some extra =>
    rw [if_neg nofun]
    match file, r, h with
    | none, none, _ => exact holds_fresh hextra
    | some m, some r, h =>
      have hversion : m.version = r.version := h.version
      rw [noteMerge]
      dsimp only
      by_cases heq : m.version = a.version
      · rw [if_neg (not_not.2 heq), if_pos (hversion.symm.trans heq)]
        have hmerge := holds_merge r.merges hextra h.constant h.sorted h.builds h.items h.ota
        rwa [← heq, hversion] at hmerge
      · rw [if_pos heq, if_neg fun hr => heq (hversion.trans hr)]
        cases a.allowNew with
        | true => exact holds_fresh hextra
        | false => exact h

/-- The manifest after a sequence of runs represents the release after it. -/
theorem represents_runs (h : Represents partOf file r) (as : List (Args S)) :
    Represents partOf (runs partOf file as) (releases partOf r as) := by
  induction as generalizing file r with
  | nil => exact h
  | cons a as ih => exact ih (represents_main h a)

/-! ## The order of the runs -/

variable (partOf) in
/-- The runs whose parts can be read. -/
def accepted (as : List (Args S)) : List (Args S) :=
  as.filter fun a => (a.specs.mapM partOf).isSome

omit [LinearOrder S] in
theorem accepted_cons (a : Args S) (as : List (Args S)) : accepted partOf (a :: as) =
    if a.specs.mapM partOf = none then accepted partOf as else a :: accepted partOf as := by
  rw [accepted, List.filter_cons]
  cases a.specs.mapM partOf with
  | none => rfl
  | some extra => rfl

theorem releases_cons (r : Option (Version S)) (a : Args S) (as : List (Args S)) :
    releases partOf r (a :: as) = releases partOf (nextRelease partOf r a) as := rfl

/-- Runs of the version of the release. -/
theorem releases_same {as : List (Args S)} {v : S} (hv : ∀ a ∈ as, a.version = v)
    (ms : List (Args S)) :
    releases partOf (some ⟨v, ms⟩) as = some ⟨v, ms ++ accepted partOf as⟩ := by
  induction as generalizing ms with
  | nil =>
    rw [accepted, List.filter_nil, List.append_nil]
    rfl
  | cons a as ih =>
    have hv' : ∀ b ∈ as, b.version = v := fun b hb => hv b (List.mem_cons_of_mem a hb)
    rw [releases_cons, nextRelease, accepted_cons]
    split
    · exact ih hv' ms
    · rw [noteMerge, if_pos (hv a List.mem_cons_self).symm, ih hv', List.append_assoc]
      rfl

/-- Runs of a version that starts a release. -/
theorem releases_start {as : List (Args S)} {v : S} (hv : ∀ a ∈ as, a.version = v)
    (hr : ∀ old, r = some old → old.version ≠ v ∧ ∀ a ∈ as, a.allowNew = true) :
    releases partOf r as =
      if accepted partOf as = [] then r else some ⟨v, accepted partOf as⟩ := by
  induction as with
  | nil => rfl
  | cons a as ih =>
    have hv' : ∀ b ∈ as, b.version = v := fun b hb => hv b (List.mem_cons_of_mem a hb)
    rw [releases_cons, nextRelease, accepted_cons]
    split
    · exact ih hv' fun old ho =>
        ⟨(hr old ho).1, fun b hb => (hr old ho).2 b (List.mem_cons_of_mem a hb)⟩
    · have hnext : noteMerge r a = some ⟨v, [a]⟩ := by
        cases r with
        | none => rw [noteMerge, hv a List.mem_cons_self]
        | some old =>
          obtain ⟨hne, hallow⟩ := hr old rfl
          rw [noteMerge, hv a List.mem_cons_self, if_neg hne, if_pos (hallow a List.mem_cons_self)]
      rw [if_neg (List.cons_ne_nil _ _), hnext, releases_same hv']
      rfl

/-- Runs that are refused. -/
theorem releases_refused {as : List (Args S)} {old : Version S}
    (h : ∀ a ∈ as, old.version ≠ a.version ∧ a.allowNew = false) :
    releases partOf (some old) as = some old := by
  induction as with
  | nil => rfl
  | cons a as ih =>
    obtain ⟨hne, hallow⟩ := h a List.mem_cons_self
    have hsame : nextRelease partOf (some old) a = some old := by
      rw [nextRelease]
      split
      · rfl
      · rw [noteMerge, if_neg hne, hallow]
        rfl
    rw [releases_cons, hsame]
    exact ih fun b hb => h b (List.mem_cons_of_mem a hb)

/-- The same release up to the order of the merges of different chips. -/
def SameRelease : Option (Version S) → Option (Version S) → Prop
  | none, none => True
  | some r, some r' =>
    r.version = r'.version ∧ r.merges.getLast?.map Args.name = r'.merges.getLast?.map Args.name ∧
      ∀ chip, lastMerge r.merges chip = lastMerge r'.merges chip
  | _, _ => False

theorem sameRelease_refl (r : Option (Version S)) : SameRelease r r := by
  cases r with
  | none => trivial
  | some r => exact ⟨rfl, rfl, fun _ => rfl⟩

/-- The same JSON value: the items of `ota` may come in another order. -/
def SameValue : Option (Manifest S) → Option (Manifest S) → Prop
  | none, none => True
  | some m, some m' =>
    { m with ota := [] } = { m' with ota := [] } ∧ ∀ chip, m.ota.lookup chip = m'.ota.lookup chip
  | _, _ => False

/-- A release determines the value of its manifest. -/
theorem sameValue_of_represents {file' : Option (Manifest S)} {r' : Option (Version S)}
    (h : Represents partOf file r) (h' : Represents partOf file' r') (hr : SameRelease r r') :
    SameValue file file' := by
  match file, r, h, file', r', h', hr with
  | none, none, _, none, none, _, _ => trivial
  | some m, some r, h, some m', some r', h', hr =>
    obtain ⟨hversion, hname, hlast⟩ := hr
    have hbuilds : m.builds = m'.builds := by
      refine eq_of_sorted h.sorted h'.sorted fun b => ?_
      rw [h.builds, h'.builds, hlast]
    constructor
    · have hname' : some m.name = some m'.name := h.name.symm.trans (hname.trans h'.name)
      obtain ⟨name, version, url, erase, builds, ota⟩ := m
      obtain ⟨name', version', url', erase', builds', ota'⟩ := m'
      obtain ⟨hurl, herase⟩ := h.constant
      obtain ⟨hurl', herase'⟩ := h'.constant
      have hversion' : version = version' := h.version.trans (hversion.trans h'.version.symm)
      cases hname'
      cases hbuilds
      cases hversion'
      cases hurl
      cases herase
      cases hurl'
      cases herase'
      rfl
    · intro chip
      rw [h.ota, h'.ota, hlast]

/-- Merges of different chips in another order. -/
theorem sameRelease_perm {ms ms' as : List (Args S)} (hperm : ms'.Perm ms)
    (hn : (ms.map Args.chipfamily).Nodup) {name : S} (hname : ∀ a ∈ ms, a.name = name)
    (hne : ms ≠ []) (v : S) : SameRelease (some ⟨v, as ++ ms'⟩) (some ⟨v, as ++ ms⟩) := by
  have hlast : ∀ l : List (Args S), l ≠ [] → (∀ a ∈ l, a.name = name) →
      (as ++ l).getLast?.map Args.name = some name := by
    intro l hl hall
    obtain ⟨l', a, rfl⟩ := (List.eq_nil_or_concat l).resolve_left hl
    rw [List.concat_eq_append, ← List.append_assoc, List.getLast?_concat, Option.map_some,
      hall a (by simp)]
  have hne' : ms' ≠ [] := fun hnil => hne (List.Perm.nil_eq (hnil ▸ hperm)).symm
  have hn' : (ms'.map Args.chipfamily).Nodup := (hperm.map _).nodup_iff.2 hn
  refine ⟨rfl, ?_, fun chip => ?_⟩
  · rw [hlast ms' hne' fun a ha => hname a (hperm.subset ha), hlast ms hne hname]
  · change last Args.chipfamily (as ++ ms') chip = last Args.chipfamily (as ++ ms) chip
    rw [last_append, last_append, last_perm hperm hn']

/-- Runs of one version for different chips in another order. -/
theorem sameRelease_releases {as as' : List (Args S)} (hperm : as'.Perm as) {name v : S}
    (hname : ∀ a ∈ as, a.name = name) (hv : ∀ a ∈ as, a.version = v)
    (hn : (as.map Args.chipfamily).Nodup)
    (halike : (∀ old, r = some old → old.version = v) ∨
      ∀ a ∈ as, ∀ b ∈ as, a.allowNew = b.allowNew) :
    SameRelease (releases partOf r as') (releases partOf r as) := by
  have hv' : ∀ a ∈ as', a.version = v := fun a ha => hv a (hperm.subset ha)
  have hacc : (accepted partOf as').Perm (accepted partOf as) := hperm.filter _
  have hnil : accepted partOf as' = [] ↔ accepted partOf as = [] :=
    ⟨fun h => (h ▸ hacc).nil_eq.symm, fun h => List.Perm.eq_nil (h ▸ hacc)⟩
  have hmoved : ∀ ms, accepted partOf as ≠ [] →
      SameRelease (some ⟨v, ms ++ accepted partOf as'⟩) (some ⟨v, ms ++ accepted partOf as⟩) := by
    intro ms hne
    exact sameRelease_perm hacc (hn.sublist (List.filter_sublist.map _))
      (fun a ha => hname a (List.mem_of_mem_filter ha)) hne v
  -- the first accepted run starts the release, in either order
  have hstart : (∀ old, r = some old → old.version ≠ v ∧ ∀ a ∈ as, a.allowNew = true) →
      SameRelease (releases partOf r as') (releases partOf r as) := by
    intro hr
    rw [releases_start hv hr, releases_start hv' fun old ho =>
      ⟨(hr old ho).1, fun a ha => (hr old ho).2 a (hperm.subset ha)⟩]
    by_cases hempty : accepted partOf as = []
    · rw [if_pos hempty, if_pos (hnil.2 hempty)]
      exact sameRelease_refl r
    · rw [if_neg hempty, if_neg fun h => hempty (hnil.1 h)]
      exact hmoved [] hempty
  cases r with
  | none => exact hstart nofun
  | some old =>
    obtain ⟨version, ms⟩ := old
    by_cases hsame : version = v
    · subst hsame
      rw [releases_same hv, releases_same hv']
      by_cases hempty : accepted partOf as = []
      · rw [hempty, hnil.2 hempty]
        exact sameRelease_refl _
      · exact hmoved ms hempty
    · have hflags := halike.resolve_left fun h => hsame (h _ rfl)
      by_cases hallow : ∃ a ∈ as, a.allowNew = true
      · obtain ⟨a, ha, htrue⟩ := hallow
        refine hstart fun old ho => ?_
        cases ho
        exact ⟨hsame, fun b hb => (hflags b hb a ha).trans htrue⟩
      · have hrefused : ∀ a ∈ as, version ≠ a.version ∧ a.allowNew = false := by
          intro a ha
          rw [hv a ha]
          exact ⟨hsame, Bool.eq_false_iff.2 fun h => hallow ⟨a, ha, h⟩⟩
        rw [releases_refused fun a ha => hrefused a (hperm.subset ha), releases_refused hrefused]
        exact sameRelease_refl _

end Releases

section Mission

variable {S : Type u} [LinearOrder S]

/-- It is not left to the order of the runs which of them come before the start of their
release: there is no manifest or one of their version, or `ALLOW_NEW_MISSION_VERSION` is the
same for all. -/
def StartsAlike (file : Option (Manifest S)) (as : List (Args S)) : Prop :=
  (∀ m, file = some m → ∀ a ∈ as, a.version = m.version) ∨
    ∀ a ∈ as, ∀ b ∈ as, a.allowNew = b.allowNew

variable (partOf : S → Option (Part S))

/-- What holds after the runs `as` over a manifest of the release `r`: the manifest holds the
release; for runs of one version with different chips its value does not depend on their
order; a further run of another version leaves the manifest as it is, or starts it anew if
that is allowed. -/
structure MissionKept (file : Option (Manifest S)) (r : Option (Version S))
    (as : List (Args S)) : Prop where
  holds : Represents partOf (runs partOf file as) (releases partOf r as)
  order : ∀ as' v, as'.Perm as → (∀ a ∈ as, a.version = v) →
    (as.map Args.chipfamily).Nodup → StartsAlike file as →
    SameValue (runs partOf file as') (runs partOf file as)
  otherVersion : ∀ m a, runs partOf file as = some m → m.version ≠ a.version →
    (a.allowNew = false → (main partOf (some m) a).2 = some m) ∧
    (a.allowNew = true → ∀ extra, a.specs.mapM partOf = some extra →
      ∃ m', (main partOf (some m) a).2 = some m' ∧ m'.version = a.version ∧
        m'.builds = [a.build extra] ∧ m'.ota = [(a.chipfamily, a.ota)])

variable {partOf}

/-- A run of another version. -/
theorem main_otherVersion {m : Manifest S} {a : Args S} (hne : m.version ≠ a.version) :
    (a.allowNew = false → (main partOf (some m) a).2 = some m) ∧
    (a.allowNew = true → ∀ extra, a.specs.mapM partOf = some extra →
      ∃ m', (main partOf (some m) a).2 = some m' ∧ m'.version = a.version ∧
        m'.builds = [a.build extra] ∧ m'.ota = [(a.chipfamily, a.ota)]) := by
  constructor
  · intro hallow
    rw [main]
    split
    · rfl
    · dsimp only
      rw [if_pos hne, hallow]
      rfl
  · intro hallow extra hextra
    refine ⟨merge (fresh a.name a.version) a extra, ?_, rfl, ?_, rfl⟩
    · rw [main, hextra]
      dsimp only
      rw [if_pos hne, if_pos hallow]
    · change putSorted Build.chipFamily [] (a.build extra) = [a.build extra]
      rw [putSorted, List.filter_nil, List.nil_append, List.mergeSort_singleton]

/-- **What a manifest holds after any runs.** -/
theorem manifest_kept (partOf : S → Option (Part S)) (earlier as : List (Args S)) (name : S)
    (hname : ∀ a ∈ as, a.name = name) :
    MissionKept partOf (runs partOf none earlier) (releases partOf none earlier) as := by
  have hnone : Represents partOf none none := trivial
  have hstart := represents_runs hnone earlier
  refine ⟨represents_runs hstart as, ?_, fun m a _ hne => main_otherVersion hne⟩
  intro as' v hperm hv hn halike
  refine sameValue_of_represents (represents_runs hstart as') (represents_runs hstart as) ?_
  by_cases hempty : as = []
  · rw [hempty] at hperm ⊢
    rw [hperm.eq_nil]
    exact sameRelease_refl _
  refine sameRelease_releases hperm hname hv hn (halike.imp_left fun h old ho => ?_)
  -- the manifest is at the version of its release
  obtain ⟨a, ha⟩ := List.exists_mem_of_ne_nil as hempty
  cases hfile : runs partOf none earlier with
  | none =>
    rw [hfile, ho] at hstart
    exact hstart.elim
  | some m =>
    rw [hfile, ho] at hstart
    exact hstart.version.symm.trans ((h m hfile a ha).symm.trans (hv a ha))

end Mission

/-- The run of a chip without further parts. -/
def chipRun (version chip : String) (allowNew : Bool) : Args String :=
  ⟨"zbgw", version, chip, "factory.bin", "firmware.bin", "md5", [], allowNew⟩

theorem manifest_kept_two : MissionKept (fun _ : String => none)
    (runs (fun _ => none) none [chipRun "1.0" "ESP32-C3" false])
    (releases (fun _ => none) none [chipRun "1.0" "ESP32-C3" false])
    [chipRun "1.0" "ESP32-C6" false, chipRun "1.0" "ESP32-S3" false] :=
  manifest_kept _ _ _ "zbgw" (by simp [chipRun])

/-- Two chips of a new version, the first with `ALLOW_NEW_MISSION_VERSION`. The other way round
the second is refused. -/
theorem manifest_order_fails : ¬ ∀ (partOf : String → Option (Part String))
    (earlier as as' : List (Args String)) (name v : String), (∀ a ∈ as, a.name = name) →
    as'.Perm as → (∀ a ∈ as, a.version = v) → (as.map Args.chipfamily).Nodup →
    SameValue (runs partOf (runs partOf none earlier) as')
      (runs partOf (runs partOf none earlier) as) := by
  intro hall
  have hsame := hall (fun _ => none) [chipRun "1.0" "ESP32-C3" false]
    [chipRun "2.0" "ESP32-C3" true, chipRun "2.0" "ESP32-C6" false]
    [chipRun "2.0" "ESP32-C6" false, chipRun "2.0" "ESP32-C3" true] "zbgw" "2.0"
    (by decide) (List.Perm.swap _ _ _) (by decide) (by decide)
  have hlookup := hsame.2 "ESP32-C6"
  exact absurd hlookup (by decide +kernel)

end Cdc2Net.Release
