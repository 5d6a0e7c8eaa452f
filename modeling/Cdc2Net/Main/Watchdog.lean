import Cdc2Net.Lib.Transition

/-!
# Pausing the task watchdog

`app_wdt_feed_main` runs in the main task, `app_wdt_pause_main` and `app_wdt_resume_main` in
the HTTP server's. They share two flags and the driver's subscription and take no lock, so a
step is one read, one write or one driver call. The flag `s_wdt_on` follows the
subscription in every run (`flag_follows_subscription`). The pause sets `s_wdt_paused` last,
though, after its test of `s_wdt_on`: a re-arm of the main loop that comes between the
test and the resume subscribes a task that counts as paused. Where no re-arm does, a
paused main task is off the watchdog, and each step that lets one do so can be carried on to a
paused task that is subscribed (`paused_is_off`).
-/

set_option autoImplicit false

namespace Cdc2Net.Main

open Cdc2Net.Lib.Transition

/-- Where the main loop stands in `app_wdt_feed_main`. -/
inductive FeedPc where
  /-- Outside, or at its entry. -/
  | idle
  /-- Before the read of `s_wdt_on`. -/
  | testOn
  /-- Before `esp_task_wdt_add`. -/
  | add
  /-- Before the write of `s_wdt_on`. -/
  | record
  /-- Before `esp_task_wdt_reset`. -/
  | reset
  deriving DecidableEq, Repr

/-- Where the HTTP server's task stands in a pair of calls. -/
inductive PausePc where
  /-- Outside. -/
  | idle
  /-- Before the read of `s_wdt_on` in `app_wdt_pause_main`. -/
  | testOn
  /-- Before `esp_task_wdt_delete`. -/
  | delete
  /-- Before the write of `s_wdt_on`. -/
  | clear
  /-- Before the write of `s_wdt_paused`. -/
  | setPaused
  /-- Between the return of the pause and the resume. -/
  | paused
  deriving DecidableEq, Repr

/-- The statics of `main.c`, whether the driver has the main task subscribed, and the two
tasks. -/
structure Wdt where
  on : Bool
  paused : Bool
  subscribed : Bool
  feed : FeedPc
  pause : PausePc
  deriving DecidableEq, Repr

/-- A step of a task. -/
inductive WdtLabel where
  /-- The main loop goes on; `esp_task_wdt_add` succeeds or not, if it comes to it. -/
  | main (added : Bool)
  /-- The HTTP server's task goes on. -/
  | httpd
  deriving DecidableEq, Repr

/-- After `app_main` has subscribed. -/
def Wdt.armed : Wdt := ⟨true, false, true, .idle, .idle⟩

/-- One step of `app_wdt_feed_main`. -/
def stepFeed (s : Wdt) (added : Bool) : Wdt :=
  match s.feed with
  | .idle => if s.paused then s else { s with feed := .testOn }
  | .testOn => { s with feed := if s.on then .reset else .add }
  | .add =>
    -- the driver refuses a task that it has
    if added ∧ s.subscribed = false then { s with subscribed := true, feed := .record }
    else { s with feed := .idle }
  | .record => { s with on := true, feed := .reset }
  | .reset => { s with feed := .idle }

/-- One step of `app_wdt_pause_main`, or the whole of `app_wdt_resume_main`. -/
def stepPause (s : Wdt) : Wdt :=
  match s.pause with
  | .idle => { s with pause := .testOn }
  | .testOn => { s with pause := if s.on then .delete else .setPaused }
  | .delete => { s with subscribed := false, pause := .clear }
  | .clear => { s with on := false, pause := .setPaused }
  | .setPaused => { s with paused := true, pause := .paused }
  | .paused => { s with paused := false, pause := .idle }

/-- The two tasks, in any order. -/
def wdtSystem : Machine Wdt WdtLabel where
  step s
    | .main added => some (stepFeed s added)
    | .httpd => some (stepPause s)

/-- The pause has made its test of `s_wdt_on` and the resume has not come. -/
def Wdt.Tested (s : Wdt) : Prop := s.pause ≠ .idle ∧ s.pause ≠ .testOn

instance (s : Wdt) : Decidable s.Tested := by
  unfold Wdt.Tested
  infer_instance

/-- The main loop does not re-arm itself, from `esp_task_wdt_add` to the write of `s_wdt_on`,
between the test of a pause and its resume. -/
def ReArmApart (s : Wdt) : WdtLabel → Prop
  | .main added => s.feed = .add → added = true → ¬ s.Tested
  | .httpd => s.pause = .testOn → s.feed ≠ .record

instance (s : Wdt) : DecidablePred (ReArmApart s) := fun l => by
  unfold ReArmApart
  split <;> infer_instance

/-- The flag names the subscription while neither function runs. -/
def FlagFollows (s : Wdt) : Prop :=
  s.feed = .idle → s.pause = .idle ∨ s.pause = .paused → s.on = s.subscribed

/-- A paused task is off the watchdog once the main loop is not feeding, and the flag names
the subscription. -/
def PausedIsOff (s : Wdt) : Prop :=
  (s.pause = .paused → s.feed = .idle → s.subscribed = false) ∧ FlagFollows s

/-- What holds in every run. -/
structure WdtInv (s : Wdt) : Prop where
  paused : s.paused = true ↔ s.pause = .paused
  deleting : s.pause = .delete → s.on = true ∧ s.subscribed = true
  clearing : s.pause = .clear → s.on = true ∧ s.subscribed = false
  adding : s.feed = .add → s.on = false ∧ s.subscribed = false
  recording : s.feed = .record → s.on = false ∧ s.subscribed = true
  rest : s.pause ≠ .clear → s.feed ≠ .record → s.on = s.subscribed

variable {s t : Wdt} {l : WdtLabel}

theorem wdtInv_armed : WdtInv .armed := by
  constructor <;> decide

theorem wdtInv_feed (h : WdtInv s) (added : Bool) : WdtInv (stepFeed s added) := by
  rcases s with ⟨on, paused, subscribed, feed, pause⟩
  rcases h with ⟨hpaused, hdeleting, hclearing, hadding, hrecording, hrest⟩
  cases feed with
  | idle =>
    simp only [stepFeed]
    split
    · exact ⟨hpaused, hdeleting, hclearing, hadding, hrecording, hrest⟩
    · exact ⟨hpaused, hdeleting, hclearing, nofun, nofun, fun hc _ => hrest hc nofun⟩
  | testOn =>
    cases on with
    | true => exact ⟨hpaused, hdeleting, hclearing, nofun, nofun, fun hc _ => hrest hc nofun⟩
    | false =>
      -- a pause that is at its driver call has seen the flag set
      have hclear : pause ≠ .clear := fun hc => Bool.false_ne_true (hclearing hc).1
      have hsub : false = subscribed := hrest hclear nofun
      exact ⟨hpaused, hdeleting, hclearing, fun _ => ⟨rfl, hsub.symm⟩, nofun,
        fun _ _ => hsub⟩
  | add =>
    obtain ⟨rfl, rfl⟩ := hadding rfl
    have hdelete : pause ≠ .delete := fun hd => Bool.false_ne_true (hdeleting hd).1
    have hclear : pause ≠ .clear := fun hc => Bool.false_ne_true (hclearing hc).1
    simp only [stepFeed]
    split
    · exact ⟨hpaused, fun hd => absurd hd hdelete, fun hc => absurd hc hclear, nofun,
        fun _ => ⟨rfl, rfl⟩, fun _ hr => absurd rfl hr⟩
    · exact ⟨hpaused, hdeleting, hclearing, nofun, nofun, fun _ _ => rfl⟩
  | record =>
    obtain ⟨rfl, rfl⟩ := hrecording rfl
    have hdelete : pause ≠ .delete := fun hd => Bool.false_ne_true (hdeleting hd).1
    have hclear : pause ≠ .clear := fun hc => Bool.false_ne_true (hclearing hc).1
    exact ⟨hpaused, fun hd => absurd hd hdelete, fun hc => absurd hc hclear, nofun, nofun,
      fun _ _ => rfl⟩
  | reset => exact ⟨hpaused, hdeleting, hclearing, nofun, nofun, fun hc _ => hrest hc nofun⟩

theorem wdtInv_pause (h : WdtInv s) : WdtInv (stepPause s) := by
  rcases s with ⟨on, paused, subscribed, feed, pause⟩
  rcases h with ⟨hpaused, hdeleting, hclearing, hadding, hrecording, hrest⟩
  cases pause with
  | idle =>
    refine ⟨?_, nofun, nofun, hadding, hrecording, fun _ => hrest nofun⟩
    simpa [stepPause] using hpaused
  | testOn =>
    cases on with
    | true =>
      -- the flag is set, so the main loop is not re-arming
      have hrecord : feed ≠ .record := fun hr => Bool.false_ne_true (hrecording hr).1.symm
      have hsub : true = subscribed := hrest nofun hrecord
      refine ⟨?_, fun _ => ⟨rfl, hsub.symm⟩, nofun, hadding, hrecording, fun _ _ => hsub⟩
      simpa [stepPause] using hpaused
    | false =>
      refine ⟨?_, nofun, nofun, hadding, hrecording, fun _ => hrest nofun⟩
      simpa [stepPause] using hpaused
  | delete =>
    obtain ⟨rfl, rfl⟩ := hdeleting rfl
    refine ⟨?_, nofun, fun _ => ⟨rfl, rfl⟩, ?_, ?_, fun hc => absurd rfl hc⟩
    · simpa [stepPause] using hpaused
    · intro ha
      cases (hadding ha).1
    · intro hr
      cases (hrecording hr).1
  | clear =>
    obtain ⟨rfl, rfl⟩ := hclearing rfl
    refine ⟨?_, nofun, nofun, ?_, ?_, fun _ _ => rfl⟩
    · simpa [stepPause] using hpaused
    · intro ha
      cases (hadding ha).1
    · intro hr
      cases (hrecording hr).1
  | setPaused =>
    refine ⟨?_, nofun, nofun, hadding, hrecording, fun _ => hrest nofun⟩
    simp [stepPause]
  | paused =>
    refine ⟨?_, nofun, nofun, hadding, hrecording, fun _ => hrest nofun⟩
    simp [stepPause]

theorem wdtInv_step (h : WdtInv s) (hs : wdtSystem.step s l = some t) : WdtInv t := by
  cases l with
  | main added =>
    cases hs
    exact wdtInv_feed h added
  | httpd =>
    cases hs
    exact wdtInv_pause h

theorem wdtInv_reaches {ok : Wdt → WdtLabel → Prop} (h : wdtSystem.Reaches ok .armed s) :
    WdtInv s :=
  Machine.Reaches.invariant h wdtInv_armed fun _ _ _ hs _ ht => wdtInv_step hs ht

theorem WdtInv.flagFollows (h : WdtInv s) : FlagFollows s := by
  intro hfeed hpause
  refine h.rest ?_ ?_
  · rintro hclear
    rw [hclear] at hpause
    rcases hpause with hp | hp <;> cases hp
  · rw [hfeed]
    nofun

/-- In every run `s_wdt_on` names the subscription while neither function runs. -/
theorem flag_follows_subscription (h : wdtSystem.Reaches (fun _ _ => True) .armed s) :
    FlagFollows s :=
  (wdtInv_reaches h).flagFollows

/-- After the test of a pause the task is off the watchdog, unless the pause is about to take
it off. -/
def OffAfterTest (s : Wdt) : Prop :=
  s.pause = .setPaused ∨ s.pause = .paused → s.subscribed = false

theorem offAfterTest_step (hinv : WdtInv s) (h : OffAfterTest s) (hok : ReArmApart s l)
    (hs : wdtSystem.step s l = some t) : OffAfterTest t := by
  rcases s with ⟨on, paused, subscribed, feed, pause⟩
  cases l with
  | main added =>
    cases hs
    intro hp
    have hsame : (stepFeed ⟨on, paused, subscribed, feed, pause⟩ added).pause = pause := by
      cases feed <;> simp only [stepFeed] <;> split <;> rfl
    rw [hsame] at hp
    have hoff : subscribed = false := h hp
    cases feed with
    | add =>
      -- a re-arm would fall between the test and the resume
      have htested : Wdt.Tested ⟨on, paused, subscribed, .add, pause⟩ := by
        rcases hp with rfl | rfl <;> exact ⟨nofun, nofun⟩
      have hfail : added = false := by
        cases added with
        | true => exact absurd htested (hok rfl rfl)
        | false => rfl
      rw [hfail]
      exact hoff
    | idle =>
      simp only [stepFeed]
      split <;> exact hoff
    | testOn => exact hoff
    | record => exact hoff
    | reset => exact hoff
  | httpd =>
    cases hs
    intro hp
    cases pause with
    | testOn =>
      cases on with
      | true => rcases hp with hp | hp <;> cases hp
      | false => exact (hinv.rest nofun (hok rfl)).symm
    | clear => exact (hinv.clearing rfl).2
    | setPaused => exact h (Or.inl rfl)
    | idle => rcases hp with hp | hp <;> cases hp
    | delete => rcases hp with hp | hp <;> cases hp
    | paused => rcases hp with hp | hp <;> cases hp

/-- A re-arm that falls between the test of a pause and its resume can end with a paused task
that is subscribed. -/
theorem reaches_paused_subscribed (hinv : WdtInv s) (hs : wdtSystem.step s l = some t)
    (hbad : ¬ ReArmApart s l) :
    ∃ u, wdtSystem.Reaches (fun _ _ => True) t u ∧ ¬ PausedIsOff u := by
  rcases s with ⟨on, paused, subscribed, feed, pause⟩
  -- the main loop writes the flag and returns, and the pause returns
  have hend : ∀ on paused pause, pause = .setPaused ∨ pause = .paused →
      ∃ u, wdtSystem.Reaches (fun _ _ => True) ⟨on, paused, true, .record, pause⟩ u ∧
        ¬ PausedIsOff u := by
    rintro on paused pause (rfl | rfl)
    · refine ⟨⟨true, true, true, .idle, .paused⟩, ?_, fun h => by cases h.1 rfl rfl⟩
      have hrecord : wdtSystem.StepIf (fun _ _ => True) ⟨on, paused, true, .record, .setPaused⟩
          ⟨true, paused, true, .reset, .setPaused⟩ := ⟨.main true, trivial, rfl⟩
      have hreset : wdtSystem.StepIf (fun _ _ => True) ⟨true, paused, true, .reset, .setPaused⟩
          ⟨true, paused, true, .idle, .setPaused⟩ := ⟨.main true, trivial, rfl⟩
      have hset : wdtSystem.StepIf (fun _ _ => True) ⟨true, paused, true, .idle, .setPaused⟩
          ⟨true, true, true, .idle, .paused⟩ := ⟨.httpd, trivial, rfl⟩
      exact ((Relation.ReflTransGen.single hrecord).tail hreset).tail hset
    · refine ⟨⟨true, paused, true, .idle, .paused⟩, ?_, fun h => by cases h.1 rfl rfl⟩
      have hrecord : wdtSystem.StepIf (fun _ _ => True) ⟨on, paused, true, .record, .paused⟩
          ⟨true, paused, true, .reset, .paused⟩ := ⟨.main true, trivial, rfl⟩
      have hreset : wdtSystem.StepIf (fun _ _ => True) ⟨true, paused, true, .reset, .paused⟩
          ⟨true, paused, true, .idle, .paused⟩ := ⟨.main true, trivial, rfl⟩
      exact (Relation.ReflTransGen.single hrecord).tail hreset
  cases l with
  | main added =>
    cases hs
    simp only [ReArmApart, Classical.not_imp, Classical.not_not] at hbad
    obtain ⟨rfl, rfl, htested⟩ := hbad
    obtain ⟨rfl, rfl⟩ := hinv.adding rfl
    refine hend false paused pause ?_
    -- a pause that has seen the flag set is not past its driver call
    cases pause with
    | idle => exact absurd rfl htested.1
    | testOn => exact absurd rfl htested.2
    | delete => cases (hinv.deleting rfl).1
    | clear => cases (hinv.clearing rfl).1
    | setPaused => exact Or.inl rfl
    | paused => exact Or.inr rfl
  | httpd =>
    cases hs
    simp only [ReArmApart, Classical.not_imp, Classical.not_not, ne_eq] at hbad
    obtain ⟨rfl, rfl⟩ := hbad
    obtain ⟨rfl, rfl⟩ := hinv.recording rfl
    exact hend false paused .setPaused (Or.inl rfl)

/-- **When a paused main task is off the watchdog.** In every run in which the main loop does
not re-arm itself between the test of a pause and its resume, a paused main task that is not
feeding is not subscribed, and `s_wdt_on` names the subscription while neither function runs;
and from such a run every step of a re-arm there can be carried on to a state in which this
fails. -/
theorem paused_is_off (h : wdtSystem.Reaches ReArmApart .armed s) : PausedIsOff s ∧
    ∀ l t, wdtSystem.step s l = some t → ¬ ReArmApart s l →
      ∃ u, wdtSystem.Reaches (fun _ _ => True) t u ∧ ¬ PausedIsOff u := by
  have hinv : WdtInv s ∧ OffAfterTest s := by
    refine Machine.Reaches.invariant (I := fun s => WdtInv s ∧ OffAfterTest s) h
      ⟨wdtInv_armed, fun hp => by rcases hp with hp | hp <;> cases hp⟩ ?_
    rintro s l t ⟨hs, hoff⟩ hok ht
    exact ⟨wdtInv_step hs ht, offAfterTest_step hs hoff hok ht⟩
  refine ⟨⟨fun hp _ => hinv.2 (Or.inr hp), hinv.1.flagFollows⟩, ?_⟩
  intro l t ht hbad
  exact reaches_paused_subscribed hinv.1 ht hbad

/-- A pause, a resume, a re-arm and the next pause, one after the other. -/
theorem paused_is_off_pair : ∃ s, wdtSystem.Reaches ReArmApart .armed s ∧ s.pause = .paused ∧
    s.subscribed = false := by
  obtain ⟨s, hrun, hpause, hfeed⟩ := Machine.exists_reaches_of_runIf wdtSystem ReArmApart
    (fun s => s.pause = .paused ∧ s.feed = .idle) .armed
    (List.replicate 6 WdtLabel.httpd ++
      (List.replicate 5 (WdtLabel.main true) ++ List.replicate 5 WdtLabel.httpd))
    (by decide)
  exact ⟨s, hrun, hpause, (paused_is_off hrun).1.1 hpause hfeed⟩

/-- The main loop has read `s_wdt_paused` when the first pause begins, and re-arms itself once
that has unsubscribed it. -/
theorem paused_is_off_fails :
    ¬ ∀ s, wdtSystem.Reaches (fun _ _ => True) .armed s → PausedIsOff s := by
  intro hall
  obtain ⟨s, hrun, hpause, hfeed, hsub⟩ := Machine.exists_reaches_of_runIf wdtSystem
    (fun _ _ => True) (fun s => s.pause = .paused ∧ s.feed = .idle ∧ s.subscribed = true) .armed
    (.main true :: (List.replicate 4 WdtLabel.httpd ++
      (List.replicate 4 (WdtLabel.main true) ++ [WdtLabel.httpd])))
    (by decide)
  exact Bool.false_ne_true (((hall s hrun).1 hpause hfeed).symm.trans hsub)

end Cdc2Net.Main
