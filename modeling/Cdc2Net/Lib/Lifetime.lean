import Cdc2Net.Lib.Transition
import Mathlib.Data.List.Basic
import Mathlib.Data.List.Count

/-!
# Resources with users and an end

A resource is opened once, agents make calls on it, and one day it is retired (closed,
freed). A history is legal if every call is entered on a resource that is open at that time,
and no call is in progress on a resource when it is retired (`Legal`).

A program keeps its history legal if it keeps track of it: `Tracks` says that a state knows
which resources are open and which agent is in a call on which, and there is one lemma for
each kind of event (`Tracks.opened`, `.enter`, `.leave`, `.retired`). After a resource is
retired nobody enters it again (`Legal.not_entered`).
-/

set_option autoImplicit false

namespace Cdc2Net.Lib.Lifetime

open Cdc2Net.Lib.Transition

universe u v

/-- What happens to the resources `R` at the hands of the agents `A`. -/
inductive Event (A : Type u) (R : Type v) where
  | opened (r : R)
  | enter (a : A) (r : R)
  | leave (a : A) (r : R)
  | retired (r : R)
  deriving DecidableEq, Repr

variable {A : Type u} {R : Type v} {es pre post : List (Event A R)} {e : Event A R}
variable {a b : A} {r q : R}

variable [DecidableEq A] [DecidableEq R]

/-- Agent `a` is in a call on `r` after the history. -/
def InCall (es : List (Event A R)) (a : A) (r : R) : Prop :=
  es.count (.leave a r) < es.count (.enter a r)

/-- Every call is entered on a resource that is open, and a resource is retired when no call
on it is in progress. -/
structure Legal (es : List (Event A R)) : Prop where
  enters : ∀ pre a r post, es = pre ++ .enter a r :: post →
    .opened r ∈ pre ∧ .retired r ∉ pre
  retires : ∀ pre r post, es = pre ++ .retired r :: post → ∀ a, ¬ InCall pre a r

/-- The event is legal after the history. -/
def Event.LegalAfter (es : List (Event A R)) : Event A R → Prop
  | .enter _ r => .opened r ∈ es ∧ .retired r ∉ es
  | .retired r => ∀ a, ¬ InCall es a r
  | _ => True

theorem Legal.nil : Legal ([] : List (Event A R)) where
  enters pre a r post h := by simp at h
  retires pre r post h := by simp at h

/-- Legality, event by event. -/
theorem legal_concat : Legal (es ++ [e]) ↔ Legal es ∧ e.LegalAfter es := by
  constructor
  · intro h
    refine ⟨⟨fun pre a r post hs => ?_, fun pre r post hs => ?_⟩, ?_⟩
    · exact h.enters pre a r (post ++ [e]) (by simp [hs])
    · exact h.retires pre r (post ++ [e]) (by simp [hs])
    · cases e with
      | opened r => trivial
      | enter a r => exact h.enters es a r [] rfl
      | leave a r => trivial
      | retired r => exact h.retires es r [] rfl
  · rintro ⟨h, he⟩
    refine ⟨fun pre a r post hs => ?_, fun pre r post hs => ?_⟩
    · rcases split_concat hs with ⟨post', hs'⟩ | ⟨rfl, rfl⟩
      · exact h.enters pre a r post' hs'
      · exact he
    · rcases split_concat hs with ⟨post', hs'⟩ | ⟨rfl, rfl⟩
      · exact h.retires pre r post' hs'
      · exact he

/-- A retired resource is not entered again. -/
theorem Legal.not_entered (h : Legal es) (hs : es = pre ++ Event.retired r :: post) :
    .enter a r ∉ post := by
  intro hmem
  obtain ⟨mid, post', rfl⟩ := List.append_of_mem hmem
  refine (h.enters (pre ++ Event.retired r :: mid) a r post' (by simp [hs])).2 ?_
  simp

/-! ## Keeping track -/

/-- What a program knows of its resources: which have been opened, which retired, and the
call each agent is in. -/
structure Usage (A : Type u) (R : Type v) where
  opened : R → Prop
  retired : R → Prop
  inside : A → R → Prop

/-- The history is legal, and the program knows it. -/
structure Tracks (es : List (Event A R)) (u : Usage A R) : Prop where
  legal : Legal es
  opened : ∀ r, .opened r ∈ es ↔ u.opened r
  retired : ∀ r, .retired r ∈ es ↔ u.retired r
  /-- A call in progress has been entered once more than left, any other as often. -/
  inside : ∀ a r, u.inside a r ∧ es.count (.enter a r) = es.count (.leave a r) + 1 ∨
    ¬ u.inside a r ∧ es.count (.enter a r) = es.count (.leave a r)

variable {u w : Usage A R}

theorem Tracks.inCall_iff (h : Tracks es u) : InCall es a r ↔ u.inside a r := by
  unfold InCall
  rcases h.inside a r with ⟨hin, hc⟩ | ⟨hin, hc⟩
  · exact iff_of_true (by omega) hin
  · exact iff_of_false (by omega) hin

/-- A history with nothing in it. -/
theorem Tracks.nil (ho : ∀ r, ¬ u.opened r) (hr : ∀ r, ¬ u.retired r)
    (hi : ∀ a r, ¬ u.inside a r) : Tracks [] u where
  legal := .nil
  opened r := iff_of_false (by simp) (ho r)
  retired r := iff_of_false (by simp) (hr r)
  inside a r := Or.inr ⟨hi a r, rfl⟩

/-- The same history, with the knowledge put in other words. -/
theorem Tracks.congr (h : Tracks es u) (ho : ∀ r, w.opened r ↔ u.opened r)
    (hr : ∀ r, w.retired r ↔ u.retired r) (hi : ∀ a r, w.inside a r ↔ u.inside a r) :
    Tracks es w where
  legal := h.legal
  opened r := (h.opened r).trans (ho r).symm
  retired r := (h.retired r).trans (hr r).symm
  inside a r := by simpa only [hi a r] using h.inside a r

theorem Tracks.openedStep (h : Tracks es u) (ho : ∀ q, w.opened q ↔ u.opened q ∨ q = r)
    (hr : ∀ q, w.retired q ↔ u.retired q) (hi : ∀ a q, w.inside a q ↔ u.inside a q) :
    Tracks (es ++ [Event.opened r]) w where
  legal := legal_concat.2 ⟨h.legal, trivial⟩
  opened q := by simp [h.opened q, ho q]
  retired q := by simp [h.retired q, hr q]
  inside a q := by simpa [hi a q] using h.inside a q

theorem Tracks.enterStep (h : Tracks es u) (hopen : u.opened r) (hlive : ¬ u.retired r)
    (hout : ¬ u.inside a r) (ho : ∀ q, w.opened q ↔ u.opened q)
    (hr : ∀ q, w.retired q ↔ u.retired q)
    (hi : ∀ b q, w.inside b q ↔ u.inside b q ∨ b = a ∧ q = r) :
    Tracks (es ++ [Event.enter a r]) w where
  legal := legal_concat.2 ⟨h.legal, (h.opened r).2 hopen, fun hm => hlive ((h.retired r).1 hm)⟩
  opened q := by simp [h.opened q, ho q]
  retired q := by simp [h.retired q, hr q]
  inside b q := by
    by_cases hq : b = a ∧ q = r
    · obtain ⟨rfl, rfl⟩ := hq
      have hin := (h.inside b q).resolve_left fun hx => hout hx.1
      exact Or.inl ⟨(hi b q).2 (Or.inr ⟨rfl, rfl⟩), by simp [hin.2]⟩
    · have hne : (Event.enter a r : Event A R) ≠ .enter b q := by
        rintro heq
        cases heq
        exact hq ⟨rfl, rfl⟩
      simpa [hi b q, hq, List.count_singleton, hne] using h.inside b q

theorem Tracks.leaveStep (h : Tracks es u) (hin : u.inside a r)
    (ho : ∀ q, w.opened q ↔ u.opened q) (hr : ∀ q, w.retired q ↔ u.retired q)
    (hi : ∀ b q, w.inside b q ↔ u.inside b q ∧ ¬ (b = a ∧ q = r)) :
    Tracks (es ++ [Event.leave a r]) w where
  legal := legal_concat.2 ⟨h.legal, trivial⟩
  opened q := by simp [h.opened q, ho q]
  retired q := by simp [h.retired q, hr q]
  inside b q := by
    by_cases hq : b = a ∧ q = r
    · obtain ⟨rfl, rfl⟩ := hq
      have hc := (h.inside b q).resolve_right fun hx => hx.1 hin
      exact Or.inr ⟨fun hw => ((hi b q).1 hw).2 ⟨rfl, rfl⟩, by simp [hc.2]⟩
    · have hne : (Event.leave a r : Event A R) ≠ .leave b q := by
        rintro heq
        cases heq
        exact hq ⟨rfl, rfl⟩
      simpa [hi b q, hq, List.count_singleton, hne] using h.inside b q

theorem Tracks.retiredStep (h : Tracks es u) (hout : ∀ a, ¬ u.inside a r)
    (ho : ∀ q, w.opened q ↔ u.opened q) (hr : ∀ q, w.retired q ↔ u.retired q ∨ q = r)
    (hi : ∀ b q, w.inside b q ↔ u.inside b q) : Tracks (es ++ [Event.retired r]) w where
  legal := legal_concat.2 ⟨h.legal, fun a hc => hout a (h.inCall_iff.1 hc)⟩
  opened q := by simp [h.opened q, ho q]
  retired q := by simp [h.retired q, hr q]
  inside b q := by simpa [hi b q] using h.inside b q

end Cdc2Net.Lib.Lifetime
