import Mathlib.Logic.Function.Basic
import Mathlib.Data.List.Nodup

/-!
# Recycled handles

A handle (a descriptor, an index, a slot number) names a resource while the
resource is open, and may name another one right after it has been closed.
Resources are numbered in the order they are opened, so a number is never used
twice. An event is legal if the handle names the resource that the program means:
`run` replays a history and stops at the first event that is not.

A legal history closes no resource twice, a closed resource stays closed, and
every opened one is closed or open under exactly one handle (`run_inv`).
-/

set_option autoImplicit false

namespace Cdc2Net.Lib.Handle

universe u

variable {H : Type u}

/-- What happens to a handle: it gets the new resource `r`, it is used for `r`, it
is closed as `r`. -/
inductive Event (H : Type u) where
  | opened (h : H) (r : Nat)
  | used (h : H) (r : Nat)
  | closed (h : H) (r : Nat)
  deriving DecidableEq, Repr

/-- The resource an event closes. -/
def Event.closes : Event H → Option Nat
  | .closed _ r => some r
  | _ => none

/-- The resources closed in a history, in order. -/
def closes (es : List (Event H)) : List Nat := es.filterMap Event.closes

/-- The resource each handle names, and the number of the next one. -/
@[ext] structure Table (H : Type u) where
  names : H → Option Nat
  next : Nat

/-- Nothing has been opened. -/
def Table.empty : Table H := ⟨fun _ => none, 0⟩

namespace Table

/-- What a legal history leaves. -/
structure Inv (t : Table H) (es : List (Event H)) : Prop where
  lt_next : ∀ h r, t.names h = some r → r < t.next
  unique : ∀ h h' r, t.names h = some r → t.names h' = some r → h = h'
  gone : ∀ r ∈ closes es, r < t.next ∧ ∀ h, t.names h ≠ some r
  once : (closes es).Nodup
  kept : ∀ r < t.next, r ∈ closes es ∨ ∃ h, t.names h = some r

theorem Inv.empty : Inv (Table.empty : Table H) [] where
  lt_next _ _ h := by cases h
  unique _ _ _ h := by cases h
  gone r h := by cases h
  once := List.nodup_nil
  kept r h := absurd h (Nat.not_lt_zero r)

variable [DecidableEq H]

/-- The effect of an event, `none` if it is not legal. -/
def step (t : Table H) : Event H → Option (Table H)
  | .opened h r =>
    if t.names h = none ∧ r = t.next then
      some ⟨Function.update t.names h (some r), t.next + 1⟩
    else none
  | .used h r => if t.names h = some r then some t else none
  | .closed h r =>
    if t.names h = some r then some { t with names := Function.update t.names h none } else none

/-- Replay of a history. -/
def run (t : Table H) : List (Event H) → Option (Table H)
  | [] => some t
  | e :: es => (t.step e).bind fun s => run s es

variable {t t' : Table H} {e : Event H} {es fs : List (Event H)} {h : H} {r : Nat}

@[simp] theorem run_nil : t.run [] = some t := rfl

theorem run_append : t.run (es ++ fs) = (t.run es).bind fun s => s.run fs := by
  induction es generalizing t with
  | nil => rfl
  | cons e es ih =>
    rw [List.cons_append, run, run]
    cases t.step e with
    | none => rfl
    | some s => exact ih

/-- A history of legal uses changes nothing. -/
theorem run_uses (huses : ∀ e ∈ es, ∃ h r, e = .used h r ∧ t.names h = some r) :
    t.run es = some t := by
  induction es with
  | nil => rfl
  | cons e es ih =>
    obtain ⟨h, r, rfl, hr⟩ := huses e List.mem_cons_self
    rw [run, step, if_pos hr, Option.bind_some]
    exact ih fun e he => huses e (List.mem_cons_of_mem _ he)

/-- Every event of a legal history is legal at its time. -/
theorem run_middle (hrun : t.run (es ++ e :: fs) = some t') :
    ∃ s s', t.run es = some s ∧ s.step e = some s' := by
  rw [run_append] at hrun
  obtain ⟨s, hs, hrest⟩ := Option.bind_eq_some_iff.1 hrun
  obtain ⟨s', hs', -⟩ := Option.bind_eq_some_iff.1 hrest
  exact ⟨s, s', hs, hs'⟩

/-- A handle is used only for the resource it names. -/
theorem step_used (hstep : t.step (.used h r) = some t') : t.names h = some r := by
  by_contra hne
  rw [step, if_neg hne] at hstep
  cases hstep

/-- A handle is closed only as the resource it names. -/
theorem step_closed (hstep : t.step (.closed h r) = some t') : t.names h = some r := by
  by_contra hne
  rw [step, if_neg hne] at hstep
  cases hstep

theorem Inv.opened (hi : Inv t es) (hfree : t.names h = none) :
    Inv ⟨Function.update t.names h (some t.next), t.next + 1⟩ (es ++ [Event.opened h t.next]) := by
  have hcloses : closes (es ++ [Event.opened h t.next]) = closes es := by
    simp [closes, Event.closes]
  have hold : ∀ h' r, Function.update t.names h (some t.next) h' = some r →
      (h' = h ∧ r = t.next) ∨ (h' ≠ h ∧ t.names h' = some r) := by
    intro h' r hr
    rcases eq_or_ne h' h with rfl | hne
    · rw [Function.update_self] at hr
      exact Or.inl ⟨rfl, (Option.some.inj hr).symm⟩
    · rw [Function.update_of_ne hne] at hr
      exact Or.inr ⟨hne, hr⟩
  refine ⟨?_, ?_, ?_, hcloses ▸ hi.once, ?_⟩
  · -- `lt_next`
    intro h' r hr
    rcases hold h' r hr with ⟨-, rfl⟩ | ⟨-, hr⟩
    · exact Nat.lt_succ_self _
    · exact Nat.lt_succ_of_lt (hi.lt_next h' r hr)
  · -- `unique`
    intro h₁ h₂ r h₁r h₂r
    rcases hold h₁ r h₁r with ⟨rfl, rfl⟩ | ⟨-, hr₁⟩
    · rcases hold h₂ _ h₂r with ⟨rfl, -⟩ | ⟨-, hr₂⟩
      · rfl
      · exact absurd (hi.lt_next h₂ _ hr₂) (Nat.lt_irrefl _)
    · rcases hold h₂ r h₂r with ⟨-, rfl⟩ | ⟨-, hr₂⟩
      · exact absurd (hi.lt_next h₁ _ hr₁) (Nat.lt_irrefl _)
      · exact hi.unique h₁ h₂ r hr₁ hr₂
  · -- `gone`
    intro r hr
    rw [hcloses] at hr
    obtain ⟨hlt, hgone⟩ := hi.gone r hr
    refine ⟨Nat.lt_succ_of_lt hlt, fun h' hr' => ?_⟩
    rcases hold h' r hr' with ⟨-, rfl⟩ | ⟨-, hr'⟩
    · exact Nat.lt_irrefl _ hlt
    · exact hgone h' hr'
  · -- `kept`
    intro r hr
    rw [hcloses]
    rcases Nat.lt_succ_iff_lt_or_eq.1 hr with hlt | rfl
    · -- an older resource keeps its handle, which is not the free one
      refine (hi.kept r hlt).imp_right ?_
      rintro ⟨h', hr'⟩
      have hne : h' ≠ h := by
        rintro rfl
        rw [hfree] at hr'
        cases hr'
      exact ⟨h', (Function.update_of_ne hne _ _).trans hr'⟩
    · exact Or.inr ⟨h, Function.update_self h _ _⟩

theorem Inv.closed (hi : Inv t es) (hr : t.names h = some r) :
    Inv { t with names := Function.update t.names h none } (es ++ [Event.closed h r]) := by
  have hcloses : closes (es ++ [Event.closed h r]) = closes es ++ [r] := by
    simp [closes, Event.closes]
  have hold : ∀ h' r', Function.update t.names h none h' = some r' →
      h' ≠ h ∧ t.names h' = some r' := by
    intro h' r' hr'
    rcases eq_or_ne h' h with rfl | hne
    · rw [Function.update_self] at hr'
      cases hr'
    · rw [Function.update_of_ne hne] at hr'
      exact ⟨hne, hr'⟩
  refine ⟨?_, ?_, ?_, ?_, ?_⟩
  · -- `lt_next`
    exact fun h' r' hr' => hi.lt_next h' r' (hold h' r' hr').2
  · -- `unique`
    exact fun h₁ h₂ r' h₁r h₂r => hi.unique h₁ h₂ r' (hold h₁ r' h₁r).2 (hold h₂ r' h₂r).2
  · -- `gone`
    intro r' hmem
    rw [hcloses, List.mem_append, List.mem_singleton] at hmem
    rcases hmem with hmem | rfl
    · obtain ⟨hlt, hgone⟩ := hi.gone r' hmem
      exact ⟨hlt, fun h' hr' => hgone h' (hold h' r' hr').2⟩
    · refine ⟨hi.lt_next h r' hr, fun h' hr' => ?_⟩
      obtain ⟨hne, hr'⟩ := hold h' r' hr'
      exact hne (hi.unique h' h r' hr' hr)
  · -- `once`: a resource that is open has not been closed before
    rw [hcloses]
    refine List.Nodup.append hi.once (List.nodup_singleton r) ?_
    intro r' hmem hsingle
    rw [List.mem_singleton.1 hsingle] at hmem
    exact (hi.gone r hmem).2 h hr
  · -- `kept`
    intro r' hlt
    rw [hcloses]
    rcases hi.kept r' hlt with hmem | ⟨h', hr'⟩
    · exact Or.inl (List.mem_append_left _ hmem)
    · rcases eq_or_ne h' h with rfl | hne
      · -- it is the one closed now
        rw [hr] at hr'
        cases hr'
        exact Or.inl (List.mem_append_right _ (List.mem_singleton_self r))
      · exact Or.inr ⟨h', (Function.update_of_ne hne _ _).trans hr'⟩

theorem Inv.step (hi : Inv t es) (hstep : t.step e = some t') : Inv t' (es ++ [e]) := by
  cases e with
  | opened h r =>
    rw [Table.step] at hstep
    split at hstep
    · next hg =>
      obtain ⟨hfree, rfl⟩ := hg
      cases hstep
      exact hi.opened hfree
    · cases hstep
  | used h r =>
    rw [Table.step] at hstep
    split at hstep
    · cases hstep
      have hcloses : closes (es ++ [Event.used h r]) = closes es := by simp [closes, Event.closes]
      exact ⟨hi.lt_next, hi.unique, hcloses ▸ hi.gone, hcloses ▸ hi.once, hcloses ▸ hi.kept⟩
    · cases hstep
  | closed h r =>
    rw [Table.step] at hstep
    split at hstep
    · next hr =>
      cases hstep
      exact hi.closed hr
    · cases hstep

theorem Inv.run (hi : Inv t es) (hrun : t.run fs = some t') : Inv t' (es ++ fs) := by
  induction fs generalizing t es with
  | nil =>
    cases hrun
    rwa [List.append_nil]
  | cons f fs ih =>
    obtain ⟨s, hs, hrest⟩ := Option.bind_eq_some_iff.1 hrun
    rw [List.append_cons]
    exact ih (hi.step hs) hrest

/-- A legal history closes nothing twice, what is closed stays closed, and what was
opened is closed or open. -/
theorem run_inv (hrun : Table.empty.run es = some t) : Inv t es := by
  simpa using Inv.empty.run hrun

end Table

end Cdc2Net.Lib.Handle
