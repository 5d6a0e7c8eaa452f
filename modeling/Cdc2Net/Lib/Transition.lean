import Mathlib.Logic.Relation

/-!
# Guarded step machines and their runs

A machine is a partial, executable step function: `step s l` is `none` when the
label `l` is not enabled in `s`. Runs are restricted by a predicate `ok` on the
state before a step and the step's label, so that one definition serves the
unrestricted runs (`ok` always true), the runs over a part of the labels, and
the runs in which a stated condition holds before every step.

`Reaches.invariant` is the induction principle used by every invariant proof;
`runIf` replays a concrete label list and `reaches_of_runIf` turns a successful
replay into reachability. `record` adds a history to a machine, for statements
about what happened during a run; it restricts no run (`Reaches.exists_record`).
-/

set_option autoImplicit false

namespace Cdc2Net.Lib.Transition

universe u v

/-- A partial step function on states `S` with labels `L`. -/
structure Machine (S : Type u) (L : Type v) where
  step : S → L → Option S

namespace Machine

variable {S : Type u} {L : Type v} (M : Machine S L)

/-- One step whose label is allowed by `ok` in the state it is taken from. -/
def StepIf (ok : S → L → Prop) (s t : S) : Prop := ∃ l, ok s l ∧ M.step s l = some t

/-- Reachability along steps allowed by `ok`. -/
abbrev Reaches (ok : S → L → Prop) : S → S → Prop := Relation.ReflTransGen (M.StepIf ok)

/-- Replay of a label list; a step that is disabled or not allowed stops it. -/
def runIf (ok : S → L → Prop) [∀ s, DecidablePred (ok s)] : S → List L → Option S
  | s, [] => some s
  | s, l :: ls => if ok s l then (M.step s l).bind fun t => runIf ok t ls else none

variable {M} {ok ok' : S → L → Prop} {s t : S}

/-- A predicate that holds at the start and is kept by every allowed step holds
at every state of the run. -/
theorem Reaches.invariant {I : S → Prop} (h : M.Reaches ok s t) (h0 : I s)
    (hstep : ∀ s l t, I s → ok s l → M.step s l = some t → I t) : I t := by
  induction h with
  | refl => exact h0
  | tail _ hst ih =>
    obtain ⟨l, hok, hl⟩ := hst
    exact hstep _ l _ ih hok hl

/-- A run allowed by `ok` is a run allowed by every weaker condition. -/
theorem Reaches.mono (hok : ∀ s l, ok s l → ok' s l) (h : M.Reaches ok s t) :
    M.Reaches ok' s t := by
  induction h with
  | refl => exact Relation.ReflTransGen.refl
  | tail _ hst ih =>
    obtain ⟨l, hl, hstep⟩ := hst
    exact ih.tail ⟨l, hok _ l hl, hstep⟩

/-- A successful replay is a run. -/
theorem reaches_of_runIf [∀ s, DecidablePred (ok s)] :
    ∀ (ls : List L) {s t : S}, M.runIf ok s ls = some t → M.Reaches ok s t
  | [], s, t, h => by
    rw [runIf, Option.some.injEq] at h
    exact h ▸ Relation.ReflTransGen.refl
  | l :: ls, s, t, h => by
    by_cases hl : ok s l
    · rw [runIf, if_pos hl, Option.bind_eq_some_iff] at h
      obtain ⟨r, hr, hrest⟩ := h
      exact Relation.ReflTransGen.head ⟨l, hl, hr⟩ (reaches_of_runIf ls hrest)
    · rw [runIf, if_neg hl] at h
      cases h

variable (M) (ok)

/-- A replay that ends in a state with `P` gives a reachable state with `P`. -/
theorem exists_reaches_of_runIf [∀ s, DecidablePred (ok s)] (P : S → Prop) [DecidablePred P]
    (s : S) (ls : List L) (h : (M.runIf ok s ls).any (fun t => decide (P t)) = true) :
    ∃ t, M.Reaches ok s t ∧ P t := by
  cases hrun : M.runIf ok s ls with
  | none => simp [hrun] at h
  | some t => exact ⟨t, reaches_of_runIf ls hrun, by simpa [hrun] using h⟩

/-! ## Histories -/

section Record

universe w

variable {E : Type w} (emit : S → L → List E)

/-- The machine `M` with a history: every step appends what `emit` shows of it. -/
def record : Machine (S × List E) L where
  step p l := (M.step p.1 l).map fun t => (t, p.2 ++ emit p.1 l)

variable {M} {emit} {ok : S → L → Prop} {p q : S × List E}

theorem record_step {l : L} (h : (M.record emit).step p l = some q) :
    M.step p.1 l = some q.1 ∧ q.2 = p.2 ++ emit p.1 l := by
  obtain ⟨t, ht, rfl⟩ := Option.map_eq_some_iff.1 h
  exact ⟨ht, rfl⟩

/-- A recorded run is a run. -/
theorem Reaches.of_record (ok : S → L → Prop)
    (h : (M.record emit).Reaches (fun p l => ok p.1 l) p q) : M.Reaches ok p.1 q.1 := by
  induction h with
  | refl => exact Relation.ReflTransGen.refl
  | tail _ hst ih =>
    obtain ⟨l, hl, hstep⟩ := hst
    exact ih.tail ⟨l, hl, (record_step hstep).1⟩

/-- Every run can be recorded. -/
theorem Reaches.exists_record {s t : S} (h : M.Reaches ok s t) (hist : List E) :
    ∃ hist', (M.record emit).Reaches (fun p l => ok p.1 l) (s, hist) (t, hist') := by
  induction h with
  | refl => exact ⟨hist, Relation.ReflTransGen.refl⟩
  | @tail r t _ hst ih =>
    obtain ⟨hist', hrun⟩ := ih
    obtain ⟨l, hl, hstep⟩ := hst
    exact ⟨hist' ++ emit r l, hrun.tail ⟨l, hl, by simp [record, hstep]⟩⟩

end Record

end Machine

/-- A split of a history with a last event is a split before it, or at it. -/
theorem split_concat {E : Type u} {es pre post : List E} {e f : E}
    (h : es ++ [e] = pre ++ f :: post) :
    (∃ post', es = pre ++ f :: post') ∨ es = pre ∧ e = f := by
  rcases List.eq_nil_or_concat post with rfl | ⟨post', g, rfl⟩
  · obtain ⟨h1, h2⟩ := List.append_inj' h rfl
    exact Or.inr ⟨h1, by simpa using h2⟩
  · rw [List.concat_eq_append, ← List.cons_append, ← List.append_assoc] at h
    exact Or.inl ⟨post', (List.append_inj' h rfl).1⟩

/-- Every event of a history satisfies `P` with what was before it. -/
def EachAfter {E : Type u} (P : List E → E → Prop) (es : List E) : Prop :=
  ∀ pre e post, es = pre ++ e :: post → P pre e

theorem eachAfter_nil {E : Type u} {P : List E → E → Prop} : EachAfter P [] := by
  intro pre e post h
  simp at h

theorem eachAfter_concat {E : Type u} {P : List E → E → Prop} {es : List E} {e : E} :
    EachAfter P (es ++ [e]) ↔ EachAfter P es ∧ P es e := by
  constructor
  · intro h
    exact ⟨fun pre f post hs => h pre f (post ++ [e]) (by simp [hs]), h es e [] rfl⟩
  · rintro ⟨h, he⟩ pre f post hs
    rcases split_concat hs with ⟨post', hs'⟩ | ⟨rfl, rfl⟩
    · exact h pre f post' hs'
    · exact he

end Cdc2Net.Lib.Transition
