import Cdc2Net.Source.SerialCfg

/-!
# Line-coding sources and the bridge passthroughs

The RFC2217 codec of the TCP sink reaches the attached source through three
bridge calls. A source is anything with these three operations whose readback
follows its successful sets and ignores its failed ones; the two laws are fields
of `LineSource`, so that an implementation proves them once. `ρ` is what the
drivers below the source answer to one call.

The bridge may have no source attached. `bridged` lifts a source to that state:
it is `bridge_apply_line_coding`, `bridge_revert_line_coding` and
`bridge_get_line_coding` of `bridge.c`.
-/

set_option autoImplicit false

namespace Cdc2Net.Source

universe u v

/-- The line-coding operations of `struct source_ops`, with their laws. -/
structure LineSource (σ : Type u) (ρ : Type v) where
  setLineCoding : σ → ρ → LineCoding → EspErr × σ
  revertLineCoding : σ → ρ → σ
  getLineCoding : σ → LineCoding
  get_set_ok : ∀ s r lc, (setLineCoding s r lc).1 = .ok →
    getLineCoding (setLineCoding s r lc).2 = lc
  get_set_err : ∀ s r lc, (setLineCoding s r lc).1 ≠ .ok →
    getLineCoding (setLineCoding s r lc).2 = getLineCoding s

namespace LineSource

variable {σ : Type u} {ρ : Type v} (src : LineSource σ ρ)

/-- `bridge_apply_line_coding`. -/
def bridgeApplyLineCoding (s : Option σ) (r : ρ) (lc : LineCoding) : EspErr × Option σ :=
  match s with
  | none => (.invalidState, none)
  | some s => ((src.setLineCoding s r lc).1, some (src.setLineCoding s r lc).2)

/-- `bridge_revert_line_coding`. -/
def bridgeRevertLineCoding (s : Option σ) (r : ρ) : Option σ :=
  s.map fun s => src.revertLineCoding s r

/-- `bridge_get_line_coding`; without a source the caller's zeros stay. -/
def bridgeGetLineCoding (s : Option σ) : LineCoding :=
  (s.map src.getLineCoding).getD ⟨0, 0, 0, 0⟩

/-- The source as the bridge passes it on. -/
def bridged : LineSource (Option σ) ρ where
  setLineCoding := src.bridgeApplyLineCoding
  revertLineCoding := src.bridgeRevertLineCoding
  getLineCoding := src.bridgeGetLineCoding
  get_set_ok s r lc h := by
    cases s with
    | none => simp [bridgeApplyLineCoding] at h
    | some s => exact src.get_set_ok s r lc h
  get_set_err s r lc h := by
    cases s with
    | none => rfl
    | some s => exact src.get_set_err s r lc h

end LineSource

/-- A source whose drivers accept every line coding, reduced to its shadow. -/
def shadowSource : LineSource LineCoding Unit where
  setLineCoding _ _ lc := (.ok, lc)
  revertLineCoding s _ := s
  getLineCoding s := s
  get_set_ok _ _ _ _ := rfl
  get_set_err _ _ _ h := absurd rfl h

end Cdc2Net.Source
