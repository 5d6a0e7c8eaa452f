import Cdc2Net.Lib.Transition
import Mathlib.Data.List.Nodup
import Mathlib.Data.Nat.Bitwise
import Mathlib.Logic.Function.Basic

/-!
# Device addresses in `usbh_core.c`

`usbh_enumerate` takes an address from the table of the bus and gives it to the device with
SET_ADDRESS. The port has it as `dev_addr` once that transfer was answered, and
`usbh_hubport_release` gives back what the port has. The hub thread does both, for one port after
the other. `usbh_allocate_devaddr` goes on from the last address it gave, round from 0x7f to 2;
`__usbh_free_devaddr` takes back all but 0x7f.

`address_unique`: no two ports have one address, and the table has the addresses of the ports and
those that were lost. `pool_dry`: when all but the last one are lost, no device gets an address any
more, and no enumeration reports it.
-/

set_option autoImplicit false

namespace Cdc2Net.Source.DevAddress

open Cdc2Net.Lib.Transition

/-! ## The table -/

/-- `struct usbh_devaddr_map` -/
structure DevaddrMap where
  last : Nat
  alloctab : Nat → BitVec 32

namespace DevaddrMap

/-- `1ul << bitno` -/
def mask (devaddr : Nat) : BitVec 32 := 1#32 <<< (devaddr &&& 0x1f)

/-- Whether the bit of the address is set. -/
def taken (t : DevaddrMap) (devaddr : Nat) : Bool :=
  t.alloctab (devaddr >>> 5) &&& mask devaddr != 0#32

def setEntry (t : DevaddrMap) (index : Nat) (v : BitVec 32) : DevaddrMap :=
  { t with alloctab := Function.update t.alloctab index v }

def mark (t : DevaddrMap) (devaddr : Nat) : DevaddrMap :=
  t.setEntry (devaddr >>> 5) (t.alloctab (devaddr >>> 5) ||| mask devaddr)

def clear (t : DevaddrMap) (devaddr : Nat) : DevaddrMap :=
  t.setEntry (devaddr >>> 5) (t.alloctab (devaddr >>> 5) &&& ~~~ mask devaddr)

end DevaddrMap

/-- `devaddr++`, and from 0x7f to 2. -/
def nextDevaddr (devaddr : Nat) : Nat := if 0x7f < devaddr + 1 then 2 else devaddr + 1

/-- The loop of `usbh_allocate_devaddr`. `fuel` bounds the number of passes. -/
def allocateLoop (t : DevaddrMap) : Nat → Nat → Option (Nat × DevaddrMap)
  | 0, _ => none
  | fuel + 1, devaddr =>
    if nextDevaddr devaddr = t.last then none
    else if t.taken (nextDevaddr devaddr) then allocateLoop t fuel (nextDevaddr devaddr)
    else some (nextDevaddr devaddr, { t.mark (nextDevaddr devaddr) with
      last := nextDevaddr devaddr })

/-- `none` is `-USB_ERR_NOMEM`. -/
def usbhAllocateDevaddr (t : DevaddrMap) : Option (Nat × DevaddrMap) := allocateLoop t 126 t.last

/-- `__usbh_free_devaddr` -/
def usbhFreeDevaddr (t : DevaddrMap) (devaddr : Nat) : DevaddrMap :=
  if 0 < devaddr ∧ devaddr < 0x7f then
    if t.taken devaddr then t.clear devaddr else t
  else t

section Table

variable {t t' : DevaddrMap} {a b fuel k : Nat}

theorem mask_eq (a : Nat) : DevaddrMap.mask a = BitVec.twoPow 32 (a % 32) := by
  have h : a &&& 0x1f = a % 32 := Nat.and_two_pow_sub_one_eq_mod a 5
  rw [DevaddrMap.mask, h, BitVec.twoPow_eq]

theorem taken_eq (t : DevaddrMap) (a : Nat) :
    t.taken a = (t.alloctab (a / 32)).getLsbD (a % 32) := by
  have hs : a >>> 5 = a / 32 := Nat.shiftRight_eq_div_pow a 5
  have hlt : a % 32 < 32 := Nat.mod_lt _ (by decide)
  rw [DevaddrMap.taken, hs, mask_eq, BitVec.and_twoPow]
  cases (t.alloctab (a / 32)).getLsbD (a % 32) with
  | true =>
    have hne : BitVec.twoPow 32 (a % 32) ≠ 0#32 := by
      intro h
      have := congrArg (fun x => x.getLsbD (a % 32)) h
      simp [hlt] at this
    simp [hne]
  | false => simp

theorem taken_setEntry (t : DevaddrMap) (a b : Nat) (v : BitVec 32) :
    (t.setEntry (a >>> 5) v).taken b =
      if b / 32 = a / 32 then v.getLsbD (b % 32) else t.taken b := by
  have hs : a >>> 5 = a / 32 := Nat.shiftRight_eq_div_pow a 5
  have hset : (t.setEntry (a >>> 5) v).alloctab = Function.update t.alloctab (a / 32) v := by
    rw [← hs]
    rfl
  rw [taken_eq, taken_eq, hset]
  by_cases h : b / 32 = a / 32
  · rw [if_pos h, h, Function.update_self]
  · rw [if_neg h, Function.update_of_ne h]

@[simp] theorem taken_mark (t : DevaddrMap) (a b : Nat) :
    (t.mark a).taken b = (b == a || t.taken b) := by
  have hs : a >>> 5 = a / 32 := Nat.shiftRight_eq_div_pow a 5
  have hb : b % 32 < 32 := Nat.mod_lt _ (by decide)
  rw [DevaddrMap.mark, taken_setEntry]
  by_cases h : b / 32 = a / 32
  · rw [if_pos h, hs, BitVec.getLsbD_or, mask_eq, BitVec.getLsbD_twoPow, ← h, ← taken_eq]
    by_cases hab : b = a
    · subst hab
      simp [hb]
    · have hmod : a % 32 ≠ b % 32 := fun hm => hab (by omega)
      simp [hab, hmod]
  · have hab : b ≠ a := fun hab => h (hab ▸ rfl)
    rw [if_neg h]
    simp [hab]

@[simp] theorem taken_clear (t : DevaddrMap) (a b : Nat) :
    (t.clear a).taken b = (b != a && t.taken b) := by
  have hs : a >>> 5 = a / 32 := Nat.shiftRight_eq_div_pow a 5
  have hb : b % 32 < 32 := Nat.mod_lt _ (by decide)
  rw [DevaddrMap.clear, taken_setEntry]
  by_cases h : b / 32 = a / 32
  · rw [if_pos h, hs, BitVec.getLsbD_and, BitVec.getLsbD_not, mask_eq, BitVec.getLsbD_twoPow,
      ← h, ← taken_eq]
    by_cases hab : b = a
    · subst hab
      simp [hb]
    · have hmod : a % 32 ≠ b % 32 := fun hm => hab (by omega)
      simp [hab, hmod, hb]
  · have hab : b ≠ a := fun hab => h (hab ▸ rfl)
    rw [if_neg h]
    simp [hab]

theorem taken_free (t : DevaddrMap) (a b : Nat) :
    (usbhFreeDevaddr t a).taken b =
      if 0 < a ∧ a < 0x7f then b != a && t.taken b else t.taken b := by
  unfold usbhFreeDevaddr
  split
  · split
    · exact taken_clear t a b
    · by_cases hab : b = a
      · subst hab
        simp_all
      · simp [hab]
  · rfl

@[simp] theorem last_free (t : DevaddrMap) (a : Nat) : (usbhFreeDevaddr t a).last = t.last := by
  unfold usbhFreeDevaddr
  split
  · split <;> rfl
  · rfl

/-- The addresses in the order of the loop. -/
theorem nextDevaddr_ring (k : Nat) : nextDevaddr (2 + k % 126) = 2 + (k + 1) % 126 := by
  unfold nextDevaddr
  split <;> omega

theorem allocateLoop_sound (h : allocateLoop t fuel a = some (b, t')) :
    t.taken b = false ∧ b ≠ t.last ∧ t' = { t.mark b with last := b } ∧
      ((1 ≤ a ∧ a ≤ 0x7f) → 2 ≤ b ∧ b ≤ 0x7f) := by
  induction fuel generalizing a with
  | zero => cases h
  | succ fuel ih =>
    rw [allocateLoop] at h
    by_cases hl : nextDevaddr a = t.last
    · rw [if_pos hl] at h
      cases h
    · rw [if_neg hl] at h
      have hr : 1 ≤ a ∧ a ≤ 0x7f → 2 ≤ nextDevaddr a ∧ nextDevaddr a ≤ 0x7f := by
        intro ha
        unfold nextDevaddr
        split <;> omega
      by_cases ht : t.taken (nextDevaddr a) = true
      · rw [if_pos ht] at h
        obtain ⟨h1, h2, h3, h4⟩ := ih h
        exact ⟨h1, h2, h3, fun ha => h4 ⟨by have := hr ha; omega, (hr ha).2⟩⟩
      · rw [if_neg ht] at h
        obtain ⟨rfl, rfl⟩ := Prod.mk.inj (Option.some.inj h)
        exact ⟨Bool.not_eq_true _ ▸ ht, hl, rfl, hr⟩

/-- What the loop passes without coming to the last address is taken. -/
theorem allocateLoop_complete (h : allocateLoop t fuel (2 + k % 126) = none) {j : Nat}
    (hj : 0 < j) (hfuel : j ≤ fuel) (hlast : ∀ i, 0 < i → i ≤ j → 2 + (k + i) % 126 ≠ t.last) :
    t.taken (2 + (k + j) % 126) = true := by
  induction fuel generalizing k j with
  | zero => omega
  | succ fuel ih =>
    rw [allocateLoop, nextDevaddr_ring, if_neg (hlast 1 Nat.one_pos hj)] at h
    by_cases ht : t.taken (2 + (k + 1) % 126) = true
    · rw [if_pos ht] at h
      obtain ⟨j, rfl⟩ : ∃ j', j = j' + 1 := ⟨j - 1, by omega⟩
      by_cases hj0 : j = 0
      · rw [hj0]
        exact ht
      · have hlast' : ∀ i, 0 < i → i ≤ j → 2 + (k + 1 + i) % 126 ≠ t.last := by
          intro i _ hij
          have := hlast (1 + i) (by omega) (by omega)
          rwa [← Nat.add_assoc] at this
        have := ih h (j := j) (by omega) (by omega) hlast'
        rwa [Nat.add_assoc, Nat.add_comm 1 j] at this
    · rw [if_neg ht] at h
      cases h

/-- An allocation fails only when every address but the last one given is taken. -/
theorem allocate_none (hlast : 2 ≤ t.last ∧ t.last ≤ 0x7f) (h : usbhAllocateDevaddr t = none)
    (ha : 2 ≤ a ∧ a ≤ 0x7f) (hne : a ≠ t.last) : t.taken a = true := by
  have hstart : t.last = 2 + (t.last - 2) % 126 := by omega
  have hj : a = 2 + (t.last - 2 + (a + 126 - t.last) % 126) % 126 := by omega
  unfold usbhAllocateDevaddr at h
  rw [hstart] at h
  rw [hj]
  refine allocateLoop_complete h (by omega) (by omega) fun i hi hij => ?_
  omega

theorem allocate_sound (hlast : 2 ≤ t.last ∧ t.last ≤ 0x7f)
    (h : usbhAllocateDevaddr t = some (a, t')) :
    t.taken a = false ∧ a ≠ t.last ∧ t' = { t.mark a with last := a } ∧ 2 ≤ a ∧ a ≤ 0x7f := by
  obtain ⟨h1, h2, h3, h4⟩ := allocateLoop_sound h
  exact ⟨h1, h2, h3, h4 ⟨by omega, hlast.2⟩⟩

/-- With every address but the last one taken, there is none to give. -/
theorem allocate_eq_none (hlast : 2 ≤ t.last ∧ t.last ≤ 0x7f)
    (h : ∀ a, 2 ≤ a → a ≤ 0x7f → a ≠ t.last → t.taken a = true) :
    usbhAllocateDevaddr t = none := by
  cases hal : usbhAllocateDevaddr t with
  | none => rfl
  | some p =>
    obtain ⟨a, t'⟩ := p
    obtain ⟨h1, h2, -, h4, h5⟩ := allocate_sound hlast hal
    rw [h a h4 h5 h2] at h1
    cases h1

end Table

/-! ## The ports of a bus -/

/-- What the addresses depend on of a `struct usbh_hubport`. -/
structure Port where
  connected : Bool
  devAddr : Nat
  deriving DecidableEq, Repr

/-- The ports of all hubs of the bus. -/
structure Bus where
  devgen : DevaddrMap
  port : Nat → Port

/-- What `usbh_bus_init` leaves, without a device. -/
def Bus.init : Bus := ⟨⟨0x7f, fun _ => 0#32⟩, fun _ => ⟨false, 0⟩⟩

/-- How far a device answers. -/
inductive Answers where
  /-- Not to the first request for its descriptor. -/
  | noDescriptor
  /-- Not to SET_ADDRESS. -/
  | noAddress
  /-- Not to a request after it, or its class driver refuses it. -/
  | partly
  | fully
  deriving DecidableEq, Repr

def errIo : Int := -12

namespace Bus

def setPort (b : Bus) (p : Nat) (v : Port) : Bus := { b with port := Function.update b.port p v }

/-- `usbh_hubport_release` -/
def release (b : Bus) (p : Nat) : Bus :=
  if (b.port p).connected then
    { b.setPort p { b.port p with connected := false } with
      devgen := if 0 < (b.port p).devAddr then usbhFreeDevaddr b.devgen (b.port p).devAddr
        else b.devgen }
  else b

/-- `usbh_enumerate` for a port whose `dev_addr` is 0, with what it returns. -/
def enumerate (b : Bus) (p : Nat) (r : Answers) : Bus × Int :=
  if r = .noDescriptor then (b, errIo)
  else
    match usbhAllocateDevaddr b.devgen with
    -- `ret` is still that of the descriptor that was read before
    | none => (b, 0)
    | some (a, t) =>
      if r = .noAddress then ({ b with devgen := t }, errIo)
      else ({ b with devgen := t }.setPort p { b.port p with devAddr := a },
        if r = .partly then errIo else 0)

/-- The bus with a new device on port `p`. -/
def attached (b : Bus) (p : Nat) : Bus := (b.release p).setPort p ⟨true, 0⟩

/-- A port whose enumeration reports an error is released. -/
def settle (e : Bus × Int) (p : Nat) : Bus := if e.2 < 0 then e.1.release p else e.1

/-- `usbh_hub_events` with a device on port `p`. -/
def connect (b : Bus) (p : Nat) (r : Answers) : Bus :=
  settle ((b.attached p).enumerate p r) p

end Bus

/-- What the hub thread does with a port. -/
inductive BusLabel where
  | connect (p : Nat) (r : Answers)
  | disconnect (p : Nat)
  deriving DecidableEq, Repr

def busMachine : Machine Bus BusLabel where
  step b l := some <| match l with
    | .connect p r => b.connect p r
    | .disconnect p => b.release p

/-! ## Addresses that are lost -/

namespace Bus

/-- A port that is released with 0x7f keeps it from the others. -/
def lostByRelease (b : Bus) (p : Nat) : List Nat :=
  if (b.port p).connected ∧ (b.port p).devAddr = 0x7f then [0x7f] else []

/-- What an enumeration with address `a` loses: an address that was not accepted is nobody's. -/
def lostByAnswers (a : Nat) : Answers → List Nat
  | .noAddress => [a]
  | .partly => if a = 0x7f then [0x7f] else []
  | .noDescriptor | .fully => []

def lostByEnumerate (b : Bus) (r : Answers) : List Nat :=
  match usbhAllocateDevaddr b.devgen with
  | none => []
  | some (a, _) => lostByAnswers a r

/-- The addresses that a step loses. -/
def lost (b : Bus) : BusLabel → List Nat
  | .connect p r => b.lostByRelease p ++ (b.release p).lostByEnumerate r
  | .disconnect p => b.lostByRelease p

/-- Port `p` has the address. -/
def Has (b : Bus) (p a : Nat) : Prop := (b.port p).connected = true ∧ (b.port p).devAddr = a

/-- The table has the addresses of the ports, each of one port, and those that were lost. -/
structure Inv (b : Bus) (hist : List Nat) : Prop where
  last : 2 ≤ b.devgen.last ∧ b.devgen.last ≤ 0x7f
  taken : ∀ a, 0 < a → (b.devgen.taken a = true ↔ (∃ p, b.Has p a) ∨ a ∈ hist)
  range : ∀ a, 0 < a → b.devgen.taken a = true → 2 ≤ a ∧ a ≤ 0x7f
  unique : ∀ a, 0 < a → ∀ p q, b.Has p a → b.Has q a → p = q
  fresh : ∀ a p, b.Has p a → a ∉ hist
  pos : ∀ a ∈ hist, 0 < a
  nodup : hist.Nodup

end Bus

section Invariant

variable {b : Bus} {hist : List Nat} {p q a : Nat} {r : Answers} {t : DevaddrMap}

theorem has_setPort {v : Port} :
    (b.setPort p v).Has q a ↔ if q = p then v.connected = true ∧ v.devAddr = a else b.Has q a := by
  unfold Bus.Has Bus.setPort
  by_cases h : q = p
  · subst h
    simp
  · simp [h]

theorem has_release : (b.release p).Has q a ↔ q ≠ p ∧ b.Has q a := by
  unfold Bus.release
  by_cases hc : (b.port p).connected = true
  · rw [if_pos hc]
    refine has_setPort.trans ?_
    by_cases hq : q = p
    · simp [hq]
    · simp [hq]
  · rw [if_neg hc]
    refine ⟨fun h => ⟨?_, h⟩, fun h => h.2⟩
    rintro rfl
    exact hc h.1

theorem taken_release (hc : (b.port p).connected = true) (a : Nat) :
    (b.release p).devgen.taken a =
      if 0 < (b.port p).devAddr ∧ (b.port p).devAddr < 0x7f then
        a != (b.port p).devAddr && b.devgen.taken a
      else b.devgen.taken a := by
  unfold Bus.release
  rw [if_pos hc]
  by_cases h0 : 0 < (b.port p).devAddr
  · simp only [if_pos h0]
    exact taken_free _ _ _
  · simp only [if_neg h0]
    rw [if_neg fun h => h0 h.1]

@[simp] theorem last_release (b : Bus) (p : Nat) : (b.release p).devgen.last = b.devgen.last := by
  unfold Bus.release
  split
  · show (if _ then usbhFreeDevaddr b.devgen _ else b.devgen).last = _
    split
    · exact last_free _ _
    · rfl
  · rfl

theorem Bus.Inv.release (h : b.Inv hist) (p : Nat) :
    (b.release p).Inv (hist ++ b.lostByRelease p) := by
  by_cases hc : (b.port p).connected = true
  case neg =>
    have hr : b.release p = b := if_neg hc
    have hl : b.lostByRelease p = [] := if_neg fun hh => hc hh.1
    rw [hr, hl, List.append_nil]
    exact h
  have hp : b.Has p (b.port p).devAddr := ⟨hc, rfl⟩
  -- `__usbh_free_devaddr` stops short of 0x7f, so this one alone is lost here
  have hmem : ∀ a, a ∈ b.lostByRelease p ↔ (b.port p).devAddr = 0x7f ∧ a = 0x7f := by
    intro a
    unfold Bus.lostByRelease
    by_cases h7 : (b.port p).devAddr = 0x7f
    · simp [hc, h7]
    · simp [h7]
  have hle : 0 < (b.port p).devAddr → (b.port p).devAddr ≤ 0x7f :=
    fun h0 => (h.range _ h0 ((h.taken _ h0).mpr (.inl ⟨p, hp⟩))).2
  refine ⟨by rw [last_release]; exact h.last, ?_, ?_, ?_, ?_, ?_, ?_⟩
  · intro a ha
    rw [taken_release hc, List.mem_append, hmem]
    by_cases hx : 0 < (b.port p).devAddr ∧ (b.port p).devAddr < 0x7f
    · -- the address goes back
      have h7 : ¬((b.port p).devAddr = 0x7f ∧ a = 0x7f) := fun hh => by omega
      rw [if_pos hx, Bool.and_eq_true, bne_iff_ne, h.taken a ha]
      simp only [has_release, h7, or_false]
      constructor
      · rintro ⟨hne, ⟨q, hq⟩ | hm⟩
        · refine .inl ⟨q, ?_, hq⟩
          rintro rfl
          exact hne hq.2.symm
        · exact .inr hm
      · rintro (⟨q, hqp, hq⟩ | hm)
        · refine ⟨?_, .inl ⟨q, hq⟩⟩
          rintro rfl
          exact hqp (h.unique _ ha q p hq hp)
        · refine ⟨?_, .inr hm⟩
          rintro rfl
          exact h.fresh _ p hp hm
    · -- the table stays as it is, and an address of the port is 0x7f
      rw [if_neg hx, h.taken a ha]
      simp only [has_release]
      constructor
      · rintro (⟨q, hq⟩ | hm)
        · by_cases hqp : q = p
          · subst hqp
            have ha' := hq.2
            have := hle (by omega)
            exact .inr (.inr ⟨by omega, by omega⟩)
          · exact .inl ⟨q, hqp, hq⟩
        · exact .inr (.inl hm)
      · rintro (⟨q, -, hq⟩ | hm | ⟨h7, rfl⟩)
        · exact .inl ⟨q, hq⟩
        · exact .inr hm
        · exact .inl ⟨p, hc, h7⟩
  · intro a ha ht
    rw [taken_release hc] at ht
    split at ht
    · exact h.range a ha (Bool.and_eq_true _ _ ▸ ht).2
    · exact h.range a ha ht
  · intro a ha q q' hq hq'
    exact h.unique a ha q q' (has_release.mp hq).2 (has_release.mp hq').2
  · intro a q hq hm
    obtain ⟨hqp, hq⟩ := has_release.mp hq
    rcases List.mem_append.mp hm with hm | hm
    · exact h.fresh a q hq hm
    · obtain ⟨h7, rfl⟩ := (hmem a).mp hm
      exact hqp (h.unique _ (by decide) q p hq ⟨hc, h7⟩)
  · intro a hm
    rcases List.mem_append.mp hm with hm | hm
    · exact h.pos a hm
    · obtain ⟨-, rfl⟩ := (hmem a).mp hm
      decide
  · refine List.nodup_append.mpr ⟨h.nodup, ?_, ?_⟩
    · unfold Bus.lostByRelease
      split
      · exact List.nodup_singleton _
      · exact List.nodup_nil
    · intro a ha a' ha' heq
      obtain ⟨h7, rfl⟩ := (hmem a').mp ha'
      exact h.fresh a p ⟨hc, h7.trans heq.symm⟩ ha

/-- A port without an address changes nothing. -/
theorem Bus.Inv.attach (h : b.Inv hist) (hp : ∀ a, ¬ b.Has p a) :
    (b.setPort p ⟨true, 0⟩).Inv hist := by
  have hhas : ∀ q a, 0 < a → ((b.setPort p ⟨true, 0⟩).Has q a ↔ b.Has q a) := by
    intro q a ha
    rw [has_setPort]
    by_cases hq : q = p
    · subst hq
      simp only [if_true, true_and]
      exact ⟨fun h0 => absurd h0 (Nat.ne_of_lt ha), fun hh => absurd hh (hp a)⟩
    · rw [if_neg hq]
  refine ⟨h.last, ?_, h.range, ?_, ?_, h.pos, h.nodup⟩
  · intro a ha
    refine (h.taken a ha).trans ?_
    simp only [hhas _ a ha]
  · intro a ha q q' hq hq'
    exact h.unique a ha q q' ((hhas q a ha).mp hq) ((hhas q' a ha).mp hq')
  · intro a q hq hm
    have ha := h.pos a hm
    exact h.fresh a q ((hhas q a ha).mp hq) hm

theorem taken_given (hal : usbhAllocateDevaddr b.devgen = some (a, t))
    (hlast : 2 ≤ b.devgen.last ∧ b.devgen.last ≤ 0x7f) (a' : Nat) :
    t.taken a' = (a' == a || b.devgen.taken a') := by
  obtain ⟨-, -, rfl, -⟩ := allocate_sound hlast hal
  exact taken_mark b.devgen a a'

/-- The address that is given is no port's, and none that was lost. -/
theorem Bus.Inv.given_fresh (h : b.Inv hist) (hal : usbhAllocateDevaddr b.devgen = some (a, t)) :
    (∀ q, ¬ b.Has q a) ∧ a ∉ hist := by
  obtain ⟨hfree, -, -, h2, -⟩ := allocate_sound h.last hal
  have hiff := h.taken a (by omega)
  -- the table would have it, but the allocation found its bit clear
  rw [hfree] at hiff
  constructor
  · intro q hq
    exact absurd (hiff.mpr (.inl ⟨q, hq⟩)) Bool.false_ne_true
  · intro hm
    exact absurd (hiff.mpr (.inr hm)) Bool.false_ne_true

theorem Bus.Inv.given_range (h : b.Inv hist) (hal : usbhAllocateDevaddr b.devgen = some (a, t))
    {a' : Nat} (ha' : 0 < a') (ht' : t.taken a' = true) : 2 ≤ a' ∧ a' ≤ 0x7f := by
  obtain ⟨-, -, -, h2, h7⟩ := allocate_sound h.last hal
  rw [taken_given hal h.last, Bool.or_eq_true, beq_iff_eq] at ht'
  rcases ht' with rfl | ht'
  · exact ⟨h2, h7⟩
  · exact h.range a' ha' ht'

/-- An address that the device did not accept stays in the table. -/
theorem Bus.Inv.refuse (h : b.Inv hist) (hal : usbhAllocateDevaddr b.devgen = some (a, t)) :
    ({ b with devgen := t } : Bus).Inv (hist ++ [a]) := by
  obtain ⟨-, -, ht, h2, h7⟩ := allocate_sound h.last hal
  obtain ⟨hnot, hmem⟩ := h.given_fresh hal
  have htaken := taken_given hal h.last
  refine ⟨?_, ?_, ?_, h.unique, ?_, ?_, ?_⟩
  · rw [ht]
    exact ⟨h2, h7⟩
  · intro a' ha'
    show t.taken a' = true ↔ _
    rw [htaken, Bool.or_eq_true, beq_iff_eq, h.taken a' ha', List.mem_append, List.mem_singleton,
      or_comm, or_assoc]
    rfl
  · exact fun a' ha' ht' => h.given_range hal ha' ht'
  · intro a' q hq hm
    rcases List.mem_append.mp hm with hm | hm
    · exact h.fresh a' q hq hm
    · exact hnot q (List.mem_singleton.mp hm ▸ hq)
  · intro a' hm
    rcases List.mem_append.mp hm with hm | hm
    · exact h.pos a' hm
    · exact List.mem_singleton.mp hm ▸ (by omega)
  · refine List.nodup_append.mpr ⟨h.nodup, List.nodup_singleton _, ?_⟩
    intro x hx y hy hxy
    exact hmem (List.mem_singleton.mp hy ▸ hxy ▸ hx)

/-- An address that the device accepted is that of its port. -/
theorem Bus.Inv.give (h : b.Inv hist) (hp : b.port p = ⟨true, 0⟩)
    (hal : usbhAllocateDevaddr b.devgen = some (a, t)) :
    (({ b with devgen := t } : Bus).setPort p ⟨true, a⟩).Inv hist := by
  obtain ⟨-, -, ht, h2, h7⟩ := allocate_sound h.last hal
  obtain ⟨hnot, hmem⟩ := h.given_fresh hal
  have htaken := taken_given hal h.last
  have hhas : ∀ q a', 0 < a' → ((({ b with devgen := t } : Bus).setPort p ⟨true, a⟩).Has q a' ↔
      (q = p ∧ a' = a) ∨ b.Has q a') := by
    intro q a' ha'
    rw [has_setPort]
    by_cases hq : q = p
    · subst hq
      have hold : ¬ b.Has q a' := by
        rintro ⟨-, h0⟩
        rw [hp] at h0
        exact Nat.ne_of_lt ha' h0
      simp [hold, eq_comm]
    · simp only [hq, false_and, false_or]
      rfl
  refine ⟨?_, ?_, ?_, ?_, ?_, h.pos, h.nodup⟩
  · show 2 ≤ t.last ∧ t.last ≤ 0x7f
    rw [ht]
    exact ⟨h2, h7⟩
  · intro a' ha'
    show t.taken a' = true ↔ _
    rw [htaken, Bool.or_eq_true, beq_iff_eq, h.taken a' ha']
    simp only [hhas _ a' ha']
    constructor
    · rintro (rfl | ⟨q, hq⟩ | hm)
      · exact .inl ⟨p, .inl ⟨rfl, rfl⟩⟩
      · exact .inl ⟨q, .inr hq⟩
      · exact .inr hm
    · rintro (⟨q, ⟨-, rfl⟩ | hq⟩ | hm)
      · exact .inl rfl
      · exact .inr (.inl ⟨q, hq⟩)
      · exact .inr (.inr hm)
  · exact fun a' ha' ht' => h.given_range hal ha' ht'
  · -- two ports with one address: the new one, or ports from before
    intro a' ha' q q' hq hq'
    rcases (hhas q a' ha').mp hq with ⟨hqp, hqa⟩ | ho
    · rcases (hhas q' a' ha').mp hq' with ⟨hqp', -⟩ | ho'
      · exact hqp.trans hqp'.symm
      · exact absurd (hqa ▸ ho') (hnot q')
    · rcases (hhas q' a' ha').mp hq' with ⟨-, hqa'⟩ | ho'
      · exact absurd (hqa' ▸ ho) (hnot q)
      · exact h.unique a' ha' q q' ho ho'
  · intro a' q hq hm
    rcases (hhas q a' (h.pos a' hm)).mp hq with ⟨-, rfl⟩ | hq
    · exact hmem hm
    · exact h.fresh a' q hq hm

end Invariant

/-! ## Runs of a bus -/

section Runs

variable {b : Bus} {hist : List Nat} {p a : Nat} {r : Answers} {t : DevaddrMap}

theorem attached_port (b : Bus) (p : Nat) : (b.attached p).port p = ⟨true, 0⟩ :=
  Function.update_self _ _ _

/-- Without an address to give, the port is left as if the device had one. -/
theorem connect_none (hal : usbhAllocateDevaddr (b.release p).devgen = none)
    (hr : r ≠ .noDescriptor) : b.connect p r = b.attached p := by
  have hal' : usbhAllocateDevaddr (b.attached p).devgen = none := hal
  have he : (b.attached p).enumerate p r = (b.attached p, 0) := by
    rw [Bus.enumerate, if_neg hr, hal']
  rw [Bus.connect, he]
  rfl

theorem connect_noAddress (hal : usbhAllocateDevaddr (b.release p).devgen = some (a, t)) :
    b.connect p .noAddress = ({ b.attached p with devgen := t } : Bus).release p := by
  have hal' : usbhAllocateDevaddr (b.attached p).devgen = some (a, t) := hal
  have he : (b.attached p).enumerate p .noAddress =
      ({ b.attached p with devgen := t }, errIo) := by
    rw [Bus.enumerate, hal']
    rfl
  rw [Bus.connect, he]
  rfl

/-- The bus with an address on port `p`. -/
def Bus.addressed (b : Bus) (p a : Nat) (t : DevaddrMap) : Bus :=
  ({ b.attached p with devgen := t } : Bus).setPort p ⟨true, a⟩

theorem addressed_port (b : Bus) (p a : Nat) (t : DevaddrMap) :
    (b.addressed p a t).port p = ⟨true, a⟩ := Function.update_self _ _ _

theorem enumerate_addressed (hal : usbhAllocateDevaddr (b.release p).devgen = some (a, t))
    (h1 : r ≠ .noDescriptor) (h2 : r ≠ .noAddress) :
    (b.attached p).enumerate p r = (b.addressed p a t, if r = .partly then errIo else 0) := by
  have hal' : usbhAllocateDevaddr (b.attached p).devgen = some (a, t) := hal
  rw [Bus.enumerate, if_neg h1, hal']
  simp only [if_neg h2, attached_port]
  rfl

theorem connect_partly (hal : usbhAllocateDevaddr (b.release p).devgen = some (a, t)) :
    b.connect p .partly = (b.addressed p a t).release p := by
  rw [Bus.connect, enumerate_addressed hal (by decide) (by decide)]
  rfl

theorem connect_fully (hal : usbhAllocateDevaddr (b.release p).devgen = some (a, t)) :
    b.connect p .fully = b.addressed p a t := by
  rw [Bus.connect, enumerate_addressed hal (by decide) (by decide)]
  rfl

theorem lostByRelease_zero (h : b.port p = ⟨true, 0⟩) : b.lostByRelease p = [] := by
  unfold Bus.lostByRelease
  rw [h]
  rfl

theorem lostByRelease_addressed (b : Bus) (p a : Nat) (t : DevaddrMap) :
    (b.addressed p a t).lostByRelease p = Bus.lostByAnswers a .partly := by
  unfold Bus.lostByRelease
  rw [addressed_port]
  simp [Bus.lostByAnswers]

theorem lost_connect_none (hal : usbhAllocateDevaddr (b.release p).devgen = none) (r : Answers) :
    b.lost (.connect p r) = b.lostByRelease p := by
  show b.lostByRelease p ++ (b.release p).lostByEnumerate r = _
  rw [Bus.lostByEnumerate, hal, List.append_nil]

theorem lost_connect_some (hal : usbhAllocateDevaddr (b.release p).devgen = some (a, t))
    (r : Answers) :
    b.lost (.connect p r) = b.lostByRelease p ++ Bus.lostByAnswers a r := by
  show b.lostByRelease p ++ (b.release p).lostByEnumerate r = _
  rw [Bus.lostByEnumerate, hal]

theorem Bus.Inv.connect (h : b.Inv hist) (p : Nat) (r : Answers) :
    (b.connect p r).Inv (hist ++ b.lost (.connect p r)) := by
  have hat : (b.attached p).Inv (hist ++ b.lostByRelease p) :=
    (h.release p).attach fun a hp => (has_release.mp hp).1 rfl
  have hport := attached_port b p
  have hnone : (b.connect p .noDescriptor).Inv (hist ++ b.lostByRelease p) := by
    have := hat.release p
    rwa [lostByRelease_zero hport, List.append_nil] at this
  cases hal : usbhAllocateDevaddr (b.release p).devgen with
  | none =>
    rw [lost_connect_none hal]
    by_cases hr : r = .noDescriptor
    · rw [hr]
      exact hnone
    · rw [connect_none hal hr]
      exact hat
  | some x =>
    obtain ⟨a, t⟩ := x
    rw [lost_connect_some hal, ← List.append_assoc]
    cases r with
    | noDescriptor =>
      rw [Bus.lostByAnswers, List.append_nil]
      exact hnone
    | noAddress =>
      -- the port has address 0 still, so its release does not give the new one back
      have hport' : ({ b.attached p with devgen := t } : Bus).port p = ⟨true, 0⟩ := hport
      have := (hat.refuse hal).release p
      rwa [lostByRelease_zero hport', List.append_nil, ← connect_noAddress hal] at this
    | partly =>
      -- `usbh_hubport_release` gives the address back, unless it is 0x7f
      have hgive : (b.addressed p a t).Inv _ := hat.give hport hal
      have := hgive.release p
      rwa [lostByRelease_addressed, ← connect_partly hal] at this
    | fully =>
      rw [connect_fully hal, Bus.lostByAnswers, List.append_nil]
      exact hat.give hport hal

theorem bus_inv_init : Bus.init.Inv [] := by
  have hfree : ∀ a, Bus.init.devgen.taken a = false := by
    intro a
    rw [taken_eq]
    exact BitVec.getLsbD_zero
  have hno : ∀ p a, ¬ Bus.init.Has p a := fun p a h => Bool.false_ne_true h.1
  refine ⟨by decide, ?_, ?_, ?_, ?_, ?_, List.nodup_nil⟩
  · intro a _
    simp [hfree a, hno]
  · intro a _ ht
    rw [hfree a] at ht
    cases ht
  · intro a _ p q hp
    exact absurd hp (hno p a)
  · intro a p hp
    exact absurd hp (hno p a)
  · intro a ha
    exact absurd ha List.not_mem_nil

theorem bus_inv_reaches
    (h : (busMachine.record Bus.lost).Reaches (fun _ _ => True) (Bus.init, []) (b, hist)) :
    b.Inv hist := by
  refine Machine.Reaches.invariant (I := fun s => s.1.Inv s.2) h bus_inv_init ?_
  rintro ⟨s, es⟩ l ⟨s', es'⟩ hs - hstep
  obtain ⟨hst, rfl⟩ := Machine.record_step hstep
  have hst : some _ = some s' := hst
  obtain rfl := Option.some.inj hst
  cases l with
  | connect p r => exact hs.connect p r
  | disconnect p => exact hs.release p

/-- In every run no two ports have one address, the table has the addresses of the ports and
those that were lost, and none of these is lost twice or given again. -/
theorem address_unique
    (h : (busMachine.record Bus.lost).Reaches (fun _ _ => True) (Bus.init, []) (b, hist)) :
    (∀ a, 0 < a → ∀ p q, b.Has p a → b.Has q a → p = q) ∧
      (∀ a, 0 < a → (b.devgen.taken a = true ↔ (∃ p, b.Has p a) ∨ a ∈ hist)) ∧
      (∀ a p, b.Has p a → a ∉ hist) ∧ hist.Nodup :=
  have hi := bus_inv_reaches h
  ⟨hi.unique, hi.taken, hi.fresh, hi.nodup⟩

/-- Two devices, the second of them gone before SET_ADDRESS. -/
theorem address_unique_two :
    (∀ a, 0 < a → ∀ p q, ((Bus.init.connect 0 .fully).connect 1 .noAddress).Has p a →
        ((Bus.init.connect 0 .fully).connect 1 .noAddress).Has q a → p = q) ∧
      (∀ a, 0 < a →
        (((Bus.init.connect 0 .fully).connect 1 .noAddress).devgen.taken a = true ↔
          (∃ p, ((Bus.init.connect 0 .fully).connect 1 .noAddress).Has p a) ∨ a ∈ [3])) ∧
      (∀ a p, ((Bus.init.connect 0 .fully).connect 1 .noAddress).Has p a → a ∉ [3]) ∧
      [3].Nodup :=
  address_unique (Relation.ReflTransGen.tail
    (Relation.ReflTransGen.single ⟨.connect 0 .fully, trivial, rfl⟩)
    ⟨.connect 1 .noAddress, trivial, rfl⟩)

/-- All addresses but the last one given are lost. -/
def Bus.Dry (b : Bus) (hist : List Nat) : Prop :=
  ∀ a, 2 ≤ a → a ≤ 0x7f → a ≠ b.devgen.last → a ∈ hist

theorem Bus.Inv.allocate_none (h : b.Inv hist) (hdry : b.Dry hist) (p : Nat) :
    usbhAllocateDevaddr (b.release p).devgen = none := by
  have hrel := h.release p
  refine allocate_eq_none hrel.last fun a h2 h7 hne => ?_
  rw [last_release] at hne
  exact (hrel.taken a (by omega)).mpr (.inr (List.mem_append_left _ (hdry a h2 h7 hne)))

/-- Nothing is given any more, so that the last address stays the last one. -/
theorem Bus.Inv.dry_connect (h : b.Inv hist) (hdry : b.Dry hist) (p : Nat) (r : Answers) :
    (b.connect p r).devgen.last = b.devgen.last := by
  have hat : (b.attached p).devgen.last = b.devgen.last := last_release b p
  by_cases hr : r = .noDescriptor
  · rw [hr]
    exact (last_release _ p).trans hat
  · rw [connect_none (h.allocate_none hdry p) hr]
    exact hat

theorem dry_reaches {c : Bus} {hist' : List Nat} (hinv : b.Inv hist) (hdry : b.Dry hist)
    (hc : (busMachine.record Bus.lost).Reaches (fun _ _ => True) (b, hist) (c, hist')) :
    c.Inv hist' ∧ c.Dry hist' := by
  refine Machine.Reaches.invariant (I := fun s => s.1.Inv s.2 ∧ s.1.Dry s.2) hc ⟨hinv, hdry⟩ ?_
  rintro ⟨s, es⟩ l ⟨s', es'⟩ ⟨hs, hd⟩ - hstep
  obtain ⟨hst, rfl⟩ := Machine.record_step hstep
  have hst : some _ = some s' := hst
  obtain rfl := Option.some.inj hst
  cases l with
  | connect p r =>
    refine ⟨hs.connect p r, fun a h2 h7 hne => List.mem_append_left _ (hd a h2 h7 ?_)⟩
    rwa [← hs.dry_connect hd p r]
  | disconnect p =>
    refine ⟨hs.release p, fun a h2 h7 hne => List.mem_append_left _ (hd a h2 h7 ?_)⟩
    rwa [← last_release s p]

theorem allocate_next {t : DevaddrMap} (h : nextDevaddr t.last ≠ t.last)
    (hfree : t.taken (nextDevaddr t.last) = false) :
    usbhAllocateDevaddr t = some (nextDevaddr t.last,
      { t.mark (nextDevaddr t.last) with last := nextDevaddr t.last }) := by
  rw [usbhAllocateDevaddr, allocateLoop, if_neg h, hfree]
  rfl

/-- Every SET_ADDRESS without an answer loses the next address. -/
theorem exists_noAddress_run {k : Nat} (hk : k ≤ 126) :
    ∃ b, (busMachine.record Bus.lost).Reaches (fun _ _ => True) (Bus.init, [])
        (b, List.range' 2 k) ∧ (∀ p a, ¬ b.Has p a) ∧ b.devgen.last = 2 + (k + 125) % 126 := by
  induction k with
  | zero => exact ⟨Bus.init, Relation.ReflTransGen.refl, fun p a h => Bool.false_ne_true h.1, rfl⟩
  | succ k ih =>
    obtain ⟨b, hb, hno, hlast⟩ := ih (by omega)
    have hinv := bus_inv_reaches hb
    have hc : (b.port 0).connected ≠ true := fun hc => hno 0 _ ⟨hc, rfl⟩
    have hrel : b.release 0 = b := if_neg hc
    have hnext : nextDevaddr b.devgen.last = 2 + k := by
      rw [hlast, nextDevaddr_ring]
      omega
    have hfree : b.devgen.taken (2 + k) = false := by
      refine Bool.eq_false_iff.mpr fun ht => ?_
      rcases (hinv.taken _ (by omega)).mp ht with ⟨p, hp⟩ | hm
      · exact hno p _ hp
      · have := List.mem_range'_1.mp hm
        omega
    have hal : usbhAllocateDevaddr (b.release 0).devgen =
        some (2 + k, { b.devgen.mark (2 + k) with last := 2 + k }) := by
      rw [hrel, ← hnext]
      exact allocate_next (by rw [hnext, hlast]; omega) (by rw [hnext]; exact hfree)
    have hl : b.lost (.connect 0 .noAddress) = [2 + k] := by
      rw [lost_connect_some hal]
      have : b.lostByRelease 0 = [] := if_neg fun h => hc h.1
      rw [this]
      rfl
    refine ⟨b.connect 0 .noAddress, ?_, ?_, ?_⟩
    · have hr : List.range' 2 (k + 1) = List.range' 2 k ++ [2 + k] := by
        rw [List.range'_concat, Nat.one_mul]
      rw [hr, ← hl]
      exact hb.tail ⟨.connect 0 .noAddress, trivial, rfl⟩
    · intro p a hp
      rw [connect_noAddress hal] at hp
      obtain ⟨hp0, hp⟩ := has_release.mp hp
      have hp : (b.attached 0).Has p a := hp
      rw [Bus.attached, has_setPort, if_neg hp0] at hp
      exact hno p a (has_release.mp hp).2
    · rw [connect_noAddress hal, last_release]
      show 2 + k = _
      omega

/-- Once every address but the last one given is lost, no device gets an address in the rest of
the run: its port stays connected with address 0, and the enumeration reports success. -/
theorem pool_dry {c : Bus} {hist' : List Nat}
    (h : (busMachine.record Bus.lost).Reaches (fun _ _ => True) (Bus.init, []) (b, hist))
    (hdry : b.Dry hist)
    (hc : (busMachine.record Bus.lost).Reaches (fun _ _ => True) (b, hist) (c, hist'))
    (p : Nat) (r : Answers) (hr : r ≠ .noDescriptor) :
    ((c.attached p).enumerate p r).2 = 0 ∧ (c.connect p r).port p = ⟨true, 0⟩ := by
  obtain ⟨hi, hd⟩ := dry_reaches (bus_inv_reaches h) hdry hc
  have hal := hi.allocate_none hd p
  have hal' : usbhAllocateDevaddr (c.attached p).devgen = none := hal
  constructor
  · rw [Bus.enumerate, if_neg hr, hal']
  · rw [connect_none hal hr]
    exact attached_port c p

theorem pool_dry_range :
    ∃ b hist, Bus.Dry b hist ∧ ((b.attached 0).enumerate 0 .fully).2 = 0 ∧
      (b.connect 0 .fully).port 0 = ⟨true, 0⟩ := by
  obtain ⟨b, hb, -, -⟩ := exists_noAddress_run (Nat.le_refl 126)
  have hdry : b.Dry (List.range' 2 126) := by
    intro a h2 h7 _
    exact List.mem_range'_1.mpr ⟨h2, by omega⟩
  exact ⟨b, List.range' 2 126, hdry,
    pool_dry hb hdry Relation.ReflTransGen.refl 0 .fully (by decide)⟩

end Runs

end Cdc2Net.Source.DevAddress
