import Cdc2Net.Source.ConfigDesc
import Mathlib.Data.List.Induction

/-!
# The tables that `parse_config_descriptor` leaves

A conforming device numbers its interfaces and settings so that the tables can hold them, and each
interface descriptor is followed by as many endpoint descriptors as it says. `Exact` says that the
tables hold such a device and are clear in every other entry. The bytes behind its descriptor are
those of an earlier transfer into the same buffer, and the loop takes one descriptor from there:
`parse_exact_iff` says which ones leave no trace.
-/

set_option autoImplicit false

namespace Cdc2Net.Source.Enumerate

/-! ## What a device declares -/

/-- An interface descriptor and the endpoint descriptors behind it. -/
structure Declared where
  desc : InterfaceDesc
  eps : List EndpointDesc
  deriving DecidableEq, Repr

/-- `bInterfaceNumber` as an index. -/
def InterfaceDesc.number (d : InterfaceDesc) : Nat := d.bInterfaceNumber.toNat

/-- `bAlternateSetting` as an index. -/
def InterfaceDesc.alt (d : InterfaceDesc) : Nat := d.bAlternateSetting.toNat

/-- The endpoint descriptors before the next interface descriptor. -/
def endpointsUpto : List Desc → List EndpointDesc
  | .endpoint e :: ds => e :: endpointsUpto ds
  | .other :: ds => endpointsUpto ds
  | .interface _ :: _ => []
  | [] => []

def declared : List Desc → List Declared
  | .interface d :: ds => ⟨d, endpointsUpto ds⟩ :: declared ds
  | .endpoint _ :: ds => declared ds
  | .other :: ds => declared ds
  | [] => []

/-- The settings of an interface come in their order. -/
def Ordered (ds : List InterfaceDesc) : Prop :=
  ds.Pairwise fun d d' => d.number = d'.number → d.alt < d'.alt

/-- `d` is the last setting of its interface. -/
def Latest (ds : List InterfaceDesc) (d : InterfaceDesc) : Prop :=
  d ∈ ds ∧ ∀ d' ∈ ds, d'.number = d.number → d'.alt ≤ d.alt

/-- The interface descriptors lead, the tables can hold what is declared, and the settings of an
interface come in their order. -/
structure Conforming (ds : List Desc) : Prop where
  leads : endpointsUpto ds = []
  nonempty : declared ds ≠ []
  accepted : ∀ g ∈ declared ds, ¬ g.desc.Refused
  counted : ∀ g ∈ declared ds, g.eps.length = g.desc.bNumEndpoints.toNat
  ordered : Ordered ((declared ds).map Declared.desc)

/-- Setting `a` of interface `i`. -/
def Configuration.setting (c : Configuration) (i a : Nat) : AltSetting := (c.intf i).altsetting a

/-- The entry of a declaration. -/
def Declared.setting (g : Declared) : AltSetting := ⟨g.desc, fun k => g.eps.getD k .zero⟩

/-- `altsetting_num` is that of the last setting of interface `i`. -/
def Configuration.Numbers (c : Configuration) (ds : List InterfaceDesc) (i : Nat) : Prop :=
  ∃ d, Latest ds d ∧ d.number = i ∧ (c.intf i).altsettingNum = d.alt + 1

/-- The tables hold what is declared, with how many settings each interface has, and nothing
else. -/
structure Configuration.Exact (c : Configuration) (gs : List Declared) : Prop where
  shows : ∀ g ∈ gs, c.setting g.desc.number g.desc.alt = g.setting
  numbers : ∀ g ∈ gs, c.Numbers (gs.map Declared.desc) g.desc.number
  clear : ∀ i a, (∀ g ∈ gs, ¬(i = g.desc.number ∧ a = g.desc.alt)) → c.setting i a = .zero
  unnumbered : ∀ i, (∀ g ∈ gs, i ≠ g.desc.number) → (c.intf i).altsettingNum = 0

/-! ## The walk writes one declaration after the other -/

/-- Endpoint descriptors from entry `e` on. -/
def putEps (i a : Nat) : Nat → List EndpointDesc → Configuration → Configuration
  | _, [], c => c
  | e, d :: ds, c => putEps i a (e + 1) ds (c.setEndpoint i a e d)

def Configuration.put (c : Configuration) (g : Declared) : Configuration :=
  putEps g.desc.number g.desc.alt 0 g.eps (c.setInterface g.desc)

section Put

variable {c : Configuration} {i a j b e k : Nat} {d : InterfaceDesc} {x : EndpointDesc}
  {ds : List Desc} {es : List EndpointDesc} {g : Declared} {gs : List Declared} {s : Cursor}
  {ls : List InterfaceDesc} {l : InterfaceDesc}

theorem setEndpoint_setting :
    (c.setEndpoint i a e x).setting i a = (c.setting i a).setEp e x := by
  simp [Configuration.setting, Configuration.setEndpoint, Configuration.setIntf, Interface.setEp]

theorem setEndpoint_setting_ne (hne : ¬(j = i ∧ b = a)) :
    (c.setEndpoint i a e x).setting j b = c.setting j b := by
  unfold Configuration.setting Configuration.setEndpoint Configuration.setIntf Interface.setEp
  by_cases hj : j = i
  · subst hj
    have hb : b ≠ a := fun hb => hne ⟨rfl, hb⟩
    simp [Function.update_of_ne hb]
  · simp [Function.update_of_ne hj]

theorem setEndpoint_altsettingNum :
    ((c.setEndpoint i a e x).intf j).altsettingNum = (c.intf j).altsettingNum := by
  unfold Configuration.setEndpoint Configuration.setIntf Interface.setEp
  by_cases hj : j = i
  · subst hj
    simp
  · simp [Function.update_of_ne hj]

theorem setInterface_setting :
    (c.setInterface d).setting d.number d.alt =
      { c.setting d.number d.alt with intfDesc := d } := by
  simp [Configuration.setting, Configuration.setInterface, Configuration.setIntf,
    Interface.setDesc, InterfaceDesc.number, InterfaceDesc.alt]

theorem setInterface_setting_ne (hne : ¬(j = d.number ∧ b = d.alt)) :
    (c.setInterface d).setting j b = c.setting j b := by
  unfold Configuration.setting Configuration.setInterface Configuration.setIntf Interface.setDesc
  by_cases hj : j = d.bInterfaceNumber.toNat
  · subst hj
    have hb : b ≠ d.bAlternateSetting.toNat := fun hb => hne ⟨rfl, hb⟩
    simp [Function.update_of_ne hb]
  · simp [Function.update_of_ne hj]

theorem setInterface_altsettingNum :
    ((c.setInterface d).intf d.number).altsettingNum = d.alt + 1 := by
  simp [Configuration.setInterface, Configuration.setIntf, Interface.setDesc,
    InterfaceDesc.number, InterfaceDesc.alt]

theorem setInterface_altsettingNum_ne (hj : j ≠ d.number) :
    ((c.setInterface d).intf j).altsettingNum = (c.intf j).altsettingNum := by
  have hj' : j ≠ d.bInterfaceNumber.toNat := hj
  simp [Configuration.setInterface, Configuration.setIntf, Function.update_of_ne hj']

@[simp] theorem putEps_configDesc : (putEps i a e es c).configDesc = c.configDesc := by
  induction es generalizing e c with
  | nil => rfl
  | cons x es ih => exact ih

theorem putEps_setting_ne (hne : ¬(j = i ∧ b = a)) :
    (putEps i a e es c).setting j b = c.setting j b := by
  induction es generalizing e c with
  | nil => rfl
  | cons x es ih => exact ih.trans (setEndpoint_setting_ne hne)

theorem putEps_altsettingNum :
    ((putEps i a e es c).intf j).altsettingNum = (c.intf j).altsettingNum := by
  induction es generalizing e c with
  | nil => rfl
  | cons x es ih => exact ih.trans setEndpoint_altsettingNum

theorem putEps_intfDesc :
    ((putEps i a e es c).setting i a).intfDesc = (c.setting i a).intfDesc := by
  induction es generalizing e c with
  | nil => rfl
  | cons x es ih =>
    refine ih.trans ?_
    rw [setEndpoint_setting]
    rfl

theorem putEps_ep_lt (hk : k < e) :
    ((putEps i a e es c).setting i a).ep k = (c.setting i a).ep k := by
  induction es generalizing e c with
  | nil => rfl
  | cons x es ih =>
    refine (ih (Nat.lt_succ_of_lt hk)).trans ?_
    rw [setEndpoint_setting]
    exact Function.update_of_ne (Nat.ne_of_lt hk) _ _

theorem putEps_ep :
    ((putEps i a e es c).setting i a).ep (e + k) = es.getD k ((c.setting i a).ep (e + k)) := by
  induction es generalizing e c k with
  | nil => rfl
  | cons y es ih =>
    cases k with
    | zero =>
      refine (putEps_ep_lt (Nat.lt_succ_self e)).trans ?_
      rw [setEndpoint_setting]
      exact Function.update_self _ _ _
    | succ k =>
      have h := ih (e := e + 1) (c := c.setEndpoint i a e y) (k := k)
      rw [Nat.succ_add_eq_add_succ, setEndpoint_setting] at h
      refine h.trans (congrArg (es.getD k) ?_)
      exact Function.update_of_ne (by omega) _ _

/-- A declaration fills an entry that is clear. -/
theorem put_setting (h : c.setting g.desc.number g.desc.alt = .zero) :
    (c.put g).setting g.desc.number g.desc.alt = g.setting := by
  have hold : (c.setInterface g.desc).setting g.desc.number g.desc.alt =
      { AltSetting.zero with intfDesc := g.desc } := by
    rw [setInterface_setting, h]
  refine AltSetting.ext ?_ (funext fun k => ?_)
  · refine putEps_intfDesc.trans ?_
    rw [hold]
    rfl
  · have hk : ((c.put g).setting g.desc.number g.desc.alt).ep (0 + k) =
        g.eps.getD k (((c.setInterface g.desc).setting g.desc.number g.desc.alt).ep (0 + k)) :=
      putEps_ep
    rw [Nat.zero_add, hold] at hk
    exact hk

theorem put_setting_ne (hne : ¬(j = g.desc.number ∧ b = g.desc.alt)) :
    (c.put g).setting j b = c.setting j b :=
  (putEps_setting_ne hne).trans (setInterface_setting_ne hne)

theorem put_altsettingNum : ((c.put g).intf g.desc.number).altsettingNum = g.desc.alt + 1 :=
  putEps_altsettingNum.trans setInterface_altsettingNum

theorem put_altsettingNum_ne (hj : j ≠ g.desc.number) :
    ((c.put g).intf j).altsettingNum = (c.intf j).altsettingNum :=
  putEps_altsettingNum.trans (setInterface_altsettingNum_ne hj)

@[simp] theorem put_configDesc : (c.put g).configDesc = c.configDesc := putEps_configDesc

theorem foldl_put_configDesc : (gs.foldl Configuration.put c).configDesc = c.configDesc := by
  induction gs generalizing c with
  | nil => rfl
  | cons g gs ih => exact ih.trans put_configDesc

/-- A walk that nothing stops writes the rest of the setting it is in, then what is declared. -/
theorem walk_eq_put
    (hs : endpointsUpto ds = [] ∨ (s.curIface < maxInterfaces ∧
      s.curAltSetting < maxIntfAltsettings ∧
      s.curEp + (endpointsUpto ds).length ≤ maxEndpoints))
    (hd : ∀ g ∈ declared ds, ¬ g.desc.Refused ∧ g.eps.length ≤ maxEndpoints) :
    walk ds s c = .ret 0 ((declared ds).foldl Configuration.put
      (putEps s.curIface s.curAltSetting s.curEp (endpointsUpto ds) c)) := by
  induction ds generalizing s c with
  | nil => rfl
  | cons x ds ih =>
    cases x with
    | interface d =>
      obtain ⟨hr, hl⟩ := hd ⟨d, endpointsUpto ds⟩ List.mem_cons_self
      obtain ⟨h1, -, h3⟩ := not_refused_iff.mp hr
      have hw : Desc.apply s c (.interface d) = .go _ _ := onInterface_accepted hr c
      rw [walk, hw]
      refine (ih ?_ fun g hg => hd g (List.mem_cons_of_mem _ hg)).trans rfl
      exact .inr ⟨h1, h3, (Nat.zero_add _).symm ▸ hl⟩
    | endpoint e =>
      obtain ⟨h1, h2, h3⟩ := hs.resolve_left (List.cons_ne_nil _ _)
      have hlen : s.curEp + ((endpointsUpto ds).length + 1) ≤ maxEndpoints := h3
      have hw : Desc.apply s c (.endpoint e) =
          .go { s with curEp := s.curEp + 1 }
            (c.setEndpoint s.curIface s.curAltSetting s.curEp e) :=
        if_pos ⟨h1, h2, by omega⟩
      rw [walk, hw]
      refine (ih ?_ hd).trans rfl
      exact .inr ⟨h1, h2, show s.curEp + 1 + _ ≤ _ by omega⟩
    | other => exact ih hs hd

theorem latest_append_self (hlt : ∀ l ∈ ls, l.number = d.number → l.alt < d.alt) :
    Latest (ls ++ [d]) d := by
  refine ⟨List.mem_append_right _ List.mem_cons_self, fun l hl hn => ?_⟩
  rcases List.mem_append.mp hl with hl | hl
  · exact Nat.le_of_lt (hlt l hl hn)
  · exact List.mem_singleton.mp hl ▸ Nat.le_refl _

theorem Latest.append (h : Latest ls l) (hne : l.number ≠ d.number) : Latest (ls ++ [d]) l := by
  refine ⟨List.mem_append_left _ h.1, fun l' hl' hn => ?_⟩
  rcases List.mem_append.mp hl' with hl' | hl'
  · exact h.2 l' hl' hn
  · exact absurd (List.mem_singleton.mp hl' ▸ hn).symm hne

/-- Declarations in order leave cleared tables with each of them, and nothing else. -/
theorem foldl_put_exact (hc : c.Exact []) (hord : Ordered (gs.map Declared.desc)) :
    (gs.foldl Configuration.put c).Exact gs := by
  induction gs using List.reverseRecOn with
  | nil => exact hc
  | append_singleton gs g ih =>
    rw [List.foldl_append, List.foldl_cons, List.foldl_nil]
    rw [List.map_append, List.map_cons, List.map_nil] at hord
    obtain ⟨hgs, -, hlt⟩ := List.pairwise_append.mp hord
    have hlt' : ∀ l ∈ gs.map Declared.desc, l.number = g.desc.number → l.alt < g.desc.alt :=
      fun l hl => hlt l hl g.desc List.mem_cons_self
    -- no declaration before the last has its entry
    have hne : ∀ h ∈ gs, ¬(h.desc.number = g.desc.number ∧ h.desc.alt = g.desc.alt) := by
      rintro h hh ⟨hn, ha⟩
      exact Nat.lt_irrefl _ (ha ▸ hlt' h.desc (List.mem_map_of_mem hh) hn)
    have hex := ih hgs
    refine ⟨fun h hh => ?_, fun h hh => ?_, fun i a hia => ?_, fun i hi => ?_⟩
    · rcases List.mem_append.mp hh with hh | hh
      · rw [put_setting_ne (hne h hh)]
        exact hex.shows h hh
      · obtain rfl := List.mem_singleton.mp hh
        refine put_setting (hex.clear _ _ fun g' hg' hc' => hne g' hg' ?_)
        exact ⟨hc'.1.symm, hc'.2.symm⟩
    · rw [List.map_append, List.map_cons, List.map_nil]
      by_cases hn : h.desc.number = g.desc.number
      · exact ⟨g.desc, latest_append_self hlt', hn.symm, hn ▸ put_altsettingNum⟩
      · have hm : h ∈ gs := (List.mem_append.mp hh).resolve_right fun hlast =>
          hn (congrArg (fun g' : Declared => g'.desc.number) (List.mem_singleton.mp hlast))
        obtain ⟨l, hl, hln, hnum⟩ := hex.numbers h hm
        exact ⟨l, hl.append (hln.trans_ne hn), hln, (put_altsettingNum_ne hn).trans hnum⟩
    · rw [put_setting_ne (hia g (List.mem_append_right _ List.mem_cons_self))]
      exact hex.clear i a fun g' hg' => hia g' (List.mem_append_left _ hg')
    · rw [put_altsettingNum_ne (hi g (List.mem_append_right _ List.mem_cons_self))]
      exact hex.unnumbered i fun g' hg' => hi g' (List.mem_append_left _ hg')

/-- The tables that the walk starts from are clear. -/
theorem start_exact (m : Memory) : (Configuration.start m).Exact [] where
  shows := fun _ hg => absurd hg List.not_mem_nil
  numbers := fun _ hg => absurd hg List.not_mem_nil
  clear := fun _ _ _ => rfl
  unnumbered := fun _ _ => rfl

/-- `Exact` looks at the settings and their numbers only. -/
theorem Configuration.Exact.congr {c' : Configuration} (h : c.Exact gs)
    (hsetting : ∀ i a, c'.setting i a = c.setting i a)
    (hnum : ∀ i, (c'.intf i).altsettingNum = (c.intf i).altsettingNum) : c'.Exact gs where
  shows := fun g hg => (hsetting _ _).trans (h.shows g hg)
  numbers := fun g hg => by
    obtain ⟨l, hl, hln, hln'⟩ := h.numbers g hg
    exact ⟨l, hl, hln, (hnum _).trans hln'⟩
  clear := fun i a hia => (hsetting i a).trans (h.clear i a hia)
  unnumbered := fun i hi => (hnum i).trans (h.unnumbered i hi)

/-- One endpoint more than declared is an entry too many. -/
theorem Configuration.Exact.not_longer {e : EndpointDesc} (he : e ≠ .zero)
    (h : c.Exact (gs ++ [⟨g.desc, g.eps ++ [e]⟩])) : ¬ c.Exact (gs ++ [g]) := by
  intro hex
  have hlong := h.shows _ (List.mem_append_right _ List.mem_cons_self)
  have hshort := hex.shows g (List.mem_append_right _ List.mem_cons_self)
  have hep := congrFun (congrArg AltSetting.ep (hlong.symm.trans hshort)) g.eps.length
  have hlast : (g.eps ++ [e]).getD g.eps.length .zero = e := by
    rw [List.getD_eq_getElem?_getD, List.getElem?_append_right (Nat.le_refl _), Nat.sub_self]
    rfl
  have hnone : g.eps.getD g.eps.length .zero = EndpointDesc.zero := by
    rw [List.getD_eq_getElem?_getD, List.getElem?_eq_none (Nat.le_refl _)]
    rfl
  exact he (hlast.symm.trans (hep.trans hnone))

end Put

/-! ## The descriptor behind -/

/-- The descriptor that the loop takes from behind the `length` bytes. -/
def leftover (m : Memory) (length : Nat) : List Desc :=
  if m length ≠ 0 then [.read m length] else []

/-- It is no endpoint descriptor, and an interface descriptor only if it is the last one of its
interface once more. -/
def LeavesNoTrace (gs : List Declared) (x : List Desc) : Prop :=
  (∀ e, .endpoint e ∉ x) ∧ ∀ d, .interface d ∈ x → Latest (gs.map Declared.desc) d

section Behind

variable {c c' : Configuration} {d : InterfaceDesc} {e : EndpointDesc} {ds x : List Desc}
  {gs : List Declared} {s : Cursor}

theorem apply_stop_ne {y : Desc} : y.apply s c ≠ .stop (.ret 0 c') := by
  intro h
  cases y with
  | interface d =>
    rw [Desc.apply] at h
    by_cases hd : d.Refused
    · rw [onInterface_refused hd] at h
      cases h
    · rw [onInterface_accepted hd] at h
      cases h
  | endpoint e =>
    rw [Desc.apply, onEndpoint] at h
    split at h <;> cases h
  | other => cases h

/-- A walk that nothing has stopped goes on. -/
theorem exists_walk_append (h : walk ds s c = .ret 0 c') :
    ∃ s', ∀ x, walk (ds ++ x) s c = walk x s' c' := by
  induction ds generalizing s c with
  | nil =>
    obtain rfl : c = c' := by
      cases h
      rfl
    exact ⟨s, fun x => rfl⟩
  | cons y ds ih =>
    rw [walk] at h
    cases hy : y.apply s c with
    | go s₁ c₁ =>
      rw [hy] at h
      obtain ⟨s', hs'⟩ := ih h
      refine ⟨s', fun x => ?_⟩
      rw [List.cons_append, walk, hy]
      exact hs' x
    | stop r =>
      rw [hy] at h
      obtain rfl : r = .ret 0 c' := h
      exact absurd hy apply_stop_ne

theorem endpointsUpto_append_endpoint (h : declared ds = []) :
    endpointsUpto (ds ++ [Desc.endpoint e]) = endpointsUpto ds ++ [e] ∧
      declared (ds ++ [Desc.endpoint e]) = [] := by
  induction ds with
  | nil => exact ⟨rfl, rfl⟩
  | cons y ds ih =>
    cases y with
    | interface d => exact absurd h (List.cons_ne_nil _ _)
    | endpoint e' =>
      obtain ⟨h1, h2⟩ := ih h
      exact ⟨congrArg (e' :: ·) h1, h2⟩
    | other => exact ih h

/-- An endpoint descriptor behind goes to the last declaration. -/
theorem declared_append_endpoint (h : declared ds ≠ []) :
    endpointsUpto (ds ++ [Desc.endpoint e]) = endpointsUpto ds ∧
      ∃ gs g, declared ds = gs ++ [g] ∧
        declared (ds ++ [Desc.endpoint e]) = gs ++ [⟨g.desc, g.eps ++ [e]⟩] := by
  induction ds with
  | nil => exact absurd rfl h
  | cons y ds ih =>
    cases y with
    | interface d =>
      refine ⟨rfl, ?_⟩
      by_cases hds : declared ds = []
      · obtain ⟨h1, h2⟩ := endpointsUpto_append_endpoint (e := e) hds
        refine ⟨[], ⟨d, endpointsUpto ds⟩, congrArg (_ :: ·) hds, ?_⟩
        simp only [List.cons_append, declared, h1, h2, List.nil_append]
      · obtain ⟨h1, gs, g, h2, h3⟩ := ih hds
        refine ⟨⟨d, endpointsUpto ds⟩ :: gs, g, congrArg (_ :: ·) h2, ?_⟩
        simp only [List.cons_append, declared, h1, h3]
    | endpoint e' =>
      obtain ⟨h1, h2⟩ := ih h
      exact ⟨congrArg (e' :: ·) h1, h2⟩
    | other => exact ih h

theorem Conforming.eps_lt (hc : Conforming ds) {g : Declared} (hg : g ∈ declared ds) :
    g.eps.length < maxEndpoints := by
  rw [hc.counted g hg]
  exact (not_refused_iff.mp (hc.accepted g hg)).2.1

theorem Conforming.walk_eq (hc : Conforming ds) (c : Configuration) :
    walk ds .init c = .ret 0 ((declared ds).foldl Configuration.put c) := by
  have h := walk_eq_put (s := .init) (c := c) (.inl hc.leads)
    fun g hg => ⟨hc.accepted g hg, Nat.le_of_lt (hc.eps_lt hg)⟩
  rwa [hc.leads] at h

/-- One endpoint descriptor more takes a free entry behind those that are declared. -/
theorem Conforming.walk_endpoint (hc : Conforming ds) {e : EndpointDesc} (he : e ≠ .zero)
    (hclear : c.Exact []) :
    ∃ c', walk (ds ++ [Desc.endpoint e]) .init c = .ret 0 c' ∧ ¬ c'.Exact (declared ds) := by
  obtain ⟨hup, gs, g, hgs, hgs'⟩ := declared_append_endpoint (e := e) hc.nonempty
  have hg : g ∈ declared ds := hgs ▸ List.mem_append_right _ List.mem_cons_self
  have hd : ∀ g' ∈ declared (ds ++ [Desc.endpoint e]),
      ¬ g'.desc.Refused ∧ g'.eps.length ≤ maxEndpoints := by
    intro g' hg'
    rw [hgs'] at hg'
    rcases List.mem_append.mp hg' with hg' | hg'
    · have hm : g' ∈ declared ds := hgs ▸ List.mem_append_left _ hg'
      exact ⟨hc.accepted g' hm, Nat.le_of_lt (hc.eps_lt hm)⟩
    · obtain rfl := List.mem_singleton.mp hg'
      refine ⟨hc.accepted g hg, ?_⟩
      rw [List.length_append]
      exact hc.eps_lt hg
  have hup' := hup.trans hc.leads
  -- the tables get one endpoint more than `ds` declares, behind those of its last interface
  have hw := walk_eq_put (s := .init) (c := c) (.inl hup') hd
  rw [hup', hgs'] at hw
  refine ⟨_, hw, ?_⟩
  have hord : Ordered ((gs ++ [(⟨g.desc, g.eps ++ [e]⟩ : Declared)]).map Declared.desc) := by
    have h := hc.ordered
    rw [hgs, List.map_append] at h
    rw [List.map_append]
    exact h
  rw [hgs]
  exact (foldl_put_exact hclear hord).not_longer he

theorem exact_setInterface_iff (h : c.Exact gs) :
    (c.setInterface d).Exact gs ↔ Latest (gs.map Declared.desc) d := by
  constructor
  · intro hex
    -- an interface that the device does not have would be numbered now
    obtain ⟨g, hg, hgn⟩ : ∃ g ∈ gs, d.number = g.desc.number := by
      by_contra hnone
      have hzero := hex.unnumbered d.number fun g hg hn => hnone ⟨g, hg, hn⟩
      rw [setInterface_altsettingNum] at hzero
      exact Nat.succ_ne_zero _ hzero
    obtain ⟨l, hl, hln, hnum⟩ := hex.numbers g hg
    rw [← hgn, setInterface_altsettingNum] at hnum
    -- the setting that the tables number is in the entry that `d` has taken
    have hld : l.number = d.number := hln.trans hgn.symm
    have hla : l.alt = d.alt := (Nat.succ.inj hnum).symm
    obtain ⟨h', hh', rfl⟩ := List.mem_map.mp hl.1
    have hshows := hex.shows h' hh'
    rw [hld, hla, setInterface_setting] at hshows
    have hd : d = h'.desc := congrArg AltSetting.intfDesc hshows
    exact hd ▸ hl
  · intro hl
    obtain ⟨g, hg, rfl⟩ := List.mem_map.mp hl.1
    obtain ⟨l, hlatest, hln, hnum⟩ := h.numbers g hg
    have hlast : l.alt = g.desc.alt :=
      Nat.le_antisymm (hl.2 l hlatest.1 hln) (hlatest.2 g.desc hl.1 hln.symm)
    -- the entry and its number are what they were
    refine h.congr (fun i a => ?_) fun i => ?_
    · by_cases hia : i = g.desc.number ∧ a = g.desc.alt
      · rw [hia.1, hia.2, setInterface_setting, h.shows g hg]
        rfl
      · exact setInterface_setting_ne hia
    · by_cases hi : i = g.desc.number
      · rw [hi, setInterface_altsettingNum, hnum, hlast]
      · exact setInterface_altsettingNum_ne hi

/-- One descriptor behind those of a conforming device. -/
theorem Conforming.walk_exact_iff (hc : Conforming ds) (hx : x.length ≤ 1)
    (he : ∀ e, .endpoint e ∈ x → e ≠ .zero) (hclear : c.Exact []) :
    (∃ c', walk (ds ++ x) .init c = .ret 0 c' ∧ c'.configDesc = c.configDesc ∧
        c'.Exact (declared ds)) ↔ LeavesNoTrace (declared ds) x := by
  have hex := foldl_put_exact hclear hc.ordered
  obtain ⟨s, hs⟩ := exists_walk_append (hc.walk_eq c)
  match x, hx with
  | [], _ =>
    refine ⟨fun _ => ⟨fun _ => List.not_mem_nil, nofun⟩, fun _ => ?_⟩
    exact ⟨_, hs [], foldl_put_configDesc, hex⟩
  | [.other], _ =>
    refine ⟨fun _ => ⟨by simp, by simp⟩, fun _ => ?_⟩
    exact ⟨_, hs [.other], foldl_put_configDesc, hex⟩
  | [.endpoint e], _ =>
    obtain ⟨c', hw, hnot⟩ := hc.walk_endpoint (he e List.mem_cons_self) hclear
    constructor
    · rintro ⟨c'', h, -, hex'⟩
      rw [hw] at h
      obtain rfl : c' = c'' := by
        cases h
        rfl
      exact absurd hex' hnot
    · exact fun h => absurd List.mem_cons_self (h.1 e)
  | [.interface d], _ =>
    by_cases hd : d.Refused
    · -- the whole device is refused with it
      have hw : walk [.interface d] s ((declared ds).foldl Configuration.put c) =
          .ret errNomem ((declared ds).foldl Configuration.put c) := by
        rw [walk, Desc.apply, onInterface_refused hd]
      constructor
      · rintro ⟨c', h, -⟩
        rw [hs, hw] at h
        cases h
      · intro h
        obtain ⟨g, hg, rfl⟩ := List.mem_map.mp (h.2 d List.mem_cons_self).1
        exact absurd hd (hc.accepted g hg)
    · -- it is taken in, over the setting of its number
      have hw : walk [.interface d] s ((declared ds).foldl Configuration.put c) =
          .ret 0 (((declared ds).foldl Configuration.put c).setInterface d) := by
        rw [walk, Desc.apply, onInterface_accepted hd]
        rfl
      constructor
      · rintro ⟨c', h, -, hex'⟩
        rw [hs, hw] at h
        obtain rfl : _ = c' := by
          cases h
          rfl
        refine ⟨by simp, fun d' hd' => ?_⟩
        obtain rfl := Desc.interface.inj (List.mem_singleton.mp hd')
        exact (exact_setInterface_iff hex).mp hex'
      · intro h
        refine ⟨_, (hs _).trans hw, foldl_put_configDesc, ?_⟩
        exact (exact_setInterface_iff hex).mpr (h.2 d List.mem_cons_self)

end Behind

/-! ## The bytes of a configuration -/

/-- A list of bytes, and zeros behind it. -/
def memoryOf (b : List UInt8) : Memory := fun i => b.getD i 0

/-- A descriptor as it is sent: it opens with its length and its type, and one that the loop
copies is as long as the copy. -/
structure Framed (b : List UInt8) : Prop where
  two_le : 2 ≤ b.length
  length_lt : b.length < 256
  bLength : b.getD 0 0 = UInt8.ofNat b.length
  interface : b.getD 1 0 = typeInterface → 9 ≤ b.length
  endpoint : b.getD 1 0 = typeEndpoint → 7 ≤ b.length

/-- What a device sends for a configuration: its own descriptor, with the length of all, and the
descriptors behind it. -/
structure ConfigBytes where
  header : List UInt8
  descs : List (List UInt8)
  header_length : header.length = sizeofConfigDesc
  bLength : header.getD 0 0 = 9
  type : header.getD 1 0 = typeConfiguration
  framed : ∀ b ∈ descs, Framed b
  total : (le16 (memoryOf header) 2).toNat = header.length + descs.flatten.length

namespace ConfigBytes

def bytes (d : ConfigBytes) : List UInt8 := d.header ++ d.descs.flatten

/-- The descriptors as the loop tells them apart. -/
def items (d : ConfigBytes) : List Desc := d.descs.map fun b => Desc.read (memoryOf b) 0

end ConfigBytes

section Bytes

variable {m m' : Memory} {p p' length fuel : Nat} {b : List UInt8} {bs : List (List UInt8)}

theorem InterfaceDesc.read_congr (h : ∀ i < 9, m (p + i) = m' (p' + i)) :
    InterfaceDesc.read m p = InterfaceDesc.read m' p' := by
  have h0 : m p = m' p' := h 0 (by decide)
  unfold InterfaceDesc.read
  rw [h0, h 1 (by decide), h 2 (by decide), h 3 (by decide), h 4 (by decide), h 5 (by decide),
    h 6 (by decide), h 7 (by decide), h 8 (by decide)]

theorem EndpointDesc.read_congr (h : ∀ i < 7, m (p + i) = m' (p' + i)) :
    EndpointDesc.read m p = EndpointDesc.read m' p' := by
  have h0 : m p = m' p' := h 0 (by decide)
  unfold EndpointDesc.read le16
  simp only [Nat.add_assoc, Nat.reduceAdd]
  rw [h0, h 1 (by decide), h 2 (by decide), h 3 (by decide), h 4 (by decide), h 5 (by decide),
    h 6 (by decide)]

/-- A framed descriptor is read from its own bytes. -/
theorem Desc.read_framed (hb : Framed b) (hm : ∀ i < b.length, m (p + i) = b.getD i 0) :
    Desc.read m p = Desc.read (memoryOf b) 0 := by
  have hm' : ∀ i < b.length, m (p + i) = memoryOf b (0 + i) := by
    intro i hi
    rw [Nat.zero_add]
    exact hm i hi
  have h1 : m (p + 1) = memoryOf b (0 + 1) := hm' 1 hb.two_le
  unfold Desc.read
  rw [h1]
  by_cases hi : memoryOf b (0 + 1) = typeInterface
  · have h9 := hb.interface hi
    rw [if_pos hi, if_pos hi, InterfaceDesc.read_congr fun i hi => hm' i (by omega)]
  · rw [if_neg hi, if_neg hi]
    by_cases he : memoryOf b (0 + 1) = typeEndpoint
    · have h7 := hb.endpoint he
      rw [if_pos he, if_pos he, EndpointDesc.read_congr fun i hi => hm' i (by omega)]
    · rw [if_neg he, if_neg he]

theorem Framed.toNat_bLength (hb : Framed b) : (b.getD 0 0).toNat = b.length := by
  rw [hb.bLength, UInt8.toNat_ofNat']
  exact Nat.mod_eq_of_lt hb.length_lt

theorem getD_append_right (b c : List UInt8) (i : Nat) :
    (b ++ c).getD (b.length + i) 0 = c.getD i 0 := by
  rw [List.getD_eq_getElem?_getD, List.getElem?_append_right (Nat.le_add_right _ _),
    Nat.add_sub_cancel_left, List.getD_eq_getElem?_getD]

theorem getD_append_left (c : List UInt8) {i : Nat} (h : i < b.length) :
    (b ++ c).getD i 0 = b.getD i 0 := by
  rw [List.getD_eq_getElem?_getD, List.getElem?_append_left h, List.getD_eq_getElem?_getD]

/-- The loop comes to the descriptors one after the other, then to the one behind. -/
theorem chain_framed (hb : ∀ b ∈ bs, Framed b)
    (hm : ∀ i < bs.flatten.length, m (p + i) = bs.flatten.getD i 0)
    (hp : p + bs.flatten.length = length) (hfuel : bs.length + 2 ≤ fuel) :
    chain m length fuel p =
      (bs.map fun b => Desc.read (memoryOf b) 0) ++ leftover m length := by
  induction bs generalizing p fuel with
  | nil =>
    obtain ⟨n, rfl⟩ : ∃ n, fuel = n + 1 + 1 := ⟨fuel - 2, by rw [List.length_nil] at hfuel; omega⟩
    obtain rfl : p = length := hp
    rw [List.map_nil, List.nil_append, chain, leftover]
    -- the test is `<=`: the loop looks at `p` once more where the device's bytes have ended
    by_cases h0 : m p ≠ 0
    · have hpos : (m p).toNat ≠ 0 := fun h => h0 (UInt8.toNat_inj.mp h)
      have hout : ¬(m (p + (m p).toNat) ≠ 0 ∧ p + (m p).toNat ≤ p) := fun h => by omega
      have hnil : chain m p (n + 1) (p + (m p).toNat) = [] := if_neg hout
      rw [if_pos ⟨h0, Nat.le_refl p⟩, if_pos h0]
      exact congrArg _ hnil
    · rw [if_neg h0, if_neg fun h => h0 h.1]
  | cons b bs ih =>
    obtain ⟨n, rfl⟩ : ∃ n, fuel = n + 1 := ⟨fuel - 1, by rw [List.length_cons] at hfuel; omega⟩
    have hbf := hb b List.mem_cons_self
    have hlen : (b :: bs).flatten.length = b.length + bs.flatten.length := List.length_append
    have hmb : ∀ i < b.length, m (p + i) = b.getD i 0 := by
      intro i hi
      rw [hm i (by omega)]
      exact getD_append_left _ hi
    have h0 : m p = b.getD 0 0 := hmb 0 (Nat.lt_of_lt_of_le Nat.two_pos hbf.two_le)
    have hnat : (m p).toNat = b.length := h0 ▸ hbf.toNat_bLength
    have hne : m p ≠ 0 := by
      intro hz
      rw [hz] at hnat
      have h2 := hbf.two_le
      rw [← hnat] at h2
      exact absurd h2 (by decide)
    have htail : ∀ i < bs.flatten.length, m (p + b.length + i) = bs.flatten.getD i 0 := by
      intro i hi
      rw [Nat.add_assoc, hm (b.length + i) (by omega)]
      exact getD_append_right _ _ _
    rw [chain, if_pos ⟨hne, by omega⟩, hnat, List.map_cons, List.cons_append,
      Desc.read_framed hbf hmb,
      ih (fun c hc => hb c (List.mem_cons_of_mem _ hc)) htail (by omega)
        (by rw [List.length_cons] at hfuel; omega)]

theorem length_le_flatten (hb : ∀ b ∈ bs, Framed b) : 2 * bs.length ≤ bs.flatten.length := by
  induction bs with
  | nil => exact Nat.le_refl 0
  | cons b bs ih =>
    have h1 := (hb b List.mem_cons_self).two_le
    have h2 := ih fun c hc => hb c (List.mem_cons_of_mem _ hc)
    simp only [List.length_cons, List.flatten_cons, List.length_append]
    omega

theorem length_bytes (d : ConfigBytes) :
    d.bytes.length = sizeofConfigDesc + d.descs.flatten.length := by
  rw [ConfigBytes.bytes, List.length_append, d.header_length]

theorem start_memoryOf {d : ConfigBytes} (hm : ∀ i < d.bytes.length, m i = d.bytes.getD i 0) :
    (Configuration.start m).configDesc = .read (memoryOf d.bytes) 0 := by
  have hlt : ∀ i < 9, m i = memoryOf d.bytes i := by
    intro i hi
    refine hm i ?_
    rw [length_bytes]
    exact Nat.lt_add_right _ hi
  unfold Configuration.start ConfigDesc.read le16
  simp only [Nat.zero_add, Nat.reduceAdd]
  rw [hlt 0 (by decide), hlt 1 (by decide), hlt 2 (by decide), hlt 3 (by decide),
    hlt 4 (by decide), hlt 5 (by decide), hlt 6 (by decide), hlt 7 (by decide), hlt 8 (by decide)]

/-- The loop takes the descriptors of the device and the one behind them. -/
theorem parse_eq_walk {d : ConfigBytes} (hne : d.descs ≠ [])
    (hm : ∀ i < d.bytes.length, m i = d.bytes.getD i 0) (c : Configuration) :
    parseConfigDescriptor m d.bytes.length c =
      walk (d.items ++ leftover m d.bytes.length) .init (.start m) := by
  have hlen := length_bytes d
  have hflat := length_le_flatten d.framed
  have hpos : 0 < d.descs.length := List.length_pos_of_ne_nil hne
  have hhead : ∀ i < sizeofConfigDesc, m i = d.header.getD i 0 := by
    intro i hi
    rw [hm i (hlen ▸ Nat.lt_add_right _ hi)]
    exact getD_append_left _ (d.header_length ▸ hi)
  have htail : ∀ i < d.descs.flatten.length,
      m (sizeofConfigDesc + i) = d.descs.flatten.getD i 0 := by
    intro i hi
    rw [hm _ (hlen ▸ Nat.add_lt_add_left hi _), ConfigBytes.bytes]
    have := getD_append_right d.header d.descs.flatten i
    rwa [d.header_length] at this
  have h0 : m 0 = 9 := (hhead 0 (by decide)).trans d.bLength
  have h1 : m 1 = typeConfiguration := (hhead 1 (by decide)).trans d.type
  rw [parse_eq, if_neg (not_not.mpr h0), if_neg (not_not.mpr h1),
    if_neg (show ¬ d.bytes.length ≤ sizeofConfigDesc by omega),
    chain_framed d.framed htail hlen.symm
      (show d.descs.length + 2 ≤ d.bytes.length + 1 by unfold sizeofConfigDesc at hlen; omega)]
  rfl

theorem Conforming.descs_ne {d : ConfigBytes} (hc : Conforming d.items) : d.descs ≠ [] := by
  intro h
  refine hc.nonempty ?_
  rw [ConfigBytes.items, h]
  rfl

theorem leftover_length_le (m : Memory) (length : Nat) : (leftover m length).length ≤ 1 := by
  unfold leftover
  split
  · exact Nat.le_refl 1
  · exact Nat.zero_le 1

/-- An endpoint descriptor has its type in its entry. -/
theorem leftover_endpoint {e : EndpointDesc} (h : .endpoint e ∈ leftover m length) :
    e ≠ .zero := by
  unfold leftover at h
  split at h
  · have hread : Desc.endpoint e = Desc.read m length := List.mem_singleton.mp h
    unfold Desc.read at hread
    split at hread
    · cases hread
    · split at hread
      · next htype =>
        obtain rfl := Desc.endpoint.inj hread
        intro hzero
        have hbyte : m (length + 1) = 0 := congrArg EndpointDesc.bDescriptorType hzero
        rw [hbyte] at htype
        cases htype
      · cases hread
  · cases h

/-- Whatever the buffer holds behind the descriptor of a conforming device: the parser reports no
error, and the tables hold the device and nothing else, exactly when the descriptor that begins
there leaves no trace. -/
theorem parse_exact_iff (d : ConfigBytes) (hc : Conforming d.items) (m : Memory)
    (hm : ∀ i < d.bytes.length, m i = d.bytes.getD i 0) (c : Configuration) :
    (∃ c', parseConfigDescriptor m d.bytes.length c = .ret 0 c' ∧
        c'.configDesc = .read (memoryOf d.bytes) 0 ∧ c'.Exact (declared d.items)) ↔
      LeavesNoTrace (declared d.items) (leftover m d.bytes.length) := by
  rw [parse_eq_walk hc.descs_ne hm, ← start_memoryOf hm]
  exact hc.walk_exact_iff (leftover_length_le m _) (fun _ => leftover_endpoint) (start_exact m)

end Bytes

/-- `0403:6001`: one interface with a bulk endpoint in each direction. -/
def exampleStick : ConfigBytes where
  header := [9, 2, 32, 0, 1, 1, 0, 0xA0, 45]
  descs := [[9, 4, 0, 0, 2, 0xFF, 0xFF, 0xFF, 2], [7, 5, 0x81, 2, 64, 0, 0], [7, 5, 2, 2, 64, 0, 0]]
  header_length := rfl
  bLength := rfl
  type := rfl
  framed := by
    intro b hb
    simp only [List.mem_cons, List.not_mem_nil, or_false] at hb
    rcases hb with rfl | rfl | rfl
    all_goals exact ⟨by decide, by decide, by decide, by decide, by decide⟩
  total := by decide

theorem exampleStick_conforming : Conforming exampleStick.items where
  leads := by decide
  nonempty := by decide
  accepted := by decide
  counted := by decide
  ordered := by
    have h : (declared exampleStick.items).map Declared.desc =
        [⟨9, 4, 0, 0, 2, 0xFF, 0xFF, 0xFF, 2⟩] := by decide
    rw [h]
    exact List.pairwise_singleton _ _

theorem parse_exact_iff_exampleStick :
    (∃ c', parseConfigDescriptor (memoryOf exampleStick.bytes) 32 (.start fun _ => 0) = .ret 0 c' ∧
        c'.configDesc = .read (memoryOf exampleStick.bytes) 0 ∧
        c'.Exact (declared exampleStick.items)) ↔
      LeavesNoTrace (declared exampleStick.items) (leftover (memoryOf exampleStick.bytes) 32) :=
  parse_exact_iff exampleStick exampleStick_conforming (memoryOf exampleStick.bytes)
    (fun _ _ => rfl) (.start fun _ => 0)

/-- A second interface that the stick does not have would stay in its tables. -/
example : ¬ LeavesNoTrace (declared exampleStick.items)
    [.interface ⟨9, 4, 1, 0, 0, 0xFF, 0, 0, 0⟩] :=
  fun h => absurd (h.2 _ List.mem_cons_self).1 (by decide)

/-! ## Device after device -/

/-- `CONFIG_USBHOST_REQUEST_BUFFER_LEN` of this build. -/
def requestBufferLen : Nat := 512

/-- A transfer into the buffer. -/
def store (m : Memory) (b : List UInt8) : Memory :=
  fun i => if i < b.length then b.getD i 0 else m i

/-- The buffer, cleared at the start, after the transfers into it. -/
def buffer (ts : List (List UInt8)) : Memory := ts.foldl store fun _ => 0

/-- How `usbh_enumerate` reads the configuration from a device that sends `sent`: the descriptor
alone, and then as many bytes as it names. -/
def readConfig (m : Memory) (sent : List UInt8) (c : Configuration) : Memory × Parsed :=
  let m₁ := store m (sent.take sizeofConfigDesc)
  match parseConfigDescriptor m₁ sizeofConfigDesc c with
  | .ret code c₁ =>
    if code < 0 then (m₁, .ret code c₁)
    else if requestBufferLen < (le16 m₁ 2).toNat then (m₁, .ret errNomem c₁)
    else
      let m₂ := store m₁ (sent.take (le16 m₁ 2).toNat)
      (m₂, parseConfigDescriptor m₂ (le16 m₁ 2).toNat c₁)
  | r => (m₁, r)

section History

variable {m : Memory} {i : Nat} {b : List UInt8} {ts : List (List UInt8)}

theorem store_lt (h : i < b.length) : store m b i = b.getD i 0 := if_pos h

theorem store_ge (h : b.length ≤ i) : store m b i = m i := if_neg (Nat.not_lt.mpr h)

theorem foldl_store_ge (h : ∀ t ∈ ts, t.length ≤ i) : ts.foldl store m i = m i := by
  induction ts generalizing m with
  | nil => rfl
  | cons t ts ih =>
    rw [List.foldl_cons, ih fun u hu => h u (List.mem_cons_of_mem _ hu)]
    exact store_ge (h t List.mem_cons_self)

/-- A conforming device that fits into the buffer is parsed with the bytes behind its
descriptor as the transfers before have left them. -/
theorem readConfig_eq (d : ConfigBytes) (hfit : d.bytes.length ≤ requestBufferLen) (m : Memory)
    (c : Configuration) :
    ∃ m₂, readConfig m d.bytes c = (m₂, parseConfigDescriptor m₂ d.bytes.length c) ∧
      (∀ i < d.bytes.length, m₂ i = d.bytes.getD i 0) ∧ ∀ i, d.bytes.length ≤ i → m₂ i = m i := by
  have hlen := length_bytes d
  have htake : d.bytes.take sizeofConfigDesc = d.header := by
    rw [ConfigBytes.bytes, ← d.header_length, List.take_left]
  have hhead : ∀ i < sizeofConfigDesc, store m d.header i = d.header.getD i 0 :=
    fun i hi => store_lt (d.header_length ▸ hi)
  have h0 : store m d.header 0 = 9 := (hhead 0 (by decide)).trans d.bLength
  have h1 : store m d.header 1 = typeConfiguration := (hhead 1 (by decide)).trans d.type
  have hparse : parseConfigDescriptor (store m d.header) sizeofConfigDesc c = .ret 0 c := by
    unfold parseConfigDescriptor
    rw [if_neg (not_not.mpr h0), if_neg (not_not.mpr h1), if_pos (Nat.le_refl _)]
  have hle : le16 (store m d.header) 2 = le16 (memoryOf d.header) 2 := by
    unfold le16
    rw [hhead 2 (by decide), hhead (2 + 1) (by decide)]
    rfl
  have htotal : (le16 (store m d.header) 2).toNat = d.bytes.length := by
    rw [hle, d.total, ConfigBytes.bytes, List.length_append]
  refine ⟨store (store m d.header) d.bytes, ?_, fun i hi => store_lt hi, fun i hi => ?_⟩
  · unfold readConfig
    simp only [htake, htotal, hparse]
    rw [if_neg (Int.lt_irrefl 0), if_neg (Nat.not_lt.mpr hfit), List.take_length]
  · rw [store_ge hi, store_ge (Nat.le_trans ?_ hi)]
    rw [hlen, d.header_length]
    exact Nat.le_add_right _ _

/-- After transfers that were no longer, a device finds nothing behind its descriptor. -/
theorem exact_after_shorter (d : ConfigBytes) (hc : Conforming d.items)
    (hfit : d.bytes.length ≤ requestBufferLen) (ts : List (List UInt8))
    (hts : ∀ t ∈ ts, t.length ≤ d.bytes.length) (c : Configuration) :
    ∃ m c', readConfig (buffer ts) d.bytes c = (m, .ret 0 c') ∧
      c'.configDesc = .read (memoryOf d.bytes) 0 ∧ c'.Exact (declared d.items) := by
  obtain ⟨m₂, hr, hm, hbehind⟩ := readConfig_eq d hfit (buffer ts) c
  have hz : m₂ d.bytes.length = 0 := (hbehind _ (Nat.le_refl _)).trans (foldl_store_ge hts)
  have hnone : leftover m₂ d.bytes.length = [] := if_neg (not_not.mpr hz)
  have hparse : parseConfigDescriptor m₂ d.bytes.length c =
      .ret 0 ((declared d.items).foldl Configuration.put (.start m₂)) := by
    rw [parse_eq_walk hc.descs_ne hm, hnone, List.append_nil, hc.walk_eq]
  refine ⟨m₂, _, hr.trans (congrArg _ hparse), ?_, foldl_put_exact (start_exact m₂) hc.ordered⟩
  exact foldl_put_configDesc.trans (start_memoryOf hm)

/-- A longer transfer before, with an interface descriptor that the tables cannot hold at the
place where the descriptor of the device ends, makes the host refuse the device; without it the
device is read as it is, and nothing else. -/
theorem refused_after_longer (d : ConfigBytes) (hc : Conforming d.items)
    (hfit : d.bytes.length ≤ requestBufferLen) (pre post : List (List UInt8)) (t : List UInt8)
    (x : InterfaceDesc) (hx : Desc.read (memoryOf t) d.bytes.length = .interface x)
    (hx0 : x.bLength ≠ 0) (ht : d.bytes.length + 9 ≤ t.length) (hr : x.Refused)
    (hpost : ∀ u ∈ post, u.length ≤ d.bytes.length) (c : Configuration) :
    (∃ m c', readConfig (buffer (pre ++ t :: post)) d.bytes c = (m, .ret errNomem c')) ∧
      ∃ m c', readConfig (buffer post) d.bytes c = (m, .ret 0 c') ∧
        c'.configDesc = .read (memoryOf d.bytes) 0 ∧ c'.Exact (declared d.items) := by
  refine ⟨?_, exact_after_shorter d hc hfit post hpost c⟩
  obtain ⟨m₂, hread, hm, hbehind⟩ := readConfig_eq d hfit (buffer (pre ++ t :: post)) c
  have hold : ∀ i < 9, m₂ (d.bytes.length + i) = memoryOf t (d.bytes.length + i) := by
    intro i hi
    rw [hbehind _ (Nat.le_add_right _ _), buffer, List.foldl_append, List.foldl_cons,
      foldl_store_ge fun u hu => Nat.le_trans (hpost u hu) (Nat.le_add_right _ _)]
    exact store_lt (by omega)
  have hdesc : Desc.read m₂ d.bytes.length = .interface x := (Desc.read_congr hold).trans hx
  have hlead : m₂ d.bytes.length = x.bLength := by
    unfold Desc.read at hdesc
    split at hdesc
    · obtain rfl := Desc.interface.inj hdesc
      rfl
    · split at hdesc <;> cases hdesc
  have hleft : leftover m₂ d.bytes.length = [.interface x] := by
    unfold leftover
    rw [if_pos (hlead ▸ hx0), hdesc]
  obtain ⟨s, hs⟩ := exists_walk_append (hc.walk_eq (.start m₂))
  have hparse : parseConfigDescriptor m₂ d.bytes.length c =
      .ret errNomem ((declared d.items).foldl Configuration.put (.start m₂)) := by
    rw [parse_eq_walk hc.descs_ne hm, hleft, hs, walk, Desc.apply, onInterface_refused hr]
  exact ⟨m₂, _, hread.trans (congrArg _ hparse)⟩

end History

/-- A device with a second interface of four endpoints. -/
def exampleComposite : List UInt8 :=
  [9, 2, 69, 0, 2, 1, 0, 0xA0, 45, 9, 4, 0, 0, 2, 0xFF, 0, 0, 0, 7, 5, 0x81, 2, 64, 0, 0,
    7, 5, 2, 2, 64, 0, 0, 9, 4, 1, 0, 4, 0xFF, 0, 0, 0, 7, 5, 0x82, 2, 64, 0, 0,
    7, 5, 3, 2, 64, 0, 0, 7, 5, 0x83, 2, 64, 0, 0, 7, 5, 4, 2, 64, 0, 0]

theorem refused_after_longer_exampleStick :
    (∃ m c', readConfig (buffer ([] ++ exampleComposite :: [[18, 1]])) exampleStick.bytes
        (.start fun _ => 0) = (m, .ret errNomem c')) ∧
      ∃ m c', readConfig (buffer [[18, 1]]) exampleStick.bytes (.start fun _ => 0) =
          (m, .ret 0 c') ∧ c'.configDesc = .read (memoryOf exampleStick.bytes) 0 ∧
        c'.Exact (declared exampleStick.items) :=
  refused_after_longer exampleStick exampleStick_conforming (by decide) [] [[18, 1]]
    exampleComposite ⟨9, 4, 1, 0, 4, 0xFF, 0, 0, 0⟩ (by decide) (by decide) (by decide) (by decide)
    (by decide) (.start fun _ => 0)

end Cdc2Net.Source.Enumerate
