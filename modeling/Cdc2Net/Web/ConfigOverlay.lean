import Cdc2Net.Web.ConfigPost

/-!
# What a body changes

The eight addresses of `h_config_post` go through `json_field`, which has written into the
settings by the time it finds out that the value does not end or does not fit; the handler does
not look at its result. Nor does the search know whether it has found the name of a member, and
of the escapes it only knows those that stand for the byte after the backslash.

What the body gives for a name is what the JSON reader finds complete in the text that the
handler holds (`given`), and so in the body itself (`given_received`). An
address stays or becomes such a value if the search comes to the member itself and a short
value without other escapes stands there (`config_overlay`). One character too many is enough
to save an address that nobody gave (`config_overlay_fails`). Of two stored values one is then
lost, unless the body gives at some other place what is saved (`kept_only_if`).
-/

set_option autoImplicit false

namespace Cdc2Net.Web

open Cdc2Net.Lib.Json
open Cdc2Net.Settings
open Cdc2Net.Source (asciiBytes)

/-! ## What should be saved -/

/-- The address that the settings have under a key. -/
def address (c : Cfg) (k : NvsKey) : Bytes :=
  match c.value k with
  | some (.str s) => s.1
  | _ => []

/-- The bytes that the client sends. -/
def received : List Recv → Bytes
  | [] => []
  | .timeout :: rs => received rs
  | .closed :: _ => []
  | .data bs :: rs => bs ++ received rs

theorem readBody_zero (rs : List Recv) : readBody 0 rs = [] := by
  induction rs with
  | nil => rfl
  | cons r rs ih =>
    cases r with
    | timeout => exact ih
    | closed => rfl
    | data bs => exact if_pos (Or.inr rfl)

theorem readBody_received (room : Nat) (rs : List Recv) : readBody room rs <+: received rs := by
  induction rs generalizing room with
  | nil => exact List.prefix_rfl
  | cons r rs ih =>
    cases r with
    | timeout => exact ih room
    | closed => exact List.prefix_rfl
    | data bs =>
      rw [readBody, received]
      split
      · exact List.nil_prefix
      · by_cases hroom : bs.length ≤ room
        · rw [List.take_of_length_le hroom]
          exact (List.prefix_append_right_inj bs).2 (ih _)
        · rw [Nat.sub_eq_zero_of_le (Nat.le_of_not_le hroom), readBody_zero, List.append_nil]
          exact (List.take_prefix room bs).trans (List.prefix_append bs _)

/-- What the text of the handler gives, the body gives. -/
theorem given_received {p : ConfigPost} {k x : Bytes} (h : x ∈ given p.body.1 k) :
    x ∈ given (received p.recvs) k :=
  given_mono ((List.takeWhile_prefix _).trans (readBody_received 511 p.recvs)) h

/-- A string field after a request: the old value or one that the body gives, and the old
value if the body gives none that fits the fifteen characters. -/
def FieldKept (text key old new : Bytes) : Prop :=
  (new = old ∨ new ∈ given text key) ∧ ((∀ v ∈ given text key, 15 < v.length) → new = old)

/-- Every string field of the settings. -/
def OverlaysWhole (body : Text) (old new : Cfg) : Prop :=
  ∀ f ∈ addressFields, FieldKept body.1 (asciiBytes f.1) (address old f.2) (address new f.2)

/-! ## When it is -/

/-- The inside of a string in which a backslash stands before a quote, a backslash or a
slash only. -/
inductive Spells : Bytes → Bytes → Prop
  | nil : Spells [] []
  | plain {b : UInt8} {raw s : Bytes} (hb : isPlain b = true) (h : Spells raw s) :
      Spells (b :: raw) (b :: s)
  | escape {b : UInt8} {raw s : Bytes} (hb : b = quote ∨ b = backslash ∨ b = 47)
      (h : Spells raw s) : Spells (backslash :: b :: raw) (b :: s)

/-- Behind blanks and tabs stands a value to its end: a string with its closing quote, a
number with what ends it, or one of the words. -/
inductive StandsAt : Bytes → Bytes → Prop
  | string (ws : Blanks) {raw s : Bytes} (h : Spells raw s) (rest : Bytes) :
      StandsAt (ws.1 ++ quote :: (raw ++ quote :: rest)) s
  | number (ws : Blanks) (lit : NumberText) {b : UInt8} (hb : isDelim b = true) (hne : b ≠ 93)
      (rest : Bytes) : StandsAt (ws.1 ++ (lit.1 ++ b :: rest)) lit.1
  | word (ws : Blanks) {w : Bytes} (hw : w ∈ ["true", "false", "null"].map asciiBytes)
      {rest : Bytes} (hrest : ∀ b ∈ rest.head?, isDelim b = true) :
      StandsAt (ws.1 ++ (w ++ rest)) w

/-- The text at `p` is behind the colon of a member of the outermost object, and a value of at
most fifteen characters stands there. -/
structure OwnValue (text key p : Bytes) : Prop where
  member : ∃ u ms, text = u ++ colon :: p ∧ run ⟨.value, []⟩ u = some ⟨.colon ms key, []⟩
  stands : ∃ v, StandsAt p v ∧ v.length ≤ 15

/-- A text does nothing wrong to a field: the name in quotes and a colon after it do not
occur, or the first such colon is the one of the member and its value stands there. -/
def Harmless (text key : Bytes) : Prop :=
  ∀ p, afterColon text key = some p → OwnValue text key p

/-- It does nothing wrong to any. -/
def AllHarmless (body : Text) : Prop := ∀ f ∈ addressFields, Harmless body.1 (asciiBytes f.1)

section Fields

variable {text key p v raw s rest old old' : Bytes} {room : Nat}

theorem Spells.readsString (h : Spells raw s) : ReadsString raw s := by
  induction h with
  | nil => exact .nil
  | plain hb _ ih => exact (ReadsString.plain hb).append ih
  | @escape b _ _ hb _ ih => exact (ReadsString.escape (if_pos hb)).append ih

theorem Spells.of_plain (h : ∀ b ∈ s, isPlain b = true) : Spells s s := by
  induction s with
  | nil => exact .nil
  | cons b s ih =>
    exact .plain (h b List.mem_cons_self) (ih fun b' hb' => h b' (List.mem_cons_of_mem b hb'))

/-- What the JSON reader makes of the value. -/
theorem StandsAt.complete (h : StandsAt p v) (ms : List (Bytes × Lib.Json.Value)) (k : Bytes) :
    ∃ q s w, q <+: p ∧ run ⟨.value, [.mem ms k]⟩ q = some s ∧ (k, w) ∈ s.members ∧
      w.text = some v := by
  cases h with
  | @string ws raw _ h rest =>
    refine ⟨ws.1 ++ quote :: (raw ++ [quote]), ⟨.after (.str v), [.mem ms k]⟩, .str v,
      ⟨rest, by simp⟩, ?_, by simp [State.members], rfl⟩
    rw [run_blanks ws.isBlank, run_cons]
    exact h.readsString.quoted .value _ []
  | @number ws lit b hb hne rest =>
    obtain ⟨s, hs, hmem⟩ := exists_run_delim (.num lit.1) ms k hb hne
    refine ⟨ws.1 ++ (lit.1 ++ [b]), s, .num lit.1, ⟨rest, by simp⟩, ?_, hmem, rfl⟩
    rw [run_blanks ws.isBlank, Reads.number lit.2 _ b [] hb]
    exact hs
  | @word ws _ hw rest hrest =>
    simp only [List.map_cons, List.map_nil, List.mem_cons, List.not_mem_nil, or_false] at hw
    have hrun : ∃ u : Lib.Json.Value, run ⟨.value, [.mem ms k]⟩ v = some ⟨.after u, [.mem ms k]⟩ ∧
        u.text = some v := by
      rcases hw with rfl | rfl | rfl
      · exact ⟨.bool true, rfl, rfl⟩
      · exact ⟨.bool false, rfl, rfl⟩
      · exact ⟨.null, rfl, rfl⟩
    obtain ⟨u, hu, htext⟩ := hrun
    refine ⟨ws.1 ++ v, _, u, ⟨rest, by simp⟩, (run_blanks ws.isBlank v).trans hu, ?_, htext⟩
    simp [State.members]

/-- A value of the member is given. -/
theorem OwnValue.mem_given (h : OwnValue text key p) (hv : StandsAt p v) :
    v ∈ given text key := by
  obtain ⟨u, ms, rfl, hu⟩ := h.member
  obtain ⟨q, s, w, hq, hrun, hmem, htext⟩ := hv.complete ms key
  have hprefix : u ++ colon :: q <+: u ++ colon :: p :=
    (List.prefix_append_right_inj u).2 (List.cons_prefix_cons.2 ⟨rfl, hq⟩)
  refine Lib.Json.mem_given hprefix (s := s) ?_ hmem htext
  rw [run_append, hu, Option.bind_some, run_cons]
  exact hrun

theorem readQuoted_spells (h : Spells raw s) (hlen : s.length ≤ room) :
    (readQuoted room (raw ++ quote :: rest)).1 = s := by
  induction h generalizing room with
  | nil => cases room <;> rfl
  | @plain b raw s hb _ ih =>
    cases room with
    | zero => cases hlen
    | succ room =>
      obtain ⟨hquote, hback, -⟩ := not_lt_of_isPlain hb
      rw [List.cons_append, readQuoted.eq_def]
      simp only [if_neg hquote, if_neg hback, ih (Nat.le_of_succ_le_succ hlen)]
  | @escape b raw s _ _ ih =>
    cases room with
    | zero => cases hlen
    | succ room => exact congrArg (b :: ·) (ih (Nat.le_of_succ_le_succ hlen))

theorem endsValue_of_isDelim {b : UInt8} (h : isDelim b = true) : endsValue b = true := by
  rcases isDelim_cases h with rfl | rfl | rfl | rfl | rfl | rfl | rfl <;> rfl

/-- What `json_field` leaves in the array. -/
theorem readValue_standsAt (h : StandsAt p v) (hlen : v.length ≤ 15) :
    (readValue 16 p).2 = some v := by
  cases h with
  | @string ws raw _ h rest =>
    have hdrop : (ws.1 ++ quote :: (raw ++ quote :: rest)).dropWhile
        (fun b => decide (b = 32) || decide (b = 9)) = 34 :: (raw ++ quote :: rest) :=
      dropWhile_blanks ws ⟨rfl, rfl⟩
    rw [readValue_quote hdrop]
    exact congrArg some (readQuoted_spells h hlen)
  | @number ws lit b hb hne rest =>
    rw [readValue_literal (isNumber_ne_nil lit.2) (number_ends lit)
      (quote_notMem_print (.num lit) (by simp)) (endsValue_of_isDelim hb),
      List.take_of_length_le hlen]
  | @word ws _ hw rest hrest =>
    have hword : v ≠ [] ∧ (∀ b ∈ v, endsValue b = false) ∧ quote ∉ v := by
      simp only [List.map_cons, List.map_nil, List.mem_cons, List.not_mem_nil, or_false] at hw
      rcases hw with rfl | rfl | rfl <;> decide
    obtain ⟨hne, hends, hquote⟩ := hword
    cases rest with
    | nil =>
      -- the text ends with the word
      simp only [List.map_cons, List.map_nil, List.mem_cons, List.not_mem_nil, or_false] at hw
      rw [readValue, dropWhile_blanks ws ⟨rfl, rfl⟩, List.append_nil]
      rcases hw with rfl | rfl | rfl <;> rfl
    | cons b rest =>
      rw [readValue_literal hne hends hquote (endsValue_of_isDelim (hrest b rfl)),
        List.take_of_length_le hlen]

/-- The field after the request. -/
def overlaid (text key old : Bytes) : Bytes := (jsonField text key 16).2.getD old

theorem overlayStr_bytes (body : Text) (key : String) (cur : CStr 16) :
    (overlayStr body key cur).bytes = overlaid body.1 (asciiBytes key) cur.bytes := by
  rw [overlayStr, overlaid, fieldStr]
  rcases Option.eq_none_or_eq_some (jsonField body.1 (asciiBytes key) 16).2 with
    hout | ⟨out, hout⟩
  · rw [Option.pmap_eq_none_iff.2 hout, hout]
    rfl
  · rw [Option.pmap_some' hout, hout]
    rfl

theorem overlaid_none (h : afterColon text key = none) : overlaid text key old = old := by
  rw [overlaid, jsonField, h]
  rfl

/-- Where the search comes to something, the old value is gone. -/
theorem exists_overlaid (h : afterColon text key = some p) :
    ∃ out, out.length ≤ 15 ∧ ∀ old, overlaid text key old = out := by
  obtain ⟨out, hout⟩ : ∃ out, (jsonField text key 16).2 = some out := by
    rw [jsonField, h]
    dsimp only
    rw [readValue]
    split <;> exact ⟨_, rfl⟩
  have hlen := (jsonField_out (by decide) hout).1
  exact ⟨out, by omega, fun old => by rw [overlaid, hout]; rfl⟩

/-- A harmless text leaves the old value or one that it gives. -/
theorem Harmless.kept (h : Harmless text key) (old : Bytes) :
    FieldKept text key old (overlaid text key old) := by
  cases hp : afterColon text key with
  | none =>
    rw [overlaid_none hp]
    exact ⟨Or.inl rfl, fun _ => rfl⟩
  | some p =>
    have hown := h p hp
    obtain ⟨v, hv, hlen⟩ := hown.stands
    have hnew : overlaid text key old = v := by
      rw [overlaid, jsonField, hp, readValue_standsAt hv hlen]
      rfl
    have hgiven := hown.mem_given hv
    rw [hnew]
    exact ⟨Or.inr hgiven, fun hlong => absurd (hlong v hgiven) (by omega)⟩

/-- A text that leaves two different values as they should be says nothing of the field, or
gives what it leaves. -/
theorem given_of_kept (hne : old ≠ old') (h : FieldKept text key old (overlaid text key old))
    (h' : FieldKept text key old' (overlaid text key old')) :
    afterColon text key = none ∨ overlaid text key old ∈ given text key := by
  cases hp : afterColon text key with
  | none => exact Or.inl rfl
  | some p =>
    obtain ⟨out, -, hout⟩ := exists_overlaid hp
    rw [hout] at h h' ⊢
    refine Or.inr (h.1.elim (fun hold => h'.1.elim (fun hold' => ?_) id) id)
    exact absurd (hold.symm.trans hold') hne

end Fields

/-! ## The settings that are saved -/

section Saved

variable {c : Cfg} {nvs : Nvs} {p : ConfigPost} {f : String × NvsKey}

theorem address_overlayCfg (body : Text) (hf : f ∈ addressFields) :
    address (overlayCfg body c) f.2 = overlaid body.1 (asciiBytes f.1) (address c f.2) := by
  simp only [addressFields, List.mem_cons, List.not_mem_nil, or_false] at hf
  rcases hf with rfl | rfl | rfl | rfl | rfl | rfl | rfl | rfl <;>
    exact overlayStr_bytes body _ _

theorem address_loaded (hf : f ∈ addressFields) : address c.loaded f.2 = address c f.2 := by
  simp only [addressFields, List.mem_cons, List.not_mem_nil, or_false] at hf
  rcases hf with rfl | rfl | rfl | rfl | rfl | rfl | rfl | rfl <;> rfl

theorem address_congr {c c' : Cfg} {k : NvsKey} (h : c.value k = c'.value k) :
    address c k = address c' k := by
  rw [address, address, h]

/-- The settings after a request, field by field. -/
theorem address_hConfigPost (p : ConfigPost) (nvs : Nvs) (hf : f ∈ addressFields) :
    address (configLoad (hConfigPost p nvs).2) f.2 = address (configLoad nvs) f.2 ∨
      address (configLoad (hConfigPost p nvs).2) f.2 =
        address (overlayCfg p.body (configLoad nvs)) f.2 := by
  have hsave := (value_configSave p.calls nvs (overlayCfg p.body (configLoad nvs)) f.2).imp
    address_congr fun h => (address_congr h).trans (address_loaded hf)
  rw [hConfigPost]
  dsimp only
  split
  · exact Or.inl rfl
  · split
    · exact Or.inl rfl
    · split
      · exact hsave
      · exact hsave

/-- The answer that they are saved. -/
theorem configLoad_hConfigPost (h : (hConfigPost p nvs).1 = some .saved) :
    configLoad (hConfigPost p nvs).2 = (overlayCfg p.body (configLoad nvs)).loaded := by
  rw [hConfigPost] at h ⊢
  dsimp only at h ⊢
  split at h
  · cases h
  · next hip =>
    rw [if_neg hip]
    split at h
    · cases h
    · next heth =>
      rw [if_neg heth]
      split at h
      · cases h
      · next e hend =>
        split at h
        · next hok => exact configLoad_saved (hend.trans (by rw [hok]))
        · cases h

end Saved

/-- If the body does nothing wrong to the fields, every string field of the settings is, however
the save goes, the old value or one that the body gives, and the old value if the body gives none
that fits. -/
theorem config_overlay (p : ConfigPost) (nvs : Nvs) (h : AllHarmless p.body) :
    OverlaysWhole p.body (configLoad nvs) (configLoad (hConfigPost p nvs).2) := by
  intro f hf
  rcases address_hConfigPost p nvs hf with hold | hnew
  · rw [hold]
    exact ⟨Or.inl rfl, fun _ => rfl⟩
  · rw [hnew, address_overlayCfg p.body hf]
    exact (h f hf).kept _

/-- The search comes to the one address that the body has. -/
theorem allHarmless_address : AllHarmless addressPost.body := by
  intro f hf p hp
  simp only [addressFields, List.mem_cons, List.not_mem_nil, or_false] at hf
  have hip : afterColon addressPost.body.1 (asciiBytes "ip") =
      some (quote :: (asciiBytes "10.0.0.2" ++ quote :: [125])) := by decide +kernel
  have hnone : ∀ k ∈ ["mask", "gw", "dns", "eth_ip", "eth_mask", "eth_gw", "eth_dns"],
      afterColon addressPost.body.1 (asciiBytes k) = none := by decide +kernel
  rcases hf with rfl | rfl | rfl | rfl | rfl | rfl | rfl | rfl
  · obtain rfl := Option.some.inj (hip.symm.trans hp)
    exact ⟨⟨asciiBytes "\x7b\"ip\"", [], by decide +kernel, rfl⟩, _,
      .string noBlanks (.of_plain (by decide)) [125], by decide⟩
  all_goals
    rw [hnone _ (by simp)] at hp
    cases hp

theorem config_overlay_address :
    (hConfigPost addressPost erasedNvs).1 = some .saved ∧
      (configLoad (hConfigPost addressPost erasedNvs).2).ip.bytes = asciiBytes "10.0.0.2" ∧
      OverlaysWhole addressPost.body (configLoad erasedNvs)
        (configLoad (hConfigPost addressPost erasedNvs).2) :=
  ⟨by decide +kernel, by decide +kernel, config_overlay addressPost erasedNvs allHarmless_address⟩

/-- Of two stored values of a field the same body can leave both as they should be only if the
search finds nothing, or if the body gives the characters that are saved. -/
theorem kept_only_if {p : ConfigPost} {nvs nvs' : Nvs} {f : String × NvsKey}
    (hf : f ∈ addressFields) (hne : address (configLoad nvs) f.2 ≠ address (configLoad nvs') f.2)
    (hsaved : (hConfigPost p nvs).1 = some .saved) (hsaved' : (hConfigPost p nvs').1 = some .saved)
    (h : OverlaysWhole p.body (configLoad nvs) (configLoad (hConfigPost p nvs).2))
    (h' : OverlaysWhole p.body (configLoad nvs') (configLoad (hConfigPost p nvs').2)) :
    afterColon p.body.1 (asciiBytes f.1) = none ∨
      address (configLoad (hConfigPost p nvs).2) f.2 ∈ given p.body.1 (asciiBytes f.1) := by
  have hkept := h f hf
  have hkept' := h' f hf
  rw [configLoad_hConfigPost hsaved, address_loaded hf, address_overlayCfg p.body hf] at hkept ⊢
  rw [configLoad_hConfigPost hsaved', address_loaded hf, address_overlayCfg p.body hf] at hkept'
  exact given_of_kept hne hkept hkept'

/-- An address with the length of its network, sixteen characters. -/
def lengthPost : ConfigPost := postText "\x7b\"ip\":\"192.168.1.100/24\"\x7d"

/-- The stored address is replaced by one that the body does not give. -/
theorem config_overlay_fails :
    (hConfigPost lengthPost (hConfigPost addressPost erasedNvs).2).1 = some .saved ∧
      (configLoad (hConfigPost addressPost erasedNvs).2).ip.bytes = asciiBytes "10.0.0.2" ∧
      asciiBytes "192.168.1.100/24" ∈ given lengthPost.body.1 (asciiBytes "ip") ∧
      (configLoad (hConfigPost lengthPost (hConfigPost addressPost erasedNvs).2).2).ip.bytes =
        asciiBytes "192.168.1.100/2" ∧
      ¬ OverlaysWhole lengthPost.body (configLoad (hConfigPost addressPost erasedNvs).2)
        (configLoad (hConfigPost lengthPost (hConfigPost addressPost erasedNvs).2).2) := by
  refine ⟨by decide +kernel, by decide +kernel, by decide +kernel, by decide +kernel, ?_⟩
  intro h
  have hip := (h ("ip", .ip) (by simp [addressFields])).1
  revert hip
  decide +kernel

/-- An escape that `json_field` does not know. -/
example : given (postText "\x7b\"ip\":\"1\\u0030\"\x7d").body.1 (asciiBytes "ip") ⊆
      [asciiBytes "10"] ∧
    (overlayCfg (postText "\x7b\"ip\":\"1\\u0030\"\x7d").body (configLoad erasedNvs)).ip.bytes =
      asciiBytes "1u0030" := by
  decide +kernel

end Cdc2Net.Web
