import Cdc2Net.Lib.FlatJson
import Cdc2Net.Source.SerialCfg
import Mathlib.Data.List.TakeWhile

/-!
# The fields of a request body

`json_field` and `json_field_truthy` of `webui.c`: a search for the name in quotes and for the
next colon, whatever the text is. On the text of a flat object the search stops at the first
string, name or value, that is the name or ends in a quote followed by it (`Mention`,
`afterColon_print`). If this is the name itself, or the value in front of it, its value is found.
Otherwise the value of another member is taken for it, or the rest of a name with a colon, and
only by chance is it the right one (`handler_lookups_agree`).
-/

set_option autoImplicit false

namespace Cdc2Net.Web

open Cdc2Net.Lib.Json
open Cdc2Net.Source (asciiBytes cString)

/-! ## The handlers' reader -/

/-- What `httpd_req_recv` returns: bytes of the body, `HTTPD_SOCK_ERR_TIMEOUT`, or that there
are no more. -/
inductive Recv where
  | data (bs : Bytes)
  | timeout
  | closed

/-- `read_body` into `room + 1` bytes. -/
def readBody : Nat → List Recv → Bytes
  | _, [] => []
  | room, .timeout :: rs => readBody room rs
  | _, .closed :: _ => []
  | room, .data bs :: rs =>
    if bs = [] ∨ room = 0 then [] else bs.take room ++ readBody (room - bs.length) rs

/-- `strstr`: the text from the first occurrence on. -/
def strstr (pat : Bytes) : Bytes → Option Bytes
  | [] => if pat = [] then some [] else none
  | b :: text => if pat <+: b :: text then some (b :: text) else strstr pat text

/-- `strchr`. -/
def strchr (c : UInt8) : Bytes → Option Bytes
  | [] => none
  | b :: text => if b = c then some (b :: text) else strchr c text

/-- `needle`, the name in quotes in an array of 40 bytes. -/
def needle (key : Bytes) : Bytes := (quote :: key ++ [quote]).take 39

/-- The text after the colon that follows the first occurrence of the needle. -/
def afterColon (text key : Bytes) : Option Bytes :=
  match strstr (needle key) text with
  | none => none
  | some p =>
    match strchr colon (p.drop (needle key).length) with
    | none => none
    | some p => some (p.drop 1)

/-- The loop over a quoted value: what is written, and the text it stops at; `room` is what
the array still takes. -/
def readQuoted : Nat → Bytes → Bytes × Bytes
  | 0, p => ([], p)
  | _ + 1, [] => ([], [])
  | room + 1, b :: p =>
    if b = quote then ([], b :: p)
    else if b = backslash then
      match p with
      | [] => ([b], [])
      | c :: p => (c :: (readQuoted room p).1, (readQuoted room p).2)
    else (b :: (readQuoted room p).1, (readQuoted room p).2)

/-- What ends an unquoted value. -/
def endsValue (b : UInt8) : Bool :=
  b = 44 || b = 125 || b = 93 || b = 32 || b = 9 || b = 10 || b = 13

/-- The value at `p`, for an array of `cap` bytes: whether `json_field` returns 0, and the
string in the array. -/
def readValue (cap : Nat) (p : Bytes) : Bool × Option Bytes :=
  match p.dropWhile fun b => b = 32 || b = 9 with
  | 34 :: p => ((readQuoted (cap - 1) p).2.head? = some quote, some (readQuoted (cap - 1) p).1)
  | p =>
    let out := (p.takeWhile fun b => !endsValue b).take (cap - 1)
    (out ≠ [], some out)

/-- `json_field`; the array is left alone where the field is not found. -/
def jsonField (text key : Bytes) (cap : Nat) : Bool × Option Bytes :=
  match afterColon text key with
  | none => (false, none)
  | some p => readValue cap p

/-- What `json_field_truthy` takes for true. -/
def isTrue (p : Bytes) : Bool :=
  let p := p.dropWhile fun b => b = 32 || b = 9 || b = 34
  asciiBytes "true" <+: p || p.head? = some 49

/-- `json_field_truthy`. -/
def jsonFieldTruthy (text key : Bytes) : Bool :=
  match afterColon text key with
  | none => false
  | some p => isTrue p

/-- The names that the handlers look up. -/
def handlerKeys : List Bytes :=
  ["tcp_port", "static_ip", "ip", "mask", "gw", "dns", "eth_static_ip", "eth_ip", "eth_mask",
    "eth_gw", "eth_dns", "wdt_enable", "wdt_timeout_s", "key", "delete", "baud", "bits",
    "parity", "stop", "ssid", "pass"].map asciiBytes

/-- A name of letters and underscores that fits the needle. -/
def IsKey (k : Bytes) : Prop :=
  k ≠ [] ∧ k.length ≤ 37 ∧ ∀ b ∈ k, b = 95 ∨ 97 ≤ b ∧ b ≤ 122

instance (k : Bytes) : Decidable (IsKey k) := inferInstanceAs (Decidable (_ ∧ _ ∧ _))

theorem isKey_of_mem {k : Bytes} (h : k ∈ handlerKeys) : IsKey k := by
  have hall : ∀ k ∈ handlerKeys, IsKey k := by decide
  exact hall k h

/-! ## The search on the text of a flat object -/

/-- The name in quotes occurs in the text of this string. -/
def Mentions (k s : Bytes) : Prop := s = k ∨ (quote :: k) <:+ s

instance (k s : Bytes) : Decidable (Mentions k s) := inferInstanceAs (Decidable (_ ∨ _))

section Search

variable {k s a text rest pat : Bytes} {b c : UInt8}

theorem strstr_cons (h : ¬ pat <+: b :: text) : strstr pat (b :: text) = strstr pat text :=
  if_neg h

/-- The bytes of a needle that fits its array. -/
theorem needle_eq (h : IsKey k) : needle k = quote :: k ++ [quote] := by
  refine List.take_of_length_le ?_
  have hlen := h.2.1
  simp only [List.length_append, List.length_cons, List.length_nil]
  omega

/-- A byte of a name is no other byte of the syntax. -/
theorem IsKey.ne (h : IsKey k) (hb : b ∈ k) :
    b ≠ quote ∧ b ≠ backslash ∧ b ≠ colon ∧ b ≠ comma ∧ b ≠ 125 ∧ b ≠ 32 ∧ b ≠ 9 := by
  have hrange : b.toNat = 95 ∨ 97 ≤ b.toNat ∧ b.toNat ≤ 122 := by
    have hword := h.2.2 b hb
    rw [← UInt8.toNat_inj, UInt8.le_iff_toNat_le, UInt8.le_iff_toNat_le] at hword
    exact hword
  have hne : ∀ c : UInt8, c.toNat < 95 ∨ c.toNat = 125 → b ≠ c := by
    rintro c hc rfl
    omega
  exact ⟨hne _ (by decide), hne _ (by decide), hne _ (by decide), hne _ (by decide),
    hne _ (by decide), hne _ (by decide), hne _ (by decide)⟩

theorem IsKey.isPlain (h : IsKey k) : ∀ b ∈ k, isPlain b = true := by
  intro b hb
  have hlo : 32 ≤ b := by
    rcases h.2.2 b hb with rfl | ⟨hlo, -⟩
    · decide
    · exact UInt8.le_trans (by decide) hlo
  rw [isPlain_iff hlo]
  exact fun hor => hor.elim (h.ne hb).1 (h.ne hb).2.1

/-- The search goes over a byte that is no quote. -/
theorem strstr_skip (hb : b ≠ quote) :
    strstr (quote :: a) (b :: text) = strstr (quote :: a) text :=
  strstr_cons fun hp => hb (List.cons_prefix_cons.1 hp).1.symm

theorem strstr_append (h : quote ∉ s) :
    strstr (quote :: a) (s ++ text) = strstr (quote :: a) text := by
  induction s with
  | nil => rfl
  | cons b s ih =>
    rw [List.cons_append, strstr_skip fun hb => h (hb ▸ List.mem_cons_self)]
    exact ih fun hs => h (List.mem_cons_of_mem b hs)

/-- The name and a quote stand at the head of a string if and only if it is the name. -/
theorem starts_escape_iff (h : ∀ b ∈ k, b ≠ quote ∧ b ≠ backslash) :
    k ++ [quote] <+: escape s ++ quote :: rest ↔ s = k := by
  induction k generalizing s with
  | nil =>
    cases s with
    | nil => simp [escape_nil]
    | cons c s =>
      rw [escape_cons]
      split
      · simp
        decide
      · next hplain => simp [Ne.symm (not_or.1 hplain).1]
  | cons b k ih =>
    obtain ⟨hquote, hback⟩ := h b List.mem_cons_self
    have htail := fun s => ih (s := s) fun b' hb' => h b' (List.mem_cons_of_mem b hb')
    cases s with
    | nil => simp [escape_nil, hquote]
    | cons c s =>
      rw [escape_cons]
      split
      · next hesc =>
        have hne : c ≠ b := by
          rintro rfl
          exact hesc.elim hquote hback
        simp [hback, hne]
      · simp only [List.cons_append, List.nil_append, List.cons_prefix_cons, htail,
          List.cons.injEq]
        exact ⟨fun ⟨hb, hs⟩ => ⟨hb.symm, hs⟩, fun ⟨hb, hs⟩ => ⟨hb.symm, hs⟩⟩

/-- At a quote before a string. -/
theorem strstr_quote (h : IsKey k) :
    strstr (needle k) (quote :: (escape s ++ quote :: rest)) =
      if s = k then some (needle k ++ rest)
      else strstr (needle k) (escape s ++ quote :: rest) := by
  have hplain : ∀ b ∈ k, b ≠ quote ∧ b ≠ backslash := fun b hb => ⟨(h.ne hb).1, (h.ne hb).2.1⟩
  rw [needle_eq h]
  have hiff : quote :: k ++ [quote] <+: quote :: (escape s ++ quote :: rest) ↔ s = k := by
    rw [List.cons_append, List.cons_prefix_cons, starts_escape_iff hplain]
    simp
  split
  · next hs =>
    rw [strstr, if_pos (hiff.2 hs), hs, escape_of_plain h.isPlain]
    simp
  · next hs => exact strstr_cons fun hp => hs (hiff.1 hp)

/-- Inside a string, and over the quote at its end. -/
theorem strstr_content (h : IsKey k) (hrest : ∀ b, rest.head? = some b → b ∉ k) :
    strstr (needle k) (escape s ++ quote :: rest) =
      if (quote :: k) <:+ s then some (needle k ++ rest) else strstr (needle k) rest := by
  induction s with
  | nil =>
    rw [if_neg (by simp), escape_nil, List.nil_append, needle_eq h, strstr_cons]
    rw [List.cons_append, List.cons_prefix_cons]
    rintro ⟨-, hp⟩
    -- the needle would go on over the end of the string
    cases hk : k with
    | nil => exact h.1 hk
    | cons b k' =>
      rw [hk] at hp
      obtain ⟨tail, htail⟩ := hp
      exact hrest b (by rw [← htail]; rfl) (hk ▸ List.mem_cons_self)
  | cons c s ih =>
    have hsuffix : (quote :: k) <:+ c :: s ↔ c = quote ∧ s = k ∨ (quote :: k) <:+ s := by
      rw [List.suffix_cons_iff, List.cons.injEq]
      constructor <;> rintro (⟨rfl, rfl⟩ | hs)
      all_goals first | exact Or.inl ⟨rfl, rfl⟩ | exact Or.inr hs
    have hskip : ∀ b : UInt8, b ≠ quote → ∀ text,
        strstr (needle k) (b :: text) = strstr (needle k) text := by
      intro b hb text
      rw [needle_eq h]
      exact strstr_skip hb
    rw [escape_cons]
    by_cases hquote : c = quote
    · -- behind its backslash the quote can open the needle
      subst hquote
      rw [if_pos (Or.inl rfl), List.append_assoc, List.cons_append, List.singleton_append,
        hskip backslash (by decide), strstr_quote h, ih]
      by_cases hs : s = k
      · rw [if_pos hs, if_pos (hsuffix.2 (Or.inl ⟨rfl, hs⟩))]
      · rw [if_neg hs]
        simp only [hsuffix, hs, and_false, false_or]
    · have hor : ((quote :: k) <:+ c :: s) = ((quote :: k) <:+ s) := by
        simp [hsuffix, hquote]
      simp only [hor]
      rw [← ih]
      split
      · next hesc =>
        rw [List.append_assoc, List.cons_append, List.singleton_append,
          hskip backslash (by decide), hskip c hquote]
      · rw [List.append_assoc, List.singleton_append, hskip c hquote]

/-- Over a string with its quotes. -/
theorem strstr_string (h : IsKey k) (hrest : ∀ b, rest.head? = some b → b ∉ k) :
    strstr (needle k) (quote :: (escape s ++ quote :: rest)) =
      if Mentions k s then some (needle k ++ rest) else strstr (needle k) rest := by
  rw [strstr_quote h, strstr_content h hrest]
  by_cases hs : s = k
  · rw [if_pos hs, if_pos (show Mentions k s from Or.inl hs)]
  · simp only [Mentions, hs, false_or, if_false]

theorem strchr_append (h : c ∉ s) : strchr c (s ++ text) = strchr c text := by
  induction s with
  | nil => rfl
  | cons b s ih =>
    have hb : b ≠ c := by
      rintro rfl
      exact h List.mem_cons_self
    rw [List.cons_append, strchr, if_neg hb]
    exact ih fun hs => h (List.mem_cons_of_mem b hs)

theorem strchr_cons : strchr c (c :: text) = some (c :: text) := if_pos rfl

end Search

/-! ## Where the search comes to -/

/-- The text of a member after its colon. -/
def valueText (m : FlatMember) : Bytes :=
  m.beforeValue.1 ++ m.scalar.print ++ m.afterValue.1

/-- The text after a member: the others, each after a comma, and the end. -/
def following (tail : Bytes) (ms : List FlatMember) : Bytes :=
  ms.flatMap (fun m => comma :: m.print) ++ tail

/-- The first string that mentions a name, the name or the value of a member that the others
follow. -/
inductive Mention where
  | name (m : FlatMember) (ms : List FlatMember)
  | value (m : FlatMember) (ms : List FlatMember)

/-- A string value that mentions the name. -/
def MentionsValue (k : Bytes) : Scalar → Prop
  | .str s => Mentions k s.1
  | _ => False

instance (k : Bytes) : DecidablePred (MentionsValue k)
  | .str s => inferInstanceAs (Decidable (Mentions k s.1))
  | .num _ => .isFalse id
  | .bool _ => .isFalse id

def firstMention (k : Bytes) : List FlatMember → Option Mention
  | [] => none
  | m :: ms =>
    if Mentions k m.key.1 then some (.name m ms)
    else if MentionsValue k m.scalar then some (.value m ms)
    else firstMention k ms

/-- What stands in a text after the next colon: in front of a value, or inside the next
name if that has a colon. -/
def Mention.place (tail : Bytes) : Mention → Option Bytes
  | .name m ms => some (valueText m ++ following tail ms)
  | .value _ [] => none
  | .value _ (m :: ms) =>
    if colon ∈ m.key.1 then
      some (escape (m.key.1.dropWhile (· ≠ colon)).tail ++
        quote :: (m.beforeColon.1 ++ colon :: (valueText m ++ following tail ms)))
    else some (valueText m ++ following tail ms)

section Place

variable {k tail rest : Bytes} {m : FlatMember} {ms : List FlatMember} {b : UInt8}

theorem notMem_blanks (ws : Blanks) (h : b ≠ 32 ∧ b ≠ 9) : b ∉ ws.1 :=
  fun hb => (ws.2 b hb).elim h.1 h.2

/-- The end of a text: a brace and blanks. -/
def IsEnd (tail : Bytes) : Prop := ∃ ws : Blanks, tail = 125 :: ws.1

theorem IsEnd.notMem (h : IsEnd tail) (hb : b ≠ 125 ∧ b ≠ 32 ∧ b ≠ 9) : b ∉ tail := by
  obtain ⟨ws, rfl⟩ := h
  rw [List.mem_cons, not_or]
  exact ⟨hb.1, notMem_blanks ws hb.2⟩

theorem head_blanks {ws : Blanks} {c : UInt8} (h : (ws.1 ++ c :: rest).head? = some b) :
    b = 32 ∨ b = 9 ∨ b = c := by
  obtain ⟨_ | ⟨d, ws⟩, hws⟩ := ws
  · cases h
    exact Or.inr (Or.inr rfl)
  · cases h
    exact (hws b List.mem_cons_self).imp_right Or.inl

theorem following_cons : following tail (m :: ms) = comma :: (m.print ++ following tail ms) := by
  simp [following]

/-- After a value there is a comma or a brace. -/
theorem following_head (ms : List FlatMember) (htail : IsEnd tail) :
    ∃ c rest, following tail ms = c :: rest ∧ (c = comma ∨ c = 125) := by
  cases ms with
  | nil =>
    obtain ⟨ws, rfl⟩ := htail
    exact ⟨125, ws.1, rfl, Or.inr rfl⟩
  | cons m ms => exact ⟨comma, _, following_cons, Or.inl rfl⟩

theorem quote_notMem_print (v : Scalar) (h : ∀ s, v ≠ .str s) : quote ∉ v.print := by
  cases v with
  | str s => exact absurd rfl (h s)
  | num lit => exact notMem_number rfl (fun p => by cases p <;> rfl) lit.2
  | bool b => cases b <;> decide

/-- The search over a member. -/
theorem strstr_member (h : IsKey k) (htail : IsEnd tail) :
    strstr (needle k) (m.print ++ following tail ms) =
      if Mentions k m.key.1 then
        some (needle k ++ (m.beforeColon.1 ++ colon :: (valueText m ++ following tail ms)))
      else if MentionsValue k m.scalar then
        some (needle k ++ (m.afterValue.1 ++ following tail ms))
      else strstr (needle k) (following tail ms) := by
  have hskip : ∀ {s text : Bytes}, quote ∉ s →
      strstr (needle k) (s ++ text) = strstr (needle k) text := by
    intro s text hs
    rw [needle_eq h]
    exact strstr_append hs
  have hblank : ∀ ws : Blanks, quote ∉ ws.1 := fun ws => notMem_blanks ws (by decide)
  obtain ⟨c, rest, hfol, hc⟩ := following_head ms htail
  have hname : ∀ b, (m.beforeColon.1 ++ colon :: (valueText m ++ following tail ms)).head? =
      some b → b ∉ k := by
    intro b hb hk
    obtain ⟨-, -, hcolon, -, -, h32, h9⟩ := h.ne hk
    rcases head_blanks hb with hb | hb | hb
    · exact h32 hb
    · exact h9 hb
    · exact hcolon hb
  have hvalue : ∀ b, (m.afterValue.1 ++ following tail ms).head? = some b → b ∉ k := by
    intro b hb hk
    obtain ⟨-, -, -, hcomma, h125, h32, h9⟩ := h.ne hk
    rw [hfol] at hb
    rcases head_blanks hb with hb | hb | hb
    · exact h32 hb
    · exact h9 hb
    · exact hc.elim (fun hc => hcomma (hb.trans hc)) fun hc => h125 (hb.trans hc)
  have hprint : m.print ++ following tail ms = m.beforeName.1 ++ quote :: (escape m.key.1 ++
      quote :: (m.beforeColon.1 ++ colon :: (valueText m ++ following tail ms))) := by
    simp [FlatMember.print, valueText]
  rw [hprint, hskip (hblank _), strstr_string h hname]
  split
  · rfl
  · -- the name is another one; only a string value has quotes
    have hcolon : colon :: (valueText m ++ following tail ms) =
        ([colon] ++ m.beforeValue.1) ++ (m.scalar.print ++ (m.afterValue.1 ++
          following tail ms)) := by
      simp [valueText]
    have hnot : quote ∉ [colon] ++ m.beforeValue.1 := by
      rw [List.mem_append, not_or]
      exact ⟨by decide, hblank _⟩
    rw [hskip (hblank _), hcolon, hskip hnot]
    cases hv : m.scalar with
    | str s =>
      have hstr := strstr_string (s := s.1) h hvalue
      have hprint' : (Scalar.str s).print ++ (m.afterValue.1 ++ following tail ms) =
          quote :: (escape s.1 ++ quote :: (m.afterValue.1 ++ following tail ms)) := by
        simp [Scalar.print]
      rw [hskip (hblank _)] at hstr
      rw [hprint', hstr]
      rfl
    | num lit =>
      rw [if_neg (show ¬ MentionsValue k (.num lit) from id),
        hskip (quote_notMem_print _ (by simp)), hskip (hblank _)]
    | bool b =>
      rw [if_neg (show ¬ MentionsValue k (.bool b) from id),
        hskip (quote_notMem_print _ (by simp)), hskip (hblank _)]

/-- The text after the end of a mention. -/
def Mention.after (tail : Bytes) : Mention → Bytes
  | .name m ms => m.beforeColon.1 ++ colon :: (valueText m ++ following tail ms)
  | .value m ms => m.afterValue.1 ++ following tail ms

/-- The search over the members. -/
theorem strstr_members (h : IsKey k) (htail : IsEnd tail) :
    strstr (needle k) (following tail ms) =
      (firstMention k ms).map fun w => needle k ++ w.after tail := by
  induction ms with
  | nil =>
    have hend : strstr (needle k) (tail ++ []) = strstr (needle k) [] := by
      rw [needle_eq h]
      exact strstr_append (htail.notMem (by decide))
    rw [List.append_nil] at hend
    refine hend.trans (if_neg ?_)
    rw [needle_eq h]
    simp
  | cons m ms ih =>
    have hcomma : strstr (needle k) (following tail (m :: ms)) =
        strstr (needle k) (m.print ++ following tail ms) := by
      rw [following_cons, needle_eq h]
      exact strstr_skip (by decide)
    rw [hcomma, strstr_member h htail, firstMention]
    split
    · rfl
    · split
      · rfl
      · exact ih

theorem escape_append (s t : Bytes) : escape (s ++ t) = escape s ++ escape t :=
  List.flatMap_append

theorem mem_escape {s : Bytes} (hb : b ≠ backslash) : b ∈ escape s ↔ b ∈ s := by
  simp only [escape, List.mem_flatMap]
  constructor
  · rintro ⟨c, hc, hmem⟩
    split at hmem
    · rcases List.mem_cons.1 hmem with rfl | hmem
      · exact absurd rfl hb
      · rwa [List.mem_singleton.1 hmem]
    · rwa [List.mem_singleton.1 hmem]
  · intro hmem
    refine ⟨b, hmem, ?_⟩
    split
    · exact List.mem_cons_of_mem _ List.mem_cons_self
    · exact List.mem_cons_self

/-- A string at its first colon. -/
theorem escape_colon {s : Bytes} (h : colon ∈ s) :
    escape s = escape (s.takeWhile (· ≠ colon)) ++
      colon :: escape (s.dropWhile (· ≠ colon)).tail := by
  have hdrop : s.dropWhile (· ≠ colon) = colon :: (s.dropWhile (· ≠ colon)).tail := by
    induction s with
    | nil => cases h
    | cons b s ih =>
      by_cases hb : b = colon
      · subst hb
        rfl
      · rw [List.dropWhile_cons_of_pos (by simpa using hb)]
        exact ih ((List.mem_cons.1 h).resolve_left (Ne.symm hb))
  have hsplit := List.takeWhile_append_dropWhile (p := fun b => decide (b ≠ colon)) (l := s)
  calc escape s
      = escape (s.takeWhile (· ≠ colon) ++ s.dropWhile (· ≠ colon)) := by rw [hsplit]
    _ = _ := by
      rw [escape_append, hdrop]
      rfl

/-- The search for a colon over the members that follow. -/
theorem strchr_following (ms : List FlatMember) (htail : IsEnd tail) :
    (strchr colon (following tail ms)).map (List.drop 1) =
      match ms with
      | [] => none
      | m :: ms =>
        if colon ∈ m.key.1 then
          some (escape (m.key.1.dropWhile (· ≠ colon)).tail ++
            quote :: (m.beforeColon.1 ++ colon :: (valueText m ++ following tail ms)))
        else some (valueText m ++ following tail ms) := by
  cases ms with
  | nil =>
    have hend : strchr colon (tail ++ []) = strchr colon [] :=
      strchr_append (htail.notMem (by decide))
    rw [List.append_nil] at hend
    exact congrArg _ hend
  | cons m ms =>
    have hprint : following tail (m :: ms) = (comma :: (m.beforeName.1 ++ [quote])) ++
        (escape m.key.1 ++ ((quote :: m.beforeColon.1) ++
          colon :: (valueText m ++ following tail ms))) := by
      simp [following_cons, FlatMember.print, valueText]
    have hblank : ∀ ws : Blanks, colon ∉ ws.1 := fun ws => notMem_blanks ws (by decide)
    have hbefore : colon ∉ comma :: (m.beforeName.1 ++ [quote]) := by
      simp [hblank]
      decide
    have hafter : colon ∉ quote :: m.beforeColon.1 := by
      simp [hblank]
      decide
    dsimp only
    rw [hprint, strchr_append hbefore]
    split
    · next hmem =>
      -- the name has a colon of its own
      have hkey : colon ∉ escape (m.key.1.takeWhile (· ≠ colon)) := by
        rw [mem_escape (by decide)]
        intro hin
        have hne := List.mem_takeWhile_imp hin
        simp at hne
      rw [escape_colon hmem, List.append_assoc, strchr_append hkey, List.cons_append,
        strchr_cons]
      simp
    · next hmem =>
      rw [strchr_append (fun hin => hmem ((mem_escape (by decide)).1 hin)),
        strchr_append hafter, strchr_cons]
      rfl

theorem body_append {o : FlatObject} (tail : Bytes) (h : o.members = m :: ms) :
    o.body ++ tail = m.print ++ following tail ms := by
  have hjoin : ∀ (m : FlatMember) (ms : List FlatMember),
      [comma].intercalate ((m :: ms).map FlatMember.print) ++ tail =
        m.print ++ following tail ms := by
    intro m ms
    induction ms generalizing m with
    | nil => simp [following]
    | cons m' ms ih =>
      rw [List.map_cons, List.map_cons, List.intercalate_cons_cons, List.append_assoc,
        ← List.map_cons, ih m', List.append_assoc, following_cons]
      rfl
  rw [FlatObject.body, h]
  exact hjoin m ms

/-- The end of the text of an object. -/
def closing (o : FlatObject) : Bytes := 125 :: o.after.1

theorem isEnd_closing (o : FlatObject) : IsEnd (closing o) := ⟨o.after, rfl⟩

/-- What the search comes to is what stands after the first mention of the name. -/
theorem afterColon_print (h : IsKey k) (o : FlatObject) :
    afterColon o.print k = (firstMention k o.members).bind (Mention.place (closing o)) := by
  have htail := isEnd_closing o
  have hprint : o.print = (o.before.1 ++ [123]) ++ (o.body ++ closing o) := by
    simp [FlatObject.print, closing]
  have hbefore : quote ∉ o.before.1 ++ [123] := by
    rw [List.mem_append, not_or]
    exact ⟨notMem_blanks _ (by decide), by decide⟩
  have hskip : strstr (needle k) o.print = strstr (needle k) (o.body ++ closing o) := by
    rw [hprint, needle_eq h]
    exact strstr_append hbefore
  have hfind : strstr (needle k) o.print =
      (firstMention k o.members).map fun w => needle k ++ w.after (closing o) := by
    rw [hskip, ← strstr_members h htail]
    cases hms : o.members with
    | nil =>
      rw [FlatObject.body, hms, needle_eq h]
      exact strstr_append (notMem_blanks _ (by decide))
    | cons m ms =>
      rw [body_append _ hms, following_cons, needle_eq h]
      exact (strstr_skip (by decide)).symm
  rw [afterColon, hfind]
  cases firstMention k o.members with
  | none => rfl
  | some w =>
    have hblank : ∀ ws : Blanks, colon ∉ ws.1 := fun ws => notMem_blanks ws (by decide)
    simp only [Option.map_some, Option.bind_some, List.drop_left]
    cases w with
    | name m ms =>
      rw [Mention.after, strchr_append (hblank _), strchr_cons]
      rfl
    | value m ms =>
      -- the next colon is in the member that follows, if one does
      have hcolon := strchr_following ms htail
      rw [Mention.after, strchr_append (hblank _)]
      cases hc : strchr colon (following (closing o) ms) with
      | none =>
        rw [hc] at hcolon
        cases ms with
        | nil => rfl
        | cons m' ms => exact hcolon
      | some p =>
        rw [hc] at hcolon
        cases ms with
        | nil => cases hcolon
        | cons m' ms => exact hcolon

end Place

/-! ## Reading a value -/

/-- What a value is for the handlers: the string, or the literal. -/
def scalarText : Scalar → Bytes
  | .str s => s.1
  | v => v.print

section Reading

variable {k s t : Bytes} {room cap : Nat} {ws ws' : Blanks} {c : UInt8} {b : Bool}

theorem readQuoted_escape :
    readQuoted room (escape s ++ quote :: t) =
      (s.take room,
        if s.length ≤ room then quote :: t else escape (s.drop room) ++ quote :: t) := by
  induction s generalizing room with
  | nil => cases room <;> rfl
  | cons c s ih =>
    cases room with
    | zero => rfl
    | succ room =>
      rw [escape_cons]
      split
      · next hesc =>
        have hback : readQuoted (room + 1) (backslash :: c :: (escape s ++ quote :: t)) =
            (c :: (readQuoted room (escape s ++ quote :: t)).1,
              (readQuoted room (escape s ++ quote :: t)).2) := rfl
        rw [List.append_assoc, List.cons_append, List.singleton_append, hback, ih]
        simp
      · next hplain =>
        obtain ⟨hquote, hback⟩ := not_or.1 hplain
        rw [List.append_assoc, List.singleton_append, readQuoted.eq_def]
        simp [if_neg hquote, if_neg hback, ih]

/-- The text left over begins with a quote if and only if the string has been read. -/
theorem head_left_iff : (if s.length ≤ room then quote :: t
      else escape (s.drop room) ++ quote :: t).head? = some quote ↔ s.length ≤ room := by
  split
  · next h => simp [h]
  · next h =>
    cases hd : s.drop room with
    | nil =>
      rw [List.drop_eq_nil_iff] at hd
      exact absurd hd h
    | cons c s' =>
      rw [escape_cons]
      split
      · simp [h]
        decide
      · next hplain => simp [h, (not_or.1 hplain).1]

theorem dropWhile_blanks (ws : Blanks) {p : UInt8 → Bool} (h : p 32 = true ∧ p 9 = true) :
    (ws.1 ++ t).dropWhile p = t.dropWhile p := by
  obtain ⟨ws, hws⟩ := ws
  induction ws with
  | nil => rfl
  | cons b ws ih =>
    have hb : p b = true := by
      rcases hws b List.mem_cons_self with rfl | rfl
      · exact h.1
      · exact h.2
    rw [List.cons_append, List.dropWhile_cons_of_pos hb]
    exact ih fun b' hb' => hws b' (List.mem_cons_of_mem b hb')

/-- A literal is read up to the delimiter. -/
theorem readValue_literal {lit : Bytes} (hne : lit ≠ []) (h : ∀ b ∈ lit, endsValue b = false)
    (hquote : quote ∉ lit) (hc : endsValue c = true) :
    readValue cap (ws.1 ++ (lit ++ c :: t)) =
      (decide (lit.take (cap - 1) ≠ []), some (lit.take (cap - 1))) := by
  have htake : (lit ++ c :: t).takeWhile (fun b => !endsValue b) = lit := by
    rw [List.takeWhile_append_of_pos fun b hb => by rw [h b hb]; rfl,
      List.takeWhile_cons_of_neg (by simp [hc]), List.append_nil]
  cases lit with
  | nil => exact absurd rfl hne
  | cons b lit =>
    have hb := h b List.mem_cons_self
    have hblank : ¬ (decide (b = 32) || decide (b = 9)) = true := by
      rintro hb'
      rcases (by simpa using hb' : b = 32 ∨ b = 9) with rfl | rfl <;> cases hb
    have hne34 : b ≠ 34 := fun hb34 => hquote (hb34 ▸ List.mem_cons_self)
    have hdrop : (b :: (lit ++ c :: t)).dropWhile
        (fun b => decide (b = 32) || decide (b = 9)) = b :: (lit ++ c :: t) :=
      List.dropWhile_cons_of_neg hblank
    rw [readValue, dropWhile_blanks ws ⟨rfl, rfl⟩, List.cons_append, hdrop]
    split
    · next heq => exact absurd (List.cons.inj heq).1 hne34
    · rw [← List.cons_append, htake]

theorem isNumber_ne_nil {lit : Bytes} (h : isNumber lit = true) : lit ≠ [] := by
  rintro rfl
  cases h

/-- No byte of a number ends a value. -/
theorem number_ends (lit : NumberText) : ∀ b ∈ lit.1, endsValue b = false := by
  intro b hb
  by_contra hnot
  have hor : b = 44 ∨ b = 125 ∨ b = 93 ∨ b = 32 ∨ b = 9 ∨ b = 10 ∨ b = 13 := by
    rw [Bool.not_eq_false] at hnot
    simpa only [endsValue, Bool.or_eq_true, decide_eq_true_eq, or_assoc] using hnot
  revert hb
  rcases hor with rfl | rfl | rfl | rfl | rfl | rfl | rfl <;>
    exact notMem_number rfl (fun p => by cases p <;> rfl) lit.2

theorem readValue_quote {p p' : Bytes}
    (h : p.dropWhile (fun b => decide (b = 32) || decide (b = 9)) = 34 :: p') :
    readValue cap p = (decide ((readQuoted (cap - 1) p').2.head? = some quote),
      some (readQuoted (cap - 1) p').1) := by
  rw [readValue, h]
  rfl

/-- Whether `json_field` returns 0 at a value: a string has to fit the array, a literal is cut
without a word. -/
def takes (cap : Nat) : Scalar → Bool
  | .str s => s.1.length ≤ cap - 1
  | _ => 0 < cap - 1

/-- A value is read up to the size of the array. -/
theorem readValue_print {v : Scalar} (hc : endsValue c = true) :
    readValue cap (ws.1 ++ v.print ++ (ws'.1 ++ c :: t)) =
      (takes cap v, some ((scalarText v).take (cap - 1))) := by
  -- a number or a word ends at what follows it, also at a blank
  have hlit : ∀ lit : Bytes, lit ≠ [] → (∀ b ∈ lit, endsValue b = false) → quote ∉ lit →
      readValue cap (ws.1 ++ lit ++ (ws'.1 ++ c :: t)) =
        (decide (0 < cap - 1), some (lit.take (cap - 1))) := by
    intro lit hne hends hquote
    obtain ⟨c', t', htext, hc'⟩ : ∃ c' t', ws'.1 ++ c :: t = c' :: t' ∧ endsValue c' = true := by
      obtain ⟨_ | ⟨b, ws'⟩, hws⟩ := ws'
      · exact ⟨c, t, rfl, hc⟩
      · refine ⟨b, _, rfl, ?_⟩
        rcases hws b List.mem_cons_self with rfl | rfl <;> rfl
    have hempty : lit.take (cap - 1) ≠ [] ↔ 0 < cap - 1 := by
      rw [ne_eq, List.take_eq_nil_iff, or_iff_left hne, Nat.pos_iff_ne_zero]
    rw [htext, List.append_assoc, readValue_literal hne hends hquote hc',
      decide_eq_decide.2 hempty]
  cases v with
  | str s =>
    have htext : (ws.1 ++ (Scalar.str s).print ++ (ws'.1 ++ c :: t)).dropWhile
        (fun b => decide (b = 32) || decide (b = 9)) =
          34 :: (escape s.1 ++ quote :: (ws'.1 ++ c :: t)) := by
      have hprint : (Scalar.str s).print ++ (ws'.1 ++ c :: t) =
          34 :: (escape s.1 ++ quote :: (ws'.1 ++ c :: t)) := by
        simp [Scalar.print]
      rw [List.append_assoc, dropWhile_blanks ws ⟨rfl, rfl⟩, hprint]
      rfl
    rw [readValue_quote htext, readQuoted_escape]
    dsimp only
    rw [decide_eq_decide.2 head_left_iff]
    rfl
  | num lit =>
    exact hlit lit.1 (isNumber_ne_nil lit.2) (number_ends lit)
      (quote_notMem_print (.num lit) (by simp))
  | bool b =>
    cases b <;> exact hlit _ (by decide) (by decide) (by decide)

/-- Behind blanks and tabs stands `true` or a one. -/
def startsTrue (s : Bytes) : Bool :=
  asciiBytes "true" <+: s.dropWhile (fun b => b = 32 || b = 9) ||
    (s.dropWhile fun b => b = 32 || b = 9).head? = some 49

/-- What `json_field_truthy` takes for true in a value. -/
def looksTrue (v : Scalar) : Bool := startsTrue (scalarText v)

/-- A word without special bytes stands at the head of a string's text as at the head of the
string. -/
theorem starts_plain_iff (h : ∀ b ∈ k, b ≠ quote ∧ b ≠ backslash) :
    k <+: escape s ++ quote :: t ↔ k <+: s := by
  induction k generalizing s with
  | nil => simp
  | cons b k ih =>
    obtain ⟨hquote, hback⟩ := h b List.mem_cons_self
    have htail := fun s => ih (s := s) fun b' hb' => h b' (List.mem_cons_of_mem b hb')
    cases s with
    | nil => simp [escape_nil, hquote]
    | cons c s =>
      rw [escape_cons]
      split
      · next hesc =>
        have hne : b ≠ c := by
          rintro rfl
          exact hesc.elim hquote hback
        simp [hback, hne]
      · simp only [List.cons_append, List.nil_append, List.cons_prefix_cons, htail]

/-- Inside a string. -/
theorem isTrue_string (hc : c = comma ∨ c = 125) (s : Bytes) :
    isTrue (escape s ++ quote :: (ws'.1 ++ c :: t)) = startsTrue s := by
  induction s with
  | nil =>
    -- the search goes over the closing quote to what ends the value
    have hskip : (escape [] ++ quote :: (ws'.1 ++ c :: t)).dropWhile
        (fun b => decide (b = 32) || decide (b = 9) || decide (b = 34)) = c :: t := by
      rw [escape_nil, List.nil_append, List.dropWhile_cons_of_pos rfl,
        dropWhile_blanks ws' ⟨rfl, rfl⟩]
      rcases hc with rfl | rfl <;> rfl
    have hne : c ≠ 116 ∧ c ≠ 49 := by rcases hc with rfl | rfl <;> decide
    rw [isTrue, hskip]
    simp [asciiBytes, startsTrue, hne.1.symm, hne.2]
  | cons b s ih =>
    by_cases hblank : b = 32 ∨ b = 9
    · -- it goes over a blank in the string as over one in front of it
      have hplain : escape (b :: s) = b :: escape s := by
        rw [escape_cons, if_neg (by rcases hblank with rfl | rfl <;> decide)]
        rfl
      have hpos : (decide (b = 32) || decide (b = 9)) = true := by simpa using hblank
      have hdrop : (b :: s).dropWhile (fun b => decide (b = 32) || decide (b = 9)) =
          s.dropWhile fun b => decide (b = 32) || decide (b = 9) :=
        List.dropWhile_cons_of_pos hpos
      have hskip : isTrue (b :: (escape s ++ quote :: (ws'.1 ++ c :: t))) =
          isTrue (escape s ++ quote :: (ws'.1 ++ c :: t)) := by
        rw [isTrue, isTrue, List.dropWhile_cons_of_pos (by simp [hpos])]
      rw [hplain, List.cons_append, hskip, ih, startsTrue, startsTrue, hdrop]
    · obtain ⟨h32, h9⟩ := not_or.1 hblank
      have hword : ∀ b ∈ asciiBytes "true", b ≠ quote ∧ b ≠ backslash := by decide
      have hstop : (escape (b :: s) ++ quote :: (ws'.1 ++ c :: t)).dropWhile
          (fun b => decide (b = 32) || decide (b = 9) || decide (b = 34)) =
            escape (b :: s) ++ quote :: (ws'.1 ++ c :: t) := by
        rw [escape_cons]
        split
        · rfl
        · next hesc => simp [h32, h9, (not_or.1 hesc).1]
      have hhead : (escape (b :: s) ++ quote :: (ws'.1 ++ c :: t)).head? = some 49 ↔
          (b :: s).head? = some 49 := by
        rw [escape_cons]
        split
        · next hesc =>
          rcases hesc with rfl | rfl
          · simp
            decide
          · simp
        · rfl
      rw [isTrue, hstop, startsTrue, List.dropWhile_cons_of_neg (by simp [h32, h9])]
      rw [decide_eq_decide.2 (starts_plain_iff hword), decide_eq_decide.2 hhead]

/-- A value that another one or the end follows. -/
theorem isTrue_print {v : Scalar} (hc : c = comma ∨ c = 125) :
    isTrue (ws.1 ++ v.print ++ (ws'.1 ++ c :: t)) = looksTrue v := by
  rw [isTrue, List.append_assoc, dropWhile_blanks ws ⟨rfl, rfl⟩]
  cases v with
  | str s =>
    have hopen : ((Scalar.str s).print ++ (ws'.1 ++ c :: t)).dropWhile
        (fun b => decide (b = 32) || decide (b = 9) || decide (b = 34)) =
          (escape s.1 ++ quote :: (ws'.1 ++ c :: t)).dropWhile
            (fun b => decide (b = 32) || decide (b = 9) || decide (b = 34)) := by
      simp [Scalar.print]
    rw [hopen]
    exact isTrue_string hc s.1
  | num lit =>
    obtain ⟨lit, hlit⟩ := lit
    have hno : ∀ c : UInt8, NumPos.start c = none → (∀ p : NumPos, p.step c = none) → c ∉ lit :=
      fun c hstart hstep => notMem_number hstart hstep hlit
    cases lit with
    | nil => cases hlit
    | cons b lit =>
      have hne : ∀ c : UInt8, c ∉ b :: lit → b ≠ c := by
        rintro c hmem rfl
        exact hmem List.mem_cons_self
      have h32 := hne 32 (hno 32 rfl fun p => by cases p <;> rfl)
      have h9 := hne 9 (hno 9 rfl fun p => by cases p <;> rfl)
      have h34 := hne 34 (hno 34 rfl fun p => by cases p <;> rfl)
      have h116 := hne 116 (hno 116 rfl fun p => by cases p <;> rfl)
      simp [looksTrue, startsTrue, scalarText, Scalar.print, asciiBytes, h32, h9, h34, h116.symm]
  | bool b => cases b <;> simp [looksTrue, startsTrue, scalarText, Scalar.print, asciiBytes]

end Reading

/-! ## Agreement with the object -/

/-- `json_field` does as it should for a name with this value. -/
def FieldAgrees (cap : Nat) (v : Option Scalar) (r : Bool × Option Bytes) : Prop :=
  match v with
  | none => r.1 = false
  | some v => (scalarText v).length < cap → r = (true, some (scalarText v))

/-- `json_field_truthy` does as it should for a name with this value. -/
def TruthAgrees (v : Option Scalar) (r : Bool) : Prop :=
  match v with
  | none => r = false
  | some (.bool b) => r = b
  | some _ => True

/-- The mention is the name itself, or the value in front of it: the next colon is its
own. -/
def Mention.Own (k : Bytes) : Mention → Prop
  | .name m _ => m.key.1 = k
  | .value _ (m :: _) => m.key.1 = k
  | .value _ [] => False

/-- The mention is the last value: no colon comes after it. -/
def Mention.Last : Mention → Prop
  | .value _ [] => True
  | _ => False

/-- The member's value that is taken for the one of the name; none if the search ends, or comes
to a colon inside a name. -/
def Mention.taken : Mention → Option Scalar
  | .name m _ => some m.scalar
  | .value _ [] => none
  | .value _ (m :: _) => if colon ∈ m.key.1 then none else some m.scalar

/-- The value `u` happens to do for what the name has: for nothing, if it is a string that does
not fit and does not look true; for a value that fits, if its text is the same as far as the
array goes; for a boolean, if it looks as true. -/
def Chance (cap : Nat) (v : Option Scalar) (u : Scalar) : Prop :=
  match v with
  | none => takes cap u = false ∧ looksTrue u = false
  | some v =>
    ((scalarText v).length < cap →
        takes cap u = true ∧ (scalarText u).take (cap - 1) = scalarText v) ∧
      ∀ b, v = .bool b → looksTrue u = b

/-- The first mention of a name does no harm. -/
def Mention.Right (k : Bytes) (cap : Nat) (v : Option Scalar) (w : Mention) : Prop :=
  w.Own k ∨ w.Last ∨ ∃ u, w.taken = some u ∧ Chance cap v u

section Agreement

variable {k : Bytes} {o : FlatObject} {m : FlatMember} {ms : List FlatMember} {w : Mention}
  {cap : Nat} {tail : Bytes}

theorem find_skip (h : m.key.1 ≠ k) :
    ((m :: ms).find? fun m => m.key.1 = k) = ms.find? fun m => m.key.1 = k :=
  List.find?_cons_of_neg (by simpa using h)

/-- The members that can have the name. -/
def Mention.onward : Mention → List FlatMember
  | .name m ms => m :: ms
  | .value _ ms => ms

/-- No member in front of the first mention has the name. -/
theorem find_mention (hfirst : firstMention k ms = some w) :
    (ms.find? fun m => m.key.1 = k) = w.onward.find? fun m => m.key.1 = k := by
  induction ms with
  | nil => cases hfirst
  | cons m ms ih =>
    rw [firstMention] at hfirst
    split at hfirst
    · cases hfirst
      rfl
    · next hname =>
      rw [find_skip fun hmk => hname (Or.inl hmk)]
      split at hfirst
      · cases hfirst
        rfl
      · exact ih hfirst

/-- A name of the object is mentioned. -/
theorem firstMention_of_lookup (h : (ms.find? fun m => m.key.1 = k) ≠ none) :
    firstMention k ms ≠ none := by
  induction ms with
  | nil => exact absurd rfl h
  | cons m ms ih =>
    rw [firstMention]
    split
    · simp
    · next hname =>
      split
      · simp
      · rw [find_skip fun hmk => hname (Or.inl hmk)] at h
        exact ih h

/-- A value does for itself. -/
theorem chance_self (cap : Nat) (u : Scalar) : Chance cap (some u) u := by
  refine ⟨fun hfits => ⟨?_, List.take_of_length_le (by omega)⟩, ?_⟩
  · cases u with
    | str s => exact decide_eq_true (Nat.le_sub_one_of_lt hfits)
    | num lit =>
      have hpos := List.length_pos_of_ne_nil (isNumber_ne_nil lit.2)
      have hlen : lit.1.length < cap := hfits
      exact decide_eq_true (by omega)
    | bool b =>
      have hlen : (Scalar.bool b).print.length < cap := hfits
      cases b <;>
        exact decide_eq_true (by simp only [Scalar.print, List.length_cons] at hlen; omega)
  · rintro b rfl
    cases b <;> decide

/-- What the lookups find at the value of a member. -/
theorem agrees_value_iff (htail : IsEnd tail) {v : Option Scalar} :
    FieldAgrees cap v (readValue cap (valueText m ++ following tail ms)) ∧
        TruthAgrees v (isTrue (valueText m ++ following tail ms)) ↔ Chance cap v m.scalar := by
  obtain ⟨c, t, hfol, hc⟩ := following_head ms htail
  have hends : endsValue c = true := by rcases hc with rfl | rfl <;> rfl
  rw [valueText, List.append_assoc, hfol, readValue_print hends, isTrue_print hc]
  cases v with
  | none => exact Iff.rfl
  | some v =>
    refine and_congr (imp_congr_right fun _ => by simp) ?_
    cases v with
    | bool b => simp [TruthAgrees]
    | _ => simp [TruthAgrees]

theorem Mention.taken_place {u : Scalar} (h : w.taken = some u) (tail : Bytes) :
    ∃ m ms, m.scalar = u ∧ w.place tail = some (valueText m ++ following tail ms) := by
  cases w with
  | name m ms => exact ⟨m, ms, Option.some.inj h, rfl⟩
  | value m ms =>
    cases ms with
    | nil => cases h
    | cons m' ms =>
      rw [Mention.taken] at h
      split at h
      · cases h
      · next hcolon => exact ⟨m', ms, Option.some.inj h, if_neg hcolon⟩

/-- If the first mention leads to the value of a member, the lookups agree with the object if
and only if this value does for the one of the name. -/
theorem lookups_agree_taken (h : IsKey k) (o : FlatObject) (cap : Nat) {u : Scalar}
    (hw : firstMention k o.members = some w) (hu : w.taken = some u) :
    FieldAgrees cap (o.lookup k) (jsonField o.print k cap) ∧
        TruthAgrees (o.lookup k) (jsonFieldTruthy o.print k) ↔ Chance cap (o.lookup k) u := by
  obtain ⟨m, ms, rfl, hp⟩ := Mention.taken_place hu (closing o)
  have hplace := afterColon_print h o
  rw [hw, Option.bind_some, hp] at hplace
  rw [jsonField, jsonFieldTruthy, hplace]
  exact agrees_value_iff (isEnd_closing o)

/-- Its own value does. -/
theorem Mention.Own.chance (hown : w.Own k) (hw : firstMention k o.members = some w)
    (hk : colon ∉ k) (cap : Nat) : ∃ u, w.taken = some u ∧ Chance cap (o.lookup k) u := by
  rw [FlatObject.lookup, find_mention hw]
  cases w with
  | name m ms =>
    refine ⟨m.scalar, rfl, ?_⟩
    have hm : m.key.1 = k := hown
    rw [Mention.onward, List.find?_cons_of_pos (by simpa using hm)]
    exact chance_self cap m.scalar
  | value m ms =>
    cases ms with
    | nil => exact hown.elim
    | cons m' ms =>
      have hm' : m'.key.1 = k := hown
      refine ⟨m'.scalar, if_neg (hm' ▸ hk), ?_⟩
      rw [Mention.onward, List.find?_cons_of_pos (by simpa using hm')]
      exact chance_self cap m'.scalar

/-- The lookups of a name agree with the object if the first mention of the name does no
harm. -/
theorem lookups_agree (h : IsKey k) (o : FlatObject) (cap : Nat)
    (hright : ∀ w, firstMention k o.members = some w → w.Right k cap (o.lookup k)) :
    FieldAgrees cap (o.lookup k) (jsonField o.print k cap) ∧
      TruthAgrees (o.lookup k) (jsonFieldTruthy o.print k) := by
  have hcolon : colon ∉ k := fun hmem => (h.ne hmem).2.2.1 rfl
  have hplace := afterColon_print h o
  have hnone : afterColon o.print k = none → o.lookup k = none →
      FieldAgrees cap (o.lookup k) (jsonField o.print k cap) ∧
        TruthAgrees (o.lookup k) (jsonFieldTruthy o.print k) := by
    intro hafter hlook
    rw [jsonField, jsonFieldTruthy, hafter, hlook]
    exact ⟨rfl, rfl⟩
  cases hw : firstMention k o.members with
  | none =>
    refine hnone (by rw [hplace, hw]; rfl) ?_
    by_contra hne
    refine firstMention_of_lookup (fun hfind => hne ?_) hw
    rw [FlatObject.lookup, hfind]
    rfl
  | some w =>
    rcases hright w hw with hown | hlast | ⟨u, hu, hchance⟩
    · obtain ⟨u, hu, hchance⟩ := hown.chance hw hcolon cap
      exact (lookups_agree_taken h o cap hw hu).2 hchance
    · cases w with
      | name m ms => exact hlast.elim
      | value m ms =>
        cases ms with
        | nil =>
          refine hnone (by rw [hplace, hw]; rfl) ?_
          rw [FlatObject.lookup, find_mention hw]
          rfl
        | cons m' ms => exact hlast.elim
    · exact (lookups_agree_taken h o cap hw hu).2 hchance

theorem onward_mem (hw : firstMention k ms = some w) : ∀ m ∈ w.onward, m ∈ ms := by
  induction ms with
  | nil => cases hw
  | cons m ms ih =>
    rw [firstMention] at hw
    split at hw
    · cases hw
      exact fun _ hm => hm
    · split at hw
      · cases hw
        exact fun _ hm => List.mem_cons_of_mem m hm
      · exact fun m' hm' => List.mem_cons_of_mem m (ih hw m' hm')

/-- And only if, where no name has a colon. -/
theorem right_of_lookups (h : IsKey k) (o : FlatObject) (cap : Nat)
    (hnames : ∀ m ∈ o.members, colon ∉ m.key.1)
    (hagree : FieldAgrees cap (o.lookup k) (jsonField o.print k cap) ∧
      TruthAgrees (o.lookup k) (jsonFieldTruthy o.print k))
    (hw : firstMention k o.members = some w) : w.Right k cap (o.lookup k) := by
  cases hu : w.taken with
  | some u => exact Or.inr (Or.inr ⟨u, hu, (lookups_agree_taken h o cap hw hu).1 hagree⟩)
  | none =>
    cases w with
    | name m ms => cases hu
    | value m ms =>
      cases ms with
      | nil => exact Or.inr (Or.inl trivial)
      | cons m' ms =>
        have hm' := hnames m' (onward_mem hw m' List.mem_cons_self)
        rw [Mention.taken, if_neg hm'] at hu
        cases hu

end Agreement

/-- In the value of a text with distinct names, a name has the one value of the lookup. -/
theorem members_value {o : FlatObject} (h : o.Distinct) (k : Bytes) :
    o.value.members k = ((o.lookup k).map Scalar.value).toList := by
  have hkeys : (o.members.map fun m => (m.key.1, m.scalar.value)).map Prod.fst =
      o.members.map fun m => m.key.1 := by simp
  rw [FlatObject.value, FlatObject.lookup]
  cases hfind : o.members.find? fun m => m.key.1 = k with
  | none =>
    refine members_nil fun hmem => ?_
    rw [hkeys] at hmem
    obtain ⟨m, hm, hmk⟩ := List.mem_map.1 hmem
    exact absurd hmk (by simpa using List.find?_eq_none.1 hfind m hm)
  | some m =>
    have hmk : m.key.1 = k := by simpa using List.find?_some hfind
    refine members_of_mem (hkeys ▸ h) (List.mem_map.2 ⟨m, List.mem_of_find?_eq_some hfind, ?_⟩)
    rw [hmk]

/-- The lookups of a handler's name agree with the JSON object. -/
def AgreesWithJson (o : FlatObject) (k : Bytes) (cap : Nat) : Prop :=
  FieldAgrees cap (o.lookup k) (jsonField o.print k cap) ∧
    TruthAgrees (o.lookup k) (jsonFieldTruthy o.print k)

/-- For the name of a handler and the text of a flat object: the lookups agree with JSON if the
first string that mentions the name is the name itself, the value in front of it or the last
value, or if the value that is taken for it happens to do; where no name has a colon, only
then. -/
theorem handler_lookups_agree {k : Bytes} (hk : k ∈ handlerKeys) (o : FlatObject)
    (ho : o.Distinct) (cap : Nat) :
    parse o.print = some o.value ∧
      o.value.members k = ((o.lookup k).map Scalar.value).toList ∧
      ((∀ w, firstMention k o.members = some w → w.Right k cap (o.lookup k)) →
        AgreesWithJson o k cap) ∧
      ((∀ m ∈ o.members, colon ∉ m.key.1) → AgreesWithJson o k cap →
        ∀ w, firstMention k o.members = some w → w.Right k cap (o.lookup k)) :=
  ⟨o.parse_print, members_value ho k, lookups_agree (isKey_of_mem hk) o cap,
    fun hnames hagree _ => right_of_lookups (isKey_of_mem hk) o cap hnames hagree⟩

theorem noBlanks_mem : ∀ b ∈ ([] : Bytes), b = 32 ∨ b = 9 := fun _ hb => (by cases hb)

def noBlanks : Blanks := ⟨[], noBlanks_mem⟩

/-- A member without blanks. -/
def plainMember (key : Printable) (v : Scalar) : FlatMember :=
  ⟨key, v, noBlanks, noBlanks, noBlanks, noBlanks⟩

/-- An object without blanks. -/
def plainObject (ms : List FlatMember) : FlatObject := ⟨ms, noBlanks, noBlanks, noBlanks⟩

theorem printable_key : ∀ b ∈ asciiBytes "key", 32 ≤ b := by decide

theorem printable_delete : ∀ b ∈ asciiBytes "delete", 32 ≤ b := by decide

theorem printable_baud : ∀ b ∈ asciiBytes "baud", 32 ≤ b := by decide

theorem isNumber_baud : isNumber (asciiBytes "115200") = true := by decide

/-- A request to store a coding for the key `delete`. -/
def storeDelete : FlatObject :=
  plainObject [plainMember ⟨asciiBytes "key", printable_key⟩
      (.str ⟨asciiBytes "delete", printable_delete⟩),
    plainMember ⟨asciiBytes "baud", printable_baud⟩ (.num ⟨asciiBytes "115200", isNumber_baud⟩)]

theorem handler_lookups_agree_key :
    AgreesWithJson storeDelete (asciiBytes "key") 33 ∧
      parse storeDelete.print = some storeDelete.value := by
  have hmem : asciiBytes "key" ∈ handlerKeys := by decide +kernel
  have hdist : storeDelete.Distinct := by decide +kernel
  obtain ⟨hparse, -, hagree, -⟩ := handler_lookups_agree hmem storeDelete hdist 33
  refine ⟨hagree fun w hw => Or.inl ?_, hparse⟩
  have hfirst : firstMention (asciiBytes "key") storeDelete.members =
      some (.name (plainMember ⟨asciiBytes "key", printable_key⟩
        (.str ⟨asciiBytes "delete", printable_delete⟩)) storeDelete.members.tail) :=
    if_pos (Or.inl rfl)
  rw [hfirst] at hw
  cases hw
  rfl

/-- The value `delete` is taken for the name: the request is carried out as a deletion. -/
theorem handler_lookups_disagree :
    storeDelete.print = asciiBytes "\x7b\"key\":\"delete\",\"baud\":115200\x7d" ∧
      storeDelete.Distinct ∧ asciiBytes "delete" ∈ handlerKeys ∧
      storeDelete.lookup (asciiBytes "delete") = none ∧
      jsonField storeDelete.print (asciiBytes "delete") 16 = (true, some (asciiBytes "115200")) ∧
      jsonFieldTruthy storeDelete.print (asciiBytes "delete") = true ∧
      ¬ AgreesWithJson storeDelete (asciiBytes "delete") 16 := by
  have hlook : storeDelete.lookup (asciiBytes "delete") = none := by decide +kernel
  have htrue : jsonFieldTruthy storeDelete.print (asciiBytes "delete") = true := by
    decide +kernel
  refine ⟨by decide +kernel, by decide +kernel, by decide +kernel, hlook, by decide +kernel,
    htrue, fun h => ?_⟩
  have hfalse := h.2
  rw [hlook, htrue] at hfalse
  cases hfalse

end Cdc2Net.Web
