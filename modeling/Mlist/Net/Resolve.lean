import Mathlib.Data.List.TakeWhile
import Mlist.Model.Resolve

/-!
# Addresses that need no lookup

An IP address as a text, with or without a port, is to come back from `ResolveAddr` as it
is. With a port behind it that holds: `joinHostPort` puts an IPv6 address into brackets.
It holds of a text in brackets, and of a dotted decimal address alone. It does not hold
of an IPv6 address alone: `hasPort` sees that it has no port, `ResolveAddr` then puts one
behind it without putting it into brackets, and the result has too many colons
(`ipv6_refused`).

What the argument needs to know of the texts that `net.ParseIP` accepts is little: they have
no brackets, and those with a colon have two of them (`parseIP_text`). That there are texts
for every address is `parseIP_fullText`: the one with all its digits is read back.
-/

namespace Mlist

open Mlist.Lib

/-! ## Numbers -/

/-- The loop of `ParseUint` computes the number, where it is in range. -/
theorem parseUintLoop_digits {num : Text} {maxVal : Nat} :
    ∀ (s : Text) (n : Nat), (∀ c ∈ s, c.isDigit = true) → Nat.ofDigitChars 10 s n ≤ maxVal →
      parseUintLoop num maxVal n s = .ok (Nat.ofDigitChars 10 s n) := by
  intro s
  induction s with
  | nil =>
    intro n _ _
    rw [Nat.ofDigitChars_nil]
    rfl
  | cons c cs ih =>
    intro n hdigits hmax
    rw [Nat.ofDigitChars_cons] at hmax ⊢
    -- the number only grows
    have hle : 10 * n + (c.toNat - '0'.toNat) ≤ maxVal := by
      refine Nat.le_trans ?_ hmax
      rw [Nat.ofDigitChars_eq_ofDigitChars_zero]
      exact Nat.le_add_right_of_le (Nat.le_mul_of_pos_left _ (Nat.pow_pos (by decide)))
    unfold parseUintLoop
    rw [if_neg (by simp [hdigits c List.mem_cons_self]), if_neg (Nat.not_lt.mpr hle)]
    exact ih _ (fun d hd => hdigits d (List.mem_cons_of_mem _ hd)) hmax

theorem itoa_digits {n : Nat} : ∀ c ∈ itoa n, c.isDigit = true :=
  fun _ hc => Nat.isDigit_of_mem_toDigits (by decide) (by decide) hc

/-- A number in decimal is read back. -/
theorem parseUint_itoa {bitSize n : Nat} (h : n < 2 ^ bitSize) :
    parseUint bitSize (itoa n) = .ok n := by
  have hvalue : Nat.ofDigitChars 10 (itoa n) 0 = n := Nat.ofDigitChars_ten_toDigits
  have hloop : parseUintLoop (itoa n) (2 ^ bitSize - 1) 0 (itoa n) = .ok _ :=
    parseUintLoop_digits (itoa n) 0 itoa_digits (by omega)
  unfold parseUint
  rw [if_neg (show itoa n ≠ [] from Nat.toDigits_ne_nil), hloop, hvalue]

/-! ## The texts of IP addresses -/

/-- A field of an IPv4 address has only digits. -/
theorem parseOctet_digits {field : Text} {b : UInt8} (h : parseOctet field = some b) :
    ∀ c ∈ field, c.isDigit = true := by
  dsimp only [parseOctet] at h
  split at h
  next hfield => exact List.all_eq_true.mp hfield.2.1
  next => cases h

/-- An IPv4 text has digits and dots. -/
theorem parseIPv4_chars {s : Text} {ip : List UInt8} (h : parseIPv4 s = some ip) :
    ip.length = 4 ∧ ∀ c ∈ s, c.isDigit = true ∨ c = '.' := by
  have hjoin : ['.'].intercalate (s.splitOn '.') = s := List.intercalate_splitOn '.'
  unfold parseIPv4 at h
  split at h
  next f₀ f₁ f₂ f₃ hsplit =>
    obtain ⟨b₀, h₀, h⟩ := Option.bind_eq_some_iff.mp h
    obtain ⟨b₁, h₁, h⟩ := Option.bind_eq_some_iff.mp h
    obtain ⟨b₂, h₂, h⟩ := Option.bind_eq_some_iff.mp h
    obtain ⟨b₃, h₃, h⟩ := Option.bind_eq_some_iff.mp h
    obtain rfl := Option.some.inj h
    refine ⟨rfl, ?_⟩
    intro c hc
    rw [← hjoin, hsplit] at hc
    simp only [List.intercalate, List.intersperse, List.flatten_cons, List.flatten_nil,
      List.append_nil, List.mem_append, List.mem_singleton] at hc
    rcases hc with hc | hc | hc | hc | hc | hc | hc
    · exact Or.inl (parseOctet_digits h₀ c hc)
    · exact Or.inr hc
    · exact Or.inl (parseOctet_digits h₁ c hc)
    · exact Or.inr hc
    · exact Or.inl (parseOctet_digits h₂ c hc)
    · exact Or.inr hc
    · exact Or.inl (parseOctet_digits h₃ c hc)
  next => cases h

/-- The ways through one group of an IPv6 address. -/
inductive GroupCase (left : Nat) (ip : List UInt8) (ellipsis : Option Nat) :
    Text → List UInt8 × Option Nat → Prop where
  | last (digits : Text) (hhex : ∀ c ∈ digits, isHex c = true) :
    GroupCase left ip ellipsis digits (ip ++ groupBytes digits, ellipsis)
  | dotted (s : Text) (fields : List UInt8) (hfields : parseIPv4 s = some fields) :
    GroupCase left ip ellipsis s (ip ++ fields, ellipsis)
  | ended (digits : Text) (hhex : ∀ c ∈ digits, isHex c = true) :
    GroupCase left ip ellipsis (digits ++ [':', ':'])
      (ip ++ groupBytes digits, some (ip ++ groupBytes digits).length)
  | colons (digits more : Text) (r : List UInt8 × Option Nat)
    (hhex : ∀ c ∈ digits, isHex c = true)
    (hmore : parseGroups left (ip ++ groupBytes digits)
      (some (ip ++ groupBytes digits).length) more = some r) :
    GroupCase left ip ellipsis (digits ++ ':' :: ':' :: more) r
  | colon (digits more : Text) (r : List UInt8 × Option Nat)
    (hhex : ∀ c ∈ digits, isHex c = true)
    (hmore : parseGroups left (ip ++ groupBytes digits) ellipsis more = some r) :
    GroupCase left ip ellipsis (digits ++ ':' :: more) r

/-- One round of the loop of `parseIPv6`, and what it has found. -/
theorem parseGroups_case {left : Nat} {ip : List UInt8} {ellipsis : Option Nat} {s : Text}
    {r : List UInt8 × Option Nat} (h : parseGroups (left + 1) ip ellipsis s = some r) :
    GroupCase left ip ellipsis s r := by
  have hs : s.takeWhile isHex ++ s.dropWhile isHex = s := List.takeWhile_append_dropWhile
  have hhex : ∀ c ∈ s.takeWhile isHex, isHex c = true := fun c hc => List.mem_takeWhile_imp hc
  dsimp only [parseGroups] at h
  split at h
  next => cases h
  next =>
    split at h
    next hrest =>
      -- nothing after the digits
      rw [hrest, List.append_nil] at hs
      rw [hs] at h hhex
      exact Option.some.inj h ▸ .last s hhex
    next =>
      split at h
      next => cases h
      next =>
        split at h
        next => cases h
        next =>
          -- a dot: the rest is an address of IPv4
          obtain ⟨fields, hfields, rfl⟩ := Option.map_eq_some_iff.mp h
          exact .dotted s fields hfields
    next => cases h
    next more hrest =>
      -- two colons
      rw [hrest] at hs
      generalize s.takeWhile isHex = digits at hs hhex h
      subst hs
      split at h
      next => cases h
      next =>
        split at h
        next hmore =>
          subst hmore
          exact Option.some.inj h ▸ .ended digits hhex
        next => exact .colons digits more r hhex h
    next more _ _ hrest =>
      -- one colon
      rw [hrest] at hs
      generalize s.takeWhile isHex = digits at hs hhex h
      subst hs
      exact .colon digits more r hhex h
    next => cases h

theorem hex_of_digit {c : Char} (h : c.isDigit = true) : isHex c = true := by
  unfold isHex hexValue
  rw [if_pos h]
  rfl

/-- An accepted text has digits, dots and colons only. -/
theorem parseGroups_chars {left : Nat} :
    ∀ {ip : List UInt8} {ellipsis : Option Nat} {s : Text} {r : List UInt8 × Option Nat},
      parseGroups left ip ellipsis s = some r → ∀ c ∈ s, isHex c = true ∨ c = '.' ∨ c = ':' := by
  induction left with
  | zero =>
    intro ip ellipsis s r h c hc
    unfold parseGroups at h
    split at h
    next hs =>
      rw [hs] at hc
      cases hc
    next => cases h
  | succ left ih =>
    intro ip ellipsis s r h c hc
    cases parseGroups_case h with
    | last digits hhex => exact Or.inl (hhex c hc)
    | dotted s fields hfields =>
      rcases (parseIPv4_chars hfields).2 c hc with hdigit | hdot
      · exact Or.inl (hex_of_digit hdigit)
      · exact Or.inr (Or.inl hdot)
    | ended digits hhex =>
      rcases List.mem_append.mp hc with hc | hc
      · exact Or.inl (hhex c hc)
      · simp only [List.mem_cons, List.not_mem_nil, or_false, or_self] at hc
        exact Or.inr (Or.inr hc)
    | colons digits more _ hhex hmore =>
      simp only [List.mem_append, List.mem_cons] at hc
      rcases hc with hc | hc | hc | hc
      · exact Or.inl (hhex c hc)
      · exact Or.inr (Or.inr hc)
      · exact Or.inr (Or.inr hc)
      · exact ih hmore c hc
    | colon digits more _ hhex hmore =>
      simp only [List.mem_append, List.mem_cons] at hc
      rcases hc with hc | hc | hc
      · exact Or.inl (hhex c hc)
      · exact Or.inr (Or.inr hc)
      · exact ih hmore c hc

/-- Every group is two bytes, however many digits it has. -/
theorem groupBytes_length (digits : Text) : (groupBytes digits).length = 2 := rfl

/-- Each colon makes room for one group. So where there is no `::`, sixteen bytes take many
colons. -/
theorem parseGroups_colons {left : Nat} :
    ∀ {ip : List UInt8} {s : Text} {r : List UInt8 × Option Nat},
      parseGroups left ip none s = some r →
        2 ≤ s.count ':' ∨ (r.2 = none ∧ r.1.length ≤ ip.length + 2 * s.count ':' + 4) := by
  induction left with
  | zero =>
    intro ip s r h
    unfold parseGroups at h
    split at h
    next =>
      obtain rfl := Option.some.inj h
      refine Or.inr ⟨rfl, ?_⟩
      show ip.length ≤ _
      omega
    next => cases h
  | succ left ih =>
    intro ip s r h
    cases parseGroups_case h with
    | last digits hhex =>
      refine Or.inr ⟨rfl, ?_⟩
      rw [List.length_append, groupBytes_length]
      omega
    | dotted s fields hfields =>
      refine Or.inr ⟨rfl, ?_⟩
      rw [List.length_append, (parseIPv4_chars hfields).1]
      omega
    | ended digits hhex =>
      left
      rw [List.count_append]
      exact Nat.le_add_left 2 _
    | colons digits more _ hhex hmore =>
      left
      rw [List.count_append, List.count_cons_self, List.count_cons_self]
      omega
    | colon digits more _ hhex hmore =>
      rw [List.count_append, List.count_cons_self]
      rcases ih hmore with htwo | ⟨hnone, hlen⟩
      · exact Or.inl (by omega)
      · refine Or.inr ⟨hnone, ?_⟩
        rw [List.length_append, groupBytes_length] at hlen
        omega

/-- An IPv6 text has hexadecimal digits, dots and colons, two colons at least: this is why
`hasPort` never sees a port in one. -/
theorem parseIPv6_text {s : Text} {ip : IP} (h : parseIPv6 s = some ip) :
    (∀ c ∈ s, isHex c = true ∨ c = '.' ∨ c = ':') ∧ 2 ≤ s.count ':' := by
  unfold parseIPv6 at h
  split at h
  next => exact ⟨by simp, by decide⟩
  next s _ =>
    obtain ⟨r, hr, -⟩ := Option.bind_eq_some_iff.mp h
    refine ⟨?_, ?_⟩
    · intro c hc
      simp only [List.mem_cons] at hc
      rcases hc with hc | hc | hc
      · exact Or.inr (Or.inr hc)
      · exact Or.inr (Or.inr hc)
      · exact parseGroups_chars hr c hc
    · rw [List.count_cons_self, List.count_cons_self]
      omega
  next =>
    obtain ⟨r, hr, hfull⟩ := Option.bind_eq_some_iff.mp h
    refine ⟨parseGroups_chars hr, ?_⟩
    rcases parseGroups_colons hr with htwo | ⟨hnone, hlen⟩
    · exact htwo
    · -- no colons were left out, so all sixteen bytes were there
      obtain ⟨bytes, ellipsis⟩ := r
      subst hnone
      unfold expandEllipsis at hfull
      split at hfull
      next heq =>
        obtain ⟨rfl, -⟩ := Prod.mk.inj heq
        split at hfull
        next hsixteen =>
          change bytes.length ≤ 0 + _ + 4 at hlen
          omega
        next => cases hfull
      next heq => cases heq

/-- **What the text of an IP address looks like.** It has no brackets, and if it has a colon it
has two. -/
theorem parseIP_text {s : Text} {ip : IP} (h : parseIP s = some ip) :
    '[' ∉ s ∧ ']' ∉ s ∧ (':' ∈ s → 2 ≤ s.count ':') := by
  unfold parseIP at h
  split at h
  next =>
    obtain ⟨bytes, hbytes, -⟩ := Option.map_eq_some_iff.mp h
    have hchars := (parseIPv4_chars hbytes).2
    have hnot : ∀ c, c.isDigit = false → c ≠ '.' → c ∉ s := by
      intro c hdigit hdot hc
      rcases hchars c hc with hc | hc
      · rw [hdigit] at hc
        cases hc
      · exact hdot hc
    exact ⟨hnot _ rfl (by decide), hnot _ rfl (by decide),
      fun hc => absurd hc (hnot _ rfl (by decide))⟩
  next =>
    split at h
    next => cases h
    next =>
      obtain ⟨hchars, hcolons⟩ := parseIPv6_text h
      have hnot : ∀ c, isHex c = false → c ≠ '.' → c ≠ ':' → c ∉ s := by
        intro c hhex hdot hcolon hc
        rcases hchars c hc with hc | hc | hc
        · rw [hhex] at hc
          cases hc
        · exact hdot hc
        · exact hcolon hc
      exact ⟨hnot _ rfl (by decide) (by decide), hnot _ rfl (by decide) (by decide),
        fun _ => hcolons⟩
  next => cases h

/-! ## Every address has a text -/

/-- Two bytes as four hexadecimal digits. -/
def groupText (a b : UInt8) : Text :=
  [a.toNat / 16, a.toNat % 16, b.toNat / 16, b.toNat % 16].map Nat.digitChar

/-- An address written out in full. -/
def fullText : List UInt8 → Text
  | a :: b :: c :: bytes => groupText a b ++ ':' :: fullText (c :: bytes)
  | [a, b] => groupText a b
  | _ => []

/-- A digit is read as what it was written for. -/
theorem hexValue_digitChar {d : Nat} (h : d < 16) : hexValue (Nat.digitChar d) = some d := by
  have hall : ∀ d : Fin 16, hexValue (Nat.digitChar d.val) = some d.val := by decide
  exact hall ⟨d, h⟩

/-- A group written out has four digits. -/
theorem groupText_digits (a b : UInt8) :
    ∃ d₁ d₂ d₃ d₄, groupText a b = [d₁, d₂, d₃, d₄] ∧ hexValue d₁ = some (a.toNat / 16) ∧
      hexValue d₂ = some (a.toNat % 16) ∧ hexValue d₃ = some (b.toNat / 16) ∧
      hexValue d₄ = some (b.toNat % 16) := by
  have ha := a.toNat_lt
  have hb := b.toNat_lt
  exact ⟨_, _, _, _, rfl, hexValue_digitChar (by omega), hexValue_digitChar (by omega),
    hexValue_digitChar (by omega), hexValue_digitChar (by omega)⟩

theorem groupText_hex (a b : UInt8) : ∀ c ∈ groupText a b, isHex c = true := by
  obtain ⟨d₁, d₂, d₃, d₄, htext, h₁, h₂, h₃, h₄⟩ := groupText_digits a b
  rw [htext]
  simp [isHex, h₁, h₂, h₃, h₄]

/-- They are read as its two bytes. -/
theorem groupBytes_groupText (a b : UInt8) : groupBytes (groupText a b) = [a, b] := by
  obtain ⟨d₁, d₂, d₃, d₄, htext, h₁, h₂, h₃, h₄⟩ := groupText_digits a b
  have ha := a.toNat_lt
  have hb := b.toNat_lt
  have hvalue : (groupText a b).foldl (fun n c => 16 * n + (hexValue c).getD 0) 0 =
      256 * a.toNat + b.toNat := by
    rw [htext]
    simp only [List.foldl_cons, List.foldl_nil, h₁, h₂, h₃, h₄, Option.getD_some]
    omega
  unfold groupBytes
  rw [hvalue]
  have hhigh : (256 * a.toNat + b.toNat) / 256 = a.toNat := by omega
  have hlow : UInt8.ofNat (256 * a.toNat + b.toNat) = b := by
    apply UInt8.toNat_inj.mp
    rw [UInt8.toNat_ofNat']
    omega
  dsimp only
  rw [hhigh, hlow, UInt8.ofNat_toNat]

/-- The digits, and what is behind them. -/
theorem span_hex {digits s : Text} (h : ∀ c ∈ digits, isHex c = true)
    (hs : ∀ c ∈ s.head?, isHex c = false) :
    (digits ++ s).takeWhile isHex = digits ∧ (digits ++ s).dropWhile isHex = s := by
  have hstop : s.takeWhile isHex = [] ∧ s.dropWhile isHex = s := by
    cases s with
    | nil => exact ⟨rfl, rfl⟩
    | cons c s =>
      have hc := hs c rfl
      simp [hc]
  rw [List.takeWhile_append_of_pos h, List.dropWhile_append_of_pos h, hstop.1, hstop.2,
    List.append_nil]
  exact ⟨rfl, rfl⟩

/-- An address written out begins with a digit, not with a colon. -/
theorem fullText_head (a b : UInt8) (bytes : List UInt8) :
    ∃ c s, fullText (a :: b :: bytes) = c :: s ∧ isHex c = true := by
  obtain ⟨d₁, d₂, d₃, d₄, htext, h₁, -⟩ := groupText_digits a b
  have hhex : isHex d₁ = true := by
    unfold isHex
    rw [h₁]
    rfl
  cases bytes with
  | nil => exact ⟨d₁, _, htext, hhex⟩
  | cons c bytes =>
    refine ⟨d₁, [d₂, d₃, d₄] ++ ':' :: fullText (c :: bytes), ?_, hhex⟩
    show groupText a b ++ _ = _
    rw [htext]
    rfl

/-- **Groups written out are read back.** The induction is on the groups. -/
theorem parseGroups_fullText (left : Nat) : ∀ (ip bytes : List UInt8),
    bytes.length = 2 * (left + 1) →
      parseGroups (left + 1) ip none (fullText bytes) = some (ip ++ bytes, none) := by
  induction left with
  | zero =>
    intro ip bytes hlen
    match bytes, hlen with
    | [a, b], _ =>
      obtain ⟨htake, hdrop⟩ := span_hex (groupText_hex a b) (s := []) (fun _ hc => by cases hc)
      rw [List.append_nil] at htake hdrop
      show parseGroups 1 ip none (groupText a b) = _
      unfold parseGroups
      dsimp only
      rw [htake, hdrop, groupBytes_groupText, if_neg (by simp [groupText])]
  | succ left ih =>
    intro ip bytes hlen
    match bytes, hlen with
    | a :: b :: c :: d :: bytes, hlen =>
      have hrest := ih (ip ++ [a, b]) (c :: d :: bytes) (by simp at hlen ⊢; omega)
      obtain ⟨x, s, htext, hhex⟩ := fullText_head c d bytes
      obtain ⟨htake, hdrop⟩ := span_hex (groupText_hex a b) (s := ':' :: fullText (c :: d :: bytes))
        (fun _ hc => by cases hc; rfl)
      have hx : x ≠ ':' := fun he => by
        rw [he] at hhex
        cases hhex
      show parseGroups (left + 1 + 1) ip none
        (groupText a b ++ ':' :: fullText (c :: d :: bytes)) = _
      rw [parseGroups, htake, hdrop, groupBytes_groupText, if_neg (by simp [groupText]), htext]
      rw [htext] at hrest
      simp [hx, hrest]

/-- An address written out has no dot and no percent sign. -/
theorem fullText_chars : ∀ (bytes : List UInt8), ∀ c ∈ fullText bytes, isHex c = true ∨ c = ':'
  | [], _, hc => by cases hc
  | [_], _, hc => by cases hc
  | [a, b], c, hc => Or.inl (groupText_hex a b c hc)
  | a :: b :: d :: bytes, c, hc => by
    rcases List.mem_append.mp hc with hc | hc
    · exact Or.inl (groupText_hex a b c hc)
    · rcases List.mem_cons.mp hc with hc | hc
      · exact Or.inr hc
      · exact fullText_chars (d :: bytes) c hc

/-- Every 16 bytes are an address that some text is read as. -/
theorem parseIP_fullText {ip : IP} (h : ip.length = 16) : parseIP (fullText ip) = some ip := by
  have hgroups := parseGroups_fullText 7 [] ip h
  rw [List.nil_append] at hgroups
  have hpercent : '%' ∉ fullText ip := by
    intro hc
    rcases fullText_chars ip _ hc with hc | hc
    · cases hc
    · cases hc
  match ip, h with
  | a :: b :: c :: d :: bytes, h =>
    have hfind :
        (fullText (a :: b :: c :: d :: bytes)).find? (fun c => c = '.' ∨ c = ':' ∨ c = '%') =
        some ':' := by
      show (groupText a b ++ ':' :: fullText (c :: d :: bytes)).find? _ = _
      rw [List.find?_append, List.find?_eq_none.mpr ?_]
      · rfl
      · intro x hx hsep
        have hhex := groupText_hex a b x hx
        simp only [decide_eq_true_eq] at hsep
        rcases hsep with rfl | rfl | rfl <;> cases hhex
    obtain ⟨x, s, htext, hhex⟩ := fullText_head a b (c :: d :: bytes)
    have hx : x ≠ ':' := fun he => by
      rw [he] at hhex
      cases hhex
    unfold parseIP
    rw [hfind]
    show (if '%' ∈ _ then none else parseIPv6 _) = _
    rw [if_neg hpercent]
    rw [htext] at hgroups ⊢
    unfold parseIPv6
    simp [hx, hgroups, expandEllipsis, h]

/-- Whatever the ellipsis stands for, there are 16 bytes in the end. -/
theorem expandEllipsis_length {r : List UInt8 × Option Nat} {ip : IP}
    (h : expandEllipsis r = some ip) : ip.length = 16 := by
  unfold expandEllipsis at h
  split at h
  next bytes =>
    split at h
    next hlen => exact Option.some.inj h ▸ hlen
    next => cases h
  next bytes ellipsis =>
    split at h
    next hlen =>
      obtain rfl := Option.some.inj h
      rw [List.length_append, List.length_append, List.length_replicate, List.length_take,
        List.length_drop]
      omega
    next => cases h

/-- `ParseIP` gives 16 bytes, for IPv4 addresses too. -/
theorem parseIP_length {s : Text} {ip : IP} (h : parseIP s = some ip) : ip.length = 16 := by
  unfold parseIP at h
  split at h
  next =>
    obtain ⟨fields, hfields, rfl⟩ := Option.map_eq_some_iff.mp h
    rw [List.length_append, (parseIPv4_chars hfields).1]
    rfl
  next =>
    split at h
    next => cases h
    next =>
      unfold parseIPv6 at h
      split at h
      next => exact Option.some.inj h ▸ rfl
      next =>
        obtain ⟨r, -, hr⟩ := Option.bind_eq_some_iff.mp h
        exact expandEllipsis_length hr
      next =>
        obtain ⟨r, -, hr⟩ := Option.bind_eq_some_iff.mp h
        exact expandEllipsis_length hr
  next => cases h

/-! ## Splitting what was joined -/

section Split

variable {host port : Text} (hopen : '[' ∉ host) (hclose : ']' ∉ host)
  (hport : ∀ c ∈ port, c.isDigit = true)

include hport in
/-- A port has nothing but digits. -/
theorem not_mem_port {c : Char} (hc : c.isDigit = false) : c ∉ port := by
  intro hmem
  rw [hport c hmem] at hc
  cases hc

include hopen hclose hport in
/-- A host without a colon is split off at the colon. -/
theorem splitHostPort_plain (hcolon : ':' ∉ host) :
    splitHostPort (host ++ ':' :: port) = .ok (host, port) := by
  have hi : lastIndex ':' (host ++ ':' :: port) = host.length :=
    lastIndex_append (not_mem_port hport rfl)
  have hout : ∀ c, c ∉ host → c ≠ ':' → c.isDigit = false → c ∉ host ++ ':' :: port := by
    intro c hhost hne hdigit
    simp [hhost, hne, not_mem_port hport hdigit]
  have hhead : (host ++ ':' :: port).head? ≠ some '[' := by
    intro hhead
    exact hout '[' hopen (by decide) rfl (List.mem_of_mem_head? hhead)
  have htake : (host ++ ':' :: port).take host.length = host := List.take_left
  have hdrop : (host ++ ':' :: port).drop (host.length + 1) = port := by
    rw [← List.drop_drop, List.drop_left, List.drop_one, List.tail_cons]
  unfold splitHostPort
  dsimp only
  rw [hi, if_neg (by omega), if_neg hhead, Int.toNat_natCast, htake, if_neg hcolon]
  unfold splitRest
  rw [List.drop_zero, if_neg (hout '[' hopen (by decide) rfl),
    if_neg (hout ']' hclose (by decide) rfl),
    hdrop]

include hport in
theorem lastIndex_bracketed :
    lastIndex ':' ('[' :: (host ++ ']' :: ':' :: port)) = host.length + 2 := by
  have htext : '[' :: (host ++ ']' :: ':' :: port) =
      ('[' :: (host ++ [']'])) ++ ':' :: port := by simp
  rw [htext, lastIndex_append (not_mem_port hport rfl)]
  simp
  omega

include hopen hclose hport in
/-- A host in brackets is split off at the bracket, whatever colons it has. -/
theorem splitHostPort_bracketed :
    splitHostPort ('[' :: (host ++ ']' :: ':' :: port)) = .ok (host, port) := by
  have hi : lastIndex ':' ('[' :: (host ++ ']' :: ':' :: port)) = host.length + 2 :=
    lastIndex_bracketed hport
  have hlast : firstIndex ']' (('[' :: host) ++ ']' :: ':' :: port) = host.length + 1 :=
    firstIndex_append (by simp [hclose])
  rw [List.cons_append] at hlast
  have hlen : (('[' :: (host ++ ']' :: ':' :: port)).length : Int) =
      host.length + 3 + port.length := by
    simp
    omega
  have hhead : ('[' :: (host ++ ']' :: ':' :: port)).head? = some '[' := rfl
  have hhost :
      (('[' :: (host ++ ']' :: ':' :: port)).take (host.length + 1)).drop 1 = host := by simp
  have hrest : ('[' :: (host ++ ']' :: ':' :: port)).drop (host.length + 2) = ':' :: port := by simp
  have hopen' : '[' ∉ ('[' :: (host ++ ']' :: ':' :: port)).drop 1 := by
    simp [hopen, not_mem_port hport]
  have hclose' : ']' ∉ ':' :: port := by simp [not_mem_port hport]
  generalize '[' :: (host ++ ']' :: ':' :: port) = hostport at *
  unfold splitHostPort
  dsimp only
  rw [hi, if_neg (by omega), if_pos hhead, hlast, if_neg (by omega), if_neg (by omega),
    if_pos (by omega)]
  show splitRest hostport ((hostport.take (host.length + 1)).drop 1) (host.length + 2) 1
    (host.length + 2) = _
  unfold splitRest
  rw [if_neg hopen', hrest, if_neg hclose', hhost, ← List.drop_drop, hrest]
  rfl

include hopen hport in
/-- A host with a colon, not in brackets, is refused. -/
theorem splitHostPort_colons (hcolon : ':' ∈ host) :
    splitHostPort (host ++ ':' :: port) = .error (.addr tooManyColons (host ++ ':' :: port)) := by
  have hi : lastIndex ':' (host ++ ':' :: port) = host.length :=
    lastIndex_append (not_mem_port hport rfl)
  have hhead : (host ++ ':' :: port).head? ≠ some '[' := by
    cases host with
    | nil => cases hcolon
    | cons c cs =>
      intro hhead
      exact hopen (List.mem_of_mem_head? hhead)
  have htake : (host ++ ':' :: port).take host.length = host := List.take_left
  unfold splitHostPort
  dsimp only
  rw [hi, if_neg (by omega), if_neg hhead, Int.toNat_natCast, htake, if_pos hcolon]

/-! ## Is there a port? -/

include hopen in
/-- Outside brackets it is the number of colons that counts: one colon is taken for that of a
port. -/
theorem hasPort_bare : hasPort host = (host.count ':' == 1) := by
  unfold hasPort
  rw [lastIndex_of_not_mem hopen, if_neg (by decide)]

include hopen hport in
theorem hasPort_plain (hcolon : ':' ∉ host) : hasPort (host ++ ':' :: port) = true := by
  have hnot : '[' ∉ host ++ ':' :: port := by simp [hopen, not_mem_port hport]
  rw [hasPort_bare hnot, List.count_append, List.count_eq_zero.mpr hcolon, List.count_cons_self,
    List.count_eq_zero.mpr (not_mem_port hport rfl)]
  rfl

include hopen in
/-- Brackets with nothing behind them have no port. -/
theorem hasPort_brackets : hasPort ('[' :: (host ++ [']'])) = false := by
  have hopens : lastIndex '[' ('[' :: (host ++ [']'])) = 0 :=
    lastIndex_cons_self (by simp [hopen])
  have hcloses : lastIndex ']' (('[' :: host) ++ [']']) = host.length + 1 :=
    lastIndex_append (by simp)
  have hcolon : lastIndex ':' (('[' :: host) ++ [']']) < host.length + 1 := by
    rw [lastIndex_append_of_not_mem (by decide)]
    exact lastIndex_lt ':' ('[' :: host)
  rw [List.cons_append] at hcloses hcolon
  unfold hasPort
  rw [if_pos hopens, hcloses]
  exact decide_eq_false (by omega)

include hopen hport in
/-- Brackets with a colon behind them do. -/
theorem hasPort_bracketed : hasPort ('[' :: (host ++ ']' :: ':' :: port)) = true := by
  have hopens : lastIndex '[' ('[' :: (host ++ ']' :: ':' :: port)) = 0 :=
    lastIndex_cons_self (by simp [hopen, not_mem_port hport])
  have hcloses : lastIndex ']' (('[' :: host) ++ ']' :: ':' :: port) = host.length + 1 :=
    lastIndex_append (by simp [not_mem_port hport])
  rw [List.cons_append] at hcloses
  unfold hasPort
  rw [if_pos hopens, hcloses, lastIndex_bracketed hport]
  exact decide_eq_true (by omega)

end Split

/-! ## Resolving -/

/-- The port that was split off is read back. -/
theorem parsePort_of_split {s host : Text} {p : UInt16}
    (h : splitHostPort s = .ok (host, itoa p.toNat)) : parsePort s = .ok (host, p) := by
  have huint : parseUint 16 (itoa p.toNat) = .ok p.toNat := parseUint_itoa p.toNat_lt
  show (splitHostPort s >>= fun r => parseUint 16 r.2 >>= fun n => pure (r.1, UInt16.ofNat n)) = _
  rw [h]
  show (parseUint 16 (itoa p.toNat) >>= fun n => pure (host, UInt16.ofNat n)) = _
  rw [huint]
  show Except.ok (host, UInt16.ofNat p.toNat) = _
  rw [UInt16.ofNat_toNat]

/-- A text that splits into that of an IP address and a port needs no lookup. -/
theorem resolveAddr_of_split {dns : DNS} {s host : Text} {ip : IP} {p : UInt16}
    (hip : parseIP host = some ip)
    (h : splitHostPort (if hasPort s then s else s ++ [':', '0']) = .ok (host, itoa p.toNat)) :
    resolveAddr dns s = (.ok ([ip], p), []) := by
  unfold resolveAddr
  dsimp only
  rw [parsePort_of_split h]
  dsimp only
  rw [hip]

/-- Behind a text of an address the port is found again. -/
theorem resolveAddr_joinHostPort {s : Text} {ip : IP} (h : parseIP s = some ip) (dns : DNS)
    (p : UInt16) : resolveAddr dns (joinHostPort s p) = (.ok ([ip], p), []) := by
  obtain ⟨hopen, hclose, -⟩ := parseIP_text h
  have hport : ∀ c ∈ itoa p.toNat, c.isDigit = true := itoa_digits
  refine resolveAddr_of_split h ?_
  unfold joinHostPort netJoinHostPort
  by_cases hcolon : ':' ∈ s
  · rw [if_pos hcolon, hasPort_bracketed hopen hport, if_pos rfl]
    exact splitHostPort_bracketed hopen hclose hport
  · rw [if_neg hcolon, hasPort_plain hopen hport hcolon, if_pos rfl]
    exact splitHostPort_plain hopen hclose hport hcolon

/-- **Which texts of an IP address resolve to it.** The addresses, 16 bytes each, are what
`net.ParseIP` reads; and for every text it reads as `ip` and every port: alone the text
resolves to `[ip]` and port 0 exactly if it has no colon, that is unless it is an IPv6
text; in brackets always; and joined with the port always, to that port. No lookup is made. -/
theorem resolveAddr_ip_iff (dns : DNS) (ip : IP) (p : UInt16) :
    (ip.length = 16 ↔ ∃ t, parseIP t = some ip) ∧
      ∀ t, parseIP t = some ip →
        (resolveAddr dns t = (.ok ([ip], 0), []) ↔ ':' ∉ t) ∧
        resolveAddr dns ('[' :: (t ++ [']'])) = (.ok ([ip], 0), []) ∧
        resolveAddr dns (joinHostPort t p) = (.ok ([ip], p), []) := by
  refine ⟨⟨fun h => ⟨_, parseIP_fullText h⟩, fun ⟨t, h⟩ => parseIP_length h⟩, ?_⟩
  intro t h
  obtain ⟨hopen, hclose, hcolons⟩ := parseIP_text h
  have hzero : ∀ c ∈ itoa 0, c.isDigit = true := itoa_digits
  -- alone, a text is never taken for one with a port
  have hbare : hasPort t = false := by
    rw [hasPort_bare hopen]
    by_cases hcolon : ':' ∈ t
    · have htwo := hcolons hcolon
      exact beq_false_of_ne (by omega)
    · rw [List.count_eq_zero.mpr hcolon]
      rfl
  refine ⟨⟨?_, ?_⟩, ?_, ?_⟩
  · intro hresolved hcolon
    have hsplit := splitHostPort_colons hopen hzero hcolon
    have hparse : parsePort (t ++ [':', '0']) = .error (.addr tooManyColons (t ++ [':', '0'])) := by
      show (splitHostPort (t ++ ':' :: itoa 0) >>= _) = _
      rw [hsplit]
      rfl
    unfold resolveAddr at hresolved
    dsimp only at hresolved
    rw [hbare, if_neg Bool.false_ne_true, hparse] at hresolved
    cases hresolved
  · intro hcolon
    refine resolveAddr_of_split (p := 0) h ?_
    rw [hbare, if_neg Bool.false_ne_true]
    exact splitHostPort_plain hopen hclose hzero hcolon
  · refine resolveAddr_of_split (p := 0) h ?_
    rw [hasPort_brackets hopen, if_neg Bool.false_ne_true, List.cons_append,
      List.append_assoc]
    exact splitHostPort_bracketed hopen hclose hzero
  · exact resolveAddr_joinHostPort h dns p

namespace Concrete

/-- No server, and a resolver that knows no name. -/
def noDNS : DNS :=
  { config := .error "open /etc/resolv.conf: no such file or directory"
    exchange := fun _ _ => .error "i/o timeout"
    lookupIP := fun _ => .error "no such host" }

/-- `::1`. -/
def loopback : IP := [0, 0, 0, 0, 0, 0, 0, 0, 0, 0, 0, 0, 0, 0, 0, 1]

end Concrete

open Concrete

/-- `127.0.0.1`, alone and with the port 7946. -/
theorem resolveAddr_ip_iff_ipv4 :
    let t : Text := ['1', '2', '7', '.', '0', '.', '0', '.', '1']
    let ip : IP := [0, 0, 0, 0, 0, 0, 0, 0, 0, 0, 255, 255, 127, 0, 0, 1]
    parseIP t = some ip ∧ resolveAddr noDNS t = (.ok ([ip], 0), []) ∧
      resolveAddr noDNS (joinHostPort t 7946) = (.ok ([ip], 7946), []) := by
  intro t ip
  have h : parseIP t = some ip := by decide
  obtain ⟨hbare, -, hjoined⟩ := (resolveAddr_ip_iff noDNS ip 7946).2 t h
  exact ⟨h, hbare.mpr (by decide), hjoined⟩

/-- `::1` is refused, and `[::1]` is not. -/
theorem ipv6_refused :
    let t : Text := [':', ':', '1']
    parseIP t = some loopback ∧
      resolveAddr noDNS t = (.error (.addr tooManyColons [':', ':', '1', ':', '0']), []) ∧
      resolveAddr noDNS ['[', ':', ':', '1', ']'] = (.ok ([loopback], 0), []) := by
  decide

end Mlist
