import Mathlib.Data.List.GetD
import Mlist.Model.Address
import Mlist.Net.Resolve

/-!
# An address that is written is read back

`ipString` writes an address in the short form: no leading zeros in a group, and the longest
run of zero groups left out. `net.ParseIP` reads the same bytes back (`parseIP_ipString`), an
IPv4 address as the IPv6 address it is mapped to. The text is one or two lists of groups with
colons between them (`appendGroups_eq`, `appendGroups_run`), and the parser takes them group by
group.

So what `Join` and the push/pulls dial is the address they meant (`resolveAddr_ipString`), and
a member's own address survives being written down (`advertised`).
-/

namespace Mlist

open Mlist.Lib

/-! ## Groups -/

/-- The bytes of groups. -/
def bytesOf (gs : List Nat) : List UInt8 :=
  gs.flatMap fun x => [UInt8.ofNat (x / 256), UInt8.ofNat x]

@[simp] theorem bytesOf_nil : bytesOf [] = [] := rfl

@[simp] theorem bytesOf_cons (x : Nat) (gs : List Nat) :
    bytesOf (x :: gs) = [UInt8.ofNat (x / 256), UInt8.ofNat x] ++ bytesOf gs := rfl

theorem bytesOf_append (gs gs' : List Nat) : bytesOf (gs ++ gs') = bytesOf gs ++ bytesOf gs' :=
  List.flatMap_append

/-- A group has two bytes. -/
theorem bytesOf_length (gs : List Nat) : (bytesOf gs).length = 2 * gs.length := by
  induction gs with
  | nil => rfl
  | cons x gs ih =>
    rw [bytesOf_cons, List.length_append, ih, List.length_cons]
    simp only [List.length_cons, List.length_nil]
    omega

/-- Groups of zeros are bytes of zeros: what the ellipsis stands for. -/
theorem bytesOf_zeros (n : Nat) : bytesOf (List.replicate n 0) = List.replicate (2 * n) 0 := by
  induction n with
  | zero => rfl
  | succ n ih =>
    rw [List.replicate_succ, bytesOf_cons, ih]
    rfl

/-- A group has 16 bits. -/
theorem groupsOf_lt (bytes : List UInt8) : ∀ x ∈ groupsOf bytes, x < 0x10000 := by
  fun_induction groupsOf bytes with
  | case1 a b bytes ih =>
    intro x hx
    rcases List.mem_cons.mp hx with rfl | hx
    · have ha := a.toNat_lt
      have hb := b.toNat_lt
      omega
    · exact ih x hx
  | case2 => intro x hx; cases hx

/-- Taking the bytes in groups loses nothing. -/
theorem bytesOf_groupsOf {n : Nat} : ∀ (bytes : List UInt8), bytes.length = 2 * n →
    bytesOf (groupsOf bytes) = bytes ∧ (groupsOf bytes).length = n := by
  induction n with
  | zero =>
    intro bytes h
    rw [List.eq_nil_of_length_eq_zero h]
    exact ⟨rfl, rfl⟩
  | succ n ih =>
    intro bytes h
    match bytes, h with
    | a :: b :: bytes, h =>
      obtain ⟨hbytes, hlen⟩ := ih bytes (by simp only [List.length_cons] at h; omega)
      have ha := a.toNat_lt
      have hb := b.toNat_lt
      have hhigh : (256 * a.toNat + b.toNat) / 256 = a.toNat := by omega
      have hlow : UInt8.ofNat (256 * a.toNat + b.toNat) = b := by
        apply UInt8.toNat_inj.mp
        rw [UInt8.toNat_ofNat']
        omega
      rw [groupsOf, bytesOf_cons, hbytes, hhigh, hlow, UInt8.ofNat_toNat, List.length_cons, hlen]
      exact ⟨rfl, rfl⟩

/-! ## The digits of a group -/

/-- A group in hexadecimal: one to four digits, which read as the group. -/
theorem appendHex_spec {x : Nat} (h : x < 0x10000) :
    appendHex x ≠ [] ∧ (appendHex x).length ≤ 4 ∧ (∀ c ∈ appendHex x, isHex c = true) ∧
      (appendHex x).foldl (fun n c => 16 * n + (hexValue c).getD 0) 0 = x := by
  have h₀ := hexValue_digitChar (d := x % 16) (by omega)
  have h₁ := hexValue_digitChar (d := x / 0x10 % 16) (by omega)
  have h₂ := hexValue_digitChar (d := x / 0x100 % 16) (by omega)
  have h₃ := hexValue_digitChar (d := x / 0x1000) (by omega)
  unfold appendHex
  refine ⟨by simp, ?_, ?_, ?_⟩
  · split <;> split <;> split <;> simp
  · intro c hc
    unfold isHex
    split at hc <;> split at hc <;> split at hc <;>
      simp only [List.nil_append, List.mem_cons, List.not_mem_nil,
        or_false, List.cons_append] at hc <;> grind
  · split <;> split <;> split <;>
      simp only [List.nil_append, List.cons_append, List.foldl_cons, List.foldl_nil, h₀, h₁, h₂,
        h₃, Option.getD_some] <;> omega

/-- The bytes of a group are read off its digits. -/
theorem groupBytes_appendHex {x : Nat} (h : x < 0x10000) :
    groupBytes (appendHex x) = [UInt8.ofNat (x / 256), UInt8.ofNat x] := by
  unfold groupBytes
  rw [(appendHex_spec h).2.2.2]

/-! ## Groups with colons -/

/-- Groups, each behind a colon. -/
def colonGroups (gs : List Nat) : Text := gs.flatMap fun x => ':' :: appendHex x

/-- Groups with colons between them. -/
def joinGroups : List Nat → Text
  | [] => []
  | x :: gs => appendHex x ++ colonGroups gs

@[simp] theorem colonGroups_nil : colonGroups [] = [] := rfl

/-- No dot and no percent sign: an address written in groups is not taken for an IPv4 one, nor for
one with a zone. -/
theorem colonGroups_chars {gs : List Nat} (h : ∀ x ∈ gs, x < 0x10000) :
    ∀ c ∈ colonGroups gs, isHex c = true ∨ c = ':' := by
  intro c hc
  obtain ⟨x, hx, hc⟩ := List.mem_flatMap.mp hc
  rcases List.mem_cons.mp hc with rfl | hc
  · exact .inr rfl
  · exact .inl ((appendHex_spec (h x hx)).2.2.1 c hc)

theorem joinGroups_chars {gs : List Nat} (h : ∀ x ∈ gs, x < 0x10000) :
    ∀ c ∈ joinGroups gs, isHex c = true ∨ c = ':' := by
  cases gs with
  | nil => intro c hc; cases hc
  | cons x gs =>
    intro c hc
    exact colonGroups_chars h c (List.mem_cons_of_mem ':' hc)

/-- Groups begin with a digit. -/
theorem joinGroups_head {x : Nat} (h : x < 0x10000) (gs : List Nat) :
    ∃ c s, joinGroups (x :: gs) = c :: s ∧ isHex c = true := by
  obtain ⟨hne, -, hhex, -⟩ := appendHex_spec h
  obtain ⟨c, s, hcs⟩ := List.exists_cons_of_ne_nil hne
  refine ⟨c, s ++ colonGroups gs, ?_, hhex c (hcs ▸ List.mem_cons_self)⟩
  show appendHex x ++ colonGroups gs = _
  rw [hcs]
  rfl

/-! ## Reading groups -/

section Read

variable {x left : Nat} (hx : x < 0x10000) (ip : List UInt8) (ellipsis : Option Nat)

include hx

/-- What the parser refuses as a group is not written. -/
theorem appendHex_group : ¬(appendHex x = [] ∨ 4 < (appendHex x).length) := by
  obtain ⟨hne, hlen, -⟩ := appendHex_spec hx
  rintro (h | h)
  · exact hne h
  · omega

/-- The last group. -/
theorem parseGroups_last : parseGroups (left + 1) ip ellipsis (appendHex x) =
    some (ip ++ bytesOf [x], ellipsis) := by
  obtain ⟨htake, hdrop⟩ := span_hex (appendHex_spec hx).2.2.1 (s := []) (fun _ hc => by cases hc)
  rw [List.append_nil] at htake hdrop
  rw [parseGroups, htake, hdrop, if_neg (appendHex_group hx), groupBytes_appendHex hx]
  rfl

/-- A group with another one behind it. -/
theorem parseGroups_colon {c : Char} {s : Text} (hc : c ≠ ':') :
    parseGroups (left + 1) ip ellipsis (appendHex x ++ ':' :: c :: s) =
      parseGroups left (ip ++ bytesOf [x]) ellipsis (c :: s) := by
  obtain ⟨htake, hdrop⟩ := span_hex (appendHex_spec hx).2.2.1 (s := ':' :: c :: s)
    (fun _ hc => by cases hc; rfl)
  rw [parseGroups, htake, hdrop, if_neg (appendHex_group hx), groupBytes_appendHex hx]
  split
  case h_5 more _ _ h =>
    rw [← (List.cons.inj h).2]
    rfl
  all_goals simp_all

/-- A group with the ellipsis behind it. -/
theorem parseGroups_ellipsis (more : Text) :
    parseGroups (left + 1) ip none (appendHex x ++ ':' :: ':' :: more) =
      if more = [] then some (ip ++ bytesOf [x], some (ip ++ bytesOf [x]).length)
      else parseGroups left (ip ++ bytesOf [x]) (some (ip ++ bytesOf [x]).length) more := by
  obtain ⟨htake, hdrop⟩ := span_hex (appendHex_spec hx).2.2.1 (s := ':' :: ':' :: more)
    (fun _ hc => by cases hc; rfl)
  rw [parseGroups, htake, hdrop, if_neg (appendHex_group hx), groupBytes_appendHex hx]
  rfl

end Read

/-- **Groups with colons between them are read back**, to the end of the text or to two
colons. The induction is on the groups. -/
theorem parseGroups_join (gs : List Nat) : ∀ (left : Nat) (ip : List UInt8), gs ≠ [] →
    (∀ x ∈ gs, x < 0x10000) → gs.length ≤ left →
      (∀ ellipsis, parseGroups left ip ellipsis (joinGroups gs) =
        some (ip ++ bytesOf gs, ellipsis)) ∧
      ∀ more, parseGroups left ip none (joinGroups gs ++ ':' :: ':' :: more) =
        if more = [] then some (ip ++ bytesOf gs, some (ip ++ bytesOf gs).length)
        else parseGroups (left - gs.length) (ip ++ bytesOf gs) (some (ip ++ bytesOf gs).length)
          more := by
  induction gs with
  | nil => intro left ip hne; exact absurd rfl hne
  | cons x gs ih =>
    intro left ip _ hlt hleft
    have hx := hlt x List.mem_cons_self
    -- there is room for this group
    obtain ⟨left, rfl⟩ := Nat.exists_eq_add_one_of_ne_zero (Nat.ne_of_gt (Nat.lt_of_lt_of_le
      (Nat.zero_lt_succ gs.length) hleft))
    cases gs with
    | nil =>
      constructor
      · intro ellipsis
        show parseGroups (left + 1) ip ellipsis (appendHex x ++ []) = _
        rw [List.append_nil]
        exact parseGroups_last hx ip ellipsis
      · intro more
        show parseGroups (left + 1) ip none (appendHex x ++ [] ++ ':' :: ':' :: more) = _
        rw [List.append_nil]
        exact parseGroups_ellipsis hx ip more
    | cons y gs =>
      obtain ⟨hend, hcolons⟩ := ih left (ip ++ bytesOf [x]) (List.cons_ne_nil y gs)
        (fun z hz => hlt z (List.mem_cons_of_mem x hz)) (Nat.le_of_succ_le_succ hleft)
      have hsplit : ip ++ bytesOf (x :: y :: gs) = ip ++ bytesOf [x] ++ bytesOf (y :: gs) := by
        rw [List.append_assoc]
        rfl
      -- after the colon comes a digit, so it is not the first of two colons
      obtain ⟨c, s, hjoin, hc⟩ :=
        joinGroups_head (hlt y (List.mem_cons_of_mem x List.mem_cons_self)) gs
      have hne : c ≠ ':' := by
        rintro rfl
        cases hc
      rw [hsplit]
      constructor
      · intro ellipsis
        rw [← hend ellipsis]
        show parseGroups (left + 1) ip ellipsis (appendHex x ++ ':' :: joinGroups (y :: gs)) = _
        rw [hjoin]
        exact parseGroups_colon hx ip ellipsis hne
      · intro more
        have hshift : left + 1 - (x :: y :: gs).length = left - (y :: gs).length := by
          simp only [List.length_cons]
          omega
        rw [hshift, ← hcolons more]
        show parseGroups (left + 1) ip none
          (appendHex x ++ ':' :: joinGroups (y :: gs) ++ ':' :: ':' :: more) = _
        rw [List.append_assoc, hjoin]
        exact parseGroups_colon hx ip none hne

/-! ## Writing groups -/

section Write

variable {gs : List Nat} {z : Nat × Nat}

theorem drop_eq_getD_cons {i : Nat} (h : i < gs.length) :
    gs.drop i = gs.getD i 0 :: gs.drop (i + 1) := by
  rw [List.drop_eq_getElem_cons h, List.getD_eq_getElem gs 0 h]

/-- Behind the run, or where there is none. -/
theorem appendGroups_rest (hlen : gs.length = 8) : ∀ {fuel i : Nat}, 0 < i →
    (z.1 < i ∨ 8 ≤ z.1) → 8 - i ≤ fuel → appendGroups gs z fuel i = colonGroups (gs.drop i) := by
  intro fuel
  induction fuel with
  | zero =>
    intro i _ _ hfuel
    rw [List.drop_of_length_le (by omega)]
    rfl
  | succ fuel ih =>
    intro i hpos hrun hfuel
    unfold appendGroups
    split
    next hge =>
      rw [List.drop_of_length_le (by omega)]
      rfl
    next hlt =>
      rw [if_neg (by omega), ih (by omega) (by omega) (by omega),
        drop_eq_getD_cons (i := i) (by omega)]
      rfl

/-- Before the run. -/
theorem appendGroups_before (hlen : gs.length = 8) (hz : z.1 < z.2) : ∀ {fuel i : Nat}, 0 < i →
    i ≤ z.1 → z.1 < 8 → 8 - i ≤ fuel → appendGroups gs z fuel i =
      colonGroups ((gs.take z.1).drop i) ++ ':' :: ':' :: joinGroups (gs.drop z.2) := by
  intro fuel
  induction fuel with
  | zero => intro i _ _ _ _; omega
  | succ fuel ih =>
    intro i hpos hle hlt hfuel
    unfold appendGroups
    rw [if_neg (by omega)]
    split
    next heq =>
      rw [List.drop_of_length_le (by rw [List.length_take]; omega)]
      split
      next hend =>
        rw [List.drop_of_length_le (by omega)]
        rfl
      next hend =>
        rw [appendGroups_rest hlen (by omega) (by omega) (by omega),
          drop_eq_getD_cons (i := z.2) (by omega)]
        rfl
    next hne =>
      rw [ih (by omega) (by omega) hlt (by omega)]
      have hdrop : (gs.take z.1).drop i = gs.getD i 0 :: (gs.take z.1).drop (i + 1) := by
        rw [List.drop_eq_getElem_cons (by rw [List.length_take]; omega), List.getElem_take,
          List.getD_eq_getElem gs 0 (by omega)]
      rw [hdrop]
      simp only [colonGroups, List.flatMap_cons, List.cons_append, List.nil_append,
        List.append_assoc]

/-- Between the two numbers there are zeros. -/
structure ZeroRun (gs : List Nat) (z : Nat × Nat) : Prop where
  lt : z.1 < z.2
  le : z.2 ≤ gs.length
  zeros : gs = gs.take z.1 ++ List.replicate (z.2 - z.1) 0 ++ gs.drop z.2

/-- The zeros found at a place are a run. -/
theorem zeroRun_here {i l : Nat} (hl : ((gs.drop i).takeWhile (· == 0)).length = l) (hpos : 0 < l) :
    ZeroRun gs (i, i + l) := by
  have hsplit : (gs.drop i).takeWhile (· == 0) ++ (gs.drop i).dropWhile (· == 0) = gs.drop i :=
    List.takeWhile_append_dropWhile
  have hzeros : (gs.drop i).takeWhile (· == 0) = List.replicate l 0 := by
    rw [← hl]
    refine List.eq_replicate_of_mem fun x hx => ?_
    have hx0 : (x == 0) = true := List.mem_takeWhile_imp (p := fun x => x == 0) hx
    exact beq_iff_eq.mp hx0
  have hrest : (gs.drop i).dropWhile (· == 0) = gs.drop (i + l) := by
    rw [← List.drop_drop]
    nth_rewrite 2 [← hsplit]
    rw [List.drop_left' hl]
  have hlen := congrArg List.length hsplit
  rw [List.length_append, hl, List.length_drop] at hlen
  refine ⟨by dsimp only; omega, by dsimp only; omega, ?_⟩
  dsimp only
  rw [Nat.add_sub_cancel_left, List.append_assoc, ← hzeros, ← hrest, hsplit, List.take_append_drop]

/-- What the loop has found so far. -/
theorem zeroRun_foldl (is : List Nat) : ∀ {z : Nat × Nat}, z = (255, 255) ∨ ZeroRun gs z →
    is.foldl (zeroRun gs) z = (255, 255) ∨ ZeroRun gs (is.foldl (zeroRun gs) z) := by
  induction is with
  | nil => intro z hz; exact hz
  | cons i is ih =>
    intro z hz
    rw [List.foldl_cons]
    refine ih ?_
    unfold zeroRun
    dsimp only
    split
    next h => exact .inr (zeroRun_here rfl (by omega))
    next => exact hz

/-- Either no run of zeros is left out or a real one is. -/
theorem zeroGroups_spec (gs : List Nat) :
    zeroGroups gs = (255, 255) ∨ ZeroRun gs (zeroGroups gs) :=
  zeroRun_foldl (List.range 8) (.inl rfl)

/-- Without a run of zeros the groups are written one after the other. -/
theorem appendGroups_eq (hlen : gs.length = 8) :
    appendGroups gs (255, 255) 8 0 = joinGroups gs := by
  have hhead : gs = gs.getD 0 0 :: gs.drop 1 := drop_eq_getD_cons (i := 0) (by omega)
  have hrest : appendGroups gs (255, 255) 7 1 = colonGroups (gs.drop 1) :=
    appendGroups_rest hlen (by decide) (.inr (by decide)) (by decide)
  calc appendGroups gs (255, 255) 8 0
      = appendHex (gs.getD 0 0) ++ appendGroups gs (255, 255) 7 1 := rfl
    _ = joinGroups (gs.getD 0 0 :: gs.drop 1) := by rw [hrest]; rfl
    _ = joinGroups gs := congrArg joinGroups hhead.symm

/-- With one, the groups before it and those behind it are. -/
theorem appendGroups_run (hlen : gs.length = 8) (hz : ZeroRun gs z) :
    appendGroups gs z 8 0 =
      joinGroups (gs.take z.1) ++ ':' :: ':' :: joinGroups (gs.drop z.2) := by
  have hlt := hz.lt
  have hle := hz.le
  have hhead : gs.drop 0 = gs.getD 0 0 :: gs.drop 1 := drop_eq_getD_cons (by omega)
  rw [List.drop_zero] at hhead
  unfold appendGroups
  rw [if_neg (by decide)]
  split
  next h0 =>
    rw [← h0, List.take_zero]
    split
    next hend =>
      rw [List.drop_of_length_le (by omega)]
      rfl
    next hend =>
      rw [appendGroups_rest hlen (by omega) (by omega) (by omega),
        drop_eq_getD_cons (i := z.2) (by omega)]
      rfl
  next h0 =>
    rw [appendGroups_before hlen hlt (by decide) (by omega) (by omega) (by decide)]
    have htake : gs.take z.1 = gs.getD 0 0 :: (gs.take z.1).drop 1 := by
      obtain ⟨k, hk⟩ := Nat.exists_eq_add_one_of_ne_zero (fun h => h0 h.symm)
      rw [hk, hhead]
      rfl
    rw [if_neg (by decide), List.nil_append, ← List.append_assoc]
    exact congrArg (fun t => t ++ _) (congrArg joinGroups htake.symm)

end Write

/-! ## IPv6 -/

/-- A text of hexadecimal digits and colons is taken for an IPv6 address. -/
theorem parseIP_colons {s : Text} (h : ∀ c ∈ s, isHex c = true ∨ c = ':') (hmem : ':' ∈ s) :
    parseIP s = parseIPv6 s := by
  have hnot : ∀ c, isHex c = false → c ≠ ':' → c ∉ s := by
    intro c hhex hcolon hc
    rcases h c hc with h | h
    · rw [hhex] at h
      cases h
    · exact hcolon h
  have hfind : s.find? (fun c => c = '.' ∨ c = ':' ∨ c = '%') = some ':' := by
    cases hf : s.find? (fun c => c = '.' ∨ c = ':' ∨ c = '%') with
    | none =>
      have := List.find?_eq_none.mp hf ':' hmem
      simp at this
    | some c =>
      have hc := List.mem_of_find?_eq_some hf
      have hsep := List.find?_some hf
      simp only [decide_eq_true_eq] at hsep
      rcases hsep with rfl | rfl | rfl
      · exact absurd hc (hnot _ rfl (by decide))
      · rfl
      · exact absurd hc (hnot _ rfl (by decide))
  unfold parseIP
  rw [hfind]
  exact if_neg (hnot '%' rfl (by decide))

theorem parseIPv6_groups {c : Char} {s : Text} (hc : c ≠ ':') :
    parseIPv6 (c :: s) = (parseGroups 8 [] none (c :: s)).bind expandEllipsis := by
  unfold parseIPv6
  split <;> simp_all

/-- A text that begins with the ellipsis. -/
theorem parseIPv6_colons {c : Char} {s : Text} :
    parseIPv6 (':' :: ':' :: c :: s) =
      (parseGroups 8 [] (some 0) (c :: s)).bind expandEllipsis := by
  unfold parseIPv6
  split <;> simp_all

theorem joinGroups_eq_nil {gs : List Nat} (hlt : ∀ x ∈ gs, x < 0x10000) :
    joinGroups gs = [] ↔ gs = [] := by
  constructor
  · intro h
    cases gs with
    | nil => rfl
    | cons x gs =>
      obtain ⟨c, s, hjoin, -⟩ := joinGroups_head (hlt x List.mem_cons_self) gs
      rw [hjoin] at h
      cases h
  · rintro rfl
    rfl

/-- Eight groups are read back. -/
theorem parseIPv6_join {gs : List Nat} (hlt : ∀ x ∈ gs, x < 0x10000) (hlen : gs.length = 8) :
    parseIPv6 (joinGroups gs) = some (bytesOf gs) := by
  obtain ⟨x, gs', rfl⟩ := List.exists_cons_of_length_eq_add_one (n := 7) hlen
  obtain ⟨c, s, hjoin, hhex⟩ := joinGroups_head (hlt x List.mem_cons_self) gs'
  have hc : c ≠ ':' := by
    rintro rfl
    cases hhex
  have hread := (parseGroups_join (x :: gs') 8 [] (List.cons_ne_nil x gs') hlt
    (Nat.le_of_eq hlen)).1 none
  rw [hjoin] at hread ⊢
  rw [parseIPv6_groups hc, hread]
  show (if (bytesOf (x :: gs')).length = 16 then _ else _) = _
  rw [bytesOf_length, hlen]
  rfl

/-- The zeros that are left out are those that the groups on both sides leave room for. -/
theorem expandEllipsis_groups {as bs : List Nat} {k : Nat} (hlen : as.length + k + bs.length = 8)
    (hk : 0 < k) : expandEllipsis (bytesOf as ++ bytesOf bs, some (bytesOf as).length) =
      some (bytesOf as ++ List.replicate (2 * k) 0 ++ bytesOf bs) := by
  have hroom : (bytesOf as ++ bytesOf bs).length + 2 * k = 16 := by
    rw [List.length_append, bytesOf_length, bytesOf_length]
    omega
  show (if (bytesOf as ++ bytesOf bs).length < 16 then _ else _) = _
  rw [if_pos (by omega), List.take_left, List.drop_left, ← hroom, Nat.add_sub_cancel_left]

/-- So are groups with a run of zeros left out, as long as there are eight of them in all. -/
theorem parseIPv6_run {as bs : List Nat} {k : Nat} (has : ∀ x ∈ as, x < 0x10000)
    (hbs : ∀ x ∈ bs, x < 0x10000) (hlen : as.length + k + bs.length = 8) (hk : 0 < k) :
    parseIPv6 (joinGroups as ++ ':' :: ':' :: joinGroups bs) =
      some (bytesOf as ++ List.replicate (2 * k) 0 ++ bytesOf bs) := by
  have hexpand := expandEllipsis_groups hlen hk
  cases as with
  | nil =>
    cases bs with
    | nil =>
      -- all zeros: `::`
      obtain rfl : k = 8 := by simpa using hlen
      rfl
    | cons y bs =>
      obtain ⟨c, s, hjoin, -⟩ := joinGroups_head (hbs y List.mem_cons_self) bs
      have hread := (parseGroups_join (y :: bs) 8 [] (List.cons_ne_nil y bs) hbs
        (by omega)).1 (some 0)
      show parseIPv6 (':' :: ':' :: joinGroups (y :: bs)) = _
      rw [hjoin] at hread ⊢
      rw [parseIPv6_colons, hread]
      exact hexpand
  | cons x as =>
    -- groups come first, so the text does not begin with a colon
    obtain ⟨c, s, hjoin, hhex⟩ := joinGroups_head (has x List.mem_cons_self) as
    have hc : c ≠ ':' := by
      rintro rfl
      cases hhex
    have hread := (parseGroups_join (x :: as) 8 [] (List.cons_ne_nil x as) has
      (by omega)).2 (joinGroups bs)
    rw [List.nil_append] at hread
    rw [hjoin] at hread ⊢
    rw [List.cons_append] at hread ⊢
    rw [parseIPv6_groups hc, hread]
    split
    next hnil =>
      obtain rfl := (joinGroups_eq_nil hbs).mp hnil
      rw [bytesOf_nil, List.append_nil] at hexpand
      exact hexpand
    next hne =>
      have hmore := (parseGroups_join bs (8 - (x :: as).length) (bytesOf (x :: as))
        (fun h => hne (h ▸ rfl)) hbs (by omega)).1 (some (bytesOf (x :: as)).length)
      rw [hmore]
      exact hexpand

/-- **An IPv6 address that is written is read back.** -/
theorem parseIP_appendGroups {gs : List Nat} (hlt : ∀ x ∈ gs, x < 0x10000)
    (hlen : gs.length = 8) :
    parseIP (appendGroups gs (zeroGroups gs) 8 0) = some (bytesOf gs) := by
  rcases zeroGroups_spec gs with hz | hz
  · rw [hz, appendGroups_eq hlen, parseIP_colons (joinGroups_chars hlt) ?_]
    · exact parseIPv6_join hlt hlen
    · obtain ⟨x, y, gs', rfl⟩ : ∃ x y gs', gs = x :: y :: gs' := by
        match gs, hlen with
        | x :: y :: gs', _ => exact ⟨x, y, gs', rfl⟩
      exact List.mem_append_right _ List.mem_cons_self
  · have hle := hz.le
    have hrun := hz.lt
    rw [appendGroups_run hlen hz]
    generalize hzg : zeroGroups gs = z at *
    have hlt₁ : ∀ x ∈ gs.take z.1, x < 0x10000 := fun x hx => hlt x (List.mem_of_mem_take hx)
    have hlt₂ : ∀ x ∈ gs.drop z.2, x < 0x10000 := fun x hx => hlt x (List.mem_of_mem_drop hx)
    have hchars : ∀ c ∈ joinGroups (gs.take z.1) ++ ':' :: ':' :: joinGroups (gs.drop z.2),
        isHex c = true ∨ c = ':' := by
      intro c hc
      rcases List.mem_append.mp hc with hc | hc
      · exact joinGroups_chars hlt₁ c hc
      · rcases List.mem_cons.mp hc with rfl | hc
        · exact .inr rfl
        · rcases List.mem_cons.mp hc with rfl | hc
          · exact .inr rfl
          · exact joinGroups_chars hlt₂ c hc
    rw [parseIP_colons hchars (List.mem_append_right _ List.mem_cons_self),
      parseIPv6_run hlt₁ hlt₂ (k := z.2 - z.1) (by rw [List.length_take, List.length_drop]; omega)
        (by omega)]
    conv_rhs => rw [hz.zeros, bytesOf_append, bytesOf_append, bytesOf_zeros]

/-! ## Any address -/

/-- The 16 bytes `net.ParseIP` gives an address. -/
def to16 (ip : IP) : IP :=
  if ip.length = 4 then List.replicate 10 0 ++ [255, 255] ++ ip else ip

/-- A byte in decimal has no leading zero, so it is read back. -/
theorem parseOctet_itoa (b : UInt8) : parseOctet (itoa b.toNat) = some b := by
  have hall : ∀ n : Fin 256, parseOctet (itoa n.val) = some (UInt8.ofNat n.val) := by
    decide +kernel
  have hb := hall ⟨b.toNat, b.toNat_lt⟩
  rw [UInt8.ofNat_toNat] at hb
  exact hb

/-- An IPv4 address is read back, as the 16 bytes that stand for it. -/
theorem parseIP_dotted {ip : IP} (h : ip.length = 4) :
    parseIP (['.'].intercalate (ip.map fun b => itoa b.toNat)) =
      some (List.replicate 10 0 ++ [255, 255] ++ ip) := by
  match ip, h with
  | [a, b, c, d], _ =>
    have hdigits : ∀ (b : UInt8), ∀ x ∈ itoa b.toNat, x.isDigit = true := fun b => itoa_digits
    have hnodot : ∀ f ∈ [a, b, c, d].map (fun b => itoa b.toNat), '.' ∉ f := by
      intro f hf hdot
      obtain ⟨b, -, rfl⟩ := List.mem_map.mp hf
      cases hdigits b '.' hdot
    have hsplit := List.splitOn_intercalate '.' hnodot (by simp)
    have hfour : parseIPv4 (['.'].intercalate ([a, b, c, d].map fun b => itoa b.toNat)) =
        some [a, b, c, d] := by
      unfold parseIPv4
      rw [hsplit]
      simp [parseOctet_itoa]
    have hfind : (['.'].intercalate ([a, b, c, d].map fun b => itoa b.toNat)).find?
        (fun c => c = '.' ∨ c = ':' ∨ c = '%') = some '.' := by
      have htext : ['.'].intercalate ([a, b, c, d].map fun b => itoa b.toNat) =
          itoa a.toNat ++ '.' :: (['.'].intercalate ([b, c, d].map fun b => itoa b.toNat)) := rfl
      rw [htext, List.find?_append, List.find?_eq_none.mpr ?_]
      · rfl
      · intro x hx hsep
        have hx' := hdigits a x hx
        simp only [decide_eq_true_eq] at hsep
        rcases hsep with rfl | rfl | rfl <;> cases hx'
    unfold parseIP
    rw [hfind]
    show (parseIPv4 _).map _ = _
    rw [hfour]
    rfl

/-- The short form of an address has four bytes. -/
theorem to4_length {ip p4 : IP} (h : to4 ip = some p4) : p4.length = 4 := by
  unfold to4 at h
  split at h
  next hlen => exact Option.some.inj h ▸ hlen
  next =>
    split at h
    next hmapped =>
      rw [← Option.some.inj h, List.length_drop, hmapped.1]
    next => cases h

/-- The four bytes make up the sixteen. -/
theorem to4_mapped {ip p4 : IP} (h : to4 ip = some p4) :
    List.replicate 10 0 ++ [255, 255] ++ p4 = to16 ip := by
  unfold to4 at h
  unfold to16
  split at h
  next hlen =>
    rw [if_pos hlen, Option.some.inj h]
  next hlen =>
    rw [if_neg hlen]
    split at h
    next hmapped =>
      obtain ⟨-, hzeros, hones⟩ := hmapped
      rw [← Option.some.inj h, ← hzeros, ← hones]
      have hdrop : (ip.drop 10).drop 2 = ip.drop 12 := List.drop_drop
      rw [List.append_assoc, ← hdrop, List.take_append_drop, List.take_append_drop]
    next => cases h

/-- **An address that is written is read back.** -/
theorem parseIP_ipString {ip : IP} (h : IsIP ip) : parseIP (ipString ip) = some (to16 ip) := by
  have hne : ip ≠ [] := by
    rintro rfl
    rcases h with h | h <;> cases h
  unfold ipString
  rw [if_neg hne, if_neg (by unfold IsIP at h; omega)]
  split
  next p4 h4 =>
    rw [parseIP_dotted (to4_length h4), to4_mapped h4]
  next h4 =>
    have hlen : ip.length = 16 := by
      rcases h with h | h
      · unfold to4 at h4
        rw [if_pos h] at h4
        cases h4
      · exact h
    obtain ⟨hbytes, hgroups⟩ := bytesOf_groupsOf (n := 8) ip hlen
    rw [parseIP_appendGroups (groupsOf_lt ip) hgroups, hbytes]
    unfold to16
    rw [if_neg (by omega)]

/-! ## What is dialled -/

/-- **What is dialled is what was meant.** The text that `Join` dials for an address and a port,
and that push/pulls and pings over TCP dial for a node with this address and port, is one that
`ResolveAddr` resolves to them, without a lookup. -/
theorem resolveAddr_written {ip : IP} (h : IsIP ip) (dns : DNS) (p : UInt16) :
    udpAddrString ip p.toNat = joinHostPort (ipString ip) p ∧
      resolveAddr dns (joinHostPort (ipString ip) p) = (.ok ([to16 ip], p), []) := by
  have hne : ip ≠ [] := by
    rintro rfl
    rcases h with h | h <;> cases h
  refine ⟨?_, resolveAddr_joinHostPort (parseIP_ipString h) dns p⟩
  unfold udpAddrString
  rw [if_neg hne]
  rfl

theorem resolveAddr_written_linkLocal :
    let ip : IP := [0xfe, 0x80, 0, 0, 0, 0, 0, 0, 0, 1, 0, 0, 0, 0, 0, 0x2a]
    joinHostPort (ipString ip) 7946 = "[fe80::1:0:0:2a]:7946".toList ∧
      resolveAddr Concrete.noDNS (joinHostPort (ipString ip) 7946) = (.ok ([ip], 7946), []) :=
  ⟨by decide +kernel, (resolveAddr_written (.inr rfl) Concrete.noDNS 7946).2⟩

/-! ## What is advertised -/

/-- The long form has the same short form. -/
theorem to4_to16 {ip : IP} (h : IsIP ip) : to4 (to16 ip) = to4 ip := by
  unfold to16
  split
  next hlen =>
    match ip, hlen with
    | [a, b, c, d], _ => rfl
  next => rfl

/-- An address that has a short form is written with dots, in either form. -/
theorem ipString_of_to4 {ip p4 : IP} (h : IsIP ip) (h4 : to4 ip = some p4) :
    ipString ip = ['.'].intercalate (p4.map fun b => itoa b.toNat) := by
  have hne : ip ≠ [] := by
    rintro rfl
    rcases h with h | h <;> cases h
  unfold ipString
  rw [if_neg hne, if_neg (by unfold IsIP at h; omega), h4]

/-- The form with four bytes, where there is one, is written in the same way. -/
theorem ipString_to16 {ip : IP} (h : IsIP ip) :
    ipString ((to4 (to16 ip)).getD (to16 ip)) = ipString ip := by
  rw [to4_to16 h]
  cases h4 : to4 ip with
  | some p4 =>
    have hp4 : to4 p4 = some p4 := if_pos (to4_length h4)
    show ipString p4 = _
    rw [ipString_of_to4 h h4, ipString_of_to4 (.inl (to4_length h4)) hp4]
  | none =>
    have hlen : ip.length ≠ 4 := by
      intro hlen
      unfold to4 at h4
      rw [if_pos hlen] at h4
      cases h4
    show ipString (to16 ip) = _
    unfold to16
    rw [if_neg hlen]

/-- The address of a transport is one of 4 or 16 bytes. -/
theorem getFirstAddr_isIP {t : FirstAddr} {ip : IP} {port : Int}
    (h : t.getFirstAddr = .ok (ip, port)) : IsIP ip := by
  unfold FirstAddr.getFirstAddr at h
  split at h
  next =>
    split at h
    next => cases h
    next =>
      split at h
      next => cases h
      next =>
        split at h
        next => cases h
        next ip' hip =>
          cases h
          exact .inr (parseIP_length hip)
  next =>
    split at h
    next => cases h
    next ip' _ =>
      cases h
      exact ip'.property

namespace Advertise

variable {c c' : Advertise} {t : FirstAddr} {ip : IP}

/-- What was configured can be advertised if it can be parsed. -/
theorem getAdvertiseAddr_of_parse (h : parseIP c.addr = some ip) :
    c.getAdvertiseAddr = .ok (ip, UInt16.ofInt c.port) := by
  unfold getAdvertiseAddr
  rw [h]

/-- An address that has been written down is left as it is. -/
theorem finalize_written (h : IsIP ip) (port : Int) (t : FirstAddr) :
    finalizeAdvertiseAddr t { addr := ipString ip, port } = .ok { addr := ipString ip, port } := by
  have hparse := parseIP_ipString h
  have hne : ipString ip ≠ [] := by
    intro hnil
    rw [hnil] at hparse
    cases hparse
  unfold finalizeAdvertiseAddr
  dsimp only
  rw [if_pos hne, hparse]
  dsimp only
  rw [ipString_to16 h]

/-- **A member's address survives being written down.** After `finalizeAdvertiseAddr` has
returned without an error, `GetAdvertiseAddr` gives the address that was configured, or that of
the transport, with the port that belongs to it; it fails exactly if none was configured and the
transport has none. Where it does not fail, finalizing again changes nothing, whatever the
transport says then. -/
theorem advertised (h : c.finalizeAdvertiseAddr t = .ok c') :
    (c.addr ≠ [] → ∃ ip, parseIP c.addr = some ip ∧
      c'.getAdvertiseAddr = .ok (ip, UInt16.ofInt c.port)) ∧
    (c.addr = [] → ∀ ip port, t.getFirstAddr = .ok (ip, port) →
      c'.getAdvertiseAddr = .ok (to16 ip, UInt16.ofInt port)) ∧
    ((∃ err, c'.getAdvertiseAddr = .error err) ↔ c.addr = [] ∧ ∃ err, t.getFirstAddr = .error err) ∧
    ((∃ r, c'.getAdvertiseAddr = .ok r) → ∀ t', c'.finalizeAdvertiseAddr t' = .ok c') := by
  unfold finalizeAdvertiseAddr at h
  split at h
  next hset =>
    -- an address was configured
    split at h
    next => cases h
    next ip hip =>
      have hlen := parseIP_length hip
      cases h
      have h16 : to16 ip = ip := if_neg (by omega)
      have hshort : ipString ((to4 ip).getD ip) = ipString ip := by
        have hsame : ipString ((to4 (to16 ip)).getD (to16 ip)) = ipString ip :=
          ipString_to16 (.inr hlen)
        rwa [h16] at hsame
      have hget : getAdvertiseAddr { addr := ipString ((to4 ip).getD ip), port := c.port } =
          .ok (ip, UInt16.ofInt c.port) := by
        have hparse : parseIP (ipString ip) = some (to16 ip) := parseIP_ipString (.inr hlen)
        rw [h16] at hparse
        rw [hshort]
        exact getAdvertiseAddr_of_parse hparse
      refine ⟨fun _ => ⟨ip, hip, hget⟩, fun h0 => absurd h0 hset, ?_, fun _ t' => ?_⟩
      · rw [hget]
        simp [hset]
      · rw [hshort]
        exact finalize_written (.inr hlen) c.port t'
  next hunset =>
    have h0 : c.addr = [] := not_not.mp hunset
    split at h
    next err herr =>
      cases h
      have hget : c.getAdvertiseAddr = .error (.addr errParse []) := by
        unfold getAdvertiseAddr
        rw [h0]
        rfl
      rw [hget, herr]
      simp [h0]
    next ip port hfirst =>
      have hip := getFirstAddr_isIP hfirst
      cases h
      have hget : getAdvertiseAddr { addr := ipString ip, port } =
          .ok (to16 ip, UInt16.ofInt port) := getAdvertiseAddr_of_parse (parseIP_ipString hip)
      rw [hget, hfirst]
      refine ⟨fun hne => absurd h0 hne, ?_, ?_, fun _ t' => finalize_written hip port t'⟩
      · intro _ ip' port' heq
        cases heq
        rfl
      · simp

/-- An address that is configured in the long form. -/
theorem advertised_long :
    ∃ c', finalizeAdvertiseAddr
        { bindAddr := [], bindPort := 0, privateIP := .ok [], localIP := none }
        { addr := "0:0:0:0:0:ffff:7f00:1".toList, port := 7946 } = .ok c' ∧
      c'.addr = "127.0.0.1".toList ∧
      c'.getAdvertiseAddr = .ok ([0, 0, 0, 0, 0, 0, 0, 0, 0, 0, 255, 255, 127, 0, 0, 1], 7946) := by
  have h : finalizeAdvertiseAddr
      { bindAddr := [], bindPort := 0, privateIP := .ok [], localIP := none }
      { addr := "0:0:0:0:0:ffff:7f00:1".toList, port := 7946 } =
        .ok { addr := "127.0.0.1".toList, port := 7946 } := by decide +kernel
  obtain ⟨ip, hip, hget⟩ := (advertised h).1 (by decide)
  refine ⟨_, h, rfl, hget.trans ?_⟩
  have hvalue : parseIP "0:0:0:0:0:ffff:7f00:1".toList =
      some [0, 0, 0, 0, 0, 0, 0, 0, 0, 0, 255, 255, 127, 0, 0, 1] := by decide +kernel
  rw [← Option.some.inj (hip.symm.trans hvalue)]
  rfl

end Advertise

end Mlist
