import InfraConfig.Network.Prefix
import InfraConfig.Proofs.LabelKeys
import Mathlib.Data.List.Induction

/-!
# Texts of internet addresses

An address is read from its own text, in both families: octets and groups are read back one after another, the run of
zero groups that is left out is filled in again, and a text of one family is none of the other. Whatever is read as an
address fits its family.
-/

namespace InfraConfig

namespace Address

theorem drop_length_takeWhile {α : Type} (p : α → Bool) (cs : List α) :
    cs.drop (cs.takeWhile p).length = cs.dropWhile p := by
  calc cs.drop (cs.takeWhile p).length
      = (cs.takeWhile p ++ cs.dropWhile p).drop (cs.takeWhile p).length := by rw [List.takeWhile_append_dropWhile]
    _ = cs.dropWhile p := List.drop_left

/-! ## Four octets -/

/-- An octet is read from its digits. -/
theorem readOctet_toDigits {n : Nat} (h : n < 256) {rest : List Char} (hrest : ∀ c ∈ rest.head?, c.isDigit = false) :
    readOctet (Nat.toDigits 10 n ++ rest) = some (n, rest) := by
  have hshape : ∀ n < 256, ¬ ((Nat.toDigits 10 n).isEmpty ∨ 3 < (Nat.toDigits 10 n).length ∨
      (1 < (Nat.toDigits 10 n).length ∧ (Nat.toDigits 10 n).head? = some '0')) := by decide +kernel
  have hshape := hshape n h
  rw [readOctet, takeWhile_append_of_ends (fun _ => isDigit_toDigits) hrest, decimalNat_toDigits, List.drop_left,
    if_neg]
  rintro (hempty | hlong | hgreat | hzero)
  · exact hshape (.inl hempty)
  · exact hshape (.inr (.inl hlong))
  · omega
  · exact hshape (.inr (.inr hzero))

theorem toList_textV4 (n : Nat) : (textV4 n).toList =
    Nat.toDigits 10 (n / 16777216 % 256) ++ '.' :: (Nat.toDigits 10 (n / 65536 % 256) ++ '.' ::
      (Nat.toDigits 10 (n / 256 % 256) ++ '.' :: Nat.toDigits 10 (n % 256))) := by
  simp [textV4, octets, joinText, intercalateList]

theorem readV4_textV4 {n : Nat} (h : n < nat32Limit) : readV4 (textV4 n).toList = some (n, []) := by
  have hdot (cs : List Char) : ∀ c ∈ ('.' :: cs).head?, c.isDigit = false := by simp
  have hread {m : Nat} (hm : m < 256) (cs : List Char) :
      readOctet (Nat.toDigits 10 m ++ '.' :: cs) = some (m, '.' :: cs) := readOctet_toDigits hm (hdot cs)
  have hlast : readOctet (Nat.toDigits 10 (n % 256) ++ []) = some (n % 256, []) :=
    readOctet_toDigits (Nat.mod_lt n (by decide)) (by simp)
  have hvalue : ((n / 16777216 % 256 * 256 + n / 65536 % 256) * 256 + n / 256 % 256) * 256 + n % 256 = n := by
    rw [nat32Limit] at h
    omega
  rw [List.append_nil] at hlast
  rw [toList_textV4, readV4]
  simp [hread, Nat.mod_lt, readDot, hlast, hvalue]

/-- A text whose first part, as far as a colon, has no dot is no address of four octets. -/
theorem readV4_eq_none {front rest : List Char} (hfront : '.' ∉ front) (hrest : ∀ c ∈ rest.head?, c = ':') :
    readV4 (front ++ rest) = none := by
  -- the first octet ends before the first character that is no digit, and that one is no dot
  have hdot : readDot ((front ++ rest).dropWhile Char.isDigit) = none := by
    induction front with
    | nil =>
      cases rest with
      | nil => rfl
      | cons c rest =>
        cases hrest c rfl
        rfl
    | cons c front ih =>
      rw [List.mem_cons, not_or] at hfront
      rw [List.cons_append, List.dropWhile_cons]
      split
      · exact ih hfront.2
      · rw [readDot]
        intro cs hcs
        exact hfront.1 (List.cons.inj hcs).1.symm
  cases hoctet : readOctet (front ++ rest) with
  | none => rw [readV4, hoctet]; rfl
  | some p =>
    obtain ⟨n, cs⟩ := p
    have hcs : cs = (front ++ rest).dropWhile Char.isDigit := by
      rw [readOctet, Option.ite_none_left_eq_some] at hoctet
      rw [← drop_length_takeWhile]
      exact (Prod.mk.inj (Option.some.inj hoctet.2)).2.symm
    rw [readV4, hoctet]
    simp [hcs, hdot]

/-! ## Groups of hexadecimal digits -/

theorem hexDigit?_digitChar {d : Nat} (h : d < 16) : hexDigit? (Nat.digitChar d) = some d := by
  have hdigits : ∀ d < 16, hexDigit? (Nat.digitChar d) = some d := by decide
  exact hdigits d h

theorem hexNat_append (ds : List Char) (c : Char) : hexNat (ds ++ [c]) = 16 * hexNat ds + (hexDigit? c).getD 0 := by
  rw [hexNat, List.foldl_append]
  rfl

theorem hexNat_toDigits (n : Nat) : hexNat (Nat.toDigits 16 n) = n := by
  induction n using Nat.strongRecOn with
  | ind n ih =>
    rw [Nat.toDigits_eq_if (by decide)]
    split
    · next hlt => simp [hexNat, hexDigit?_digitChar hlt]
    · next hge =>
      rw [hexNat_append, ih _ (by omega), hexDigit?_digitChar (Nat.mod_lt n (by decide)), Option.getD_some]
      omega

theorem isHexDigit_toDigits {n : Nat} {c : Char} (h : c ∈ Nat.toDigits 16 n) : (hexDigit? c).isSome = true := by
  obtain ⟨d, hd, rfl⟩ := exists_of_mem_toDigits (by decide) h
  rw [hexDigit?_digitChar hd]
  rfl

theorem readGroup_toDigits {g : Nat} (h : g < 65536) {rest : List Char} (hrest : ∀ c ∈ rest.head?, c = ':') :
    readGroup (Nat.toDigits 16 g ++ rest) = some (g, rest) := by
  have hnext : ∀ c ∈ rest.head?, (hexDigit? c).isSome = false := by
    intro c hc
    cases hrest c hc
    rfl
  have hlength : (Nat.toDigits 16 g).length ≤ 4 := (Nat.length_toDigits_le_iff (by decide) (by decide)).mpr h
  have hne : Nat.toDigits 16 g ≠ [] := Nat.toDigits_ne_nil
  rw [readGroup, takeWhile_append_of_ends (fun _ => isHexDigit_toDigits) hnext, hexNat_toDigits, List.drop_left, if_neg]
  rintro (hempty | hlong)
  · exact hne (List.isEmpty_iff.mp hempty)
  · omega

/-- The text of some groups: those that others stand before have a colon in front. -/
def written (first : Bool) : List Nat → List Char
  | [] => []
  | g :: groups => (if first then [] else [':']) ++ Nat.toDigits 16 g ++ written false groups

theorem toList_textGroups (groups : List Nat) : (textGroups groups).toList = written true groups := by
  have hjoin (g : Nat) (groups : List Nat) : intercalateList [':'] ((g :: groups).map (Nat.toDigits 16))
      = Nat.toDigits 16 g ++ written false groups := by
    induction groups generalizing g with
    | nil => simp [intercalateList, written]
    | cons g' groups ih =>
      rw [List.map_cons, List.map_cons, intercalateList, ← List.map_cons, ih, written]
      · simp
      · simp
  have hhex : String.toList ∘ hexText = Nat.toDigits 16 := by
    funext n
    simp [hexText]
  rw [textGroups, joinText, String.toList_ofList, List.map_map, hhex]
  cases groups with
  | nil => rfl
  | cons g groups => exact hjoin g groups

theorem readColon_written (first : Bool) (g : Nat) (groups : List Nat) (rest : List Char) :
    readColon first (written first (g :: groups) ++ rest)
      = some (Nat.toDigits 16 g ++ (written false groups ++ rest)) := by
  cases first <;> simp [readColon, written]

theorem head?_written {groups : List Nat} {rest : List Char} (hrest : ∀ c ∈ rest.head?, c = ':') :
    ∀ c ∈ (written false groups ++ rest).head?, c = ':' := by
  cases groups with
  | nil => simpa [written] using hrest
  | cons g groups => simp [written]

/-- Groups are read from their text, and what follows it is read as further groups. -/
theorem readGroups_written {groups : List Nat} (h : ∀ g ∈ groups, g < 65536) (room : Nat) (first : Bool)
    {rest : List Char} (hrest : ∀ c ∈ rest.head?, c = ':') :
    readGroups (room + groups.length) first (written first groups ++ rest)
      = (groups ++ (readGroups room (first && groups.isEmpty) rest).1,
          (readGroups room (first && groups.isEmpty) rest).2) := by
  -- after the first group the others have their colons, so `first` is general
  induction groups generalizing first with
  | nil => simp [written]
  | cons g groups ih =>
    have hgroup : readGroup (Nat.toDigits 16 g ++ (written false groups ++ rest))
        = some (g, written false groups ++ rest) :=
      readGroup_toDigits (h g List.mem_cons_self) (head?_written hrest)
    have hoctets : readV4 (Nat.toDigits 16 g ++ (written false groups ++ rest)) = none :=
      readV4_eq_none (not_mem_toDigits (by decide) (by decide) g (by decide)) (head?_written hrest)
    have ih := ih (fun g' hg' => h g' (List.mem_cons_of_mem _ hg')) false
    rw [List.length_cons, ← Nat.add_assoc, readGroups, readColon_written]
    simp only [Option.bind_some, hgroup, hoctets, ite_self, ih, Bool.false_and, List.isEmpty_cons, Bool.and_false,
      List.cons_append]

/-- What stands after the groups of a text: nothing, or two colons. -/
def Stops (rest : List Char) : Prop :=
  rest = [] ∨ ∃ more, rest = ':' :: ':' :: more

theorem Stops.head? {rest : List Char} (h : Stops rest) : ∀ c ∈ rest.head?, c = ':' := by
  obtain rfl | ⟨more, rfl⟩ := h <;> simp

theorem Stops.readGroups_eq {rest : List Char} (h : Stops rest) (room : Nat) (first : Bool) :
    readGroups room first rest = ([], false, rest) := by
  cases room with
  | zero => rfl
  | succ room =>
    have hoctets : (readColon first rest).bind readV4 = none := by
      obtain rfl | ⟨more, rfl⟩ := h <;> cases first <;> rfl
    have hgroup : (readColon first rest).bind readGroup = none := by
      obtain rfl | ⟨more, rfl⟩ := h <;> cases first <;> rfl
    rw [readGroups, hoctets, hgroup, ite_self]

theorem readGroups_textGroups {groups : List Nat} (h : ∀ g ∈ groups, g < 65536) {room : Nat}
    (hroom : groups.length ≤ room) {rest : List Char} (hrest : Stops rest) :
    readGroups room true ((textGroups groups).toList ++ rest) = (groups, false, rest) := by
  obtain ⟨more, rfl⟩ := Nat.exists_eq_add_of_le' hroom
  rw [toList_textGroups, readGroups_written h more true hrest.head?, hrest.readGroups_eq, List.append_nil]

/-! ## Eight groups -/

theorem length_groupsOf (n : Nat) : (groupsOf n).length = 8 := by
  simp [groupsOf]

theorem lt_of_mem_groupsOf {n g : Nat} (h : g ∈ groupsOf n) : g < 65536 := by
  obtain ⟨i, -, rfl⟩ := List.mem_map.mp h
  exact Nat.mod_lt _ (by decide)

theorem ofGroups_groupsOf {n : Nat} (h : n < twoPow 128) : ofGroups (groupsOf n) = n := by
  simp [groupsOf, ofGroups, List.range_succ, twoPow] at *
  omega

/-- The longest run of zeros is the given one or one of the list. -/
theorem longestZeros_eq (position : Nat) (best : Nat × Nat) (groups : List Nat) :
    longestZeros position best groups = best ∨
      ∃ i, longestZeros position best groups = (position + i, zeros (groups.drop i)) := by
  induction groups generalizing position best with
  | nil => exact .inl rfl
  | cons g groups ih =>
    rw [longestZeros]
    obtain hbest | ⟨i, hi⟩ :=
      ih (position + 1) (if best.2 < zeros (g :: groups) then (position, zeros (g :: groups)) else best)
    · rw [hbest]
      split
      · exact .inr ⟨0, rfl⟩
      · exact .inl rfl
    · refine .inr ⟨i + 1, ?_⟩
      rw [hi, List.drop_succ_cons, Nat.add_assoc, Nat.add_comm 1 i]

theorem eq_zeros_append (groups : List Nat) :
    groups = List.replicate (zeros groups) 0 ++ groups.drop (zeros groups) := by
  have hzeros : groups.takeWhile (· == 0) = List.replicate (zeros groups) 0 := by
    refine List.eq_replicate_iff.mpr ⟨rfl, fun g hg => ?_⟩
    simpa using List.all_eq_true.mp List.all_takeWhile g hg
  calc groups = groups.takeWhile (· == 0) ++ groups.dropWhile (· == 0) := List.takeWhile_append_dropWhile.symm
    _ = List.replicate (zeros groups) 0 ++ groups.drop (zeros groups) := by
      rw [hzeros, ← drop_length_takeWhile]
      rfl

/-- What is left of some groups without their longest run of zeros. -/
theorem eq_around_longestZeros {groups : List Nat} {start length : Nat}
    (h : longestZeros 0 (0, 0) groups = (start, length)) (hlength : 1 < length) :
    groups = groups.take start ++ (List.replicate length 0 ++ groups.drop (start + length)) := by
  obtain hbest | ⟨i, hi⟩ := longestZeros_eq 0 (0, 0) groups
  · rw [h, Prod.mk.injEq] at hbest
    omega
  · rw [h, Nat.zero_add, Prod.mk.injEq] at hi
    obtain ⟨rfl, rfl⟩ := hi
    calc groups = groups.take start ++ groups.drop start := (List.take_append_drop start groups).symm
      _ = _ := by rw [← List.drop_drop, ← eq_zeros_append]

/-! ## Addresses -/

theorem readV6_textGroups {groups : List Nat} (h : ∀ g ∈ groups, g < 65536) (hlength : groups.length = 8) :
    readV6 (textGroups groups).toList = some (ofGroups groups, []) := by
  have hread := readGroups_textGroups h (Nat.le_of_eq hlength) (.inl rfl)
  rw [List.append_nil] at hread
  rw [readV6, hread]
  simp [hlength]

/-- Groups with two colons among them are read with zeros in between. -/
theorem readV6_shortened {front back : List Nat} (hfront : ∀ g ∈ front, g < 65536) (hback : ∀ g ∈ back, g < 65536)
    (hlength : front.length + back.length < 8) :
    readV6 (textGroups front ++ "::" ++ textGroups back).toList
      = some (ofGroups (front ++ (List.replicate (8 - front.length - back.length) 0 ++ back)), []) := by
  have hhead : readGroups 8 true ((textGroups front).toList ++ ':' :: ':' :: (textGroups back).toList)
      = (front, false, ':' :: ':' :: (textGroups back).toList) :=
    readGroups_textGroups hfront (by omega) (.inr ⟨_, rfl⟩)
  have htail : readGroups (7 - front.length) true ((textGroups back).toList ++ []) = (back, false, []) :=
    readGroups_textGroups hback (by omega) (.inl rfl)
  have htext : (textGroups front ++ "::" ++ textGroups back).toList
      = (textGroups front).toList ++ ':' :: ':' :: (textGroups back).toList := by simp
  rw [List.append_nil] at htail
  rw [htext, readV6, hhead]
  simp only [htail, List.append_assoc]
  rw [if_neg (by omega), if_neg Bool.false_ne_true]

/-- An address with four octets for its last groups. -/
theorem readV6_mapped {n : Nat} (h : n < nat32Limit) :
    readV6 ("::ffff:" ++ textV4 n).toList = some (65535 * nat32Limit + n, []) := by
  have hhead (cs : List Char) : readGroups 8 true (':' :: ':' :: cs) = ([], false, ':' :: ':' :: cs) :=
    Stops.readGroups_eq (.inr ⟨cs, rfl⟩) 8 true
  have hoctets : readGroups 6 false (':' :: (textV4 n).toList) = ([n / 65536, n % 65536], true, []) := by
    simp [readGroups, readColon, readV4_textV4 h]
  have hfirst : ∀ g ∈ [65535], g < 65536 := by simp
  have htail : readGroups 7 true (written true [65535] ++ ':' :: (textV4 n).toList)
      = ([65535, n / 65536, n % 65536], true, []) := by
    refine (readGroups_written hfirst 6 true (by simp)).trans ?_
    simp [hoctets]
  have htext : ("::ffff:" ++ textV4 n).toList = ':' :: ':' :: (written true [65535] ++ ':' :: (textV4 n).toList) := by
    rw [String.toList_append]
    rfl
  rw [htext, readV6, hhead]
  simp [htail, ofGroups, nat32Limit]
  omega

theorem readV6_textV6 {n : Nat} (h : n < twoPow 128) : readV6 (textV6 n).toList = some (n, []) := by
  have hgroups : ∀ g ∈ groupsOf n, g < 65536 := fun _ => lt_of_mem_groupsOf
  have hlength := length_groupsOf n
  have hvalue := ofGroups_groupsOf h
  rw [textV6]
  split
  · next hmapped =>
    rw [readV6_mapped (Nat.mod_lt n (by decide)), ← hmapped, Nat.div_add_mod']
  · cases hrun : longestZeros 0 (0, 0) (groupsOf n) with
    | mk start length =>
      dsimp only
      split
      · next hlong =>
        have haround := eq_around_longestZeros hrun hlong
        have hcount := congrArg List.length haround
        rw [List.length_append, List.length_append, List.length_replicate, hlength] at hcount
        rw [readV6_shortened (fun g hg => hgroups g (List.mem_of_mem_take hg))
          (fun g hg => hgroups g (List.mem_of_mem_drop hg)) (by omega)]
        have hrun : 8 - ((groupsOf n).take start).length - ((groupsOf n).drop (start + length)).length = length := by
          omega
        rw [hrun, ← haround, hvalue]
      · rw [readV6_textGroups hgroups hlength, hvalue]

theorem mem_textV4 {n : Nat} {c : Char} (h : c ∈ (textV4 n).toList) : c = '.' ∨ c.isDigit = true := by
  rw [toList_textV4] at h
  simp only [List.mem_append, List.mem_cons] at h
  obtain h | h | h | h | h | h | h := h
  all_goals first | exact .inl h | exact .inr (isDigit_toDigits h)

theorem mem_written {first : Bool} {groups : List Nat} {c : Char} (h : c ∈ written first groups) :
    c = ':' ∨ (hexDigit? c).isSome = true := by
  induction groups generalizing first with
  | nil => cases h
  | cons g groups ih =>
    rw [written, List.mem_append, List.mem_append] at h
    obtain (hcolon | hdigit) | hrest := h
    · cases first
      · exact .inl (List.mem_singleton.mp hcolon)
      · cases hcolon
    · exact .inr (isHexDigit_toDigits hdigit)
    · exact ih hrest

theorem mem_textGroups {groups : List Nat} {c : Char} (h : c ∈ (textGroups groups).toList) :
    c = ':' ∨ (hexDigit? c).isSome = true := by
  rw [toList_textGroups] at h
  exact mem_written h

/-- The text of an address of eight groups ends in four octets, or has no other characters than digits and colons. -/
theorem textV6_cases (n : Nat) : (∃ m, textV6 n = "::ffff:" ++ textV4 m) ∨
    ∀ c ∈ (textV6 n).toList, c = ':' ∨ (hexDigit? c).isSome = true := by
  rw [textV6]
  split
  · exact .inl ⟨_, rfl⟩
  · refine .inr fun c hc => ?_
    cases hrun : longestZeros 0 (0, 0) (groupsOf n) with
    | mk start length =>
      rw [hrun] at hc
      dsimp only at hc
      split at hc
      · rw [String.toList_append, String.toList_append, List.mem_append, List.mem_append] at hc
        obtain (hfront | hcolon) | hback := hc
        · exact mem_textGroups hfront
        · refine .inl ?_
          simpa using hcolon
        · exact mem_textGroups hback
      · exact mem_textGroups hc

theorem readV4_textV6 (n : Nat) : readV4 (textV6 n).toList = none := by
  obtain ⟨m, hm⟩ | hdigits := textV6_cases n
  · rw [hm, String.toList_append, ← List.nil_append (_ ++ _)]
    refine readV4_eq_none List.not_mem_nil fun c hc => ?_
    cases hc
    rfl
  · rw [← List.append_nil (textV6 n).toList]
    exact readV4_eq_none (fun hdot => absurd (hdigits '.' hdot) (by decide)) (by simp)

theorem slash_not_mem_text (family : AddressFamily) (n : Nat) : '/' ∉ (text family n).toList := by
  have hoctets (n : Nat) : '/' ∉ (textV4 n).toList := fun h => absurd (mem_textV4 h) (by decide)
  cases family with
  | v4 => exact hoctets n
  | v6 =>
    intro h
    rw [text] at h
    obtain ⟨m, hm⟩ | hdigits := textV6_cases n
    · rw [hm, String.toList_append, List.mem_append] at h
      obtain hfront | hback := h
      · exact absurd hfront (by decide)
      · exact hoctets m hback
    · exact absurd (hdigits '/' h) (by decide)

/-- An address is read from its text. -/
theorem read?_text {family : AddressFamily} {n : Nat} (h : n < twoPow family.width) :
    read? (text family n).toList = some (family, n) := by
  cases family with
  | v4 =>
    have hread := readV4_textV4 (n := n) h
    rw [read?, text, hread]
  | v6 =>
    have hread := readV6_textV6 (n := n) h
    rw [read?, text, readV4_textV6, hread]

/-! ## What is read fits its family -/

theorem readOctet_le {cs rest : List Char} {n : Nat} (h : readOctet cs = some (n, rest)) : n ≤ 255 := by
  rw [readOctet, Option.ite_none_left_eq_some] at h
  obtain ⟨hshape, heq⟩ := h
  cases heq
  omega

theorem readV4_lt {cs rest : List Char} {n : Nat} (h : readV4 cs = some (n, rest)) : n < nat32Limit := by
  simp only [readV4, Option.bind_eq_bind, Option.bind_eq_some_iff, Prod.exists, Option.some.injEq, Prod.mk.injEq] at h
  obtain ⟨a, _, ha, b, _, ⟨_, _, hb⟩, c, _, ⟨_, _, hc⟩, d, _, ⟨_, _, hd⟩, rfl, rfl⟩ := h
  have ha := readOctet_le ha
  have hb := readOctet_le hb
  have hc := readOctet_le hc
  have hd := readOctet_le hd
  rw [nat32Limit]
  omega

theorem hexDigit?_getD_lt (c : Char) : (hexDigit? c).getD 0 < 16 := by
  rw [hexDigit?]
  have hle {d : Char} (h : c ≤ d) : c.toNat ≤ d.toNat := h
  split
  · next h =>
    have hnine : c.toNat ≤ 57 := hle h.2
    simp
    omega
  split
  · next h =>
    have hf : c.toNat ≤ 102 := hle h.2
    simp
    omega
  split
  · next h =>
    have hF : c.toNat ≤ 70 := hle h.2
    simp
    omega
  · decide

theorem hexNat_lt (ds : List Char) : hexNat ds < twoPow (4 * ds.length) := by
  induction ds using List.reverseRecOn with
  | nil => decide
  | append_singleton ds c ih =>
    have hdigit := hexDigit?_getD_lt c
    have hplace : twoPow (4 * (ds.length + 1)) = twoPow (4 * ds.length) * 16 := Nat.pow_add 2 (4 * ds.length) 4
    rw [hexNat_append, List.length_append, List.length_singleton, hplace]
    omega

theorem readGroup_lt {cs rest : List Char} {g : Nat} (h : readGroup cs = some (g, rest)) : g < 65536 := by
  rw [readGroup, Option.ite_none_left_eq_some] at h
  obtain ⟨hshape, heq⟩ := h
  cases heq
  rw [not_or] at hshape
  calc hexNat _ < twoPow _ := hexNat_lt _
    _ ≤ twoPow 16 := Nat.pow_le_pow_right (by decide) (by omega)

theorem readGroups_bounds (room : Nat) (first : Bool) (cs : List Char) :
    (∀ g ∈ (readGroups room first cs).1, g < 65536) ∧ (readGroups room first cs).1.length ≤ room := by
  induction room generalizing first cs with
  | zero => simp [readGroups]
  | succ room ih =>
    rw [readGroups]
    split
    · next n rest hoctets =>
      obtain ⟨hroom, hoctets⟩ := Option.ite_none_left_eq_some.mp hoctets
      obtain ⟨cs', -, hoctets⟩ := Option.bind_eq_some_iff.mp hoctets
      have hn := readV4_lt hoctets
      rw [nat32Limit] at hn
      refine ⟨fun g hg => ?_, ?_⟩
      · simp only [List.mem_cons, List.not_mem_nil, or_false] at hg
        omega
      · simp only [List.length_cons, List.length_nil]
        omega
    · split
      · next g rest hgroup =>
        obtain ⟨cs', -, hgroup⟩ := Option.bind_eq_some_iff.mp hgroup
        obtain ⟨hbound, hlength⟩ := ih false rest
        refine ⟨fun g' hg' => ?_, ?_⟩
        · obtain rfl | hmem := List.mem_cons.mp hg'
          · exact readGroup_lt hgroup
          · exact hbound g' hmem
        · exact Nat.succ_le_succ hlength
      · simp

theorem ofGroups_append (groups : List Nat) (g : Nat) : ofGroups (groups ++ [g]) = ofGroups groups * 65536 + g := by
  rw [ofGroups, List.foldl_append]
  rfl

theorem ofGroups_lt {groups : List Nat} (h : ∀ g ∈ groups, g < 65536) :
    ofGroups groups < twoPow (16 * groups.length) := by
  induction groups using List.reverseRecOn with
  | nil => decide
  | append_singleton groups g ih =>
    have hlast := h g (by simp)
    have hfront := ih fun g' hg' => h g' (List.mem_append_left _ hg')
    have hplace : twoPow (16 * (groups.length + 1)) = twoPow (16 * groups.length) * 65536 :=
      Nat.pow_add 2 (16 * groups.length) 16
    rw [ofGroups_append, List.length_append, List.length_singleton, hplace]
    omega

theorem readV6_lt {cs rest : List Char} {n : Nat} (h : readV6 cs = some (n, rest)) : n < twoPow 128 := by
  have hfits {groups : List Nat} (hbound : ∀ g ∈ groups, g < 65536) (hlength : groups.length = 8) :
      ofGroups groups < twoPow 128 := by
    have hlt := ofGroups_lt hbound
    rw [hlength] at hlt
    exact hlt
  obtain ⟨head, mapped, following, hread⟩ : ∃ head mapped following, readGroups 8 true cs = (head, mapped, following) :=
    ⟨_, _, _, rfl⟩
  obtain ⟨hhead, hroom⟩ := readGroups_bounds 8 true cs
  rw [readV6, hread] at h
  rw [hread] at hhead hroom
  dsimp only at h hhead hroom
  split at h
  · next height =>
    cases h
    exact hfits hhead height
  · split at h
    · cases h
    · split at h
      · next back =>
        obtain ⟨htail, hmore⟩ := readGroups_bounds (7 - head.length) true back
        cases h
        refine hfits (fun g hg => ?_) ?_
        · simp only [List.mem_append, List.mem_replicate] at hg
          obtain (hg | ⟨-, rfl⟩) | hg := hg
          · exact hhead g hg
          · decide
          · exact htail g hg
        · simp only [List.length_append, List.length_replicate]
          omega
      · cases h

/-- Whatever is read as an address has the width of its family. -/
theorem read?_lt {cs : List Char} {family : AddressFamily} {n : Nat} (h : read? cs = some (family, n)) :
    n < twoPow family.width := by
  rw [read?] at h
  split at h
  · next hread =>
    cases h
    exact readV4_lt hread
  · cases h
  · split at h
    · next hread =>
      cases h
      exact readV6_lt hread
    · cases h

end Address

end InfraConfig
