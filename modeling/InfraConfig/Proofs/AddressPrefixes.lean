import InfraConfig.Proofs.AddressTexts
import InfraConfig.Proofs.FunctionCalls
import InfraConfig.Proofs.NumericFunctions

/-!
# Address prefixes and their subnets

A prefix is written as an address, a slash and the number of its first bits that count. It is the block of the addresses
that agree in these bits with the written one. Its subnets with a number of further bits divide it: an address has the
number of its subnet in those bits, so no address is in two subnets, and none is left out.
-/

namespace InfraConfig

/-- A text of an address and a length that is not greater than the width of the address. -/
structure WritesPrefix (text : String) (family : AddressFamily) (address length : Nat) : Prop where
  parts : ∃ front back, text.toList = front ++ '/' :: back ∧ '/' ∉ front ∧
    Address.read? front = some (family, address) ∧ AddressPrefix.readLength? back = some length
  fits : length ≤ family.width

/-- Whether two addresses have the same first `length` bits. -/
def AddressFamily.SameStart (family : AddressFamily) (length address other : Nat) : Prop :=
  address / twoPow (family.width - length) = other / twoPow (family.width - length)

variable {text : String} {family : AddressFamily} {address length : Nat}

theorem AddressFamily.width_le (family : AddressFamily) : family.width ≤ 128 := by
  cases family <;> decide

theorem AddressFamily.twoPow_width_le (family : AddressFamily) : twoPow family.width ≤ twoPow 128 :=
  Nat.pow_le_pow_right (by decide) family.width_le

theorem WritesPrefix.address_lt (h : WritesPrefix text family address length) : address < twoPow family.width := by
  obtain ⟨_, _, -, -, hread, -⟩ := h.parts
  exact Address.read?_lt hread

/-! ## Masks -/

section Masks

variable {bits : Nat}

theorem toNat_lowMask (h : bits ≤ 128) : (lowMask bits).toNat = twoPow bits - 1 := by
  rw [lowMask]
  split
  · next hlt =>
    have hword : (1#128 <<< bits).toNat = twoPow bits := by
      rw [BitVec.toNat_shiftLeft, Nat.shiftLeft_eq]
      refine (Nat.mod_eq_of_lt ?_).trans (Nat.one_mul _)
      exact (Nat.one_mul _).trans_lt (Nat.pow_lt_pow_right (by decide) hlt)
    rw [BitVec.toNat_sub_of_le, hword]
    · rfl
    · rw [BitVec.le_def, hword]
      exact Binary64.twoPow_pos bits
  · next hge =>
    cases Nat.le_antisymm h (Nat.le_of_not_lt hge)
    rfl

theorem toNat_and_not_lowMask (h : bits ≤ 128) (haddress : address < twoPow 128) :
    (BitVec.ofNat 128 address &&& ~~~lowMask bits).toNat = address / twoPow bits * twoPow bits := by
  have hmask (i : Nat) : (lowMask bits).getLsbD i = decide (i < bits) := by
    rw [← BitVec.testBit_toNat, toNat_lowMask h]
    exact Nat.testBit_two_pow_sub_one bits i
  have hcleared : address / twoPow bits * twoPow bits = address >>> bits <<< bits := by
    rw [Nat.shiftLeft_eq, Nat.shiftRight_eq_div_pow]
    rfl
  have hword (i : Nat) : (BitVec.ofNat 128 address).getLsbD i = address.testBit i := by
    rw [← BitVec.testBit_toNat, BitVec.toNat_ofNat]
    exact congrArg (Nat.testBit · i) (Nat.mod_eq_of_lt haddress)
  refine Nat.eq_of_testBit_eq fun i => ?_
  rw [hcleared, BitVec.testBit_toNat, BitVec.getLsbD_and, BitVec.getLsbD_not, hmask, hword, Nat.testBit_shiftLeft,
    Nat.testBit_shiftRight]
  by_cases hlow : i < bits
  · simp [hlow]
  · have hsame : bits + (i - bits) = i := by omega
    by_cases hwide : i < 128
    · simp [hlow, hwide, hsame, Nat.le_of_not_lt hlow]
    · have hzero : address.testBit i = false :=
        Nat.testBit_lt_two_pow (Nat.lt_of_lt_of_le haddress (Nat.pow_le_pow_right (by decide) (Nat.le_of_not_lt hwide)))
      simp [hsame, hzero]

end Masks

namespace AddressPrefix

/-- A prefix is read from the texts that write one, with the bits after the first ones cleared. -/
theorem read_eq_ok_iff {p : AddressPrefix} : read text = .ok p ↔
    ∃ family address length, WritesPrefix text family address length ∧ p = of family address length := by
  constructor
  · intro h
    by_cases hslash : '/' ∈ text.toList
    · obtain ⟨front, back, htext, hfront⟩ := List.eq_append_cons_of_mem hslash
      rw [read, htext, splitFirst?_append_cons hfront] at h
      dsimp only at h
      split at h
      · cases h
      · next family address haddress =>
        split at h
        · cases h
        · next length hlength =>
          split at h
          · cases h
          · next hfits =>
            cases h
            exact ⟨_, _, _, ⟨⟨front, back, htext, hfront, haddress, hlength⟩, Nat.le_of_not_lt hfits⟩, rfl⟩
    · rw [read, splitFirst?_of_not_mem hslash] at h
      cases h
  · rintro ⟨family, address, length, ⟨⟨front, back, htext, hfront, haddress, hlength⟩, hfits⟩, rfl⟩
    rw [read, htext, splitFirst?_append_cons hfront]
    simp only [haddress, hlength]
    rw [if_neg (Nat.not_lt.mpr hfits)]

theorem readLength?_toString {n : Nat} (h : n < nat32Limit) : readLength? (toString n).toList = some n := by
  have htext : (toString n).toList = Nat.toDigits 10 n := by simp
  have hplus (cs : List Char) : ¬ Nat.toDigits 10 n = '+' :: cs := by
    intro hcs
    have hdigit := isDigit_toDigits (hcs ▸ List.mem_cons_self)
    exact absurd hdigit (by decide)
  rw [htext, readLength?]
  · rw [readNat?_toDigits, Option.filter_some, if_pos (by simpa using h)]
  · exact hplus

/-- A prefix is written by its own text. -/
theorem writesPrefix_text (haddress : address < twoPow family.width) (hlength : length ≤ family.width) :
    WritesPrefix (AddressPrefix.mk family (BitVec.ofNat 128 address) length).text family address length := by
  have hwidth := family.width_le
  have hword : (BitVec.ofNat 128 address).toNat = address :=
    Nat.mod_eq_of_lt (Nat.lt_of_lt_of_le haddress family.twoPow_width_le)
  refine ⟨⟨(Address.text family address).toList, (toString length).toList, ?_, ?_, ?_, ?_⟩, hlength⟩
  · simp [AddressPrefix.text, hword]
  · exact Address.slash_not_mem_text family address
  · exact Address.read?_text haddress
  · refine readLength?_toString ?_
    rw [nat32Limit]
    omega

end AddressPrefix

/-! ## Arguments -/

namespace Functions

/-- An integer that binary64 numbers keep is given to a body as it is. -/
theorem integerAt_int {args : List Datum} {i : Nat} {n : Int} (harg : args[i]? = some (.int n))
    (hn : n.natAbs ≤ twoPow 53) : integerAt args i = .ok n := by
  have hlimit : n.natAbs ≤ 9007199254740992 := hn
  have hrange : Number.inRange n = true := by
    rw [Number.inRange, Bool.and_eq_true, decide_eq_true_iff, decide_eq_true_iff, int64Limit, nat64Limit]
    omega
  have hround : Binary64.roundInt n = n := Binary64.roundInt_eq_self_iff.mpr (Binary64.isExact_of_le hn)
  have hvalue : (Number.ofExact n).toInt64 = n := by
    rw [Number.toInt64_ofExact hrange, hround, int64Limit]
    omega
  rw [integerAt, numberAt, harg]
  exact congrArg Except.ok hvalue

theorem prefixAt_text {args : List Datum} {i : Nat} (harg : args[i]? = some (.text text))
    (h : WritesPrefix text family address length) : prefixAt args i = .ok (.of family address length) := by
  have hread : AddressPrefix.read text = .ok (.of family address length) :=
    AddressPrefix.read_eq_ok_iff.mpr ⟨_, _, _, h, rfl⟩
  rw [prefixAt, textAt, harg]
  show Except.mapError _ (AddressPrefix.read text) = _
  rw [hread]
  rfl

end Functions

/-! ## Subnets -/

variable {bits : Nat}

/-- Blocks of addresses that are numbered below `2 ^ bits` and divide the block of a prefix, which is shorter by as many
bits. -/
structure AddressFamily.Divide (family : AddressFamily) (address length bits : Nat) (base : Nat → Nat) : Prop where
  inside : ∀ n < twoPow bits, ∀ x, family.SameStart (length + bits) (base n) x → family.SameStart length address x
  disjoint : ∀ m < twoPow bits, ∀ n < twoPow bits, m ≠ n → ∀ x,
    ¬ (family.SameStart (length + bits) (base m) x ∧ family.SameStart (length + bits) (base n) x)
  covered : ∀ x, family.SameStart length address x →
    ∃! n, n < twoPow bits ∧ family.SameStart (length + bits) (base n) x

namespace AddressFamily

variable {n : Nat}

/-- The first address of the subnet with a number. -/
def subnetBase (family : AddressFamily) (address length bits n : Nat) : Nat :=
  address / twoPow (family.width - length) * twoPow (family.width - length) +
    n * twoPow (family.width - (length + bits))

theorem twoPow_free (hroom : length + bits ≤ family.width) :
    twoPow (family.width - length) = twoPow (family.width - (length + bits)) * twoPow bits :=
  Binary64.twoPow_eq_mul (by omega)

theorem number_lt (hroom : length + bits ≤ family.width) (hn : n < twoPow bits) :
    n * twoPow (family.width - (length + bits)) < twoPow (family.width - length) := by
  rw [twoPow_free hroom, Nat.mul_comm (twoPow _)]
  exact Nat.mul_lt_mul_of_pos_right hn (Binary64.twoPow_pos _)

/-- An address is in the subnet with a number if it is in the prefix and has the number in the bits after it. -/
theorem sameStart_subnetBase_iff (hroom : length + bits ≤ family.width) (hn : n < twoPow bits) (x : Nat) :
    family.SameStart (length + bits) (family.subnetBase address length bits n) x ↔
      family.SameStart length address x ∧ x / twoPow (family.width - (length + bits)) % twoPow bits = n := by
  have hpos : 0 < twoPow (family.width - (length + bits)) := Binary64.twoPow_pos _
  rw [SameStart, SameStart, subnetBase, twoPow_free hroom]
  generalize twoPow (family.width - (length + bits)) = own at *
  generalize address / (own * twoPow bits) = first
  have hbase : (first * (own * twoPow bits) + n * own) / own = first * twoPow bits + n := by
    rw [Nat.mul_comm own, ← Nat.mul_assoc, ← Nat.add_mul, Nat.mul_div_cancel _ hpos]
  rw [hbase, ← Nat.div_div_eq_div_mul, eq_comm (a := first),
    Nat.div_mod_unique (Binary64.twoPow_pos bits), Nat.mul_comm, Nat.add_comm]
  exact (and_iff_left hn).symm

/-- What the free bits are added to in a prefix stays within the width of its addresses. -/
theorem first_add_lt (hfits : length ≤ family.width) (haddress : address < twoPow family.width) {k : Nat}
    (hk : k < twoPow (family.width - length)) :
    address / twoPow (family.width - length) * twoPow (family.width - length) + k < twoPow family.width := by
  have hwidth : twoPow family.width = twoPow length * twoPow (family.width - length) :=
    Binary64.twoPow_eq_mul (by omega)
  have hfirst : address / twoPow (family.width - length) < twoPow length := by
    rw [Nat.div_lt_iff_lt_mul (Binary64.twoPow_pos _), ← hwidth]
    exact haddress
  rw [hwidth]
  generalize address / twoPow (family.width - length) = first at *
  calc first * twoPow (family.width - length) + k
      < first * twoPow (family.width - length) + twoPow (family.width - length) := Nat.add_lt_add_left hk _
    _ = (first + 1) * twoPow (family.width - length) := (Nat.succ_mul _ _).symm
    _ ≤ twoPow length * twoPow (family.width - length) := Nat.mul_le_mul_right _ hfirst

theorem subnetBase_lt (hroom : length + bits ≤ family.width) (hn : n < twoPow bits)
    (haddress : address < twoPow family.width) :
    family.subnetBase address length bits n < twoPow family.width :=
  first_add_lt (Nat.le_trans (Nat.le_add_right length bits) hroom) haddress (number_lt hroom hn)

theorem divide_subnetBase (hroom : length + bits ≤ family.width) :
    family.Divide address length bits (family.subnetBase address length bits) where
  inside n hn x h := ((sameStart_subnetBase_iff hroom hn x).mp h).1
  disjoint m hm n hn hne x h := by
    obtain ⟨-, hmx⟩ := (sameStart_subnetBase_iff hroom hm x).mp h.1
    obtain ⟨-, hnx⟩ := (sameStart_subnetBase_iff hroom hn x).mp h.2
    exact hne (hmx.symm.trans hnx)
  covered x h := by
    have hlt : x / twoPow (family.width - (length + bits)) % twoPow bits < twoPow bits :=
      Nat.mod_lt _ (Binary64.twoPow_pos bits)
    refine ⟨_, ⟨hlt, (sameStart_subnetBase_iff hroom hlt x).mpr ⟨h, rfl⟩⟩, ?_⟩
    rintro n ⟨hn, hnx⟩
    exact ((sameStart_subnetBase_iff hroom hn x).mp hnx).2.symm

end AddressFamily

namespace AddressPrefix

variable {n : Nat}

theorem toNat_shifted (shift : Nat) (hn : n < twoPow bits) (hshift : shift + bits ≤ 128) :
    (if shift < 128 then BitVec.ofNat 128 n <<< shift else 0).toNat = n * twoPow shift := by
  have hn128 : n < twoPow 128 := Nat.lt_of_lt_of_le hn (Nat.pow_le_pow_right (by decide) (by omega))
  have hfits : n * twoPow shift < twoPow 128 := by
    calc n * twoPow shift < twoPow bits * twoPow shift := Nat.mul_lt_mul_of_pos_right hn (Binary64.twoPow_pos shift)
      _ = twoPow (bits + shift) := (Binary64.twoPow_add bits shift).symm
      _ ≤ twoPow 128 := Nat.pow_le_pow_right (by decide) (by omega)
  split
  · rw [BitVec.toNat_shiftLeft, BitVec.toNat_ofNat, Nat.shiftLeft_eq]
    exact (congrArg (· * 2 ^ shift % 2 ^ 128) (Nat.mod_eq_of_lt hn128)).trans (Nat.mod_eq_of_lt hfits)
  · -- a word is shifted by all its bits only for the subnet of an IPv6 prefix without bits, whose number is zero
    have hbits : bits = 0 := by omega
    rw [hbits, Binary64.twoPow_zero] at hn
    cases Nat.lt_one_iff.mp hn
    simp

/-- A word in the free bits of a prefix is added to the first address. -/
theorem toNat_address_or (haddress : address < twoPow family.width) {word : BitVec 128}
    (hword : word.toNat < twoPow (family.width - length)) : ((of family address length).address ||| word).toNat
      = address / twoPow (family.width - length) * twoPow (family.width - length) + word.toNat := by
  have hwidth := family.width_le
  rw [BitVec.toNat_or, of, toNat_and_not_lowMask (by omega) (Nat.lt_of_lt_of_le haddress family.twoPow_width_le),
    Nat.mul_comm]
  exact (Nat.two_pow_add_eq_or_of_lt hword _).symm

theorem subnet_of_eq_ok (hroom : length + bits ≤ family.width) (hn : n < twoPow bits)
    (haddress : address < twoPow family.width) : (of family address length).subnet bits n
      = .ok ⟨family, BitVec.ofNat 128 (family.subnetBase address length bits n), length + bits⟩ := by
  have hwidth := family.width_le
  have hfree : ¬ (of family address length).hostBits < bits := by
    show ¬ family.width - length < bits
    omega
  have hmask : ¬ (lowMask bits).toNat < n := by
    rw [toNat_lowMask (by omega)]
    omega
  have hshifted := toNat_shifted (family.width - (length + bits)) hn (by omega)
  have hnumber := AddressFamily.number_lt hroom hn
  have hword : (of family address length).address |||
      (if family.width - (length + bits) < 128 then BitVec.ofNat 128 n <<< (family.width - (length + bits)) else 0)
        = BitVec.ofNat 128 (family.subnetBase address length bits n) := by
    apply BitVec.eq_of_toNat_eq
    rw [toNat_address_or haddress (hshifted ▸ hnumber), hshifted]
    exact (Nat.mod_eq_of_lt (Nat.lt_of_lt_of_le (AddressFamily.subnetBase_lt hroom hn haddress)
      family.twoPow_width_le)).symm
  rw [subnet, if_neg hfree, if_neg hmask, ← hword]
  rfl

theorem subnet_of_eq_error (h : bits ≤ family.width - length → twoPow bits ≤ n) :
    ∃ e, (of family address length).subnet bits n = .error e := by
  have hwidth := family.width_le
  have hhost : (of family address length).hostBits = family.width - length := rfl
  rw [subnet, hhost]
  split
  · exact ⟨_, rfl⟩
  · next hroom =>
    have hpos := Binary64.twoPow_pos bits
    have hmask : (lowMask bits).toNat < n := by
      rw [toNat_lowMask (by omega)]
      omega
    rw [if_pos hmask]
    exact ⟨_, rfl⟩

end AddressPrefix

namespace Functions

/-- What a call for a subnet answers: negative numbers are refused before the prefix has its say. -/
theorem answers_cidrsubnet (h : WritesPrefix text family address length) (bits number : Int)
    (hbits : bits.natAbs ≤ twoPow 53) (hnumber : number.natAbs ≤ twoPow 53) :
    Answers "cidrsubnet" [.text text, .int bits, .int number]
      (if 0 ≤ bits ∧ bits < nat32Limit then
        if 0 ≤ number then
          (((AddressPrefix.of family address length).subnet bits.toNat number.toNat).mapError .addresses).map
            fun p => .text p.text
        else .error (.addresses .negativeNumber)
      else .error (.addresses .negativeBits)) := by
  have htext : prefixAt [.text text, .int bits, .int number] 0 = .ok (.of family address length) := prefixAt_text rfl h
  have hbits : integerAt [.text text, .int bits, .int number] 1 = .ok bits := integerAt_int rfl hbits
  have hnumber : integerAt [.text text, .int bits, .int number] 2 = .ok number := integerAt_int rfl hnumber
  refine ⟨_, rfl, (Function.call_own ?_).trans ?_⟩
  · exact .cons rfl (.cons rfl (.cons rfl .nil))
  dsimp only
  rw [htext, bitsAt, hbits, countAt, hnumber]
  by_cases hbounds : 0 ≤ bits ∧ bits < nat32Limit
  · by_cases hpos : 0 ≤ number
    · simp only [if_pos hbounds, if_pos hpos, bind, Except.bind]
      cases (AddressPrefix.of family address length).subnet bits.toNat number.toNat <;> rfl
    · simp only [if_pos hbounds, if_neg hpos, bind, Except.bind]
  · simp only [if_neg hbounds, bind, Except.bind]

end Functions

open Functions (Answers answers_cidrsubnet)

theorem exists_subnets (h : WritesPrefix text family address length) (hbits : bits ≤ min (family.width - length) 53) :
    ∃ (subnet : Nat → String) (base : Nat → Nat),
      (∀ n < twoPow bits, Answers "cidrsubnet" [.text text, .int bits, .int n] (.ok (.text (subnet n))) ∧
        WritesPrefix (subnet n) family (base n) (length + bits)) ∧
      family.Divide address length bits base := by
  have hfits := h.fits
  have hwidth := family.width_le
  have hroom : length + bits ≤ family.width := by omega
  let base := family.subnetBase address length bits
  refine ⟨fun n => AddressPrefix.text ⟨family, BitVec.ofNat 128 (base n), length + bits⟩, base, ?_,
    AddressFamily.divide_subnetBase hroom⟩
  intro n hn
  constructor
  · have hle : twoPow bits ≤ twoPow 53 := Nat.pow_le_pow_right (by decide) (by omega)
    have hbits32 : (bits : Int) < nat32Limit := by
      rw [nat32Limit]
      omega
    have hbits53 : bits ≤ twoPow 53 := by
      have hlimit : 53 ≤ twoPow 53 := by decide
      omega
    have hanswer := answers_cidrsubnet h bits n hbits53 (Nat.le_of_lt (Nat.lt_of_lt_of_le hn hle))
    rw [if_pos ⟨Int.natCast_nonneg bits, hbits32⟩, if_pos (Int.natCast_nonneg n), Int.toNat_natCast, Int.toNat_natCast,
      AddressPrefix.subnet_of_eq_ok hroom hn h.address_lt] at hanswer
    exact hanswer
  · exact AddressPrefix.writesPrefix_text (AddressFamily.subnetBase_lt hroom hn h.address_lt) hroom

theorem subnet_refused (h : WritesPrefix text family address length) {bits number : Int}
    (hbits : bits.natAbs ≤ twoPow 53) (hnumber : number.natAbs ≤ twoPow 53)
    (hrange : bits < 0 ∨ family.width - length < bits ∨ number < 0 ∨ twoPow bits.toNat ≤ number) :
    ∃ e, Answers "cidrsubnet" [.text text, .int bits, .int number] (.error e) := by
  have hanswer := answers_cidrsubnet h bits number hbits hnumber
  split at hanswer
  · next hbounds =>
    split at hanswer
    · next hpos =>
      have hfits := h.fits
      obtain ⟨e, he⟩ : ∃ e, (AddressPrefix.of family address length).subnet bits.toNat number.toNat = .error e :=
        AddressPrefix.subnet_of_eq_error (by omega)
      rw [he] at hanswer
      exact ⟨_, hanswer⟩
    · exact ⟨_, hanswer⟩
  · exact ⟨_, hanswer⟩

/-- The subnets of a prefix with up to 53 more bits divide it: each is written with its own length, and each address of
the prefix is in exactly one. With a number of bits or of a subnet that the prefix has no room for, the call fails. -/
theorem subnets_divide (h : WritesPrefix text family address length) :
    (∀ bits ≤ min (family.width - length) 53, ∃ (subnet : Nat → String) (base : Nat → Nat),
      (∀ n < twoPow bits, Answers "cidrsubnet" [.text text, .int bits, .int n] (.ok (.text (subnet n))) ∧
        WritesPrefix (subnet n) family (base n) (length + bits)) ∧
      family.Divide address length bits base) ∧
    ∀ bits number : Int, bits.natAbs ≤ twoPow 53 → number.natAbs ≤ twoPow 53 →
      bits < 0 ∨ family.width - length < bits ∨ number < 0 ∨ twoPow bits.toNat ≤ number →
      ∃ e, Answers "cidrsubnet" [.text text, .int bits, .int number] (.error e) :=
  ⟨fun _ hbits => exists_subnets h hbits, fun _ _ hbits hnumber hrange => subnet_refused h hbits hnumber hrange⟩

/-- The last two bits of an address divide its prefix into single addresses, and there is no third one. -/
theorem subnets_divide_lastBits :
    WritesPrefix "2001:db8::7/126" .v6 42540766411282592856903984951653826567 126 ∧
    (∃ (subnet : Nat → String) (base : Nat → Nat),
      (∀ n : Nat, n < 4 → Answers "cidrsubnet" [.text "2001:db8::7/126", .int 2, .int n] (.ok (.text (subnet n))) ∧
        WritesPrefix (subnet n) .v6 (base n) 128) ∧
      AddressFamily.v6.Divide 42540766411282592856903984951653826567 126 2 base) ∧
    ∃ e, Answers "cidrsubnet" [.text "2001:db8::7/126", .int 3, .int 0] (.error e) := by
  have hwrites : WritesPrefix "2001:db8::7/126" .v6 42540766411282592856903984951653826567 126 :=
    ⟨⟨"2001:db8::7".toList, "126".toList, rfl, by decide, by decide, by decide⟩, by decide⟩
  obtain ⟨hsubnets, hrefused⟩ := subnets_divide hwrites
  exact ⟨hwrites, hsubnets 2 (by decide), hrefused 3 0 (by decide) (by decide) (.inr (.inl (by decide)))⟩

example : ((AddressPrefix.read "fd00:fd12:3456:7890::/56").toOption.bind fun p =>
    (p.subnet 16 162).toOption.map (·.text)) = some "fd00:fd12:3456:7800:a200::/72" := by decide +kernel

end InfraConfig
