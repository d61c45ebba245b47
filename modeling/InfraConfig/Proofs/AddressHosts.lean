import InfraConfig.Proofs.AddressPrefixes

/-!
# Hosts of address prefixes

The addresses of a prefix are counted from its first one, and with negative numbers backwards from its last one. Both
counts go through the whole prefix and no further: a number from minus the count of the addresses up to that count has
a host, which is the first address plus what is left of the number after division by the count.
-/

namespace InfraConfig

variable {text : String} {family : AddressFamily} {address length : Nat}

/-- Whether an address is read from a text. -/
def WritesAddress (text : String) (family : AddressFamily) (address : Nat) : Prop :=
  Address.read? text.toList = some (family, address)

theorem WritesAddress.unique {other : Nat} (h : WritesAddress text family address)
    (h' : WritesAddress text family other) : address = other := by
  rw [WritesAddress, h, Option.some.injEq, Prod.mk.injEq] at h'
  exact h'.2

namespace AddressFamily

/-- The count of addresses of a prefix. -/
def hosts (family : AddressFamily) (length : Nat) : Nat :=
  twoPow (family.width - length)

theorem hosts_pos (family : AddressFamily) (length : Nat) : 0 < family.hosts length :=
  Binary64.twoPow_pos _

/-- The address that a number leads to, which counts round the prefix. -/
def host (family : AddressFamily) (address length : Nat) (n : Int) : Nat :=
  address / family.hosts length * family.hosts length + (n % family.hosts length).toNat

theorem toNat_emod_lt (family : AddressFamily) (length : Nat) (n : Int) :
    (n % family.hosts length).toNat < family.hosts length := by
  have hpos := family.hosts_pos length
  have hlow := Int.emod_nonneg n (b := family.hosts length) (by omega)
  have hhigh := Int.emod_lt_of_pos n (b := family.hosts length) (by omega)
  omega

theorem sameStart_host (family : AddressFamily) (address length : Nat) (n : Int) :
    family.SameStart length address (family.host address length n) := by
  have hrest := family.toNat_emod_lt length n
  rw [SameStart, host]
  change _ = _ / family.hosts length
  rw [Nat.mul_comm, Nat.mul_add_div (family.hosts_pos length), Nat.div_eq_of_lt hrest, Nat.add_zero]
  rfl

theorem host_lt (hfits : length ≤ family.width) (haddress : address < twoPow family.width) (n : Int) :
    family.host address length n < twoPow family.width :=
  first_add_lt hfits haddress (family.toNat_emod_lt length n)

theorem host_sub_hosts (n : Int) :
    family.host address length (n - family.hosts length) = family.host address length n := by
  rw [host, host, Int.sub_emod_right]

theorem host_inj {m n : Int} (hm : 0 ≤ m) (hmh : m < family.hosts length) (hn : 0 ≤ n) (hnh : n < family.hosts length)
    (h : family.host address length m = family.host address length n) : m = n := by
  rw [host, host, Int.emod_eq_of_lt hm hmh, Int.emod_eq_of_lt hn hnh] at h
  omega

end AddressFamily

namespace AddressPrefix

variable {n : Int}

theorem toNat_lowMask_hostBits (family : AddressFamily) (address length : Nat) :
    (lowMask (of family address length).hostBits).toNat = family.hosts length - 1 :=
  toNat_lowMask (Nat.le_trans (Nat.sub_le _ _) family.width_le)

theorem toNat_word_of_le {k : Nat} (hn : n.natAbs < twoPow 128) (hk : k ≤ n.natAbs) : (BitVec.ofNat 128 k).toNat = k :=
  Nat.mod_eq_of_lt (Nat.lt_of_le_of_lt hk hn)

/-- A number is kept in the free bits as what is left of it after division by the count of addresses: a negative one is
taken, less one, from the last address. -/
theorem exists_offset? (address : Nat) (hn : n.natAbs < twoPow 128) (hlow : -(family.hosts length : Int) ≤ n)
    (hhigh : n < family.hosts length) :
    ∃ word, (of family address length).offset? n = some word ∧ word.toNat = (n % family.hosts length).toNat := by
  have hlast := toNat_lowMask_hostBits family address length
  rw [offset?]
  by_cases hneg : n < 0
  · have hback := toNat_word_of_le hn (Nat.sub_le n.natAbs 1)
    have hle : BitVec.ofNat 128 (n.natAbs - 1) ≤ lowMask (of family address length).hostBits := by
      rw [BitVec.le_def, hback, hlast]
      omega
    have hrest : n % family.hosts length = n + family.hosts length := by
      rw [← Int.add_emod_right, Int.emod_eq_of_lt (by omega) (by omega)]
    refine ⟨lowMask (of family address length).hostBits - BitVec.ofNat 128 (n.natAbs - 1), ?_, ?_⟩
    · simp only [if_pos hneg, if_pos hle]
    · rw [BitVec.toNat_sub_of_le hle, hback, hlast, hrest]
      omega
  · have hself := toNat_word_of_le hn (Nat.le_refl n.natAbs)
    have hle : BitVec.ofNat 128 n.natAbs ≤ lowMask (of family address length).hostBits := by
      rw [BitVec.le_def, hself, hlast]
      omega
    refine ⟨BitVec.ofNat 128 n.natAbs, ?_, ?_⟩
    · simp only [if_neg hneg, Option.filter_some, decide_eq_true hle, if_true]
    · rw [hself, Int.emod_eq_of_lt (by omega) hhigh]
      omega

theorem offset?_eq_none (hn : n.natAbs < twoPow 128)
    (h : ¬ (-(family.hosts length : Int) ≤ n ∧ n < family.hosts length)) :
    (of family address length).offset? n = none := by
  have hlast := toNat_lowMask_hostBits family address length
  have hpos := family.hosts_pos length
  rw [offset?]
  by_cases hneg : n < 0
  · have hgreat : ¬ BitVec.ofNat 128 (n.natAbs - 1) ≤ lowMask (of family address length).hostBits := by
      rw [BitVec.le_def, toNat_word_of_le hn (Nat.sub_le _ _), hlast]
      omega
    simp only [if_pos hneg, if_neg hgreat]
  · have hgreat : ¬ BitVec.ofNat 128 n.natAbs ≤ lowMask (of family address length).hostBits := by
      rw [BitVec.le_def, toNat_word_of_le hn (Nat.le_refl _), hlast]
      omega
    simp only [if_neg hneg, Option.filter_some, decide_eq_false hgreat, Bool.false_eq_true, if_false]

theorem exists_host (haddress : address < twoPow family.width) (hn : n.natAbs < twoPow 128)
    (hlow : -(family.hosts length : Int) ≤ n) (hhigh : n < family.hosts length) :
    ∃ word, (of family address length).host n = .ok word ∧ word.toNat = family.host address length n := by
  obtain ⟨word, hoffset, hvalue⟩ := exists_offset? address hn hlow hhigh
  have hfits : word.toNat < family.hosts length := by
    rw [hvalue]
    exact family.toNat_emod_lt length n
  refine ⟨(of family address length).address ||| word, by rw [host, hoffset], ?_⟩
  rw [toNat_address_or haddress hfits, hvalue]
  rfl

theorem host_eq_error (hn : n.natAbs < twoPow 128)
    (h : ¬ (-(family.hosts length : Int) ≤ n ∧ n < family.hosts length)) :
    (of family address length).host n = .error (.noHost length n) := by
  rw [host, offset?_eq_none hn h]
  rfl

end AddressPrefix

namespace Functions

variable {n : Int}

theorem answers_cidrhost (h : WritesPrefix text family address length) (hn : n.natAbs ≤ twoPow 53) :
    Answers "cidrhost" [.text text, .int n]
      ((((AddressPrefix.of family address length).host n).mapError .addresses).map
        fun word => .text (Address.text family word.toNat)) := by
  have htext : prefixAt [.text text, .int n] 0 = .ok (.of family address length) := prefixAt_text rfl h
  have hnumber : integerAt [.text text, .int n] 1 = .ok n := integerAt_int rfl hn
  refine ⟨_, rfl, (Function.call_own ?_).trans ?_⟩
  · exact .cons rfl (.cons rfl .nil)
  dsimp only
  rw [htext, hnumber]
  simp only [bind, Except.bind]
  cases (AddressPrefix.of family address length).host n <;> rfl

theorem answers_cidrhost_text (h : WritesPrefix text family address length) (hn : n.natAbs ≤ twoPow 53)
    (hlow : -(family.hosts length : Int) ≤ n) (hhigh : n < family.hosts length) :
    Answers "cidrhost" [.text text, .int n] (.ok (.text (Address.text family (family.host address length n)))) := by
  have hanswer := answers_cidrhost h hn
  have hword : n.natAbs < twoPow 128 := Nat.lt_of_le_of_lt hn (by decide)
  obtain ⟨word, hhost, hvalue⟩ := AddressPrefix.exists_host h.address_lt hword hlow hhigh
  rw [hhost] at hanswer
  rw [← hvalue]
  exact hanswer

theorem answers_cidrhost_error (h : WritesPrefix text family address length) (hn : n.natAbs ≤ twoPow 53)
    (hout : ¬ (-(family.hosts length : Int) ≤ n ∧ n < family.hosts length)) :
    Answers "cidrhost" [.text text, .int n] (.error (.addresses (.noHost length n))) := by
  have hanswer := answers_cidrhost h hn
  rw [AddressPrefix.host_eq_error (Nat.lt_of_le_of_lt hn (by decide)) hout] at hanswer
  exact hanswer

end Functions

open Functions (Answers answers_cidrhost_text answers_cidrhost_error)

variable {m n : Int}

theorem host_answered_iff (h : WritesPrefix text family address length) (hn : n.natAbs ≤ twoPow 53) :
    (∃ answer, Answers "cidrhost" [.text text, .int n] (.ok answer)) ↔
      -(family.hosts length : Int) ≤ n ∧ n < family.hosts length := by
  constructor
  · rintro ⟨answer, hanswer⟩
    by_contra hout
    cases hanswer.unique (answers_cidrhost_error h hn hout)
  · rintro ⟨hlow, hhigh⟩
    exact ⟨_, answers_cidrhost_text h hn hlow hhigh⟩

theorem writesAddress_host (h : WritesPrefix text family address length) (n : Int) :
    WritesAddress (Address.text family (family.host address length n)) family (family.host address length n) :=
  Address.read?_text (AddressFamily.host_lt h.fits h.address_lt n)

/-- Numbers that are not negative have hosts of their own. -/
theorem host_answer_inj (h : WritesPrefix text family address length) (hm : m.natAbs ≤ twoPow 53)
    (hn : n.natAbs ≤ twoPow 53) (hmpos : 0 ≤ m) (hnpos : 0 ≤ n) {answer : Datum}
    (hanswer : Answers "cidrhost" [.text text, .int m] (.ok answer))
    (hanswer' : Answers "cidrhost" [.text text, .int n] (.ok answer)) : m = n := by
  obtain ⟨hmlow, hmhigh⟩ := (host_answered_iff h hm).mp ⟨answer, hanswer⟩
  obtain ⟨hnlow, hnhigh⟩ := (host_answered_iff h hn).mp ⟨answer, hanswer'⟩
  have hsame := (answers_cidrhost_text h hm hmlow hmhigh).unique hanswer
  rw [← (answers_cidrhost_text h hn hnlow hnhigh).unique hanswer', Except.ok.injEq, Datum.text.injEq] at hsame
  have haddress := writesAddress_host h m
  rw [hsame] at haddress
  exact AddressFamily.host_inj hmpos hmhigh hnpos hnhigh (haddress.unique (writesAddress_host h n))

/-- A number has a host in a prefix exactly if it is not less than minus the count of the addresses, and less than that
count. The host is the first address of the prefix plus what is left of the number after division by the count, so it
is in the prefix; numbers from zero on lead to different hosts, and each leads to the same host as the number that
counts back from the end to it. -/
theorem hosts_enumerate (h : WritesPrefix text family address length) :
    (∀ n : Int, n.natAbs ≤ twoPow 53 → ((∃ answer, Answers "cidrhost" [.text text, .int n] (.ok answer)) ↔
      -(family.hosts length : Int) ≤ n ∧ n < family.hosts length)) ∧
    (∀ n : Int, n.natAbs ≤ twoPow 53 → -(family.hosts length : Int) ≤ n → n < family.hosts length →
      ∃ host, Answers "cidrhost" [.text text, .int n] (.ok (.text host)) ∧
        WritesAddress host family (family.host address length n) ∧
        family.SameStart length address (family.host address length n)) ∧
    (∀ m n : Int, m.natAbs ≤ twoPow 53 → n.natAbs ≤ twoPow 53 → 0 ≤ m → 0 ≤ n → ∀ answer,
      Answers "cidrhost" [.text text, .int m] (.ok answer) →
      Answers "cidrhost" [.text text, .int n] (.ok answer) → m = n) ∧
    ∀ n : Int, n.natAbs ≤ twoPow 53 → (n - family.hosts length).natAbs ≤ twoPow 53 → 0 ≤ n → n < family.hosts length →
      ∃ answer, Answers "cidrhost" [.text text, .int n] (.ok answer) ∧
        Answers "cidrhost" [.text text, .int (n - family.hosts length)] (.ok answer) := by
  refine ⟨fun n hn => host_answered_iff h hn, fun n hn hlow hhigh => ?_, ?_, fun n hn hback hpos hhigh => ?_⟩
  · exact ⟨_, answers_cidrhost_text h hn hlow hhigh, writesAddress_host h n, family.sameStart_host address length n⟩
  · exact fun m n hm hn hmpos hnpos answer => host_answer_inj h hm hn hmpos hnpos
  · have hfront := answers_cidrhost_text h hn (by omega) hhigh
    have hend := answers_cidrhost_text h hback (by omega) (by omega)
    rw [AddressFamily.host_sub_hosts] at hend
    exact ⟨_, hfront, hend⟩

/-- A prefix of four addresses, the last of which has the numbers 3 and -1; the number 4 has no host, and neither has
-5. -/
theorem hosts_enumerate_fourAddresses :
    WritesPrefix "192.0.2.77/30" .v4 3221226061 30 ∧
    (∃ host, Answers "cidrhost" [.text "192.0.2.77/30", .int 3] (.ok (.text host)) ∧
      Answers "cidrhost" [.text "192.0.2.77/30", .int (-1)] (.ok (.text host)) ∧ WritesAddress host .v4 3221226063) ∧
    (¬ ∃ answer, Answers "cidrhost" [.text "192.0.2.77/30", .int 4] (.ok answer)) ∧
    ¬ ∃ answer, Answers "cidrhost" [.text "192.0.2.77/30", .int (-5)] (.ok answer) := by
  have hwrites : WritesPrefix "192.0.2.77/30" .v4 3221226061 30 :=
    ⟨⟨"192.0.2.77".toList, "30".toList, rfl, by decide, by decide, by decide⟩, by decide⟩
  obtain ⟨hiff, hhosts, -, hends⟩ := hosts_enumerate hwrites
  obtain ⟨host, hhost, haddress, -⟩ := hhosts 3 (by decide) (by decide) (by decide)
  obtain ⟨answer, hfront, hend⟩ := hends 3 (by decide) (by decide) (by decide) (by decide)
  cases hfront.unique hhost
  exact ⟨hwrites, ⟨host, hhost, hend, haddress⟩, mt (hiff 4 (by decide)).mp (by decide),
    mt (hiff (-5) (by decide)).mp (by decide)⟩

end InfraConfig
