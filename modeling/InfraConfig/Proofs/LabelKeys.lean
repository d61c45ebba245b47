import Mathlib.Tactic.SplitIfs
import InfraConfig.Proofs.KeyTexts

/-!
# Keys read from labels

A label with the key of an instance is read as the label and the key. An index comes back as it is. In a name only the
escapes of quotes are undone, so that a name comes back exactly if no other character of it is escaped.
-/

namespace InfraConfig

/-! ## Ends of texts -/

theorem beforeEnd?_append {α : Type} [BEq α] [LawfulBEq α] (p cs : List α) : beforeEnd? p (cs ++ p) = some cs := by
  simp [beforeEnd?]

/-- A character that is not in front of its first occurrence. -/
theorem splitFirst?_append_cons {c : Char} {front : List Char} (h : c ∉ front) (back : List Char) :
    splitFirst? [c] (front ++ c :: back) = some (front, back) := by
  induction front with
  | nil => simp [splitFirst?, afterStart?]
  | cons d front ih =>
    rw [List.mem_cons, not_or] at h
    simp [splitFirst?, afterStart?, h.1, ih h.2]

theorem splitFirst?_of_not_mem {c : Char} {cs : List Char} (h : c ∉ cs) : splitFirst? [c] cs = none := by
  induction cs with
  | nil => rfl
  | cons d cs ih =>
    rw [List.mem_cons, not_or] at h
    simp [splitFirst?, afterStart?, h.1, ih h.2]

/-- What is taken from the front of a text ends where the text goes on with a character of another kind. -/
theorem takeWhile_append_of_ends {α : Type} {p : α → Bool} {ds rest : List α} (hds : ∀ c ∈ ds, p c = true)
    (hrest : ∀ c ∈ rest.head?, p c = false) : (ds ++ rest).takeWhile p = ds := by
  rw [List.takeWhile_append_of_pos hds]
  cases rest with
  | nil => simp
  | cons c rest => simp [hrest c rfl]

theorem trimList_eq_self {p : Char → Bool} {cs : List Char} (hhead : ∀ c ∈ cs.head?, p c = false)
    (hlast : ∀ c ∈ cs.getLast?, p c = false) : trimList p cs = cs := by
  have hdrop {ds : List Char} (h : ∀ c ∈ ds.head?, p c = false) : ds.dropWhile p = ds := by
    cases ds with
    | nil => rfl
    | cons d ds => simp [h d rfl]
  rw [trimList, dropEndWhile, hdrop hhead, hdrop (by simpa using hlast), List.reverse_reverse]

/-! ## Integers -/

theorem isDigit_toDigits {n : Nat} {c : Char} (h : c ∈ Nat.toDigits 10 n) : c.isDigit = true :=
  Nat.isDigit_of_mem_toDigits (by decide) (by decide) h

theorem decimalNat_toDigits (n : Nat) : decimalNat (Nat.toDigits 10 n) = n :=
  Nat.ofDigitChars_toDigits (by decide) (by decide)

theorem readNat?_toDigits (n : Nat) : readNat? (Nat.toDigits 10 n) = some n := by
  have hdigits : (Nat.toDigits 10 n).all Char.isDigit = true := List.all_eq_true.mpr fun _ => isDigit_toDigits
  simp [readNat?, hdigits, decimalNat_toDigits]

theorem takeSign_toDigits (n : Nat) : takeSign (Nat.toDigits 10 n) = (false, Nat.toDigits 10 n) := by
  rw [takeSign.eq_def]
  split
  · next h => exact absurd (isDigit_toDigits (n := n) (c := '-') (by simp [h])) (by decide)
  · next h => exact absurd (isDigit_toDigits (n := n) (c := '+') (by simp [h])) (by decide)
  · rfl

theorem readInt64?_toString {i : Int} (h : isInt64 i = true) : readInt64? (toString i).toList = some i := by
  have hread : readInt? (toString i).toList = some i := by
    rw [toList_toString_int]
    split
    · next hpos =>
      rw [readInt?, takeSign_toDigits]
      dsimp only
      rw [readNat?_toDigits, Option.map_some, Binary64.signed, if_neg Bool.false_ne_true, Int.toNat_of_nonneg hpos]
    · next hneg =>
      simp only [readInt?, takeSign, readNat?_toDigits, Binary64.signed, Option.map_some, if_true, Option.some.injEq]
      omega
  rw [readInt64?, hread, Option.filter_some, if_pos h]

/-! ## Escapes -/

namespace Quoted

/-- What is left of a written character once the escapes of quotes are undone. -/
def kept (c : Char) : List Char :=
  if c = '"' then [c] else encodeChar c

/-- Whether a character is left as it was. -/
def IsPlain (c : Char) : Prop :=
  c = '"' ∨ c ∉ ['\\', '\t', '\n', '\r', '\x00'] ∧ isPrintable c = true ∧ isExtending c = false

/-- A written text in which the escapes of quotes are undone. -/
def undo (cs : List Char) : List Char :=
  intercalateList ['"'] (splitPieces ['\\', '"'] 0 cs)

theorem replaceText_quotes (cs : List Char) : replaceText (.ofList cs) "\\\"" "\"" = .ofList (undo cs) := by
  simp [replaceText, joinText, splitText, splitAll, undo]

theorem splitPieces_ne_nil {p : List Char} (skip : Nat) (cs : List Char) : splitPieces p skip cs ≠ [] := by
  fun_induction splitPieces p skip cs <;> simp_all

theorem undo_escape (rest : List Char) : undo ('\\' :: '"' :: rest) = '"' :: undo rest := by
  cases hpieces : splitPieces ['\\', '"'] 0 rest with
  | nil => exact absurd hpieces (splitPieces_ne_nil 0 rest)
  | cons piece pieces => simp [undo, splitPieces, hpieces, intercalateList]

theorem undo_cons {c : Char} {rest : List Char} (h : c ≠ '\\' ∨ rest.head? ≠ some '"') :
    undo (c :: rest) = c :: undo rest := by
  have hno : ['\\', '"'].isPrefixOf (c :: rest) = false := by
    cases rest with
    | nil => simp [List.isPrefixOf]
    | cons d rest =>
      have hd : '\\' = c → ¬ '"' = d := fun hc hd => by simp [← hc, ← hd] at h
      simpa [List.isPrefixOf] using hd
  cases hpieces : splitPieces ['\\', '"'] 0 rest with
  | nil => exact absurd hpieces (splitPieces_ne_nil 0 rest)
  | cons piece pieces =>
    rw [undo, undo, splitPieces, hno, hpieces]
    cases pieces <;> simp [intercalateList]

theorem undo_append {xs : List Char} (h : '\\' ∉ xs) (rest : List Char) : undo (xs ++ rest) = xs ++ undo rest := by
  induction xs with
  | nil => rfl
  | cons x xs ih =>
    rw [List.mem_cons, not_or] at h
    rw [List.cons_append, undo_cons (.inl (Ne.symm h.1)), ih h.2, List.cons_append]

theorem undo_encodeChar_append (c : Char) {rest : List Char} (hrest : rest.head? ≠ some '"') :
    undo (encodeChar c ++ rest) = kept c ++ undo rest := by
  by_cases hquote : c = '"'
  · subst hquote
    exact undo_escape rest
  -- The backslash of another escape is not in front of a quote, and what follows the escape does not begin with one.
  rw [kept, if_neg hquote]
  rcases encodeChar_cases c with ⟨e, he, hc⟩ | hc | ⟨hback, -, hc⟩ <;> rw [hc]
  · have hne : e ≠ '"' := fun h => hquote (congrArg Prod.fst (shortEscapes_inj he (q := ('"', '"')) (by decide) h))
    simp only [List.cons_append, List.nil_append]
    rw [undo_cons (.inr (by simpa using hne)), undo_cons (.inr hrest)]
  · have hhex : '\\' ∉ 'u' :: '\x7b' :: (Nat.toDigits 16 c.toNat ++ ['\x7d']) := by
      have hdigits := not_mem_toDigits (b := 16) (c := '\\') (by decide) (by decide) c.toNat (by decide)
      simp [hdigits]
    rw [List.cons_append, undo_cons (.inr (by simp)), undo_append hhex]
    rfl
  · exact undo_cons (.inl hback)

theorem undo_flatMap_encodeChar (cs : List Char) : undo (cs.flatMap encodeChar) = cs.flatMap kept := by
  induction cs with
  | nil => rfl
  | cons c cs ih =>
    have hhead : (cs.flatMap encodeChar).head? ≠ some '"' := by
      intro h
      obtain ⟨rest, hrest⟩ := List.head?_eq_some_iff.mp h
      cases cs with
      | nil => simp at hrest
      | cons d cs => exact encodeChar_append_ne (List.flatMap_cons ▸ hrest)
    rw [List.flatMap_cons, List.flatMap_cons, undo_encodeChar_append c hhead, ih]

theorem encodeChar_eq_singleton_iff {c : Char} (hquote : c ≠ '"') : encodeChar c = [c] ↔ IsPlain c := by
  have hzero : c.toNat = 0 ↔ c = '\x00' := ⟨fun h => Char.ext (UInt32.toNat_inj.mp h), fun h => h ▸ rfl⟩
  unfold encodeChar IsPlain
  simp only [beq_iff_eq, hzero]
  generalize isPrintable c = printable, isExtending c = extending
  split_ifs <;> cases printable <;> cases extending <;> simp_all

theorem kept_eq_singleton_iff {c : Char} : kept c = [c] ↔ IsPlain c := by
  unfold kept
  by_cases hquote : c = '"'
  · simp [hquote, IsPlain]
  · rw [if_neg hquote]
    exact encodeChar_eq_singleton_iff hquote

/-- What is not left as it was has become longer. -/
theorem length_kept (c : Char) : kept c = [c] ∨ 2 ≤ (kept c).length := by
  unfold kept
  by_cases hquote : c = '"'
  · simp [hquote]
  · rw [if_neg hquote]
    rcases encodeChar_cases c with ⟨e, -, hc⟩ | hc | ⟨-, -, hc⟩
    · exact .inr (by simp [hc])
    · exact .inr (by simp [hc])
    · exact .inl hc

theorem length_le_flatMap_kept (cs : List Char) : cs.length ≤ (cs.flatMap kept).length := by
  induction cs with
  | nil => simp
  | cons c cs ih =>
    have hc : 1 ≤ (kept c).length := by
      rcases length_kept c with h | h
      · simp [h]
      · omega
    simp only [List.flatMap_cons, List.length_append, List.length_cons]
    omega

theorem flatMap_kept_eq_self_iff {cs : List Char} : cs.flatMap kept = cs ↔ ∀ c ∈ cs, IsPlain c := by
  induction cs with
  | nil => simp
  | cons c cs ih =>
    rw [List.forall_mem_cons, ← ih, ← kept_eq_singleton_iff, List.flatMap_cons]
    constructor
    · intro h
      rcases length_kept c with hc | hc
      · rw [hc] at h
        exact ⟨hc, (List.cons.inj h).2⟩
      · -- No later character makes up for the length of this one.
        have hlength := congrArg List.length h
        have hrest := length_le_flatMap_kept cs
        simp only [List.length_append, List.length_cons] at hlength
        omega
    · rintro ⟨hc, hcs⟩
      rw [hc, hcs]
      rfl

theorem kept_append_inj {c d : Char} {xs ys : List Char} (h : kept c ++ xs = kept d ++ ys) : c = d ∧ xs = ys := by
  unfold kept at h
  by_cases hc : c = '"' <;> by_cases hd : d = '"'
  · subst hc hd
    simpa using h
  · rw [if_pos hc, if_neg hd, hc] at h
    exact absurd h.symm encodeChar_append_ne
  · rw [if_neg hc, if_pos hd, hd] at h
    exact absurd h encodeChar_append_ne
  · rw [if_neg hc, if_neg hd] at h
    exact encodeChar_append_inj h

theorem flatMap_kept_inj {cs ds : List Char} (h : cs.flatMap kept = ds.flatMap kept) : cs = ds := by
  have hne (c : Char) (rest : List Char) : kept c ++ rest ≠ [] := by
    rcases length_kept c with hc | hc
    · simp [hc]
    · intro hnil
      simp [(List.append_eq_nil_iff.mp hnil).1] at hc
  induction cs generalizing ds with
  | nil =>
    cases ds with
    | nil => rfl
    | cons d ds => exact absurd h.symm (hne d _)
  | cons c cs ih =>
    cases ds with
    | nil => exact absurd h (hne c _)
    | cons d ds =>
      obtain ⟨rfl, hrest⟩ := kept_append_inj h
      rw [ih hrest]

end Quoted

/-! ## Keys -/

namespace InstanceKey

/-- Whether an index fits 64 bits with a sign. -/
def InRange : InstanceKey → Prop
  | .index i => isInt64 i = true
  | .name _ => True

instance (key : InstanceKey) : Decidable key.InRange := by
  cases key <;> unfold InRange <;> infer_instance

/-- Whether nothing in a key but quotes is escaped. -/
def IsPlain : InstanceKey → Prop
  | .index _ => True
  | .name s => ∀ c ∈ s.toList, Quoted.IsPlain c

/-- What a key is read as after it is written. -/
def reread : InstanceKey → InstanceKey
  | .index i => .index i
  | .name s => .name (.ofList (s.toList.flatMap Quoted.kept))

/-- What stands between the brackets. -/
def inner : InstanceKey → List Char
  | .index i => (toString i).toList
  | .name s => Quoted.encode s.toList

theorem toList_text (key : InstanceKey) : key.text.toList = '[' :: (key.inner ++ [']']) := by
  cases key <;> simp [text, inner, quoted]

theorem reread_inj {k l : InstanceKey} (h : k.reread = l.reread) : k = l := by
  cases k <;> cases l <;> simp only [reread, index.injEq, name.injEq, reduceCtorEq] at h
  · exact congrArg index h
  · exact congrArg name (String.toList_inj.mp (Quoted.flatMap_kept_inj (String.ofList_inj.mp h)))

theorem reread_eq_self_iff {key : InstanceKey} : key.reread = key ↔ key.IsPlain := by
  cases key with
  | index i => simp [reread, IsPlain]
  | name s =>
    rw [reread, IsPlain, name.injEq, ← Quoted.flatMap_kept_eq_self_iff, ← String.toList_inj, String.toList_ofList]

theorem isBlank_of_digits {n : Nat} {c : Char} (h : c ∈ Nat.toDigits 10 n) : isBlank c = false := by
  have hall : ∀ d < 16, isBlank (Nat.digitChar d) = false := by decide +kernel
  obtain ⟨d, hd, rfl⟩ := exists_of_mem_toDigits (by decide) h
  exact hall d (by omega)

theorem read?_inner {key : InstanceKey} (h : key.InRange) : read? key.inner = some key.reread := by
  cases key with
  | index i =>
    have hblank : ∀ c ∈ (toString i).toList, isBlank c = false := by
      intro c hc
      rw [toList_toString_int] at hc
      split at hc
      · exact isBlank_of_digits hc
      · rcases List.mem_cons.mp hc with rfl | hc
        · decide +kernel
        · exact isBlank_of_digits hc
    have htrim : trimList isBlank (toString i).toList = (toString i).toList :=
      trimList_eq_self (fun c hc => hblank c (List.mem_of_mem_head? hc))
        (fun c hc => hblank c (List.mem_of_mem_getLast? hc))
    rw [read?, inner, htrim, readInt64?_toString h, reread]
  | name s =>
    have hquote : isBlank '"' = false := by decide +kernel
    have htrim : trimList isBlank (Quoted.encode s.toList) = Quoted.encode s.toList :=
      trimList_eq_self (by simpa [Quoted.encode] using hquote)
        (by rw [Quoted.encode, List.getLast?_concat]; simpa using hquote)
    -- The quote in front keeps digits inside a name from being read as an index.
    have hnumber : readInt64? (Quoted.encode s.toList) = none := by
      simp [readInt64?, readInt?, Quoted.encode, takeSign, readNat?, Char.isDigit]
    have hinner : (afterStart? ['"'] (Quoted.encode s.toList)).bind (beforeEnd? ['"'])
        = some (s.toList.flatMap Quoted.encodeChar) := by
      rw [Quoted.encode, List.cons_append]
      exact beforeEnd?_append ['"'] (s.toList.flatMap Quoted.encodeChar)
    rw [read?, inner, htrim, hnumber]
    simp only [Option.bind_eq_bind, ← Option.bind_assoc, hinner, Option.bind_some, reread, Quoted.replaceText_quotes,
      Quoted.undo_flatMap_encodeChar]

end InstanceKey

/-- A label without bracket that a key is appended to is read as the label, and the key with its escapes other than
those of quotes. -/
theorem splitKey_append_text {label : String} {key : InstanceKey} (hlabel : '[' ∉ label.toList) (hkey : key.InRange) :
    splitKey (label ++ key.text) = (label, some key.reread) := by
  have hlist : (label ++ key.text).toList = label.toList ++ '[' :: (key.inner ++ [']']) := by
    rw [String.toList_append, InstanceKey.toList_text]
  rw [splitKey, hlist, splitFirst?_append_cons hlabel]
  dsimp only
  rw [beforeEnd?_append, Option.bind_some, InstanceKey.read?_inner hkey, String.ofList_toList]

theorem splitKey_of_not_mem {label : String} (h : '[' ∉ label.toList) : splitKey label = (label, none) := by
  rw [splitKey, splitFirst?_of_not_mem h]

/-- A key that is appended to a label comes back with the escapes of its characters, those of quotes apart. So it comes
back as it was exactly if nothing else in it is escaped. -/
theorem splitKey_gives_back_iff {label : String} {key : InstanceKey} (hlabel : '[' ∉ label.toList)
    (hkey : key.InRange) : splitKey (label ++ key.text) = (label, some key.reread)
      ∧ (splitKey (label ++ key.text) = (label, some key) ↔ key.IsPlain) := by
  have hread := splitKey_append_text hlabel hkey
  refine ⟨hread, ?_⟩
  rw [hread, Prod.mk.injEq, Option.some.injEq, InstanceKey.reread_eq_self_iff]
  exact and_iff_right rfl

theorem splitKey_gives_back_iff_backslash : '[' ∉ "web".toList ∧ (InstanceKey.name "\"\\").InRange
    ∧ splitKey ("web" ++ (InstanceKey.name "\"\\").text) = ("web", some (.name "\"\\\\"))
    ∧ ¬ (InstanceKey.name "\"\\").IsPlain := by
  have hlabel : '[' ∉ "web".toList := by decide
  have hkey : (InstanceKey.name "\"\\").InRange := trivial
  have hread := splitKey_gives_back_iff hlabel hkey
  have hreread : (InstanceKey.name "\"\\").reread = .name "\"\\\\" := by decide +kernel
  rw [hreread] at hread
  exact ⟨hlabel, hkey, hread.1, fun hplain => absurd (hread.1.symm.trans (hread.2.mpr hplain)) (by decide +kernel)⟩

end InfraConfig
