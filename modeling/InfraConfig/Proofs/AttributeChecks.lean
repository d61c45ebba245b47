import InfraConfig.Block.Check

/-!
# Checks of attributes

A check of a map asks for entries: a key with a matcher for what stands under it. A matcher is known by its shape, an
action and a value, and accepts by its action; what has another shape accepts what equals it. One entry that is met is
enough, however many the check has.

A list is asked for the text of a check, whatever the kind of the check, and only its texts answer: those that stand in
it, and those under `key` in the maps that stand in it. So a text is contained if it is a member, and a member that is a
number or a boolean is not found.

All checks look at the value of an attribute, which is null if there is none, except that null is blank only as the
value of an expression. So an attribute without a value, unknown or failed, passes no check, but one: it is none of any
options.
-/

namespace InfraConfig

/-! ## Maps -/

/-- A check with the shape of a matcher: the text of an action, and an operand. -/
structure IsMatcher (check : Value) (action : String) (operand : Value) : Prop where
  action : check.get? "action" = some (.text action)
  operand : check.get? "value" = some operand

/-- Whether a value equals one of the options of a matcher, which only a list or set has. -/
def Among (actual operand : Value) : Prop :=
  ∃ options, operand.items? = some options ∧ ∃ v ∈ options, (v == actual) = true

/-- What a check accepts. -/
inductive Accepts (check : Value) : Value → Prop where
  | isAny {operand actual : Value} (h : IsMatcher check "isAny" operand) (hamong : Among actual operand) :
      Accepts check actual
  | isNone {operand actual : Value} (h : IsMatcher check "isNone" operand) (hnone : ¬ Among actual operand) :
      Accepts check actual
  | regexMatches {pattern text : String} (h : IsMatcher check "regexMatches" (.text pattern))
      (hmatch : patternMatches pattern text = true) : Accepts check (.text text)
  | equal {actual : Value} (h : ∀ action operand, ¬ IsMatcher check action operand)
      (heq : (check == actual) = true) : Accepts check actual

/-- Whether a map has the key of an entry, with a value that the matcher of the entry accepts. -/
def EntryMet (entries : Entries Value) (entry : String × Value) : Prop :=
  ∃ actual, entries.get? entry.1 = some actual ∧ Accepts entry.2 actual

section

variable {check actual operand : Value} {action : String}

theorem IsMatcher.unique (h : IsMatcher check action operand) {action' : String} {operand' : Value}
    (h' : IsMatcher check action' operand') : action = action' ∧ operand = operand' := by
  have haction := h.action.symm.trans h'.action
  exact ⟨by injection haction with haction; injection haction, Option.some.inj (h.operand.symm.trans h'.operand)⟩

theorem isOption_iff : isOption (operand.items?.getD []) actual = true ↔ Among actual operand := by
  rw [isOption, List.any_eq_true, Among]
  cases operand.items? with
  | none => simp
  | some options => simp

/-- A matcher accepts by its action, and one with another action accepts nothing. -/
theorem accepts_isMatcher_iff (h : IsMatcher check action operand) : Accepts check actual ↔
    (action = "isAny" ∧ Among actual operand) ∨ (action = "isNone" ∧ ¬ Among actual operand) ∨
    (action = "regexMatches" ∧ ∃ pattern text, operand = .text pattern ∧ actual = .text text
      ∧ patternMatches pattern text = true) := by
  constructor
  · intro haccepts
    cases haccepts with
    | isAny h' hamong =>
      obtain ⟨rfl, rfl⟩ := h.unique h'
      exact .inl ⟨rfl, hamong⟩
    | isNone h' hnone =>
      obtain ⟨rfl, rfl⟩ := h.unique h'
      exact .inr (.inl ⟨rfl, hnone⟩)
    | regexMatches h' hmatch =>
      obtain ⟨rfl, rfl⟩ := h.unique h'
      exact .inr (.inr ⟨rfl, _, _, rfl, rfl, hmatch⟩)
    | equal h' => exact absurd h (h' _ _)
  · rintro (⟨rfl, hamong⟩ | ⟨rfl, hnone⟩ | ⟨rfl, pattern, text, rfl, rfl, hmatch⟩)
    · exact .isAny h hamong
    · exact .isNone h hnone
    · exact .regexMatches h hmatch

theorem text?_eq_some_iff {v : Value} {s : String} : v.text? = some s ↔ v = .text s := by
  cases v <;> simp [Value.text?]

theorem matchesCheck_isMatcher_iff (h : IsMatcher check action operand) :
    matchesCheck check actual = true ↔ Accepts check actual := by
  have haction : (check.get? "action").bind Value.text? = some action := by rw [h.action]; rfl
  rw [accepts_isMatcher_iff h, matchesCheck, haction, h.operand]
  dsimp only
  split
  · simp [isOption_iff]
  · simp [← isOption_iff]
  · simp only [String.reduceEq, false_and, true_and, false_or, ← text?_eq_some_iff]
    cases operand.text? <;> cases actual.text? <;> simp
  · next hany hnone hregex =>
    refine iff_of_false Bool.false_ne_true ?_
    rintro (⟨h', -⟩ | ⟨h', -⟩ | ⟨h', -⟩)
    · exact hany h'
    · exact hnone h'
    · exact hregex h'

/-- The decision that is computed is acceptance. -/
theorem matchesCheck_iff : matchesCheck check actual = true ↔ Accepts check actual := by
  by_cases h : ∃ action operand, IsMatcher check action operand
  · obtain ⟨action, operand, h⟩ := h
    exact matchesCheck_isMatcher_iff h
  · have hequal : matchesCheck check actual = (check == actual) := by
      rw [matchesCheck]
      split
      · next action operand haction hoperand =>
        obtain ⟨v, hv, htext⟩ := Option.bind_eq_some_iff.mp haction
        exact absurd ⟨action, operand, text?_eq_some_iff.mp htext ▸ hv, hoperand⟩ h
      · rfl
    rw [hequal]
    constructor
    · exact .equal fun action operand h' => h ⟨action, operand, h'⟩
    · intro haccepts
      cases haccepts with
      | isAny h' => exact absurd ⟨_, _, h'⟩ h
      | isNone h' => exact absurd ⟨_, _, h'⟩ h
      | regexMatches h' => exact absurd ⟨_, _, h'⟩ h
      | equal _ heq => exact heq

end

theorem contains_of_entries? {v : Value} {es : Entries Value} (h : v.entries? = some es) (check : Value)
    (ignoreCase : Bool) : v.contains check ignoreCase = entriesContain es check := by
  cases v with
  | map entries => cases h; rfl
  | object entries => cases h; rfl
  | _ => cases h

theorem entriesContain_iff {es checks : Entries Value} {check : Value} (h : check.entries? = some checks) :
    entriesContain es check = true ↔ ∃ e ∈ checks, EntryMet es e := by
  have hmet (e : String × Value) : (es.get? e.1).any (matchesCheck e.2) = true ↔ EntryMet es e := by
    rw [Option.any_eq_true, EntryMet]
    exact exists_congr fun actual => and_congr_right fun _ => matchesCheck_iff
  rw [entriesContain, h]
  dsimp only
  rw [List.any_eq_true]
  exact exists_congr fun e => and_congr_right fun _ => hmet e

theorem exists_iff_forall_iff {α : Type} (p : α → Prop) (items : List α) :
    ((∃ x ∈ items, p x) ↔ ∀ x ∈ items, p x) ↔ items ≠ [] ∧ ((∃ x ∈ items, p x) → ∀ x ∈ items, p x) := by
  cases items with
  | nil => simp
  | cons x items =>
    constructor
    · exact fun h => ⟨List.cons_ne_nil _ _, h.mp⟩
    · exact fun h => ⟨h.2, fun hall => ⟨x, List.mem_cons_self, hall x List.mem_cons_self⟩⟩

/-- An attribute that is a map contains what a check with entries asks for if one of the entries is met. That is the
same as all of them being met exactly for a check that has entries and whose entries are met together or not at all. -/
theorem contains_entries_iff {a : Arena} {b : Block} {attr : Attribute} {check : Value} {es checks : Entries Value}
    (hvalue : (a.value b attr).entries? = some es) (hcheck : check.entries? = some checks) (ignoreCase : Bool) :
    ((a.value b attr).contains check ignoreCase = true ↔ ∃ e ∈ checks, EntryMet es e) ∧
    (((a.value b attr).contains check ignoreCase = true ↔ ∀ e ∈ checks, EntryMet es e) ↔
      checks ≠ [] ∧ ((∃ e ∈ checks, EntryMet es e) → ∀ e ∈ checks, EntryMet es e)) := by
  have hcontains : (a.value b attr).contains check ignoreCase = true ↔ ∃ e ∈ checks, EntryMet es e := by
    rw [contains_of_entries? hvalue]
    exact entriesContain_iff hcheck
  refine ⟨hcontains, ?_⟩
  rw [hcontains]
  exact exists_iff_forall_iff _ checks

/-- `labels = { env = "prod", team = "core" }` -/
def labelsAttribute : Attribute :=
  ⟨"labels", .object [(.name "env", .text "prod"), (.name "team", .text "core")], default⟩

/-- One of two entries is met, and the check passes. -/
theorem contains_entries_iff_labelsAttribute :
    let v := (Arena.empty "/p").value default labelsAttribute
    let check := Value.object [("env", .text "prod"), ("team", .text "x")]
    v.entries? = some [("env", .text "prod"), ("team", .text "core")] ∧ v.contains check false = true ∧
      ¬ (v.contains check false = true ↔ ∀ e ∈ [("env", Value.text "prod"), ("team", .text "x")],
        EntryMet [("env", .text "prod"), ("team", .text "core")] e) := by
  have henv : EntryMet [("env", .text "prod"), ("team", .text "core")] ("env", .text "prod") :=
    ⟨.text "prod", rfl, matchesCheck_iff.mp (by decide +kernel)⟩
  have hteam : ¬ EntryMet [("env", .text "prod"), ("team", .text "core")] ("team", .text "x") := by
    rintro ⟨actual, hactual, haccepts⟩
    obtain rfl : Value.text "core" = actual := Option.some.inj hactual
    exact absurd (matchesCheck_iff.mpr haccepts) (by decide +kernel)
  have hvalue : ((Arena.empty "/p").value default labelsAttribute).entries?
      = some [("env", .text "prod"), ("team", .text "core")] := rfl
  obtain ⟨hany, hall⟩ := contains_entries_iff hvalue
    (rfl : (Value.object [("env", .text "prod"), ("team", .text "x")]).entries? = some _) false
  refine ⟨hvalue, hany.mpr ⟨_, .head _, henv⟩, fun h => hteam ?_⟩
  exact (hall.mp h).2 ⟨_, .head _, henv⟩ _ (.tail _ (.head _))

/-! ## Lists -/

/-- Whether a value equals an item of a list, or the entry `key` of an item that is a map. -/
def Lists (items : List Value) (v : Value) : Prop :=
  ∃ item ∈ items, (item == v) = true ∨ ∃ entry, item.get? "key" = some entry ∧ (entry == v) = true

section

variable {items : List Value} {item check : Value} {s : String}

theorem beq_text_iff : (item == .text s) = true ↔ item = .text s := by
  change Value.beq item (.text s) = true ↔ item = .text s
  cases item <;> simp [Value.beq]

theorem get?_of_not_map (h : item.isMapLike = false) (key : String) : item.get? key = none := by
  cases item <;> simp_all [Value.isMapLike, Value.entries?, Value.get?]

/-- The text that is compared is that of the item or of its entry `key`; an item is not both a text and a map. -/
theorem itemText?_eq_some_iff : itemText? item = some s ↔ item = .text s ∨ item.get? "key" = some (.text s) := by
  rw [itemText?]
  by_cases hmap : item.isMapLike = true
  · have htext : item ≠ .text s := by
      intro h
      rw [h] at hmap
      cases hmap
    rw [if_pos hmap, or_iff_right htext]
    cases item.get? "key" with
    | none => simp
    | some entry => rw [Option.bind_some, Option.some.injEq, text?_eq_some_iff]
  · have hnone := get?_of_not_map (Bool.not_eq_true _ ▸ hmap) "key"
    rw [if_neg hmap, hnone, text?_eq_some_iff]
    simp

theorem lists_text_iff : Lists items (.text s) ↔ ∃ item ∈ items, itemText? item = some s := by
  simp only [Lists, beq_text_iff, itemText?_eq_some_iff]
  constructor
  · rintro ⟨item, hmem, rfl | ⟨entry, hentry, rfl⟩⟩
    · exact ⟨_, hmem, .inl rfl⟩
    · exact ⟨item, hmem, .inr hentry⟩
  · rintro ⟨item, hmem, h | h⟩
    · exact ⟨item, hmem, .inl h⟩
    · exact ⟨item, hmem, .inr ⟨_, h, rfl⟩⟩

theorem sameIgnoringAsciiCase_self (s : String) : sameIgnoringAsciiCase s s = true := by
  simp [sameIgnoringAsciiCase]

theorem itemsContain_iff : itemsContain items check false = true ↔ Lists items (.text check.display) := by
  rw [itemsContain, List.any_eq_true, lists_text_iff]
  refine exists_congr fun item => and_congr_right fun _ => ?_
  cases itemText? item <;> simp

theorem itemsContain_ignoringCase_iff : itemsContain items check true = true ↔
    ∃ s, sameIgnoringAsciiCase s check.display = true ∧ Lists items (.text s) := by
  rw [itemsContain, List.any_eq_true]
  simp only [lists_text_iff]
  constructor
  · rintro ⟨item, hmem, h⟩
    cases htext : itemText? item with
    | none =>
      rw [htext] at h
      cases h
    | some s =>
      rw [htext] at h
      exact ⟨s, h, item, hmem, htext⟩
  · rintro ⟨s, hsame, item, hmem, htext⟩
    refine ⟨item, hmem, ?_⟩
    rw [htext]
    exact hsame

theorem contains_of_items? {v : Value} (h : v.items? = some items) (check : Value) (ignoreCase : Bool) :
    v.contains check ignoreCase = itemsContain items check ignoreCase := by
  cases v with
  | list _ => cases h; rfl
  | set _ => cases h; rfl
  | _ => cases h

end

/-- An attribute that is a list contains what has a member's text: the text of the check is a member, or differs from
one by the case of letters where this does not count. So it contains every text that is a member, and it meets some of
several checks exactly if the text of one is a member. -/
theorem contains_items_iff {a : Arena} {b : Block} {attr : Attribute} {items : List Value}
    (hvalue : (a.value b attr).items? = some items) :
    (∀ check, (a.value b attr).contains check false = true ↔ Lists items (.text check.display)) ∧
    (∀ check, (a.value b attr).contains check true = true ↔
      ∃ s, sameIgnoringAsciiCase s check.display = true ∧ Lists items (.text s)) ∧
    (∀ s ignoreCase, Lists items (.text s) → (a.value b attr).contains (.text s) ignoreCase = true) ∧
    ∀ checks, (a.value b attr).intersects checks = true ↔ ∃ check ∈ checks, Lists items (.text check.display) := by
  have hplain (check : Value) : (a.value b attr).contains check false = true ↔ Lists items (.text check.display) := by
    rw [contains_of_items? hvalue]
    exact itemsContain_iff
  have hignoring (check : Value) : (a.value b attr).contains check true = true ↔
      ∃ s, sameIgnoringAsciiCase s check.display = true ∧ Lists items (.text s) := by
    rw [contains_of_items? hvalue]
    exact itemsContain_ignoringCase_iff
  refine ⟨hplain, hignoring, ?_, ?_⟩
  · intro s ignoreCase hlists
    cases ignoreCase with
    | false => exact (hplain (.text s)).mpr hlists
    | true => exact (hignoring (.text s)).mpr ⟨s, sameIgnoringAsciiCase_self s, hlists⟩
  · intro checks
    have hlist : (a.value b attr).isListLike = true := by rw [Value.isListLike, hvalue, Option.isSome_some]
    rw [Value.intersects, hlist, Bool.true_and, List.any_eq_true]
    exact exists_congr fun check => and_congr_right fun _ => hplain check

/-- `ports = [80, "443", { key = true }, { key = "Owner" }]` -/
def portsAttribute : Attribute :=
  ⟨"ports", .list [.number (.int 80), .text "443", .object [(.name "key", .bool true)],
    .object [(.name "key", .text "Owner")]], default⟩

/-- The member 80 is not found, the member "443" is found by the number 443 too. -/
theorem contains_items_iff_portsAttribute :
    let v := (Arena.empty "/p").value default portsAttribute
    ∃ items, v.items? = some items ∧ Lists items (.int 80) ∧ v.contains (.int 80) false = false ∧
      Lists items (.bool true) ∧ v.contains (.bool true) true = false ∧
      v.contains (.int 443) false = true ∧ v.contains (.text "owner") true = true ∧
      v.intersects [.int 80, .text "Owner"] = true := by
  have hvalue : ((Arena.empty "/p").value default portsAttribute).items? = some [.int 80, .text "443",
      .object [("key", .bool true)], .object [("key", .text "Owner")]] := rfl
  obtain ⟨hplain, hignoring, -, hintersects⟩ := contains_items_iff hvalue
  refine ⟨_, hvalue, ⟨_, .head _, .inl (by decide +kernel)⟩, by decide +kernel, ?_, by decide +kernel, ?_, ?_, ?_⟩
  · exact ⟨_, .tail _ (.tail _ (.head _)), .inr ⟨.bool true, rfl, by decide +kernel⟩⟩
  · exact (hplain (.int 443)).mpr ⟨_, .tail _ (.head _), .inl (by decide +kernel)⟩
  · exact (hignoring (.text "owner")).mpr ⟨"Owner", by decide +kernel, _, .tail _ (.tail _ (.tail _ (.head _))),
      .inr ⟨_, rfl, by decide +kernel⟩⟩
  · exact (hintersects _).mpr ⟨.text "Owner", .tail _ (.head _), _, .tail _ (.tail _ (.tail _ (.head _))),
      .inr ⟨_, rfl, by decide +kernel⟩⟩

/-! ## Attributes without a value -/

/-- What can be asked of an attribute, with the arguments of the question. Numbers are compared in any way. -/
inductive Check where
  | contains (check : Value) (ignoreCase : Bool)
  | startsWith (check : Value)
  | endsWith (check : Value)
  | equals (check : Value) (ignoreCase : Bool)
  | matchesPattern (pattern : String)
  | isAny (options : List Value)
  | isNone (options : List Value)
  | isTrue
  | isFalse
  | isBlank
  | compares (check : Value) (holds : Float → Float → Bool)
  | intersects (checks : List Value)

/-- Whether an attribute passes a check. -/
def Check.passes (a : Arena) (b : Block) (attr : Attribute) : Check → Bool
  | contains check ignoreCase => (a.value b attr).contains check ignoreCase
  | startsWith check => (a.value b attr).startsWith check
  | endsWith check => (a.value b attr).endsWith check
  | equals check ignoreCase => (a.value b attr).equals check ignoreCase
  | matchesPattern pattern => (a.value b attr).matchesPattern pattern
  | isAny options => (a.value b attr).isAny options
  | isNone options => (a.value b attr).isNone options
  | isTrue => (a.value b attr).isTrue
  | isFalse => (a.value b attr).isFalse
  | isBlank => a.isBlank b attr
  | compares check holds => (a.value b attr).compare check holds
  | intersects checks => (a.value b attr).intersects checks

section

variable {a : Arena} {b : Block} {attr : Attribute} {reason : AttributeProblem}

theorem value_of_error (h : a.evaluate b.scope attr.value = .error reason) : a.value b attr = .null := by
  rw [Arena.value, h]
  rfl

theorem isBlank_of_error (h : a.evaluate b.scope attr.value = .error reason) : a.isBlank b attr = false := by
  rw [Arena.isBlank, h]

/-- An attribute that has no value, because it depends on something unknown or its expression fails, passes exactly the
checks for being none of some options, whatever the options are. So every other check that is passed tells that the
attribute has a value. -/
theorem passes_unresolved_iff (h : a.evaluate b.scope attr.value = .error reason) (check : Check) :
    check.passes a b attr = true ↔ ∃ options, check = .isNone options := by
  cases check with
  | isNone options =>
    rw [Check.passes, value_of_error h]
    exact iff_of_true rfl ⟨options, rfl⟩
  | isBlank =>
    rw [Check.passes, isBlank_of_error h]
    simp
  | _ => simp [Check.passes, value_of_error h, Value.contains, Value.startsWith, Value.endsWith, Value.equals,
      Value.matchesPattern, Value.isAny, Value.isTrue, Value.isFalse, Value.compare, Value.float?, Value.number?,
      Value.intersects, Value.isListLike, Value.items?]

end

/-- `missing = var.undefined` -/
def missingAttribute : Attribute :=
  ⟨"missing", .traversal (.variable "var") [.attribute "undefined"], default⟩

theorem passes_unresolved_iff_missingAttribute :
    let a := Arena.empty "/p"
    (∃ reason, a.evaluate (default : Block).scope missingAttribute.value = .error reason) ∧
      (Check.isNone [.text "x"]).passes a default missingAttribute = true ∧
      (Check.isAny [.null]).passes a default missingAttribute = false := by
  have h : ∃ reason, (Arena.empty "/p").evaluate (default : Block).scope missingAttribute.value = .error reason :=
    ⟨_, rfl⟩
  obtain ⟨reason, hreason⟩ := h
  refine ⟨⟨reason, hreason⟩, (passes_unresolved_iff hreason _).mpr ⟨_, rfl⟩, ?_⟩
  rw [Bool.eq_false_iff, ne_eq, passes_unresolved_iff hreason]
  simp

end InfraConfig
