import Mathlib.Data.List.Forall2
import InfraConfig.Proofs.FunctionCalls
import InfraConfig.Proofs.RunLaws

/-!
# Formatted texts

A layout is read once from left to right, and so are the arguments, one for each verb. A layout that is formatted with
just as many arguments as it has verbs leaves nothing of either for what follows it, so layouts and their arguments can be
written one after another. Rows of arguments are formatted for themselves, in order, until one has no result.
-/

namespace InfraConfig

namespace Functions

/-! ## Layouts one after another -/

/-- How many arguments a layout takes. -/
def verbCount : List Char → Nat
  | [] => 0
  | '%' :: '%' :: rest => verbCount rest
  | '%' :: verb :: rest => verbCount rest + if isVerb verb then 1 else 0
  | _ :: rest => verbCount rest

/-- The text of a layout with just the arguments that it takes. -/
inductive Formats : List Char → List Datum → List Char → Prop
  | nil : Formats [] [] []
  | percent {layout args out} (rest : Formats layout args out) :
    Formats ('%' :: '%' :: layout) args ('%' :: out)
  | verb {verb layout arg args text out} (hverb : isVerb verb = true) (htext : verbText verb arg = .ok text)
    (rest : Formats layout args out) : Formats ('%' :: verb :: layout) (arg :: args) (text.toList ++ out)
  | char {c layout args out} (hc : c ≠ '%') (rest : Formats layout args out) :
    Formats (c :: layout) args (c :: out)

variable {layout out : List Char} {args : List Datum}

theorem ne_percent_of_isVerb {c : Char} (h : isVerb c = true) : c ≠ '%' := by
  rintro rfl
  exact absurd h (by decide)

theorem formatFrom_percent (rest : List Char) (args : List Datum) :
    formatFrom ('%' :: '%' :: rest) args = (formatFrom rest args).map (['%'] ++ ·) := by
  rw [formatFrom]
  rfl

theorem formatFrom_verb {verb : Char} {arg : Datum} {text : String} (hverb : isVerb verb = true)
    (htext : verbText verb arg = .ok text) (rest : List Char) (args : List Datum) :
    formatFrom ('%' :: verb :: rest) (arg :: args) = (formatFrom rest args).map (text.toList ++ ·) := by
  rw [formatFrom, if_pos hverb, htext]
  · cases formatFrom rest args with
    | error e => rfl
    | ok tail => rfl
  · exact ne_percent_of_isVerb hverb

theorem formatFrom_char {c : Char} (hc : c ≠ '%') (rest : List Char) (args : List Datum) :
    formatFrom (c :: rest) args = (formatFrom rest args).map ([c] ++ ·) := by
  rw [formatFrom]
  · rfl
  all_goals simp [hc]

theorem verbCount_verb {verb : Char} (hverb : isVerb verb = true) (rest : List Char) :
    verbCount ('%' :: verb :: rest) = verbCount rest + 1 := by
  rw [verbCount, if_pos hverb]
  exact ne_percent_of_isVerb hverb

theorem verbCount_char {c : Char} (hc : c ≠ '%') (rest : List Char) : verbCount (c :: rest) = verbCount rest := by
  rw [verbCount] <;> simp [hc]

theorem map_append_map {ε α : Type} (x : Except ε (List α)) (before after : List α) :
    (x.map (after ++ ·)).map (before ++ ·) = x.map (before ++ after ++ ·) := by
  cases x with
  | error e => rfl
  | ok rest => exact congrArg _ (List.append_assoc before after rest).symm

/-- A layout that has a text takes its arguments from the start of those that it is given. -/
theorem formats_of_formatFrom (h : formatFrom layout args = .ok out) :
    Formats layout (args.take (verbCount layout)) out := by
  fun_induction formatFrom layout args generalizing out with
  | case1 args =>
    obtain rfl := Except.ok.inj h
    exact .nil
  | case2 rest args ih =>
    obtain ⟨tail, htail, rfl⟩ := map_eq_ok_iff.mp h
    rw [verbCount]
    exact .percent (ih htail)
  | case3 args => cases h
  | case4 verb rest hne hverb => cases h
  | case5 verb rest hne hverb arg args ih =>
    obtain ⟨text, htext, h⟩ := bind_eq_ok_iff.mp h
    obtain ⟨tail, htail, h⟩ := bind_eq_ok_iff.mp h
    obtain rfl := Except.ok.inj h
    rw [verbCount_verb hverb]
    exact .verb hverb htext (ih htail)
  | case6 verb rest args hne hverb => cases h
  | case7 c rest args hpercent hend hverb ih =>
    -- A percent sign is followed by something or by nothing, and both were cases before.
    have hc : c ≠ '%' := by
      rintro rfl
      cases rest with
      | nil => exact hend rfl rfl
      | cons verb rest => exact hverb verb rest rfl rfl
    obtain ⟨tail, htail, rfl⟩ := map_eq_ok_iff.mp h
    rw [verbCount_char hc]
    exact .char hc (ih htail)

/-- What follows a layout is formatted with the arguments that follow those of the layout. -/
theorem Formats.append (h : Formats layout args out) (layout' : List Char) (args' : List Datum) :
    formatFrom (layout ++ layout') (args ++ args') = (formatFrom layout' args').map (out ++ ·) := by
  induction h with
  | nil => exact (congrFun Except.map_id _).symm
  | percent _ ih => rw [List.cons_append, List.cons_append, formatFrom_percent, ih, map_append_map]; rfl
  | verb hverb htext _ ih =>
    rw [List.cons_append, List.cons_append, List.cons_append, formatFrom_verb hverb htext, ih, map_append_map]
  | char hc _ ih => rw [List.cons_append, formatFrom_char hc, ih, map_append_map]; rfl

/-- A text with every percent sign twice. -/
def escapePercent (s : String) : String :=
  .ofList (s.toList.flatMap fun c => if c = '%' then ['%', '%'] else [c])

theorem formats_escapePercent (cs : List Char) :
    Formats (cs.flatMap fun c => if c = '%' then ['%', '%'] else [c]) [] cs := by
  induction cs with
  | nil => exact .nil
  | cons c cs ih =>
    rw [List.flatMap_cons]
    split_ifs with hc
    · subst hc
      exact .percent ih
    · exact .char hc ih

/-! ## Texts of layouts -/

variable {s : String}

/-- Further arguments are not read. -/
theorem Formats.format (h : Formats s.toList args out) (more : List Datum) :
    format s (args ++ more) = .ok (.ofList out) := by
  have happend := h.append [] more
  rw [List.append_nil, formatFrom] at happend
  rw [Functions.format, happend]
  simp [Except.map]

theorem format_append {before : String} (h : format before args = .ok s) (hcount : verbCount before.toList = args.length)
    (after : String) (args' : List Datum) :
    format (before ++ after) (args ++ args') = (format after args').map (s ++ ·) := by
  obtain ⟨out, hout, rfl⟩ := map_eq_ok_iff.mp h
  have hformats := formats_of_formatFrom hout
  rw [hcount, List.take_length] at hformats
  rw [format, format, String.toList_append, hformats.append]
  cases formatFrom after.toList args' with
  | error e => rfl
  | ok tail => exact congrArg Except.ok String.ofList_append

theorem format_escapePercent (s : String) (args : List Datum) : format (escapePercent s) args = .ok s := by
  have hformats : Formats (escapePercent s).toList [] s.toList := by
    rw [escapePercent, String.toList_ofList]
    exact formats_escapePercent s.toList
  have hformat := hformats.format args
  rwa [List.nil_append, String.ofList_toList] at hformat

theorem answers_ofLayout {α : Type} {name : String} {f : String → List Datum → Except FunctionError α} {g : α → Datum}
    (hfind : find? name = some ⟨[.string], some .any, fun args => do return g (← f (← textAt args 0) (args.drop 1))⟩)
    (layout : String) (args : List Datum) : Answers name (.text layout :: args) ((f layout args).map g) := by
  have hanswer : Answers name (.text layout :: args) (do return g (← f layout args)) :=
    .ofFirst hfind rfl fun _ _ => rfl
  cases hresult : f layout args with
  | error e => rwa [hresult] at hanswer
  | ok result => rwa [hresult] at hanswer

theorem answers_format (layout : String) (args : List Datum) :
    Answers "format" (.text layout :: args) ((format layout args).map .text) :=
  answers_ofLayout rfl layout args

theorem answers_formatlist (layout : String) (args : List Datum) :
    Answers "formatlist" (.text layout :: args) ((formatList layout args).map .list) :=
  answers_ofLayout rfl layout args

theorem answers_format_iff {layout : String} {answer : Except FunctionError Datum} :
    Answers "format" (.text layout :: args) answer ↔ (format layout args).map .text = answer :=
  ⟨fun h => (answers_format layout args).unique h, fun h => h ▸ answers_format layout args⟩

theorem answers_formatlist_iff {layout : String} {answer : Except FunctionError Datum} :
    Answers "formatlist" (.text layout :: args) answer ↔ (formatList layout args).map .list = answer :=
  ⟨fun h => (answers_formatlist layout args).unique h, fun h => h ▸ answers_formatlist layout args⟩

/-! ## Rows of arguments -/

/-- The lengths of the lists among arguments. -/
def listLengths (args : List Datum) : List Nat :=
  args.filterMap fun
    | .list items => some items.length
    | _ => none

/-- How many rows arguments make: as many as each list has items, and one without lists. -/
structure RowCount (args : List Datum) (n : Nat) : Prop where
  length_eq : ∀ m ∈ listLengths args, m = n
  eq_one : listLengths args = [] → n = 1

/-- An argument in a row: the item of a list at the position of the row, and anything else as it is. -/
def IsCell (i : Nat) : Datum → Datum → Prop
  | .list items, d => items[i]? = some d
  | arg, d => d = arg

/-- What `format` answers to a row of arguments. -/
def RowAnswers (layout : String) (args : List Datum) (i : Nat) (answer : Except FunctionError Datum) : Prop :=
  ∃ row, List.Forall₂ (IsCell i) args row ∧ Answers "format" (.text layout :: row) answer

variable {n m : Nat}

theorem listLengths_list (items args : List Datum) :
    listLengths (.list items :: args) = items.length :: listLengths args := rfl

theorem listLengths_of_ne_list {arg : Datum} (harg : ∀ items, arg = .list items → False) (args : List Datum) :
    listLengths (arg :: args) = listLengths args := by
  cases arg with
  | list items => exact absurd rfl (harg items)
  | _ => rfl

/-- The common length is that of all lists and of no others, or two lists have different lengths. -/
theorem commonLength_cases (args : List Datum) :
    (∃ o, commonLength args = .ok o ∧ ∀ m, m ∈ listLengths args ↔ o = some m) ∨
      commonLength args = .error .unequalLengths ∧ ∃ m ∈ listLengths args, ∃ n ∈ listLengths args, m ≠ n := by
  induction args using commonLength.induct with
  | case1 => exact .inl ⟨none, rfl, by simp [listLengths]⟩
  | case2 items rest ih =>
    rw [listLengths_list, commonLength]
    rcases ih with ⟨o, hrest, hlengths⟩ | ⟨hrest, m, hm, n, hn, hne⟩
    · rw [hrest]
      cases o with
      | none => exact .inl ⟨some items.length, rfl, fun m => by simp [hlengths, eq_comm]⟩
      | some n =>
        have hn : n ∈ listLengths rest := (hlengths n).mpr rfl
        by_cases hlength : n = items.length
        · refine .inl ⟨some n, if_pos hlength, fun m => ?_⟩
          rw [List.mem_cons, hlengths, ← hlength, Option.some_inj, eq_comm, or_self]
        · exact .inr ⟨if_neg hlength, items.length, List.mem_cons_self, n, List.mem_cons_of_mem _ hn, Ne.symm hlength⟩
    · rw [hrest]
      exact .inr ⟨rfl, m, List.mem_cons_of_mem _ hm, n, List.mem_cons_of_mem _ hn, hne⟩
  | case3 arg rest harg ih =>
    rw [listLengths_of_ne_list harg, commonLength]
    · exact ih
    · exact harg

/-- Arguments make rows, or two lists have different lengths. -/
theorem formatList_cases (layout : String) (args : List Datum) :
    (∃ n, RowCount args n ∧ formatList layout args = formatRows layout args (List.range n)) ∨
      formatList layout args = .error .unequalLengths ∧
        ∃ m ∈ listLengths args, ∃ n ∈ listLengths args, m ≠ n := by
  rw [formatList]
  rcases commonLength_cases args with ⟨o, hcommon, hlengths⟩ | ⟨hcommon, hunequal⟩
  · have hcount : RowCount args (o.getD 1) := by
      constructor
      · intro m hm
        rw [(hlengths m).mp hm, Option.getD_some]
      · intro hnone
        cases o with
        | none => rfl
        | some m =>
          have hm : m ∈ listLengths args := (hlengths m).mpr rfl
          rw [hnone] at hm
          cases hm
    exact .inl ⟨o.getD 1, hcount, by rw [hcommon]; rfl⟩
  · exact .inr ⟨by rw [hcommon]; rfl, hunequal⟩

theorem RowCount.unique (h : RowCount args n) (h' : RowCount args m) : n = m := by
  cases hlengths : listLengths args with
  | nil => rw [h.eq_one hlengths, h'.eq_one hlengths]
  | cons k rest =>
    have hk : k ∈ listLengths args := hlengths ▸ List.mem_cons_self
    rw [← h.length_eq k hk, h'.length_eq k hk]

theorem RowCount.length_items (h : RowCount args n) {items : List Datum} (hitems : .list items ∈ args) :
    items.length = n :=
  h.length_eq items.length (List.mem_filterMap.mpr ⟨.list items, hitems, rfl⟩)

/-- There is one row at a position at which each list has an item. -/
theorem forall₂_isCell_iff {i : Nat} (h : ∀ items, .list items ∈ args → i < items.length) {cells : List Datum} :
    List.Forall₂ (IsCell i) args cells ↔ cells = row i args := by
  induction args generalizing cells with
  | nil => exact List.forall₂_nil_left_iff
  | cons arg args ih =>
    have hrest (cells : List Datum) : List.Forall₂ (IsCell i) args cells ↔ cells = row i args :=
      ih fun items hitems => h items (List.mem_cons_of_mem arg hitems)
    rw [List.forall₂_cons_left_iff]
    simp only [hrest]
    cases arg with
    | list items =>
      have hi : i < items.length := h items List.mem_cons_self
      simp [IsCell, row, hi]
    | _ => simp [IsCell, row]

/-- What the row of arguments at a position comes to. -/
def rowText (layout : String) (args : List Datum) (i : Nat) : Except FunctionError Datum :=
  (format layout (row i args)).map .text

theorem rowAnswers_iff {layout : String} {i : Nat} {answer : Except FunctionError Datum} (h : RowCount args n)
    (hi : i < n) : RowAnswers layout args i answer ↔ rowText layout args i = answer := by
  have hitems (items : List Datum) (hmem : .list items ∈ args) : i < items.length := h.length_items hmem ▸ hi
  simp only [RowAnswers, forall₂_isCell_iff hitems, exists_eq_left, answers_format_iff, rowText]

variable {layout : String} {positions : List Nat} {e : FunctionError}

theorem formatRows_cons (layout : String) (args : List Datum) (i : Nat) (positions : List Nat) :
    formatRows layout args (i :: positions) = (do
      let d ← rowText layout args i
      let more ← formatRows layout args positions
      .ok (d :: more)) := by
  rw [formatRows, rowText]
  cases format layout (row i args) with
  | error e => rfl
  | ok s => rfl

theorem formatRows_eq_ok_iff {results : List Datum} : formatRows layout args positions = .ok results ↔
    List.Forall₂ (fun i d => rowText layout args i = .ok d) positions results := by
  induction positions generalizing results with
  | nil => simp [formatRows, eq_comm]
  | cons i positions ih =>
    simp only [formatRows_cons, bind_eq_ok_iff, List.forall₂_cons_left_iff, ih, Except.ok.injEq]
    constructor
    · rintro ⟨d, hd, more, hmore, rfl⟩
      exact ⟨d, more, hd, hmore, rfl⟩
    · rintro ⟨d, more, hd, hmore, rfl⟩
      exact ⟨d, hd, more, hmore, rfl⟩

/-- The first row without a text says why there are none. -/
theorem formatRows_eq_error_iff : formatRows layout args positions = .error e ↔
    ∃ (k : Nat) (_ : k < positions.length), rowText layout args positions[k] = .error e ∧
      ∀ (j : Nat) (_ : j < k), ∃ d, rowText layout args positions[j] = .ok d := by
  induction positions with
  | nil => simp [formatRows]
  | cons i positions ih =>
    rw [formatRows_cons]
    cases hrow : rowText layout args i with
    | error e' =>
      change Except.error e' = .error e ↔ _
      constructor
      · intro h
        obtain rfl := Except.error.inj h
        exact ⟨0, Nat.zero_lt_succ _, hrow, nofun⟩
      · rintro ⟨k, hk, hfails, hbefore⟩
        cases k with
        | zero => exact congrArg _ (Except.error.inj (hrow.symm.trans hfails))
        | succ k =>
          obtain ⟨d, hd⟩ := hbefore 0 (Nat.zero_lt_succ k)
          cases hrow.symm.trans hd
    | ok d =>
      have hrest : (do let more ← formatRows layout args positions; .ok (d :: more)) = Except.error e ↔
          formatRows layout args positions = .error e := by
        cases formatRows layout args positions with
        | error e' => exact Iff.rfl
        | ok more => exact ⟨nofun, nofun⟩
      refine hrest.trans (ih.trans ?_)
      -- The first row has a text, so positions among the other rows are one further on.
      constructor
      · rintro ⟨k, hk, hfails, hbefore⟩
        refine ⟨k + 1, Nat.succ_lt_succ hk, hfails, fun j hj => ?_⟩
        cases j with
        | zero => exact ⟨d, hrow⟩
        | succ j => exact hbefore j (Nat.lt_of_succ_lt_succ hj)
      · rintro ⟨k, hk, hfails, hbefore⟩
        cases k with
        | zero => cases hrow.symm.trans hfails
        | succ k => exact ⟨k, Nat.lt_of_succ_lt_succ hk, hfails, fun j hj => hbefore (j + 1) (Nat.succ_lt_succ hj)⟩

theorem RowCount.not_unequal (h : RowCount args n) : ¬ ∃ j ∈ listLengths args, ∃ k ∈ listLengths args, j ≠ k := by
  rintro ⟨j, hj, k, hk, hne⟩
  exact hne ((h.length_eq j hj).trans (h.length_eq k hk).symm)

theorem formatList_eq_ok_iff {results : List Datum} : formatList layout args = .ok results ↔
    ∃ n, RowCount args n ∧ List.Forall₂ (fun i d => RowAnswers layout args i (.ok d)) (List.range n) results := by
  have hrows {n : Nat} (hcount : RowCount args n) : formatRows layout args (List.range n) = .ok results ↔
      List.Forall₂ (fun i d => RowAnswers layout args i (.ok d)) (List.range n) results := by
    rw [formatRows_eq_ok_iff, List.forall₂_iff_get, List.forall₂_iff_get]
    refine and_congr_right fun _ => forall_congr' fun i => forall_congr' fun hi => forall_congr' fun _ => ?_
    rw [List.get_eq_getElem, List.getElem_range, rowAnswers_iff hcount (by simpa using hi)]
  rcases formatList_cases layout args with ⟨n, hcount, heq⟩ | ⟨heq, hunequal⟩
  · rw [heq, hrows hcount]
    exact ⟨fun h => ⟨n, hcount, h⟩, fun ⟨m, hcount', h⟩ => hcount.unique hcount' ▸ h⟩
  · rw [heq]
    exact ⟨nofun, fun ⟨n, hcount, _⟩ => absurd hunequal hcount.not_unequal⟩

theorem formatList_eq_error_iff : formatList layout args = .error e ↔
    (e = .unequalLengths ∧ ∃ m ∈ listLengths args, ∃ n ∈ listLengths args, m ≠ n) ∨
      ∃ n, RowCount args n ∧ ∃ i < n, RowAnswers layout args i (.error e) ∧
        ∀ j < i, ∃ d, RowAnswers layout args j (.ok d) := by
  rcases formatList_cases layout args with ⟨n, hcount, heq⟩ | ⟨heq, hunequal⟩
  · rw [heq, formatRows_eq_error_iff]
    simp only [List.length_range, List.getElem_range]
    constructor
    · rintro ⟨i, hi, hfails, hbefore⟩
      refine .inr ⟨n, hcount, i, hi, (rowAnswers_iff hcount hi).mpr hfails, fun j hj => ?_⟩
      obtain ⟨d, hd⟩ := hbefore j hj
      exact ⟨d, (rowAnswers_iff hcount (Nat.lt_trans hj hi)).mpr hd⟩
    · rintro (⟨-, hunequal⟩ | ⟨m, hcount', i, hi, hfails, hbefore⟩)
      · exact absurd hunequal hcount.not_unequal
      · obtain rfl := hcount.unique hcount'
        refine ⟨i, hi, (rowAnswers_iff hcount hi).mp hfails, fun j hj => ?_⟩
        obtain ⟨d, hd⟩ := hbefore j hj
        exact ⟨d, (rowAnswers_iff hcount (Nat.lt_trans hj hi)).mp hd⟩
  · rw [heq]
    constructor
    · intro h
      exact .inl ⟨(Except.error.inj h).symm, hunequal⟩
    · rintro (⟨rfl, -⟩ | ⟨n, hcount, -⟩)
      · rfl
      · exact absurd hunequal hcount.not_unequal

end Functions

open Functions (Answers RowAnswers RowCount answers_format_iff answers_formatlist_iff escapePercent format_append
  format_escapePercent formatList_eq_error_iff formatList_eq_ok_iff listLengths verbCount)

/-- Layouts and their arguments are formatted one after another: with a layout that has a text and takes all of its
arguments, what follows is formatted as it is alone, and has no text for the same reason. A text with its percent signs
doubled is a layout of that text, whatever the arguments. The texts of rows are those of their layout with an item of each
list and everything else as it is, and there are none if lists have different lengths or if a row has none, for the reason
of the first such row. -/
theorem format_compositional :
    (∀ (before after s : String) (args more : List Datum), Answers "format" (.text before :: args) (.ok (.text s)) →
      verbCount before.toList = args.length →
      ∃ answer : Except FunctionError String, Answers "format" (.text after :: more) (answer.map .text) ∧
        Answers "format" (.text (before ++ after) :: (args ++ more)) ((answer.map (s ++ ·)).map .text)) ∧
    (∀ (s : String) (args : List Datum), Answers "format" (.text (escapePercent s) :: args) (.ok (.text s))) ∧
    ∀ (layout : String) (args : List Datum),
      (∀ answer, Answers "formatlist" (.text layout :: args) (.ok answer) ↔
        ∃ n results, answer = .list results ∧ RowCount args n ∧
          List.Forall₂ (fun i d => RowAnswers layout args i (.ok d)) (List.range n) results) ∧
      ∀ e, Answers "formatlist" (.text layout :: args) (.error e) ↔
        (e = .unequalLengths ∧ ∃ m ∈ listLengths args, ∃ n ∈ listLengths args, m ≠ n) ∨
          ∃ n, RowCount args n ∧ ∃ i < n, RowAnswers layout args i (.error e) ∧
            ∀ j < i, ∃ d, RowAnswers layout args j (.ok d) := by
  refine ⟨?_, ?_, fun layout args => ⟨fun answer => ?_, fun e => ?_⟩⟩
  · intro before after s args more hbefore hcount
    obtain ⟨s', hs, hs'⟩ := map_eq_ok_iff.mp (answers_format_iff.mp hbefore)
    obtain rfl := Datum.text.inj hs'
    refine ⟨Functions.format after more, answers_format_iff.mpr rfl, answers_format_iff.mpr ?_⟩
    rw [format_append hs hcount]
  · intro s args
    rw [answers_format_iff, format_escapePercent]
    rfl
  · rw [answers_formatlist_iff, map_eq_ok_iff]
    simp only [formatList_eq_ok_iff]
    constructor
    · rintro ⟨results, ⟨n, hcount, hrows⟩, rfl⟩
      exact ⟨n, results, rfl, hcount, hrows⟩
    · rintro ⟨n, results, rfl, hcount, hrows⟩
      exact ⟨results, ⟨n, hcount, hrows⟩, rfl⟩
  · rw [answers_formatlist_iff, ← formatList_eq_error_iff]
    cases Functions.formatList layout args with
    | error e' => exact ⟨fun h => congrArg _ (Except.error.inj h), fun h => congrArg _ (Except.error.inj h)⟩
    | ok results => exact ⟨nofun, nofun⟩

/-- What follows a percent sign that is written twice is read by itself, and a row has an item of each list beside what
is repeated in all rows. -/
theorem format_compositional_mixedRows :
    (Answers "format" [.text "%d%%", .int 5] (.ok (.text "5%")) ∧ verbCount "%d%%".toList = [Datum.int 5].length ∧
      Answers "format" [.text "%d%% of %s", .int 5, .text "all"] (.ok (.text "5% of all"))) ∧
    Answers "formatlist" [.text "%s-%d", .list [.text "a", .text "b"], .int 1]
      (.ok (.list [.text "a-1", .text "b-1"])) ∧
    Answers "formatlist" [.text "%s-%d", .list [.text "a"], .list []] (.error .unequalLengths) := by
  have hbefore : Answers "format" [.text "%d%%", .int 5] (.ok (.text "5%")) := answers_format_iff.mpr rfl
  have hafter : Answers "format" [.text " of %s", .text "all"] (.ok (.text " of all")) := answers_format_iff.mpr rfl
  obtain ⟨hformat, -, hrows⟩ := format_compositional
  obtain ⟨answer, hanswer, hboth⟩ := hformat "%d%%" " of %s" "5%" [.int 5] [.text "all"] hbefore rfl
  obtain ⟨rest, rfl, hrest⟩ := map_eq_ok_iff.mp (hanswer.unique hafter)
  obtain rfl := Datum.text.inj hrest
  refine ⟨⟨hbefore, rfl, hboth⟩, ((hrows _ _).1 _).mpr ⟨2, _, rfl, ?_, ?_⟩, ((hrows _ _).2 _).mpr ?_⟩
  · have hlengths : listLengths [.list [.text "a", .text "b"], .int 1] = [2] := rfl
    exact ⟨by simp [hlengths], by simp [hlengths]⟩
  · have hfirst : RowAnswers "%s-%d" [.list [.text "a", .text "b"], .int 1] 0 (.ok (.text "a-1")) :=
      ⟨[.text "a", .int 1], .cons rfl (.cons rfl .nil), answers_format_iff.mpr rfl⟩
    have hsecond : RowAnswers "%s-%d" [.list [.text "a", .text "b"], .int 1] 1 (.ok (.text "b-1")) :=
      ⟨[.text "b", .int 1], .cons rfl (.cons rfl .nil), answers_format_iff.mpr rfl⟩
    exact .cons hfirst (.cons hsecond .nil)
  · have hlengths : listLengths [.list [.text "a"], .list []] = [1, 0] := rfl
    exact .inl ⟨rfl, 1, by simp [hlengths], 0, by simp [hlengths], by decide⟩

end InfraConfig
