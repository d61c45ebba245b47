import InfraConfig.Encoding.Bytes
import InfraConfig.SourceRange
import InfraConfig.Proofs.LabelKeys
import Mathlib.Data.List.Forall2

/-!
# Lines of a source

Where a line starts is known in bytes, and a line is found by searching among these starts. What is read of a range are
lines of the text between line feeds. Both count the same lines: a range that is made for some bytes of a source reads
the lines that hold them, with the comments above.
-/

namespace InfraConfig

/-! ## Searching -/

section

variable {xs : Array Nat} {x low high n : Nat}

/-- How many of the numbers in an ascending array are at most `x`. -/
structure IsRank (xs : Array Nat) (x n : Nat) : Prop where
  le_size : n ≤ xs.size
  le_of_lt : ∀ i (hi : i < xs.size), i < n → xs[i] ≤ x
  lt_of_le : ∀ i (hi : i < xs.size), n ≤ i → x < xs[i]

/-- The number of elements up to the place that a search gives, the found one included. -/
def SearchResult.rank : SearchResult → Nat
  | found i => i + 1
  | missing i => i

theorem getElem_lt_of_ascending (hsorted : xs.toList.Pairwise (· < ·)) {i j : Nat} (hj : j < xs.size) (hij : i < j) :
    xs[i] < xs[j] := by
  have hi : i < xs.toList.length := by simpa using Nat.lt_trans hij hj
  exact List.pairwise_iff_getElem.mp hsorted i j hi (by simpa using hj) hij

/-- What a search has left out is smaller in front and greater behind. Where it ends, nothing is left between them, or
the number is found. -/
theorem isRank_searchBetween (h : high ≤ xs.size) (hsorted : xs.toList.Pairwise (· < ·)) (hle : low ≤ high)
    (hfront : ∀ i (hi : i < xs.size), i < low → xs[i] < x) (hback : ∀ i (hi : i < xs.size), high ≤ i → x < xs[i]) :
    IsRank xs x (searchBetween xs x low high h).rank := by
  fun_induction searchBetween xs x low high h with
  | case1 low high h hlow hmiddle y hfound =>
    refine ⟨hmiddle, fun i hi hlt => ?_, fun i hi hgt => hfound ▸ getElem_lt_of_ascending hsorted hi hgt⟩
    rcases Nat.lt_or_eq_of_le (Nat.le_of_lt_succ hlt) with hlt | rfl
    · exact hfound ▸ Nat.le_of_lt (getElem_lt_of_ascending hsorted hmiddle hlt)
    · exact Nat.le_of_eq hfound
  | case2 low high h hlow hmiddle y hne hless ih =>
    refine ih (by omega) (fun i hi hlt => ?_) hback
    rcases Nat.lt_or_eq_of_le (Nat.le_of_lt_succ hlt) with hlt | rfl
    · exact Nat.lt_trans (getElem_lt_of_ascending hsorted hmiddle hlt) hless
    · exact hless
  | case3 low high h hlow hmiddle y hne hless ih =>
    have hgreater : x < xs[(low + high) / 2] := by omega
    refine ih (by omega) hfront fun i hi hle => ?_
    rcases Nat.lt_or_eq_of_le hle with hlt | rfl
    · exact Nat.lt_trans hgreater (getElem_lt_of_ascending hsorted hi hlt)
    · exact hgreater
  | case4 low high h hlow =>
    refine ⟨Nat.le_trans hle h, fun i hi hlt => Nat.le_of_lt (hfront i hi hlt), fun i hi hge => hback i hi ?_⟩
    exact Nat.le_trans (Nat.le_of_not_lt hlow) hge

theorem IsRank.countP_eq (h : IsRank xs x n) : xs.toList.countP (· ≤ x) = n := by
  have hfront : (xs.toList.take n).countP (· ≤ x) = (xs.toList.take n).length := by
    refine List.countP_eq_length.mpr fun y hy => ?_
    obtain ⟨i, hi, rfl⟩ := List.mem_take_iff_getElem.mp hy
    exact decide_eq_true (h.le_of_lt i (by simpa using (Nat.lt_min.mp hi).2) (Nat.lt_min.mp hi).1)
  have hback : (xs.toList.drop n).countP (· ≤ x) = 0 := by
    refine List.countP_eq_zero.mpr fun y hy => ?_
    obtain ⟨i, hi, rfl⟩ := List.mem_drop_iff_getElem.mp hy
    have hi : n + i < xs.size := by simpa [Nat.add_comm] using hi
    simpa using h.lt_of_le (n + i) hi (Nat.le_add_right n i)
  rw [← List.take_append_drop n xs.toList, List.countP_append, hfront, hback, List.length_take, Array.length_toList,
    Nat.min_eq_left h.le_size, Nat.add_zero]

end

/-! ## Bytes -/

section

variable {c : Char} {o : Nat}

theorem utf8Length_cons (c : Char) (cs : List Char) : utf8Length (c :: cs) = c.utf8Size + utf8Length cs := rfl

/-- The bytes of characters in UTF-8. -/
def charBytes (cs : List Char) : List UInt8 :=
  cs.flatMap String.utf8EncodeChar

theorem toListLoop_eq (bytes : ByteArray) (i : Nat) (done : List UInt8) :
    ByteArray.toList.loop bytes i done = done.reverse ++ bytes.data.toList.drop i := by
  fun_induction ByteArray.toList.loop bytes i done with
  | case1 i done h ih =>
    have hi : i < bytes.data.toList.length := by simpa using h
    rw [ih, List.drop_eq_getElem_cons hi]
    simp [ByteArray.get!, h]
  | case2 i done h =>
    rw [List.drop_eq_nil_of_le (by simpa using Nat.le_of_not_lt h), List.append_nil]

theorem utf8Bytes_eq (s : String) : utf8Bytes s = charBytes s.toList := by
  have hdata : s.toUTF8.data.toList = charBytes s.toList := by
    conv => lhs; rw [← String.ofList_toList (s := s)]
    exact List.toList_data_toByteArray
  rw [utf8Bytes, ByteArray.toList, toListLoop_eq]
  exact hdata

theorem length_charBytes (cs : List Char) : (charBytes cs).length = utf8Length cs := by
  induction cs with
  | nil => rfl
  | cons c cs ih =>
    rw [charBytes] at ih
    rw [charBytes, List.flatMap_cons, List.length_append, String.length_utf8EncodeChar, ih, utf8Length_cons]

/-- The byte of a line feed is in no other character. -/
theorem not_mem_utf8EncodeChar (h : c ≠ '\n') : 10 ∉ String.utf8EncodeChar c := by
  have hval : c.val.toNat ≠ 10 := fun heq => h (Char.ext (UInt32.toNat_inj.mp heq))
  have hbyte {n : Nat} (hn : n % 256 ≠ 10) : 10 ≠ UInt8.ofNat n := fun heq =>
    hn (by simpa using (congrArg UInt8.toNat heq).symm)
  rw [String.utf8EncodeChar]
  split
  · exact fun hmem => hbyte (by omega) (List.mem_singleton.mp hmem)
  · split
    · simp only [List.mem_cons, List.not_mem_nil, or_false, not_or]
      exact ⟨hbyte (by omega), hbyte (by omega)⟩
    · split
      · simp only [List.mem_cons, List.not_mem_nil, or_false, not_or]
        exact ⟨hbyte (by omega), hbyte (by omega), hbyte (by omega)⟩
      · simp only [List.mem_cons, List.not_mem_nil, or_false, not_or]
        exact ⟨hbyte (by omega), hbyte (by omega), hbyte (by omega), hbyte (by omega)⟩

/-- The line feeds among the first bytes of a text. -/
def newlinesBefore (o : Nat) (cs : List Char) : Nat :=
  ((charBytes cs).take o).count 10

theorem count_utf8EncodeChar (c : Char) : (String.utf8EncodeChar c).count 10 = if c = '\n' then 1 else 0 := by
  split
  · next h => rw [h]; rfl
  · next h => exact List.count_eq_zero.mpr (not_mem_utf8EncodeChar h)

theorem newlinesBefore_of_lt (h : o < c.utf8Size) (rest : List Char) : newlinesBefore o (c :: rest) = 0 := by
  rw [newlinesBefore, charBytes, List.flatMap_cons,
    List.take_append_of_le_length (by rw [String.length_utf8EncodeChar]; exact Nat.le_of_lt h)]
  by_cases hc : c = '\n'
  · subst hc
    obtain rfl : o = 0 := Nat.lt_one_iff.mp h
    rfl
  · exact List.count_eq_zero.mpr fun hmem => not_mem_utf8EncodeChar hc (List.mem_of_mem_take hmem)

theorem newlinesBefore_add (c : Char) (rest : List Char) (o : Nat) :
    newlinesBefore (c.utf8Size + o) (c :: rest) = (if c = '\n' then 1 else 0) + newlinesBefore o rest := by
  rw [newlinesBefore, charBytes, List.flatMap_cons, ← String.length_utf8EncodeChar c, List.take_length_add_append,
    List.count_append, count_utf8EncodeChar]
  rfl

end

/-! ## Starts of lines -/

namespace LineIndex

theorem lineOf_eq_countP (lines : LineIndex) (offset : Nat) :
    lines.lineOf offset = lines.starts.toList.countP (· ≤ offset) := by
  have hrank := isRank_searchBetween (x := offset) (Nat.le_refl _) lines.ascending (Nat.zero_le _)
    (fun i _ hlt => absurd hlt (Nat.not_lt_zero i)) fun i hi hge => absurd hi (Nat.not_lt.mpr hge)
  rw [hrank.countP_eq, lineOf]
  cases searchBetween lines.starts offset 0 lines.starts.size (Nat.le_refl _) <;> rfl

theorem lineOf_le (lines : LineIndex) (offset : Nat) : lines.lineOf offset ≤ lines.lineCount := by
  rw [lineOf_eq_countP, lineCount, ← Array.length_toList]
  exact List.countP_le_length

theorem lineOf_mono (lines : LineIndex) {o p : Nat} (h : o ≤ p) : lines.lineOf o ≤ lines.lineOf p := by
  rw [lineOf_eq_countP, lineOf_eq_countP]
  exact List.countP_mono_left fun start _ hstart => decide_eq_true (Nat.le_trans (of_decide_eq_true hstart) h)

/-- A line starts behind each line feed. -/
theorem countP_startsFrom (offset o : Nat) (cs : List Char) :
    (startsFrom offset cs).countP (· ≤ offset + o) = newlinesBefore o cs := by
  induction cs generalizing offset o with
  | nil => simp [startsFrom, newlinesBefore, charBytes]
  | cons c rest ih =>
    rcases Nat.lt_or_ge o c.utf8Size with hlt | hge
    · rw [newlinesBefore_of_lt hlt]
      refine List.countP_eq_zero.mpr fun start hstart => ?_
      have hle : offset + c.utf8Size ≤ start := by
        rw [startsFrom] at hstart
        split at hstart
        · rcases List.mem_cons.mp hstart with rfl | hstart
          · exact Nat.le_refl _
          · exact Nat.le_of_lt (lt_of_mem_startsFrom hstart)
        · exact Nat.le_of_lt (lt_of_mem_startsFrom hstart)
      simp only [decide_eq_true_eq]
      omega
    · obtain ⟨o, rfl⟩ := Nat.exists_eq_add_of_le hge
      rw [newlinesBefore_add, ← ih (offset + c.utf8Size) o, startsFrom, Nat.add_assoc]
      split
      · rw [List.countP_cons_of_pos (by simp), Nat.add_comm]
      · rw [Nat.zero_add]

/-- The number of a line counts the line feeds before it. -/
theorem lineOf_ofText (source : String) (o : Nat) :
    (ofText source).lineOf o = 1 + newlinesBefore o source.toList := by
  rw [lineOf_eq_countP, ofText, List.toList_toArray, List.countP_cons_of_pos (by simp), Nat.add_comm]
  have hstarts := countP_startsFrom 0 o source.toList
  rw [Nat.zero_add] at hstarts
  rw [hstarts]

end LineIndex

/-! ## Lines with their ends -/

/-- The lines of a text with the line feeds that end them; no line is empty. -/
def fullLines : List Char → List (List Char)
  | [] => []
  | c :: rest =>
    if c = '\n' then [c] :: fullLines rest
    else match fullLines rest with
      | [] => [[c]]
      | line :: lines => (c :: line) :: lines

/-- The text of a line without its line feed and a carriage return before it. -/
def lineText (line : List Char) : String :=
  match beforeEnd? ['\n'] line with
  | some front => .ofList ((beforeEnd? ['\r'] front).getD front)
  | none => .ofList line

theorem flatten_fullLines (cs : List Char) : (fullLines cs).flatten = cs := by
  induction cs with
  | nil => rfl
  | cons c rest ih =>
    rw [fullLines]
    split
    · rw [List.flatten_cons, ih]
      rfl
    · split
      · next hnone =>
        rw [hnone] at ih
        rw [← ih]
        rfl
      · next line lines hlines =>
        rw [hlines] at ih
        rw [← ih]
        rfl

/-- A line of a text, by its position, has the byte at an offset of the text. -/
def LineHolds (lines : List (List Char)) (i o : Nat) : Prop :=
  utf8Length (lines.take i).flatten ≤ o ∧ o < utf8Length (lines.take (i + 1)).flatten

theorem LineHolds.lt_length {lines : List (List Char)} {i o : Nat} (h : LineHolds lines i o) : i < lines.length := by
  refine Nat.lt_of_not_le fun hge => ?_
  rw [LineHolds, List.take_of_length_le hge, List.take_of_length_le (Nat.le_succ_of_le hge)] at h
  omega

/-- A character in front makes the first line longer, or is a line of its own. -/
theorem length_take_fullLines_cons (c : Char) (rest : List Char) {i : Nat} (h : c = '\n' ∨ 0 < i) :
    utf8Length ((fullLines (c :: rest)).take ((if c = '\n' then 1 else 0) + i)).flatten
      = c.utf8Size + utf8Length ((fullLines rest).take i).flatten := by
  rw [fullLines]
  split
  · rw [Nat.add_comm, List.take_succ_cons, List.flatten_cons, List.singleton_append, utf8Length_cons]
  · next hc =>
    obtain ⟨i, rfl⟩ := Nat.exists_eq_add_one.mpr (h.resolve_left hc)
    rw [Nat.zero_add]
    split
    · next hnone => rw [hnone, List.take_succ_cons, List.take_nil, List.take_nil]; rfl
    · next line lines hlines =>
      rw [hlines, List.take_succ_cons, List.take_succ_cons, List.flatten_cons, List.flatten_cons, List.cons_append,
        utf8Length_cons]

theorem size_le_first_fullLine (c : Char) (rest : List Char) :
    c.utf8Size ≤ utf8Length ((fullLines (c :: rest)).take 1).flatten := by
  by_cases hc : c = '\n'
  · have hlength := length_take_fullLines_cons c rest (i := 0) (.inl hc)
    rw [if_pos hc] at hlength
    exact hlength ▸ Nat.le_add_right _ _
  · have hlength := length_take_fullLines_cons c rest (.inr Nat.one_pos)
    rw [if_neg hc] at hlength
    exact hlength ▸ Nat.le_add_right _ _

/-- The byte at an offset is in the line before which there are as many line feeds as before the byte. -/
theorem lineHolds_fullLines {cs : List Char} {o : Nat} (h : o < utf8Length cs) :
    LineHolds (fullLines cs) (newlinesBefore o cs) o := by
  induction cs generalizing o with
  | nil => exact absurd h (Nat.not_lt_zero o)
  | cons c rest ih =>
    rcases Nat.lt_or_ge o c.utf8Size with hlt | hge
    · rw [newlinesBefore_of_lt hlt]
      exact ⟨Nat.zero_le _, Nat.lt_of_lt_of_le hlt (size_le_first_fullLine c rest)⟩
    · obtain ⟨o, rfl⟩ := Nat.exists_eq_add_of_le hge
      rw [utf8Length_cons] at h
      obtain ⟨hfrom, hto⟩ := ih (Nat.lt_of_add_lt_add_left h)
      rw [newlinesBefore_add]
      refine ⟨?_, ?_⟩
      · by_cases hstart : c = '\n' ∨ 0 < newlinesBefore o rest
        · rw [length_take_fullLines_cons c rest hstart]
          exact Nat.add_le_add_left hfrom _
        · rw [not_or] at hstart
          rw [if_neg hstart.1, Nat.eq_zero_of_not_pos hstart.2]
          exact Nat.zero_le _
      · rw [Nat.add_assoc, length_take_fullLines_cons c rest (.inr (Nat.succ_pos _))]
        exact Nat.add_lt_add_left hto _

/-! ## Lines as they are read -/

/-- The pieces between line feeds with their line feeds again; nothing after the last one is no line. -/
def withLineFeeds : List (List Char) → List (List Char)
  | [] => []
  | [last] => if last.isEmpty then [] else [last]
  | piece :: pieces => (piece ++ ['\n']) :: withLineFeeds pieces

theorem splitList_ne_nil {α : Type} (sep : α → Bool) (xs : List α) : splitList sep xs ≠ [] := by
  fun_cases splitList sep xs <;> exact List.cons_ne_nil _ _

theorem fullLines_eq (cs : List Char) : fullLines cs = withLineFeeds (splitList (· == '\n') cs) := by
  induction cs with
  | nil => rfl
  | cons c rest ih =>
    rw [fullLines, splitList, ih]
    obtain ⟨piece, pieces, hpieces⟩ := List.exists_cons_of_ne_nil (splitList_ne_nil (· == '\n') rest)
    rw [hpieces]
    by_cases hc : c = '\n'
    · rw [if_pos hc, if_pos (beq_iff_eq.mpr hc), hc]
      rfl
    · rw [if_neg hc, if_neg (by simpa using hc)]
      cases pieces with
      | nil => cases piece <;> rfl
      | cons next pieces => rfl

theorem beforeEnd?_of_not_mem {α : Type} [BEq α] [LawfulBEq α] {x : α} {xs : List α} (h : x ∉ xs) :
    beforeEnd? [x] xs = none := by
  rw [beforeEnd?, if_neg]
  exact fun hend => h ((List.isSuffixOf_iff_suffix.mp hend).subset List.mem_cons_self)

theorem linesOfPieces_eq {pieces : List (List Char)} (h : ∀ piece ∈ pieces, '\n' ∉ piece) :
    linesOfPieces pieces = (withLineFeeds pieces).map lineText := by
  fun_induction withLineFeeds pieces with
  | case1 => rfl
  | case2 last hempty => rw [linesOfPieces, if_pos hempty]; rfl
  | case3 last hne =>
    rw [linesOfPieces, if_neg hne, List.map_singleton, lineText, beforeEnd?_of_not_mem (h last List.mem_cons_self)]
  | case4 piece pieces hmore ih =>
    rw [linesOfPieces, ih fun piece hpiece => h piece (List.mem_cons_of_mem _ hpiece), List.map_cons, lineText,
      beforeEnd?_append]
    exact hmore

theorem not_mem_of_mem_splitList {α : Type} {sep : α → Bool} {x : α} {xs piece : List α} (hx : sep x = true)
    (h : piece ∈ splitList sep xs) : x ∉ piece := by
  fun_induction splitList sep xs generalizing piece with
  | case1 => exact List.mem_singleton.mp h ▸ List.not_mem_nil
  | case2 a rest ha ih =>
    rcases List.mem_cons.mp h with rfl | h
    · exact List.not_mem_nil
    · exact ih h
  | case3 a rest ha hnone ih => exact absurd hnone (splitList_ne_nil _ _)
  | case4 a rest ha first parts hparts ih =>
    rcases List.mem_cons.mp h with rfl | h
    · refine List.not_mem_cons_of_ne_of_not_mem (fun heq => ha (heq ▸ hx)) (ih ?_)
      rw [hparts]
      exact List.mem_cons_self
    · refine ih ?_
      rw [hparts]
      exact List.mem_cons_of_mem _ h

/-- Reading a text line by line gives the same lines. -/
theorem textLines_eq (source : String) : textLines source = (fullLines source.toList).map lineText := by
  rw [textLines, fullLines_eq]
  exact linesOfPieces_eq fun piece => not_mem_of_mem_splitList (beq_self_eq_true '\n')

/-! ## Comments -/

/-- A line that is a comment, with the text after its mark. -/
def IsComment (line text : String) : Prop :=
  ∃ blanks mark rest, line.toList = blanks ++ mark ++ rest ∧ (∀ c ∈ blanks, isBlank c = true)
    ∧ mark ∈ [['#'], ['/', '/']] ∧ text = trimBlanks (.ofList rest)

theorem afterStart?_eq_some_iff {α : Type} [BEq α] [LawfulBEq α] {p xs rest : List α} :
    afterStart? p xs = some rest ↔ xs = p ++ rest := by
  rw [afterStart?]
  split
  · next h =>
    obtain ⟨more, rfl⟩ := List.isPrefixOf_iff_prefix.mp h
    simp
  · next h =>
    refine iff_of_false (Option.some_ne_none rest).symm fun heq => h (List.isPrefixOf_iff_prefix.mpr ?_)
    exact heq ▸ List.prefix_append p rest

theorem isComment_iff {line text : String} : IsComment line text ↔ ∃ mark ∈ [['#'], ['/', '/']], ∃ rest,
    line.toList.dropWhile isBlank = mark ++ rest ∧ text = trimBlanks (.ofList rest) := by
  constructor
  · rintro ⟨blanks, mark, rest, hline, hblanks, hmark, htext⟩
    have hstop : (mark ++ rest).dropWhile isBlank = mark ++ rest := by
      rcases List.mem_pair.mp hmark with rfl | rfl
      · exact List.dropWhile_cons_of_neg (by decide +kernel)
      · exact List.dropWhile_cons_of_neg (by decide +kernel)
    refine ⟨mark, hmark, rest, ?_, htext⟩
    rw [hline, List.append_assoc, List.dropWhile_append_of_pos hblanks, hstop]
  · rintro ⟨mark, hmark, rest, hrest, htext⟩
    refine ⟨line.toList.takeWhile isBlank, mark, rest, ?_, List.all_eq_true.mp List.all_takeWhile, hmark, htext⟩
    rw [List.append_assoc, ← hrest, List.takeWhile_append_dropWhile]

theorem commentText?_eq_some_iff {line text : String} : commentText? line = some text ↔ IsComment line text := by
  rw [isComment_iff, commentText?]
  constructor
  · intro h
    split at h
    · next rest hrest =>
      exact ⟨_, List.mem_cons_self, rest, afterStart?_eq_some_iff.mp hrest, (Option.some.inj h).symm⟩
    · obtain ⟨rest, hrest, htext⟩ := Option.map_eq_some_iff.mp h
      exact ⟨_, List.mem_cons_of_mem _ List.mem_cons_self, rest, afterStart?_eq_some_iff.mp hrest, htext.symm⟩
  · rintro ⟨mark, hmark, rest, hrest, rfl⟩
    rcases List.mem_pair.mp hmark with rfl | rfl
    · rw [afterStart?_eq_some_iff.mpr hrest]
    · have hother : afterStart? ['#'] (['/', '/'] ++ rest) = none := rfl
      rw [hrest, hother, afterStart?_eq_some_iff.mpr rfl]
      rfl

/-- Some lines end in comments with these texts, and in no more of them. -/
def EndsInComments (lines texts : List String) : Prop :=
  ∃ before comments, lines = before ++ comments ∧ List.Forall₂ IsComment comments texts
    ∧ ∀ line ∈ before.getLast?, ∀ text, ¬ IsComment line text

theorem exists_commentRun (lines : List String) : ∃ comments rest, lines = comments ++ rest
    ∧ List.Forall₂ IsComment comments (commentRun lines) ∧ ∀ line ∈ rest.head?, ∀ text, ¬ IsComment line text := by
  induction lines with
  | nil => exact ⟨[], [], rfl, .nil, nofun⟩
  | cons line lines ih =>
    rw [commentRun]
    split
    · next text htext =>
      obtain ⟨comments, rest, hlines, hcomments, hrest⟩ := ih
      exact ⟨line :: comments, rest, congrArg (line :: ·) hlines, .cons (commentText?_eq_some_iff.mp htext) hcomments,
        hrest⟩
    · next hnone =>
      refine ⟨[], line :: lines, rfl, .nil, fun other hother text hcomment => ?_⟩
      obtain rfl := Option.some.inj hother
      rw [commentText?_eq_some_iff.mpr hcomment] at hnone
      cases hnone

/-- Comments are collected from the last line on. -/
theorem endsInComments_commentRun (lines : List String) : EndsInComments lines (commentRun lines.reverse).reverse := by
  obtain ⟨comments, rest, hlines, hcomments, hrest⟩ := exists_commentRun lines.reverse
  refine ⟨rest.reverse, comments.reverse, ?_, ?_, fun line hline => hrest line ?_⟩
  · rw [← List.reverse_append, ← hlines, List.reverse_reverse]
  · exact List.forall₂_reverse_iff.mpr hcomments
  · rwa [List.getLast?_reverse] at hline

/-! ## Ranges -/

/-- The lines that are read of a range, and the comments above it. -/
theorem SourceRange.readLines_eq {r : SourceRange} {source : String} (hfirst : 1 ≤ r.first) (hle : r.first ≤ r.last)
    (hlast : r.last ≤ (fullLines source.toList).length) :
    (r.readLines source).1 = (((fullLines source.toList).take r.last).drop (r.first - 1)).map lineText
      ∧ EndsInComments (((fullLines source.toList).take (r.first - 1)).map lineText) (r.readLines source).2 := by
  have hclamped : max r.first (min r.last (fullLines source.toList).length) = r.last := by omega
  rw [readLines, textLines_eq, List.length_map, if_neg (by omega)]
  dsimp only
  rw [hclamped, List.map_drop, List.map_take, List.map_take]
  exact ⟨rfl, endsInComments_commentRun _⟩

namespace LineIndex

/-- Lines are counted by the line feeds before an offset. The range of some bytes of a source is one of its lines; what
is read of it are the lines from the one that holds the first byte to the one that holds the last byte, at least one,
and the comments in the lines right above. -/
theorem range_reads_lines (source : String) :
    (∀ o, (ofText source).lineOf o = 1 + ((utf8Bytes source).take o).count 10)
      ∧ ∀ file start stop, start < stop → stop ≤ (utf8Bytes source).length →
        let lines := fullLines source.toList
        let r := (ofText source).range file start stop
        (1 ≤ r.first ∧ r.first ≤ r.last ∧ r.last ≤ (ofText source).lineCount)
          ∧ LineHolds lines (r.first - 1) start ∧ LineHolds lines (r.last - 1) (stop - 1)
          ∧ (r.readLines source).1 = ((lines.take r.last).drop (r.first - 1)).map lineText
          ∧ (r.readLines source).1 ≠ []
          ∧ EndsInComments ((lines.take (r.first - 1)).map lineText) (r.readLines source).2 := by
  rw [utf8Bytes_eq]
  refine ⟨lineOf_ofText source, fun file start stop hspan hinside => ?_⟩
  intro lines r
  rw [length_charBytes] at hinside
  have hfirst : r.first = 1 + newlinesBefore start source.toList := lineOf_ofText source start
  have hlast : r.last = 1 + newlinesBefore (stop - 1) source.toList := by
    rw [← lineOf_ofText]
    exact congrArg (ofText source).lineOf (if_pos hspan)
  have hholdsFirst : LineHolds lines (r.first - 1) start := by
    rw [hfirst, Nat.add_sub_cancel_left]
    exact lineHolds_fullLines (by omega)
  have hholdsLast : LineHolds lines (r.last - 1) (stop - 1) := by
    rw [hlast, Nat.add_sub_cancel_left]
    exact lineHolds_fullLines (by omega)
  have hle : r.first ≤ r.last := by
    have hmono := (ofText source).lineOf_mono (Nat.le_sub_one_of_lt hspan)
    rwa [lineOf_ofText, lineOf_ofText, ← hfirst, ← hlast] at hmono
  have hcount : r.last ≤ (ofText source).lineCount := by
    rw [hlast, ← lineOf_ofText]
    exact lineOf_le _ _
  have hlength : r.last ≤ (fullLines source.toList).length := by
    have hlt : r.last - 1 < (fullLines source.toList).length := hholdsLast.lt_length
    omega
  obtain ⟨hread, hcomments⟩ := SourceRange.readLines_eq (by omega) hle hlength
  refine ⟨⟨by omega, hle, hcount⟩, hholdsFirst, hholdsLast, hread, fun hnil => ?_, hcomments⟩
  rw [hread, List.map_eq_nil_iff, List.drop_eq_nil_iff, List.length_take] at hnil
  omega

/-- A source with both kinds of line ends, a character of two bytes and comments. -/
def mixedLines : String :=
  "a\n# ü\r\n// b\nx = 1\r\n\ny"

theorem range_reads_lines_mixedLines :
    13 < 18 ∧ 18 ≤ (utf8Bytes mixedLines).length ∧ (ofText mixedLines).range "f" 13 18 = ⟨"f", 4, 4⟩
      ∧ SourceRange.readLines ⟨"f", 4, 4⟩ mixedLines = (["x = 1"], ["ü", "b"])
      ∧ LineHolds (fullLines mixedLines.toList) 3 17
      ∧ EndsInComments (((fullLines mixedLines.toList).take 3).map lineText) ["ü", "b"] := by
  have hinside : 18 ≤ (utf8Bytes mixedLines).length := by decide +kernel
  have hrange : (ofText mixedLines).range "f" 13 18 = ⟨"f", 4, 4⟩ := by decide +kernel
  have hread : SourceRange.readLines ⟨"f", 4, 4⟩ mixedLines = (["x = 1"], ["ü", "b"]) := by decide +kernel
  have hmain := (range_reads_lines mixedLines).2 "f" 13 18 (by decide) hinside
  rw [hrange] at hmain
  dsimp only at hmain
  rw [hread] at hmain
  exact ⟨by decide, hinside, hrange, hread, hmain.2.2.1, hmain.2.2.2.2.2⟩

end LineIndex

end InfraConfig
