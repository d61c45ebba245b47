import InfraConfig.Proofs.FilePlaces
import InfraConfig.Proofs.InstanceAddresses

/-!
# Printed names

The name of a block is the text of its reference: its kind and labels with dots between them. What is read from it is
cut at every dot, and the key of the name label is read again from its text. So it leads back to the block unless there
is a dot in the key, or an escape that is not undone.
-/

namespace InfraConfig

/-! ## Dotted texts -/

theorem joinText_cons (part : String) (parts : List String) :
    joinText "." (part :: parts) = part ++ String.join (parts.map ("." ++ ·)) := by
  induction parts generalizing part with
  | nil => simp [joinText, intercalateList]
  | cons next parts ih =>
    rw [joinText_cons_cons, ih, List.map_cons, String.join_cons, String.append_assoc, String.append_assoc]

theorem not_mem_of_mem_splitText {s piece : String} (h : piece ∈ splitText "." s) : '.' ∉ piece.toList := by
  rw [splitText_eq_splitOn rfl] at h
  obtain ⟨cs, hcs, rfl⟩ := List.mem_map.mp h
  rw [String.toList_ofList]
  exact not_mem_of_mem_splitOn hcs

/-- Dots make more pieces. -/
theorem length_splitText (s : String) :
    1 ≤ (splitText "." s).length ∧ ('.' ∈ s.toList → 2 ≤ (splitText "." s).length) := by
  rw [splitText_eq_splitOn (show ".".toList = ['.'] from rfl), List.length_map]
  have hne : s.toList.splitOn '.' ≠ [] := List.splitOnP_ne_nil _ _
  refine ⟨List.length_pos_iff.mpr hne, fun hdot => ?_⟩
  by_contra hshort
  have hone : (s.toList.splitOn '.').length = 1 := by
    have := List.length_pos_iff.mpr hne
    omega
  obtain ⟨piece, hpiece⟩ := List.length_eq_one_iff.mp hone
  have hwhole : ['.'].intercalate (s.toList.splitOn '.') = s.toList := List.intercalate_splitOn '.'
  rw [hpiece, List.intercalate_singleton] at hwhole
  exact not_mem_of_mem_splitOn (hpiece ▸ List.mem_singleton_self piece) (hwhole ▸ hdot)

theorem length_le_flatMap_splitText (parts : List String) : parts.length ≤ (parts.flatMap (splitText ".")).length
    ∧ ((∃ p ∈ parts, '.' ∈ p.toList) → parts.length < (parts.flatMap (splitText ".")).length) := by
  induction parts with
  | nil => simp
  | cons part parts ih =>
    have hpart := length_splitText part
    rw [List.flatMap_cons, List.length_append, List.length_cons]
    refine ⟨by omega, ?_⟩
    rintro ⟨p, hp, hdot⟩
    rcases List.mem_cons.mp hp with rfl | hp
    · have := hpart.2 hdot
      omega
    · have := ih.2 ⟨p, hp, hdot⟩
      omega

/-! ## Names of references -/

/-- The text of a key, if there is one. -/
def keySuffix (key : Option InstanceKey) : String :=
  (key.map InstanceKey.text).getD ""

/-- A label as it is printed after it is read. -/
def respell (label : String) : String :=
  (splitKey label).1 ++ keySuffix (splitKey label).2

namespace Reference

variable {r : Reference}

/-- The name label with the key after it. -/
def label (r : Reference) : String :=
  r.nameLabel ++ keySuffix r.key

/-- What stands between the dots of the text of a reference. -/
def names (r : Reference) : List String :=
  (if r.kind = .resource then [] else [r.kind.text]) ++ (if r.typeLabel = "" then [] else [r.typeLabel])
    ++ (if r.nameLabel = "" then [] else [r.label]) ++ r.remainder

/-- A reference of which no part is missing before one that is there. -/
structure Regular (r : Reference) : Prop where
  resource : r.kind = .resource → r.typeLabel ≠ "" ∧ RefKind.ofRoot r.typeLabel = .resource
  untyped : r.kind ≠ .resource → r.kind ≠ .data → r.typeLabel = ""
  data : r.kind = .data → r.typeLabel = "" → r.nameLabel = ""
  ended : r.nameLabel = "" → r.key = none ∧ r.remainder = []

/-- How many names stand before the remainder. -/
def arity (kind : RefKind) : Nat :=
  if kind = .data then 3 else 2

theorem build_eq (parts : List String) : let kind := RefKind.ofRoot (parts.headD "")
    build parts = ofLabels kind
      (if kind = .resource then parts.headD "" else if kind = .data then parts.getD 1 "" else "")
      (parts.getD (arity kind - 1) "") (parts.drop (arity kind)) := by
  intro kind
  unfold build
  dsimp only
  cases hkind : kind <;> simp only [kind] at hkind <;> rw [hkind] <;> rfl

theorem remainder_build (parts : List String) : (build parts).remainder = parts.drop (arity (build parts).kind) := by
  rw [build_eq, ofLabels]

theorem getD_eq_or_mem (parts : List String) (i : Nat) : parts.getD i "" = "" ∨ parts.getD i "" ∈ parts := by
  rw [List.getD_eq_getElem?_getD]
  cases h : parts[i]? with
  | none => exact .inl rfl
  | some part => exact .inr (List.mem_of_getElem? h)

theorem typeLabel_build (parts : List String) : (build parts).typeLabel = "" ∨ (build parts).typeLabel ∈ parts := by
  rw [build_eq, ofLabels]
  dsimp only
  split
  · cases parts <;> simp
  · split
    · exact getD_eq_or_mem parts 1
    · exact .inl rfl

theorem joinText_append_label (front : List String) (name key : String) (rest : List String) :
    joinText "." (front ++ [name]) ++ key ++ String.join (rest.map ("." ++ ·))
      = joinText "." (front ++ (name ++ key) :: rest) := by
  cases front with
  | nil => simp [joinText_cons]
  | cons part front => simp [joinText_cons, String.append_assoc]

theorem text_eq_joinText (h : r.Regular) : r.text = joinText "." r.names := by
  have htext : r.text = r.base ++ keySuffix r.key ++ String.join (r.remainder.map ("." ++ ·)) := by
    rw [text]
    cases r.key <;> rfl
  have hbase : r.base = joinText "." ((if r.kind = .resource then [] else [r.kind.text])
      ++ (if r.typeLabel = "" then [] else [r.typeLabel]) ++ if r.nameLabel = "" then [] else [r.nameLabel]) := by
    rw [base]
    by_cases htype : r.typeLabel = "" <;> by_cases hname : r.nameLabel = "" <;> simp [htype, hname]
  rw [htext, hbase, names]
  by_cases hname : r.nameLabel = ""
  · obtain ⟨hkey, hremainder⟩ := h.ended hname
    simp [keySuffix, hname, hkey, hremainder]
  · rw [if_neg hname, if_neg hname, joinText_append_label, label, List.append_assoc _ [_] r.remainder]
    rfl

theorem text_dotless (kind : RefKind) : '.' ∉ kind.text.toList := by
  cases kind <;> decide

theorem ofRoot_text (kind : RefKind) : RefKind.ofRoot kind.text = kind := by
  cases kind <;> rfl

theorem build_resource {first : String} (h : RefKind.ofRoot first = .resource) (rest : List String) :
    build (first :: rest) = ofLabels .resource first (rest.getD 0 "") (rest.drop 1) := by
  rw [build_eq, List.headD_cons, h]
  rfl

theorem build_data_nil {first : String} (h : RefKind.ofRoot first = .data) :
    build [first] = ofLabels .data "" (([] : List String).getD 0 "") (([] : List String).drop 1) := by
  rw [build_eq, List.headD_cons, h]
  rfl

theorem build_data {first : String} (h : RefKind.ofRoot first = .data) (type : String) (rest : List String) :
    build (first :: type :: rest) = ofLabels .data type (rest.getD 0 "") (rest.drop 1) := by
  rw [build_eq, List.headD_cons, h]
  rfl

theorem build_untyped {first : String} (hresource : RefKind.ofRoot first ≠ .resource)
    (hdata : RefKind.ofRoot first ≠ .data) (rest : List String) :
    build (first :: rest) = ofLabels (RefKind.ofRoot first) "" (rest.getD 0 "") (rest.drop 1) := by
  rw [build_eq, List.headD_cons, if_neg hresource, if_neg hdata, arity, if_neg hdata]
  rfl

theorem build_names (h : r.Regular) : build r.names = ofLabels r.kind r.typeLabel r.label r.remainder := by
  obtain ⟨labels, hlabels, hlabel, hremainder⟩ : ∃ labels, (if r.nameLabel = "" then [] else [r.label]) ++ r.remainder
      = labels ∧ labels.getD 0 "" = r.label ∧ labels.drop 1 = r.remainder := by
    refine ⟨_, rfl, ?_⟩
    by_cases hname : r.nameLabel = ""
    · simp [label, keySuffix, hname, h.ended hname]
    · simp [hname]
  rw [names, List.append_assoc, hlabels, ← hlabel, ← hremainder]
  by_cases hresource : r.kind = .resource
  · obtain ⟨htype, hroot⟩ := h.resource hresource
    rw [if_pos hresource, if_neg htype, hresource]
    exact build_resource hroot labels
  · rw [if_neg hresource]
    by_cases hdata : r.kind = .data
    · have hroot : RefKind.ofRoot r.kind.text = .data := by rw [hdata, ofRoot_text]
      by_cases htype : r.typeLabel = ""
      · have hnone : labels = [] := by
          rw [← hlabels, if_pos (h.data hdata htype), (h.ended (h.data hdata htype)).2, List.nil_append]
        rw [if_pos htype, htype, hnone, hdata]
        exact build_data_nil (hdata ▸ hroot)
      · rw [if_neg htype, hdata]
        exact build_data (hdata ▸ hroot) r.typeLabel labels
    · have hroot := ofRoot_text r.kind
      have hbuild := build_untyped (hroot.symm ▸ hresource) (hroot.symm ▸ hdata) labels
      have htype := h.untyped hresource hdata
      rw [if_pos htype, htype]
      exact hbuild.trans (by rw [hroot])

theorem length_names (h : r.Regular) (hname : r.nameLabel ≠ "") :
    r.names.length = arity r.kind + r.remainder.length := by
  rw [names, if_neg hname, arity]
  simp only [List.length_append, List.length_cons, List.length_nil]
  by_cases hresource : r.kind = .resource
  · rw [if_pos hresource, if_neg (h.resource hresource).1, if_neg (by simp [hresource])]
    simp only [List.length_cons, List.length_nil]
  · rw [if_neg hresource]
    by_cases hdata : r.kind = .data
    · rw [if_neg fun htype => hname (h.data hdata htype), if_pos hdata]
      simp only [List.length_cons, List.length_nil]
    · rw [if_pos (h.untyped hresource hdata), if_neg hdata]
      simp only [List.length_cons, List.length_nil]

theorem exists_names_cons (h : r.Regular) : ∃ first rest, r.names = first :: rest ∧ first ≠ "" := by
  by_cases hresource : r.kind = .resource
  · obtain ⟨htype, -⟩ := h.resource hresource
    exact ⟨r.typeLabel, _, by rw [names, if_pos hresource, if_neg htype]; rfl, htype⟩
  · refine ⟨r.kind.text, _, by rw [names, if_neg hresource]; rfl, ?_⟩
    cases r.kind <;> decide

theorem read_text_eq (h : r.Regular) : read r.text = .ok (build (r.names.flatMap (splitText "."))) := by
  obtain ⟨first, rest, hnames, hfirst⟩ := exists_names_cons h
  have hne : r.text ≠ "" := by
    rw [text_eq_joinText h, hnames, joinText_cons]
    simp [hfirst]
  rw [read, if_neg (by simpa using hne), text_eq_joinText h, splitText_joinText rfl (by simp [hnames])]

/-- Where a name has a dot, what is read has other parts. -/
theorem no_dot_of_same_parts (h : r.Regular) {pieces : List String} (hpieces : pieces = r.names.flatMap (splitText "."))
    (hkind : (build pieces).kind = r.kind) (htype : (build pieces).typeLabel = r.typeLabel)
    (hremainder : (build pieces).remainder = r.remainder) : ∀ name ∈ r.names, '.' ∉ name.toList := by
  intro name hname hdot
  by_cases hlabel : r.nameLabel = ""
  · -- Without a name label only the type can have a dot, and none of the pieces has one.
    have htypeDot : '.' ∉ r.typeLabel.toList := by
      rw [← htype]
      rcases typeLabel_build pieces with hnone | hmem
      · simp [hnone]
      · generalize (build pieces).typeLabel = type at hmem
        obtain ⟨part, -, hpart⟩ := List.mem_flatMap.mp (hpieces ▸ hmem)
        exact not_mem_of_mem_splitText hpart
    have hmem : name = r.kind.text ∨ name = r.typeLabel := by
      rw [names, if_pos hlabel, (h.ended hlabel).2] at hname
      split at hname <;> split at hname <;> simp_all
    rcases hmem with rfl | rfl
    · exact text_dotless r.kind hdot
    · exact htypeDot hdot
  · -- A name that is cut adds a piece, and all pieces after the kind and the labels are the remainder.
    have hlonger := (length_le_flatMap_splitText r.names).2 ⟨name, hname, hdot⟩
    have hlength := congrArg List.length hremainder
    rw [remainder_build, hkind, List.length_drop, hpieces] at hlength
    have := length_names h hlabel
    omega

/-- A reference is read from its text. It leads to the same if no name in it has a dot, and if the name label with its
key is read as what it was printed for. -/
theorem read_text (h : r.Regular) : ∃ s, read r.text = .ok s ∧
    ((s.refersTo r = true ∧ r.refersTo s = true ∧ s.remainder = r.remainder) ↔
      (∀ name ∈ r.names, '.' ∉ name.toList) ∧ splitKey r.label = (r.nameLabel, r.key)) := by
  refine ⟨_, read_text_eq h, ?_⟩
  have hwhole (hdots : ∀ name ∈ r.names, '.' ∉ name.toList) : r.names.flatMap (splitText ".") = r.names :=
    flatMap_splitText_of_not_mem rfl hdots
  constructor
  · rintro ⟨hsame, -, hremainder⟩
    obtain ⟨hkind, htype, hname, hkey⟩ := refersTo_iff.mp hsame
    have hdots := no_dot_of_same_parts h rfl hkind htype hremainder
    rw [hwhole hdots, build_names h, ofLabels] at hname hkey
    exact ⟨hdots, Prod.ext hname hkey⟩
  · rintro ⟨hdots, hlabel⟩
    rw [hwhole hdots, build_names h, ofLabels, hlabel]
    exact ⟨refersTo_iff.mpr ⟨rfl, rfl, rfl, rfl⟩, refersTo_iff.mpr ⟨rfl, rfl, rfl, rfl⟩, rfl⟩

/-- A reference is regular if no label of it is empty, also without its key. -/
theorem regular_ofLabels {kind : RefKind} {type : String} {labels : List String}
    (hresource : kind = .resource → type ≠ "" ∧ RefKind.ofRoot type = .resource)
    (huntyped : kind ≠ .resource → kind ≠ .data → type = "") (hdata : kind = .data → type = "" → labels = [])
    (hlabels : ∀ p ∈ labels, (splitKey p).1 ≠ "") :
    (ofLabels kind type (labels.getD 0 "") (labels.drop 1)).Regular where
  resource := hresource
  untyped := huntyped
  data hkind htype := by
    rw [hdata hkind htype]
    rfl
  ended hname := by
    cases labels with
    | nil => exact ⟨rfl, rfl⟩
    | cons label rest => exact absurd hname (hlabels label List.mem_cons_self)

theorem regular_build {first : String} {rest : List String} (h : ∀ p ∈ first :: rest, (splitKey p).1 ≠ "") :
    (build (first :: rest)).Regular := by
  have hne {p : String} (hp : p ∈ first :: rest) : p ≠ "" := by
    rintro rfl
    exact h "" hp rfl
  obtain ⟨hfirst, hrest⟩ := List.forall_mem_cons.mp h
  by_cases hresource : RefKind.ofRoot first = .resource
  · rw [build_resource hresource]
    exact regular_ofLabels (fun _ => ⟨hne List.mem_cons_self, hresource⟩) (fun h => absurd rfl h) nofun hrest
  · by_cases hdata : RefKind.ofRoot first = .data
    · cases rest with
      | nil =>
        rw [build_data_nil hdata]
        exact regular_ofLabels nofun nofun (fun _ _ => rfl) nofun
      | cons type rest =>
        have htype : type ≠ "" := hne (List.mem_cons_of_mem first List.mem_cons_self)
        rw [build_data hdata]
        exact regular_ofLabels nofun nofun (fun _ hempty => absurd hempty htype)
          fun p hp => hrest p (List.mem_cons_of_mem type hp)
    · rw [build_untyped hresource hdata]
      exact regular_ofLabels (fun h => absurd h hresource) (fun _ _ => rfl) (fun h => absurd h hdata) hrest

theorem names_ofLabels_dotless_iff (kind : RefKind) (type : String) {labels : List String}
    (hlabels : ∀ p ∈ labels, (splitKey p).1 ≠ "" ∧ ('.' ∈ (respell p).toList ↔ '.' ∈ p.toList)) :
    (∀ name ∈ (ofLabels kind type (labels.getD 0 "") (labels.drop 1)).names, '.' ∉ name.toList)
      ↔ '.' ∉ type.toList ∧ ∀ p ∈ labels, '.' ∉ p.toList := by
  have hkind : ∀ name ∈ (if kind = .resource then [] else [kind.text]), '.' ∉ name.toList := by
    intro name hname
    split at hname
    · exact absurd hname List.not_mem_nil
    · rw [List.mem_singleton.mp hname]
      exact text_dotless kind
  have htype : (∀ name ∈ (if type = "" then [] else [type]), '.' ∉ name.toList) ↔ '.' ∉ type.toList := by
    split
    · next h => simp [h]
    · rw [List.forall_mem_singleton]
  cases labels with
  | nil =>
    change (∀ name ∈ (ofLabels kind type "" []).names, '.' ∉ name.toList) ↔ _
    rw [names, if_pos (show (ofLabels kind type "" []).nameLabel = "" from rfl), List.forall_mem_append,
      List.forall_mem_append, List.forall_mem_append]
    constructor
    · rintro ⟨⟨⟨-, h⟩, -⟩, -⟩
      exact ⟨htype.mp h, nofun⟩
    · rintro ⟨h, -⟩
      exact ⟨⟨⟨hkind, htype.mpr h⟩, nofun⟩, nofun⟩
  | cons label rest =>
    obtain ⟨hname, hdot⟩ := hlabels label List.mem_cons_self
    change (∀ name ∈ (ofLabels kind type label rest).names, '.' ∉ name.toList) ↔ _
    rw [names, if_neg (show (ofLabels kind type label rest).nameLabel ≠ "" from hname), List.forall_mem_append,
      List.forall_mem_append, List.forall_mem_append, List.forall_mem_singleton, List.forall_mem_cons, ← hdot]
    constructor
    · rintro ⟨⟨⟨-, h⟩, hlabel⟩, hrest⟩
      exact ⟨htype.mp h, hlabel, hrest⟩
    · rintro ⟨h, hlabel, hrest⟩
      exact ⟨⟨⟨hkind, htype.mpr h⟩, hlabel⟩, hrest⟩

/-- The names between the dots have a dot where one of the labels has one. -/
theorem names_build_dotless_iff {first : String} {rest : List String}
    (h : ∀ p ∈ first :: rest, (splitKey p).1 ≠ "" ∧ ('.' ∈ (respell p).toList ↔ '.' ∈ p.toList)) :
    (∀ name ∈ (build (first :: rest)).names, '.' ∉ name.toList) ↔ ∀ p ∈ first :: rest, '.' ∉ p.toList := by
  obtain ⟨-, hrest⟩ := List.forall_mem_cons.mp h
  have hroot (hkind : RefKind.ofRoot first ≠ .resource) : '.' ∉ first.toList := by
    unfold RefKind.ofRoot at hkind
    split at hkind <;> first | decide | exact absurd rfl hkind
  rw [List.forall_mem_cons]
  by_cases hresource : RefKind.ofRoot first = .resource
  · rw [build_resource hresource]
    exact names_ofLabels_dotless_iff .resource first hrest
  · rw [and_iff_right (hroot hresource)]
    by_cases hdata : RefKind.ofRoot first = .data
    · cases rest with
      | nil =>
        rw [build_data_nil hdata]
        refine (names_ofLabels_dotless_iff .data "" fun p hp => absurd hp List.not_mem_nil).trans ?_
        exact and_iff_right List.not_mem_nil
      | cons type rest =>
        rw [build_data hdata, List.forall_mem_cons]
        exact names_ofLabels_dotless_iff .data type (List.forall_mem_cons.mp hrest).2
    · rw [build_untyped hresource hdata]
      exact (names_ofLabels_dotless_iff _ "" hrest).trans (and_iff_right List.not_mem_nil)

end Reference

/-! ## Labels with keys -/

namespace Quoted

theorem dot_of_mem_encodeChar {c : Char} (h : '.' ∈ encodeChar c) : c = '.' := by
  rcases encodeChar_cases c with ⟨e, he, hc⟩ | hc | ⟨-, -, hc⟩ <;> rw [hc] at h
  · have hnone : ∀ p ∈ shortEscapes, '.' ≠ p.2 := by decide
    simp [hnone _ he] at h
  · have hdigits := not_mem_toDigits (b := 16) (c := '.') (by decide) (by decide) c.toNat (by decide)
    simp [hdigits] at h
  · exact (List.mem_singleton.mp h).symm

theorem dot_mem_flatMap_encodeChar {cs : List Char} :
    '.' ∈ cs.flatMap encodeChar ↔ '.' ∈ cs ∧ '.' ∈ encodeChar '.' := by
  rw [List.mem_flatMap]
  constructor
  · rintro ⟨c, hc, hdot⟩
    obtain rfl := dot_of_mem_encodeChar hdot
    exact ⟨hc, hdot⟩
  · rintro ⟨hc, hdot⟩
    exact ⟨'.', hc, hdot⟩

theorem dot_mem_flatMap_kept {cs : List Char} : '.' ∈ cs.flatMap kept ↔ '.' ∈ cs.flatMap encodeChar := by
  rw [dot_mem_flatMap_encodeChar, List.mem_flatMap]
  constructor
  · rintro ⟨c, hc, hdot⟩
    unfold kept at hdot
    split at hdot
    · next hquote => exact absurd (List.mem_singleton.mp hdot) (by simp [hquote])
    · obtain rfl := dot_of_mem_encodeChar hdot
      exact ⟨hc, hdot⟩
  · rintro ⟨hc, hdot⟩
    exact ⟨'.', hc, by simpa [kept] using hdot⟩

end Quoted

theorem InstanceKey.dot_mem_text_reread (key : InstanceKey) :
    '.' ∈ key.reread.text.toList ↔ '.' ∈ key.text.toList := by
  cases key with
  | index i => rfl
  | name s =>
    rw [toList_text, toList_text, reread, inner, inner, String.toList_ofList]
    have hcore : '.' ∈ (s.toList.flatMap Quoted.kept).flatMap Quoted.encodeChar
        ↔ '.' ∈ s.toList.flatMap Quoted.encodeChar := by
      rw [Quoted.dot_mem_flatMap_encodeChar, Quoted.dot_mem_flatMap_kept, Quoted.dot_mem_flatMap_encodeChar, and_assoc,
        and_self]
    simp [Quoted.encode, hcore]

/-- A text that may be the name of something: not empty, and without the characters that end names in an address. All
identifiers are such. -/
structure IsWord (s : String) : Prop where
  nonempty : s ≠ ""
  noDot : '.' ∉ s.toList
  noBracket : '[' ∉ s.toList

/-- A word, or one with the key after it. -/
def IsNamed (key : Option InstanceKey) (label : String) : Prop :=
  IsWord label ∨ ∃ word k, IsWord word ∧ key = some k ∧ label = word ++ k.text

/-- The labels of a block that is declared with some, with the key of the instance after the last one. -/
def keyedLabels (declared : List String) : Option InstanceKey → List String
  | none => declared
  | some key => Arena.extendLabel declared key.text

section Labels

variable {key : Option InstanceKey} (hkey : ∀ k, key = some k → k.InRange)

include hkey

/-- How a label is read, and how it is printed and read then. -/
theorem IsNamed.cases {label : String} (h : IsNamed key label) :
    (IsWord label ∧ splitKey label = (label, none) ∧ respell label = label)
      ∨ ∃ word k, IsWord word ∧ key = some k ∧ label = word ++ k.text
        ∧ splitKey label = (word, some k.reread) ∧ respell label = word ++ k.reread.text
        ∧ splitKey (respell label) = (word, some k.reread.reread) := by
  rcases h with hword | ⟨word, k, hword, hk, rfl⟩
  · have hsplit := splitKey_of_not_mem hword.noBracket
    refine .inl ⟨hword, hsplit, ?_⟩
    rw [respell, hsplit]
    exact String.append_empty
  · have hrange := hkey k hk
    have hsplit := splitKey_append_text hword.noBracket hrange
    have hagain : k.reread.InRange := by
      cases k with
      | index i => exact hrange
      | name s => trivial
    have hrespell : respell (word ++ k.text) = word ++ k.reread.text := by
      rw [respell, hsplit]
      rfl
    exact .inr ⟨word, k, hword, hk, rfl, hsplit, hrespell, hrespell ▸ splitKey_append_text hword.noBracket hagain⟩

theorem IsNamed.name_ne_empty {label : String} (h : IsNamed key label) : (splitKey label).1 ≠ "" := by
  rcases h.cases hkey with ⟨hword, hsplit, -⟩ | ⟨word, k, hword, -, -, hsplit, -⟩ <;> rw [hsplit]
  · exact hword.nonempty
  · exact hword.nonempty

theorem IsNamed.dot_mem_respell {label : String} (h : IsNamed key label) :
    '.' ∈ (respell label).toList ↔ '.' ∈ label.toList := by
  rcases h.cases hkey with ⟨-, -, hrespell⟩ | ⟨word, k, -, -, rfl, -, hrespell, -⟩ <;> rw [hrespell]
  rw [String.toList_append, String.toList_append, List.mem_append, List.mem_append, k.dot_mem_text_reread]

theorem IsNamed.splitKey_respell_iff {label : String} (h : IsNamed key label) :
    splitKey (respell label) = splitKey label ↔ (splitKey label).2 = none ∨ ∀ k, key = some k → k.IsPlain := by
  rcases h.cases hkey with ⟨-, hsplit, hrespell⟩ | ⟨word, k, -, rfl, -, hsplit, -, hagain⟩
  · simp [hsplit, hrespell]
  · -- What is left escaped after the first reading is escaped once more by the second.
    have hplain : k.reread.reread = k.reread ↔ k.IsPlain :=
      ⟨fun h => InstanceKey.reread_eq_self_iff.mp (InstanceKey.reread_inj h), fun h => by
        rw [InstanceKey.reread_eq_self_iff.mpr h, InstanceKey.reread_eq_self_iff.mpr h]⟩
    simp [hagain, hsplit, hplain]

/-- A reference that is built of labels is read from its text. -/
theorem Reference.read_text_build {first : String} {rest : List String}
    (h : ∀ p ∈ first :: rest, IsNamed key p) : ∃ s, read (build (first :: rest)).text = .ok s ∧
      ((s.refersTo (build (first :: rest)) = true ∧ (build (first :: rest)).refersTo s = true
          ∧ s.remainder = (build (first :: rest)).remainder) ↔
        (∀ p ∈ first :: rest, '.' ∉ p.toList)
          ∧ ((build (first :: rest)).key = none ∨ ∀ k, key = some k → k.IsPlain)) := by
  obtain ⟨s, hread, hleads⟩ := read_text (regular_build fun p hp => (h p hp).name_ne_empty hkey)
  refine ⟨s, hread, hleads.trans (and_congr ?_ ?_)⟩
  · exact names_build_dotless_iff fun p hp => ⟨(h p hp).name_ne_empty hkey, (h p hp).dot_mem_respell hkey⟩
  · rw [build_eq]
    generalize hraw : (first :: rest).getD (arity (RefKind.ofRoot ((first :: rest).headD "")) - 1) "" = raw
    change splitKey (respell raw) = splitKey raw ↔ (splitKey raw).2 = none ∨ _
    rcases hraw ▸ getD_eq_or_mem (first :: rest) _ with rfl | hmem
    · exact iff_of_true rfl (.inl rfl)
    · exact (h raw hmem).splitKey_respell_iff hkey

end Labels

section Declared

variable {declared : List String} (hwords : ∀ word ∈ declared, IsWord word) (hne : declared ≠ [])

theorem keyedLabels_eq (h : declared ≠ []) (key : Option InstanceKey) :
    keyedLabels declared key = declared.dropLast ++ [declared.getLast h ++ keySuffix key] := by
  cases key with
  | none => simpa [keyedLabels, keySuffix] using (List.dropLast_concat_getLast h).symm
  | some k => exact Arena.extendLabel_of_ne_nil h k.text

include hwords hne

theorem isNamed_of_mem_keyedLabels {key : Option InstanceKey} {label : String}
    (h : label ∈ keyedLabels declared key) : IsNamed key label := by
  rw [keyedLabels_eq hne, List.mem_append, List.mem_singleton] at h
  rcases h with h | rfl
  · exact .inl (hwords label (List.dropLast_subset declared h))
  · have hlast := hwords _ (List.getLast_mem hne)
    cases key with
    | none => exact .inl (String.append_empty.symm ▸ hlast)
    | some k => exact .inr ⟨_, k, hlast, rfl, rfl⟩

theorem keyedLabels_dotless_iff (key : Option InstanceKey) : (∀ p ∈ keyedLabels declared key, '.' ∉ p.toList)
    ↔ ∀ k, key = some k → '.' ∉ k.text.toList := by
  have hfront : ∀ p ∈ declared.dropLast, '.' ∉ p.toList := fun p hp =>
    (hwords p (List.dropLast_subset declared hp)).noDot
  have hlast := (hwords _ (List.getLast_mem hne)).noDot
  rw [keyedLabels_eq hne, List.forall_mem_append, and_iff_right hfront, List.forall_mem_singleton, String.toList_append,
    List.mem_append, not_or, and_iff_right hlast]
  cases key <;> simp [keySuffix]

end Declared

/-- What is read from the name of a block leads back to the block, and the same way on, exactly if there is no dot in
its key, and no escape that is not undone in a key on its name label. -/
theorem localName_leads_back_iff {b : Block} {declared : List String} {key : Option InstanceKey}
    (hwords : ∀ word ∈ b.kind.name :: declared, IsWord word) (hne : declared ≠ [])
    (hkey : ∀ k, key = some k → k.InRange) (hlabels : b.labels = keyedLabels declared key) :
    ∃ r, Reference.read b.localName = .ok r ∧
      ((r.refersTo b.reference = true ∧ b.reference.refersTo r = true ∧ r.remainder = b.reference.remainder) ↔
        ∀ k, key = some k → '.' ∉ k.text.toList ∧ (b.reference.key = none ∨ k.IsPlain)) := by
  obtain ⟨hkind, hdeclared⟩ := List.forall_mem_cons.mp hwords
  have hnamed (p : String) (hp : p ∈ b.labels) : IsNamed key p :=
    isNamed_of_mem_keyedLabels hdeclared hne (hlabels ▸ hp)
  have hdotless := keyedLabels_dotless_iff hdeclared hne key
  rw [← hlabels] at hdotless
  -- The kind of a resource is no part of its name. Any other kind is one more word before the labels.
  have hparts : ∃ first rest, b.reference = .build (first :: rest) ∧ (∀ p ∈ first :: rest, IsNamed key p)
      ∧ ((∀ p ∈ first :: rest, '.' ∉ p.toList) ↔ ∀ p ∈ b.labels, '.' ∉ p.toList) := by
    by_cases hresource : b.kind.name = "resource"
    · cases hcases : b.labels with
      | nil => simp [hlabels, keyedLabels_eq hne] at hcases
      | cons first rest =>
        rw [hcases] at hnamed
        exact ⟨first, rest, by rw [Block.reference, Reference.ofBlock, if_pos hresource, hcases], hnamed, Iff.rfl⟩
    · refine ⟨b.kind.name, b.labels, by rw [Block.reference, Reference.ofBlock, if_neg hresource],
        List.forall_mem_cons.mpr ⟨.inl hkind, hnamed⟩, ?_⟩
      rw [List.forall_mem_cons, and_iff_right hkind.noDot]
  obtain ⟨first, rest, href, hall, hdots⟩ := hparts
  obtain ⟨r, hread, hleads⟩ := Reference.read_text_build hkey hall
  rw [← href] at hread hleads
  refine ⟨r, hread, hleads.trans ?_⟩
  rw [hdots, hdotless]
  cases key with
  | none => simp
  | some k => simp

/-- A resource of one declared name, with a key after it. -/
def keyedResource (key : InstanceKey) : Block :=
  { (default : Block) with kind := .resource, labels := keyedLabels ["r", "n"] (some key) }

theorem localName_leads_back_iff_backslash :
    (∃ r, Reference.read (keyedResource (.index 2)).localName = .ok r
        ∧ r.refersTo (keyedResource (.index 2)).reference = true)
      ∧ ∃ r, Reference.read (keyedResource (.name "\\")).localName = .ok r
        ∧ ¬ (r.refersTo (keyedResource (.name "\\")).reference = true
          ∧ (keyedResource (.name "\\")).reference.refersTo r = true
          ∧ r.remainder = (keyedResource (.name "\\")).reference.remainder) := by
  have hword {s : String} (h : s ≠ "" ∧ '.' ∉ s.toList ∧ '[' ∉ s.toList) : IsWord s := ⟨h.1, h.2.1, h.2.2⟩
  have hwords (key : InstanceKey) : ∀ word ∈ (keyedResource key).kind.name :: ["r", "n"], IsWord word := by
    have hall : ∀ word ∈ ["resource", "r", "n"], word ≠ "" ∧ '.' ∉ word.toList ∧ '[' ∉ word.toList := by decide
    exact fun word hmem => hword (hall word hmem)
  have hrange (key : InstanceKey) (h : key.InRange) : ∀ k, some key = some k → k.InRange := by
    rintro k ⟨⟩
    exact h
  constructor
  · obtain ⟨r, hread, hleads⟩ := localName_leads_back_iff (b := keyedResource (.index 2)) (hwords _)
      (List.cons_ne_nil "r" ["n"]) (hrange (.index 2) (by decide)) rfl
    refine ⟨r, hread, (hleads.mpr ?_).1⟩
    rintro k ⟨⟩
    exact ⟨by decide, .inr trivial⟩
  · obtain ⟨r, hread, hleads⟩ := localName_leads_back_iff (b := keyedResource (.name "\\")) (hwords _)
      (List.cons_ne_nil "r" ["n"]) (hrange (.name "\\") trivial) rfl
    refine ⟨r, hread, fun hback => ?_⟩
    rcases (hleads.mp hback _ rfl).2 with hnone | hplain
    · exact absurd hnone (by decide +kernel)
    · have hescaped := hplain '\\' (by decide)
      simp [Quoted.IsPlain] at hescaped

end InfraConfig
