import InfraConfig.Files.Table
import InfraConfig.Proofs.SeparatedTexts

/-!
# Places of files

A place is an absolute path that is written without dots and without empty names. Resolving the dots of a path by
their meaning alone gives a place, and whether a place lies in a directory is seen from the names that both begin
with.
-/

namespace InfraConfig

/-! ## Texts between slashes -/

theorem splitText_slash (s : String) : splitText "/" s = (s.toList.splitOn '/').map String.ofList :=
  splitText_eq_splitOn rfl s

theorem splitText_append_slash (s t : String) : splitText "/" (s ++ "/" ++ t) = splitText "/" s ++ splitText "/" t :=
  splitText_append rfl s t

namespace FilePath

/-- The name of a file or directory, as it stands between slashes. -/
structure IsName (s : String) : Prop where
  nonempty : s ≠ ""
  noDot : s ≠ "."
  noSlash : '/' ∉ s.toList

/-- An absolute path in its shortest form that has no dots to resolve. -/
structure IsPlace (path : String) : Prop where
  rooted : isAbsolute path = true
  shortest : tidy path = path
  noDots : ∀ c ∈ splitText "/" path, c ≠ "." ∧ c ≠ ".."

/-- A place in a directory, at any depth, or the directory itself. -/
structure IsInside (base path : String) : Prop where
  place : IsPlace path
  below : segments base <+: segments path

variable {base path s : String} {names done rest : List String}

/-! ## Segments -/

theorem isName_of_mem_segments (h : s ∈ segments path) : IsName s := by
  obtain ⟨hpiece, hkept⟩ := List.mem_filter.mp h
  rw [splitText_slash, List.mem_map] at hpiece
  obtain ⟨piece, hpiece, rfl⟩ := hpiece
  simp only [Bool.not_or, Bool.and_eq_true, Bool.not_eq_true', beq_eq_false_iff_ne] at hkept
  refine ⟨fun hempty => ?_, hkept.2, ?_⟩
  · rw [hempty] at hkept
    exact absurd hkept.1 (by decide)
  · rw [String.toList_ofList]
    exact not_mem_of_mem_splitOn hpiece

theorem segments_append_slash (base path : String) : segments (base ++ "/" ++ path) = segments base ++ segments path := by
  rw [segments, splitText_append_slash, List.filter_append]
  rfl

theorem toList_ofSegments (names : List String) :
    (ofSegments true names).toList = '/' :: ['/'].intercalate (names.map String.toList) := by
  simp [ofSegments, joinText, intercalateList_eq]

theorem isAbsolute_ofSegments (names : List String) : isAbsolute (ofSegments true names) = true := by
  rw [isAbsolute, toList_ofSegments]
  rfl

theorem splitText_ofSegments (h : ∀ s ∈ names, IsName s) :
    splitText "/" (ofSegments true names) = "" :: if names = [] then [""] else names := by
  rw [splitText_slash, toList_ofSegments, List.splitOn_cons_eq_if_modifyHead, if_pos (by decide), List.map_cons]
  refine congrArg _ ?_
  -- Nothing stands before the first slash; if it is all there is, nothing stands after it either.
  cases hnames : names with
  | nil => rfl
  | cons name others =>
    have hslash : ∀ piece ∈ names.map String.toList, '/' ∉ piece := by
      intro piece hpiece
      obtain ⟨s, hs, rfl⟩ := List.mem_map.mp hpiece
      exact (h s hs).noSlash
    rw [← hnames, List.splitOn_intercalate '/' hslash (by simp [hnames]), List.map_map, if_neg (by simp [hnames])]
    simp [Function.comp_def]

theorem segments_ofSegments (h : ∀ s ∈ names, IsName s) : segments (ofSegments true names) = names := by
  rw [segments, splitText_ofSegments h]
  have hall : (names.filter fun s => !(s.isEmpty || s == ".")) = names := by
    refine List.filter_eq_self.mpr fun s hs => ?_
    simpa [(h s hs).noDot] using (h s hs).nonempty
  split
  · next hnil =>
    subst hnil
    rfl
  · simpa using hall

theorem isPlace_ofSegments (h : ∀ s ∈ names, IsName s) (hdots : ".." ∉ names) : IsPlace (ofSegments true names) := by
  refine ⟨isAbsolute_ofSegments names, ?_, fun c hc => ?_⟩
  · rw [tidy, isAbsolute_ofSegments, segments_ofSegments h]
  · rw [splitText_ofSegments h] at hc
    have hcases : c = "" ∨ c ∈ names := by
      split at hc
      · exact .inl (by simpa using hc)
      · exact List.mem_cons.mp hc
    rcases hcases with rfl | hname
    · decide
    · exact ⟨(h c hname).noDot, fun heq => hdots (heq ▸ hname)⟩

theorem IsPlace.not_mem_segments (h : IsPlace path) : ".." ∉ segments path :=
  fun hmem => (h.noDots ".." (List.mem_filter.mp hmem).1).2 rfl

/-! ## Resolving dots -/

/-- Only what stands for itself is left when double dots are resolved. -/
theorem mem_resolve (h : s ∈ resolve done rest) : s ∈ done ∨ s ∈ rest ∧ s ≠ ".." := by
  induction rest generalizing done with
  | nil => exact .inl (List.mem_reverse.mp h)
  | cons name rest ih =>
    rw [resolve] at h
    split at h
    · rcases ih h with hdone | ⟨hrest, hne⟩
      · exact .inl (List.mem_of_mem_tail hdone)
      · exact .inr ⟨List.mem_cons_of_mem name hrest, hne⟩
    · next hname =>
      rcases ih h with hdone | ⟨hrest, hne⟩
      · rcases List.mem_cons.mp hdone with rfl | hdone
        · exact .inr ⟨List.mem_cons_self, hname⟩
        · exact .inl hdone
      · exact .inr ⟨List.mem_cons_of_mem name hrest, hne⟩

/-- What a path means in a place is a place. -/
theorem IsPlace.ofAbsolute (h : IsPlace base) (path : String) : IsPlace (absolute base path) := by
  have hplace (done : List String) (hnames : ∀ s ∈ done, IsName s) (hdots : ".." ∉ done) :
      IsPlace (ofSegments true (resolve done (segments path))) := by
    refine isPlace_ofSegments (fun s hs => ?_) fun hmem => ?_
    · exact (mem_resolve hs).elim (hnames s) fun hrest => isName_of_mem_segments hrest.1
    · exact (mem_resolve hmem).elim hdots fun hrest => hrest.2 rfl
  rw [absolute]
  split
  · exact hplace [] (by simp) (by simp)
  · split
    · exact h
    · rw [h.rooted]
      exact hplace _ (fun s hs => isName_of_mem_segments (List.mem_reverse.mp hs)) (by simpa using h.not_mem_segments)

theorem IsPlace.inside_of_isWithin (h : IsPlace path) (hwithin : isWithin base path = true) : IsInside base path :=
  ⟨h, List.isPrefixOf_iff_prefix.mp (Bool.and_eq_true_iff.mp hwithin).2⟩

end FilePath

end InfraConfig
