import InfraConfig.Proofs.CommandSources
import InfraConfig.Proofs.FileRequests
import InfraConfig.Proofs.InnermostInstances
import InfraConfig.Proofs.SkippedInlining
import InfraConfig.Proofs.SourceDirectories

/-!
# The way from one directory to another

The way from a directory to a path climbs out of what the two do not share and goes down from there, so that following
it from the directory leads to the path. A module finds the way from the root of the project to its own directory under
`path.module`, and its files are found on that way.
-/

namespace InfraConfig

namespace FilePath

variable {base path x : String} {names start goal rest stop : List String}

/-! ## Ways as names -/

theorem sharedLength_le (start goal : List String) : sharedLength start goal ≤ start.length := by
  fun_induction sharedLength start goal with
  | case1 a as bs ih => exact Nat.succ_le_succ ih
  | case2 => exact Nat.zero_le _
  | case3 => exact Nat.zero_le _

theorem take_sharedLength (start goal : List String) :
    start.take (sharedLength start goal) = goal.take (sharedLength start goal) := by
  fun_induction sharedLength start goal with
  | case1 a as bs ih => rw [List.take_succ_cons, List.take_succ_cons, ih]
  | case2 => rfl
  | case3 => rfl

/-- The names on the way from one directory to another. -/
def way (start goal : List String) : List String :=
  List.replicate (start.length - sharedLength start goal) ".." ++ goal.drop (sharedLength start goal)

theorem relative_eq (base path : String) : relative base path =
    if (way (segments base) (segments path)).isEmpty then "." else joinText "/" (way (segments base) (segments path)) :=
  rfl

theorem Leads.climb (n : Nat) (h : Leads (start.take (start.length - n)) rest stop) :
    Leads start (List.replicate n ".." ++ rest) stop := by
  induction n generalizing start with
  | zero => rwa [Nat.sub_zero, List.take_length] at h
  | succ n ih =>
    refine .up (ih ?_)
    have hsame : start.dropLast.take (start.dropLast.length - n) = start.take (start.length - (n + 1)) := by
      rw [List.length_dropLast, List.dropLast_eq_take, List.take_take]
      congr 1
      omega
    rwa [hsame]

theorem leads_descend (start : List String) (h : ".." ∉ names) : Leads start names (start ++ names) := by
  induction names generalizing start with
  | nil =>
    rw [List.append_nil]
    exact .here start
  | cons name names ih =>
    rw [List.mem_cons, not_or] at h
    rw [List.append_cons]
    exact .into (Ne.symm h.1) (ih _ h.2)

/-- The way to a place leads there, up to where both go the same way and down from there. -/
theorem leads_way (start : List String) (h : ".." ∉ goal) : Leads start (way start goal) goal := by
  refine .climb _ ?_
  have hdown := leads_descend (start.take (sharedLength start goal)) fun hmem =>
    h (List.mem_of_mem_drop (i := sharedLength start goal) hmem)
  rwa [Nat.sub_sub_self (sharedLength_le start goal), take_sharedLength, List.take_append_drop] at *

theorem resolve_names (done : List String) (h : ".." ∉ names) : resolve done names = done.reverse ++ names :=
  (leads_descend done.reverse h).unique (leads_resolve done names)

theorem resolve_way (start : List String) (h : ".." ∉ goal) : resolve start.reverse (way start goal) = goal := by
  have hleads := leads_resolve start.reverse (way start goal)
  rw [List.reverse_reverse] at hleads
  exact (leads_way start h).unique hleads

/-! ## Ways as texts -/

theorem exists_joinText_cons (sep name : String) (names : List String) :
    ∃ rest, joinText sep (name :: names) = name ++ rest := by
  cases names with
  | nil => exact ⟨"", by simp [joinText, intercalateList]⟩
  | cons next names => exact ⟨_, (joinText_cons_cons sep name next names).trans String.append_assoc⟩

theorem segments_joinText (h : ∀ s ∈ names, IsName s) : segments (joinText "/" names) = names := by
  have htop : segments ("" ++ "/" ++ joinText "/" names) = names := segments_ofSegments h
  rw [segments_append_slash] at htop
  exact htop

theorem isName_of_mem_way (h : s ∈ way (segments base) (segments path)) : IsName s := by
  rcases List.mem_append.mp h with hup | hdown
  · rw [List.eq_of_mem_replicate hup]
    exact ⟨by decide, by decide, by decide⟩
  · exact isName_of_mem_segments (List.mem_of_mem_drop hdown)

theorem segments_relative (base path : String) :
    segments (relative base path) = way (segments base) (segments path) := by
  rw [relative_eq]
  split
  · next hempty =>
    rw [List.isEmpty_iff.mp hempty]
    decide
  · exact segments_joinText fun s => isName_of_mem_way

/-- A way begins with a name or a dot. -/
theorem exists_relative_eq (base path : String) : ∃ first rest, relative base path = first ++ rest ∧ first ≠ ""
    ∧ '/' ∉ first.toList := by
  rw [relative_eq]
  split
  · exact ⟨".", "", by decide, by decide, by decide⟩
  · next hne =>
    obtain ⟨name, names, hway⟩ := List.exists_cons_of_ne_nil fun hnil => hne (List.isEmpty_iff.mpr hnil)
    have hname : IsName name := isName_of_mem_way (hway ▸ List.mem_cons_self)
    obtain ⟨rest, hrest⟩ := exists_joinText_cons "/" name names
    exact ⟨name, rest, hway ▸ hrest, hname.nonempty, hname.noSlash⟩

theorem isAbsolute_relative_append (base path more : String) : isAbsolute (relative base path ++ more) = false := by
  obtain ⟨first, rest, hfirst, hne, hslash⟩ := exists_relative_eq base path
  obtain ⟨c, cs, hchars⟩ := List.exists_cons_of_ne_nil fun hnil => hne (String.toList_eq_nil_iff.mp hnil)
  rw [hchars, List.mem_cons, not_or] at hslash
  rw [isAbsolute, hfirst, String.toList_append, String.toList_append, hchars]
  simpa using Ne.symm hslash.1

theorem isEmpty_relative_append (base path more : String) : (relative base path ++ more).isEmpty = false := by
  obtain ⟨first, rest, hfirst, hne, -⟩ := exists_relative_eq base path
  rw [hfirst, Bool.eq_false_iff]
  simp [hne]

/-! ## Going back and forth -/

/-- An absolute path without dots, perhaps not in its shortest form. -/
structure IsDirect (path : String) : Prop where
  rooted : isAbsolute path = true
  noDots : ∀ c ∈ splitText "/" path, c ≠ "." ∧ c ≠ ".."

theorem IsPlace.direct (h : IsPlace path) : IsDirect path :=
  ⟨h.rooted, h.noDots⟩

theorem IsDirect.not_mem_segments (h : IsDirect path) : ".." ∉ segments path :=
  fun hmem => (h.noDots ".." (List.mem_filter.mp hmem).1).2 rfl

/-- The way from a directory to a path, joined to the directory, is the path again when its dots are resolved. -/
theorem absolute_join_relative (hbase : IsDirect base) (hpath : IsDirect path) (dir : String) :
    absolute dir (join base (relative base path)) = tidy path := by
  have hrelative : isAbsolute (relative base path) = false := by
    simpa using isAbsolute_relative_append base path ""
  rw [absolute, if_pos (isAbsolute_join hbase.rooted _), segments_join hbase.rooted hrelative, segments_relative,
    resolve_append, resolve_names [] hbase.not_mem_segments, List.reverse_nil, List.nil_append,
    resolve_way _ hpath.not_mem_segments, tidy, hpath.rooted]

/-- A path that goes on from the way to a directory means in the base what it means in the directory. -/
theorem absolute_relative_append (hbase : isAbsolute base = true) (hdir : IsDirect path) (hx : ".." ∉ segments x) :
    absolute base (relative base path ++ "/" ++ x) = tidy (path ++ "/" ++ x) := by
  have hnames : segments (relative base path ++ "/" ++ x) = way (segments base) (segments path) ++ segments x := by
    rw [segments_append_slash, segments_relative]
  rw [String.append_assoc] at hnames
  rw [absolute, String.append_assoc, isAbsolute_relative_append, if_neg Bool.false_ne_true, isEmpty_relative_append,
    if_neg Bool.false_ne_true, hnames, resolve_append, resolve_way _ hdir.not_mem_segments,
    resolve_names _ hx, List.reverse_reverse, hbase, tidy, segments_append_slash, String.append_assoc,
    isAbsolute_append hdir.rooted]

theorem segments_tidy (h : isAbsolute path = true) : segments (tidy path) = segments path := by
  rw [tidy, h, segments_ofSegments fun s => isName_of_mem_segments]

theorem IsInside.isWithin_append (h : IsInside base path) (hbase : isAbsolute base = true) (x : String) :
    isWithin base (tidy (path ++ "/" ++ x)) = true := by
  have hrooted : isAbsolute (path ++ "/" ++ x) = true := by
    rw [String.append_assoc]
    exact isAbsolute_append h.place.rooted _
  have hbelow : segments base <+: segments path ++ segments x := h.below.trans (List.prefix_append _ _)
  rw [isWithin, segments_tidy hrooted, segments_append_slash, List.isPrefixOf_iff_prefix.mpr hbelow, hbase, tidy,
    hrooted, isAbsolute_ofSegments]
  simp

end FilePath

open FilePath (isAbsolute segments tidy relative IsDirect IsInside)

/-! ## Files of a module -/

theorem Arena.toOption_evaluate (a : Arena) (scope : ScopeId) (e : Expr) : (a.evaluate scope e).toOption
    = (e.evalWithFiles (a.scopes.environment scope) a.files).toOption.map Value.ofDatum := by
  rw [evaluate]
  split
  · next hvalue => rw [hvalue]; rfl
  · next hvalue =>
    rw [hvalue]
    split <;> rfl

/-- The call `file("${path.module}/x")`, whose template is kept as `source`. -/
def Expr.fileBeside (source x : String) : Expr :=
  .call ⟨[], "file"⟩
    [.template source (some [.interpolation (.member "path" "module") ⟨false, false⟩, .literal ("/" ++ x)])] false

section

variable {env : Environment} {t : FileTable} {way x p : String}

/-- What stands in the quotation marks comes to the same text whether or not calls are looked for in it. -/
theorem evalItems_beside (source x : String)
    (hway : (Expr.member "path" "module").eval env = .ok (.text way)) :
    let template := Expr.template source
      (some [.interpolation (.member "path" "module") ⟨false, false⟩, .literal ("/" ++ x)])
    (inlineAll env t [template]).2 = []
      ∧ evalItems env (inlineAll env t [template]).1 = .ok [.text (way ++ "/" ++ x)] := by
  intro template
  have hself : (Expr.member "path" "module").inlineFiles env t = (.member "path" "module", []) := rfl
  have htext : way ++ ("/" ++ x ++ "") = way ++ "/" ++ x := by rw [String.append_empty, String.append_assoc]
  cases hmentioned : FileFunction.inTemplate source with
  | true =>
    have hinlined : template.inlineFiles env t = (.text (way ++ "/" ++ x), []) := by
      simp only [template, Expr.inlineFiles, hmentioned, renderTemplate, renderParts, hself, hway, Except.toOption,
        Option.bind_some, plainText, Option.map_some, htext, if_true, List.append_nil]
    simp only [inlineAll, hinlined, evalItems, Expr.eval]
    exact ⟨rfl, rfl⟩
  | false =>
    have hinlined : template.inlineFiles env t = (template, []) := by
      simp only [template, Expr.inlineFiles, hmentioned, if_neg Bool.false_ne_true]
    have hvalue : template.eval env = .ok (.text (way ++ "/" ++ x)) := by
      simp only [template, Expr.eval, evalParts, hway]
      exact congrArg (fun text => Except.ok (Datum.text text)) htext
    simp only [inlineAll, hinlined, evalItems, hvalue]
    exact ⟨rfl, rfl⟩

/-- The call has the text of the file that the way leads to, once it is read, and asks for it before. -/
theorem inlineFiles_fileBeside (source : String) (hway : (Expr.member "path" "module").eval env = .ok (.text way))
    (hpath : t.resolve? (way ++ "/" ++ x) = some p) (hnone : env.functions "file" = none) :
    (((Expr.fileBeside source x).inlineFiles env t).1.eval env).toOption = (t.contents.get? p).join.map .text
      ∧ ((Expr.fileBeside source x).inlineFiles env t).2 = if (t.contents.get? p).isNone then [p] else [] := by
  obtain ⟨hasked, hargs⟩ := evalItems_beside (t := t) source x hway
  have hname : FileFunction.ofName? ⟨[], "file"⟩ = some .file := by decide
  have hrest (args : List Expr) : ((Expr.call ⟨[], "file"⟩ args false).eval env).toOption = none := by
    simp only [Expr.eval, List.isEmpty_nil, if_true, hnone]
    rfl
  rw [Expr.fileBeside]
  simp only [Expr.inlineFiles, hname, hasked, hargs, Except.toOption, FileFunction.run, List.head?_cons,
    FileTable.lookup, hpath, List.nil_append]
  cases hget : t.contents.get? p with
  | none => exact ⟨hrest _, rfl⟩
  | some text =>
    cases text with
    | none => exact ⟨hrest _, rfl⟩
    | some s => exact ⟨rfl, rfl⟩

end

namespace ModuleRun

variable {s : Session} {d : Nat} {r : ModuleRun}

/-! ## Runs -/

theorem base_rootRun (s : Session) (inputs : Entries Value) (files : List SourceFile) :
    (Project.rootRun s inputs files).arena.files.base = s.root := by
  have hempty := wellFormed_empty s.root
  have htop : (Arena.empty s.root).newRoot.2.IsTop 0 := ⟨Nat.one_pos, rfl⟩
  obtain ⟨hinsert, hblocks⟩ := Arena.changes_insertFiles (P := fun _ => True) none files hempty htop.1 trivial
  have hstart := start_changes (P := fun _ => True) s ⟨s.root, s.root, _, none⟩ inputs [] (hinsert.wellFormed hempty)
    (htop.changes hinsert) (fun id hid => htop.root_eq ▸ hblocks id hid) trivial
  exact (hinsert.trans hstart).base_eq

/-- The files of all modules are looked for in the root directory. -/
theorem Reached.base_eq (h : Reached s d r) : r.arena.files.base = s.root := by
  induction h with
  | root inputs files => exact base_rootRun s inputs files
  | bind h ih => exact ((Rebinds.bindBlocks _).advances h.sound (.all _)).changes.base_eq.trans ih
  | calls h force hcalls ih =>
    exact (evaluateCalls_advances (contained_evaluateUpTo s _) h.sound (.all _) hcalls).changes.base_eq.trans ih
  | read h ih => exact (readWanted_advances s h.sound (.all _)).changes.base_eq.trans ih
  | load h hload ih => exact (loadModules_advances h.sound (.all _) hload).changes.base_eq.trans ih
  | expand h ih => exact (expandBlocks_advances h.sound (.all _)).changes.base_eq.trans ih
  | child h force hstarts ih =>
    exact (h.sound.started_changes (contained_evaluateUpTo s _) hstarts).base_eq.trans ih

/-- A run begins with the way to the directory of its module in its scope. -/
theorem directory_start (s : Session) {arena : Arena} (module : ModuleInstance) {root : ScopeId}
    (inputs : Entries Value) (visited : List VisitedModule) (h : root < arena.scopes.size) :
    (start s arena module root inputs visited).bindings.getPath? ["path", "module"]
      = some (.text (relative s.root module.path)) := by
  have hapart : Apart ["path", "cwd"] ["path", "module"] := Apart.cons_iff.mpr (Apart.of_head_ne (by decide) [] [])
  rw [bindings_start s module inputs visited h, surroundings]
  simp only [Entries.write, List.foldl_cons, List.foldl_nil]
  rw [Entries.getPath?_setPath_of_apart _ _ hapart, Entries.getPath?_setPath_leaf _ rfl (List.cons_ne_nil _ _)]

theorem Begins.directory (h : Begins s d r) :
    r.bindings.getPath? ["path", "module"] = some (.text (relative s.root r.module.path)) := by
  cases h with
  | root inputs files =>
    have hroot : 0 < (Arena.empty s.root).newRoot.2.scopes.size := Nat.one_pos
    obtain ⟨hinsert, -⟩ :=
      Arena.changes_insertFiles (P := fun _ => True) none files (wellFormed_empty s.root) hroot trivial
    exact directory_start s _ inputs [] (Nat.lt_of_lt_of_le hroot hinsert.size_scopes_le)
  | @child _ r mid call h force hstarts =>
    obtain ⟨before, after, done, hcalls, heach⟩ := hstarts.reached
    have hsub : before ⊆ r.calls := hcalls ▸ List.subset_append_left _ _
    have hmem : call ∈ r.calls := hcalls ▸ List.mem_append_right _ List.mem_cons_self
    have hmid := (evaluateEach_changes (contained_evaluateUpTo s _) h.sound hsub heach).1
    have hroot : call.root < mid.arena.scopes.size :=
      Nat.lt_of_lt_of_le (h.sound.calls call hmem).top.1 hmid.size_scopes_le
    refine directory_start s _ _ _ ?_
    rw [scopes_noting]
    exact hroot

end ModuleRun

open ModuleRun (Begins Reached callsBelow calledBefore firstStarted nested_firstStarted)

/-! ## Main result -/

/-- The way from a directory to a path leads back: joined to the directory it is the path again, in its shortest form,
when dots are resolved by their meaning. Each module begins with the way from the root of the project to its directory
under `path.module`; in a scope that shows this, `file("${path.module}/x")` stands for the file `x` of the directory of
the module: its text is that of this file once it is read, and this file is what is asked for before. -/
theorem relative_leads_back :
    (∀ base path, IsDirect base → IsDirect path →
      ∀ dir, FilePath.absolute dir (FilePath.join base (relative base path)) = tidy path)
      ∧ (∀ s d r, Begins s d r →
        r.bindings.getPath? ["path", "module"] = some (.text (relative s.root r.module.path)))
      ∧ ∀ s d r scope source x, isAbsolute s.root = true → Reached s d r → IsInside s.root r.module.path →
        (r.arena.scopes.merged scope).getPath? ["path", "module"] = some (.text (relative s.root r.module.path)) →
        ".." ∉ segments x →
        let path := tidy (r.module.path ++ "/" ++ x)
        (r.arena.evaluate scope (.fileBeside source x)).toOption = (r.arena.files.contents.get? path).join.map .text
          ∧ (Expr.fileBeside source x).askedFiles (r.arena.scopes.environment scope) r.arena.files
            = if (r.arena.files.contents.get? path).isNone then [path] else [] := by
  refine ⟨fun base path => FilePath.absolute_join_relative, fun s d r => Begins.directory, ?_⟩
  intro s d r scope source x hroot hr hinside hbound hx path
  have hway := Scopes.eval_member hbound rfl
  have hresolve : r.arena.files.resolve? (relative s.root r.module.path ++ "/" ++ x) = some path := by
    rw [FileTable.resolve?_eq_some_iff, hr.base_eq]
    exact ⟨(FilePath.absolute_relative_append hroot hinside.place.direct hx).symm, hinside.isWithin_append hroot x⟩
  obtain ⟨hvalue, hasked⟩ := inlineFiles_fileBeside source hway hresolve rfl
  rw [← Expr.evalWithFiles_eq] at hvalue
  rw [Expr.askedFiles_eq, hasked, Arena.toOption_evaluate, hvalue, Option.map_map]
  exact ⟨rfl, rfl⟩

/-- The root module of `/p` calls a module in `/p/b`. A way goes up before it goes down, and the module asks for a file
of its own. -/
theorem relative_leads_back_calledBefore :
    let s : Session := ⟨callsBelow, "/p", "default", false, 6, []⟩
    IsDirect "/p/b" ∧ IsDirect "/p/c/d" ∧ relative "/p/b" "/p/c/d" = "../c/d"
      ∧ FilePath.absolute "/" (FilePath.join "/p/b" (relative "/p/b" "/p/c/d")) = tidy "/p/c/d"
      ∧ ∃ r, Begins s 998 r ∧ r.module.path = "/p/b"
        ∧ r.bindings.getPath? ["path", "module"] = some (.text (relative "/p" "/p/b"))
        ∧ (Expr.fileBeside "$\x7bpath.module\x7d/x" "x").askedFiles (r.arena.scopes.environment r.root) r.arena.files
          = ["/p/b/x"] := by
  intro s
  have hfrom : IsDirect "/p/b" := ⟨by decide, by decide +kernel⟩
  have hto : IsDirect "/p/c/d" := ⟨by decide, by decide +kernel⟩
  have hinside : IsInside "/p" "/p/b" := ⟨⟨by decide, by decide +kernel, by decide +kernel⟩, by decide +kernel⟩
  have hcheck : (firstStarted s calledBefore 1).any (fun (start, _) => start.module.path == "/p/b"
      && ((start.arena.scopes.merged start.root).getPath? ["path", "module"]).any (Value.identical (.text "b"))
      && (start.arena.files.contents.get? "/p/b/x").isNone) = true := by
    decide +kernel
  obtain ⟨⟨r, frame⟩, hstart, hcheck⟩ := (Option.any_eq_true _ _).mp hcheck
  simp only [Bool.and_eq_true, beq_iff_eq] at hcheck
  obtain ⟨⟨hpath, hbound⟩, hunread⟩ := hcheck
  obtain ⟨v, hv, hsame⟩ := (Option.any_eq_true _ _).mp hbound
  rw [← Value.eq_of_identical hsame] at hv
  have hway : relative "/p" "/p/b" = "b" := by decide +kernel
  have hfile : tidy ("/p/b" ++ "/" ++ "x") = "/p/b/x" := by decide +kernel
  have hbegins : Begins s 998 r := (nested_firstStarted hstart).begins
  have hdirectory := relative_leads_back.2.1 s 998 r hbegins
  obtain ⟨-, hasked⟩ := relative_leads_back.2.2 s 998 r r.root "$\x7bpath.module\x7d/x" "x" (by decide) hbegins.reached
    (hpath ▸ hinside) (by rw [hv, hpath, hway]) (by decide +kernel)
  rw [hpath, hfile, if_pos hunread] at hasked
  rw [hpath] at hdirectory
  exact ⟨hfrom, hto, by decide +kernel, relative_leads_back.1 _ _ hfrom hto "/",
    r, hbegins, hpath, hdirectory, hasked⟩

end InfraConfig
