import InfraConfig.Proofs.EnclosingCalls
import InfraConfig.Proofs.FilePlaces

/-!
# Directories of sources

A path leads from a directory to another one name by name: two dots go up, every other name goes into a directory. The
directory of a relative source is where the source leads from the directory of the calling module, unless the source
stands in the list of installed modules: then it is the listed directory, whichever module calls.
-/

namespace InfraConfig

namespace FilePath

/-! ## Ways -/

/-- Names that lead from one directory to another, given by the names that lead to it from the top. -/
inductive Leads : List String → List String → List String → Prop where
  | here (start) : Leads start [] start
  | up {start rest stop} (h : Leads start.dropLast rest stop) : Leads start (".." :: rest) stop
  | into {start name rest stop} (hname : name ≠ "..") (h : Leads (start ++ [name]) rest stop) :
      Leads start (name :: rest) stop

variable {base path dest other : String} {start stop rest : List String}

theorem Leads.unique {far : List String} (h : Leads start rest stop) (k : Leads start rest far) : far = stop := by
  induction h with
  | here => cases k; rfl
  | up _ ih =>
    cases k with
    | up k => exact ih k
    | into hname => exact absurd rfl hname
  | into hname _ ih =>
    cases k with
    | up => exact absurd rfl hname
    | into _ k => exact ih k

/-- Where dots are resolved as they are read, the way is followed. -/
theorem leads_resolve (done rest : List String) : Leads done.reverse rest (resolve done rest) := by
  induction rest generalizing done with
  | nil => exact .here _
  | cons name rest ih =>
    rw [resolve]
    split
    · next hname =>
      subst hname
      have hback := ih done.tail
      rw [← List.dropLast_reverse] at hback
      exact .up hback
    · next hname =>
      have hfurther := ih (name :: done)
      rw [List.reverse_cons] at hfurther
      exact .into hname hfurther

theorem resolve_append (done rest more : List String) :
    resolve done (rest ++ more) = resolve (resolve done rest).reverse more := by
  induction rest generalizing done with
  | nil => rw [List.nil_append, resolve, List.reverse_reverse]
  | cons name rest ih =>
    rw [List.cons_append, resolve, resolve]
    split
    · exact ih _
    · exact ih _

/-- `dest` is the place that a path means in the directory `base`. -/
structure LeadsFrom (base path dest : String) : Prop where
  place : IsPlace dest
  way : ∃ names, Leads [] (segments base) names ∧ Leads names (segments path) (segments dest)

theorem IsPlace.eq_of_segments (h : IsPlace dest) (k : IsPlace other) (hsame : segments dest = segments other) :
    dest = other := by
  rw [← h.shortest, ← k.shortest, tidy, tidy, h.rooted, k.rooted, hsame]

theorem LeadsFrom.unique (h : LeadsFrom base path dest) (k : LeadsFrom base path other) : dest = other := by
  obtain ⟨names, hbase, hpath⟩ := h.way
  obtain ⟨others, kbase, kpath⟩ := k.way
  obtain rfl := hbase.unique kbase
  exact h.place.eq_of_segments k.place (kpath.unique hpath)

/-! ## Joined paths -/

theorem segments_join (hbase : isAbsolute base = true) (hpath : isAbsolute path = false) :
    segments (join base path) = segments base ++ segments path := by
  have hne : base.isEmpty = false := by
    by_contra hempty
    rw [Bool.not_eq_false, String.isEmpty_iff] at hempty
    rw [hempty] at hbase
    cases hbase
  rw [join, if_neg (by simp [hpath]), if_neg (by simp [hne])]
  split
  · next hlast =>
    -- What stands before the last slash has the same segments.
    obtain ⟨front, hfront⟩ : ∃ front, base = front ++ "/" := by
      obtain ⟨cs, hcs⟩ := List.getLast?_eq_some_iff.mp (beq_iff_eq.mp hlast)
      exact ⟨.ofList cs, String.toList_inj.mp (by simp [hcs])⟩
    have hsame : segments (front ++ "/") = segments front := by
      have happend := segments_append_slash front ""
      rw [String.append_empty] at happend
      rw [happend]
      exact List.append_nil _
    rw [hfront, segments_append_slash, hsame]
  · exact segments_append_slash base path

theorem isAbsolute_append (h : isAbsolute base = true) (more : String) : isAbsolute (base ++ more) = true := by
  rw [isAbsolute] at h ⊢
  rw [String.toList_append]
  cases hchars : base.toList with
  | nil =>
    rw [hchars] at h
    cases h
  | cons c cs =>
    rw [hchars] at h
    exact h

theorem isAbsolute_join (hbase : isAbsolute base = true) (path : String) : isAbsolute (join base path) = true := by
  rw [join]
  split
  · assumption
  · split
    · next hempty =>
      rw [String.isEmpty_iff] at hempty
      rw [hempty] at hbase
      cases hbase
    · split
      · exact isAbsolute_append hbase path
      · rw [String.append_assoc]
        exact isAbsolute_append hbase _

theorem leadsFrom_absolute {top : String} (h : isAbsolute path = true) : LeadsFrom "/" path (absolute top path) := by
  have hnames : ∀ s ∈ resolve [] (segments path), IsName s := fun s hs =>
    (mem_resolve hs).elim (fun hnone => absurd hnone List.not_mem_nil) fun hrest => isName_of_mem_segments hrest.1
  have hdots : ".." ∉ resolve [] (segments path) := fun hmem =>
    (mem_resolve hmem).elim (fun hnone => absurd hnone List.not_mem_nil) fun hrest => hrest.2 rfl
  rw [absolute, if_pos h]
  refine ⟨isPlace_ofSegments hnames hdots, [], .here [], ?_⟩
  rw [segments_ofSegments hnames]
  exact leads_resolve [] (segments path)

/-- Joined to an absolute path, a path leads on from there; one that is absolute itself starts at the top. -/
theorem leadsFrom_join {top : String} (hbase : isAbsolute base = true) (path : String) :
    LeadsFrom (if isAbsolute path then "/" else base) path (absolute top (join base path)) := by
  split
  · next hpath =>
    rw [join, if_pos hpath]
    exact leadsFrom_absolute hpath
  · next hpath =>
    have hjoined : LeadsFrom "/" (join base path) (absolute top (join base path)) :=
      leadsFrom_absolute (isAbsolute_join hbase path)
    obtain ⟨names, hnone, hway⟩ := hjoined.way
    obtain rfl : names = [] := (Leads.here []).unique hnone
    refine ⟨hjoined.place, _, leads_resolve [] (segments base), ?_⟩
    rw [segments_join hbase (Bool.eq_false_iff.mpr hpath)] at hway
    have hall := leads_resolve [] (segments base ++ segments path)
    rw [hall.unique hway, resolve_append]
    have hrest := leads_resolve (resolve [] (segments base)).reverse (segments path)
    rwa [List.reverse_reverse] at hrest

end FilePath

open FilePath (isAbsolute IsPlace LeadsFrom)

/-! ## Sources -/

/-- Whether a source is a path from the directory of the calling module. -/
def IsRelative (source : String) : Prop :=
  startsWithText source "./" = true ∨ startsWithText source "../" = true

instance (source : String) : Decidable (IsRelative source) :=
  inferInstanceAs (Decidable (_ ∨ _))

/-- Whether a module is listed under a source, with or without the name of the registry. -/
def InstalledModule.IsFor (source : String) (m : InstalledModule) : Prop :=
  m.source = source ∨ m.source = "registry.terraform.io/" ++ source

/-- Where a relative source leads: from the directory of the calling module, unless it is listed; then from the root
directory to the directory of the first module that is listed under it. -/
inductive SourceLeads (installed : List InstalledModule) (root path source dest : String) : Prop where
  | unlisted (hnone : ∀ m ∈ installed, ¬ m.IsFor source) (h : LeadsFrom path source dest)
  | listed (before : List InstalledModule) (m : InstalledModule) (after : List InstalledModule)
      (hsplit : installed = before ++ m :: after) (hbefore : ∀ e ∈ before, ¬ e.IsFor source) (hm : m.IsFor source)
      (h : LeadsFrom (if isAbsolute m.directory then "/" else root) m.directory dest)

variable {installed : List InstalledModule} {root path source dest : String}

theorem IsRelative.isAbsolute_eq (h : IsRelative source) : isAbsolute source = false := by
  have hfront (cs : List Char) (h : ('.' :: cs).isPrefixOf source.toList = true) : isAbsolute source = false := by
    obtain ⟨rest, hrest⟩ := List.isPrefixOf_iff_prefix.mp h
    rw [isAbsolute, ← hrest]
    rfl
  rcases h with h | h
  · exact hfront ['/'] h
  · exact hfront ['.', '/'] h

/-- The function that finds the directory of a source takes the first module that is listed under it. -/
theorem moduleDirectory?_eq (installed : List InstalledModule) (root path : String) (h : IsRelative source) :
    (∀ m ∈ installed, ¬ m.IsFor source)
        ∧ moduleDirectory? installed root path source = some (FilePath.absolute path (FilePath.join path source))
      ∨ ∃ before m after, installed = before ++ m :: after ∧ (∀ e ∈ before, ¬ e.IsFor source) ∧ m.IsFor source
        ∧ moduleDirectory? installed root path source
          = some (FilePath.absolute root (FilePath.join root m.directory)) := by
  have hlisted (m : InstalledModule) : (m.source == source || m.source == "registry.terraform.io/" ++ source) = true
      ↔ m.IsFor source := by
    rw [Bool.or_eq_true, beq_iff_eq, beq_iff_eq, InstalledModule.IsFor]
  rw [moduleDirectory?]
  cases hfind : installed.find? fun m => m.source == source || m.source == "registry.terraform.io/" ++ source with
  | none =>
    refine .inl ⟨fun m hm hfor => ?_, ?_⟩
    · exact List.find?_eq_none.mp hfind m hm ((hlisted m).mpr hfor)
    · exact if_pos (Bool.or_eq_true _ _ ▸ h)
  | some m =>
    obtain ⟨hm, before, after, hsplit, hbefore⟩ := List.find?_eq_some_iff_append.mp hfind
    refine .inr ⟨before, m, after, hsplit, fun e he hfor => ?_, (hlisted m).mp hm, rfl⟩
    have hnot := hbefore e he
    rw [(hlisted e).mpr hfor] at hnot
    cases hnot

theorem sourceLeads_of_moduleDirectory (hroot : isAbsolute root = true) (hpath : isAbsolute path = true)
    (hsource : IsRelative source) (h : moduleDirectory? installed root path source = some dest) :
    SourceLeads installed root path source dest := by
  rcases moduleDirectory?_eq installed root path hsource with
    ⟨hnone, hfound⟩ | ⟨before, m, after, hsplit, hbefore, hm, hfound⟩
  · obtain rfl := Option.some.inj (h.symm.trans hfound)
    have hleads : LeadsFrom (if isAbsolute source then "/" else path) source
        (FilePath.absolute path (FilePath.join path source)) := FilePath.leadsFrom_join hpath source
    rw [hsource.isAbsolute_eq] at hleads
    exact .unlisted hnone hleads
  · obtain rfl := Option.some.inj (h.symm.trans hfound)
    exact .listed before m after hsplit hbefore hm (FilePath.leadsFrom_join hroot m.directory)

/-- There is one way to split a list at the first member that has a property. -/
theorem first_unique {α : Type} {P : α → Prop} {before others after rest : List α} {x y : α}
    (h : before ++ x :: after = others ++ y :: rest) (hbefore : ∀ e ∈ before, ¬ P e) (hx : P x)
    (hothers : ∀ e ∈ others, ¬ P e) (hy : P y) : x = y := by
  induction before generalizing others with
  | nil =>
    cases others with
    | nil => exact (List.cons.inj h).1
    | cons e others => exact absurd ((List.cons.inj h).1 ▸ hx) (hothers e List.mem_cons_self)
  | cons e before ih =>
    cases others with
    | nil => exact absurd ((List.cons.inj h).1 ▸ hy) (hbefore e List.mem_cons_self)
    | cons f others =>
      exact ih (List.cons.inj h).2 (fun e he => hbefore e (List.mem_cons_of_mem _ he))
        fun e he => hothers e (List.mem_cons_of_mem _ he)

theorem SourceLeads.unique {other : String} (h : SourceLeads installed root path source dest)
    (k : SourceLeads installed root path source other) : dest = other := by
  cases h with
  | unlisted hnone h =>
    cases k with
    | unlisted _ k => exact h.unique k
    | listed before m after hsplit _ hm _ =>
      exact absurd hm (hnone m (hsplit ▸ List.mem_append_right _ List.mem_cons_self))
  | listed before m after hsplit hbefore hm h =>
    cases k with
    | unlisted hnone _ => exact absurd hm (hnone m (hsplit ▸ List.mem_append_right _ List.mem_cons_self))
    | listed others n rest hother hothers hn k =>
      obtain rfl := first_unique (hsplit.symm.trans hother) hbefore hm hothers hn
      exact h.unique k

/-! ## In a run -/

namespace ModuleRun

variable {s : Session} {inputs : Entries Value} {sources : List SourceFile} {d : Nat} {start r : ModuleRun}
  {frames : List Frame} {b : Block} {target : VisitedModule}

/-- The directory that a block calls is absolute if that of its own module is. -/
theorem LeadsTo.isAbsolute_path (h : LeadsTo s r b target) (hroot : isAbsolute s.root = true)
    (hpath : isAbsolute r.module.path = true) : isAbsolute target.path = true := by
  obtain ⟨attr, source, -, -, hfound⟩ := h.source
  rw [moduleDirectory?] at hfound
  split at hfound
  · exact Option.some.inj hfound ▸ (FilePath.leadsFrom_join hroot _).place.rooted
  · split at hfound
    · exact Option.some.inj hfound ▸ (FilePath.leadsFrom_join hpath _).place.rooted
    · cases hfound

/-- Every evaluator has an absolute directory: the root, or one that another evaluator has called. -/
theorem Nested.isAbsolute_path (h : Nested s inputs sources d start frames) (hroot : isAbsolute s.root = true) :
    isAbsolute start.module.path = true := by
  induction h with
  | root => exact hroot
  | @child d start r mid frames before call after done hstart hr force hcalls hbefore isOpen due ih =>
    have hmem : call ∈ r.calls := hcalls ▸ List.mem_append_right _ List.mem_cons_self
    have hs := hstart.begins.reached.sound
    obtain ⟨earlier, id, hopened⟩ := hr.exists_openedEarlier (contained_evaluateUpTo s (d + 1))
      (keepsTexts_evaluateUpTo s (d + 1)) hs hstart.begins.calls_eq hmem
    obtain ⟨target, hleads, hpath⟩ := hopened.leadsTo
    have hdirectory : isAbsolute earlier.expandCalls.2.module.path = true := by
      have hsame : earlier.expandCalls.2.module.path = earlier.module.path := rfl
      rw [hsame, hopened.continues.path (contained_evaluateUpTo s (d + 1)) hs]
      exact ih
    rw [path_started, ← hpath]
    exact hleads.isAbsolute_path hroot hdirectory

theorem Reached.isAbsolute_path (h : Reached s d r) (hroot : isAbsolute s.root = true) :
    isAbsolute r.module.path = true := by
  obtain ⟨inputs, sources, start, frames, hstart, hr⟩ := h.exists_nested
  rw [hr.path (contained_evaluateUpTo s d) hstart.begins.reached.sound]
  exact hstart.isAbsolute_path hroot

end ModuleRun

open ModuleRun (Reached LeadsTo)

/-- A relative source leads to one directory: that to which it leads from the calling module, or, if it is listed as
the source of an installed module, the first listed one. In a run this is the directory that is called. -/
theorem relative_source_directory (hsource : IsRelative source) :
    (∀ installed root path, isAbsolute root = true → isAbsolute path = true →
      ∃ dest, moduleDirectory? installed root path source = some dest
        ∧ ∀ other, SourceLeads installed root path source other ↔ other = dest)
      ∧ ∀ (s : Session) d r b target attr, isAbsolute s.root = true → Reached s d r → LeadsTo s r b target →
        b.attribute? "source" = some attr → (r.arena.value b attr).text? = some source →
        SourceLeads s.installed s.root r.module.path source target.path := by
  constructor
  · intro installed root path hroot hpath
    obtain ⟨dest, hdest⟩ : ∃ dest, moduleDirectory? installed root path source = some dest := by
      rcases moduleDirectory?_eq installed root path hsource with ⟨-, hfound⟩ | ⟨before, m, after, -, -, -, hfound⟩
      · exact ⟨_, hfound⟩
      · exact ⟨_, hfound⟩
    have hleads := sourceLeads_of_moduleDirectory hroot hpath hsource hdest
    refine ⟨dest, hdest, fun other => ⟨fun hother => hother.unique hleads, fun hsame => hsame ▸ hleads⟩⟩
  · intro s d r b target attr hroot hr hleads hattr hvalue
    obtain ⟨given, text, hgiven, htext, hfound⟩ := hleads.source
    obtain rfl := Option.some.inj (hgiven.symm.trans hattr)
    obtain rfl := Option.some.inj (htext.symm.trans hvalue)
    exact sourceLeads_of_moduleDirectory hroot (hr.isAbsolute_path hroot) hsource hfound

/-- Two modules that call a directory `net` of their own, as they are listed when the project is set up. -/
def twoNets : List InstalledModule :=
  [⟨"", "."⟩, ⟨"./net", "net"⟩, ⟨"./a", "a"⟩, ⟨"./net", "a/net"⟩]

/-- A call in the root module. -/
def netCalled : List SourceFile :=
  [⟨"main.tf", "", [.node "module" ["n"] [⟨"source", .text "./net", default⟩] [] default]⟩]

theorem relative_source_directory_netCalled :
    let s : Session := ⟨⟨fun _ => .error "missing", fun _ => .error "missing"⟩, "/p", "default", false, 6, twoNets⟩
    IsRelative "./net" ∧ SourceLeads twoNets "/p" "/p/a" "./net" "/p/net" ∧ SourceLeads [] "/p" "/p/a" "./net" "/p/a/net"
      ∧ ∃ r b target, Reached s 999 r ∧ LeadsTo s r b target
        ∧ SourceLeads twoNets "/p" r.module.path "./net" target.path := by
  intro s
  have hrelative : IsRelative "./net" := by decide
  obtain ⟨hpaths, hruns⟩ := relative_source_directory hrelative
  refine ⟨hrelative, ?_, ?_, ?_⟩
  · obtain ⟨dest, hdest, hleads⟩ := hpaths twoNets "/p" "/p/a" (by decide) (by decide)
    have hfound : moduleDirectory? twoNets "/p" "/p/a" "./net" = some "/p/net" := by decide +kernel
    exact (hleads _).mpr (Option.some.inj (hfound.symm.trans hdest))
  · obtain ⟨dest, hdest, hleads⟩ := hpaths [] "/p" "/p/a" (by decide) (by decide)
    have hfound : moduleDirectory? [] "/p" "/p/a" "./net" = some "/p/a/net" := by decide +kernel
    exact (hleads _).mpr (Option.some.inj (hfound.symm.trans hdest))
  · have hcheck : ((Project.rootRun s [] netCalled).callTarget? s
        ((Project.rootRun s [] netCalled).arena.block 0)).isSome = true := by
      decide +kernel
    obtain ⟨target, htarget⟩ := Option.isSome_iff_exists.mp hcheck
    obtain ⟨hleads, -⟩ := ModuleRun.callTarget?_eq_some_iff.mp htarget
    obtain ⟨attr, source, hattr, hvalue, -⟩ := hleads.source
    have hsource : (((Project.rootRun s [] netCalled).arena.block 0).attribute? "source").all (fun attr =>
        ((Project.rootRun s [] netCalled).arena.value ((Project.rootRun s [] netCalled).arena.block 0) attr).text?
          == some "./net") = true := by
      decide +kernel
    rw [hattr, Option.all_some, beq_iff_eq] at hsource
    exact ⟨_, _, target, .root [] netCalled, hleads,
      hruns s 999 _ _ target attr (by decide) (.root [] netCalled) hleads hattr hsource⟩

/-- A listed source is not looked for in the directory of the calling module, but where another module has it. -/
theorem listed_source_of_another_module :
    IsRelative "./net" ∧ isAbsolute "/p" = true ∧ isAbsolute "/p/a" = true
      ∧ moduleDirectory? twoNets "/p" "/p/a" "./net" = some "/p/net" ∧ ¬ LeadsFrom "/p/a" "./net" "/p/net" := by
  have hfound : moduleDirectory? twoNets "/p" "/p/a" "./net" = some "/p/net" := by decide +kernel
  refine ⟨by decide, by decide, by decide, hfound, fun hleads => ?_⟩
  have hown : LeadsFrom (if isAbsolute "./net" then "/" else "/p/a") "./net"
      (FilePath.absolute "/" (FilePath.join "/p/a" "./net")) := FilePath.leadsFrom_join (by decide) "./net"
  have hplace : FilePath.absolute "/" (FilePath.join "/p/a" "./net") = "/p/a/net" := by decide +kernel
  rw [hplace, if_neg (by decide)] at hown
  have hsame : "/p/net" = "/p/a/net" := hleads.unique hown
  exact absurd hsame (by decide)

end InfraConfig
