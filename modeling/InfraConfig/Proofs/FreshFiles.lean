import InfraConfig.Proofs.FileKeeping

/-!
# Files that are read

File functions reach nothing outside the root directory of the project. Every path that is wanted or has been read
lies in it by its names, at every moment and in whichever module it is asked for; a call that names another path has
no result and asks for nothing. The wanted paths ascend, and none of them has been read. So reading them adds each under
its own path, after those that are known already.
-/

namespace InfraConfig

/-! ## Files stay in the project -/

open FilePath (IsPlace IsInside)

namespace FileTable

variable {t : FileTable} {root p path : String} {text : Option String} {paths : List String}

/-- A table of files in a directory. -/
structure Confined (root : String) (t : FileTable) : Prop where
  base : t.base = root
  wanted : ∀ p ∈ t.wanted, IsInside root p
  read : ∀ p ∈ t.contents.keys, IsInside root p

/-- What a directory has to be protected from: no expression asks for a file outside of it, and a call that names one
stays without a result. -/
structure Guarded (root : String) (t : FileTable) : Prop extends Confined root t where
  asked : ∀ env (e : Expr), ∀ p ∈ e.askedFiles env t, IsInside root p
  refused : ∀ env f args spread function name rest, FileFunction.ofName? f = some function →
    evalItems env (inlineAll env t args).1 = .ok (.text name :: rest) →
    ¬ IsInside root (FilePath.absolute root name) →
    (Expr.call f args spread).inlineFiles env t
      = (.call f (inlineAll env t args).1 spread, (inlineAll env t args).2)

theorem mem_insertSorted {paths : List String} : p ∈ FilePath.insertSorted path paths ↔ p = path ∨ p ∈ paths := by
  induction paths with
  | nil => simp [FilePath.insertSorted]
  | cons q rest ih =>
    rw [FilePath.insertSorted]
    split
    · next heq => simp [heq]
    · split
      · exact List.mem_cons
      · rw [List.mem_cons, ih, List.mem_cons]
        exact or_left_comm

theorem mem_want : p ∈ (t.want paths).wanted ↔ p ∈ t.wanted ∨ p ∈ paths := by
  induction paths generalizing t with
  | nil => simp [want]
  | cons path rest ih =>
    have hfirst : p ∈ (t.want (path :: rest)).wanted ↔ (p = path ∨ p ∈ t.wanted) ∨ p ∈ rest := by
      rw [← mem_insertSorted]
      exact ih (t := { t with wanted := FilePath.insertSorted path t.wanted })
    rw [hfirst, List.mem_cons, or_assoc]
    exact or_left_comm

namespace Confined

theorem want (h : t.Confined root) (hroot : IsPlace root) (hpaths : ∀ p ∈ paths, t.Pending p) :
    (t.want paths).Confined root := by
  refine ⟨h.base, fun p hp => ?_, h.read⟩
  rcases mem_want.mp hp with hp | hp
  · exact h.wanted p hp
  · have hinside := (hpaths p hp).inside (h.base ▸ hroot)
    rwa [h.base] at hinside

theorem insert (h : t.Confined root) (hp : IsInside root p) (text : Option String) : (t.insert p text).Confined root := by
  refine ⟨h.base, h.wanted, fun q hq => ?_⟩
  rw [FileTable.insert, hp.place.shortest] at hq
  rcases Entries.mem_keys_put.mp hq with rfl | hq
  · exact hp
  · exact h.read q hq

theorem guarded (h : t.Confined root) (hroot : IsPlace root) : t.Guarded root := by
  have hbase : IsPlace t.base := h.base ▸ hroot
  refine ⟨h, fun env e p hp => ?_, fun env f args spread function name rest hname hargs houtside => ?_⟩
  · have hinside := (Expr.mem_askedFiles hp).1.inside hbase
    rwa [h.base] at hinside
  · rw [← h.base] at houtside
    have hnothing := function.run_of_outside rest hbase houtside
    simp only [Expr.inlineFiles, hname, hargs, Except.toOption, hnothing, Option.getD_none, List.append_nil]

end Confined

end FileTable

namespace Arena

/-- All files that are read are in the directory if those that are wanted are. -/
theorem confined_readAll {a : Arena} {root : String} (l : Loader) (h : a.files.Confined root) :
    (a.readAll l).files.Confined root := by
  have htaken : a.files.takeWanted.2.Confined root := ⟨h.base, by simp [FileTable.takeWanted], h.read⟩
  exact List.foldlRecOn (motive := fun t : FileTable => t.Confined root) _ _ htaken
    fun t ht p hp => ht.insert (h.wanted p hp) _

theorem files_loadAll (a : Arena) (caller : Option BlockId) (files : List SourceFile) :
    (a.loadAll caller files).files = a.files :=
  (extends_insertFiles _ caller files a.newRoot.2).files

end Arena

namespace ModuleRun

variable {s : Session} {d : Nat} {start r : ModuleRun} {frames : List Frame} {inputs : Entries Value}
  {sources : List SourceFile} {modules : List ModuleInstance}

theorem preserved_confined (hroot : IsPlace s.root) : Preserved s fun a => a.files.Confined s.root where
  demands hab h := by
    obtain ⟨paths, heq, hpaths⟩ := hab.files
    rw [heq]
    exact h.want hroot fun p hp => (hpaths p hp).pending
  load caller _ h := by rwa [Arena.files_loadAll]
  read h := Arena.confined_readAll s.loader h

/-- File functions stay in the root directory: at every moment of an evaluation, and while blocks ask for files in
between, the table is guarded, and no evaluator gives the loader another path to read. -/
theorem files_stay_in_root {workingDir dir : String} (hplace : IsPlace workingDir)
    (hroot : s.root = FilePath.absolute workingDir dir) :
    (∀ a b modules, Moment s inputs sources a modules → a.Demands b → b.files.Guarded s.root)
      ∧ ∀ d start frames r, Nested s inputs sources d start frames → Continues s (evaluateUpTo s d) start r →
        ∀ p ∈ r.requests, IsInside s.root p := by
  have hrootPlace : IsPlace s.root := hroot ▸ hplace.ofAbsolute dir
  have hkept := preserved_confined hrootPlace
  have hempty : ((Arena.empty s.root).loadAll none sources).files.Confined s.root := by
    rw [Arena.files_loadAll]
    exact ⟨rfl, by simp [Arena.empty, FileTable.empty], by simp [Arena.empty, FileTable.empty, Entries.keys]⟩
  constructor
  · intro a b modules hmoment hab
    have hconfined := hkept.demands hab (hkept.moment hempty hmoment)
    exact hconfined.guarded hrootPlace
  · intro d start frames r hstart hr p hp
    have hasked := hkept.demands (demands_askAll r) (hkept.state hempty hstart hr)
    exact hasked.wanted p hp

/-- Reads a file of the project, and tries others. -/
def triesOutside : List SourceFile :=
  let file (name : String) : Expr := .call ⟨[], "file"⟩ [.text name] false
  [⟨"main.tf", "", [.node "locals" []
    [⟨"own", file "a", default⟩, ⟨"above", file "../a", default⟩, ⟨"other", file "/b", default⟩] [] default]⟩]

theorem files_stay_in_root_triesOutside :
    let s : Session := ⟨⟨fun path => .ok path, fun _ => .error ""⟩, "/p", "default", false, 6, []⟩
    ∃ a modules r, IsPlace "/" ∧ s.root = FilePath.absolute "/" "p"
      ∧ Moment s [] triesOutside a modules ∧ a.files.contents.keys = ["/p/a"] ∧ a.files.Guarded s.root
      ∧ Continues s (evaluateUpTo s 999) (Project.rootRun s [] triesOutside) r
      ∧ r.requests = ["/p/a"] ∧ ∀ p ∈ r.requests, IsInside s.root p := by
  intro s
  have hcheck : (evaluateUpTo s Project.depthLimit (Project.rootRun s [] triesOutside)).toOption.any
      (fun (_, done) => done.arena.files.contents.keys == ["/p/a"]) = true := by
    decide +kernel
  obtain ⟨⟨modules, done⟩, hdone, hcheck⟩ := (Option.any_eq_true _ _).mp hcheck
  have hplace : IsPlace "/" := ⟨by decide, by decide, by decide⟩
  obtain ⟨hguarded, hinside⟩ := @files_stay_in_root s [] triesOutside "/" "p" hplace (by decide)
  have hmoment : Moment s [] triesOutside done.arena modules := .finished (eq_ok_of_toOption hdone)
  refine ⟨done.arena, modules, (Project.rootRun s [] triesOutside).bindBlocks, hplace, by decide, hmoment,
    beq_iff_eq.mp hcheck, hguarded _ _ _ hmoment (.refl _), .bind .start, by decide +kernel, ?_⟩
  exact hinside _ _ _ _ .root (.bind .start)

end ModuleRun

/-! ## Files that are still to be read -/

open FilePath (before insertSorted)

/-- Paths in ascending order. -/
def FilePath.Ascending (paths : List String) : Prop :=
  paths.Pairwise fun p q => before q p = false

/-! ## The order of paths -/

section

variable {p q r path : String} {paths : List String}

theorem FilePath.before_asymm (h : before p q = true) : before q p = false := by
  rw [before, decide_eq_true_eq] at h
  rw [before, decide_eq_false_iff_not]
  exact List.lt_asymm h

theorem FilePath.before_trans (h : before p q = true) (k : before q r = true) : before p r = true := by
  rw [before, decide_eq_true_eq] at h k ⊢
  exact List.lt_trans h k

/-- What comes before the first of some ascending paths comes before all of them. -/
theorem FilePath.before_of_not_before (h : before path p = true) (k : before q p = false) : before q path = false := by
  by_contra hnot
  rw [Bool.not_eq_false] at hnot
  rw [before_trans hnot h] at k
  cases k

theorem FilePath.Ascending.insertSorted (h : Ascending paths) : Ascending (insertSorted path paths) := by
  induction paths with
  | nil => exact List.pairwise_singleton _ _
  | cons p rest ih =>
    obtain ⟨hp, hrest⟩ := List.pairwise_cons.mp h
    rw [FilePath.insertSorted]
    split
    · exact h
    · split
      · next hbefore =>
        refine List.pairwise_cons.mpr ⟨fun q hq => ?_, h⟩
        rcases List.mem_cons.mp hq with rfl | hq
        · exact before_asymm hbefore
        · exact before_of_not_before hbefore (hp q hq)
      · next hnot =>
        refine List.pairwise_cons.mpr ⟨fun q hq => ?_, ih hrest⟩
        rcases FileTable.mem_insertSorted.mp hq with rfl | hq
        · exact Bool.eq_false_iff.mpr hnot
        · exact hp q hq

/-- A path is put among ascending ones once. -/
theorem FilePath.Ascending.nodup_insertSorted (h : Ascending paths) (hnodup : paths.Nodup) :
    (FilePath.insertSorted path paths).Nodup := by
  induction paths with
  | nil => exact List.nodup_singleton path
  | cons p rest ih =>
    obtain ⟨hp, hrest⟩ := List.pairwise_cons.mp h
    obtain ⟨hnew, hothers⟩ := List.nodup_cons.mp hnodup
    rw [FilePath.insertSorted]
    split
    · exact hnodup
    · next hne =>
      split
      · next hbefore =>
        refine List.nodup_cons.mpr ⟨fun hmem => ?_, hnodup⟩
        rcases List.mem_cons.mp hmem with heq | hmem
        · exact hne heq
        · have hagain := hp path hmem
          rw [hbefore] at hagain
          cases hagain
      · refine List.nodup_cons.mpr ⟨fun hmem => ?_, ih hrest hothers⟩
        rcases FileTable.mem_insertSorted.mp hmem with heq | hmem
        · exact hne heq.symm
        · exact hnew hmem

end

/-! ## Wanted files -/

namespace FileTable

variable {t u v : FileTable} {root p : String} {paths : List String}

/-- A step in which files are wanted and none are read. -/
def Wants (t u : FileTable) : Prop :=
  ∃ paths, u = t.want paths ∧ ∀ p ∈ paths, t.Pending p

theorem Wants.refl (t : FileTable) : Wants t t := ⟨[], rfl, by simp⟩

theorem Wants.trans (h : Wants t u) (k : Wants u v) : Wants t v := by
  obtain ⟨xs, rfl, hxs⟩ := h
  obtain ⟨ys, rfl, hys⟩ := k
  refine ⟨xs ++ ys, want_want t xs ys, fun p hp => ?_⟩
  rcases List.mem_append.mp hp with hp | hp
  · exact hxs p hp
  · exact (hys p hp).congr rfl rfl

theorem Wants.contents (h : Wants t u) : u.contents = t.contents := by
  obtain ⟨paths, rfl, -⟩ := h
  rfl

/-- A table of files in a directory, of which each wanted one is to be read for the first time. -/
structure Fresh (root : String) (t : FileTable) : Prop extends Confined root t where
  ascending : FilePath.Ascending t.wanted
  nodup : t.wanted.Nodup
  unread : ∀ p ∈ t.wanted, p ∉ t.contents.keys

namespace Fresh

theorem ascends_want (h : FilePath.Ascending t.wanted) (hnodup : t.wanted.Nodup) (paths : List String) :
    FilePath.Ascending (t.want paths).wanted ∧ (t.want paths).wanted.Nodup := by
  induction paths generalizing t with
  | nil => exact ⟨h, hnodup⟩
  | cons path rest ih =>
    exact ih (t := { t with wanted := insertSorted path t.wanted }) h.insertSorted (h.nodup_insertSorted hnodup)

theorem wants (h : t.Fresh root) (hroot : IsPlace root) (hwants : t.Wants u) : u.Fresh root := by
  obtain ⟨paths, rfl, hpaths⟩ := hwants
  obtain ⟨hascending, hnodup⟩ := ascends_want h.ascending h.nodup paths
  refine ⟨h.toConfined.want hroot hpaths, hascending, hnodup, fun p hp => ?_⟩
  rcases mem_want.mp hp with hp | hp
  · exact h.unread p hp
  · exact (hpaths p hp).not_read

end Fresh

theorem fresh_empty (root : String) : (FileTable.empty root).Fresh root :=
  ⟨⟨rfl, by simp [empty], by simp [empty, Entries.keys]⟩, .nil, .nil, by simp [empty]⟩

end FileTable

/-! ## Reading -/

/-- What is known of files when they have been read. -/
def Loader.reading (l : Loader) (paths : List String) : Entries (Option String) :=
  paths.map fun p => (p, (l.load p).toOption)

theorem Loader.reading_append (l : Loader) (xs ys : List String) : l.reading (xs ++ ys) = l.reading xs ++ l.reading ys :=
  List.map_append

theorem Loader.keys_reading (l : Loader) (paths : List String) : (l.reading paths).keys = paths := by
  simp [reading, Entries.keys, Function.comp_def]

namespace Arena

variable {a b : Arena} {root : String}

theorem Demands.wants (h : a.Demands b) : a.files.Wants b.files := by
  obtain ⟨paths, heq, hpaths⟩ := h.files
  exact ⟨paths, heq, fun p hp => (hpaths p hp).pending⟩

/-- Places that are not in a table yet are added in the order in which they are read. -/
theorem contents_readFiles (l : Loader) {paths : List String} (hplaces : ∀ p ∈ paths, IsPlace p) (hnodup : paths.Nodup)
    (hnew : ∀ p ∈ paths, p ∉ a.files.contents.keys) :
    (a.readFiles l paths).files = { a.files with contents := a.files.contents ++ l.reading paths } := by
  induction paths generalizing a with
  | nil => simp [readFiles, Loader.reading]
  | cons p rest ih =>
    obtain ⟨hp, hrest⟩ := List.nodup_cons.mp hnodup
    have hput : (a.files.insert p (l.load p).toOption).contents = a.files.contents ++ l.reading [p] := by
      rw [FileTable.insert, (hplaces p List.mem_cons_self).shortest]
      exact Entries.put_of_not_mem (hnew p List.mem_cons_self) _
    -- The next paths are still new, as none of them is this one.
    have hothers : ∀ q ∈ rest, q ∉ (a.files.insert p (l.load p).toOption).contents.keys := by
      intro q hq hmem
      rw [hput, Entries.keys, List.map_append, List.mem_append] at hmem
      rcases hmem with hmem | hmem
      · exact hnew q (List.mem_cons_of_mem p hq) hmem
      · obtain rfl : q = p := by simpa [Loader.reading] using hmem
        exact hp hq
    have hrec := ih (a := { a with files := a.files.insert p (l.load p).toOption })
      (fun q hq => hplaces q (List.mem_cons_of_mem p hq)) hrest hothers
    have hstep : (a.readFiles l (p :: rest)).files
        = ({ a with files := a.files.insert p (l.load p).toOption }.readFiles l rest).files := rfl
    rw [hstep, hrec, hput, List.append_assoc]
    rfl

/-- All wanted files are read, each for the first time. -/
theorem files_readAll (h : a.files.Fresh root) (l : Loader) :
    (a.readAll l).files = { a.files with contents := a.files.contents ++ l.reading a.files.wanted, wanted := [] } :=
  contents_readFiles (a := { a with files := a.files.takeWanted.2 }) l (fun p hp => (h.wanted p hp).place) h.nodup
    h.unread

theorem fresh_readAll (h : a.files.Fresh root) (l : Loader) : (a.readAll l).files.Fresh root := by
  have hconfined := confined_readAll l h.toConfined
  refine ⟨hconfined, ?_, ?_, ?_⟩ <;> rw [files_readAll h]
  · exact .nil
  · exact .nil
  · simp

end Arena

end InfraConfig
