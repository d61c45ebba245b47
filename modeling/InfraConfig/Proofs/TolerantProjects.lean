import InfraConfig.Proofs.OtherLoaders
import InfraConfig.Proofs.RemovedFiles

/-!
# Tolerant projects

A project that is loaded with every problem as a reason to stop is the same when problems are passed over. Then
loading fails only where the root directory cannot be listed or a variable file has no values, and files that cannot be
used might as well not be there, as long as no file function can see them.
-/

namespace InfraConfig

namespace Arena

variable {a b : Arena} {attr : Attribute} {caller : Option BlockId} {scope : ScopeId}

/-- No attribute of any block calls a file function. -/
def CallsNoFiles (a : Arena) : Prop :=
  ∀ attr, a.HasAttribute attr → attr.value.callsFiles = false

theorem HasAttribute.loadAll (h : a.HasAttribute attr) (caller : Option BlockId) (files : List SourceFile) :
    (a.loadAll caller files).HasAttribute attr := by
  obtain ⟨id, hattr⟩ := h
  have hlt : id < a.blocks.size := by
    by_contra hge
    rw [a.block_of_size_le (Nat.le_of_not_lt hge)] at hattr
    cases hattr
  have hkept := (extends_insertFiles a.newRoot.1 caller files a.newRoot.2).kept id hlt
  exact ⟨id, by rw [Arena.loadAll, hkept]; exact hattr⟩

end Arena

/-! ## Where no file function is called -/

mutual

/-- Whether an attribute of a block, or of one inside, calls a file function. -/
def BlockTree.callsFiles : BlockTree → Bool
  | .node _ _ attributes children _ => attributes.any (·.value.callsFiles) || treesCallFiles children

def treesCallFiles : List BlockTree → Bool
  | [] => false
  | t :: rest => t.callsFiles || treesCallFiles rest

end

namespace Arena

theorem CallsNoFiles.push {a : Arena} (h : a.CallsNoFiles) {b : Block} (hb : b.attributes.any (·.value.callsFiles) = false) :
    (a.push b).2.CallsNoFiles := by
  rintro attr ⟨id, hattr⟩
  rw [block_push] at hattr
  split at hattr
  · exact Bool.eq_false_iff.mpr (List.any_eq_false.mp hb attr hattr)
  · exact h attr ⟨id, hattr⟩

mutual

theorem CallsNoFiles.insert (scope : ScopeId) (caller : Option BlockId) :
    ∀ (t : BlockTree) (a : Arena), a.CallsNoFiles → t.callsFiles = false → (insert scope caller a t).2.CallsNoFiles
  | .node kind labels attributes children range, a, h, ht => by
    obtain ⟨hown, hinside⟩ := Bool.or_eq_false_iff.mp ht
    rw [Arena.insert]
    exact (CallsNoFiles.insertAll scope caller children a h hinside).push hown

theorem CallsNoFiles.insertAll (scope : ScopeId) (caller : Option BlockId) :
    ∀ (trees : List BlockTree) (a : Arena), a.CallsNoFiles → treesCallFiles trees = false →
      (insertAll scope caller a trees).2.CallsNoFiles
  | [], a, h, _ => h
  | t :: trees, a, h, ht => by
    obtain ⟨hfirst, hrest⟩ := Bool.or_eq_false_iff.mp ht
    rw [Arena.insertAll]
    exact CallsNoFiles.insertAll scope caller trees _ (CallsNoFiles.insert scope caller t a h hfirst) hrest

end

theorem CallsNoFiles.loadAll {a : Arena} (h : a.CallsNoFiles) (caller : Option BlockId) {files : List SourceFile}
    (hfiles : files.all (fun file => !treesCallFiles file.blocks) = true) : (a.loadAll caller files).CallsNoFiles := by
  have hall (scope : ScopeId) (b : Arena) (hb : b.CallsNoFiles) : (insertFiles scope caller b files).2.CallsNoFiles := by
    induction files generalizing b with
    | nil => exact hb
    | cons file files ih =>
      obtain ⟨hfirst, hrest⟩ := Bool.and_eq_true_iff.mp hfiles
      rw [insertFiles]
      exact ih hrest _ (CallsNoFiles.insertAll scope caller _ b hb (by simpa using hfirst))
  exact hall _ _ h

end Arena

/-- If no file calls a file function, no attribute does while they are evaluated. -/
theorem ModuleRun.preserved_callsNoFiles {s : Session} (h : ∀ dir files,
      s.loader.loadDirectory dir s.stopOnError = .ok files →
      files.all (fun file => !treesCallFiles file.blocks) = true) : Preserved s Arena.CallsNoFiles where
  demands hab hfree attr hattr := hfree attr ((hab.attributes attr).mp hattr)
  load caller hload hfree := hfree.loadAll caller (h _ _ hload)
  read hfree := hfree

/-! ## What is read there -/

namespace ModuleRun

variable {s : Session} {inputs : Entries Value} {sources : List SourceFile}

/-- Files are wanted only where an attribute calls a file function. -/
theorem preserved_calling (s : Session) :
    Preserved s fun a => ∀ p ∈ a.files.wanted, ∃ attr, a.HasAttribute attr ∧ attr.value.callsFiles = true where
  demands {a _} hab h p hp := by
    obtain ⟨paths, hfiles, hasked⟩ := hab.files
    rw [hfiles] at hp
    have hcalled : ∃ attr, a.HasAttribute attr ∧ attr.value.callsFiles = true := by
      rcases FileTable.mem_want.mp hp with hp | hp
      · exact h p hp
      · exact (hasked p hp).called
    obtain ⟨attr, hattr, hcalls⟩ := hcalled
    exact ⟨attr, (hab.attributes attr).mpr hattr, hcalls⟩
  load caller _ h p hp := by
    rw [Arena.files_loadAll] at hp
    obtain ⟨attr, hattr, hcalls⟩ := h p hp
    exact ⟨attr, hattr.loadAll caller _, hcalls⟩
  read {a} _ p hp := by
    have hnone : (a.readAll s.loader).files.wanted = [] :=
      List.foldlRecOn (motive := fun t : FileTable => t.wanted = []) _ _ rfl fun t ht _ _ => ht
    rw [hnone] at hp
    cases hp

theorem readsUpTo_eq_nil (hfree : ∀ a modules, Moment s inputs sources a modules → a.CallsNoFiles) :
    readsUpTo s Project.depthLimit (Project.rootRun s inputs sources) = [] := by
  refine List.eq_nil_iff_forall_not_mem.mpr fun p hp => ?_
  -- What is read was asked for in some state, and there an attribute calls a file function.
  obtain ⟨d, start, frames, r, hstart, hr, hrequested⟩ := Nested.root.requested_of_mem p hp
  have hkept := preserved_calling s
  have hempty : ∀ p ∈ ((Arena.empty s.root).loadAll none sources).files.wanted,
      ∃ attr, ((Arena.empty s.root).loadAll none sources).HasAttribute attr ∧ attr.value.callsFiles = true := by
    rw [Arena.files_loadAll]
    simp [Arena.empty, FileTable.empty]
  obtain ⟨attr, hattr, hcalls⟩ := hkept.demands (demands_askAll r) (hkept.state hempty hstart hr) p hrequested
  have hnot := hfree _ _ (.state hstart hr) attr (((demands_askAll r).attributes attr).mp hattr)
  rw [hnot] at hcalls
  cases hcalls

end ModuleRun

/-! ## Loading -/

namespace Project

open ModuleRun (Moment Nested NestsTooDeep evaluateUpTo withLoader tolerant)

variable {l : Loader} {workingDir dir root : String} {o : Options} {p : Project} {problem : ProjectProblem}
  {removed : String → Bool}

/-- What all runs of a project share. -/
def session (l : Loader) (root : String) (o : Options) : Session :=
  ⟨l, root, o.workspace, o.stopOnError, max 1 o.maxPasses, InstalledModule.load l root⟩

/-- The beginning of a project: the values of its variables, and the files of its root directory. -/
structure Opens (l : Loader) (root : String) (o : Options) (inputs : Entries Value) (files : List SourceFile) : Prop where
  inputs : ∃ given, l.inputVariables root o.variableFiles = .ok given ∧ inputs = given.putAll o.inputs
  files : l.loadDirectory root o.stopOnError = .ok files

theorem load_of_opens {inputs : Entries Value} {files : List SourceFile}
    (h : Opens l (FilePath.absolute workingDir dir) o inputs files) : load l workingDir dir o
      = match evaluateUpTo (session l (FilePath.absolute workingDir dir) o) depthLimit
          (rootRun (session l (FilePath.absolute workingDir dir) o) inputs files) with
        | .error problem => .error (.evaluation (FilePath.absolute workingDir dir) problem)
        | .ok (modules, done) => .ok (ofRun modules done) := by
  obtain ⟨given, hgiven, rfl⟩ := h.inputs
  rw [load]
  dsimp only
  rw [hgiven]
  dsimp only
  rw [h.files]
  rfl

theorem load_of_inputs_error {reason : VariableProblem}
    (h : l.inputVariables (FilePath.absolute workingDir dir) o.variableFiles = .error reason) :
    load l workingDir dir o = .error (.inputs reason) := by
  rw [load]
  dsimp only
  rw [h]

theorem exists_opens_of_load (h : load l workingDir dir o = .ok p) : ∃ inputs files modules done,
    Opens l (FilePath.absolute workingDir dir) o inputs files
      ∧ evaluateUpTo (session l (FilePath.absolute workingDir dir) o) depthLimit
          (rootRun (session l (FilePath.absolute workingDir dir) o) inputs files) = .ok (modules, done)
      ∧ p = ofRun modules done := by
  rw [load] at h
  dsimp only at h
  split at h
  · cases h
  · next given hgiven =>
    split at h
    · cases h
    · next files hfiles =>
      split at h
      · cases h
      · next modules done hdone =>
        exact ⟨given.putAll o.inputs, files, modules, done, ⟨⟨given, hgiven, rfl⟩, hfiles⟩, hdone,
          (Except.ok.inj h).symm⟩

/-- With another loader that gives the same variables and the same root directory, and comes to the same in every
evaluation that begins with them, a project is the same. -/
theorem load_congr {other : Loader} (hinputs : other.inputVariables (FilePath.absolute workingDir dir) o.variableFiles
      = l.inputVariables (FilePath.absolute workingDir dir) o.variableFiles)
    (hdir : other.loadDirectory (FilePath.absolute workingDir dir) o.stopOnError
      = l.loadDirectory (FilePath.absolute workingDir dir) o.stopOnError)
    (hrun : ∀ inputs files, Opens l (FilePath.absolute workingDir dir) o inputs files →
      evaluateUpTo (session other (FilePath.absolute workingDir dir) o) depthLimit
          (rootRun (session other (FilePath.absolute workingDir dir) o) inputs files)
        = evaluateUpTo (session l (FilePath.absolute workingDir dir) o) depthLimit
          (rootRun (session l (FilePath.absolute workingDir dir) o) inputs files)) :
    load other workingDir dir o = load l workingDir dir o := by
  cases hgiven : l.inputVariables (FilePath.absolute workingDir dir) o.variableFiles with
  | error reason => rw [load_of_inputs_error hgiven, load_of_inputs_error (hinputs.trans hgiven)]
  | ok given =>
    cases hfiles : l.loadDirectory (FilePath.absolute workingDir dir) o.stopOnError with
    | error reason =>
      rw [load, load]
      dsimp only
      rw [hinputs, hgiven, hdir, hfiles]
    | ok files =>
      have hopens : Opens l (FilePath.absolute workingDir dir) o (given.putAll o.inputs) files :=
        ⟨⟨given, hgiven, rfl⟩, hfiles⟩
      have hrest : Opens other (FilePath.absolute workingDir dir) o (given.putAll o.inputs) files :=
        ⟨⟨given, hinputs.trans hgiven, rfl⟩, hdir.trans hfiles⟩
      rw [load_of_opens hopens, load_of_opens hrest, hrun _ _ hopens]

/-! ## Stopping at problems -/

/-- What is loaded when problems are a reason to stop is loaded when they are none. -/
theorem load_tolerant (h : load l workingDir dir { o with stopOnError := true } = .ok p) :
    load l workingDir dir { o with stopOnError := false } = .ok p := by
  obtain ⟨inputs, files, modules, done, hopens, hdone, rfl⟩ := exists_opens_of_load h
  have hfiles := l.loadDirectory_persists _ _ files hopens.files
  have htolerant : Opens l (FilePath.absolute workingDir dir) { o with stopOnError := false } inputs files :=
    ⟨hopens.inputs, hfiles⟩
  have hsame := ModuleRun.evaluateUpTo_persists (session l (FilePath.absolute workingDir dir) { o with stopOnError := true })
    depthLimit _ _ hdone
  have hrun : evaluateUpTo (session l (FilePath.absolute workingDir dir) { o with stopOnError := false }) depthLimit
      (rootRun (session l (FilePath.absolute workingDir dir) { o with stopOnError := false }) inputs files)
        = .ok (modules, done) := hsame
  rw [load_of_opens htolerant, hrun]

/-! ## Failures -/

/-- The variable files of a project: those that are found by their names, and those that are named. -/
def IsVariableFile (l : Loader) (root : String) (named : List String) (path : String) : Prop :=
  (∃ paths, l.list root = .ok paths ∧ path ∈ paths ∧ isAutomatic path = true) ∨ path ∈ named

/-- Why a project fails that does not stop at problems. -/
inductive Fails (l : Loader) (root : String) (o : Options) : ProjectProblem → Prop where
  | unlistable {reason} (h : l.list root = .error reason) : Fails l root o (.inputs (.unlistable root reason))
  | variables {path problem} (h : IsVariableFile l root o.variableFiles path)
      (hproblem : l.loadVariables path = .error problem) : Fails l root o (.inputs problem)
  | tooDeep {inputs files} (h : Opens l root o inputs files) (hdeep : NestsTooDeep (session l root o) inputs files) :
      Fails l root o (.evaluation root .tooDeep)

theorem exists_of_loadAllVariables {acc : Entries Value} {paths : List String} {problem : VariableProblem}
    (h : l.loadAllVariables acc paths = .error problem) : ∃ path ∈ paths, l.loadVariables path = .error problem := by
  induction paths generalizing acc with
  | nil => cases h
  | cons path rest ih =>
    rw [Loader.loadAllVariables] at h
    split at h
    · obtain ⟨other, hother, hproblem⟩ := ih h
      exact ⟨other, List.mem_cons_of_mem path hother, hproblem⟩
    · next reason hreason =>
      obtain rfl := Except.error.inj h
      exact ⟨path, List.mem_cons_self, hreason⟩

theorem fails_of_inputVariables {reason : VariableProblem}
    (h : l.inputVariables root o.variableFiles = .error reason) : Fails l root o (.inputs reason) := by
  rw [Loader.inputVariables] at h
  split at h
  · next hlist => exact Except.error.inj h ▸ .unlistable hlist
  · next paths hlist =>
    obtain ⟨path, hpath, hproblem⟩ := exists_of_loadAllVariables h
    refine .variables ?_ hproblem
    rcases List.mem_append.mp hpath with hpath | hpath
    · obtain ⟨hmem, hautomatic⟩ := List.mem_filter.mp (mem_sortByName.mp hpath)
      exact .inl ⟨paths, hlist, hmem, hautomatic⟩
    · exact .inr hpath

theorem fails_of_load (hstop : o.stopOnError = false) (h : load l workingDir dir o = .error problem) :
    Fails l (FilePath.absolute workingDir dir) o problem := by
  rw [load] at h
  dsimp only at h
  split at h
  · next reason hreason => exact Except.error.inj h ▸ fails_of_inputVariables hreason
  · next given hgiven =>
    split at h
    -- The root directory could be listed when its variable files were looked for.
    · next reason hreason =>
      rw [hstop] at hreason
      obtain ⟨text, htext⟩ := Loader.list_of_loadDirectory hreason
      rw [Loader.inputVariables, htext] at hgiven
      cases hgiven
    · next files hfiles =>
      split at h
      · next reason hreason =>
        obtain rfl := ModuleRun.evaluateUpTo_error hstop hreason
        have hdeep := Nested.tooDeep_of_error hstop .root hreason
        exact Except.error.inj h ▸ .tooDeep ⟨⟨given, hgiven, rfl⟩, hfiles⟩ hdeep
      · cases h

/-! ## Removing files -/

/-- A moment while a project is loaded. -/
def During (l : Loader) (root : String) (o : Options) (a : Arena) : Prop :=
  ∃ inputs files modules, Opens l root o inputs files ∧ Moment (session l root o) inputs files a modules

section

variable (hstop : o.stopOnError = false) (hbroken : ∀ path, removed path = true → l.Broken path)

include hstop hbroken

theorem evaluate_without {inputs : Entries Value} {files : List SourceFile} (hopens : Opens l root o inputs files)
    (hfree : ∀ a, During l root o a → a.CallsNoFiles) :
    evaluateUpTo (session (l.without removed) root o) depthLimit (rootRun (session (l.without removed) root o) inputs files)
      = evaluateUpTo (session l root o) depthLimit (rootRun (session l root o) inputs files) := by
  have hsession : session (l.without removed) root o = withLoader (session l root o) (l.without removed) := by
    rw [session, Loader.installed_without hbroken]
    rfl
  have hnone : ModuleRun.readsUpTo (session l root o) depthLimit (rootRun (session l root o) inputs files) = [] :=
    ModuleRun.readsUpTo_eq_nil fun a modules hmoment => hfree a ⟨inputs, files, modules, hopens, hmoment⟩
  have hdirs (dir : String) : (l.without removed).loadDirectory dir o.stopOnError = l.loadDirectory dir o.stopOnError := by
    rw [hstop]
    exact Loader.loadDirectory_without hbroken dir
  rw [hsession]
  refine ModuleRun.evaluateUpTo_congr hdirs depthLimit (rootRun (session l root o) inputs files) fun p hp => ?_
  rw [hnone] at hp
  cases hp

theorem load_without_of_inputs (hfree : ∀ a, During l (FilePath.absolute workingDir dir) o a → a.CallsNoFiles)
    (hinputs : (l.without removed).inputVariables (FilePath.absolute workingDir dir) o.variableFiles
      = l.inputVariables (FilePath.absolute workingDir dir) o.variableFiles) :
    load (l.without removed) workingDir dir o = load l workingDir dir o := by
  have hdir := Loader.loadDirectory_without hbroken (FilePath.absolute workingDir dir)
  rw [← hstop] at hdir
  exact load_congr hinputs hdir fun _ _ hopens => evaluate_without hstop hbroken hopens hfree

/-- Configuration files that cannot be used are as good as removed. -/
theorem load_without (hfree : ∀ a, During l (FilePath.absolute workingDir dir) o a → a.CallsNoFiles) :
    (load (l.without removed) workingDir dir o).toOption = (load l workingDir dir o).toOption
      ∧ ((∀ path ∈ o.variableFiles, removed path = false) →
        load (l.without removed) workingDir dir o = load l workingDir dir o) := by
  obtain ⟨hsame, hthere⟩ := Loader.inputVariables_without hbroken (FilePath.absolute workingDir dir) o.variableFiles
  refine ⟨?_, fun hnamed => load_without_of_inputs hstop hbroken hfree (hthere hnamed)⟩
  cases hgiven : l.inputVariables (FilePath.absolute workingDir dir) o.variableFiles with
  | ok given =>
    rw [hgiven] at hsame
    rw [load_without_of_inputs hstop hbroken hfree ((eq_ok_of_toOption hsame).trans hgiven.symm)]
  | error reason =>
    rw [hgiven] at hsame
    rw [load_of_inputs_error hgiven]
    cases hrest : (l.without removed).inputVariables (FilePath.absolute workingDir dir) o.variableFiles with
    | ok given =>
      rw [hrest] at hsame
      cases hsame
    | error other => rw [load_of_inputs_error hrest]; rfl

end

/-! ## All together -/

/-- Stopping at problems is a refinement of passing over them. A project that is loaded when problems are a reason to
stop is the same when they are none; then loading fails only where the root directory cannot be listed or a variable
file has no values, or where evaluators are nested too deeply, and it would not fail otherwise with any other limit to
that; and if no attribute calls a file function, it comes to the same without the configuration files that cannot be
used. -/
theorem load_refines (l : Loader) (workingDir dir : String) (o : Options) :
    let root := FilePath.absolute workingDir dir
    let strict : Options := { o with stopOnError := true }
    let tolerant : Options := { o with stopOnError := false }
    (∀ p, load l workingDir dir strict = .ok p → load l workingDir dir tolerant = .ok p)
      ∧ (∀ problem, load l workingDir dir tolerant = .error problem → Fails l root tolerant problem)
      ∧ (∀ inputs files depth problem, Opens l root tolerant inputs files →
        let s := session l root tolerant
        evaluateUpTo s depth (rootRun s inputs files) = .error problem → problem = .tooDeep)
      ∧ ∀ removed : String → Bool, (∀ path, removed path = true → l.Broken path) →
        (∀ a, During l root tolerant a → a.CallsNoFiles) →
        (load (l.without removed) workingDir dir tolerant).toOption = (load l workingDir dir tolerant).toOption
          ∧ ((∀ path ∈ o.variableFiles, removed path = false) →
            load (l.without removed) workingDir dir tolerant = load l workingDir dir tolerant) :=
  ⟨fun _ => load_tolerant, fun _ => fails_of_load rfl, fun _ _ _ _ _ => ModuleRun.evaluateUpTo_error rfl,
    fun _ hbroken hfree => load_without rfl hbroken hfree⟩

/-- A file that is no object, and one that is. -/
def brokenAndSound : Loader where
  load path := if path == "/b.tf.json" then .ok "\x7b\"locals\": \x7b\"a\": \"v\"\x7d\x7d" else .ok "[]"
  list _ := .ok ["/a.tf.json", "/b.tf.json"]

/-- With the first file removed nothing stops, and as it calls no file function, nothing is lost by that. -/
theorem load_refines_brokenAndSound :
    let strict : Options := ⟨[], [], "default", true, 6⟩
    let tolerant : Options := ⟨[], [], "default", false, 6⟩
    let sound := brokenAndSound.without fun path => path == "/a.tf.json"
    brokenAndSound.Broken "/a.tf.json"
      ∧ (∀ a, During brokenAndSound "/" tolerant a → a.CallsNoFiles)
      ∧ (∃ p, load sound "/" "/" strict = .ok p ∧ p.binding? "local.a" = some (.text "v")
        ∧ load sound "/" "/" tolerant = .ok p ∧ load brokenAndSound "/" "/" tolerant = .ok p)
      ∧ ∃ problem, load ⟨fun _ => .ok "", fun _ => .error "none"⟩ "/" "/" tolerant = .error problem
        ∧ Fails ⟨fun _ => .ok "", fun _ => .error "none"⟩ "/" tolerant problem := by
  intro strict tolerant sound
  have hbroken : ∀ path, (path == "/a.tf.json") = true → brokenAndSound.Broken path := by
    intro path hpath
    obtain rfl := eq_of_beq hpath
    have hnone : (brokenAndSound.loadFile "/a.tf.json").toOption.isNone = true := by decide +kernel
    refine ⟨by decide +kernel, ?_⟩
    cases hload : brokenAndSound.loadFile "/a.tf.json" with
    | error problem => exact ⟨problem, rfl⟩
    | ok file =>
      rw [hload] at hnone
      cases hnone
  have hfree : ∀ a, During brokenAndSound "/" tolerant a → a.CallsNoFiles := by
    have hfiles : (brokenAndSound.loadDirectory "/" false).toOption.all
        (fun files => files.all fun file => !treesCallFiles file.blocks) = true := by
      decide +kernel
    have hall (dir : String) (files : List SourceFile) (h : brokenAndSound.loadDirectory dir false = .ok files) :
        files.all (fun file => !treesCallFiles file.blocks) = true := by
      have hsame : brokenAndSound.loadDirectory "/" false = .ok files := h
      rw [hsame] at hfiles
      exact hfiles
    rintro a ⟨inputs, files, modules, hopens, hmoment⟩
    have hkept := ModuleRun.preserved_callsNoFiles (s := session brokenAndSound "/" tolerant) hall
    have hempty : (Arena.empty "/").CallsNoFiles := by
      rintro attr ⟨id, hattr⟩
      rw [Arena.block_of_size_le _ (Nat.zero_le id)] at hattr
      cases hattr
    exact hkept.moment (hempty.loadAll none (hall "/" files hopens.files)) hmoment
  have hloads : (load sound "/" "/" strict).toOption.any (fun p => (p.binding? "local.a").any (·.identical (.text "v")))
      = true := by
    decide +kernel
  obtain ⟨p, hload, hbinding⟩ := (Option.any_eq_true _ _).mp hloads
  have hload := eq_ok_of_toOption hload
  obtain ⟨v, hv, hsame⟩ := (Option.any_eq_true _ _).mp hbinding
  obtain ⟨htolerant, -, -⟩ := load_refines sound "/" "/" strict
  obtain ⟨-, -, -, hremoved⟩ := load_refines brokenAndSound "/" "/" tolerant
  obtain ⟨-, hequal⟩ := hremoved _ hbroken hfree
  obtain ⟨-, hfails, -⟩ := load_refines ⟨fun _ => .ok "", fun _ => .error "none"⟩ "/" "/" tolerant
  have hsound : load sound "/" "/" tolerant = .ok p := htolerant p hload
  refine ⟨hbroken _ rfl, hfree, ⟨p, hload, ?_, hsound, (hequal (by simp [tolerant])).symm.trans hsound⟩, _, rfl,
    hfails _ rfl⟩
  rw [hv, Value.eq_of_identical hsame]

end Project

end InfraConfig
