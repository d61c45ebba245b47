import InfraConfig.Proofs.OtherLoaders

/-!
# Files are read once

File functions give each path to the loader at most once in an evaluation, whichever modules ask for it. A loop of
passes that stops by agreement leaves nothing to be read: no attribute of any block of its module asks for a file,
however deep in the module the block is.
-/

namespace InfraConfig

open FilePath (IsPlace)

namespace Arena

variable {a b : Arena} {ids : List BlockId} {id child : BlockId} {attr : Attribute}

/-- Nothing that is written in a block asks for a file. -/
def AsksNothing (a : Arena) (id : BlockId) : Prop :=
  a.askedInside a.blocks.size (a.block id) = []

theorem askedInside_eq_iterate (a : Arena) (depth : Nat) :
    a.askedInside depth = a.askedFrom^[depth] (a.askedInside 0) := by
  induction depth with
  | zero => rfl
  | succ depth ih => rw [Function.iterate_succ_apply', ← ih, askedInside_succ]

/-- Where the recursion comes to an end, it may go one level deeper. -/
theorem Ends.askedInside_eq (h : a.Ends id) :
    a.askedInside a.blocks.size (a.block id) = a.askedFrom (a.askedInside a.blocks.size) (a.block id) := by
  rw [← askedInside_succ, askedInside_eq_iterate a (a.blocks.size + 1)]
  exact (h.asked _ _ (Nat.le_succ _)).symm

theorem AsksNothing.attribute (h : a.AsksNothing id) (hends : a.Ends id) (hattr : attr ∈ (a.block id).attributes) :
    a.asked (a.block id) attr = [] := by
  rw [AsksNothing, hends.askedInside_eq, askedFrom, List.append_eq_nil_iff] at h
  exact List.flatMap_eq_nil_iff.mp h.1 attr hattr

theorem AsksNothing.inside (h : a.AsksNothing id) (hends : a.Ends id) (hchild : child ∈ a.inside id) :
    a.AsksNothing child := by
  rw [AsksNothing, hends.askedInside_eq, askedFrom, List.append_eq_nil_iff] at h
  exact List.flatMap_eq_nil_iff.mp h.2 _ (List.mem_map_of_mem hchild)

theorem Below.ofBlocks (h : b.Below ids id) (hblocks : b.blocks = a.blocks) : a.Below ids id := by
  have hinside (x : BlockId) : b.inside x = a.inside x := by
    rw [Arena.inside, Arena.inside, Arena.block, Arena.block, hblocks]
  induction h with
  | listed hmem => exact .listed hmem
  | inside _ hc ih => exact ih.inside (hinside _ ▸ hc)

/-- What asks for nothing has nothing inside that asks for something. -/
theorem AsksNothing.below (h : ∀ id ∈ ids, a.AsksNothing id) (hends : ∀ id, a.Below ids id → a.Ends id)
    (hid : a.Below ids id) : a.AsksNothing id := by
  induction hid with
  | listed hmem => exact h _ hmem
  | inside hbelow hchild ih => exact ih.inside (hends _ hbelow) hchild

end Arena

namespace ModuleRun

variable {s : Session} {run : Evaluate} {d n : Nat} {start r last passed settled : ModuleRun} {frames : List Frame}
  {inputs : Entries Value} {sources : List SourceFile} {previous : Option (Entries Value)} {id : BlockId}
  {attr : Attribute}

/-- Which files are wanted has no effect on what is asked for. -/
theorem asked_withWanted (a : Arena) (wanted : List String) (b : Block) (attr : Attribute) :
    { a with files.wanted := wanted }.asked b attr = a.asked b attr := by
  rw [Arena.asked, Arena.asked, Expr.askedFiles, Expr.askedFiles, Expr.inlineFiles_wanted]

theorem StopsByAgreement.continues (h : StopsByAgreement s run n previous r last settled)
    (hr : Continues s run start r) : Continues s run start last := by
  induction h with
  | agreed => exact hr
  | again hpass hread _ _ ih =>
    apply ih
    have hnext := (hr.pass hpass).read
    rw [hread] at hnext
    exact hnext

/-- Where nothing was to be read, nothing was asked for. -/
theorem asksNothing_of_nothing_read (h : passed.readWanted s = (false, settled)) (hid : id ∈ passed.module.blocks) :
    passed.arena.AsksNothing id := by
  rw [readWanted_eq] at h
  have hnone : passed.requests = [] := by simpa using (Prod.mk.inj h).1
  refine List.eq_nil_iff_forall_not_mem.mpr fun p hp => ?_
  have hrequested : p ∈ passed.requests := FileTable.mem_want.mpr
    (.inr (List.mem_flatMap.mpr ⟨_, List.mem_map_of_mem hid, hp⟩))
  rw [hnone] at hrequested
  cases hrequested

/-- A loop that stops by agreement leaves no block that asks for a file. -/
theorem StopsByAgreement.asked_eq_nil (h : StopsByAgreement s (evaluateUpTo s d) n previous r last settled)
    (hstart : Nested s inputs sources d start frames) (hr : Continues s (evaluateUpTo s d) start r)
    (hid : settled.arena.Below settled.module.blocks id) (hattr : attr ∈ (settled.arena.block id).attributes) :
    settled.arena.asked (settled.arena.block id) attr = [] := by
  obtain ⟨passed, hpass, hread⟩ := h.last_pass
  have hforest := hstart.forest_continues ((h.continues hr).pass hpass)
  have hmodule : passed.module ∈ passed.loaded s ++ frames.flatMap (Frame.loaded s) :=
    List.mem_append_left _ List.mem_cons_self
  obtain ⟨wanted, rfl⟩ := eq_of_nothing_read hread
  have hbelow : passed.arena.Below passed.module.blocks id := hid.ofBlocks rfl
  have hends (x : BlockId) (hx : passed.arena.Below passed.module.blocks x) : passed.arena.Ends x :=
    hforest.ends hmodule hx
  -- Blocks were asked with all that is inside of them, and nothing was wanted.
  have hnothing := Arena.AsksNothing.below (fun x hx => asksNothing_of_nothing_read hread hx) hends hbelow
  rw [asked_withWanted]
  exact hnothing.attribute (hends id hbelow) hattr

/-- File functions read each file at most once in an evaluation, also in one that fails: what the table knows at the end
is what was read, in this order, and nothing else was, as the evaluation is the same with any loader that agrees on
these files. Wherever a loop of passes stops by agreement, no block of its module asks for a file. -/
theorem files_read_once {workingDir dir : String} (hplace : IsPlace workingDir)
    (hroot : s.root = FilePath.absolute workingDir dir) (depth : Nat) :
    let begin := Project.rootRun s inputs sources
    let log := readsUpTo s depth begin
    log.Nodup
      ∧ (∀ modules done, evaluateUpTo s depth begin = .ok (modules, done) →
          done.arena.files.contents = s.loader.reading log)
      ∧ (∀ l : Loader, (∀ dir stop, l.loadDirectory dir stop = s.loader.loadDirectory dir stop) →
          s.loader.AgreeOn l log → evaluateUpTo (withLoader s l) depth begin = evaluateUpTo s depth begin)
      ∧ ∀ d start frames r n previous last settled, Nested s inputs sources d start frames →
          Continues s (evaluateUpTo s d) start r →
          StopsByAgreement s (evaluateUpTo s d) n previous r last settled →
          ∀ id, settled.arena.Below settled.module.blocks id → ∀ attr ∈ (settled.arena.block id).attributes,
            settled.arena.asked (settled.arena.block id) attr = [] := by
  intro begin log
  have hrootPlace : IsPlace s.root := hroot ▸ hplace.ofAbsolute dir
  have hwants := (demands_rootRun s inputs sources).wants
  rw [Arena.files_loadAll] at hwants
  have hfresh : begin.arena.files.Fresh s.root := (FileTable.fresh_empty s.root).wants hrootPlace hwants
  have honce := logged_evaluateUpTo hrootPlace depth begin hfresh
  refine ⟨honce.nodup, fun modules done hdone => ?_, fun l hdirs hagree => ?_, ?_⟩
  · have hcontents := (honce.ends _ hdone).2
    rw [hwants.contents] at hcontents
    exact hcontents
  · exact evaluateUpTo_congr (fun dir => hdirs dir s.stopOnError) depth begin hagree
  · intro d start frames r n previous last settled hstart hr hstops id hid attr hattr
    exact hstops.asked_eq_nil hstart hr hid hattr

/-- A file that names another one. Two blocks ask for it, one of them inside another. -/
def readsNamed : List SourceFile :=
  let file (name : Expr) : Expr := .call ⟨[], "file"⟩ [name] false
  [⟨"main.tf", "", [
    .node "resource" ["r", "n"] [] [.node "inner" [] [⟨"x", file (file (.text "a")), default⟩] [] default] default,
    .node "locals" [] [⟨"y", file (.text "a"), default⟩] [] default]⟩]

theorem files_read_once_readsNamed :
    let s : Session := ⟨⟨fun path => if path == "/p/a" then .ok "b" else .error "", fun _ => .error ""⟩, "/p",
      "default", false, 6, []⟩
    let begin := Project.rootRun s [] readsNamed
    ∃ modules done last settled child, IsPlace "/" ∧ s.root = FilePath.absolute "/" "p"
      ∧ evaluateUpTo s Project.depthLimit begin = .ok (modules, done)
      ∧ readsUpTo s Project.depthLimit begin = ["/p/a", "/p/b"]
      ∧ done.arena.files.contents = [("/p/a", some "b"), ("/p/b", none)]
      ∧ StopsByAgreement s (evaluateUpTo s 999) 6 none begin last settled
      ∧ settled.arena.Below settled.module.blocks child ∧ (settled.arena.block child).attributes ≠ []
      ∧ ∀ attr ∈ (settled.arena.block child).attributes, settled.arena.asked (settled.arena.block child) attr = [] := by
  intro s begin
  have hlog : readsUpTo s Project.depthLimit begin = ["/p/a", "/p/b"] := by decide +kernel
  have hrun : (evaluateUpTo s Project.depthLimit begin).toOption.isSome = true := by decide +kernel
  have hloop : (stop? s (evaluateUpTo s 999) 6 none begin).any (fun (_, settled) =>
      settled.module.blocks.any fun id => (settled.arena.inside id).any fun child =>
        !(settled.arena.block child).attributes.isEmpty) = true := by
    decide +kernel
  obtain ⟨⟨modules, done⟩, hdone⟩ := Option.isSome_iff_exists.mp hrun
  obtain ⟨⟨last, settled⟩, hstop, hinner⟩ := (Option.any_eq_true _ _).mp hloop
  obtain ⟨id, hid, hinner⟩ := List.any_eq_true.mp hinner
  obtain ⟨child, hchild, hwritten⟩ := List.any_eq_true.mp hinner
  have hdone := eq_ok_of_toOption hdone
  have hstops := StopsByAgreement.of_stop? hstop
  have hplace : IsPlace "/" := ⟨by decide, by decide, by decide⟩
  have hbelow : settled.arena.Below settled.module.blocks child := (Arena.Below.listed hid).inside hchild
  obtain ⟨-, hknown, -, hnothing⟩ := @files_read_once s [] readsNamed "/" "p" hplace (by decide) Project.depthLimit
  have hcontents := hknown modules done hdone
  rw [hlog] at hcontents
  refine ⟨modules, done, last, settled, child, hplace, by decide, hdone, hlog, hcontents, hstops, hbelow,
    by simpa using hwritten, ?_⟩
  exact hnothing _ _ _ _ _ _ _ _ .root .start hstops child hbelow

end ModuleRun

end InfraConfig
