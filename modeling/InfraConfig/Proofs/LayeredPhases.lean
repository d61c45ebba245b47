import InfraConfig.Proofs.Expansions
import InfraConfig.Proofs.InnermostInstances
import InfraConfig.Proofs.LayeredRuns
import InfraConfig.Proofs.NestedEvaluations

/-!
# Instances to the end of a run

From its turn on an instance keeps its scope and what is bound there, and whatever is inside one of its parts at the
end stands below that scope.

Elements and indexes are read off the merged bindings of all scopes around a block, and each instance around it has
a scope of its own. Main statements: under a name a block reads the key of the innermost instance that binds the name,
and the value of this instance laid over what is there outside of it; and the index that it reads is the key of the
innermost instance with a number as key, which is not always the one that a `count` has made.
-/

namespace InfraConfig

namespace Arena

variable {a final moment : Arena} {root : ScopeId} {id m x : BlockId} {ids : List BlockId} {kind : Repetition}

/-- In a layered arena, a block sees the filled scopes of all that it is inside of. -/
theorem Below.encloses (h : a.Below [m] x) (ha : a.WellFormed) (hlayered : a.Layered) (hm : m < a.blocks.size) :
    x < a.blocks.size ∧ a.Encloses m x := by
  induction h with
  | listed hmem =>
    obtain rfl := List.mem_singleton.mp hmem
    exact ⟨hm, .refl a _⟩
  | @inside y c _ hc ih =>
    obtain ⟨hy, hmy⟩ := ih
    exact ⟨(ha.inside y hy c hc).1, hmy.trans (hlayered.nested y c hy hc)⟩

theorem Encloses.sees (h : a.Encloses m x) (ha : a.WellFormed) (hfilled : a.scopes.Filled (a.block m).scope) :
    a.scopes.Sees (a.block x).scope (a.block m).scope :=
  (Scopes.sees_iff_mem_chain ha.ordered).mpr (h _ hfilled (a.scopes.self_mem_chain _))

/-- The turn of a block in a layered arena, after which its instances stay in their scopes. -/
structure Lasts (kind : Repetition) (root : ScopeId) (id : BlockId) (moment final : Arena) : Prop where
  layered : moment.Layered
  spreads : Spreads moment (kind.expand root moment id).2 kind id (kind.expand root moment id).1
  after : Deepens (kind.expand root moment id).2 final

theorem Lasts.later {b : Arena} (h : Lasts kind root id moment final) (hb : Deepens final b) :
    Lasts kind root id moment b :=
  ⟨h.layered, h.spreads, h.after.trans hb⟩

theorem AtTurn.lasts (h : AtTurn kind root a ids id moment) (hsite : Site (fun _ => True) a root)
    (hlayered : a.Layered) (hids : ∀ id ∈ ids, a.Has root id) :
    Lasts kind root id moment (mapThrough (kind.expand root) a ids).2 := by
  obtain ⟨before, after, rfl, rfl⟩ := h
  have hbefore := deepens_expandAll kind hsite.well hsite.top fun j hj => hids j (List.mem_append_left _ hj)
  have hin := (hids id (List.mem_append_right _ List.mem_cons_self)).changes hsite.well hbefore.changes
  have htop := hsite.top.changes hbefore.changes
  have hspreads := spreads_expand kind hbefore.later htop hin
  have hmade := hbefore.trans hspreads.deepens
  have hafter := deepens_expandAll kind hmade.later (hsite.top.changes hmade.changes) fun j hj =>
    (hids j (List.mem_append_right _ (List.mem_cons_of_mem id hj))).changes hsite.well hmade.changes
  rw [mapThrough_append, mapThrough_cons]
  exact ⟨hbefore.layered hlayered, hspreads, hafter⟩

theorem InRounds.lasts (h : InRounds root a ids kind id moment) (hsite : Site (fun _ => True) a root)
    (hlayered : a.Layered) (hids : ∀ id ∈ ids, a.Has root id) :
    Lasts kind root id moment ((a.expandCounts root ids).2.expandForEach root (a.expandCounts root ids).1).2 := by
  obtain ⟨hcounts, hcounted⟩ := hsite.expandCounts hids
  have hdeepens := deepens_expandAll .count hsite.well hsite.top hids
  have hmid := hsite.changes hcounts
  cases kind with
  | count =>
    have hround : Lasts .count root id moment (a.expandCounts root ids).2 := AtTurn.lasts h hsite hlayered hids
    exact hround.later (deepens_expandAll .forEach hmid.well hmid.top hcounted)
  | forEach => exact AtTurn.lasts h hmid (hdeepens.layered hlayered) hcounted

/-- A block that is at the end inside one of the parts that an instance was made of. -/
def InPart (made final : Arena) (m x : BlockId) : Prop :=
  ∃ part, made.Below [m] part ∧ final.Below [part] x

/-- The instances are there at the end, and all inside their parts sees their scopes. -/
theorem Lasts.instances (h : Lasts kind root id moment final) {items : List Item}
    (hitems : moment.items? id kind = some items) :
    List.Forall₂ (fun (item : Item) m => final.IsInstance item.names item.key item.value m
        ∧ ∀ x, InPart (kind.expand root moment id).2 final m x →
          final.scopes.Sees (final.block x).scope (final.block m).scope)
      items (kind.expand root moment id).1 := by
  refine (h.spreads.instances items hitems).imp fun item m hstands => ?_
  have hmade := h.spreads.deepens.layered h.layered
  have hin := h.after.isInstance hstands.isInstance
  refine ⟨hin, fun x hx => ?_⟩
  obtain ⟨part, hpart, hx⟩ := hx
  obtain ⟨hlt, hencloses⟩ := hpart.encloses h.after.well hmade hstands.isInstance.block
  have hsince := h.after.encloses hstands.isInstance.block hlt hencloses
  have hlast := (hx.encloses h.after.later (h.after.layered hmade)
    (Nat.lt_of_lt_of_le hlt h.after.changes.size_blocks_le)).2
  exact (hsince.trans hlast).sees h.after.later hin.filled

end Arena

namespace ModuleRun

variable {s : Session} {run : Evaluate} {force : Bool} {d : Nat}
  {r mid next start settled loaded resettled expanded done : ModuleRun} {call : ModuleCall}
  {modules : List ModuleInstance} {t : Turn} {kind : Repetition} {id : BlockId} {moment : Arena}

/-- A turn of a dynamic block leaves the arena layered, and what it makes lasts. -/
theorem Layered.turns_last (hr : r.Layered) (ht : t ∈ r.turns) :
    Arena.Lasts .forEach r.root t.dynamic t.arena r.expandBlocks.arena := by
  have hsub := List.Subset.refl r.module.blocks
  obtain ⟨-, hmid⟩ := expand_settles (List.nil_subset _) hsub hr
  obtain ⟨-, hmade⟩ := expand_advances hr.sound (.all r) (List.nil_subset _) hsub
  have hsite : Arena.Site (fun _ => True) (r.expand [] r.module.blocks).2.arena r.root := hmid.sound.site trivial
  obtain ⟨-, hturns⟩ := Arena.Deepens.mapThrough_pairs
    (f := fun a id => Arena.turnsUpTo r.root a.blocks.size a id)
    (Q := fun c _ turns => ∀ t ∈ turns, t.Settles c r.root)
    (fun hbc hturns t ht => (hturns t ht).later hbc) hsite.well
    fun b hb id hid => Arena.rendersInLayers_turnsUpTo r.root b.blocks.size b id (hsite.changes hb.changes)
      (hb.layered hmid.layered) ((hmade id hid).changes hsite.well hb.changes)
  have hsettles := Arena.forall_mem_flatten hturns t ht
  have hstart : Arena.Site (fun _ => True) r.arena r.root := hr.sound.site trivial
  have hwithin := hr.sound.turns_within ht
  have hturn := hwithin.site hstart
  refine ⟨hsettles.layered, Arena.spreads_expand .forEach hturn.well hturn.top (hwithin.has hstart), ?_⟩
  rw [arena_expandBlocks]
  exact hsettles.after

theorem loadModules_lasts (hr : r.Layered) (h : r.loadModules s = .ok loaded)
    (hturn : Arena.InRounds r.root r.arena r.callBlocks kind id moment) :
    Arena.Lasts kind r.root id moment loaded.arena := by
  rw [loadModules, List.partition_eq_filter_filter] at h
  let isCall (id : BlockId) : Bool := (r.arena.block id).kind == .module
  have hsub (p : BlockId → Bool) : r.module.blocks.filter p ⊆ r.module.blocks :=
    fun id hid => (List.mem_filter.mp hid).1
  obtain ⟨-, hmade⟩ := expand_advances hr.sound (.all r) (hsub (not ∘ isCall)) (hsub isCall)
  obtain ⟨-, hmid⟩ := expand_settles (r := r) (hsub (not ∘ isCall)) (hsub isCall) hr
  have hlasts := Arena.InRounds.lasts hturn (hr.sound.site trivial) hr.layered
    fun id hid => hr.sound.blocks id (hsub isCall hid)
  exact hlasts.later (loadCalls_settles hmade h hmid).1

theorem expandBlocks_lasts (hr : r.Layered)
    (hturn : Arena.InRounds r.root r.arena r.module.blocks kind id moment) :
    Arena.Lasts kind r.root id moment r.expandBlocks.arena := by
  have hsub := List.Subset.refl r.module.blocks
  obtain ⟨-, hmade⟩ := expand_advances hr.sound (.all r) (List.nil_subset _) hsub
  obtain ⟨-, hmid⟩ := expand_settles (List.nil_subset _) hsub hr
  have hlasts := Arena.InRounds.lasts hturn (hr.sound.site trivial) hr.layered hr.sound.blocks
  exact hlasts.later (deepens_dynamics (hmid.sound.site trivial) hmid.layered hmade)

/-- The turns of the blocks of an evaluator and of the dynamic blocks inside them. -/
def AnyTurn (settled resettled : ModuleRun) (kind : Repetition) (id : BlockId) (moment : Arena) : Prop :=
  ExpansionTurn settled resettled kind id moment
    ∨ kind = .forEach ∧ ∃ t ∈ resettled.turns, id = t.dynamic ∧ moment = t.arena

theorem Phases.lasts (h : Phases s run start settled loaded resettled expanded done) (hrun : Contained run)
    (hdeep : Deepening run) (hs : start.Layered) (hturn : AnyTurn settled resettled kind id moment) :
    Arena.Lasts kind start.root id moment done.arena := by
  obtain ⟨hsettle, hload, hresettle, hexpand, hrest, hforce⟩ := h.settles hrun hdeep
  obtain ⟨-, hsettled⟩ := hsettle hs
  obtain ⟨-, hloaded⟩ := hload hsettled
  obtain ⟨hresettling, hresettled⟩ := hresettle hloaded
  obtain ⟨hexpanding, hblocks⟩ := hexpand hresettled
  obtain ⟨hdone, -⟩ := (hrest.trans hforce) hblocks
  have hroot : resettled.root = start.root := (h.advances_resettled hrun hs.sound).root
  rcases hturn with (hcall | hlisted) | ⟨rfl, t, ht, rfl, rfl⟩
  · have hroot : settled.root = start.root := (settle_advances hrun hs.sound (.all start) h.settle).root
    have hlasts := loadModules_lasts hsettled h.load hcall
    rw [hroot] at hlasts
    exact ((hlasts.later hresettling).later hexpanding).later hdone
  · rw [← hroot]
    exact (expandBlocks_lasts hresettled hlisted).later hdone
  · rw [← hroot]
    exact (hresettled.turns_last ht).later hdone

/-! ## After an evaluation -/

theorem evaluateEach_split {before after done : List ModuleCall}
    (h : r.evaluateEach s run force (before ++ after) = .ok (done, next)) :
    ∃ first mid rest, r.evaluateEach s run force before = .ok (first, mid)
      ∧ mid.evaluateEach s run force after = .ok (rest, next) := by
  induction before generalizing r done with
  | nil => exact ⟨[], r, done, rfl, h⟩
  | cons call before ih =>
    rw [List.cons_append] at h
    obtain ⟨later, passed, others, hcall, hothers, rfl⟩ := evaluateEach_cons_eq_ok_iff.mp h
    obtain ⟨first, mid, rest, hfirst, hrest⟩ := ih hothers
    exact ⟨later :: first, mid, rest, evaluateEach_cons_eq_ok_iff.mpr ⟨later, passed, first, hcall, hfirst, rfl⟩,
      hrest⟩

/-- After a call has been evaluated, the calls behind it are evaluated and outputs are bound. -/
theorem returned_deepens (hrun : Contained run) (hdeep : Deepening run) (hr : r.Layered)
    (hstarts : Starts s run force r mid call) {child : ModuleRun}
    (hchild : run (mid.started s call) = .ok (modules, child)) (h : r.evaluateCalls s run force = .ok next) :
    Arena.Deepens child.arena next.arena := by
  obtain ⟨before, after, done, hsplit, hbefore⟩ := hstarts.reached
  obtain ⟨calls, passed, heach, hexport⟩ := evaluateCalls_exports hrun hr.sound h
  let later : ModuleCall := { call with result := some ⟨modules, child.outputs⟩ }
  let q : ModuleRun := { mid with arena := child.arena, visited := mid.visited ++ [visit mid.arena call] }
  have hcall : mid.evaluateCall s run force call = .ok (later, q) := by
    rw [evaluateCall_of_due hstarts.isOpen hstarts.due, hchild]
    rfl
  -- The loop over the calls is cut right behind this one; what is left of it leaves the arena in layers.
  have hupto : r.evaluateEach s run force (before ++ [call]) = .ok (done ++ [later], q) :=
    evaluateEach_concat hbefore hcall
  rw [hsplit, List.append_cons] at heach
  obtain ⟨first, q', rest, hfirst, hafter⟩ := evaluateEach_split heach
  obtain ⟨-, rfl⟩ := Prod.mk.inj (Except.ok.inj (hupto.symm.trans hfirst))
  have hcalls : r.calls = (before ++ [call]) ++ after := by rw [hsplit, ← List.append_cons]
  have hsub : before ++ [call] ⊆ r.calls := hcalls ▸ List.subset_append_left _ _
  have hrest : after ⊆ r.calls := hcalls ▸ List.subset_append_right _ _
  have hdistinct := hr.sound.distinct
  rw [hcalls, List.map_append, List.nodup_append] at hdistinct
  obtain ⟨hsound, hsame, -⟩ := hr.sound.evaluateEach hrun hsub hupto
  have hlayered := (evaluateEach_deepens hrun hdeep hr.sound hr.layered hsub hdistinct.1
    (fun other hother => hr.waiting other (hsub hother)) hupto).layered hr.layered
  have hbehind := evaluateEach_deepens hrun hdeep hsound hlayered (hsame ▸ hrest) hdistinct.2.1
    (fun other hother hopen => by
      have hne : ∀ earlier ∈ before ++ [call], earlier.root ≠ other.root := fun earlier hearlier =>
        hdistinct.2.2 _ (List.mem_map_of_mem hearlier) _ (List.mem_map_of_mem hother)
      have hothers := hr.sound.evaluateEach_others hrun hsub (hrest hother) hne hupto
      exact (hr.waiting other (hrest hother) hopen).changes hr.sound.well hothers fun hne => hne rfl)
    hafter
  exact hbehind.trans hexport

theorem Continues.settles (hrun : Contained run) (hdeep : Deepening run) (h : Continues s run start r) :
    Settles start r := by
  induction h with
  | start => exact .refl start
  | bind _ ih => exact ih.trans (Rebinds.bindBlocks _).settles
  | calls _ force hcalls ih => exact ih.trans (evaluateCalls_settles hrun hdeep hcalls)
  | read _ ih => exact ih.trans (readWanted_settles s _)
  | load _ hload ih => exact ih.trans (loadModules_settles hload)
  | expand _ ih => exact ih.trans (expandBlocks_settles _)

/-- The states in which an evaluator has come to its end: its own last one, and those that the evaluators around it
come to after its call. -/
inductive Ended (s : Session) (d : Nat) (start : ModuleRun) : Nat → ModuleRun → Prop where
  | own {modules : List ModuleInstance} {done : ModuleRun}
      (heval : evaluateWith s (evaluateUpTo s d) start = .ok (modules, done)) : Ended s d start d done
  | returned {e : Nat} {r mid child next : ModuleRun} {call : ModuleCall} {force : Bool}
      {modules : List ModuleInstance} (hr : Reached s (e + 1) r)
      (hstarts : Starts s (evaluateUpTo s (e + 1)) force r mid call)
      (hchild : evaluateUpTo s (e + 1) (mid.started s call) = .ok (modules, child)) (h : Ended s d start e child)
      (hcalls : r.evaluateCalls s (evaluateUpTo s (e + 1)) force = .ok next) : Ended s d start (e + 1) next
  | continued {e : Nat} {r next : ModuleRun} (h : Ended s d start e r) (hnext : Continues s (evaluateUpTo s e) r next) :
      Ended s d start e next

/-- What comes after an evaluation leaves its arena in layers. -/
theorem Ended.deepens (h : Begins s d start) {e : Nat} {last : ModuleRun} (hlast : Ended s d start e last) :
    last.Layered ∧ ∃ modules done, evaluateWith s (evaluateUpTo s d) start = .ok (modules, done)
      ∧ Arena.Deepens done.arena last.arena := by
  induction hlast with
  | @own modules done heval =>
    have hdone := ((Continues.ofEvaluateWith heval).reached h.reached).layered
    exact ⟨hdone, modules, done, heval, .refl hdone.sound.well⟩
  | @returned e r mid child next call force _ hr hstarts hchild _ hcalls ih =>
    obtain ⟨-, modules, done, heval, hdeepens⟩ := ih
    have hrun := contained_evaluateUpTo s (e + 1)
    have hdeep := deepening_evaluateUpTo s (e + 1)
    have hreturned := returned_deepens hrun hdeep hr.layered hstarts hchild hcalls
    exact ⟨(evaluateCalls_settles hrun hdeep hcalls hr.layered).2, modules, done, heval,
      hdeepens.trans hreturned⟩
  | @continued e r next _ hnext ih =>
    obtain ⟨hlayered, modules, done, heval, hdeepens⟩ := ih
    obtain ⟨hrest, hlast⟩ := hnext.settles (contained_evaluateUpTo s e) (deepening_evaluateUpTo s e) hlayered
    exact ⟨hlast, modules, done, heval, hdeepens.trans hrest⟩

/-- What is made in the turns of an evaluation is still there in every state in which it has ended. -/
theorem Ended.lasts (h : Begins s d start) {e : Nat} {last : ModuleRun} (hlast : Ended s d start e last) :
    last.Layered ∧ ∃ settled loaded resettled expanded done,
      Phases s (evaluateUpTo s d) start settled loaded resettled expanded done
        ∧ ∀ kind id moment, AnyTurn settled resettled kind id moment →
          Arena.Lasts kind start.root id moment last.arena := by
  obtain ⟨hlayered, modules, done, heval, hdeepens⟩ := hlast.deepens h
  obtain ⟨settled, loaded, resettled, expanded, hphases, -⟩ := exists_phases heval
  refine ⟨hlayered, settled, loaded, resettled, expanded, done, hphases, fun kind id moment hturn => ?_⟩
  exact (hphases.lasts (contained_evaluateUpTo s d) (deepening_evaluateUpTo s d) h.reached.layered hturn).later
    hdeepens

end ModuleRun

/-! ## What instances read -/

namespace ModuleRun

variable {s : Session} {d e : Nat} {start last : ModuleRun}

/-- A dynamic block in the content of another one; the elements of both are objects. -/
def nestedElements : List SourceFile :=
  let one (name : String) (n : Int) : Expr := .list [.object [(.name name, .number (.int n))]]
  let inner : BlockTree := .node "dynamic" ["y"] [⟨"for_each", one "a" 1, default⟩]
    [.node "content" [] [⟨"v", .member "dynamic" "value", default⟩] [] default] default
  [⟨"main.tf", "", [
    .node "resource" ["r", "n"] [] [
      .node "dynamic" ["x"] [⟨"for_each", one "b" 2, default⟩]
        [.node "content" [] [] [inner] default] default] default]⟩]

/-- Whatever is inside an instance of a `for_each` or in the content of a dynamic block reads, under each name that the
instance binds, the element of the innermost instance around it that binds the name. -/
theorem Ended.reads_innermost_element (h : Begins s d start) (hlast : Ended s d start e last) :
    ∃ settled loaded resettled expanded done,
      Phases s (evaluateUpTo s d) start settled loaded resettled expanded done
        ∧ ∀ id moment items, AnyTurn settled resettled .forEach id moment → moment.items? id .forEach = some items →
          List.Forall₂ (fun (item : Arena.Item) m => last.arena.IsInstance item.names item.key item.value m
              ∧ ∀ x, Arena.InPart (Repetition.forEach.expand start.root moment id).2 last.arena m x →
                ∀ name ∈ item.names, last.arena.ReadsInnermostElement x name)
            items (Repetition.forEach.expand start.root moment id).1 := by
  obtain ⟨hlayered, settled, loaded, resettled, expanded, done, hphases, hlasts⟩ := hlast.lasts h
  refine ⟨settled, loaded, resettled, expanded, done, hphases, fun id moment items hturn hitems => ?_⟩
  refine ((hlasts .forEach id moment hturn).instances hitems).imp fun item m hm => ?_
  obtain ⟨hinstance, hsees⟩ := hm
  refine ⟨hinstance, fun x hx name hname => ?_⟩
  exact Arena.readsInnermostElement hlayered.sound.well hlayered.layered hinstance hname (hsees x hx)

/-- The content of the inner block reads a mixture of both elements: they are maps. -/
theorem Ended.reads_innermost_element_nestedElements :
    let s : Session := ⟨constantOutput, "/", "default", false, 6, []⟩
    let start := Project.rootRun s [] nestedElements
    ∃ last, Begins s 999 start ∧ Ended s 999 start 999 last
      ∧ (∃ x, (last.arena.block x).kind = .other "y"
        ∧ (last.arena.evaluate (last.arena.block x).scope (.member "dynamic" "value")).toOption.map Value.json
          = some "\x7b\"b\":2,\"a\":1\x7d")
      ∧ ∃ settled loaded resettled expanded done,
        Phases s (evaluateUpTo s 999) start settled loaded resettled expanded done
          ∧ ∀ id moment items, AnyTurn settled resettled .forEach id moment →
            moment.items? id .forEach = some items →
            List.Forall₂ (fun (item : Arena.Item) m => last.arena.IsInstance item.names item.key item.value m
                ∧ ∀ x, Arena.InPart (Repetition.forEach.expand start.root moment id).2 last.arena m x →
                  ∀ name ∈ item.names, last.arena.ReadsInnermostElement x name)
              items (Repetition.forEach.expand start.root moment id).1 := by
  intro s start
  have hcheck : (evaluateWith s (evaluateUpTo s 999) start).toOption.any (fun result =>
      (List.range result.2.arena.blocks.size).any fun x =>
        (result.2.arena.block x).kind == .other "y"
          && (result.2.arena.evaluate (result.2.arena.block x).scope (.member "dynamic" "value")).toOption.map
            Value.json == some "\x7b\"b\":2,\"a\":1\x7d") = true := by
    decide +kernel
  obtain ⟨⟨modules, last⟩, hdone, hany⟩ := (Option.any_eq_true _ _).mp hcheck
  obtain ⟨x, -, hx⟩ := List.any_eq_true.mp hany
  rw [Bool.and_eq_true, beq_iff_eq, beq_iff_eq] at hx
  have hbegins : Begins s 999 start := .root [] nestedElements
  have hended : Ended s 999 start 999 last := .own (eq_ok_of_toOption hdone)
  exact ⟨last, hbegins, hended, ⟨x, hx⟩, Ended.reads_innermost_element hbegins hended⟩

/-- A resource with a `count` and a dynamic block over a list in it. -/
def countedList : List SourceFile :=
  let index : Attribute := ⟨"v", .member "count" "index", default⟩
  [⟨"main.tf", "", [
    .node "resource" ["r", "n"] [⟨"count", .number (.int 2), default⟩, index]
      [.node "dynamic" ["d"] [⟨"for_each", .list [.text "a", .text "b"], default⟩]
        [.node "content" [] [index] [] default] default] default]⟩]

/-- What is inside an instance of a `count` at the end reads as index the key of the innermost instance around it that
has a number as key, so its own index if no other such instance is between. -/
theorem Ended.reads_innermost_index (h : Begins s d start) (hlast : Ended s d start e last) :
    ∃ settled loaded resettled expanded done,
      Phases s (evaluateUpTo s d) start settled loaded resettled expanded done
        ∧ ∀ id moment attr, ExpansionTurn settled resettled .count id moment →
          (moment.block id).attribute? "count" = some attr → (moment.block id).isExpandable = true →
          List.Forall₂ (fun (i : Nat) m => last.arena.IsInstance [] (.int i) .null m
              ∧ ∀ x, last.arena.Below [m] x → last.arena.ReadsInnermostIndex x
                ∧ (last.arena.Innermost (fun _ key => Arena.isNumber key) m x →
                  last.arena.evaluate (last.arena.block x).scope (.member "count" "index") = .ok (.int i)))
            (List.range (instanceCount (moment.value (moment.block id) attr)))
            (Repetition.count.expand start.root moment id).1 := by
  obtain ⟨hlayered, settled, loaded, resettled, expanded, done, hphases, hlasts⟩ := hlast.lasts h
  refine ⟨settled, loaded, resettled, expanded, done, hphases, fun id moment attr hturn hattr happlies => ?_⟩
  have hitems : moment.items? id .count = some ((List.range (instanceCount
      (moment.value (moment.block id) attr))).map fun i : Nat => ⟨[], .int i, .null⟩) := by
    rw [Arena.items?, hattr, Option.bind_some, if_pos happlies]
  have hinstances := (hlasts .count id moment (.inl hturn)).instances hitems
  rw [List.forall₂_map_left_iff] at hinstances
  refine hinstances.imp fun i m hm => ?_
  obtain ⟨hinstance, hsees⟩ := hm
  refine ⟨hinstance, fun x hx => ⟨?_, fun hin => ?_⟩⟩
  · have hpart := hsees x ⟨m, .listed (List.mem_singleton_self m), hx⟩
    exact Arena.readsInnermostIndex hlayered.sound.well hlayered.layered hinstance rfl hpart
  · exact hin.evaluate_index hlayered.sound.well hlayered.layered hinstance rfl

/-- The contents of the dynamic block are instances for positions in a list, so the index that they read is their
own. -/
theorem Ended.reads_innermost_index_countedList :
    let s : Session := ⟨constantOutput, "/", "default", false, 6, []⟩
    let start := Project.rootRun s [] countedList
    ∃ last, Begins s 999 start ∧ Ended s 999 start 999 last
      ∧ (last.module.blocks.map fun m => ((last.arena.block m).children.map fun x =>
          (last.arena.evaluate (last.arena.block x).scope (.member "count" "index")).toOption.map Value.json))
        = [[some "0", some "1"], [some "0", some "1"]]
      ∧ ∃ settled loaded resettled expanded done,
        Phases s (evaluateUpTo s 999) start settled loaded resettled expanded done
          ∧ ∀ id moment attr, ExpansionTurn settled resettled .count id moment →
            (moment.block id).attribute? "count" = some attr → (moment.block id).isExpandable = true →
            List.Forall₂ (fun (i : Nat) m => last.arena.IsInstance [] (.int i) .null m
                ∧ ∀ x, last.arena.Below [m] x → last.arena.ReadsInnermostIndex x
                  ∧ (last.arena.Innermost (fun _ key => Arena.isNumber key) m x →
                    last.arena.evaluate (last.arena.block x).scope (.member "count" "index") = .ok (.int i)))
              (List.range (instanceCount (moment.value (moment.block id) attr)))
              (Repetition.count.expand start.root moment id).1 := by
  intro s start
  have hcheck : (evaluateWith s (evaluateUpTo s 999) start).toOption.any (fun result =>
      (result.2.module.blocks.map fun m => ((result.2.arena.block m).children.map fun x =>
        (result.2.arena.evaluate (result.2.arena.block x).scope (.member "count" "index")).toOption.map Value.json))
        == [[some "0", some "1"], [some "0", some "1"]]) = true := by
    decide +kernel
  obtain ⟨⟨modules, last⟩, hdone, hread⟩ := (Option.any_eq_true _ _).mp hcheck
  have hbegins : Begins s 999 start := .root [] countedList
  have hended : Ended s 999 start 999 last := .own (eq_ok_of_toOption hdone)
  exact ⟨last, hbegins, hended, eq_of_beq hread, Ended.reads_innermost_index hbegins hended⟩

end ModuleRun

end InfraConfig
