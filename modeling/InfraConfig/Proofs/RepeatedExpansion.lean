import InfraConfig.Proofs.LoadedModules
import InfraConfig.Proofs.RenderedTrees

/-!
# Expanding twice

An expansion leaves nothing for a second one: a block that `count` or `for_each` repeats has been replaced by its
instances, which are marked, and all that stands in the list of blocks then is the root of a rendered tree.
-/

namespace InfraConfig

namespace Arena

variable {a b c : Arena} {root : ScopeId} {v ids : List BlockId} {id x : BlockId} {kind other : Repetition}

/-! ## Blocks that are not repeated -/

theorem applies_congr {d d' : Block} (kind : Repetition) (hkind : d.kind = d'.kind) (hexpanded : d.expanded = d'.expanded) :
    kind.applies d = kind.applies d' := by
  cases kind <;> simp only [Repetition.applies, Block.isExpandable, hkind, hexpanded]

theorem spent_later (h : (a.block x).Spent kind) (hx : x < a.blocks.size) (htexts : KeepsText a b)
    (hkind : (b.block x).kind = (a.block x).kind) : (b.block x).Spent kind := by
  have hfixed := htexts.fixed x hx
  intro hsome
  rw [Block.attribute?, Block.attributes_of_fixed hfixed] at hsome
  rw [applies_congr kind hkind (Block.expanded_of_fixed hfixed)]
  exact h hsome

/-- The `for_each` of a block is over a collection, if it is evaluated. -/
def OverCollection (a : Arena) (id : BlockId) : Prop :=
  ∀ attr, (a.block id).attribute? "for_each" = some attr → Repetition.forEach.applies (a.block id) = true →
    (a.value (a.block id) attr).isIterable = true

instance (a : Arena) (id : BlockId) : Decidable (OverCollection a id) :=
  match hattr : (a.block id).attribute? "for_each" with
  | none => .isTrue fun attr h => by simp [hattr] at h
  | some attr => decidable_of_iff (Repetition.forEach.applies (a.block id) = true →
      (a.value (a.block id) attr).isIterable = true)
      ⟨fun h attr' heq => Option.some.inj (hattr.symm.trans heq) ▸ h, fun h => h attr hattr⟩

/-- Instances that are asked for take the place of a block. -/
theorem adds_expand (h : ¬ (a.block id).Spent kind) (hcollection : kind = .forEach → OverCollection a id)
    (root : ScopeId) : Adds a (kind.expand root a id).2 (kind.expand root a id).1 := by
  obtain ⟨attr, hattr, happlies⟩ := ((a.block id).spent_or kind).resolve_left h
  cases kind with
  | count => exact adds_expand_count root hattr happlies
  | forEach => exact adds_expand_elements root hattr happlies (hcollection rfl attr hattr happlies)

/-- What is made of a block in its turn asks for no further instances of this kind. -/
theorem spent_expand (hid : id < a.blocks.size) (hcollection : kind = .forEach → OverCollection a id) (root : ScopeId) :
    ∀ made ∈ (kind.expand root a id).1, ((kind.expand root a id).2.block made).Spent kind := by
  intro made hmade
  by_cases hspent : (a.block id).Spent kind
  · rw [expand_of_spent hspent] at hmade ⊢
    exact List.mem_singleton.mp hmade ▸ hspent
  · obtain ⟨low, htrees, hbounds⟩ := (adds_expand hspent hcollection root).row.trees
    rcases ((standsFor_expand kind root a id).2 hid made hmade).origin with rfl | ⟨-, hinstance⟩
    · have hnew : a.blocks.size ≤ made := Nat.le_trans (hbounds made hmade).1 (htrees.low_le hmade)
      exact absurd hid (Nat.not_lt.mpr hnew)
    · exact .ofExpanded kind hinstance.expanded

/-- Nor does it ask for others that its block did not ask for. -/
theorem spent_expand_other (hid : id < a.blocks.size) (h : (a.block id).Spent other) (root : ScopeId) :
    ∀ made ∈ (kind.expand root a id).1, ((kind.expand root a id).2.block made).Spent other := by
  intro made hmade
  obtain ⟨htexts, hstands⟩ := standsFor_expand kind root a id
  rcases (hstands hid made hmade).origin with rfl | ⟨-, hinstance⟩
  · exact spent_later h hid htexts ((replaces_expand kind root a made).keeps.kind made hid trivial)
  · exact .ofExpanded other hinstance.expanded

/-! ## Rounds -/

theorem AtTurn.not_nil {moment : Arena} (h : AtTurn kind root a [] id moment) : False := by
  obtain ⟨before, after, hsplit, -⟩ := h
  cases before <;> cases hsplit

theorem AtTurn.cases_cons {moment : Arena} (h : AtTurn kind root a (x :: ids) id moment) :
    id = x ∧ moment = a ∨ AtTurn kind root (kind.expand root a x).2 ids id moment := by
  obtain ⟨before, after, hsplit, hmoment⟩ := h
  cases before with
  | nil =>
    obtain ⟨rfl, rfl⟩ := List.cons.inj hsplit
    exact .inl ⟨rfl, hmoment⟩
  | cons y before =>
    obtain ⟨rfl, hrest⟩ := List.cons.inj hsplit
    exact .inr ⟨before, after, hrest, hmoment⟩

theorem keeps_round (kind : Repetition) (root : ScopeId) (a : Arena) (ids : List BlockId) :
    Keeps (fun _ => True) a (mapThrough (kind.expand root) a ids).2 ∧ KeepsText a (mapThrough (kind.expand root) a ids).2 := by
  constructor
  · rw [mapThrough_snd]
    exact .foldl fun b x _ => (replaces_expand kind root b x).keeps
  · exact .mapThrough (fun b x => (standsFor_expand kind root b x).1) a ids

/-- What holds of all that is made of a block in its turn, and lasts, holds after the round. -/
theorem round_induction {P : Arena → BlockId → Prop} (hids : ∀ id ∈ ids, id < a.blocks.size)
    (hlater : ∀ b more x, x < b.blocks.size → P b x → P (mapThrough (kind.expand root) b more).2 x)
    (hturn : ∀ id moment, id < moment.blocks.size → AtTurn kind root a ids id moment →
      ∀ made ∈ (kind.expand root moment id).1, P (kind.expand root moment id).2 made) :
    ∀ made ∈ (mapThrough (kind.expand root) a ids).1.flatten, P (mapThrough (kind.expand root) a ids).2 made := by
  induction ids generalizing a with
  | nil => exact fun made hmade => absurd hmade List.not_mem_nil
  | cons id ids ih =>
    intro made hmade
    have hid := hids id List.mem_cons_self
    obtain ⟨htexts, hstands⟩ := standsFor_expand kind root a id
    rw [mapThrough_cons, List.flatten_cons, List.mem_append] at hmade
    rw [mapThrough_cons]
    rcases hmade with hmade | hmade
    · exact hlater _ ids made (hstands hid made hmade).lt (hturn id a hid (.head kind root a id ids) made hmade)
    · refine ih (fun i hi => ?_) (fun i moment hi hat => ?_) made hmade
      · exact Nat.lt_of_lt_of_le (hids i (List.mem_cons_of_mem id hi)) htexts.size
      · have hfrom : AtTurn kind root a ([id] ++ ids) i moment := hat.append
        exact hturn i moment hi hfrom

/-- After a round over collections none of the blocks asks for instances of its kind. -/
theorem spent_round (kind : Repetition) (hids : ∀ id ∈ ids, id < a.blocks.size)
    (hcollections : kind = .forEach → ∀ id moment, AtTurn kind root a ids id moment → OverCollection moment id) :
    ∀ made ∈ (mapThrough (kind.expand root) a ids).1.flatten,
      ((mapThrough (kind.expand root) a ids).2.block made).Spent kind := by
  refine round_induction (P := fun b x => (b.block x).Spent kind) hids (fun b more x hx h => ?_)
    fun id moment hid hat => spent_expand hid (fun heq => hcollections heq id moment hat) root
  obtain ⟨hkeeps, htexts⟩ := keeps_round kind root b more
  exact spent_later h hx htexts (hkeeps.kind x hx trivial)

/-- A round leaves none that ask for instances of another kind, if there were none. -/
theorem spent_round_other (kind : Repetition) (hids : ∀ id ∈ ids, id < a.blocks.size)
    (hspent : ∀ id ∈ ids, (a.block id).Spent other) :
    ∀ made ∈ (mapThrough (kind.expand root) a ids).1.flatten,
      ((mapThrough (kind.expand root) a ids).2.block made).Spent other := by
  refine round_induction (P := fun b x => (b.block x).Spent other) hids (fun b more x hx h => ?_)
    fun id moment hid hat => ?_
  · obtain ⟨hkeeps, htexts⟩ := keeps_round kind root b more
    exact spent_later h hx htexts (hkeeps.kind x hx trivial)
  · obtain ⟨before, after, rfl, rfl⟩ := hat
    have hmem : id ∈ before ++ id :: after := List.mem_append_right before List.mem_cons_self
    obtain ⟨hkeeps, htexts⟩ := keeps_round kind root a before
    have hthen := spent_later (hspent id hmem) (hids id hmem) htexts (hkeeps.kind id (hids id hmem) trivial)
    exact spent_expand_other hid hthen root

/-- A round over the roots of trees. -/
theorem Renderable.round (h : Renderable a v) (hwalk : Walk a ids v) (hv : Distinct a v) (kind : Repetition)
    (root : ScopeId) : ∃ w, Walk (mapThrough (kind.expand root) a ids).2 (mapThrough (kind.expand root) a ids).1.flatten w
      ∧ Distinct (mapThrough (kind.expand root) a ids).2 w ∧ Renderable (mapThrough (kind.expand root) a ids).2 w := by
  have htame : Tame a (mapThrough (kind.expand root) a ids).2 :=
    h.tame_mapThrough fun b hb x hx => ⟨(replaces_expand kind root b x).keeps, hb.tame_expand (hwalk.subset hx) kind root⟩
  obtain ⟨w, hmade, hstep⟩ := grows_round kind root a ids v hwalk hv
  exact ⟨w, hmade, hstep.distinct, h.regrows hstep htame hmade⟩

/-- A block in which an expansion finds nothing to do. -/
structure Exhausted (a : Arena) (id : BlockId) : Prop where
  spent : ∀ kind, (a.block id).Spent kind
  rendered : Rendered a id

/-- After the dynamic blocks have been rendered, nothing is left to do in the trees of blocks that are not repeated. -/
theorem exhausted_foldl (root : ScopeId) (hwalk : Walk a ids v) (hv : Distinct a v) (hall : Renderable a v)
    (hspent : ∀ id ∈ ids, ∀ kind, (a.block id).Spent kind) :
    ∀ id ∈ ids, Exhausted (ids.foldl (fun a id => a.expandDynamic root id) a) id := by
  have hready : ReadiesUpTo v.length fun a id => a.expandDynamic root id :=
    fun a x v hwalk hv hall _ => readies_expandDynamic root hwalk hv hall
  obtain ⟨htame, hdone⟩ := readies_foldl (fun a x => grows_expandDynamicUpTo root a.blocks.size a x) hready hwalk hv hall
    (hwalk.shallow hv)
  intro id hid
  obtain ⟨hrendered, hkind⟩ := hdone id hid
  exact ⟨fun kind => spent_later (hspent id hid kind) (hv.lt id (hwalk.subset hid)) htame.toKeepsText hkind, hrendered⟩

end Arena

namespace ModuleRun

variable {r : ModuleRun} {visited : List BlockId}

/-- Expanding what has been expanded changes nothing. -/
theorem expandBlocks_of_exhausted (h : ∀ id ∈ r.module.blocks, r.arena.Exhausted id) : r.expandBlocks = r := by
  have hround (kind : Repetition) := mapThrough_of_fixed (f := kind.expand r.root) (s := r.arena)
    fun id hid => Arena.expand_of_spent ((h id hid).spent kind)
  have hcounts : r.arena.expandCounts r.root r.module.blocks = (r.module.blocks, r.arena) :=
    Prod.ext (hround .count).1 (hround .count).2
  have helements : r.arena.expandForEach r.root r.module.blocks = (r.module.blocks, r.arena) :=
    Prod.ext (hround .forEach).1 (hround .forEach).2
  have hrendered : r.module.blocks.foldl (fun a id => a.expandDynamic r.root id) r.arena = r.arena :=
    foldl_of_fixed fun id hid => (h id hid).rendered.expandDynamicUpTo r.root _
  simp only [expandBlocks, expand, hcounts, helements, hrendered, List.nil_append]

/-- An expansion leaves nothing to do. -/
theorem exhausted_expandBlocks (hwalk : r.arena.Walk r.module.blocks visited) (hv : r.arena.Distinct visited)
    (hplain : ∀ id, r.arena.Below r.module.blocks id → (r.arena.block id).RendersPlain)
    (hcollections : ∀ id moment, Arena.InRounds r.root r.arena r.module.blocks .forEach id moment →
      moment.OverCollection id) :
    ∀ id ∈ r.expandBlocks.module.blocks, r.expandBlocks.arena.Exhausted id := by
  let counted := r.arena.expandCounts r.root r.module.blocks
  let made := counted.2.expandForEach r.root counted.1
  have hblocks : r.expandBlocks.module.blocks = made.1 := rfl
  have harena : r.expandBlocks.arena = made.1.foldl (fun a id => a.expandDynamic r.root id) made.2 := rfl
  have hall : r.arena.Renderable visited := ⟨.ofWalk hwalk hv, fun x hx => hplain x (hwalk.mem_iff.mp hx)⟩
  obtain ⟨w, hcounted, hw, hcountedAll⟩ := hall.round hwalk hv .count r.root
  obtain ⟨u, hmade, hu, hmadeAll⟩ := hcountedAll.round hcounted hw .forEach r.root
  have hids (id : BlockId) (hid : id ∈ r.module.blocks) : id < r.arena.blocks.size := hv.lt id (hwalk.subset hid)
  have hmids (id : BlockId) (hid : id ∈ counted.1) : id < counted.2.blocks.size := hw.lt id (hcounted.subset hid)
  have hcounts : ∀ id ∈ counted.1, (counted.2.block id).Spent .count :=
    Arena.spent_round .count hids fun heq => nomatch heq
  have hkept : ∀ id ∈ made.1, (made.2.block id).Spent .count :=
    Arena.spent_round_other .forEach hmids hcounts
  have helements : ∀ id ∈ made.1, (made.2.block id).Spent .forEach :=
    Arena.spent_round .forEach hmids fun _ => hcollections
  rw [hblocks, harena]
  refine Arena.exhausted_foldl r.root hmade hu hmadeAll fun id hid kind => ?_
  cases kind with
  | count => exact hkept id hid
  | forEach => exact helements id hid

/-- Expansion is idempotent. Where the blocks of a module are trees without a dynamic block labelled `dynamic`, and
each `for_each` of a listed block that is evaluated is a collection, expanding them a second time changes neither the
list, nor the arena with all blocks and scopes. -/
theorem expandBlocks_idempotent (hwalk : r.arena.Walk r.module.blocks visited) (hv : r.arena.Distinct visited)
    (hplain : ∀ id, r.arena.Below r.module.blocks id → (r.arena.block id).RendersPlain)
    (hcollections : ∀ id moment, Arena.InRounds r.root r.arena r.module.blocks .forEach id moment →
      moment.OverCollection id) : r.expandBlocks.expandBlocks = r.expandBlocks :=
  expandBlocks_of_exhausted (exhausted_expandBlocks hwalk hv hplain hcollections)

/-- A counted resource with a dynamic block whose content has another one inside, and a resource for two elements. -/
def nestedContents : List SourceFile :=
  let inner : BlockTree := .node "dynamic" ["leaf"] [⟨"for_each", .list [.text "r"], default⟩]
    [.node "content" [] [⟨"v", .text "w", default⟩] [] default] default
  let outer : BlockTree := .node "dynamic" ["tag"] [⟨"for_each", .list [.text "p", .text "q"], default⟩]
    [.node "content" [] [] [inner] default] default
  [⟨"main.tf", "", [.node "resource" ["a", "x"] [⟨"count", .number (.int 2), default⟩] [outer] default,
    .node "resource" ["b", "y"] [⟨"for_each", .list [.bool true, .bool false], default⟩] [] default]⟩]

theorem expandBlocks_idempotent_nestedContents :
    let s : Session := ⟨constantOutput, "/", "default", false, 6, []⟩
    let r := Project.rootRun s [] nestedContents
    ∃ visited, r.arena.Walk r.module.blocks visited ∧ r.arena.Distinct visited
      ∧ (∀ id, r.arena.Below r.module.blocks id → (r.arena.block id).RendersPlain)
      ∧ (∀ id moment, Arena.InRounds r.root r.arena r.module.blocks .forEach id moment → moment.OverCollection id)
      ∧ r.expandBlocks.module.blocks.map (fun id => (r.expandBlocks.arena.inside id).length) = [2, 2, 0, 0]
      ∧ r.expandBlocks.expandBlocks = r.expandBlocks := by
  intro s r
  have hforest : r.arena.Forest [r.module] := forest_rootRun s [] nestedContents
  obtain ⟨visited, hwalk, hv⟩ := hforest.walk
  rw [List.flatMap_singleton] at hwalk
  have hlabels : ∀ x : Fin r.arena.blocks.size, (r.arena.block x).RendersPlain := by
    decide +kernel
  have hplain (id : BlockId) (hid : r.arena.Below r.module.blocks id) : (r.arena.block id).RendersPlain :=
    hlabels ⟨id, hforest.lt List.mem_cons_self hid⟩
  have hlist : (r.arena.expandCounts r.root r.module.blocks).1 = [10, 15, 5] := by decide +kernel
  have hcollections (id : BlockId) (moment : Arena)
      (hturn : Arena.InRounds r.root r.arena r.module.blocks .forEach id moment) : moment.OverCollection id := by
    rw [Arena.InRounds, hlist] at hturn
    rcases hturn.cases_cons with ⟨hid, hmoment⟩ | hturn
    · rw [hid, hmoment]
      decide +kernel
    rcases hturn.cases_cons with ⟨hid, hmoment⟩ | hturn
    · rw [hid, hmoment]
      decide +kernel
    rcases hturn.cases_cons with ⟨hid, hmoment⟩ | hturn
    · rw [hid, hmoment]
      decide +kernel
    · exact hturn.not_nil.elim
  exact ⟨visited, hwalk, hv, hplain, hcollections, by decide +kernel,
    expandBlocks_idempotent hwalk hv hplain hcollections⟩

end ModuleRun

end InfraConfig
