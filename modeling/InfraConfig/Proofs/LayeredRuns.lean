import InfraConfig.Proofs.LayeredExpansions
import InfraConfig.Proofs.ModuleScopes
import InfraConfig.Proofs.RenderedContents

/-!
# Runs in layers

What a dynamic block renders stands below it, and it stands below the block that it is in. So its contents see all
filled scopes that their new parent sees, and every state that an evaluator comes to is layered. The blocks of a call
that is still open see no filled scopes, so that they can get scopes of their own when the call is started.
-/

namespace InfraConfig

/-! ## Dynamic blocks -/

/-- A turn in a layered arena, after which all that stands for the dynamic block stays in its scopes. -/
structure Turn.Settles (final : Arena) (root : ScopeId) (t : Turn) : Prop where
  layered : t.arena.Layered
  after : Arena.Deepens (t.expansion root).2 final

theorem Turn.Settles.later {a b : Arena} {root : ScopeId} {t : Turn} (h : t.Settles a root)
    (hab : Arena.Deepens a b) : t.Settles b root :=
  ⟨h.layered, h.after.trans hab⟩

namespace Arena

variable {a b c : Arena} {root : ScopeId} {id : BlockId} {render : Arena → BlockId → List Turn × Arena}

theorem deepens_inject (h : Site (fun _ => True) a root) {parent child : BlockId} (hparent : a.Has root parent)
    (hchild : a.Has root child) (hencloses : a.Encloses parent child) (kind : String) :
    Deepens a (a.inject parent child kind) := by
  obtain ⟨noted, values, path, hnoted, heq⟩ := inject_eq a parent child kind
  have hrename : Deepens a (a.renamed child kind) := .rename h.well hchild.1 (.ofName kind)
  have hnoting : Deepens a noted := hnoted ▸ hrename.trans (.noting hrename.later _ _)
  have htop : noted.scopes.root (noted.block parent).scope = root :=
    (hparent.changes h.well hnoting.changes).2
  rw [heq, htop]
  have hbinds : Deepens noted (values.foldl (fun b w => b.bind root w.2 (path w.1)) noted) :=
    .foldl hnoting.later fun b hb w _ =>
      .bindTop hb.later ((h.top.changes hnoting.changes).changes hb.changes) w.2 (path w.1)
  have hall := hnoting.trans hbinds
  refine hall.trans (.adopt hall.later (hparent.changes h.well hall.changes) (hchild.changes h.well hall.changes) ?_)
  exact hall.encloses hparent.1 hchild.1 hencloses

/-- A rendering that leaves layered arenas layered. -/
def RendersInLayers (root : ScopeId) (render : Arena → BlockId → List Turn × Arena) : Prop :=
  ∀ a id, Site (fun _ => True) a root → a.Layered → a.Has root id →
    Deepens a (render a id).2 ∧ ∀ t ∈ (render a id).1, t.Settles (render a id).2 root

theorem RendersInLayers.injectContent (hrender : RendersInLayers root render) (h : Site (fun _ => True) a root)
    (ha : a.Layered) (hid : a.Has root id) {copy : BlockId} (hcopy : a.Has root copy)
    (hencloses : a.Encloses id copy) (label : String) :
    Deepens a (injectContent render id label a copy).2
      ∧ ∀ t ∈ (injectContent render id label a copy).1.2,
        t.Settles (injectContent render id label a copy).2 root := by
  rw [Arena.injectContent]
  split
  · next content hcontent =>
    have hmem := mem_of_childId? hcontent
    have hin := hcopy.child h.well hmem
    obtain ⟨hdeepens, hturns⟩ := hrender a content h ha hin
    have hinside : (render a content).2.Encloses id content :=
      hdeepens.encloses hid.1 hin.1 (hencloses.trans (ha.nested copy content hcopy.1 hmem))
    have hinject := deepens_inject (h.changes hdeepens.changes) (hid.changes h.well hdeepens.changes)
      (hin.changes h.well hdeepens.changes) hinside label
    exact ⟨hdeepens.trans hinject, fun t ht => (hturns t ht).later hinject⟩
  · exact ⟨.refl h.well, by simp⟩

theorem RendersInLayers.takeTurn (hrender : RendersInLayers root render) (h : Site (fun _ => True) a root)
    (ha : a.Layered) (hid : a.Has root id) {dynamic : BlockId} (hdynamic : a.Has root dynamic)
    (hencloses : a.Encloses id dynamic) :
    Deepens a (takeTurn render root id a dynamic).2
      ∧ ∀ t ∈ (takeTurn render root id a dynamic).1, t.Settles (takeTurn render root id a dynamic).2 root := by
  rw [Arena.takeTurn]
  split
  · exact ⟨.refl h.well, by simp⟩
  · have hremove : Deepens a (a.removeChild id dynamic) := .removeChild h.well hid.1 dynamic
    have hremoved := h.changes hremove.changes
    have hin := hdynamic.changes h.well hremove.changes
    have hspreads := spreads_expand .forEach hremoved.well hremoved.top hin
    have hmakes := hremove.trans hspreads.deepens
    have hsite := h.changes hmakes.changes
    have hmade := (hremoved.expandElements hin).2.has (hin.changes hremoved.well hspreads.deepens.changes)
    rw [expandForEach_singleton]
    dsimp only
    obtain ⟨hloop, hturns⟩ := Deepens.mapThrough_pairs
      (f := Arena.injectContent render id (a.block dynamic).typeLabel)
      (Q := fun c _ done => ∀ t ∈ done.2, t.Settles c root)
      (fun hbc hdone t ht => (hdone t ht).later hbc) hmakes.later
      fun b hb copy hcopy => by
        have hab := hmakes.trans hb
        have hcopyIn := (hmade copy hcopy).changes hsite.well hb.changes
        have hbelow : b.Encloses id copy := by
          have hdyn := hmakes.encloses hid.1 hdynamic.1 hencloses
          have hown := hspreads.encloses copy hcopy
          exact hb.encloses (hid.changes h.well hmakes.changes).1 (hmade copy hcopy).1 (hdyn.trans hown)
        exact hrender.injectContent (hsite.changes hb.changes) (hab.layered ha) (hid.changes h.well hab.changes)
          hcopyIn hbelow (a.block dynamic).typeLabel
    refine ⟨hmakes.trans hloop, fun t ht => ?_⟩
    rcases List.mem_cons.mp ht with rfl | ht
    · exact ⟨hremove.layered ha, hloop⟩
    · obtain ⟨done, hdone, ht⟩ := List.mem_flatMap.mp ht
      obtain ⟨-, -, hsettles⟩ := exists_of_mem_forall₂ hturns hdone
      exact hsettles t ht

theorem rendersInLayers_turnsUpTo (root : ScopeId) (depth : Nat) :
    RendersInLayers root (turnsUpTo root depth) := by
  induction depth with
  | zero => exact fun a id h _ _ => ⟨.refl h.well, by simp [turnsUpTo]⟩
  | succ depth ih =>
    intro a id h ha hid
    rw [turnsUpTo, List.partition_eq_filter_filter]
    dsimp only
    let isDynamic (child : BlockId) : Bool := (a.block child).kind == .dynamic
    have hinner {b : Arena} (hb : Deepens a b) {p : BlockId → Bool} {c : BlockId}
        (hc : c ∈ (a.block id).children.filter p) : b.Has root c ∧ b.Encloses id c := by
      have hmem := (List.mem_filter.mp hc).1
      have hin := hid.child h.well hmem
      exact ⟨hin.changes h.well hb.changes, hb.encloses hid.1 hin.1 (ha.nested id c hid.1 hmem)⟩
    obtain ⟨hplain, hplainTurns⟩ := Deepens.mapThrough_pairs (f := turnsUpTo root depth)
      (Q := fun c _ turns => ∀ t ∈ turns, t.Settles c root)
      (fun hbc hturns t ht => (hturns t ht).later hbc) h.well
      fun b hb child (hchild : child ∈ (a.block id).children.filter (not ∘ isDynamic)) =>
        ih b child (h.changes hb.changes) (hb.layered ha) (hinner hb hchild).1
    obtain ⟨hown, hownTurns⟩ := Deepens.mapThrough_pairs (f := takeTurn (turnsUpTo root depth) root id)
      (Q := fun c _ turns => ∀ t ∈ turns, t.Settles c root)
      (fun hbc hturns t ht => (hturns t ht).later hbc) hplain.later
      fun b hb dynamic (hdynamic : dynamic ∈ (a.block id).children.filter isDynamic) => by
        have hab := hplain.trans hb
        obtain ⟨hin, hencloses⟩ := hinner hab hdynamic
        exact ih.takeTurn (h.changes hab.changes) (hab.layered ha) (hid.changes h.well hab.changes) hin hencloses
    refine ⟨hplain.trans hown, fun t ht => ?_⟩
    rcases List.mem_append.mp ht with ht | ht
    · exact (forall_mem_flatten hplainTurns t ht).later hown
    · exact forall_mem_flatten hownTurns t ht

end Arena

/-! ## Blocks that see no filled scopes -/

namespace Arena

variable {P : ScopeId → Prop} {a b : Arena} {top s : ScopeId} {id : BlockId}

/-- The blocks of a module see no filled scope. -/
def Bare (a : Arena) (top : ScopeId) : Prop :=
  ∀ id, a.Has top id → a.scopes.Clear (a.block id).scope

theorem Changes.home_of_size_le (h : Changes P a b) (ha : a.WellFormed) (hid : a.blocks.size ≤ id)
    (hlt : id < b.blocks.size) : P (b.home id) := by
  induction h with
  | refl => exact absurd hlt (Nat.not_lt_of_le hid)
  | @tail b c hs h ih =>
    have hb := hs.wellFormed ha
    by_cases hold : id < b.blocks.size
    · rw [h.home_eq hb hold]
      exact ih hold
    · obtain ⟨d, rfl, rfl, -, hp, -⟩ := h.eq_push_of_size_le (Nat.le_of_not_lt hold) hlt
      rw [home, block_push, if_pos rfl, scopes_push]
      exact hp

theorem Bare.changes (h : a.Bare top) (ha : a.WellFormed) (hab : Changes P a b) (hp : ¬ P top) : b.Bare top := by
  intro id hid
  by_cases hlt : id < a.blocks.size
  · have hhome : a.home id = top := (hab.home_eq ha hlt).symm.trans hid.2
    have hplaced := ha.placed id hlt
    have hb := hab.wellFormed ha
    rw [hab.block_eq ha hlt (hhome ▸ hp)]
    intro σ hσ hfilled
    have hchain : b.scopes.chain (a.block id).scope = a.scopes.chain (a.block id).scope :=
      Scopes.chain_congr ha.ordered hb.ordered fun j hj _ => hab.parent?_eq (Nat.lt_of_le_of_lt hj hplaced)
    rw [hchain] at hσ
    obtain ⟨hroot, hle⟩ := Scopes.mem_chain ha.ordered hσ
    have hσlt := Nat.lt_of_le_of_lt hle hplaced
    have hout : ¬ P (a.scopes.root σ) := by
      rw [hroot, show a.scopes.root (a.block id).scope = top from hhome]
      exact hp
    refine h id ⟨hlt, hhome⟩ σ hσ ⟨?_, ?_⟩
    · exact hab.parent?_eq hσlt ▸ hfilled.1
    · exact hab.bindings_eq ha hσlt hout ▸ hfilled.2
  · have hnew := hab.home_of_size_le ha (Nat.le_of_not_lt hlt) hid.1
    rw [hid.2] at hnew
    exact absurd hnew hp

theorem Rests.bare (h : Rests a b) (hsize : b.blocks.size = a.blocks.size) (ha : a.Bare top) : b.Bare top := by
  intro id hid
  have hlt : id < a.blocks.size := hsize ▸ hid.1
  have hin : a.Has top id := ⟨hlt, (h.changes.home_eq h.well hlt).symm.trans hid.2⟩
  rcases h.scope id hlt with hsame | ⟨-, hclear⟩
  · rw [hsame, h.clear_iff (h.well.placed id hlt)]
    exact ha id hin
  · exact hclear

/-- A block and a scope in one module, neither of which sees a filled scope. -/
structure Fits (a : Arena) (top : ScopeId) (id : BlockId) (s : ScopeId) : Prop where
  bare : a.Bare top
  block : a.Has top id
  scope : s < a.scopes.size
  root : a.scopes.root s = top
  clear : a.scopes.Clear s

theorem Fits.deepens (h : a.Fits top id s) (hab : Deepens a b) (hsize : b.blocks.size = a.blocks.size) :
    b.Fits top id s where
  bare := hab.bare hsize h.bare
  block := h.block.changes hab.well hab.changes
  scope := Nat.lt_of_lt_of_le h.scope hab.changes.size_scopes_le
  root := (hab.changes.root_eq hab.well h.scope).trans h.root
  clear := (hab.clear_iff h.scope).mpr h.clear

/-- A new scope below one that sees no filled scope sees none either. -/
theorem Fits.newChild (h : a.Fits top id s) (ha : a.WellFormed) :
    Deepens a (a.newChild s).2 ∧ (a.newChild s).2.Fits top id (a.newChild s).1 := by
  have hnew : Deepens a (a.newChild s).2 := .newChild ha h.scope
  have hold : (a.newChild s).2.Fits top id s := h.deepens hnew rfl
  have hparent : (a.newChild s).2.scopes.parent? (a.newChild s).1 = some s := by
    rw [scopes_newChild, Scopes.parent?_push]
    exact if_pos rfl
  have hempty : (a.newChild s).2.scopes.bindings (a.newChild s).1 = [] := by
    rw [scopes_newChild, Scopes.bindings_push]
    exact if_pos rfl
  refine ⟨hnew, hold.bare, hold.block, Scopes.lt_size_of_parent? hparent, ?_, ?_⟩
  · rw [Scopes.root_of_parent hnew.later.ordered hparent, hold.root]
  · exact .of_parent hnew.later.ordered hparent hempty hold.clear

/-- Blocks get scopes of their own below one scope, one block after another. -/
theorem deepens_placeEach (place : Arena → BlockId → ScopeId → Arena)
    (hplace : ∀ b id σ, b.WellFormed → b.Fits top id σ →
      Deepens b (place b id σ) ∧ (place b id σ).blocks.size = b.blocks.size)
    (ha : a.WellFormed) {ids : List BlockId} (hids : ∀ id ∈ ids, a.Fits top id s) :
    Deepens a (ids.foldl (fun b id => place (b.newChild s).2 id (b.newChild s).1) a)
      ∧ (ids.foldl (fun b id => place (b.newChild s).2 id (b.newChild s).1) a).blocks.size = a.blocks.size := by
  refine List.foldlRecOn (motive := fun b => Deepens a b ∧ b.blocks.size = a.blocks.size) ids _
    ⟨.refl ha, rfl⟩ fun b hb id hid => ?_
  obtain ⟨hab, hsize⟩ := hb
  obtain ⟨hnew, hfits⟩ := ((hids id hid).deepens hab hsize).newChild hab.later
  obtain ⟨hstep, hstepSize⟩ := hplace _ _ _ hnew.later hfits
  exact ⟨hab.trans (hnew.trans hstep), hstepSize.trans hsize⟩

/-- Blocks that see no filled scopes get new scopes, which hold nothing. -/
theorem deepens_rescopeUpTo (depth : Nat) (ha : a.WellFormed) (h : a.Fits top id s) :
    Deepens a (rescopeUpTo depth a id s) ∧ (rescopeUpTo depth a id s).blocks.size = a.blocks.size := by
  induction depth generalizing a id s with
  | zero =>
    exact ⟨.place ha h.block h.scope h.root (h.bare id h.block) h.clear, size_blocks_modify _ _ _⟩
  | succ depth ih =>
    let placed := a.modify id fun b => { b with scope := s }
    have hplace : Deepens a placed := .place ha h.block h.scope h.root (h.bare id h.block) h.clear
    have hsize : placed.blocks.size = a.blocks.size := size_blocks_modify _ _ _
    have hplaced : placed.Fits top id s := h.deepens hplace hsize
    have hinner : ∀ c ∈ (placed.block id).children, placed.Fits top c s := by
      intro c hc
      exact { hplaced with block := hplaced.block.child hplace.later hc }
    obtain ⟨hloop, hloopSize⟩ := deepens_placeEach (rescopeUpTo depth)
      (fun b c σ hb hfits => ih hb hfits) hplace.later hinner
    rw [rescopeUpTo]
    exact ⟨hplace.trans hloop, hloopSize.trans hsize⟩

/-! ## Insertion -/

mutual

theorem AddsIn.insert {ρ : ScopeId} (caller : Option BlockId) :
    ∀ (t : BlockTree) {b : Arena}, AddsIn a b ρ → AddsIn a (insert ρ caller b t).2 ρ
      ∧ (insert ρ caller b t).1 < (insert ρ caller b t).2.blocks.size
      ∧ ((insert ρ caller b t).2.block (insert ρ caller b t).1).scope = ρ
  | .node kind labels attributes children range, b, h => by
    obtain ⟨hchildren, hin⟩ := AddsIn.insertAll caller children h
    rw [Arena.insert]
    exact ⟨hchildren.push rfl hin, by simp, by rw [push_fst, block_push, if_pos rfl]⟩

theorem AddsIn.insertAll {ρ : ScopeId} (caller : Option BlockId) :
    ∀ (trees : List BlockTree) {b : Arena}, AddsIn a b ρ → AddsIn a (insertAll ρ caller b trees).2 ρ
      ∧ ∀ id ∈ (insertAll ρ caller b trees).1, id < (insertAll ρ caller b trees).2.blocks.size
        ∧ ((insertAll ρ caller b trees).2.block id).scope = ρ
  | [], b, h => ⟨h, by simp [Arena.insertAll]⟩
  | t :: rest, b, h => by
    obtain ⟨hfirst, hlt, hscope⟩ := AddsIn.insert caller t h
    obtain ⟨hrest, hin⟩ := AddsIn.insertAll caller rest hfirst
    have hextends := extends_insertAll ρ caller rest (Arena.insert ρ caller b t).2
    rw [Arena.insertAll]
    refine ⟨hrest, fun id hid => ?_⟩
    rcases List.mem_cons.mp hid with rfl | hid
    · exact ⟨Nat.lt_of_lt_of_le hlt hextends.size, by rw [hextends.kept _ hlt, hscope]⟩
    · exact hin id hid

end

theorem AddsIn.insertFiles {ρ : ScopeId} (caller : Option BlockId) (files : List SourceFile) {b : Arena}
    (h : AddsIn a b ρ) : AddsIn a (insertFiles ρ caller b files).2 ρ := by
  induction files generalizing b with
  | nil => exact h
  | cons file files ih =>
    rw [Arena.insertFiles]
    have hfirst := (AddsIn.insertAll caller file.blocks h).1
    exact ih (hfirst.of_blocks (c := (Arena.insertAll ρ caller b file.blocks).2.addSource file.path file.text) rfl)

theorem deepens_insertFiles {ρ : ScopeId} (caller : Option BlockId) (files : List SourceFile) (ha : a.WellFormed)
    (htop : a.IsTop ρ) (hnone : ∀ id, ¬ a.Has ρ id) :
    Deepens a (insertFiles ρ caller a files).2 ∧ (insertFiles ρ caller a files).2.Bare ρ := by
  have hadds : AddsIn a (Arena.insertFiles ρ caller a files).2 ρ := (AddsIn.refl a ρ).insertFiles caller files
  have hchanges := (changes_insertFiles (P := fun _ => True) caller files ha htop.1 trivial).1
  have hscopes := (extends_insertFiles ρ caller files a).scopes
  refine ⟨.of_same hchanges ha (fun σ _ => by rw [hscopes]) (fun x hx => (hadds.old x hx).1) hadds.nested, ?_⟩
  intro id hid
  rcases Nat.lt_or_ge id a.blocks.size with hlt | hle
  · exact absurd ⟨hlt, (hchanges.home_eq ha hlt).symm.trans hid.2⟩ (hnone id)
  · rw [(hadds.new id hle hid.1).1]
    exact .of_root (hscopes.symm ▸ htop.2)

end Arena

namespace ModuleRun

variable {s : Session} {run : Evaluate} {force : Bool} {d : Nat} {r mid next start : ModuleRun}
  {call later : ModuleCall} {a : Arena}

/-- A sound run on a layered arena, with open calls whose blocks have not been moved. -/
structure Layered (r : ModuleRun) : Prop where
  sound : r.Sound
  layered : r.arena.Layered
  waiting : ∀ call ∈ r.calls, call.result = none → r.arena.Bare call.root

/-- A step after which a run is still layered. -/
def Settles (r next : ModuleRun) : Prop :=
  r.Layered → Arena.Deepens r.arena next.arena ∧ next.Layered

theorem Settles.refl (r : ModuleRun) : Settles r r := fun h => ⟨.refl h.sound.well, h⟩

theorem Settles.trans (h : Settles r mid) (k : Settles mid next) : Settles r next := by
  intro hr
  obtain ⟨hfirst, hmid⟩ := h hr
  obtain ⟨hrest, hnext⟩ := k hmid
  exact ⟨hfirst.trans hrest, hnext⟩

theorem Rebinds.deepens (h : Rebinds r next) (hwell : r.arena.WellFormed) (htop : r.arena.IsTop r.root) :
    Arena.Deepens r.arena next.arena := by
  refine .of_blocks (h.changes htop (fun _ => True) trivial) hwell h.blocks fun σ hσ => h.others σ ?_
  rintro rfl
  rw [h.parents, htop.2] at hσ
  cases hσ

/-- A step that changes the own module of a run only, and adds no calls. -/
theorem settles_of_own (hadvances : r.Sound → next.Sound) (hdeepens : r.Layered → Arena.Deepens r.arena next.arena)
    (hcalls : next.calls = r.calls)
    (hchanges : ∀ call ∈ r.calls, r.Sound → Arena.Changes (fun t => t ≠ call.root) r.arena next.arena) :
    Settles r next := by
  intro h
  have hdeep := hdeepens h
  refine ⟨hdeep, hadvances h.sound, hdeep.layered h.layered, fun call hcall hopen => ?_⟩
  rw [hcalls] at hcall
  exact (h.waiting call hcall hopen).changes h.sound.well (hchanges call hcall h.sound) fun hne => hne rfl

theorem Rebinds.settles (h : Rebinds r next) : Settles r next :=
  settles_of_own (fun hs => (h.advances hs (.all r)).sound) (fun hr => h.deepens hr.sound.well hr.sound.top) h.calls
    fun _ hcall hs => h.changes hs.top _ (hs.calls _ hcall).apart.symm

theorem readWanted_settles (s : Session) (r : ModuleRun) : Settles r (r.readWanted s).2 :=
  settles_of_own (fun hs => (readWanted_advances s hs (.all r)).sound)
    (fun hr => .of_blocks (.single (.record _ _ (base_readFiles s.loader _ _))) hr.sound.well rfl fun _ _ => rfl) rfl
    fun _ _ _ => .single (.record _ _ (base_readFiles s.loader _ _))

/-! ## Beginning -/

theorem start_deepens (s : Session) (module : ModuleInstance) {root : ScopeId} (inputs : Entries Value)
    (visited : List VisitedModule) (ha : a.WellFormed) (htop : a.IsTop root) (hbare : a.Bare root)
    (hblocks : ∀ id ∈ module.blocks, a.Has root id) :
    Arena.Deepens a (ModuleRun.start s a module root inputs visited).arena := by
  let bound := (surroundings s module.path).foldl (fun b (w : ValuePath × Value) => b.bind root w.2 w.1) a
  have hbound : Arena.Deepens a bound :=
    .foldl ha fun b hb w _ => .bindTop hb.later (htop.changes hb.changes) w.2 w.1
  have hsize : bound.blocks.size = a.blocks.size :=
    congrArg Array.size (Arena.blocks_foldl (by intro _ _; rfl) _ _)
  have htopBound := htop.changes hbound.changes
  have hfits : ∀ id ∈ module.blocks, bound.Fits root id root := fun id hid =>
    ⟨hbound.bare hsize hbare, (hblocks id hid).changes ha hbound.changes, htopBound.1, htopBound.root_eq,
      .of_root htopBound.2⟩
  exact hbound.trans (Arena.deepens_placeEach Arena.rescope
    (fun b _ _ hb hfits => Arena.deepens_rescopeUpTo b.blocks.size hb hfits) hbound.later hfits).1

/-! ## Calls -/

/-- An evaluation after which the arena is still layered. -/
def Deepening (run : Evaluate) : Prop :=
  ∀ r modules done, r.Layered → r.calls = [] → run r = .ok (modules, done) → Arena.Deepens r.arena done.arena

theorem started_layered (hs : r.Sound) (hlayered : r.arena.Layered) (hcall : call ∈ r.calls)
    (hbare : r.arena.Bare call.root) :
    Arena.Deepens r.arena (r.started s call).arena ∧ (r.started s call).Layered := by
  let b := r.arena.block call.block
  let noted := r.noting [(b, inputAttributes b)]
  have hrebinds : Rebinds r noted := .noting r _
  have hnoted : Arena.Deepens r.arena noted.arena := hrebinds.deepens hs.well hs.top
  have hin := (hs.calls call hcall).changes hs.well hnoted.changes
  have hbareNoted : noted.arena.Bare call.root := hnoted.bare (congrArg Array.size hrebinds.blocks) hbare
  let module : ModuleInstance := ⟨s.root, call.path, call.blocks, some call.block⟩
  have hstart : Arena.Deepens noted.arena (r.started s call).arena :=
    start_deepens s module _ _ hnoted.later hin.top hbareNoted hin.blocks
  have hall := hnoted.trans hstart
  refine ⟨hall, start_sound s _ _ _ hnoted.later hin.top hin.blocks, hall.layered hlayered, ?_⟩
  exact fun call hcall => absurd hcall List.not_mem_nil

theorem evaluateCall_deepens (hdeep : Deepening run) (hs : r.Sound) (hlayered : r.arena.Layered)
    (hcall : call ∈ r.calls) (hbare : call.result = none → r.arena.Bare call.root)
    (h : r.evaluateCall s run force call = .ok (later, next)) : Arena.Deepens r.arena next.arena := by
  obtain ⟨-, -, rfl⟩ | ⟨-, -, -, reads, rfl⟩ | ⟨modules, child, hopen, hchild, -, rfl⟩ := evaluateCall_cases h
  · exact .refl hs.well
  · exact (Rebinds.noting r reads).deepens hs.well hs.top
  · obtain ⟨hstarted, hready⟩ := started_layered (s := s) hs hlayered hcall (hbare hopen)
    exact hstarted.trans (hdeep _ modules child hready rfl hchild)

theorem evaluateEach_deepens (hrun : Contained run) (hdeep : Deepening run) {calls done : List ModuleCall}
    (hs : r.Sound) (hlayered : r.arena.Layered) (hcalls : calls ⊆ r.calls)
    (hdistinct : (calls.map ModuleCall.root).Nodup)
    (hbare : ∀ call ∈ calls, call.result = none → r.arena.Bare call.root)
    (h : r.evaluateEach s run force calls = .ok (done, next)) : Arena.Deepens r.arena next.arena := by
  induction calls generalizing r done with
  | nil =>
    obtain ⟨-, rfl⟩ := Prod.mk.inj (Except.ok.inj h)
    exact .refl hs.well
  | cons call calls ih =>
    obtain ⟨later, mid, others, hcall, hrest, rfl⟩ := evaluateEach_cons_eq_ok_iff.mp h
    have hmem : call ∈ r.calls := hcalls List.mem_cons_self
    have hfirst := evaluateCall_deepens hdeep hs hlayered hmem (hbare call List.mem_cons_self) hcall
    obtain ⟨hchanges, -, visited, hmid⟩ := evaluateCall_changes hrun hs hmem hcall
    have hsame : mid.calls = r.calls := by rw [hmid]
    have hsound : mid.Sound := by
      have := (Advances.ofChanges hs (.all r) (hchanges.mono fun _ _ => trivial)).sound
      rw [hmid]
      exact this.withVisited visited
    rw [List.map_cons, List.nodup_cons] at hdistinct
    refine hfirst.trans (ih hsound (hfirst.layered hlayered) (hsame ▸ (List.cons_subset.mp hcalls).2) hdistinct.2
      (fun other hother hopen => ?_) hrest)
    -- The call has changed its own module and new ones, and each call has a module of its own.
    refine (hbare other (List.mem_cons_of_mem _ hother) hopen).changes hs.well hchanges ?_
    rintro (⟨c, hc, -, heq⟩ | hnew)
    · obtain rfl := List.mem_singleton.mp hc
      exact hdistinct.1 (List.mem_map.mpr ⟨other, hother, heq⟩)
    · have hold := (hs.calls other (hcalls (List.mem_cons_of_mem _ hother))).top.1
      exact absurd hnew (Nat.not_le.mpr hold)

/-- When the calls have been evaluated their outputs are bound. -/
theorem evaluateCalls_exports (hrun : Contained run) (hs : r.Sound) (h : r.evaluateCalls s run force = .ok next) :
    ∃ calls mid, r.evaluateEach s run force r.calls = .ok (calls, mid) ∧ Arena.Deepens mid.arena next.arena := by
  obtain ⟨mid, calls, heach, rfl, hchanges, -, visited, hmid⟩ := evaluateCalls_spec hrun hs h
  have hroot : mid.root = r.root := by rw [hmid]
  have htop : mid.arena.IsTop mid.root := hroot ▸ hs.top.changes hchanges
  exact ⟨calls, mid, heach,
    (Rebinds.bindOutputsOfCalls { mid with calls }).deepens (hchanges.wellFormed hs.well) htop⟩

theorem evaluateCalls_settles (hrun : Contained run) (hdeep : Deepening run)
    (h : r.evaluateCalls s run force = .ok next) : Settles r next := by
  intro hr
  have hnext := (evaluateCalls_advances hrun hr.sound (.all r) h).sound
  obtain ⟨calls, mid, heach, hexport⟩ := evaluateCalls_exports hrun hr.sound h
  have hdeepens := evaluateEach_deepens hrun hdeep hr.sound hr.layered (List.Subset.refl _) hr.sound.distinct
    hr.waiting heach
  have hall := hdeepens.trans hexport
  refine ⟨hall, hnext, hall.layered hr.layered, fun call hcall hopen => ?_⟩
  obtain ⟨hin, hothers⟩ := hr.sound.evaluateCalls_open hrun h hcall hopen
  exact (hr.waiting call hin hopen).changes hr.sound.well hothers fun hne => hne rfl

theorem settle_settles (hrun : Contained run) (hdeep : Deepening run) (h : r.settle s run = .ok next) :
    Settles r next := by
  refine converge_invariant (P := Settles r) (fun q passed hq hpass => ?_) (.refl r) h
  have hbind : Settles r q.bindBlocks := hq.trans (Rebinds.bindBlocks q).settles
  exact (hbind.trans (evaluateCalls_settles hrun hdeep hpass)).trans (readWanted_settles s passed)

theorem forceCalls_settles (hrun : Contained run) (hdeep : Deepening run) (h : r.forceCalls s run = .ok next) :
    Settles r next := by
  rw [forceCalls] at h
  split at h
  · obtain ⟨mid, hmid, hsettle⟩ := bind_eq_ok_iff.mp h
    exact (evaluateCalls_settles hrun hdeep hmid).trans (settle_settles hrun hdeep hsettle)
  · exact Except.ok.inj h ▸ .refl r

/-! ## Expanding and loading -/

/-- What a run does with its own blocks does not depend on its calls. -/
theorem Sound.alone (hs : r.Sound) (hcall : call ∈ r.calls) :
    Sound { r with calls := [] } ∧ Covers (fun t => t ≠ call.root) { r with calls := [] } := by
  have hin := hs.calls call hcall
  refine ⟨⟨hs.well, hs.top, hs.blocks, fun _ h => absurd h List.not_mem_nil, List.nodup_nil⟩, hin.apart.symm,
    fun _ h => absurd h List.not_mem_nil, fun t ht => ?_⟩
  exact (Nat.ne_of_lt (Nat.lt_of_lt_of_le hin.top.1 ht)).symm

theorem expand_settles {keep ids : List BlockId} (hkeep : keep ⊆ r.module.blocks) (hids : ids ⊆ r.module.blocks) :
    Settles r (r.expand keep ids).2 := by
  refine settles_of_own (fun hs => (expand_advances hs (.all r) hkeep hids).1.sound) (fun hr => ?_) rfl
    fun call hcall hs => ?_
  · have hsite : Arena.Site (fun _ => True) r.arena r.root := hr.sound.site trivial
    have hin : ∀ id ∈ ids, r.arena.Has r.root id := fun id hid => hr.sound.blocks id (hids hid)
    have hcounts := Arena.deepens_expandAll .count hsite.well hsite.top hin
    obtain ⟨-, hcounted⟩ := hsite.expandCounts hin
    exact hcounts.trans (Arena.deepens_expandAll .forEach hcounts.later (hsite.top.changes hcounts.changes) hcounted)
  · obtain ⟨hsound, hcovers⟩ := hs.alone hcall
    exact (expand_advances hsound hcovers hkeep hids).1.changes

theorem deepens_dynamics {root : ScopeId} (h : Arena.Site (fun _ => True) a root) (ha : a.Layered) {ids : List BlockId}
    (hids : ∀ id ∈ ids, a.Has root id) :
    Arena.Deepens a (ids.foldl (fun a id => a.expandDynamic root id) a) := by
  refine .foldl h.well fun b hb id hid => ?_
  rw [Arena.expandDynamic, ← Arena.turnsUpTo_snd]
  exact (Arena.rendersInLayers_turnsUpTo root b.blocks.size b id (h.changes hb.changes) (hb.layered ha)
    ((hids id hid).changes h.well hb.changes)).1

theorem expandBlocks_settles (r : ModuleRun) : Settles r r.expandBlocks := by
  have hsub := List.Subset.refl r.module.blocks
  refine settles_of_own (fun hs => (expandBlocks_advances hs (.all r)).sound) (fun hr => ?_) rfl
    fun call hcall hs => ?_
  · obtain ⟨hexpand, hmid⟩ := expand_settles (List.nil_subset _) hsub hr
    obtain ⟨-, hmade⟩ := expand_advances hr.sound (.all r) (List.nil_subset _) hsub
    exact hexpand.trans (deepens_dynamics (hmid.sound.site trivial) hmid.layered hmade)
  · obtain ⟨hsound, hcovers⟩ := hs.alone hcall
    exact (expandBlocks_advances hsound hcovers).changes

theorem loadCall_settles {id : BlockId} (hid : r.arena.Has r.root id) (h : r.loadCall s id = .ok next) :
    Settles r next := by
  intro hr
  have hnext := (loadCall_advances hr.sound (.all r) hid h).sound
  obtain ⟨reads, ⟨-, rfl⟩ | ⟨target, files, -, rfl⟩⟩ := loadCall_cases h
  · exact (Rebinds.noting r reads).settles hr
  · obtain ⟨hnoted, hq⟩ := (Rebinds.noting r reads).settles hr
    let q := r.noting reads
    let ρ := q.arena.scopes.size
    have hnew : Arena.Deepens q.arena q.arena.newRoot.2 := .newRoot hq.sound.well
    have htop : q.arena.newRoot.2.IsTop ρ := by
      refine ⟨by simp [ρ], ?_⟩
      rw [Arena.scopes_newRoot, Scopes.parent?_push, if_pos rfl]
    have hnone (id : BlockId) : ¬ q.arena.newRoot.2.Has ρ id := by
      intro hid
      have hhome : q.arena.home id = ρ := (hnew.changes.home_eq hq.sound.well hid.1).symm.trans hid.2
      have hle := (Scopes.mem_chain hq.sound.well.ordered (q.arena.scopes.root_mem_chain (q.arena.block id).scope)).2
      have hlt : q.arena.home id < ρ := Nat.lt_of_le_of_lt hle (hq.sound.well.placed id hid.1)
      exact Nat.ne_of_lt hlt hhome
    obtain ⟨hinsert, hbare⟩ := Arena.deepens_insertFiles (some id) files hnew.later htop hnone
    have hdeep := hnew.trans hinsert
    refine ⟨hnoted.trans hdeep, hnext, hdeep.layered hq.layered, fun call hcall hopen => ?_⟩
    rcases List.mem_append.mp hcall with hcall | hcall
    · have hlt : call.root < ρ := (hq.sound.calls call hcall).top.1
      have hroot : Arena.Changes (fun t => t = ρ) q.arena q.arena.newRoot.2 := .single .newRoot
      have hchanges := hroot.trans
        (Arena.changes_insertFiles (P := fun t => t = ρ) (some id) files hnew.later htop.1 htop.root_eq).1
      exact (hq.waiting call hcall hopen).changes hq.sound.well hchanges (Nat.ne_of_lt hlt)
    · obtain rfl := List.mem_singleton.mp hcall
      exact hbare

theorem loadCalls_settles {ids : List BlockId} (hids : ∀ id ∈ ids, r.arena.Has r.root id)
    (h : r.loadCalls s ids = .ok next) : Settles r next := by
  induction ids generalizing r with
  | nil => exact Except.ok.inj h ▸ .refl r
  | cons id ids ih =>
    obtain ⟨mid, hcall, hrest⟩ := loadCalls_cons_eq_ok_iff.mp h
    intro hr
    have hadvances := loadCall_advances hr.sound (.all r) (hids id List.mem_cons_self) hcall
    refine ((loadCall_settles (hids id List.mem_cons_self) hcall).trans (ih (fun j hj => ?_) hrest)) hr
    rw [hadvances.root]
    exact (hids j (List.mem_cons_of_mem id hj)).changes hr.sound.well hadvances.changes

theorem loadModules_settles (h : r.loadModules s = .ok next) : Settles r next := by
  intro hr
  rw [loadModules, List.partition_eq_filter_filter] at h
  have hsub (p : BlockId → Bool) : r.module.blocks.filter p ⊆ r.module.blocks :=
    fun id hid => (List.mem_filter.mp hid).1
  obtain ⟨-, hmade⟩ := expand_advances hr.sound (.all r)
    (hsub (not ∘ fun id => (r.arena.block id).kind == .module))
    (hsub fun id => (r.arena.block id).kind == .module)
  have hexpand := expand_settles (r := r) (hsub (not ∘ fun id => (r.arena.block id).kind == .module))
    (hsub fun id => (r.arena.block id).kind == .module)
  exact (hexpand.trans (loadCalls_settles hmade h)) hr

/-! ## Whole evaluations -/

/-- What an evaluation does from its beginning to its end leaves the arena layered at every step. -/
theorem Phases.settles {settled loaded resettled expanded done : ModuleRun} (hrun : Contained run)
    (hdeep : Deepening run) (h : Phases s run start settled loaded resettled expanded done) :
    Settles start settled ∧ Settles settled loaded ∧ Settles loaded resettled
      ∧ Settles resettled resettled.expandBlocks ∧ Settles resettled.expandBlocks expanded
      ∧ Settles expanded done :=
  ⟨settle_settles hrun hdeep h.settle, loadModules_settles h.load, settle_settles hrun hdeep h.resettle,
    expandBlocks_settles resettled, settle_settles hrun hdeep h.expand, forceCalls_settles hrun hdeep h.force⟩

theorem deepening_evaluateUpTo (s : Session) (depth : Nat) : Deepening (evaluateUpTo s depth) := by
  induction depth with
  | zero =>
    intro r modules done _ _ h
    cases h
  | succ depth ih =>
    intro r modules done hr _ h
    obtain ⟨settled, loaded, resettled, expanded, hphases, -⟩ := exists_phases h
    obtain ⟨h1, h2, h3, h4, h5, h6⟩ := hphases.settles (contained_evaluateUpTo s depth) ih
    exact ((((((h1.trans h2).trans h3).trans h4).trans h5).trans h6) hr).1

theorem rootRun_layered (s : Session) (inputs : Entries Value) (files : List SourceFile) :
    (Project.rootRun s inputs files).Layered := by
  let empty := (Arena.empty s.root).newRoot.2
  have hempty : empty.WellFormed := wellFormed_empty s.root
  have htop : empty.IsTop 0 := ⟨Nat.one_pos, rfl⟩
  have hnone (id : BlockId) : ¬ empty.Has 0 id := fun h => absurd h.1 (Nat.not_lt_zero id)
  have hfilled (σ : ScopeId) : ¬ empty.scopes.Filled σ := by
    intro h
    obtain rfl : σ = 0 := Nat.lt_one_iff.mp h.lt_size
    cases h.1
  have hlayered : empty.Layered :=
    ⟨fun σ hσ => absurd hσ (hfilled σ), fun x c hx _ => absurd hx (Nat.not_lt_zero x)⟩
  obtain ⟨hinsert, hbare⟩ := Arena.deepens_insertFiles none files hempty htop hnone
  have hblocks := (Arena.changes_insertFiles (P := fun _ => True) none files hempty htop.1 trivial).2
  have hstart := start_deepens s ⟨s.root, s.root, (empty.insertFiles 0 none files).1, none⟩ inputs [] hinsert.later
    (htop.changes hinsert.changes) hbare fun id hid => htop.root_eq ▸ hblocks id hid
  refine ⟨rootRun_sound s inputs files, (hinsert.trans hstart).layered hlayered, ?_⟩
  exact fun call hcall => absurd hcall List.not_mem_nil

/-- Every state that an evaluator comes to is layered. -/
theorem Reached.layered (h : Reached s d r) : r.Layered := by
  induction h with
  | root inputs files => exact rootRun_layered s inputs files
  | bind _ ih => exact ((Rebinds.bindBlocks _).settles ih).2
  | @calls d _ _ _ force hcalls ih =>
    exact (evaluateCalls_settles (contained_evaluateUpTo s d) (deepening_evaluateUpTo s d) hcalls ih).2
  | read _ ih => exact (readWanted_settles s _ ih).2
  | load _ hload ih => exact (loadModules_settles hload ih).2
  | expand _ ih => exact (expandBlocks_settles _ ih).2
  | @child d r mid call h force hstarts ih =>
    obtain ⟨before, after, done, hcalls, heach⟩ := hstarts.reached
    have hrun := contained_evaluateUpTo s (d + 1)
    have hmem : call ∈ r.calls := hcalls ▸ List.mem_append_right _ List.mem_cons_self
    have hsub : before ⊆ r.calls := hcalls ▸ List.subset_append_left _ _
    obtain ⟨hsound, hsame, -⟩ := ih.sound.evaluateEach hrun hsub heach
    have hdistinct : (before.map ModuleCall.root).Nodup := by
      have hall := ih.sound.distinct
      rw [hcalls, List.map_append] at hall
      exact (List.nodup_append.mp hall).1
    have hdeep := evaluateEach_deepens hrun (deepening_evaluateUpTo s (d + 1)) ih.sound ih.layered hsub hdistinct
      (fun other hother => ih.waiting other (hsub hother)) heach
    have hothers := ih.sound.evaluateEach_others hrun hsub hmem (ih.sound.roots_of_split hcalls).1 heach
    have hbare := (ih.waiting call hmem hstarts.isOpen).changes ih.sound.well hothers fun hne => hne rfl
    exact (started_layered hsound (hdeep.layered ih.layered) (hsame ▸ hmem) hbare).2

end ModuleRun

end InfraConfig
