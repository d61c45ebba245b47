import InfraConfig.Proofs.Renderings

/-!
# Dynamic blocks in a module

Rendering changes the module of the blocks only. Each turn finds its dynamic block in that module.
-/

namespace InfraConfig

theorem Arena.Changes.all {P : ScopeId → Prop} {a b : Arena} (h : Changes P a b) : Changes (fun _ => True) a b :=
  h.mono fun _ _ => trivial

namespace Turn

/-- A turn in a module, between two arenas. -/
structure Within (start final : Arena) (root : ScopeId) (t : Turn) : Prop where
  before : Arena.Changes (fun _ => True) start t.moment
  parent : t.moment.Has root t.parent
  dynamic : t.moment.Has root t.dynamic
  after : Arena.Changes (fun _ => True) (t.expansion root).2 final

variable {P : ScopeId → Prop} {a b c : Arena} {root : ScopeId} {t : Turn}

theorem Within.changes (h : t.Within a b root) (hbc : Arena.Changes P b c) : t.Within a c root :=
  ⟨h.before, h.parent, h.dynamic, h.after.trans hbc.all⟩

theorem Within.earlier (h : t.Within b c root) (hab : Arena.Changes P a b) : t.Within a c root :=
  ⟨hab.all.trans h.before, h.parent, h.dynamic, h.after⟩

end Turn

namespace Arena

variable {P : ScopeId → Prop} {a b c : Arena} {root : ScopeId} {id : BlockId}
  {render : Arena → BlockId → List Turn × Arena}

/-- A rendering that changes its module only. -/
def RendersWithin (P : ScopeId → Prop) (root : ScopeId) (render : Arena → BlockId → List Turn × Arena) : Prop :=
  ∀ a id, Site P a root → a.Has root id →
    Changes P a (render a id).2 ∧ ∀ turn ∈ (render a id).1, turn.Within a (render a id).2 root

theorem RendersWithin.injectContent (hrender : RendersWithin P root render) (h : Site P a root)
    (hid : a.Has root id) {copy : BlockId} (hcopy : a.Has root copy) (label : String) :
    Changes P a (injectContent render id label a copy).2
      ∧ ∀ turn ∈ (injectContent render id label a copy).1.2,
        turn.Within a (injectContent render id label a copy).2 root := by
  rw [Arena.injectContent]
  split
  · next content hcontent =>
    have hin := hcopy.child h.well (mem_of_childId? hcontent)
    obtain ⟨hchange, hturns⟩ := hrender a content h hin
    have hinject := (h.changes hchange).inject (hid.changes h.well hchange) (hin.changes h.well hchange) label
    exact ⟨hchange.trans hinject, fun turn hturn => (hturns turn hturn).changes hinject⟩
  · exact ⟨.refl, by simp⟩

theorem RendersWithin.takeTurn (hrender : RendersWithin P root render) (h : Site P a root)
    (hid : a.Has root id) {dynamic : BlockId} (hdynamic : a.Has root dynamic) :
    Changes P a (takeTurn render root id a dynamic).2
      ∧ ∀ turn ∈ (takeTurn render root id a dynamic).1,
        turn.Within a (takeTurn render root id a dynamic).2 root := by
  rw [Arena.takeTurn]
  split
  · exact ⟨.refl, by simp⟩
  · have hremove : Changes P a (a.removeChild id dynamic) :=
      .single (.remove id dynamic hid.1 (hid.2.symm ▸ h.own))
    have hremoved := h.changes hremove
    have hin := hdynamic.changes h.well hremove
    obtain ⟨hmake, hexpands⟩ := hremoved.expandElements hin
    have hmade := hexpands.has (hin.changes hremoved.well hmake)
    rw [expandForEach_singleton]
    dsimp only
    have hmaking := hremove.trans hmake
    have hmakes := h.changes hmaking
    obtain ⟨hloop, hturns⟩ := Changes.mapThrough_pairs (P := P)
      (f := Arena.injectContent render id (a.block dynamic).typeLabel)
      (Q := fun c _ done => ∀ turn ∈ done.2, turn.Within a c root)
      (fun _ hbc hdone turn hturn => (hdone turn hturn).changes hbc) hmakes.well
      fun b hb copy hcopy => by
        have hat := hmakes.changes hb
        obtain ⟨hstep, hwithin⟩ := hrender.injectContent hat
          ((hid.changes h.well hmaking).changes hmakes.well hb)
          ((hmade copy hcopy).changes hmakes.well hb) (a.block dynamic).typeLabel
        exact ⟨hstep, fun turn hturn => (hwithin turn hturn).earlier (hmaking.trans hb)⟩
    refine ⟨hmaking.trans hloop, fun turn hturn => ?_⟩
    rcases List.mem_cons.mp hturn with rfl | hturn
    · exact ⟨.refl, hid, hdynamic, hloop.all⟩
    · obtain ⟨done, hdone, hturn⟩ := List.mem_flatMap.mp hturn
      obtain ⟨-, -, hwithin⟩ := exists_of_mem_forall₂ hturns hdone
      exact hwithin turn hturn

theorem rendersWithin_turnsUpTo (P : ScopeId → Prop) (root : ScopeId) (depth : Nat) :
    RendersWithin P root (turnsUpTo root depth) := by
  induction depth with
  | zero => exact fun a id h hid => ⟨.refl, by simp [turnsUpTo]⟩
  | succ depth ih =>
    intro a id h hid
    rw [turnsUpTo, List.partition_eq_filter_filter]
    dsimp only
    let isDynamic (child : BlockId) : Bool := (a.block child).kind == .dynamic
    have hinner {b : Arena} (hb : Changes P a b) {p : BlockId → Bool} {c : BlockId}
        (hc : c ∈ (a.block id).children.filter p) : b.Has root c :=
      (hid.child h.well (List.mem_filter.mp hc).1).changes h.well hb
    obtain ⟨hplain, hplainTurns⟩ := Changes.mapThrough_pairs (P := P) (f := turnsUpTo root depth)
      (Q := fun c _ turns => ∀ turn ∈ turns, turn.Within a c root)
      (fun _ hbc hturns turn hturn => (hturns turn hturn).changes hbc) h.well
      fun b hb child (hchild : child ∈ (a.block id).children.filter (not ∘ isDynamic)) => by
        obtain ⟨hstep, hwithin⟩ := ih b child (h.changes hb) (hinner hb hchild)
        exact ⟨hstep, fun turn hturn => (hwithin turn hturn).earlier hb⟩
    have hmid := h.changes hplain
    obtain ⟨hown, hownTurns⟩ := Changes.mapThrough_pairs (P := P) (f := takeTurn (turnsUpTo root depth) root id)
      (Q := fun c _ turns => ∀ turn ∈ turns, turn.Within a c root)
      (fun _ hbc hturns turn hturn => (hturns turn hturn).changes hbc) hmid.well
      fun b hb dynamic (hdynamic : dynamic ∈ (a.block id).children.filter isDynamic) => by
        have hab := hplain.trans hb
        obtain ⟨hstep, hwithin⟩ :=
          ih.takeTurn (h.changes hab) (hid.changes h.well hab) (hinner hab hdynamic)
        exact ⟨hstep, fun turn hturn => (hwithin turn hturn).earlier hab⟩
    refine ⟨hplain.trans hown, fun turn hturn => ?_⟩
    rcases List.mem_append.mp hturn with hturn | hturn
    · exact (forall_mem_flatten hplainTurns turn hturn).changes hown
    · exact forall_mem_flatten hownTurns turn hturn

theorem Site.expandDynamicUpTo (depth : Nat) (h : Site P a root) (hid : a.Has root id) :
    Changes P a (a.expandDynamicUpTo root depth id) := by
  rw [← turnsUpTo_snd]
  exact (rendersWithin_turnsUpTo P root depth a id h hid).1

end Arena

end InfraConfig
