import InfraConfig.Value

/-!
# Values that pass through plain data

The values that a value is made of, at every depth, are itself and the parts of its members. What is asked of a value at
every depth is asked of its parts.

An expression sees the plain data of a value, and what it gives back is plain data again. Data come back as they are.
Of a value the order of items and entries comes back, but not the kind of its collections, and nothing unknown: the
unknown value has no data, an unknown item becomes null, an unknown entry is left out.
-/

namespace InfraConfig

namespace Value

/-- The values right inside a collection. -/
def members : Value → List Value
  | .list items => items
  | .set items => items
  | .map es => es.map (·.2)
  | .object es => es.map (·.2)
  | _ => []

/-- What holds of a value if it holds of its members holds of every value. -/
@[elab_as_elim]
theorem induction {p : Value → Prop} (step : ∀ v, (∀ x ∈ v.members, p x) → p v) (v : Value) : p v := by
  have hentries (es : Entries Value) (h : ∀ e ∈ es, p e.2) : ∀ x ∈ es.map (·.2), p x :=
    List.forall_mem_map.mpr h
  have hnone : ∀ x ∈ ([] : List Value), p x := fun _ h => absurd h List.not_mem_nil
  exact @Value.rec p (fun items => ∀ x ∈ items, p x) (fun es => ∀ e ∈ es, p e.2) (fun e => p e.2)
    (step _ hnone) (step _ hnone) (fun _ => step _ hnone) (fun _ => step _ hnone) (fun _ => step _ hnone)
    (fun _ h => step _ h) (fun _ h => step _ h)
    (fun es h => step _ (hentries es h)) (fun es h => step _ (hentries es h)) hnone (fun _ _ hx hrest => List.forall_mem_cons.mpr ⟨hx, hrest⟩)
    (fun _ h => absurd h List.not_mem_nil) (fun _ _ he hrest => List.forall_mem_cons.mpr ⟨he, hrest⟩)
    (fun _ _ h => h) v

/-- Whether a value stands in another one, at any depth. -/
inductive PartOf : Value → Value → Prop where
  | self (v : Value) : PartOf v v
  | inside {w x v : Value} (hx : x ∈ v.members) (hw : PartOf w x) : PartOf w v

/-- Whether something holds of a value and of all that stands in it. -/
def Throughout (q : Value → Prop) (v : Value) : Prop :=
  ∀ w, PartOf w v → q w

theorem throughout_iff {q : Value → Prop} {v : Value} :
    Throughout q v ↔ q v ∧ ∀ x ∈ v.members, Throughout q x := by
  constructor
  · exact fun h => ⟨h v (.self v), fun x hx w hw => h w (.inside hx hw)⟩
  · rintro ⟨hv, hmembers⟩ w (_ | ⟨hx, hw⟩)
    · exact hv
    · exact hmembers _ hx w hw

/-! ## What is known -/

theorem allKnown_eq (items : List Value) : allKnown items = items.all isWhollyKnown := by
  induction items with
  | nil => rfl
  | cons x items ih => rw [allKnown, ih, List.all_cons]

theorem entriesKnown_eq (es : Entries Value) : entriesKnown es = (es.map (·.2)).all isWhollyKnown := by
  induction es with
  | nil => rfl
  | cons e es ih => rw [entriesKnown, ih, List.map_cons, List.all_cons]

theorem isWhollyKnown_eq (v : Value) : v.isWhollyKnown = (!v.isUnknown && v.members.all isWhollyKnown) := by
  cases v with
  | list items => exact allKnown_eq items
  | set items => exact allKnown_eq items
  | map es => exact entriesKnown_eq es
  | object es => exact entriesKnown_eq es
  | _ => rfl

/-- A value is wholly known if the unknown value is no part of it. -/
theorem isWhollyKnown_iff (v : Value) : v.isWhollyKnown = true ↔ Throughout (fun w => w.isUnknown = false) v := by
  induction v using Value.induction with
  | step v ih =>
    rw [isWhollyKnown_eq, Bool.and_eq_true, Bool.not_eq_true', List.all_eq_true, throughout_iff]
    exact and_congr_right fun _ => forall₂_congr ih

/-! ## Data as values -/

mutual

@[simp] theorem toDatum?_ofDatum : ∀ d : Datum, (ofDatum d).toDatum? = some d
  | .null => rfl
  | .bool _ => rfl
  | .number _ => rfl
  | .text _ => rfl
  | .list items => by rw [ofDatum, toDatum?, datumItems_ofDatumItems items]
  | .object entries => by rw [ofDatum, toDatum?, datumEntries_ofDatumEntries entries]

theorem datumItems_ofDatumItems : ∀ items : List Datum, datumItems (ofDatumItems items) = items
  | [] => rfl
  | d :: items => by
    rw [ofDatumItems, datumItems, toDatum?_ofDatum d, datumItems_ofDatumItems items]
    rfl

theorem datumEntries_ofDatumEntries :
    ∀ entries : List (String × Datum), datumEntries (ofDatumEntries entries) = entries
  | [] => rfl
  | (k, d) :: entries => by
    rw [ofDatumEntries, datumEntries, toDatum?_ofDatum d]
    dsimp only
    rw [datumEntries_ofDatumEntries entries]

end

/-! ## Without what is unknown -/

mutual

/-- The value without what is unknown in it: an unknown item becomes null, an unknown entry is left out. -/
def withoutUnknown : Value → Value
  | .list items => .list (itemsWithoutUnknown items)
  | .set items => .set (itemsWithoutUnknown items)
  | .map es => .map (entriesWithoutUnknown es)
  | .object es => .object (entriesWithoutUnknown es)
  | v => v

def itemsWithoutUnknown : List Value → List Value
  | [] => []
  | v :: rest => (if v.isUnknown then .null else v.withoutUnknown) :: itemsWithoutUnknown rest

def entriesWithoutUnknown : List (String × Value) → List (String × Value)
  | [] => []
  | (k, v) :: rest =>
    if v.isUnknown then entriesWithoutUnknown rest else (k, v.withoutUnknown) :: entriesWithoutUnknown rest

end

theorem itemsWithoutUnknown_eq (items : List Value) :
    itemsWithoutUnknown items = items.map fun v => if v.isUnknown then .null else v.withoutUnknown := by
  induction items with
  | nil => rfl
  | cons v items ih => rw [itemsWithoutUnknown, ih, List.map_cons]

/-- The known entries stay, in their order. -/
theorem entriesWithoutUnknown_eq (es : Entries Value) :
    entriesWithoutUnknown es = (es.filter fun e => !e.2.isUnknown).map fun e => (e.1, e.2.withoutUnknown) := by
  induction es with
  | nil => rfl
  | cons e es ih =>
    rw [entriesWithoutUnknown, ih, List.filter_cons]
    cases e.2.isUnknown <;> rfl

/-! ## Without sets and maps -/

mutual

/-- The value with lists for sets and objects for maps. -/
def untyped : Value → Value
  | .list items => .list (untypedItems items)
  | .set items => .list (untypedItems items)
  | .map es => .object (untypedEntries es)
  | .object es => .object (untypedEntries es)
  | v => v

def untypedItems : List Value → List Value
  | [] => []
  | v :: rest => v.untyped :: untypedItems rest

def untypedEntries : List (String × Value) → List (String × Value)
  | [] => []
  | (k, v) :: rest => (k, v.untyped) :: untypedEntries rest

end

theorem untypedItems_eq (items : List Value) : untypedItems items = items.map untyped := by
  induction items with
  | nil => rfl
  | cons v items ih => rw [untypedItems, ih, List.map_cons]

theorem untypedEntries_eq (es : Entries Value) : untypedEntries es = es.map fun e => (e.1, e.2.untyped) := by
  induction es with
  | nil => rfl
  | cons e es ih => rw [untypedEntries, ih, List.map_cons]

/-- Whether a value is a set or a map. -/
def isTyped : Value → Bool
  | .set _ => true
  | .map _ => true
  | _ => false

/-! ## Plain data -/

theorem toDatum?_eq_none_iff {v : Value} : v.toDatum? = none ↔ v.isUnknown = true := by
  cases v <;> simp [toDatum?, isUnknown]

theorem isUnknown_of_toDatum? {v : Value} {d : Datum} (h : v.toDatum? = some d) : ¬ v.isUnknown = true := by
  rw [← toDatum?_eq_none_iff, h]
  exact Option.some_ne_none d

theorem ofDatumItems_datumItems {items : List Value}
    (h : ∀ x ∈ items, ∀ d, x.toDatum? = some d → ofDatum d = x.withoutUnknown.untyped) :
    ofDatumItems (datumItems items) = untypedItems (itemsWithoutUnknown items) := by
  induction items with
  | nil => rfl
  | cons x items ih =>
    obtain ⟨hx, hitems⟩ := List.forall_mem_cons.mp h
    rw [datumItems, ofDatumItems, ih hitems, itemsWithoutUnknown, untypedItems]
    cases hd : x.toDatum? with
    | none =>
      rw [if_pos (toDatum?_eq_none_iff.mp hd)]
      rfl
    | some d => rw [if_neg (isUnknown_of_toDatum? hd), Option.getD_some, hx d hd]

theorem ofDatumEntries_datumEntries {es : Entries Value}
    (h : ∀ x ∈ es.map (·.2), ∀ d, x.toDatum? = some d → ofDatum d = x.withoutUnknown.untyped) :
    ofDatumEntries (datumEntries es) = untypedEntries (entriesWithoutUnknown es) := by
  induction es with
  | nil => rfl
  | cons e es ih =>
    obtain ⟨k, x⟩ := e
    obtain ⟨hx, hes⟩ := List.forall_mem_cons.mp h
    rw [datumEntries, entriesWithoutUnknown]
    cases hd : x.toDatum? with
    | none =>
      rw [if_pos (toDatum?_eq_none_iff.mp hd)]
      exact ih hes
    | some d =>
      rw [if_neg (isUnknown_of_toDatum? hd)]
      dsimp only
      rw [ofDatumEntries, untypedEntries, ih hes, hx d hd]

theorem ofDatum_of_toDatum? {v : Value} {d : Datum} (hd : v.toDatum? = some d) :
    ofDatum d = v.withoutUnknown.untyped := by
  induction v using Value.induction generalizing d with
  | step v ih =>
    cases v with
    | unknown => cases hd
    | list items =>
      obtain rfl := Option.some.inj hd
      exact congrArg list (ofDatumItems_datumItems fun x hx _ => ih x hx)
    | set items =>
      obtain rfl := Option.some.inj hd
      exact congrArg list (ofDatumItems_datumItems fun x hx _ => ih x hx)
    | map es =>
      obtain rfl := Option.some.inj hd
      exact congrArg object (ofDatumEntries_datumEntries fun x hx _ => ih x hx)
    | object es =>
      obtain rfl := Option.some.inj hd
      exact congrArg object (ofDatumEntries_datumEntries fun x hx _ => ih x hx)
    | _ =>
      obtain rfl := Option.some.inj hd
      rfl

/-- What becomes of a value that goes into an expression and comes back. -/
def roundTrip? (v : Value) : Option Value :=
  v.toDatum?.map ofDatum

theorem roundTrip?_eq (v : Value) :
    v.roundTrip? = if v.isUnknown then none else some v.withoutUnknown.untyped := by
  rw [roundTrip?]
  cases hd : v.toDatum? with
  | none =>
    rw [if_pos (toDatum?_eq_none_iff.mp hd)]
    rfl
  | some d => rw [if_neg (isUnknown_of_toDatum? hd), Option.map_some, ofDatum_of_toDatum? hd]

/-! ## Values that come back as they are -/

theorem isUnknown_withoutUnknown (v : Value) : v.withoutUnknown.isUnknown = v.isUnknown := by
  cases v <;> rfl

theorem isUnknown_untyped (v : Value) : v.untyped.isUnknown = v.isUnknown := by
  cases v <;> rfl

theorem isTyped_untyped (v : Value) : v.untyped.isTyped = false := by
  cases v <;> rfl

theorem members_untyped (v : Value) : v.untyped.members = v.members.map untyped := by
  cases v with
  | list items => exact untypedItems_eq items
  | set items => exact untypedItems_eq items
  | map es => simp [untyped, members, untypedEntries_eq]
  | object es => simp [untyped, members, untypedEntries_eq]
  | _ => rfl

/-- Each member that is left comes from a known one, or is null. -/
theorem mem_members_withoutUnknown {v x : Value} (h : x ∈ v.withoutUnknown.members) :
    x = .null ∨ ∃ y ∈ v.members, y.isUnknown = false ∧ x = y.withoutUnknown := by
  have hitems (items : List Value) (h : x ∈ itemsWithoutUnknown items) :
      x = .null ∨ ∃ y ∈ items, y.isUnknown = false ∧ x = y.withoutUnknown := by
    rw [itemsWithoutUnknown_eq] at h
    obtain ⟨y, hy, rfl⟩ := List.mem_map.mp h
    cases hu : y.isUnknown with
    | true => exact .inl rfl
    | false => exact .inr ⟨y, hy, hu, rfl⟩
  have hentries (es : Entries Value) (h : x ∈ (entriesWithoutUnknown es).map (·.2)) :
      ∃ y ∈ es.map (·.2), y.isUnknown = false ∧ x = y.withoutUnknown := by
    rw [entriesWithoutUnknown_eq, List.map_map] at h
    obtain ⟨e, he, rfl⟩ := List.mem_map.mp h
    obtain ⟨hmem, hu⟩ := List.mem_filter.mp he
    exact ⟨e.2, List.mem_map.mpr ⟨e, hmem, rfl⟩, (Bool.not_eq_true' _).mp hu, rfl⟩
  cases v with
  | list items => exact hitems items h
  | set items => exact hitems items h
  | map es => exact .inr (hentries es h)
  | object es => exact .inr (hentries es h)
  | _ => cases h

theorem known_withoutUnknown (v : Value) (h : v.isUnknown = false) :
    Throughout (fun w => w.isUnknown = false) v.withoutUnknown := by
  induction v using Value.induction with
  | step v ih =>
    refine throughout_iff.mpr ⟨(isUnknown_withoutUnknown v).trans h, fun x hx => ?_⟩
    rcases mem_members_withoutUnknown hx with rfl | ⟨y, hy, hknown, rfl⟩
    · exact throughout_iff.mpr ⟨rfl, fun _ h => absurd h List.not_mem_nil⟩
    · exact ih y hy hknown

theorem known_untyped {v : Value} (h : Throughout (fun w => w.isUnknown = false) v) :
    Throughout (fun w => w.isUnknown = false) v.untyped := by
  induction v using Value.induction with
  | step v ih =>
    obtain ⟨hv, hmembers⟩ := throughout_iff.mp h
    refine throughout_iff.mpr ⟨(isUnknown_untyped v).trans hv, ?_⟩
    rw [members_untyped, List.forall_mem_map]
    exact fun x hx => ih x hx (hmembers x hx)

theorem untyped_untyped (v : Value) : Throughout (fun w => w.isTyped = false) v.untyped := by
  induction v using Value.induction with
  | step v ih =>
    refine throughout_iff.mpr ⟨isTyped_untyped v, ?_⟩
    rw [members_untyped, List.forall_mem_map]
    exact ih

theorem withoutUnknown_eq_self {v : Value} (h : Throughout (fun w => w.isUnknown = false) v) :
    v.withoutUnknown = v := by
  induction v using Value.induction with
  | step v ih =>
    have hmember (x : Value) (hx : x ∈ v.members) : x.isUnknown = false ∧ x.withoutUnknown = x :=
      ⟨h x (.inside hx (.self x)), ih x hx fun w hw => h w (.inside hx hw)⟩
    have hitems (items : List Value) (hm : ∀ x ∈ items, x.isUnknown = false ∧ x.withoutUnknown = x) :
        itemsWithoutUnknown items = items := by
      rw [itemsWithoutUnknown_eq]
      refine (List.map_congr_left fun x hx => ?_).trans (List.map_id' items)
      rw [if_neg (Bool.eq_false_iff.mp (hm x hx).1), (hm x hx).2]
    have hentries (es : Entries Value) (hm : ∀ x ∈ es.map (·.2), x.isUnknown = false ∧ x.withoutUnknown = x) :
        entriesWithoutUnknown es = es := by
      have hm' (e : String × Value) (he : e ∈ es) := hm e.2 (List.mem_map_of_mem he)
      have hall : es.filter (fun e => !e.2.isUnknown) = es :=
        List.filter_eq_self.mpr fun e he => (Bool.not_eq_true' _).mpr (hm' e he).1
      rw [entriesWithoutUnknown_eq, hall]
      refine (List.map_congr_left fun e he => ?_).trans (List.map_id' es)
      rw [(hm' e he).2]
    cases v with
    | list items => rw [withoutUnknown, hitems items hmember]
    | set items => rw [withoutUnknown, hitems items hmember]
    | map es => rw [withoutUnknown, hentries es hmember]
    | object es => rw [withoutUnknown, hentries es hmember]
    | _ => rfl

theorem untyped_eq_self {v : Value} (h : Throughout (fun w => w.isTyped = false) v) : v.untyped = v := by
  induction v using Value.induction with
  | step v ih =>
    obtain ⟨hv, hmembers⟩ := throughout_iff.mp h
    have hmember (x : Value) (hx : x ∈ v.members) : x.untyped = x := ih x hx (hmembers x hx)
    cases v with
    | list items =>
      rw [untyped, untypedItems_eq]
      exact congrArg list ((List.map_congr_left hmember).trans (List.map_id' items))
    | object es =>
      have hentry (e : String × Value) (he : e ∈ es) : (e.1, e.2.untyped) = e := by
        rw [hmember e.2 (List.mem_map_of_mem he)]
      rw [untyped, untypedEntries_eq]
      exact congrArg object ((List.map_congr_left hentry).trans (List.map_id' es))
    | set items => cases hv
    | map es => cases hv
    | _ => rfl

theorem roundTrip?_eq_self_iff (v : Value) :
    v.roundTrip? = some v ↔ v.isWhollyKnown = true ∧ Throughout (fun w => w.isTyped = false) v := by
  rw [isWhollyKnown_iff, roundTrip?_eq]
  constructor
  · intro h
    split at h
    · cases h
    · next hknown =>
      have hv := Option.some.inj h
      rw [← hv]
      exact ⟨known_untyped (known_withoutUnknown v (Bool.eq_false_iff.mpr hknown)), untyped_untyped _⟩
  · rintro ⟨hknown, huntyped⟩
    rw [if_neg (Bool.eq_false_iff.mp (hknown v (.self v))), withoutUnknown_eq_self hknown, untyped_eq_self huntyped]

/-- Data are not changed by becoming a value. A value has data unless it is unknown, and comes back as what it is
without sets, maps and what is unknown in it: as itself exactly if it has none of them, and so the second time. -/
theorem data_round_trips :
    (∀ d : Datum, (ofDatum d).toDatum? = some d) ∧
    ∀ v : Value,
      (v.toDatum? = none ↔ v = .unknown) ∧
      v.roundTrip? = (if v.isUnknown then none else some v.withoutUnknown.untyped) ∧
      (v.roundTrip? = some v ↔ v.isWhollyKnown = true ∧ Throughout (fun w => w.isTyped = false) v) ∧
      v.roundTrip?.bind roundTrip? = v.roundTrip? := by
  refine ⟨toDatum?_ofDatum, fun v => ⟨?_, roundTrip?_eq v, roundTrip?_eq_self_iff v, ?_⟩⟩
  · rw [toDatum?_eq_none_iff]
    cases v <;> simp [isUnknown]
  · cases hd : v.toDatum? with
    | none => rw [roundTrip?, hd]; rfl
    | some d =>
      have hv : v.roundTrip? = some (ofDatum d) := by rw [roundTrip?, hd, Option.map_some]
      rw [hv, Option.bind_some, roundTrip?, toDatum?_ofDatum, Option.map_some]

/-- An unknown entry is gone, an unknown item is null, a set inside a map has become a list inside an object. -/
example : (Value.map [("a", .set [.unknown, .int 1]), ("b", .unknown), ("c", .null)]).roundTrip?
    = some (.object [("a", .list [.null, .int 1]), ("c", .null)]) := rfl

end Value

end InfraConfig
