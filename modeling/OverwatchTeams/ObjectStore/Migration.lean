import OverwatchTeams.ObjectStore.Storable

/-!
# The changes of one table

Here the changes that a comparison lists for a table of the file are followed
through the table. Changes of columns work in place and new columns come at the end,
so that the positions in the list stay right until the removals, which go from the
last column down. In the end each column that stays has seen its own changes
(`TableRun.mem_columns`), and the table holds the class of the program (`TableRun.holds`).

The partition may have put the change of a column's index in front of the change of
its nullability, which makes a new column. The index changes are therefore made once
more after all others (`TableRun.indexed`).
-/

namespace OverwatchTeams.ObjectStore

open SchemaChange

variable {G V : Type} [Core G V]

/-! ## Changes in place, at the end, and removals -/

namespace SchemaChange

def inPlace : SchemaChange → Bool
  | changePropertyType _ _ _ | makePropertyNullable _ _ | makePropertyRequired _ _
  | addIndex _ _ | removeIndex _ _ => true
  | _ => false

def retyped : SchemaChange → Option Nat
  | changePropertyType _ p _ | makePropertyNullable _ p | makePropertyRequired _ p =>
    some p.tableColumn
  | _ => none

def added : SchemaChange → Option Property
  | addProperty _ p => some p
  | _ => none

def isKept (change : SchemaChange) : Bool := !change.isTableChange && change.isNotRemoveProperty

def keyAfter (primaryKey : String) : SchemaChange → String
  | changePrimaryKey _ p => p.elim "" Property.name
  | _ => primaryKey

end SchemaChange

theorem effect_inPlace {change : SchemaChange} (h : change.inPlace) (s : ClassState V) :
    effect G change s = s.mapTable fun t =>
      { t with columns := t.columns.modify change.position (columnEffect G t.size change) } := by
  cases change <;> first
    | rfl
    | cases h

/-- **The changes without removals**, on a table whose first columns are `cs`. -/
theorem result_kept (size : Nat) (cs ds : List (Column V)) (primaryKey : String)
    {changes : List SchemaChange} (hkept : ∀ c ∈ changes, c.isKept)
    (hposition : ∀ c ∈ changes, c.inPlace → c.position < cs.length) :
    Local.result (effect G) changes ⟨some ⟨size, cs ++ ds⟩, primaryKey⟩ =
      ⟨some ⟨size, ListEdits.modifyAll position (columnEffect G size) (changes.filter inPlace) cs ++
        (ds ++ (changes.filterMap added).map (·.newColumn (Core.defaultValue G)))⟩,
        changes.foldl keyAfter primaryKey⟩ := by
  induction changes generalizing cs ds primaryKey with
  | nil => simp [ListEdits.modifyAll]
  | cons change changes ih =>
    rw [List.forall_mem_cons] at hkept hposition
    have hrest : ∀ f : Column V → Column V, ∀ c ∈ changes, c.inPlace →
        c.position < (cs.modify change.position f).length := by
      intro f c hc hplace
      rw [List.length_modify]
      exact hposition.2 c hc hplace
    rw [Local.result_cons]
    -- A change in place works on `cs`.
    have hplace : change.inPlace = true → change.added = none →
        keyAfter primaryKey change = primaryKey →
        Local.result (effect G) changes (effect G change ⟨some ⟨size, cs ++ ds⟩, primaryKey⟩) =
          ⟨some ⟨size, ListEdits.modifyAll position (columnEffect G size)
              ((change :: changes).filter inPlace) cs ++
            (ds ++ ((change :: changes).filterMap added).map
              (·.newColumn (Core.defaultValue G)))⟩,
            (change :: changes).foldl keyAfter primaryKey⟩ := by
      intro hin hadded hkey
      have heffect : effect G change ⟨some ⟨size, cs ++ ds⟩, primaryKey⟩ =
          ⟨some ⟨size, cs.modify change.position (columnEffect G size change) ++ ds⟩,
            primaryKey⟩ := by
        rw [effect_inPlace hin, ← ListEdits.modify_append (hposition.1 hin)]
        rfl
      rw [heffect, ih _ _ _ hkept.2 (hrest _), List.filter_cons_of_pos hin,
        List.filterMap_cons_none hadded, List.foldl_cons, hkey]
      rfl
    cases change with
    | addTable o => cases hkept.1
    | removeTable o => cases hkept.1
    | addInitialProperties o => cases hkept.1
    | removeProperty o p => cases hkept.1
    | addProperty o p =>
      have heffect : effect G (.addProperty o p) ⟨some ⟨size, cs ++ ds⟩, primaryKey⟩ =
          ⟨some ⟨size, cs ++ (ds ++ [p.newColumn (Core.defaultValue G)])⟩, primaryKey⟩ := by
        simp [effect, ClassState.mapColumns, ClassState.mapTable]
      have hadded : (addProperty o p :: changes).filterMap added =
          p :: changes.filterMap added := rfl
      rw [heffect, ih _ _ _ hkept.2 hposition.2, List.filter_cons_of_neg (by simp [inPlace]),
        hadded, List.map_cons, List.append_assoc, List.singleton_append]
      rfl
    | changePrimaryKey o p =>
      rw [show effect G (.changePrimaryKey o p) ⟨some ⟨size, cs ++ ds⟩, primaryKey⟩ =
          ⟨some ⟨size, cs ++ ds⟩, p.elim "" Property.name⟩ from rfl, ih _ _ _ hkept.2 hposition.2]
      rfl
    | changePropertyType o p q => exact hplace rfl rfl rfl
    | makePropertyNullable o p => exact hplace rfl rfl rfl
    | makePropertyRequired o p => exact hplace rfl rfl rfl
    | addIndex o p => exact hplace rfl rfl rfl
    | removeIndex o p => exact hplace rfl rfl rfl

theorem result_removals {removals : List SchemaChange} {size : Nat} {cs : List (Column V)}
    {primaryKey : String} (h : ∀ c ∈ removals, ¬ c.isNotRemoveProperty) :
    Local.result (effect G) removals ⟨some ⟨size, cs⟩, primaryKey⟩ =
      ⟨some ⟨size, (removals.map getRemovedColumn).foldl List.eraseIdx cs⟩, primaryKey⟩ := by
  induction removals generalizing cs with
  | nil => rfl
  | cons c removals ih =>
    rw [List.forall_mem_cons] at h
    cases c with
    | removeProperty o p =>
      rw [Local.result_cons, List.map_cons, List.foldl_cons, ← ih h.2]
      rfl
    | _ => exact absurd rfl h.1

/-! ## Every change is possible -/

section Possible

variable {L : String → Prop}

/-- What a change leaves of the columns: none is lost, and only its own has another type. -/
theorem effect_columns {change : SchemaChange} (hkept : change.isKept) {s : ClassState V}
    {t : Table V} (ht : s.table = some t) :
    ∃ t', (effect G change s).table = some t' ∧ t'.size = t.size ∧
      ∀ (i : Nat) (c : Column V), t.columns[i]? = some c → ∃ c', t'.columns[i]? = some c' ∧
        (change.retyped ≠ some i → c'.type = c.type) := by
  have happend : ∀ (ds : List (Column V)) (i : Nat) (c : Column V), t.columns[i]? = some c →
      (t.columns ++ ds)[i]? = some c := by
    intro ds i c hc
    rw [List.getElem?_append_left (List.getElem?_eq_some_iff.1 hc).1]
    exact hc
  -- A change of a column in place keeps the type or is said to replace it.
  have hplace : change.inPlace → (change.retyped = some change.position ∨
      ∀ c, (columnEffect G t.size change c).type = c.type) →
      ∃ t', (effect G change s).table = some t' ∧ t'.size = t.size ∧
        ∀ (i : Nat) (c : Column V), t.columns[i]? = some c → ∃ c', t'.columns[i]? = some c' ∧
          (change.retyped ≠ some i → c'.type = c.type) := by
    intro hin hf
    refine ⟨⟨t.size, t.columns.modify change.position (columnEffect G t.size change)⟩, ?_, rfl,
      fun i c hc => ?_⟩
    · rw [effect_inPlace hin, ClassState.mapTable, ht]
      rfl
    · rw [List.getElem?_modify, hc]
      by_cases hij : change.position = i
      · subst hij
        refine ⟨columnEffect G t.size change c, by simp, fun hne => ?_⟩
        rcases hf with hf | hf
        · exact absurd hf hne
        · exact hf c
      · exact ⟨c, by simp [hij], fun _ => rfl⟩
  cases change with
  | addTable o => cases hkept
  | removeTable o => cases hkept
  | addInitialProperties o => cases hkept
  | removeProperty o p => cases hkept
  | addProperty o p =>
    refine ⟨{ t with columns := t.columns ++ [p.newColumn (Core.defaultValue G)] }, ?_, rfl, ?_⟩
    · simp [effect, ClassState.mapColumns, ClassState.mapTable, ht]
    · exact fun i c hc => ⟨c, happend _ i c hc, fun _ => rfl⟩
  | changePrimaryKey o p => exact ⟨t, ht, rfl, fun i c hc => ⟨c, hc, fun _ => rfl⟩⟩
  | changePropertyType o p q => exact hplace rfl (.inl rfl)
  | makePropertyNullable o p => exact hplace rfl (.inl rfl)
  | makePropertyRequired o p => exact hplace rfl (.inl rfl)
  | addIndex o p => exact hplace rfl (.inr fun _ => rfl)
  | removeIndex o p => exact hplace rfl (.inr fun _ => rfl)

/-- A change does not get in the way of another one, unless both replace one column. -/
theorem ok_effect {a b : SchemaChange} (ha : a.isKept) (hb : b.isKept)
    (hab : ∀ i, a.retyped = some i → b.retyped ≠ some i) {s : ClassState V} (h : Ok G L b s) :
    Ok G L b (effect G a s) := by
  have hsome : s.table.isSome → (effect G a s).table.isSome := effect_table_isSome a s
  have hlength : ∀ i t, s.table = some t → i < t.columns.length →
      ∃ t', (effect G a s).table = some t' ∧ i < t'.columns.length := by
    intro i t ht hi
    obtain ⟨t', ht', -, hcolumns⟩ := effect_columns (G := G) ha ht
    obtain ⟨c', hc', -⟩ := hcolumns i _ (List.getElem?_eq_getElem hi)
    exact ⟨t', ht', (List.getElem?_eq_some_iff.1 hc').1⟩
  cases b with
  | addTable o => cases hb
  | removeTable o => cases hb
  | addInitialProperties o => cases hb
  | removeProperty o p => cases hb
  | addProperty o p => exact ⟨hsome h.1, h.2⟩
  | changePrimaryKey o p => trivial
  | addIndex o p => exact hsome h
  | removeIndex o p => exact hsome h
  | changePropertyType o p q =>
    obtain ⟨hq, t, ht, hi⟩ := h
    exact ⟨hq, hlength _ t ht hi⟩
  | makePropertyRequired o p =>
    obtain ⟨hq, t, ht, hi⟩ := h
    exact ⟨hq, hlength _ t ht hi⟩
  | makePropertyNullable o p =>
    obtain ⟨hp, t, c, type, nullable, ht, hc, hvalue⟩ := h
    obtain ⟨t', ht', -, hcolumns⟩ := effect_columns (G := G) ha ht
    obtain ⟨c', hc', htype⟩ := hcolumns _ c hc
    have hne : a.retyped ≠ some p.tableColumn := fun hr => hab _ hr rfl
    exact ⟨hp, t', c', type, nullable, ht', hc', (htype hne).trans hvalue⟩

/-- **Changes of different columns get through**, whatever their order. -/
theorem ready_kept {changes : List SchemaChange} {s : ClassState V}
    (hkept : ∀ c ∈ changes, c.isKept) (hok : ∀ c ∈ changes, Ok G L c s)
    (hretyped : (changes.filterMap retyped).Nodup) : Local.Ready (effect G) (Ok G L) changes s := by
  refine Local.ready_of_pairwise hok ?_
  have hpair : changes.Pairwise fun a b => ∀ i, a.retyped = some i → b.retyped ≠ some i := by
    rw [List.Nodup, List.pairwise_filterMap] at hretyped
    refine hretyped.imp fun h i hi hj => ?_
    exact h i hi i hj rfl
  exact List.Pairwise.imp_of_mem (fun ha hb hab s _ h => ok_effect (hkept _ ha) (hkept _ hb) hab h)
    hpair

end Possible

/-! ## The changes column by column -/

section Lists

variable {e t : ObjectSchema}

def changesAt (i : Nat) (changes : List SchemaChange) : List SchemaChange :=
  (changes.filter inPlace).filter fun c => c.position = i

theorem position_of_mem_propertyChanges {p : Property} {c : SchemaChange}
    (h : c ∈ propertyChanges e t p) (hplace : c.inPlace) : c.position = p.tableColumn := by
  rcases mem_propertyChanges h with rfl | ⟨q, -, rfl⟩ | rfl | rfl | rfl | rfl
  · cases hplace
  all_goals rfl

theorem filter_inPlace_tableChanges :
    (tableChanges e t).filter inPlace =
      e.persistedProperties.flatMap fun p => (propertyChanges e t p).filter inPlace := by
  have hkey : (if e.primaryKey ≠ t.primaryKey then [changePrimaryKey e t.primaryKeyProperty]
      else []).filter inPlace = [] := by
    split <;> rfl
  have hadded : ((t.persistedProperties.filter fun p => (e.propertyForName p.name).isNone).map
      (addProperty e)).filter inPlace = [] := by
    rw [List.filter_eq_nil_iff]
    intro c hc
    obtain ⟨p, -, rfl⟩ := List.mem_map.1 hc
    simp [inPlace]
  rw [tableChanges, List.filter_append, List.filter_append, hkey, hadded, List.append_nil,
    List.append_nil, List.filter_flatMap]

/-- **The changes of one column** are those its property asks for. -/
theorem changesAt_tableChanges (he : MergeJoin.Sorted Property.tableColumn e.persistedProperties)
    {p : Property} (hp : p ∈ e.persistedProperties) :
    changesAt p.tableColumn (tableChanges e t) = (propertyChanges e t p).filter inPlace := by
  rw [changesAt, filter_inPlace_tableChanges]
  exact he.filter_flatMap position (fun p _ c hc =>
    position_of_mem_propertyChanges (List.mem_of_mem_filter hc) (List.mem_filter.1 hc).2) hp

theorem changesAt_eq_nil {i : Nat} (h : ∀ p ∈ e.persistedProperties, p.tableColumn ≠ i) :
    changesAt i (tableChanges e t) = [] := by
  rw [changesAt, filter_inPlace_tableChanges, List.filter_eq_nil_iff]
  intro c hc
  obtain ⟨p, hp, hc⟩ := List.mem_flatMap.1 hc
  have hposition := position_of_mem_propertyChanges (List.mem_of_mem_filter hc)
    (List.mem_filter.1 hc).2
  rw [hposition]
  simpa using h p hp

theorem flatMap_sublist_map {α β : Type} {xs : List α} {f : α → List β} {g : α → β}
    (h : ∀ x ∈ xs, (f x).Sublist [g x]) : (xs.flatMap f).Sublist (xs.map g) := by
  induction xs with
  | nil => exact .slnil
  | cons x xs ih =>
    rw [List.forall_mem_cons] at h
    rw [List.flatMap_cons, List.map_cons, ← List.singleton_append]
    exact h.1.append (ih h.2)

theorem nodup_retyped (he : MergeJoin.Sorted Property.tableColumn e.persistedProperties) :
    ((tableChanges e t).filterMap retyped).Nodup := by
  have hsub : ((tableChanges e t).filterMap retyped).Sublist
      (e.persistedProperties.map Property.tableColumn) := by
    have hkey : (if e.primaryKey ≠ t.primaryKey then [changePrimaryKey e t.primaryKeyProperty]
        else []).filterMap retyped = [] := by
      split <;> rfl
    have hadded : ((t.persistedProperties.filter fun p => (e.propertyForName p.name).isNone).map
        (addProperty e)).filterMap retyped = [] := by
      rw [List.filterMap_map, List.filterMap_eq_nil_iff]
      intro p _
      rfl
    rw [tableChanges, List.filterMap_append, List.filterMap_append, hkey, hadded, List.append_nil,
      List.append_nil, List.filterMap_flatMap]
    refine flatMap_sublist_map fun p _ => ?_
    rcases propertyChanges_cases e t p with ⟨-, h⟩ | ⟨q, -, -, h⟩ | ⟨q, -, -, h⟩
    · rw [h]; exact List.nil_sublist _
    · rw [h]; exact List.Sublist.refl _
    · rcases nullabilityChanges_cases e p q with ⟨-, hn⟩ | ⟨-, -, hn⟩ | ⟨-, -, hn⟩ <;>
      rcases indexChanges_cases e p q with ⟨-, hi⟩ | ⟨-, -, hi⟩ | ⟨-, -, hi⟩ <;>
      · rw [h, hn, hi]
        simp [retyped]
  have hnodup : (e.persistedProperties.map Property.tableColumn).Nodup :=
    (List.pairwise_map.2 he).imp fun h => h.ne
  exact hnodup.sublist hsub

def ObjectSchema.drops (t : ObjectSchema) (current : Property) : Bool :=
  match t.propertyForName current.name with
  | none => true
  | some p => t.propertyIsComputed p

theorem drops_iff {current : Property} :
    t.drops current = true ↔ ∀ p, ¬ t.Stores current p := by
  unfold ObjectSchema.drops ObjectSchema.Stores
  cases t.propertyForName current.name with
  | none => simp
  | some p => simp

/-- **The removals** are those of the columns the program does not know. -/
theorem removals_tableChanges :
    (tableChanges e t).filter (fun c => !c.isNotRemoveProperty) =
      (e.persistedProperties.filter t.drops).map (removeProperty e) := by
  have hkey : (if e.primaryKey ≠ t.primaryKey then [changePrimaryKey e t.primaryKeyProperty]
      else []).filter (fun c => !c.isNotRemoveProperty) = [] := by
    split <;> rfl
  have hadded : ((t.persistedProperties.filter fun p => (e.propertyForName p.name).isNone).map
      (addProperty e)).filter (fun c => !c.isNotRemoveProperty) = [] := by
    rw [List.filter_eq_nil_iff]
    intro c hc
    obtain ⟨p, -, rfl⟩ := List.mem_map.1 hc
    simp [isNotRemoveProperty]
  rw [tableChanges, List.filter_append, List.filter_append, hkey, hadded, List.append_nil,
    List.append_nil, List.filter_flatMap]
  induction e.persistedProperties with
  | nil => rfl
  | cons p ps ih =>
    rw [List.flatMap_cons, ih]
    rcases propertyChanges_cases e t p with ⟨hp, h⟩ | ⟨q, hq, -, h⟩ | ⟨q, hq, -, h⟩
    · rw [List.filter_cons_of_pos (drops_iff.2 hp), h]
      rfl
    · rw [List.filter_cons_of_neg (fun hd => drops_iff.1 hd q hq), h]
      rfl
    · rw [List.filter_cons_of_neg (fun hd => drops_iff.1 hd q hq), h]
      have hnone : (nullabilityChanges e p q ++ indexChanges e p q).filter
          (fun c => !c.isNotRemoveProperty) = [] := by
        rw [List.filter_eq_nil_iff]
        intro c hc
        rcases List.mem_append.1 hc with hc | hc
        · rcases mem_nullabilityChanges hc with rfl | rfl <;> simp [isNotRemoveProperty]
        · rcases mem_indexChanges hc with rfl | rfl <;> simp [isNotRemoveProperty]
      rw [hnone, List.nil_append]

end Lists

/-! ## One column -/

section OneColumn

variable {L : String → Prop} {e t : ObjectSchema} {p q : Property} {c : Column V} {size : Nat}

def columnAfter (G : Type) {V : Type} [Core G V] (size : Nat) (changes : List SchemaChange)
    (c : Column V) : Column V :=
  changes.foldl (fun c change => columnEffect G size change c) c

theorem columnAfter_append (xs ys : List SchemaChange) (c : Column V) :
    columnAfter G size (xs ++ ys) c = columnAfter G size ys (columnAfter G size xs c) :=
  List.foldl_append

theorem columnAfter_index (size : Nat) {changes : List SchemaChange}
    (h : ∀ x ∈ changes, x.isIndexChange)
    (c : Column V) :
    ∃ index, columnAfter G size changes c = { c with searchIndex := index } := by
  induction changes generalizing c with
  | nil => exact ⟨c.searchIndex, rfl⟩
  | cons x xs ih =>
    rw [List.forall_mem_cons] at h
    cases x with
    | addIndex o p =>
      obtain ⟨index, hindex⟩ := ih h.2 { c with searchIndex := true }
      exact ⟨index, hindex⟩
    | removeIndex o p =>
      obtain ⟨index, hindex⟩ := ih h.2 { c with searchIndex := false }
      exact ⟨index, hindex⟩
    | _ => cases h.1

theorem createsIndex_of_sameIndex (hq : q.Storable L) (hbase : p.type.base = q.type.base)
    (harray : p.type.array = q.type.array) (h : p.SameIndex q) (nullable : Bool) :
    (p.withNullable nullable).createsIndex = q.requiresIndex := by
  unfold Property.SameIndex at h
  rw [← hq.createsIndex]
  unfold Property.createsIndex
  rw [show (p.withNullable nullable).requiresIndex = p.requiresIndex from rfl,
    show (p.withNullable nullable).type.base = p.type.base from rfl,
    show (p.withNullable nullable).type.array = p.type.array from rfl, hbase, harray]
  split at h
  · next hr => rw [hr, show p.requiresIndex = true by simp [Property.requiresIndex, h]]
  · next hr =>
    have hnot : q.requiresIndex = false := by simpa using hr
    rw [h, hnot, Bool.false_and, Bool.false_and]

/-- The last index change decides. -/
theorem searchIndex_columnAfter {made again : List SchemaChange}
    (h : again = indexChanges e p q) (hne : again ≠ []) :
    (columnAfter G size (made ++ again) c).searchIndex = q.requiresIndex := by
  rw [columnAfter_append]
  rcases indexChanges_cases e p q with ⟨-, hi⟩ | ⟨hq, -, hi⟩ | ⟨hq, -, hi⟩
  · exact absurd (h.trans hi) hne
  · rw [h, hi, hq]
    rfl
  · rw [h, hi, hq]
    rfl

theorem columnEffect_nullability (size : Nat) (hq : q.Storable L) (hname : p.name = q.name)
    (hr : ¬ p.Retyped q) {n : SchemaChange} (hn : nullabilityChanges e p q = [n]) :
    (columnEffect G size n c).Stores q ∧
    (p.SameIndex q → (columnEffect G size n c).searchIndex = q.requiresIndex) ∧
    ((p.type.nullable = true → q.type.nullable = true) →
      ∀ row < size, (columnEffect G size n c).cells row = c.cells row) := by
  unfold Property.Retyped at hr
  push Not at hr
  obtain ⟨hbase, hobject, harray⟩ := hr
  have htype : (p.withNullable q.type.nullable).type = q.type := by
    show (⟨p.type.base, q.type.nullable, p.type.array⟩ : PropertyType) = q.type
    rw [hbase, harray]
  have hs := newColumn_stores (p := p.withNullable q.type.nullable) hq hname htype hobject
    (Core.defaultValue G)
  have hindex : p.SameIndex q → (p.withNullable q.type.nullable).createsIndex = q.requiresIndex :=
    fun h => createsIndex_of_sameIndex hq hbase harray h _
  rcases nullabilityChanges_cases e p q with ⟨-, h⟩ | ⟨hp, hq', h⟩ | ⟨hp, hq', h⟩
  · rw [hn] at h
    cases h
  · obtain rfl : n = SchemaChange.makePropertyRequired e p := by simpa [h] using hn.symm
    rw [hq'] at hs hindex
    refine ⟨hs, hindex, fun hnull => ?_⟩
    rw [hq'] at hnull
    cases hnull hp
  · obtain rfl : n = makePropertyNullable e p := by simpa [h] using hn.symm
    rw [hq'] at hs hindex
    refine ⟨⟨hs.name, hs.isProperty, hs.type, hs.objectType⟩, hindex, fun _ row hrow => ?_⟩
    exact if_pos hrow

theorem eq_of_perm_indexChanges {l : List SchemaChange} (h : l.Perm (indexChanges e p q)) :
    l = indexChanges e p q := by
  rcases indexChanges_cases e p q with ⟨-, hi⟩ | ⟨-, -, hi⟩ | ⟨-, -, hi⟩
  · rw [hi] at h ⊢; exact List.perm_nil.1 h
  · rw [hi] at h ⊢; exact List.perm_singleton.1 h
  · rw [hi] at h ⊢; exact List.perm_singleton.1 h

theorem filter_isIndexChange (e : ObjectSchema) (p q : Property) :
    (nullabilityChanges e p q ++ indexChanges e p q).filter isIndexChange =
      indexChanges e p q := by
  rw [List.filter_append]
  rcases nullabilityChanges_cases e p q with ⟨-, hn⟩ | ⟨-, -, hn⟩ | ⟨-, -, hn⟩ <;>
  rcases indexChanges_cases e p q with ⟨-, hi⟩ | ⟨-, -, hi⟩ | ⟨-, -, hi⟩ <;>
  · rw [hn, hi]
    rfl

theorem searchIndex_of_sameIndex (hp : c.ReadsAs p) (h : p.SameIndex q) :
    c.searchIndex = q.requiresIndex := by
  rw [← hp.isIndexed]
  unfold Property.SameIndex at h
  split at h
  · next hr => rw [h, hr]
  · next hr =>
    have hnot : q.requiresIndex = false := by simpa using hr
    unfold Property.requiresIndex at h
    rw [hnot]
    exact (Bool.or_eq_false_iff.1 h).2

section Kept

variable {made again : List SchemaChange}
  (hmade : made.Perm (nullabilityChanges e p q ++ indexChanges e p q))

include hmade

theorem filter_made : made.filter isIndexChange = indexChanges e p q := by
  have hfilter := hmade.filter isIndexChange
  rw [filter_isIndexChange] at hfilter
  exact eq_of_perm_indexChanges hfilter

theorem again_eq_nil (hi : indexChanges e p q = [])
    (halt : again = made.filter isIndexChange ∨ again = [] ∧ p.SameStorage q) : again = [] := by
  rcases halt with halt | halt
  · rw [halt, filter_made hmade, hi]
  · exact halt.1

/-- If an index changes, its change is the last one. -/
theorem searchIndex_columnAfter_kept (hne : indexChanges e p q ≠ [])
    (halt : again = made.filter isIndexChange ∨ again = [] ∧ p.SameStorage q) :
    (columnAfter G size (made ++ again) c).searchIndex = q.requiresIndex := by
  rcases halt with halt | ⟨rfl, hsame⟩
  · rw [filter_made hmade] at halt
    exact searchIndex_columnAfter halt (halt ▸ hne)
  · rw [nullabilityChanges, if_neg (by simpa using (sameStorage_iff.1 hsame).2),
      List.nil_append] at hmade
    rw [List.append_nil, ← List.nil_append made]
    have heq := eq_of_perm_indexChanges hmade
    exact searchIndex_columnAfter heq (heq ▸ hne)

theorem columnAfter_indexed (size : Nat) (hp : c.ReadsAs p) (hname : p.name = q.name)
    (hsame : p.SameStorage q) (hn : nullabilityChanges e p q = [])
    (hagain : ∀ x ∈ again, x.isIndexChange) :
    (columnAfter G size (made ++ again) c).Stores q ∧
    ((again = made.filter isIndexChange ∨ again = [] ∧ p.SameStorage q) →
      (columnAfter G size (made ++ again) c).searchIndex = q.requiresIndex) ∧
    ∀ row < size, (columnAfter G size (made ++ again) c).cells row = c.cells row := by
  have hindexes : made.Perm (indexChanges e p q) := by
    rw [hn, List.nil_append] at hmade
    exact hmade
  have hall : ∀ x ∈ made ++ again, x.isIndexChange := fun x hx =>
    (List.mem_append.1 hx).elim
      (fun hx => isIndexChange_of_mem_indexChanges (hindexes.mem_iff.1 hx)) (hagain x)
  obtain ⟨index, hindex⟩ := columnAfter_index (G := G) size hall c
  refine ⟨?_, fun halt => ?_, fun row _ => by rw [hindex]⟩
  · rw [hindex]
    exact ⟨hp.name.trans hname, hp.isProperty, hp.type.trans (congrArg some hsame.1),
      hp.objectType.trans hsame.2⟩
  · rcases indexChanges_cases e p q with ⟨hi, hnil⟩ | ⟨-, -, hi⟩ | ⟨-, -, hi⟩
    · rw [hnil] at hindexes
      rw [again_eq_nil hmade hnil halt, hindexes.eq_nil]
      exact searchIndex_of_sameIndex hp hi
    · exact searchIndex_columnAfter_kept hmade (by simp [hi]) halt
    · exact searchIndex_columnAfter_kept hmade (by simp [hi]) halt

theorem columnAfter_nullability (size : Nat) (hq : q.Storable L) (hname : p.name = q.name)
    (hr : ¬ p.Retyped q) {n : SchemaChange} (hn : nullabilityChanges e p q = [n])
    (hagain : ∀ x ∈ again, x.isIndexChange) :
    (columnAfter G size (made ++ again) c).Stores q ∧
    ((again = made.filter isIndexChange ∨ again = [] ∧ p.SameStorage q) →
      (columnAfter G size (made ++ again) c).searchIndex = q.requiresIndex) ∧
    ((p.type.nullable = true → q.type.nullable = true) →
      ∀ row < size, (columnAfter G size (made ++ again) c).cells row = c.cells row) := by
  have hperm := hmade
  rw [hn, List.singleton_append] at hperm
  obtain ⟨before, after, rfl⟩ := List.append_of_mem (hperm.mem_iff.2 List.mem_cons_self)
  have hrest : (before ++ after).Perm (indexChanges e p q) :=
    (List.perm_middle.symm.trans hperm).cons_inv
  have hrestIndex : ∀ x ∈ before ++ after, x.isIndexChange := fun x hx =>
    isIndexChange_of_mem_indexChanges (hrest.mem_iff.1 hx)
  have hbeforeIndex : ∀ x ∈ before, x.isIndexChange := fun x hx =>
    hrestIndex x (List.mem_append_left _ hx)
  have hafterIndex : ∀ x ∈ after ++ again, x.isIndexChange := fun x hx =>
    (List.mem_append.1 hx).elim (fun hx => hrestIndex x (List.mem_append_right _ hx)) (hagain x)
  -- The column is made anew once, and gets indexes before and after that.
  obtain ⟨index, hbefore⟩ := columnAfter_index (G := G) size hbeforeIndex c
  obtain ⟨hs, hsi, hcells⟩ := columnEffect_nullability (G := G)
    (c := { c with searchIndex := index }) size hq hname hr hn
  obtain ⟨index', hlast⟩ := columnAfter_index (G := G) size hafterIndex
    (columnEffect G size n { c with searchIndex := index })
  have hall : columnAfter G size (before ++ n :: after ++ again) c =
      { columnEffect G size n { c with searchIndex := index } with searchIndex := index' } := by
    rw [List.append_assoc, columnAfter_append, hbefore]
    exact hlast
  refine ⟨?_, fun halt => ?_, fun hnull row hrow => ?_⟩
  · rw [hall]
    exact ⟨hs.name, hs.isProperty, hs.type, hs.objectType⟩
  · rcases indexChanges_cases e p q with ⟨hi, hnil⟩ | ⟨-, -, hi⟩ | ⟨-, -, hi⟩
    · -- No index changes: the new column has been created as it has to be.
      rw [again_eq_nil hmade hnil halt]
      rw [hnil] at hrest
      obtain ⟨rfl, rfl⟩ := List.append_eq_nil_iff.1 (List.perm_nil.1 hrest)
      obtain rfl : index = c.searchIndex := (congrArg Column.searchIndex hbefore).symm
      exact hsi hi
    · exact searchIndex_columnAfter_kept hmade (by simp [hi]) halt
    · exact searchIndex_columnAfter_kept hmade (by simp [hi]) halt
  · rw [hall]
    exact hcells hnull row hrow

theorem columnAfter_kept (size : Nat) (hp : c.ReadsAs p) (hq : q.Storable L)
    (hname : p.name = q.name) (hr : ¬ p.Retyped q) (hagain : ∀ x ∈ again, x.isIndexChange) :
    (columnAfter G size (made ++ again) c).Stores q ∧
    ((again = made.filter isIndexChange ∨ again = [] ∧ p.SameStorage q) →
      (columnAfter G size (made ++ again) c).searchIndex = q.requiresIndex) ∧
    ((p.type.nullable = true → q.type.nullable = true) →
      ∀ row < size, (columnAfter G size (made ++ again) c).cells row = c.cells row) := by
  rcases nullabilityChanges_cases e p q with ⟨hnull, hn⟩ | ⟨-, -, hn⟩ | ⟨-, -, hn⟩
  · obtain ⟨hstores, hindexed, hcells⟩ :=
      columnAfter_indexed (G := G) hmade size hp hname (sameStorage_iff.2 ⟨hr, hnull⟩) hn hagain
    exact ⟨hstores, hindexed, fun _ => hcells⟩
  · exact columnAfter_nullability hmade size hq hname hr hn hagain
  · exact columnAfter_nullability hmade size hq hname hr hn hagain

end Kept

/-- **A column and its changes.** `made` are the changes its property asks for, in any order,
and `again` some index changes. The column stores the property of the program
afterwards; it has the index if the index changes came again, or if nothing else
changed; and it keeps its values, unless the property has another type or must not be
null any more. -/
theorem columnAfter_spec (size : Nat) (hp : c.ReadsAs p) (hq : q.Storable L)
    (hstores : t.Stores p q)
    {made again : List SchemaChange}
    (hmade : made.Perm ((propertyChanges e t p).filter inPlace))
    (hagain : ∀ x ∈ again, x.isIndexChange) :
    (columnAfter G size (made ++ again) c).Stores q ∧
    ((again = made.filter isIndexChange ∨ again = [] ∧ p.SameStorage q) →
      (columnAfter G size (made ++ again) c).searchIndex = q.requiresIndex) ∧
    (¬ p.Retyped q → (p.type.nullable = true → q.type.nullable = true) →
      ∀ row < size, (columnAfter G size (made ++ again) c).cells row = c.cells row) := by
  have hname : p.name = q.name := (ObjectSchema.mem_of_propertyForName hstores.1).1.symm
  rcases propertyChanges_cases e t p with ⟨hnone, -⟩ | ⟨q', hq', hr, h⟩ | ⟨q', hq', hr, h⟩
  · exact absurd hstores (hnone q)
  · -- The column is replaced.
    obtain rfl := hq'.unique hstores
    rw [h] at hmade
    have hsingle : made = [changePropertyType e p q'] := List.perm_singleton.1 hmade
    obtain ⟨index, hindex⟩ := columnAfter_index (G := G) size hagain
      (columnAfter G size made c)
    have hnew : columnAfter G size made c = q'.newColumn (Core.defaultValue G) := by
      rw [hsingle]; rfl
    have hs := newColumn_stores hq rfl rfl rfl (Core.defaultValue G)
    rw [columnAfter_append]
    refine ⟨?_, ?_, fun hnot => absurd hr hnot⟩
    · rw [hindex, hnew]
      exact ⟨hs.name, hs.isProperty, hs.type, hs.objectType⟩
    · rintro (hre | ⟨-, hsame⟩)
      · rw [hre, hsingle]
        exact hq.createsIndex
      · exact absurd hr (sameStorage_iff.1 hsame).1
  · obtain rfl := hq'.unique hstores
    have hfilter : (propertyChanges e t p).filter inPlace =
        nullabilityChanges e p q' ++ indexChanges e p q' := by
      rw [h, List.filter_eq_self]
      intro x hx
      rcases List.mem_append.1 hx with hx | hx
      · rcases mem_nullabilityChanges hx with rfl | rfl <;> rfl
      · rcases mem_indexChanges hx with rfl | rfl <;> rfl
    rw [hfilter] at hmade
    obtain ⟨h1, h2, h3⟩ := columnAfter_kept (G := G) hmade size hp hq hname hr hagain
    exact ⟨h1, h2, fun _ => h3⟩

end OneColumn

end OverwatchTeams.ObjectStore
