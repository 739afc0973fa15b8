import OverwatchTeams.ObjectStore.Migration

/-!
# A table after its changes

The changes of one table put together: they get through (`TableRun.ready`), and
afterwards the table holds the class of the program, with as many rows as before and
with the values of every column that the program still stores in the same type
(`TableRun.holds`, `TableRun.indexed`, `TableRun.keepsValues`).
-/

namespace OverwatchTeams.ObjectStore

open SchemaChange

variable {G V : Type} [Core G V] {L : String → Prop} {e t : ObjectSchema}

/-- The changes made to a table of the file: those of the comparison but the removals in some
order, some index changes once more, and the removals from the last column down. -/
structure TableRun (e t : ObjectSchema) (made again removals : List SchemaChange) : Prop where
  perm : made.Perm ((tableChanges e t).filter isNotRemoveProperty)
  indexes : ∀ c ∈ again, c ∈ made ∧ c.isIndexChange
  removed : removals.Perm ((tableChanges e t).filter fun c => !c.isNotRemoveProperty)
  descending : Descending removals

/-- No list of values is made optional: `copy_property_values` has no way to copy one. -/
def NoListMadeOptional (e t : ObjectSchema) : Prop :=
  ∀ o p, makePropertyNullable o p ∈ tableChanges e t → p.type.array = false

theorem ObjectSchema.Storable.eq_of_stores (ht : t.Storable L) {c : Column V} {p q : Property}
    (hp : p ∈ t.persistedProperties) (hq : q ∈ t.persistedProperties) (hcp : c.Stores p)
    (hcq : c.Stores q) : p = q := by
  have hfind := ht.propertyForName hp
  rw [← hcp.name, hcq.name, ht.propertyForName hq] at hfind
  exact (Option.some.inj hfind).symm

namespace TableRun

variable {made again removals : List SchemaChange}

theorem mem_made (h : TableRun e t made again removals) {c : SchemaChange} (hc : c ∈ made) :
    c ∈ tableChanges e t ∧ c.isKept := by
  obtain ⟨hmem, hkept⟩ := List.mem_filter.1 (h.perm.mem_iff.1 hc)
  refine ⟨hmem, ?_⟩
  rw [isKept, isTableChange_of_mem_tableChanges hmem, hkept]
  rfl

theorem mem_changes (h : TableRun e t made again removals) {c : SchemaChange}
    (hc : c ∈ made ++ again) : c ∈ tableChanges e t ∧ c.isKept := by
  rcases List.mem_append.1 hc with hc | hc
  · exact h.mem_made hc
  · exact h.mem_made (h.indexes c hc).1

theorem not_kept_removals (h : TableRun e t made again removals) :
    ∀ c ∈ removals, ¬ c.isNotRemoveProperty := by
  intro c hc
  have := (List.mem_filter.1 (h.removed.mem_iff.1 hc)).2
  simpa using this

theorem removed_sorted (he : MergeJoin.Sorted Property.tableColumn e.persistedProperties)
    (h : TableRun e t made again removals) :
    (removals.map getRemovedColumn).Pairwise (· > ·) := by
  have hnodup : (removals.map getRemovedColumn).Nodup := by
    have hperm := h.removed.map getRemovedColumn
    rw [removals_tableChanges, List.map_map] at hperm
    rw [hperm.nodup_iff]
    have hsub : (e.persistedProperties.filter t.drops).map Property.tableColumn =
        (e.persistedProperties.filter t.drops).map (getRemovedColumn ∘ removeProperty e) := rfl
    rw [← hsub]
    exact (List.pairwise_map.2 (he.filter _)).imp fun h => h.ne
  have hdesc := List.pairwise_map.2 h.descending
  exact (hdesc.and hnodup).imp fun h => lt_of_le_of_ne h.1 (Ne.symm h.2)

theorem mem_removed (h : TableRun e t made again removals) {i : Nat} :
    i ∈ removals.map getRemovedColumn ↔
      ∃ p ∈ e.persistedProperties, t.drops p = true ∧ p.tableColumn = i := by
  rw [(h.removed.map getRemovedColumn).mem_iff, removals_tableChanges, List.map_map]
  simp only [List.mem_map, List.mem_filter, and_assoc, Function.comp_apply, getRemovedColumn]

theorem changesAt_made (h : TableRun e t made again removals) (i : Nat) :
    (changesAt i made).Perm (changesAt i (tableChanges e t)) := by
  have hperm : (changesAt i made).Perm
      (changesAt i ((tableChanges e t).filter isNotRemoveProperty)) :=
    (h.perm.filter _).filter _
  refine hperm.trans (.of_eq ?_)
  unfold changesAt
  rw [List.filter_filter (p := inPlace)]
  congr 1
  refine List.filter_congr fun c _ => ?_
  cases c <;> rfl

theorem changesAt_append (i : Nat) (xs ys : List SchemaChange) :
    changesAt i (xs ++ ys) = changesAt i xs ++ changesAt i ys := by
  unfold changesAt
  rw [List.filter_append, List.filter_append]

theorem mem_changesAt {i : Nat} {xs : List SchemaChange} {c : SchemaChange}
    (h : c ∈ changesAt i xs) : c ∈ xs :=
  List.mem_of_mem_filter (List.mem_of_mem_filter h)

theorem changesAt_filter (i : Nat) (xs : List SchemaChange) :
    changesAt i (xs.filter isIndexChange) = (changesAt i xs).filter isIndexChange := by
  unfold changesAt
  simp only [List.filter_filter]
  refine List.filter_congr fun c _ => ?_
  cases c.isIndexChange <;> cases c.inPlace <;> simp

end TableRun

/-! ## The changes get through -/

theorem value_of_fromCoreType {type : ColumnType} {p : PropertyType}
    (h : fromCoreType type = some p) (hobject : p.base ≠ .object) (harray : p.array = false) :
    ∃ core nullable, type = .value core nullable := by
  cases type with
  | value core nullable => exact ⟨core, nullable, rfl⟩
  | link target =>
    obtain rfl := Option.some.inj h
    exact absurd rfl hobject
  | linkList target =>
    obtain rfl := Option.some.inj h
    cases harray
  | table subdescriptor =>
    cases subdescriptor with
    | nil => cases h
    | cons c cs =>
      obtain rfl := Option.some.inj h
      cases harray

theorem nullability_base (ht : t.Storable L) {p q : Property} {c : Column V} (hp : c.ReadsAs p)
    (hstores : t.Stores p q) (hr : ¬ p.Retyped q) (hn : p.type.nullable ≠ q.type.nullable) :
    p.type.base ≠ .object ∧ (toCoreType p.type.base).isSome := by
  have hq := ht.properties q (ht.stores_iff.1 hstores).1
  unfold Property.Retyped at hr
  push Not at hr
  obtain ⟨hbase, -, harray⟩ := hr
  have hobject : p.type.base ≠ .object := by
    intro hobject
    have hqnull := (hq.link (hbase ▸ hobject)).2
    have hpnull : p.type.nullable = !p.type.array := by
      have htype := hp.type
      cases hc : c.type with
      | value core nullable =>
        rw [hc] at htype
        obtain htype := Option.some.inj htype
        rw [← htype] at hobject
        cases core <;> cases hobject
      | link target => rw [hc] at htype; rw [← Option.some.inj htype]; rfl
      | linkList target => rw [hc] at htype; rw [← Option.some.inj htype]; rfl
      | table subdescriptor =>
        rw [hc] at htype
        cases subdescriptor with
        | nil => cases htype
        | cons sub subs =>
          rw [← Option.some.inj htype] at hobject
          simp only at hobject
          cases hsub : sub.type <;> rw [hsub] at hobject <;> cases hobject
    exact hn (by rw [hpnull, hqnull, harray])
  refine ⟨hobject, ?_⟩
  rw [hbase]
  exact hq.toCoreType (hbase ▸ hobject)

variable {T : Table V} {n primaryKey : String}

/-- **Every change of a table is possible** at the start. -/
theorem ok_of_mem_tableChanges (ht : t.Storable L) {c : SchemaChange}
    (hc : c ∈ tableChanges (objectSchemaOf n T primaryKey) t) (hkept : c.isKept)
    (hlist : ∀ o p, c = makePropertyNullable o p → p.type.array = false) :
    Ok G L c ⟨some T, primaryKey⟩ := by
  rcases mem_tableChanges.1 hc with ⟨p, hp, hpc⟩ | ⟨-, rfl⟩ | ⟨q, hq, -, rfl⟩
  · obtain ⟨column, hcolumn, hreads, -⟩ := mem_objectSchemaOf hp
    have hi : p.tableColumn < T.columns.length := (List.getElem?_eq_some_iff.1 hcolumn).1
    rcases propertyChanges_cases (objectSchemaOf n T primaryKey) t p with
      ⟨-, heq⟩ | ⟨q, hq, -, heq⟩ | ⟨q, hq, hr, heq⟩
    · obtain rfl := List.mem_singleton.1 (heq ▸ hpc)
      cases hkept
    · obtain rfl := List.mem_singleton.1 (heq ▸ hpc)
      exact ⟨(ht.properties q (ht.stores_iff.1 hq).1).insertable, T, rfl, hi⟩
    · rw [heq, List.mem_append] at hpc
      rcases hpc with hpc | hpc
      · rcases nullabilityChanges_cases (objectSchemaOf n T primaryKey) p q with
          ⟨-, hn⟩ | ⟨hp', hq', hn⟩ | ⟨hp', hq', hn⟩
        · rw [hn] at hpc
          cases hpc
        · obtain rfl := List.mem_singleton.1 (hn ▸ hpc)
          obtain ⟨-, hcore⟩ := nullability_base ht hreads hq hr (by rw [hp', hq']; simp)
          obtain ⟨type, htype⟩ := Option.isSome_iff_exists.1 hcore
          exact ⟨insertable_value (p := p.withNullable false) htype, T, rfl, hi⟩
        · obtain rfl := List.mem_singleton.1 (hn ▸ hpc)
          obtain ⟨hobject, hcore⟩ := nullability_base ht hreads hq hr (by rw [hp', hq']; simp)
          obtain ⟨core, nullable, hvalue⟩ :=
            value_of_fromCoreType hreads.type hobject (hlist _ _ rfl)
          exact ⟨hcore, T, column, core, nullable, rfl, hcolumn, hvalue⟩
      · rcases mem_indexChanges hpc with rfl | rfl
        · exact rfl
        · exact rfl
  · trivial
  · exact ⟨rfl, (ht.properties q hq).insertable⟩

section After

variable {made again removals : List SchemaChange}

theorem TableRun.position_lt (h : TableRun (objectSchemaOf n T primaryKey) t made again removals)
    {c : SchemaChange} (hc : c ∈ made ++ again) (hplace : c.inPlace) :
    c.position < T.columns.length := by
  have hmem := (h.mem_changes hc).1
  rcases mem_tableChanges.1 hmem with ⟨p, hp, hpc⟩ | ⟨-, rfl⟩ | ⟨q, -, -, rfl⟩
  · obtain ⟨column, hcolumn, -⟩ := mem_objectSchemaOf hp
    rw [position_of_mem_propertyChanges hpc hplace]
    exact (List.getElem?_eq_some_iff.1 hcolumn).1
  · cases hplace
  · cases hplace

theorem TableRun.removed_lt (h : TableRun (objectSchemaOf n T primaryKey) t made again removals)
    {i : Nat} (hi : i ∈ removals.map getRemovedColumn) : i < T.columns.length := by
  obtain ⟨p, hp, -, rfl⟩ := h.mem_removed.1 hi
  obtain ⟨column, hcolumn, -⟩ := mem_objectSchemaOf hp
  exact (List.getElem?_eq_some_iff.1 hcolumn).1

/-- **The changes of a table get through**, all of them or those of some kinds. -/
theorem TableRun.ready (ht : t.Storable L)
    (h : TableRun (objectSchemaOf n T primaryKey) t made again removals)
    (handles : SchemaChange → Bool)
    (hlists : ∀ o p, handles (makePropertyNullable o p) = true →
      makePropertyNullable o p ∈ tableChanges (objectSchemaOf n T primaryKey) t →
        p.type.array = false) :
    Local.Ready (effect G) (Ok G L) (made.filter handles) ⟨some T, primaryKey⟩ := by
  have hmade : ∀ c ∈ made.filter handles, c ∈ tableChanges (objectSchemaOf n T primaryKey) t ∧
      c.isKept := fun c hc => h.mem_made (List.mem_of_mem_filter hc)
  have hnodup : ((made.filter handles).filterMap retyped).Nodup := by
    have hall : (made.filterMap retyped).Nodup := by
      rw [(h.perm.filterMap _).nodup_iff]
      exact (nodup_retyped (sorted_objectSchemaOf n primaryKey T)).sublist
        (List.filter_sublist.filterMap _)
    exact hall.sublist (List.filter_sublist.filterMap _)
  refine ready_kept (fun c hc => (hmade c hc).2) (fun c hc => ?_) hnodup
  refine ok_of_mem_tableChanges ht (hmade c hc).1 (hmade c hc).2 ?_
  rintro o p rfl
  exact hlists o p (List.mem_filter.1 hc).2 (hmade _ hc).1

/-! ## The table afterwards -/

theorem keyAfter_of_mem {e : ObjectSchema} (ht : t.Storable L) {c : SchemaChange}
    (hc : c ∈ tableChanges e t) (key : String) :
    keyAfter key c = if c = changePrimaryKey e t.primaryKeyProperty then t.primaryKey else key := by
  rcases mem_tableChanges.1 hc with ⟨p, -, hpc⟩ | ⟨-, rfl⟩ | ⟨q, -, -, rfl⟩
  · rcases mem_propertyChanges hpc with rfl | ⟨q, -, rfl⟩ | rfl | rfl | rfl | rfl <;>
    simp [keyAfter]
  · rw [if_pos rfl]
    exact ht.primaryKeyProperty
  · simp [keyAfter]

theorem foldl_keyAfter {e : ObjectSchema} (ht : t.Storable L) {changes : List SchemaChange}
    (h : ∀ c ∈ changes, c ∈ tableChanges e t) (key : String) :
    changes.foldl keyAfter key =
      if changePrimaryKey e t.primaryKeyProperty ∈ changes then t.primaryKey else key := by
  induction changes generalizing key with
  | nil => rfl
  | cons c changes ih =>
    rw [List.forall_mem_cons] at h
    rw [List.foldl_cons, ih h.2, keyAfter_of_mem ht h.1]
    by_cases hc : c = changePrimaryKey e t.primaryKeyProperty
    · rw [if_pos hc, ite_self, if_pos (hc ▸ List.mem_cons_self)]
    · simp only [if_neg hc, List.mem_cons, Ne.symm hc, false_or]

theorem TableRun.foldl_keyAfter (ht : t.Storable L)
    (h : TableRun (objectSchemaOf n T primaryKey) t made again removals) :
    (made ++ again).foldl keyAfter primaryKey = t.primaryKey := by
  rw [ObjectStore.foldl_keyAfter ht fun c hc => (h.mem_changes hc).1]
  split
  · rfl
  · next hnot =>
    by_contra hne
    apply hnot
    have hmem : changePrimaryKey (objectSchemaOf n T primaryKey) t.primaryKeyProperty ∈
        tableChanges (objectSchemaOf n T primaryKey) t :=
      mem_tableChanges.2 (.inr (.inl ⟨hne, rfl⟩))
    exact List.mem_append_left _ (h.perm.mem_iff.2 (List.mem_filter.2 ⟨hmem, rfl⟩))

theorem TableRun.mem_added (h : TableRun (objectSchemaOf n T primaryKey) t made again removals) :
    ∀ p, p ∈ (made ++ again).filterMap added ↔
      p ∈ t.persistedProperties ∧
        (objectSchemaOf n T primaryKey).propertyForName p.name = none := by
  intro p
  rw [List.mem_filterMap]
  constructor
  · rintro ⟨c, hc, hp⟩
    rcases mem_tableChanges.1 (h.mem_changes hc).1 with ⟨q, -, hqc⟩ | ⟨-, rfl⟩ | ⟨q, hq, hnone, rfl⟩
    · rcases mem_propertyChanges hqc with rfl | ⟨q, -, rfl⟩ | rfl | rfl | rfl | rfl <;> cases hp
    · cases hp
    · obtain rfl := Option.some.inj hp
      exact ⟨hq, hnone⟩
  · rintro ⟨hp, hnone⟩
    have hmem : addProperty (objectSchemaOf n T primaryKey) p ∈
        tableChanges (objectSchemaOf n T primaryKey) t :=
      mem_tableChanges.2 (.inr (.inr ⟨p, hp, hnone, rfl⟩))
    exact ⟨_, List.mem_append_left _ (h.perm.mem_iff.2 (List.mem_filter.2 ⟨hmem, rfl⟩)), rfl⟩

def TableRun.table (G : Type) {V : Type} [Core G V] (T : Table V)
    (made again removals : List SchemaChange) : Table V where
  size := T.size
  columns :=
    ListEdits.keep (removals.map getRemovedColumn)
      (ListEdits.modifyAll position (columnEffect G T.size) ((made ++ again).filter inPlace)
        T.columns) ++
    ((made ++ again).filterMap added).map (·.newColumn (Core.defaultValue G))

theorem TableRun.result (ht : t.Storable L)
    (h : TableRun (objectSchemaOf n T primaryKey) t made again removals) :
    Local.result (effect G) (made ++ again ++ removals) ⟨some T, primaryKey⟩ =
      ⟨some (TableRun.table G T made again removals), t.primaryKey⟩ := by
  have hmade := result_kept (G := G) T.size T.columns [] primaryKey
    (fun c hc => (h.mem_changes hc).2) fun c hc => h.position_lt hc
  rw [List.append_nil, List.nil_append] at hmade
  have hlt : ∀ i ∈ removals.map getRemovedColumn, i < (ListEdits.modifyAll position
      (columnEffect G T.size) ((made ++ again).filter inPlace) T.columns).length := by
    intro i hi
    rw [ListEdits.length_modifyAll]
    exact h.removed_lt hi
  rw [Local.result_append, hmade, result_removals h.not_kept_removals, h.foldl_keyAfter ht,
    ListEdits.foldl_eraseIdx (h.removed_sorted (sorted_objectSchemaOf n primaryKey T))
      (fun i hi => (hlt i hi).trans_le (by simp)),
    ListEdits.keep_append _ _ _ hlt]
  rfl

/-- **The columns afterwards** are the old ones that stay, each with its own changes, and
the new ones. -/
theorem TableRun.mem_columns
    (h : TableRun (objectSchemaOf n T primaryKey) t made again removals) {c' : Column V} :
    c' ∈ (TableRun.table G T made again removals).columns ↔
      (∃ i c, T.columns[i]? = some c ∧ i ∉ removals.map getRemovedColumn ∧
        c' = columnAfter G T.size (changesAt i made ++ changesAt i again) c) ∨
      ∃ p ∈ t.persistedProperties,
        (objectSchemaOf n T primaryKey).propertyForName p.name = none ∧
        c' = p.newColumn (Core.defaultValue G) := by
  have hcolumns : c' ∈ (TableRun.table G T made again removals).columns ↔
      c' ∈ ListEdits.keep (removals.map getRemovedColumn)
        (ListEdits.modifyAll position (columnEffect G T.size) ((made ++ again).filter inPlace)
          T.columns) ∨
      c' ∈ ((made ++ again).filterMap added).map
        (·.newColumn (Core.defaultValue G)) := List.mem_append
  have hat : ∀ (i : Nat) (c : Column V),
      (((made ++ again).filter inPlace).filter fun c => c.position = i).foldl
        (fun c change => columnEffect G T.size change c) c =
      columnAfter G T.size (changesAt i made ++ changesAt i again) c := by
    intro i c
    rw [← TableRun.changesAt_append]
    rfl
  rw [hcolumns, ListEdits.mem_keep, List.mem_map]
  refine or_congr ⟨?_, ?_⟩ ⟨?_, ?_⟩
  · rintro ⟨i, hi, hkeep⟩
    rw [ListEdits.getElem?_modifyAll, Option.map_eq_some_iff] at hi
    obtain ⟨c, hc, rfl⟩ := hi
    exact ⟨i, c, hc, hkeep, hat i c⟩
  · rintro ⟨i, c, hc, hkeep, rfl⟩
    refine ⟨i, ?_, hkeep⟩
    rw [ListEdits.getElem?_modifyAll, hc, Option.map_some, hat]
  · rintro ⟨p, hp, rfl⟩
    obtain ⟨hmem, hnone⟩ := (h.mem_added p).1 hp
    exact ⟨p, hmem, hnone, rfl⟩
  · rintro ⟨p, hmem, hnone, rfl⟩
    exact ⟨p, (h.mem_added p).2 ⟨hmem, hnone⟩, rfl⟩

/-- Each index change comes again, or nothing but indexes changes. -/
def TableRun.IndexesLast (e t : ObjectSchema) (made again : List SchemaChange) : Prop :=
  again = made.filter isIndexChange ∨ again = [] ∧ SameTable e t

theorem TableRun.column (ht : t.Storable L)
    (h : TableRun (objectSchemaOf n T primaryKey) t made again removals) {i : Nat} {c : Column V}
    (hc : T.columns[i]? = some c) (hproperty : c.type.isProperty = true)
    (hkeep : i ∉ removals.map getRemovedColumn) :
    ∃ p q, c.ReadsAs p ∧ t.Stores p q ∧
      (columnAfter G T.size (changesAt i made ++ changesAt i again) c).Stores q ∧
      (TableRun.IndexesLast (objectSchemaOf n T primaryKey) t made again →
        (columnAfter G T.size (changesAt i made ++ changesAt i again) c).searchIndex =
          q.requiresIndex) ∧
      (¬ p.Retyped q → (p.type.nullable = true → q.type.nullable = true) →
        ∀ row < T.size,
          (columnAfter G T.size (changesAt i made ++ changesAt i again) c).cells row =
            c.cells row) := by
  have hsorted := sorted_objectSchemaOf n primaryKey T
  obtain ⟨p, hp, -, hi⟩ := exists_mem_objectSchemaOf n primaryKey hc hproperty
  obtain ⟨c', hc', hreads, -⟩ := mem_objectSchemaOf hp
  rw [hi, hc, Option.some.injEq] at hc'
  subst hc'
  obtain ⟨q, hq⟩ : ∃ q, t.Stores p q := by
    by_contra hnone
    rw [not_exists] at hnone
    exact hkeep (h.mem_removed.2 ⟨p, hp, drops_iff.2 hnone, hi⟩)
  have hmade : (changesAt i made).Perm
      ((propertyChanges (objectSchemaOf n T primaryKey) t p).filter inPlace) := by
    rw [← changesAt_tableChanges hsorted hp, hi]
    exact h.changesAt_made i
  have hagain : ∀ x ∈ changesAt i again, x.isIndexChange := fun x hx =>
    (h.indexes x (TableRun.mem_changesAt hx)).2
  obtain ⟨hstores, hindex, hcells⟩ := columnAfter_spec (G := G) T.size hreads
    (ht.properties q (ht.stores_iff.1 hq).1) hq hmade hagain
  refine ⟨p, q, hreads, hq, hstores, fun hlast => hindex ?_, hcells⟩
  rcases hlast with hlast | ⟨rfl, hsame⟩
  · exact .inl (by rw [hlast, TableRun.changesAt_filter])
  · obtain ⟨q', hq', hstorage⟩ := hsame.columns p hp
    exact .inr ⟨rfl, hq'.unique hq ▸ hstorage⟩

theorem TableRun.column_other
    (h : TableRun (objectSchemaOf n T primaryKey) t made again removals) {i : Nat} {c : Column V}
    (hc : T.columns[i]? = some c) (hold : ¬ c.type.isProperty = true) :
    columnAfter G T.size (changesAt i made ++ changesAt i again) c = c := by
  have hnone : changesAt i (tableChanges (objectSchemaOf n T primaryKey) t) = [] := by
    refine changesAt_eq_nil fun p hp hi => hold ?_
    obtain ⟨c', hc', hreads, -⟩ := mem_objectSchemaOf hp
    rw [hi, hc, Option.some.injEq] at hc'
    exact hc' ▸ hreads.isProperty
  have hmade : changesAt i made = [] := List.perm_nil.1 (hnone ▸ h.changesAt_made i)
  have hagain : changesAt i again = [] := by
    rw [List.eq_nil_iff_forall_not_mem]
    intro x hx
    have hmem := List.mem_filter.1 hx
    have hx' : x ∈ changesAt i made := List.mem_filter.2
      ⟨List.mem_filter.2 ⟨(h.indexes x (TableRun.mem_changesAt hx)).1,
        (List.mem_filter.1 hmem.1).2⟩, hmem.2⟩
    rw [hmade] at hx'
    cases hx'
  rw [hmade, hagain]
  rfl

/-- **The table holds the class of the program.** -/
theorem TableRun.holds (ht : t.Storable L)
    (h : TableRun (objectSchemaOf n T primaryKey) t made again removals) :
    (TableRun.table G T made again removals).Holds t.primaryKey t := by
  refine ⟨fun c' hc' hproperty => ?_, fun q hq => ?_, rfl⟩
  · rcases h.mem_columns.1 hc' with ⟨i, c, hc, hkeep, rfl⟩ | ⟨q, hq, -, rfl⟩
    · by_cases hold : c.type.isProperty = true
      · obtain ⟨p, q, -, hstores, hq, -⟩ := h.column (G := G) ht hc hold hkeep
        exact ⟨q, (ht.stores_iff.1 hstores).1, hq⟩
      · rw [h.column_other hc hold] at hproperty
        exact absurd hproperty hold
    · exact ⟨q, hq, newColumn_stores (ht.properties q hq) rfl rfl rfl _⟩
  · cases hfind : (objectSchemaOf n T primaryKey).propertyForName q.name with
    | none =>
      exact ⟨_, h.mem_columns.2 (.inr ⟨q, hq, hfind, rfl⟩),
        newColumn_stores (ht.properties q hq) rfl rfl rfl _⟩
    | some p =>
      obtain ⟨hname, hp | hp⟩ := ObjectSchema.mem_of_propertyForName hfind
      · obtain ⟨c, hc, hreads, -⟩ := mem_objectSchemaOf hp
        have hstores : t.Stores p q := ht.stores_iff.2 ⟨hq, hname.symm⟩
        have hkeep : p.tableColumn ∉ removals.map getRemovedColumn := by
          intro hi
          obtain ⟨p', hp', hdrops, hcolumn⟩ := h.mem_removed.1 hi
          obtain rfl : p' = p :=
            (sorted_objectSchemaOf n primaryKey T).inj hp' hp hcolumn
          exact drops_iff.1 hdrops q hstores
        obtain ⟨p', q', hreads', hq', hcolumn, -⟩ := h.column (G := G) ht hc hreads.isProperty hkeep
        have hqq : q' = q := by
          have hsame : t.Stores p q' := by
            unfold ObjectSchema.Stores at hq' ⊢
            rwa [← hreads.name, hreads'.name]
          exact hsame.unique hstores
        exact ⟨_, h.mem_columns.2 (.inl ⟨_, c, hc, hkeep, rfl⟩), hqq ▸ hcolumn⟩
      · cases hp

/-- **The table has the indexes of the program.** -/
theorem TableRun.indexed (ht : t.Storable L)
    (h : TableRun (objectSchemaOf n T primaryKey) t made again removals)
    (hlast : TableRun.IndexesLast (objectSchemaOf n T primaryKey) t made again) :
    (TableRun.table G T made again removals).Indexed t := by
  intro c' hc' p hp hstores
  rcases h.mem_columns.1 hc' with ⟨i, c, hc, hkeep, rfl⟩ | ⟨q, hq, -, rfl⟩
  · have hold : c.type.isProperty = true := by
      by_contra hnot
      rw [h.column_other hc hnot] at hstores
      exact hnot hstores.isProperty
    obtain ⟨p', q, -, hq, hstores', hindex, -⟩ := h.column (G := G) ht hc hold hkeep
    rw [hindex hlast, ht.eq_of_stores (ht.stores_iff.1 hq).1 hp hstores' hstores]
  · obtain rfl := ht.eq_of_stores hq hp
      (newColumn_stores (ht.properties q hq) rfl rfl rfl _) hstores
    exact (ht.properties q hq).createsIndex

theorem TableRun.nodup_added (ht : t.Storable L)
    (h : TableRun (objectSchemaOf n T primaryKey) t made again removals) :
    (((made ++ again).filterMap added).map Property.name).Nodup := by
  have hnone : ∀ changes : List SchemaChange, (∀ c ∈ changes, added c = none) →
      changes.filterMap added = [] := fun changes hall => List.filterMap_eq_nil_iff.2 hall
  have hagain : again.filterMap added = [] := by
    refine hnone _ fun c hc => ?_
    have hindex := (h.indexes c hc).2
    cases c <;> first | rfl | cases hindex
  have hchanges : ((tableChanges (objectSchemaOf n T primaryKey) t).filterMap added).Sublist
      t.persistedProperties := by
    unfold tableChanges
    rw [List.filterMap_append, List.filterMap_append, hnone, hnone]
    · rw [List.nil_append, List.nil_append, List.filterMap_map]
      have hsome : added ∘ addProperty (objectSchemaOf n T primaryKey) = some := rfl
      rw [hsome, List.filterMap_some]
      exact List.filter_sublist
    · intro c hc
      split at hc
      · rw [List.mem_singleton.1 hc]
        rfl
      · cases hc
    · intro c hc
      obtain ⟨p, -, hpc⟩ := List.mem_flatMap.1 hc
      rcases mem_propertyChanges hpc with rfl | ⟨q, -, rfl⟩ | rfl | rfl | rfl | rfl <;> rfl
  rw [List.filterMap_append, hagain, List.append_nil, ((h.perm.filterMap _).map _).nodup_iff]
  refine ht.persisted_names.sublist (List.Sublist.map _ (List.Sublist.trans ?_ hchanges))
  exact List.filter_sublist.filterMap _

/-- **A plain table stays one.** -/
theorem TableRun.plain (ht : t.Storable L)
    (h : TableRun (objectSchemaOf n T primaryKey) t made again removals) (hplain : T.Plain) :
    (TableRun.table G T made again removals).Plain := by
  have hproperty : ∀ {i : Nat} {c : Column V}, T.columns[i]? = some c →
      c.type.isProperty = true := fun hc => hplain.properties _ (List.mem_of_getElem? hc)
  constructor
  · intro c' hc'
    rcases h.mem_columns.1 hc' with ⟨i, c, hc, hkeep, rfl⟩ | ⟨q, hq, -, rfl⟩
    · obtain ⟨_, _, -, -, hstores, -⟩ := h.column (G := G) ht hc (hproperty hc) hkeep
      exact hstores.isProperty
    · exact (newColumn_stores (ht.properties q hq) rfl rfl rfl _).isProperty
  · have hname : ∀ (i : Nat) (c : Column V), T.columns[i]? = some c →
        i ∉ removals.map getRemovedColumn →
        (columnAfter G T.size (changesAt i made ++ changesAt i again) c).name = c.name := by
      intro i c hc hkeep
      obtain ⟨p, q, hreads, hq, hstores, -⟩ := h.column (G := G) ht hc (hproperty hc) hkeep
      rw [hstores.name, (ht.stores_iff.1 hq).2, hreads.name]
    unfold TableRun.table
    rw [List.map_append, List.nodup_append]
    refine ⟨ListEdits.nodup_map_keep hplain.names fun i c' hi hkeep => ?_, ?_, ?_⟩
    · rw [ListEdits.getElem?_modifyAll, Option.map_eq_some_iff] at hi
      obtain ⟨c, hc, rfl⟩ := hi
      refine ⟨c, hc, ?_⟩
      rw [← hname i c hc hkeep, ← TableRun.changesAt_append]
      rfl
    · rw [List.map_map]
      exact h.nodup_added ht
    · -- A new column is for a property that no old column has the name of.
      intro name hold name' hnew heq
      obtain ⟨c', hc', rfl⟩ := List.mem_map.1 hold
      obtain ⟨c, hc, rfl⟩ := List.mem_map.1 hnew
      obtain ⟨q, hq, rfl⟩ := List.mem_map.1 hc
      obtain ⟨-, hmissing⟩ := (h.mem_added q).1 hq
      obtain ⟨i, hi, hkeep⟩ := ListEdits.mem_keep.1 hc'
      rw [ListEdits.getElem?_modifyAll, Option.map_eq_some_iff] at hi
      obtain ⟨c, hc, rfl⟩ := hi
      obtain ⟨p, hp, hpname, -⟩ := exists_mem_objectSchemaOf n primaryKey hc (hproperty hc)
      have hfound := ObjectSchema.propertyForName_isSome.2 ⟨p, hpname, .inl hp⟩
      have hcq : c.name = q.name := by
        rw [← hname i c hc hkeep, ← TableRun.changesAt_append]
        exact heq
      rw [hcq, hmissing] at hfound
      cases hfound

structure Column.FitsIn (c : Column V) (p : Property) : Prop where
  name : c.name = p.name
  isProperty : c.type.isProperty = true
  type : ∃ type, fromCoreType c.type = some type ∧ type.base = p.type.base ∧
    type.array = p.type.array ∧ (type.nullable = true → p.type.nullable = true)
  objectType : c.type.objectType = p.objectType

def Table.KeepsValues (old new : Table V) (t : ObjectSchema) : Prop :=
  new.size = old.size ∧ ∀ p ∈ t.persistedProperties, ∀ c ∈ old.columns, c.FitsIn p →
    ∃ c' ∈ new.columns, c'.Stores p ∧ ∀ row < old.size, c'.cells row = c.cells row

/-- **The table keeps its values.** -/
theorem TableRun.keepsValues (ht : t.Storable L)
    (h : TableRun (objectSchemaOf n T primaryKey) t made again removals) :
    T.KeepsValues (TableRun.table G T made again removals) t := by
  refine ⟨rfl, fun q hq c hc hfits => ?_⟩
  obtain ⟨i, hi⟩ := List.getElem?_of_mem hc
  have hkeep : i ∉ removals.map getRemovedColumn := by
    intro hremoved
    obtain ⟨p, hp, hdrops, rfl⟩ := h.mem_removed.1 hremoved
    obtain ⟨c', hc', hreads, -⟩ := mem_objectSchemaOf hp
    rw [hi, Option.some.injEq] at hc'
    subst hc'
    exact drops_iff.1 hdrops q (ht.stores_iff.2 ⟨hq, hfits.name.symm.trans hreads.name⟩)
  obtain ⟨p, q', hreads, hq', hstores, -, hcells⟩ :=
    h.column (G := G) ht hi hfits.isProperty hkeep
  obtain rfl : q' = q :=
    hq'.unique (ht.stores_iff.2 ⟨hq, hfits.name.symm.trans hreads.name⟩)
  obtain ⟨type, htype, hbase, harray, hnull⟩ := hfits.type
  obtain rfl : type = p.type := Option.some.inj (htype.symm.trans hreads.type)
  have hretyped : ¬ p.Retyped q' := by
    unfold Property.Retyped
    push Not
    exact ⟨hbase, hreads.objectType.symm.trans hfits.objectType, harray⟩
  exact ⟨_, h.mem_columns.2 (.inl ⟨i, c, hi, hkeep, rfl⟩), hstores, hcells hretyped hnull⟩

end After

/-! ## New tables -/

theorem keyColumn_stores (ht : t.Storable L) {pk : Property} (hpk : pk ∈ t.persistedProperties)
    (hprimary : pk.isPrimary = true) :
    (keyColumn (V := V) G pk).Stores pk ∧ pk.requiresIndex = true := by
  have hstorable := ht.properties pk hpk
  have hindex : pk.requiresIndex = true := by simp [Property.requiresIndex, hprimary]
  obtain ⟨hindexable, harray⟩ := hstorable.index hindex
  have hobject : pk.type.base ≠ .object := by
    intro hobject
    simp [Property.typeIsIndexable, hobject] at hindexable
  obtain ⟨type, htype⟩ := Option.isSome_iff_exists.1 (hstorable.toCoreType hobject)
  have hcolumn : pk.columnType = some (.value type pk.type.nullable) := by
    rw [Property.columnType_value htype, harray]
    rfl
  obtain ⟨h1, h2, h3⟩ := fromCoreType_columnType hstorable hcolumn
  have hkey : (keyColumn (V := V) G pk).type = .value type pk.type.nullable := by
    simp only [keyColumn, htype, Option.getD_some]
  exact ⟨⟨rfl, hkey ▸ h1, hkey ▸ h2, hkey ▸ h3⟩, hindex⟩

theorem exists_firstColumns (ht : t.Storable L) {s : ClassState V} (hs : s.table = none)
    (hkey : s.primaryKey = "") :
    ∃ first : List (Column V), tableCreated G t s = ⟨some ⟨0, first⟩, t.primaryKey⟩ ∧
      (∀ c ∈ first, ∃ p ∈ t.persistedProperties, c.Stores p ∧ c.searchIndex = p.requiresIndex) ∧
      (∀ p ∈ t.persistedProperties, p ∈ initialProperties (Core.enableSync G) t ∨
        ∃ c ∈ first, c.Stores p) ∧
      (first.map Column.name ++
        (initialProperties (Core.enableSync G) t).map Property.name).Nodup := by
  have hnames : ((initialProperties (Core.enableSync G) t).map Property.name).Nodup :=
    ht.persisted_names.sublist (List.filter_sublist.map _)
  have hall : Core.enableSync G = false → ∀ p ∈ t.persistedProperties,
      p ∈ initialProperties (Core.enableSync G) t := by
    intro hsync p hp
    exact List.mem_filter.2 ⟨hp, by rw [hsync]; rfl⟩
  unfold tableCreated
  by_cases hsync : Core.enableSync G = true
  · rw [if_pos hsync]
    cases hpk : t.primaryKeyProperty with
    | some pk =>
      obtain ⟨hmem, hname⟩ := ht.mem_of_primaryKeyProperty hpk
      have hprimary := (ht.primary pk hmem).2 hname
      obtain ⟨hstores, hindex⟩ := keyColumn_stores (G := G) ht hmem hprimary
      refine ⟨[keyColumn G pk], by simp [hs, hname], ?_, fun p hp => ?_,
        List.nodup_cons.2 ⟨?_, hnames⟩⟩
      · intro c hc
        obtain rfl := List.mem_singleton.1 hc
        exact ⟨pk, hmem, hstores, hindex.symm⟩
      · by_cases hpp : p.isPrimary = true
        · have hsame : some p = some pk := by
            rw [← ht.propertyForName hp, ← ht.propertyForName hmem, hname, (ht.primary p hp).1 hpp]
          exact .inr ⟨_, List.mem_singleton_self _, Option.some.inj hsame ▸ hstores⟩
        · exact .inl (List.mem_filter.2 ⟨hp, by simp [hpp]⟩)
      · -- The primary key is not among the initial properties.
        intro hmem'
        obtain ⟨p, hp, hpname⟩ := List.mem_map.1 hmem'
        obtain ⟨hp, hinitial⟩ := List.mem_filter.1 hp
        have hpname' : p.name = pk.name := hpname
        rw [hsync, (ht.primary p hp).2 (hpname'.trans hname)] at hinitial
        cases hinitial
    | none =>
      have hnone : t.primaryKey = "" := by
        rw [← ht.primaryKeyProperty, hpk]
        rfl
      refine ⟨[], by simp [hs, hkey, hnone], by simp, fun p hp => .inl ?_, hnames⟩
      have hpp : ¬ p.isPrimary = true := by
        rw [ht.primary p hp, hnone]
        exact (ht.properties p hp).name_ne
      exact List.mem_filter.2 ⟨hp, by simp [hpp]⟩
  · rw [if_neg hsync]
    exact ⟨[], by simp [hs], by simp, fun p hp => .inl (hall (by simpa using hsync) p hp), hnames⟩

theorem tableCreated_of_isSome {s : ClassState V} (hs : s.table.isSome)
    (hkey : s.primaryKey = t.primaryKey) : tableCreated G t s = s := by
  obtain ⟨T, hT⟩ := Option.isSome_iff_exists.1 hs
  obtain ⟨table, key⟩ := s
  subst hT hkey
  unfold tableCreated
  split
  · split
    · rfl
    · rfl
  · rfl

theorem ok_addTable (ht : t.Storable L) (s : ClassState V) {L' : String → Prop} :
    Ok G L' (addTable t) s := by
  intro _ pk hpk
  obtain ⟨hmem, hname⟩ := ht.mem_of_primaryKeyProperty hpk
  obtain ⟨hindexable, -⟩ := (ht.properties pk hmem).index
    (by simp [Property.requiresIndex, (ht.primary pk hmem).2 hname])
  refine (ht.properties pk hmem).toCoreType ?_
  intro hobject
  simp [Property.typeIsIndexable, hobject] at hindexable

/-- **A new table holds its class**, with all indexes and no rows. -/
theorem newTable (ht : t.Storable L) {s : ClassState V} (hs : s.table = none)
    (hkey : s.primaryKey = "") :
    Ok G L (addInitialProperties t) (effect G (addTable t) s) ∧
    ∃ T, Local.result (effect G) [addTable t, addInitialProperties t] s =
        ⟨some T, t.primaryKey⟩ ∧ T.size = 0 ∧ T.Holds t.primaryKey t ∧ T.Indexed t ∧
      T.Plain := by
  obtain ⟨first, hfirst, hstores, hcomplete, hnames⟩ := exists_firstColumns (G := G) ht hs hkey
  have hinitial : ∀ p ∈ initialProperties (Core.enableSync G) t, p ∈ t.persistedProperties :=
    fun p hp => List.mem_of_mem_filter hp
  have hcreated : effect G (addTable t) s = ⟨some ⟨0, first⟩, t.primaryKey⟩ := hfirst
  constructor
  · rw [hcreated]
    exact ⟨rfl, fun p hp => (ht.properties p (hinitial p hp)).insertable⟩
  have hall : ∀ c ∈ first ++ (initialProperties (Core.enableSync G) t).map
      (·.newColumn (Core.defaultValue G)), ∃ p ∈ t.persistedProperties, c.Stores p := by
    intro c hc
    rcases List.mem_append.1 hc with hc | hc
    · obtain ⟨p, hp, hp', -⟩ := hstores c hc
      exact ⟨p, hp, hp'⟩
    · obtain ⟨p, hp, rfl⟩ := List.mem_map.1 hc
      exact ⟨p, hinitial p hp, newColumn_stores (ht.properties p (hinitial p hp)) rfl rfl rfl _⟩
  refine ⟨⟨0, first ++ (initialProperties (Core.enableSync G) t).map
    (·.newColumn (Core.defaultValue G))⟩, ?_, rfl, ⟨fun c hc _ => hall c hc, fun p hp => ?_, rfl⟩,
    ?_, fun c hc => ?_, ?_⟩
  · rw [Local.result_cons, hcreated]
    rfl
  · rcases hcomplete p hp with hp' | ⟨c, hc, hp'⟩
    · exact ⟨_, List.mem_append_right _ (List.mem_map.2 ⟨p, hp', rfl⟩),
        newColumn_stores (ht.properties p hp) rfl rfl rfl _⟩
    · exact ⟨c, List.mem_append_left _ hc, hp'⟩
  · intro c hc p hp hp'
    rcases List.mem_append.1 hc with hc | hc
    · obtain ⟨q, hq, hq', hindex⟩ := hstores c hc
      obtain rfl := ht.eq_of_stores hq hp hq' hp'
      exact hindex
    · obtain ⟨q, hq, rfl⟩ := List.mem_map.1 hc
      obtain rfl := ht.eq_of_stores (hinitial q hq) hp
        (newColumn_stores (ht.properties q (hinitial q hq)) rfl rfl rfl _) hp'
      exact (ht.properties q hp).createsIndex
  · obtain ⟨p, -, hp⟩ := hall c hc
    exact hp.isProperty
  · rw [List.map_append, List.map_map]
    exact hnames

end OverwatchTeams.ObjectStore
