import OverwatchTeams.ObjectStore.Schema

/-!
# What a comparison finds

`Schema.compare` walks the two schemas together and moves removals around while
it collects. Read class by class the result is simple: a class that is missing
from the file is added and gets its properties, and a class the file has gets the
changes of `tableChanges`, its removals last (`compare_shape`). The comparison
finds nothing exactly when the file has every class of the program with the same
columns (`compare_eq_nil_iff`).
-/

namespace OverwatchTeams.ObjectStore

variable {partition : Partition SchemaChange} {existing target : Schema}

open SchemaChange

/-! ## The order of the changes -/

def Descending (removals : List SchemaChange) : Prop :=
  removals.Pairwise fun a b => a.getRemovedColumn ≥ b.getRemovedColumn

theorem descending_mergeSort (l : List SchemaChange) :
    Descending (l.mergeSort fun a b => a.getRemovedColumn ≥ b.getRemovedColumn) := by
  refine (List.pairwise_mergeSort ?_ ?_ l).imp (by simp)
  · intro a b c h1 h2
    simp only [ge_iff_le, decide_eq_true_eq] at h1 h2 ⊢
    omega
  · intro a b
    simp only [ge_iff_le, Bool.or_eq_true, decide_eq_true_eq]
    omega

/-- The changes found so far: those of tables in front, then changes of columns, then
the removals, and behind them the new tables that came after the last one compared. -/
structure Shape (tables raw changes : List SchemaChange) : Prop where
  parts : ∃ kept removals initial, changes = tables ++ (kept ++ (removals ++ initial)) ∧
    (kept ++ (removals ++ initial)).Perm raw ∧
    (∀ c ∈ kept, c.isNotRemoveProperty) ∧ (∀ c ∈ removals, ¬ c.isNotRemoveProperty) ∧
    Descending removals ∧ ∀ c ∈ initial, ∃ object, c = addInitialProperties object

theorem Shape.perm {tables raw changes : List SchemaChange} (h : Shape tables raw changes) :
    changes.Perm (tables ++ raw) := by
  obtain ⟨_, _, _, rfl, hperm, -⟩ := h.parts
  exact hperm.append_left tables

theorem Shape.init (tables : List SchemaChange) : Shape tables [] tables :=
  ⟨[], [], [], by simp, .refl _, by simp, by simp, List.Pairwise.nil, by simp⟩

theorem Shape.initial {tables raw changes : List SchemaChange} (h : Shape tables raw changes)
    (object : ObjectSchema) :
    Shape tables (raw ++ [addInitialProperties object])
      (changes ++ [addInitialProperties object]) := by
  obtain ⟨kept, removals, initial, rfl, hperm, hkept, hremovals, hsorted, hinitial⟩ := h.parts
  refine ⟨kept, removals, initial ++ [addInitialProperties object], by simp, ?_, hkept, hremovals,
    hsorted, ?_⟩
  · simpa using hperm.append_right [addInitialProperties object]
  · intro c hc
    rcases List.mem_append.1 hc with hc | hc
    · exact hinitial c hc
    · exact ⟨object, by simpa using hc⟩

/-- The tables in front are not moved, everything else is sorted into place. -/
theorem Shape.moveRemovals {tables raw changes new : List SchemaChange}
    (h : Shape tables raw changes) (htables : ∀ c ∈ tables, c.isNotRemoveProperty) :
    Shape tables (raw ++ new) (moveRemovals partition (changes ++ new)) := by
  obtain ⟨kept, removals, initial, rfl, hperm, -⟩ := h.parts
  let rest := kept ++ (removals ++ initial) ++ new
  have hfront := partition.front isNotRemoveProperty rest
  have hback := partition.back isNotRemoveProperty (tables ++ rest)
  have hbackEq : (tables ++ rest).filter (fun c => !c.isNotRemoveProperty) =
      rest.filter fun c => !c.isNotRemoveProperty := by
    rw [List.filter_append, List.filter_eq_nil_iff.2 (by simpa using htables), List.nil_append]
  rw [hbackEq] at hback
  have hsort := List.mergeSort_perm (partition.run isNotRemoveProperty (tables ++ rest)).2
    fun a b => a.getRemovedColumn ≥ b.getRemovedColumn
  refine ⟨(partition.run isNotRemoveProperty rest).1, _, [], ?_, ?_, ?_, ?_,
    descending_mergeSort (partition.run isNotRemoveProperty (tables ++ rest)).2, by simp⟩
  · have hlead := partition.leading isNotRemoveProperty tables rest htables
    rw [List.append_assoc tables _ new, List.append_nil,
      ← List.append_assoc tables (partition.run isNotRemoveProperty rest).1, ← hlead]
    rfl
  · rw [List.append_nil]
    have hsplit := List.filter_append_perm isNotRemoveProperty rest
    exact ((hfront.append (hsort.trans hback)).trans hsplit).trans (hperm.append_right new)
  · intro c hc
    exact (List.mem_filter.1 (hfront.mem_iff.1 hc)).2
  · intro c hc
    have := (List.mem_filter.1 ((hsort.trans hback).mem_iff.1 hc)).2
    simpa using this

/-! ## Class by class -/

namespace Schema

/-- The changes of the columns of one class of the program. -/
def changesFor (existing : Schema) (object : ObjectSchema) : List SchemaChange :=
  match existing.find object.name with
  | some e => tableChanges e object
  | none => [addInitialProperties object]

/-- The first part of `compare`. -/
def missing (existing target : Schema) (includeTableRemovals : Bool) : List SchemaChange :=
  (zipMatching target existing).flatMap (addMissing includeTableRemovals)

theorem lefts_zipMatching (he : existing.Distinct) (ht : target.Distinct) :
    MergeJoin.lefts (zipMatching target existing) =
      target.classes.map fun t => (t, existing.find t.name) := by
  rw [zipMatching, MergeJoin.walk_left ht.sorted he.sorted]
  simp only [find_eq]

theorem mem_missing_of_visit {visits : List (Option ObjectSchema × Option ObjectSchema)}
    {includeTableRemovals : Bool} {c : SchemaChange}
    (h : c ∈ visits.flatMap (addMissing includeTableRemovals)) :
    (∃ t, c = addTable t) ∨ ∃ e, c = removeTable e := by
  obtain ⟨⟨t, e⟩, -, hc⟩ := List.mem_flatMap.1 h
  cases t with
  | none =>
    cases e with
    | none => simp [addMissing] at hc
    | some e =>
      cases includeTableRemovals with
      | false => simp [addMissing] at hc
      | true => exact .inr ⟨e, by simpa [addMissing] using hc⟩
  | some t =>
    cases e with
    | none => exact .inl ⟨t, by simpa [addMissing] using hc⟩
    | some e => simp [addMissing] at hc

theorem missing_kept (existing target : Schema) (includeTableRemovals : Bool) :
    ∀ c ∈ missing existing target includeTableRemovals, c.isNotRemoveProperty := by
  intro c hc
  rcases mem_missing_of_visit hc with ⟨t, rfl⟩ | ⟨e, rfl⟩ <;> rfl

theorem missing_eq (he : existing.Distinct) (ht : target.Distinct) :
    missing existing target false =
      (target.classes.filter fun t => (existing.find t.name).isNone).map addTable := by
  have hvisits : ∀ visits : List (Option ObjectSchema × Option ObjectSchema),
      visits.flatMap (addMissing false) =
        ((MergeJoin.lefts visits).filter fun v => v.2.isNone).map fun v => addTable v.1 := by
    intro visits
    induction visits with
    | nil => rfl
    | cons v vs ih =>
      obtain ⟨t, e⟩ := v
      cases t with
      | none => cases e <;> simp [addMissing, ih]
      | some t => cases e <;> simp [addMissing, ih]
  rw [missing, hvisits, lefts_zipMatching he ht, List.filter_map, List.map_map]
  rfl

theorem foldl_modifyColumns (visits : List (Option ObjectSchema × Option ObjectSchema))
    (changes : List SchemaChange) :
    visits.foldl (modifyColumns partition) changes =
      (MergeJoin.lefts visits).foldl
        (fun changes v => modifyColumns partition changes (some v.1, v.2)) changes := by
  induction visits generalizing changes with
  | nil => rfl
  | cons v vs ih =>
    obtain ⟨t, e⟩ := v
    cases t with
    | none => exact ih changes
    | some t => exact ih _

/-- **The changes a comparison finds, in order.** -/
theorem compare_shape (partition : Partition SchemaChange) (he : existing.Distinct)
    (ht : target.Distinct) (includeTableRemovals : Bool) :
    Shape (missing existing target includeTableRemovals)
      (target.classes.flatMap existing.changesFor)
      (compare partition existing target includeTableRemovals) := by
  have htables := missing_kept existing target includeTableRemovals
  show Shape _ _ ((zipMatching target existing).foldl (modifyColumns partition)
    (missing existing target includeTableRemovals))
  rw [foldl_modifyColumns, lefts_zipMatching he ht, List.foldl_map]
  generalize missing existing target includeTableRemovals = tables at htables ⊢
  -- The classes compared so far have given `raw`.
  have hfold : ∀ (ts : List ObjectSchema) (raw changes : List SchemaChange),
      Shape tables raw changes →
        Shape tables (raw ++ ts.flatMap existing.changesFor)
          (ts.foldl
            (fun changes t => modifyColumns partition changes (some t, existing.find t.name))
            changes) := by
    intro ts
    induction ts with
    | nil => intro raw changes h; simpa using h
    | cons t ts ih =>
      intro raw changes h
      rw [List.flatMap_cons, ← List.append_assoc, List.foldl_cons]
      apply ih
      unfold changesFor
      cases existing.find t.name with
      | none => exact h.initial t
      | some e => exact h.moveRemovals htables
  simpa using hfold target.classes [] tables (.init tables)

theorem compare_perm (partition : Partition SchemaChange) (he : existing.Distinct)
    (ht : target.Distinct) (includeTableRemovals : Bool) :
    (compare partition existing target includeTableRemovals).Perm
      (missing existing target includeTableRemovals ++
        target.classes.flatMap existing.changesFor) :=
  (compare_shape partition he ht includeTableRemovals).perm

end Schema

/-! ### One property -/

def ObjectSchema.Stores (target : ObjectSchema) (current p : Property) : Prop :=
  target.propertyForName current.name = some p ∧ target.propertyIsComputed p = false

theorem ObjectSchema.Stores.unique {t : ObjectSchema} {current p q : Property}
    (hp : t.Stores current p) (hq : t.Stores current q) : p = q :=
  Option.some.inj (hp.1.symm.trans hq.1)

/-- The column has an index if the property needs one, and no reason for one otherwise. -/
def Property.SameIndex (current p : Property) : Prop :=
  if p.requiresIndex then current.isIndexed = true else current.requiresIndex = false

theorem nullabilityChanges_cases (e : ObjectSchema) (current p : Property) :
    (current.type.nullable = p.type.nullable ∧ nullabilityChanges e current p = []) ∨
    (current.type.nullable = true ∧ p.type.nullable = false ∧
      nullabilityChanges e current p = [makePropertyRequired e current]) ∨
    (current.type.nullable = false ∧ p.type.nullable = true ∧
      nullabilityChanges e current p = [makePropertyNullable e current]) := by
  unfold nullabilityChanges
  cases current.type.nullable <;> cases p.type.nullable <;> simp

theorem indexChanges_cases (e : ObjectSchema) (current p : Property) :
    (current.SameIndex p ∧ indexChanges e current p = []) ∨
    (p.requiresIndex = true ∧ current.isIndexed = false ∧
      indexChanges e current p = [addIndex e current]) ∨
    (p.requiresIndex = false ∧ current.requiresIndex = true ∧
      indexChanges e current p = [removeIndex e current]) := by
  unfold indexChanges Property.SameIndex
  cases p.requiresIndex with
  | true => cases current.isIndexed <;> simp
  | false => cases current.requiresIndex <;> simp

/-- **What a comparison finds about one column of the file.** -/
theorem propertyChanges_cases (e t : ObjectSchema) (current : Property) :
    ((∀ p, ¬ t.Stores current p) ∧ propertyChanges e t current = [removeProperty e current]) ∨
    (∃ p, t.Stores current p ∧ current.Retyped p ∧
      propertyChanges e t current = [changePropertyType e current p]) ∨
    (∃ p, t.Stores current p ∧ ¬ current.Retyped p ∧
      propertyChanges e t current =
        nullabilityChanges e current p ++ indexChanges e current p) := by
  unfold propertyChanges ObjectSchema.Stores
  cases hp : t.propertyForName current.name with
  | none => simp
  | some p =>
    by_cases hc : t.propertyIsComputed p
    · left
      refine ⟨?_, by simp [hc]⟩
      rintro q ⟨hq, hcq⟩
      rw [Option.some.inj hq] at hc
      rw [hc] at hcq
      cases hcq
    · by_cases hr : current.Retyped p
      · exact .inr (.inl ⟨p, ⟨rfl, by simpa using hc⟩, hr, by simp [hc, hr]⟩)
      · exact .inr (.inr ⟨p, ⟨rfl, by simpa using hc⟩, hr, by simp [hc, hr]⟩)

theorem mem_nullabilityChanges {e : ObjectSchema} {current p : Property} {c : SchemaChange}
    (h : c ∈ nullabilityChanges e current p) :
    c = makePropertyRequired e current ∨ c = makePropertyNullable e current := by
  rcases nullabilityChanges_cases e current p with ⟨-, hn⟩ | ⟨-, -, hn⟩ | ⟨-, -, hn⟩
  · rw [hn] at h; cases h
  · rw [hn] at h; exact .inl (List.mem_singleton.1 h)
  · rw [hn] at h; exact .inr (List.mem_singleton.1 h)

theorem mem_indexChanges {e : ObjectSchema} {current p : Property} {c : SchemaChange}
    (h : c ∈ indexChanges e current p) : c = addIndex e current ∨ c = removeIndex e current := by
  rcases indexChanges_cases e current p with ⟨-, hi⟩ | ⟨-, -, hi⟩ | ⟨-, -, hi⟩
  · rw [hi] at h; cases h
  · rw [hi] at h; exact .inl (List.mem_singleton.1 h)
  · rw [hi] at h; exact .inr (List.mem_singleton.1 h)

theorem mem_propertyChanges {e t : ObjectSchema} {current : Property} {c : SchemaChange}
    (h : c ∈ propertyChanges e t current) :
    c = removeProperty e current ∨
    (∃ p, t.Stores current p ∧ c = changePropertyType e current p) ∨
    c = makePropertyRequired e current ∨ c = makePropertyNullable e current ∨
    c = addIndex e current ∨ c = removeIndex e current := by
  rcases propertyChanges_cases e t current with ⟨-, heq⟩ | ⟨q, hq, -, heq⟩ | ⟨q, -, -, heq⟩
  · exact .inl (List.mem_singleton.1 (heq ▸ h))
  · exact .inr (.inl ⟨q, hq, List.mem_singleton.1 (heq ▸ h)⟩)
  · rw [heq, List.mem_append] at h
    rcases h with h | h
    · have := mem_nullabilityChanges h
      tauto
    · have := mem_indexChanges h
      tauto

theorem object_of_mem_propertyChanges {e t : ObjectSchema} {p : Property} {c : SchemaChange}
    (h : c ∈ propertyChanges e t p) : c.object = e := by
  rcases mem_propertyChanges h with rfl | ⟨q, -, rfl⟩ | rfl | rfl | rfl | rfl <;> rfl

theorem mem_tableChanges {e t : ObjectSchema} {c : SchemaChange} :
    c ∈ tableChanges e t ↔
      (∃ current ∈ e.persistedProperties, c ∈ propertyChanges e t current) ∨
      (e.primaryKey ≠ t.primaryKey ∧ c = changePrimaryKey e t.primaryKeyProperty) ∨
      ∃ p ∈ t.persistedProperties, e.propertyForName p.name = none ∧ c = addProperty e p := by
  have hkey : c ∈ (if e.primaryKey ≠ t.primaryKey then
      [changePrimaryKey e t.primaryKeyProperty] else []) ↔
      e.primaryKey ≠ t.primaryKey ∧ c = changePrimaryKey e t.primaryKeyProperty := by
    split
    · next h => simp [h]
    · next h => simp [h]
  unfold tableChanges
  rw [List.mem_append, List.mem_append, List.mem_flatMap, hkey, or_assoc]
  simp only [List.mem_map, List.mem_filter, Option.isNone_iff_eq_none, and_assoc, eq_comm (b := c)]

theorem object_of_mem_tableChanges {e t : ObjectSchema} {c : SchemaChange}
    (h : c ∈ tableChanges e t) : c.object = e := by
  rcases mem_tableChanges.1 h with ⟨current, -, h⟩ | ⟨-, rfl⟩ | ⟨p, -, -, rfl⟩
  · exact object_of_mem_propertyChanges h
  · rfl
  · rfl

def SchemaChange.isTableChange : SchemaChange → Bool
  | addTable _ | removeTable _ | addInitialProperties _ => true
  | _ => false

theorem isTableChange_of_mem_tableChanges {e t : ObjectSchema} {c : SchemaChange}
    (h : c ∈ tableChanges e t) : c.isTableChange = false := by
  rcases mem_tableChanges.1 h with ⟨current, -, h⟩ | ⟨-, rfl⟩ | ⟨p, -, -, rfl⟩
  · rcases mem_propertyChanges h with rfl | ⟨q, -, rfl⟩ | rfl | rfl | rfl | rfl <;> rfl
  · rfl
  · rfl

namespace Schema

theorem object_of_mem_changesFor {o : ObjectSchema} {c : SchemaChange}
    (h : c ∈ existing.changesFor o) : c.object.name = o.name := by
  unfold changesFor at h
  split at h
  · next e he => rw [object_of_mem_tableChanges h]; exact (find_eq_some he).2
  · rw [List.mem_singleton.1 h]; rfl

def about (n : String) (changes : List SchemaChange) : List SchemaChange :=
  changes.filter fun c => c.object.name = n

theorem about_changesFor (existing : Schema) (ht : target.Distinct) {t : ObjectSchema}
    (hmem : t ∈ target.classes) :
    about t.name (target.classes.flatMap existing.changesFor) = existing.changesFor t :=
  ht.sorted.filter_flatMap (fun c : SchemaChange => c.object.name)
    (fun _ _ _ hc => object_of_mem_changesFor hc) hmem

theorem about_missing_of_find (he : existing.Distinct) (ht : target.Distinct) {n : String}
    (h : (existing.find n).isSome) : about n (missing existing target false) = [] := by
  unfold about
  rw [missing_eq he ht, List.filter_eq_nil_iff]
  intro c hc
  obtain ⟨t, hmem, rfl⟩ := List.mem_map.1 hc
  have hnone := (List.mem_filter.1 hmem).2
  intro hname
  obtain rfl : t.name = n := of_decide_eq_true hname
  rw [Option.isNone_iff_eq_none.1 hnone] at h
  cases h

theorem about_missing_of_none (he : existing.Distinct) (ht : target.Distinct) {t : ObjectSchema}
    (hmem : t ∈ target.classes) (hfind : existing.find t.name = none) :
    about t.name (missing existing target false) = [addTable t] := by
  have hsub : MergeJoin.Sorted ObjectSchema.name
      (target.classes.filter fun o => (existing.find o.name).isNone) := ht.sorted.filter _
  rw [missing_eq he ht, List.map_eq_flatMap]
  exact hsub.filter_flatMap (fun c : SchemaChange => c.object.name)
    (f := fun o => [addTable o]) (by simp [object]) (x := t)
    (List.mem_filter.2 ⟨hmem, by rw [hfind]; rfl⟩)

/-- The missing tables come first. -/
theorem compare_eq_append (partition : Partition SchemaChange) (he : existing.Distinct)
    (ht : target.Distinct) :
    ∃ rest, compare partition existing target false = missing existing target false ++ rest := by
  obtain ⟨kept, removals, initial, heq, -⟩ := (compare_shape partition he ht false).parts
  exact ⟨_, heq⟩

theorem about_append (n : String) (xs ys : List SchemaChange) :
    about n (xs ++ ys) = about n xs ++ about n ys := List.filter_append ..

/-- **The changes about a class of the file**: those of `tableChanges` in some order,
then the removals from the last column down. -/
theorem compare_existing (partition : Partition SchemaChange) (he : existing.Distinct)
    (ht : target.Distinct) {t e : ObjectSchema} (hmem : t ∈ target.classes)
    (hfind : existing.find t.name = some e) :
    ∃ kept removals, about t.name (compare partition existing target false) = kept ++ removals ∧
      kept.Perm ((tableChanges e t).filter isNotRemoveProperty) ∧
      removals.Perm ((tableChanges e t).filter fun c => !c.isNotRemoveProperty) ∧
      Descending removals := by
  obtain ⟨kept, removals, initial, heq, hperm, hkept, hremovals, hsorted, hinitial⟩ :=
    (compare_shape partition he ht false).parts
  have hraw : (about t.name (kept ++ (removals ++ initial))).Perm (tableChanges e t) := by
    have hchanges : existing.changesFor t = tableChanges e t := by
      simp only [changesFor, hfind]
    rw [← hchanges, ← about_changesFor existing ht hmem]
    exact hperm.filter _
  have hnoInitial : about t.name initial = [] := by
    rw [about, List.filter_eq_nil_iff]
    intro c hc hname
    obtain ⟨o, rfl⟩ := hinitial c hc
    have hin : addInitialProperties o ∈ about t.name (kept ++ (removals ++ initial)) := by
      simp only [about, List.filter_append, List.mem_append]
      exact .inr (.inr (List.mem_filter.2 ⟨hc, hname⟩))
    cases isTableChange_of_mem_tableChanges (hraw.mem_iff.1 hin)
  have hsplit : about t.name (kept ++ (removals ++ initial)) =
      about t.name kept ++ about t.name removals := by
    rw [about, List.filter_append, List.filter_append]
    show about t.name kept ++ (about t.name removals ++ about t.name initial) = _
    rw [hnoInitial, List.append_nil]
  rw [hsplit] at hraw
  have hk : ∀ c ∈ about t.name kept, c.isNotRemoveProperty := fun c hc =>
    hkept c (List.mem_of_mem_filter hc)
  have hr : ∀ c ∈ about t.name removals, ¬ c.isNotRemoveProperty := fun c hc =>
    hremovals c (List.mem_of_mem_filter hc)
  refine ⟨about t.name kept, about t.name removals, ?_, ?_, ?_, hsorted.filter _⟩
  · rw [heq, about, List.filter_append]
    show about t.name (missing existing target false) ++ about t.name _ = _
    rw [about_missing_of_find he ht (by rw [hfind]; rfl), List.nil_append, hsplit]
  · have h := hraw.filter isNotRemoveProperty
    rwa [List.filter_append, List.filter_eq_self.2 hk, List.filter_eq_nil_iff.2 hr,
      List.append_nil] at h
  · have h := hraw.filter fun c => !c.isNotRemoveProperty
    rwa [List.filter_append, List.filter_eq_nil_iff.2 (by simpa using hk),
      List.filter_eq_self.2 (by simpa using hr), List.nil_append] at h

/-- **The changes about a class the file does not have**: its table, then its properties. -/
theorem compare_new (partition : Partition SchemaChange) (he : existing.Distinct)
    (ht : target.Distinct) {t : ObjectSchema} (hmem : t ∈ target.classes)
    (hfind : existing.find t.name = none) :
    about t.name (compare partition existing target false) =
      [addTable t, addInitialProperties t] := by
  obtain ⟨kept, removals, initial, heq, hperm, -⟩ :=
    (compare_shape partition he ht false).parts
  have hrest : about t.name (kept ++ (removals ++ initial)) = [addInitialProperties t] := by
    have h := hperm.filter fun c => c.object.name = t.name
    have hraw := about_changesFor existing ht hmem
    simp only [changesFor, hfind] at hraw
    rw [show (target.classes.flatMap existing.changesFor).filter (fun c => c.object.name = t.name) =
      [addInitialProperties t] from hraw] at h
    exact List.perm_singleton.1 h
  rw [heq, about, List.filter_append]
  show about t.name (missing existing target false) ++ about t.name _ = _
  rw [about_missing_of_none he ht hmem hfind, hrest, List.singleton_append]

theorem compare_other (partition : Partition SchemaChange) (he : existing.Distinct)
    (ht : target.Distinct) {n : String} (h : target.find n = none) :
    about n (compare partition existing target false) = [] := by
  rw [about, List.filter_eq_nil_iff]
  intro c hc
  rw [(compare_perm partition he ht false).mem_iff, List.mem_append, missing_eq he ht] at hc
  have hname : ∃ t ∈ target.classes, c.object.name = t.name := by
    rcases hc with hc | hc
    · obtain ⟨t, ht, rfl⟩ := List.mem_map.1 hc
      exact ⟨t, List.mem_of_mem_filter ht, rfl⟩
    · obtain ⟨t, ht, hc⟩ := List.mem_flatMap.1 hc
      exact ⟨t, ht, object_of_mem_changesFor hc⟩
  obtain ⟨t, hmem, hct⟩ := hname
  simpa [hct] using find_eq_none.1 h t hmem

end Schema

/-! ## Comparisons that find nothing -/

/-- A column of the file stores what a property of the program asks for. -/
def Property.SameStorage (current p : Property) : Prop :=
  current.type = p.type ∧ current.objectType = p.objectType

theorem sameStorage_iff {current p : Property} :
    current.SameStorage p ↔ ¬ current.Retyped p ∧ current.type.nullable = p.type.nullable := by
  unfold Property.SameStorage Property.Retyped
  obtain ⟨base, nullable, array⟩ := current.type
  obtain ⟨base', nullable', array'⟩ := p.type
  simp only [PropertyType.mk.injEq, not_or, ne_eq, not_not]
  tauto

/-- The table `existing` of the file can be used for `target` up to indexes: they have the
same columns and the same primary key. -/
structure SameTable (existing target : ObjectSchema) : Prop where
  columns : ∀ current ∈ existing.persistedProperties,
    ∃ p, target.Stores current p ∧ current.SameStorage p
  primaryKey : existing.primaryKey = target.primaryKey
  complete : ∀ p ∈ target.persistedProperties, (existing.propertyForName p.name).isSome

/-- The columns of `existing` have the indexes that `target` asks for. -/
def SameIndexes (existing target : ObjectSchema) : Prop :=
  ∀ current ∈ existing.persistedProperties, ∀ p, target.Stores current p → current.SameIndex p

def SchemaChange.isIndexChange : SchemaChange → Bool
  | addIndex _ _ | removeIndex _ _ => true
  | _ => false

theorem isIndexChange_of_mem_indexChanges {e : ObjectSchema} {current p : Property}
    {c : SchemaChange} (h : c ∈ indexChanges e current p) : c.isIndexChange := by
  rcases mem_indexChanges h with rfl | rfl <;> rfl

theorem propertyChanges_index_iff {e t : ObjectSchema} {current : Property} :
    (∀ c ∈ propertyChanges e t current, c.isIndexChange) ↔
      ∃ p, t.Stores current p ∧ current.SameStorage p := by
  rcases propertyChanges_cases e t current with ⟨hp, heq⟩ | ⟨p, hp, hr, heq⟩ | ⟨p, hp, hr, heq⟩
  · simp [heq, hp, isIndexChange]
  · simp only [heq, List.forall_mem_singleton, isIndexChange, Bool.false_eq_true, false_iff]
    rintro ⟨q, hq, hs⟩
    rw [hq.unique hp] at hs
    exact (sameStorage_iff.1 hs).1 hr
  · rw [heq, List.forall_mem_append, and_iff_left fun c => isIndexChange_of_mem_indexChanges]
    have hstorage : (∃ p, t.Stores current p ∧ current.SameStorage p) ↔
        current.type.nullable = p.type.nullable := by
      constructor
      · rintro ⟨q, hq, hs⟩
        rw [hp.unique hq]
        exact (sameStorage_iff.1 hs).2
      · intro hn
        exact ⟨p, hp, sameStorage_iff.2 ⟨hr, hn⟩⟩
    rw [hstorage]
    rcases nullabilityChanges_cases e current p with ⟨h, hn⟩ | ⟨h, h', hn⟩ | ⟨h, h', hn⟩
    · simp [hn, h]
    · simp [hn, h, h', isIndexChange]
    · simp [hn, h, h', isIndexChange]

theorem propertyChanges_eq_nil_iff {e t : ObjectSchema} {current : Property} :
    propertyChanges e t current = [] ↔
      (∃ p, t.Stores current p ∧ current.SameStorage p) ∧
        ∀ p, t.Stores current p → current.SameIndex p := by
  constructor
  · intro hnil
    have hstorage := (propertyChanges_index_iff (e := e)).1 (by rw [hnil]; simp)
    refine ⟨hstorage, fun p hp => ?_⟩
    rcases propertyChanges_cases e t current with ⟨-, heq⟩ | ⟨q, -, -, heq⟩ | ⟨q, hq, -, heq⟩
    · rw [hnil] at heq; cases heq
    · rw [hnil] at heq; cases heq
    · rw [hnil] at heq
      have hi := (List.append_eq_nil_iff.1 heq.symm).2
      rw [hp.unique hq]
      rcases indexChanges_cases e current q with ⟨h, -⟩ | ⟨-, -, h⟩ | ⟨-, -, h⟩
      · exact h
      · rw [hi] at h; cases h
      · rw [hi] at h; cases h
  · rintro ⟨⟨p, hp, hs⟩, hindex⟩
    have hi := hindex p hp
    have hs := sameStorage_iff.1 hs
    rcases propertyChanges_cases e t current with ⟨h, -⟩ | ⟨q, hq, hr, -⟩ | ⟨q, hq, -, heq⟩
    · exact absurd hp (h p)
    · rw [hq.unique hp] at hr
      exact absurd hr hs.1
    · obtain rfl := hq.unique hp
      rw [heq, List.append_eq_nil_iff]
      constructor
      · rw [nullabilityChanges, if_neg (by simpa using hs.2)]
      · unfold Property.SameIndex at hi
        unfold indexChanges
        split at hi
        · next h => rw [if_pos h, if_neg (by simp [hi])]
        · next h => rw [if_neg h, if_neg (by simp [hi])]

theorem tableChanges_index_iff {e t : ObjectSchema} :
    (∀ c ∈ tableChanges e t, c.isIndexChange) ↔ SameTable e t := by
  constructor
  · intro h
    refine ⟨fun current hc => ?_, ?_, fun p hp => ?_⟩
    · exact (propertyChanges_index_iff (e := e)).1 fun c hcc =>
        h c (mem_tableChanges.2 (.inl ⟨current, hc, hcc⟩))
    · by_contra hne
      have := h _ (mem_tableChanges.2 (.inr (.inl ⟨hne, rfl⟩)))
      cases this
    · rw [Option.isSome_iff_ne_none]
      intro hnone
      have := h _ (mem_tableChanges.2 (.inr (.inr ⟨p, hp, hnone, rfl⟩)))
      cases this
  · intro h c hc
    rcases mem_tableChanges.1 hc with ⟨current, hcur, hc⟩ | ⟨hne, -⟩ | ⟨p, hp, hnone, -⟩
    · exact propertyChanges_index_iff.2 (h.columns current hcur) c hc
    · exact absurd h.primaryKey hne
    · have := h.complete p hp
      rw [hnone] at this
      cases this

theorem tableChanges_eq_nil_iff {e t : ObjectSchema} :
    tableChanges e t = [] ↔ SameTable e t ∧ SameIndexes e t := by
  constructor
  · intro hnil
    have hnone : ∀ c, c ∉ tableChanges e t := by simp [hnil]
    refine ⟨tableChanges_index_iff.1 fun c hc => absurd hc (hnone c), fun current hc => ?_⟩
    have hcur : propertyChanges e t current = [] :=
      List.eq_nil_iff_forall_not_mem.2 fun c hcc =>
        hnone c (mem_tableChanges.2 (.inl ⟨current, hc, hcc⟩))
    exact (propertyChanges_eq_nil_iff.1 hcur).2
  · rintro ⟨htable, hindexes⟩
    rw [List.eq_nil_iff_forall_not_mem]
    intro c hc
    rcases mem_tableChanges.1 hc with ⟨current, hcur, hc⟩ | ⟨hne, -⟩ | ⟨p, hp, hnone, -⟩
    · rw [propertyChanges_eq_nil_iff.2 ⟨htable.columns current hcur, hindexes current hcur⟩] at hc
      cases hc
    · exact hne htable.primaryKey
    · have := htable.complete p hp
      rw [hnone] at this
      cases this

namespace Schema

theorem missing_eq_nil_iff (he : existing.Distinct) (ht : target.Distinct)
    (includeTableRemovals : Bool) :
    missing existing target includeTableRemovals = [] ↔
      (∀ t ∈ target.classes, (existing.find t.name).isSome) ∧
      (includeTableRemovals = true → ∀ e ∈ existing.classes, (target.find e.name).isSome) := by
  have hleft := lefts_zipMatching he ht
  have hright : MergeJoin.rights (zipMatching target existing) =
      existing.classes.map fun e => (target.find e.name, e) := by
    rw [zipMatching, MergeJoin.walk_right ht.sorted he.sorted]
    simp only [find_eq]
  rw [missing, List.flatMap_eq_nil_iff]
  constructor
  · intro h
    constructor
    · intro t hmem
      have hvisit : (some t, existing.find t.name) ∈ zipMatching target existing := by
        rw [← MergeJoin.mem_lefts, hleft]
        exact List.mem_map.2 ⟨t, hmem, rfl⟩
      have := h _ hvisit
      cases hf : existing.find t.name with
      | none => rw [hf] at this; cases this
      | some e => rfl
    · rintro rfl e hmem
      have hvisit : (target.find e.name, some e) ∈ zipMatching target existing := by
        rw [← MergeJoin.mem_rights, hright]
        exact List.mem_map.2 ⟨e, hmem, rfl⟩
      have := h _ hvisit
      cases hf : target.find e.name with
      | none => rw [hf] at this; cases this
      | some e => rfl
  · rintro ⟨h1, h2⟩ ⟨t, e⟩ hv
    cases t with
    | some t =>
      rw [← MergeJoin.mem_lefts, hleft] at hv
      obtain ⟨t', hmem, heq⟩ := List.mem_map.1 hv
      obtain ⟨rfl, rfl⟩ := Prod.mk.inj heq
      obtain ⟨e, hf⟩ := Option.isSome_iff_exists.1 (h1 t' hmem)
      rw [hf]
      rfl
    | none =>
      cases e with
      | none => rfl
      | some e =>
        rw [← MergeJoin.mem_rights, hright] at hv
        obtain ⟨e', hmem, heq⟩ := List.mem_map.1 hv
        obtain ⟨hf, rfl⟩ := Prod.mk.inj heq
        cases includeTableRemovals with
        | false => rfl
        | true =>
          have := h2 rfl e' hmem
          rw [hf] at this
          cases this

theorem compare_nil_iff (he : existing.Distinct) (ht : target.Distinct)
    (includeTableRemovals : Bool) :
    compare partition existing target includeTableRemovals = [] ↔
      (∀ t ∈ target.classes, ∃ e, existing.find t.name = some e ∧ tableChanges e t = []) ∧
      (includeTableRemovals = true → ∀ e ∈ existing.classes, (target.find e.name).isSome) := by
  have hperm := compare_perm partition he ht includeTableRemovals
  rw [← List.perm_nil, hperm.congr_left, List.perm_nil, List.append_eq_nil_iff,
    List.flatMap_eq_nil_iff, missing_eq_nil_iff he ht, and_right_comm, ← forall₂_and]
  refine and_congr_left fun _ => forall₂_congr fun t _ => ?_
  unfold changesFor
  cases existing.find t.name with
  | none => simp
  | some e => simp

/-- **When the file is up to date.** The comparison finds nothing to do if and only if
every class of the program has a table with the same columns, indexes and primary key,
and, when tables to remove are asked for, there is no other table. -/
theorem compare_eq_nil_iff (partition : Partition SchemaChange) (he : existing.Distinct)
    (ht : target.Distinct) (includeTableRemovals : Bool) :
    compare partition existing target includeTableRemovals = [] ↔
      (∀ t ∈ target.classes, ∃ e, existing.find t.name = some e ∧ SameTable e t ∧ SameIndexes e t) ∧
      (includeTableRemovals = true → ∀ e ∈ existing.classes, (target.find e.name).isSome) := by
  rw [compare_nil_iff he ht]
  simp only [tableChanges_eq_nil_iff]

end Schema

/-! ## The class of the teams -/

/-- The properties of `TeamRealmEntity`, all of them strings that cannot be null. -/
def teamProperties : List Property :=
  [{ name := "id", type := ⟨.string, false, false⟩, isPrimary := true, isIndexed := true },
   { name := "logoAddress", type := ⟨.string, false, false⟩ },
   { name := "name", type := ⟨.string, false, false⟩ },
   { name := "abbreviatedName", type := ⟨.string, false, false⟩ },
   { name := "location", type := ⟨.string, false, false⟩ }]

def teamRealmEntity : ObjectSchema where
  name := "TeamRealmEntity"
  persistedProperties := teamProperties
  primaryKey := "id"

def teamSchema : Schema := .ofTypes [teamRealmEntity]

theorem teamSchema_distinct : teamSchema.Distinct := Schema.distinct_ofTypes.2 (by simp)

theorem compare_eq_nil_iff_teams :
    Schema.compare (.stable _) teamSchema teamSchema true = [] ↔
      (∀ t ∈ teamSchema.classes, ∃ e, teamSchema.find t.name = some e ∧ SameTable e t ∧
        SameIndexes e t) ∧
      (true = true → ∀ e ∈ teamSchema.classes, (teamSchema.find e.name).isSome) :=
  Schema.compare_eq_nil_iff (.stable _) teamSchema_distinct teamSchema_distinct true

end OverwatchTeams.ObjectStore
