import OverwatchTeams.ObjectStore.SchemaChanges

/-!
# Migrating a file

A file of another version is changed in two passes. The first one makes all changes
but the removals. The second one, after the migration, creates tables again, makes
the index changes once more, removes columns, and checks that a new primary key is one.
Without a migration function both passes follow the same comparison, and together
they do what `TableRun` describes: the index changes come last, so that it does not
matter in which order the partition has left them (`applyMigration_none`).
-/

namespace OverwatchTeams.ObjectStore

open SchemaChange Schema

variable {G V : Type} [Core G V]

/-! ## The second pass -/

def handlesPostMigration : SchemaChange → Bool
  | addTable _ | addIndex _ _ | removeIndex _ _ | removeProperty _ _ => true
  | _ => false

def postEffect (G : Type) {V : Type} [Core G V] (change : SchemaChange) (s : ClassState V) :
    ClassState V :=
  if handlesPostMigration change then effect G change s else s

def ClassState.HasColumn (s : ClassState V) (name : String) : Prop :=
  ∃ T, s.table = some T ∧ ∃ c ∈ T.columns, c.name = name

theorem ClassState.HasColumn.modify {s : ClassState V} {name : String} (h : s.HasColumn name)
    {f : Column V → Column V} (hf : ∀ c, (f c).name = c.name) (i : Nat) :
    (s.mapTable fun t => { t with columns := t.columns.modify i f }).HasColumn name := by
  obtain ⟨T, hT, c, hc, hname⟩ := h
  obtain ⟨j, hj⟩ := List.getElem?_of_mem hc
  refine ⟨{ T with columns := T.columns.modify i f }, by simp [ClassState.mapTable, hT], ?_⟩
  by_cases hij : i = j
  · exact ⟨f c, List.mem_of_getElem? (i := j) (by simp [hj, hij]), (hf c).trans hname⟩
  · exact ⟨c, List.mem_of_getElem? (i := j) (by simp [hj, hij]), hname⟩

def PostOk (G : Type) {V : Type} [Core G V] (L : String → Prop) (change : SchemaChange)
    (s : ClassState V) : Prop :=
  match change with
  | changePrimaryKey _ (some p) => s.HasColumn p.name
  | addTable _ | addIndex _ _ | removeIndex _ _ | removeProperty _ _ => Ok G L change s
  | _ => True

def IsDuplicateKey (e : SchemaException) : Prop :=
  ∃ objectType property, e = .duplicatePrimaryKeyValue objectType property

theorem validatePrimaryColumnUniqueness_cases [DecidableEq V] {g : G} {objectType name : String}
    (h : (classView g objectType).HasColumn name) :
    validatePrimaryColumnUniqueness g objectType name = .ok () ∨
    validatePrimaryColumnUniqueness g objectType name =
      .error (.duplicatePrimaryKeyValue objectType name) := by
  obtain ⟨T, hT, c, hc, hname⟩ := h
  have htable : tableForObjectType g objectType = some T := hT
  unfold validatePrimaryColumnUniqueness
  rw [htable, Option.bind_some]
  cases hfind : T.columns.find? fun c => c.name = name with
  | none =>
    have := List.find?_eq_none.1 hfind c hc
    simp [hname] at this
  | some c' =>
    rw [Option.map_some]
    dsimp only
    split
    · exact .inl rfl
    · exact .inr rfl

section Steps

variable [LawfulCore G] [DecidableEq V]

/-- **The second pass works class by class.** -/
theorem applyPostMigrationChange_steps (L : String → Prop) (version : Option Nat) :
    Local.Steps (classView (G := G)) (fun change => change.object.name) (postEffect G)
      (PostOk G L) (Tables G L version) IsDuplicateKey
      (applyPostMigrationChange emptySchema false) where
  step g change htables hok := by
    -- Changes that are made are made as in the first pass.
    have hmade : handlesPostMigration change = true →
        Ok G L change (classView g change.object.name) →
        ∃ g', applyChange g change = .ok g' ∧ Tables G L version g' ∧
          classView g' = Function.update (classView g) change.object.name
            (postEffect G change (classView g change.object.name)) := by
      intro hhandles hok
      obtain ⟨g', hrun, hversion, hview⟩ := applyChange_ok htables.1 hok
      refine ⟨g', hrun, tables_of_update htables hversion hview, ?_⟩
      rw [hview, postEffect, if_pos hhandles]
    have hskipped : handlesPostMigration change = false →
        classView g = Function.update (classView g) change.object.name
          (postEffect G change (classView g change.object.name)) := by
      intro hhandles
      rw [postEffect, if_neg (by simp [hhandles]), Function.update_eq_self]
    cases change with
    | addTable o => exact .inr (hmade rfl hok)
    | addIndex o p => exact .inr (hmade rfl hok)
    | removeIndex o p => exact .inr (hmade rfl hok)
    | removeProperty o p => exact .inr (hmade rfl hok)
    | changePrimaryKey o p =>
      cases p with
      | none => exact .inr ⟨g, rfl, htables, hskipped rfl⟩
      | some p =>
        rcases validatePrimaryColumnUniqueness_cases hok with h | h
        · refine .inr ⟨g, ?_, htables, hskipped rfl⟩
          show (do validatePrimaryColumnUniqueness g o.name p.name; return g) = Except.ok g
          rw [show validatePrimaryColumnUniqueness g o.name p.name = .ok () from h]
          rfl
        · refine .inl ⟨_, ?_, o.name, p.name, rfl⟩
          show (do validatePrimaryColumnUniqueness g o.name p.name; return g) = _
          rw [show validatePrimaryColumnUniqueness g o.name p.name = _ from h]
          rfl
    | removeTable o => exact .inr ⟨g, rfl, htables, hskipped rfl⟩
    | addInitialProperties o => exact .inr ⟨g, rfl, htables, hskipped rfl⟩
    | addProperty o p => exact .inr ⟨g, rfl, htables, hskipped rfl⟩
    | changePropertyType o p q => exact .inr ⟨g, rfl, htables, hskipped rfl⟩
    | makePropertyNullable o p => exact .inr ⟨g, rfl, htables, hskipped rfl⟩
    | makePropertyRequired o p => exact .inr ⟨g, rfl, htables, hskipped rfl⟩

end Steps

/-! ## One class -/

section OneClass

variable {L : String → Prop} {t : ObjectSchema} {T : Table V} {s : ClassState V}
  {kept removals : List SchemaChange}

theorem result_postEffect (changes : List SchemaChange) (s : ClassState V) :
    Local.result (postEffect G) changes s =
      Local.result (effect G) (changes.filter handlesPostMigration) s :=
  Local.result_filter handlesPostMigration (fun _ _ => rfl) changes s

theorem filter_handlesPostMigration (hkept : ∀ c ∈ kept, c.isKept)
    (hremovals : ∀ c ∈ removals, ¬ c.isNotRemoveProperty) :
    (kept ++ removals).filter handlesPostMigration = kept.filter isIndexChange ++ removals := by
  rw [List.filter_append]
  congr 1
  · refine List.filter_congr fun c hc => ?_
    have hc := hkept c hc
    cases c with
    | addTable o => cases hc
    | removeProperty o p => cases hc
    | _ => rfl
  · rw [List.filter_eq_self]
    intro c hc
    have hc := hremovals c hc
    cases c with
    | removeProperty o p => rfl
    | _ => exact absurd rfl hc

theorem result_removals_columns (size : Nat) (cs : List (Column V)) (primaryKey : String)
    (h : ∀ c ∈ removals, ¬ c.isNotRemoveProperty) :
    ∃ cs', Local.result (effect G) removals ⟨some ⟨size, cs⟩, primaryKey⟩ =
      ⟨some ⟨size, cs'⟩, primaryKey⟩ ∧ ∀ c ∈ cs', c ∈ cs := by
  rw [result_removals h]
  refine ⟨_, rfl, ?_⟩
  induction removals generalizing cs with
  | nil => exact fun c hc => hc
  | cons r removals ih =>
    rw [List.forall_mem_cons] at h
    exact fun c hc => List.mem_of_mem_eraseIdx (ih _ h.2 c hc)

theorem TableRun.hasColumn (ht : t.Storable L) (hT : s.table = some T)
    (h : TableRun (objectSchemaOf t.name T s.primaryKey) t kept [] removals) {p : Property}
    (hp : p ∈ t.persistedProperties) :
    (Local.result (effect G) kept s).HasColumn p.name := by
  obtain ⟨table, key⟩ := s
  subst hT
  have hmade := result_kept (G := G) T.size T.columns [] key
    (fun c hc => (h.mem_made hc).2) fun c hc => h.position_lt (List.mem_append_left _ hc)
  rw [List.append_nil] at hmade
  have hresult := h.result (G := G) ht
  rw [List.append_nil, Local.result_append, hmade] at hresult
  obtain ⟨cs', hremoved, hsub⟩ := result_removals_columns (G := G) T.size _ _
    h.not_kept_removals
  rw [hremoved] at hresult
  obtain ⟨c, hc, hstores⟩ := (h.holds (G := G) ht).complete p hp
  have hcs : some ⟨T.size, cs'⟩ = some (TableRun.table G T kept [] removals) :=
    congrArg ClassState.table hresult
  refine ⟨_, congrArg ClassState.table hmade, c, hsub c ?_, hstores.name⟩
  rw [← Option.some.inj hcs] at hc
  exact hc

theorem TableRun.filter_kept {e : ObjectSchema} {again : List SchemaChange}
    (h : TableRun e t kept again removals) :
    (kept ++ removals).filter isNotRemoveProperty = kept := by
  have hkept : ∀ c ∈ kept, c.isNotRemoveProperty := fun c hc =>
    (List.mem_filter.1 (h.perm.mem_iff.1 hc)).2
  rw [List.filter_append, List.filter_eq_self.2 hkept,
    List.filter_eq_nil_iff.2 h.not_kept_removals, List.append_nil]

/-- **The second pass over a table of the file.** -/
theorem TableRun.post (ht : t.Storable L) (hT : s.table = some T)
    (h : TableRun (objectSchemaOf t.name T s.primaryKey) t kept [] removals) :
    Local.Ready (postEffect G) (PostOk G L) (kept ++ removals)
      (Local.result (effect G) kept s) ∧
    Local.result (postEffect G) (kept ++ removals) (Local.result (effect G) kept s) =
      Local.result (effect G) (kept ++ kept.filter isIndexChange ++ removals) s := by
  have hkept : ∀ c ∈ kept, c.isKept := fun c hc => (h.mem_made hc).2
  constructor
  · -- The column of the primary key stays until the removals.
    let Inv : ClassState V → Prop := fun s =>
      s.table.isSome ∧ ∀ p, t.primaryKeyProperty = some p → s.HasColumn p.name
    have hstart : Inv (Local.result (effect G) kept s) := by
      refine ⟨result_table_isSome (.inl (by rw [hT]; rfl)), fun p hp => ?_⟩
      exact h.hasColumn ht hT (ht.mem_of_primaryKeyProperty hp).1
    have hindex : ∀ (f : Column V → Column V) (i : Nat) (s : ClassState V),
        (∀ c, (f c).name = c.name) → Inv s →
        Inv (s.mapTable fun t => { t with columns := t.columns.modify i f }) :=
      fun f i s hf ⟨hsome, hcolumn⟩ => ⟨by simpa [ClassState.mapTable] using hsome,
        fun p hp => (hcolumn p hp).modify hf i⟩
    refine Local.ready_append.2 ⟨Local.ready_of_invariant Inv hstart ?_, ?_⟩
    · intro c hc s hs
      rcases mem_tableChanges.1 (h.mem_made hc).1 with ⟨p, -, hpc⟩ | ⟨-, rfl⟩ | ⟨q, -, -, rfl⟩
      · rcases mem_propertyChanges hpc with rfl | ⟨q, -, rfl⟩ | rfl | rfl | rfl | rfl
        · cases hkept _ hc
        · exact ⟨trivial, hs⟩
        · exact ⟨trivial, hs⟩
        · exact ⟨trivial, hs⟩
        · exact ⟨hs.1, hindex _ _ s (fun _ => rfl) hs⟩
        · exact ⟨hs.1, hindex _ _ s (fun _ => rfl) hs⟩
      · refine ⟨?_, hs⟩
        cases hpk : t.primaryKeyProperty with
        | none => trivial
        | some p => exact hs.2 p hpk
      · exact ⟨trivial, hs⟩
    · refine Local.ready_of_invariant (fun s => s.table.isSome = true) ?_ ?_
      · rw [result_postEffect]
        exact result_table_isSome (.inl hstart.1)
      · intro c hc s hs
        have hremoval := h.not_kept_removals c hc
        cases c with
        | removeProperty o p => exact ⟨hs, effect_table_isSome (G := G) (.removeProperty o p) s hs⟩
        | _ => exact absurd rfl hremoval
  · rw [result_postEffect, filter_handlesPostMigration hkept h.not_kept_removals,
      List.append_assoc, Local.result_append kept]

/-- **The second pass over a new table** changes nothing. -/
theorem newTable_post (ht : t.Storable L) (hs : s.table = none) (hkey : s.primaryKey = "") :
    let s' := Local.result (effect G) [addTable t, addInitialProperties t] s
    Local.Ready (postEffect G) (PostOk G L) [addTable t, addInitialProperties t] s' ∧
    Local.result (postEffect G) [addTable t, addInitialProperties t] s' = s' := by
  obtain ⟨-, T, hT, -⟩ := newTable (G := G) ht hs hkey
  dsimp only
  rw [hT]
  have hagain : tableCreated G t ⟨some T, t.primaryKey⟩ = ⟨some T, t.primaryKey⟩ :=
    tableCreated_of_isSome rfl rfl
  have hok : Ok G L (addTable t) ⟨some T, t.primaryKey⟩ := ok_addTable ht _
  exact ⟨⟨hok, trivial, trivial⟩, hagain⟩

end OneClass

/-! ## Both passes -/

section Passes

variable [LawfulCore G] [DecidableEq V] {g g₀ : G} (partition : Partition SchemaChange)
  {target : Schema}

omit [DecidableEq V] in
/-- What the second pass does to one class, after the first one. -/
theorem post_class (ht : target.Storable) (hkeys : KeysHaveTables g₀) (n : String)
    {s₁ : ClassState V} (hs₁ : s₁ = Local.result (effect G)
      ((about n (compare partition (schemaFromGroup g₀) target false)).filter
        isNotRemoveProperty) (classView g₀ n)) :
    Local.Ready (postEffect G) (PostOk G target.Has)
      (about n (compare partition (schemaFromGroup g₀) target false)) s₁ ∧
    ∀ s, s = Local.result (postEffect G)
        (about n (compare partition (schemaFromGroup g₀) target false)) s₁ →
      (target.find n = none → s = classView g₀ n) ∧
      ∀ t, target.find n = some t → (classView g₀ n).Serves s t := by
  obtain ⟨tables, rest, heq, htables, hnew, hold, hother⟩ := compare_phases partition g₀ ht
  have habout : about n (compare partition (schemaFromGroup g₀) target false) =
      about n tables ++ about n rest := by rw [heq, about_append]
  rw [hs₁, habout]
  cases hfind : target.find n with
  | none =>
    rw [(hother n hfind).1, (hother n hfind).2]
    exact ⟨trivial, fun s hs => ⟨fun _ => hs, nofun⟩⟩
  | some t =>
    obtain ⟨hmem, rfl⟩ := find_eq_some hfind
    have hstorable := ht.classes t hmem
    cases hT : (classView g₀ t.name).table with
    | none =>
      obtain ⟨h1, h2⟩ := hnew t hmem hT
      rw [h1, h2, List.singleton_append]
      obtain ⟨hready, hresult⟩ := newTable_post (G := G) (L := target.Has) hstorable hT
        (hkeys _ hT)
      refine ⟨hready, fun s hs => ⟨nofun, fun t' ht' => ?_⟩⟩
      obtain rfl := Option.some.inj ht'
      have hserves := serves_newTable (G := G) hstorable hT (hkeys _ hT)
      rw [← hresult] at hserves
      rw [hs]
      exact hserves
    | some T =>
      obtain ⟨h1, kept, removals, h2, hrun⟩ := hold t hmem T hT
      have h := hrun [] (by simp)
      rw [h1, h2, List.nil_append, h.filter_kept]
      obtain ⟨hready, hresult⟩ := h.post (G := G) (L := target.Has) hstorable hT
      refine ⟨hready, fun s hs => ⟨nofun, fun t' ht' => ?_⟩⟩
      obtain rfl := Option.some.inj ht'
      rw [hs, hresult]
      -- The index changes have been made once more, and nothing comes after them.
      have hagain := hrun (kept.filter isIndexChange) fun c hc =>
        ⟨List.mem_of_mem_filter hc, (List.mem_filter.1 hc).2⟩
      exact hagain.serves hstorable hT (.inl rfl)

/-- **A migration without a migration function.** Both passes together bring the file to the
schema of the program, or the second one finds that a new primary key is none. -/
theorem applyMigration_none (ht : target.Storable) (hkeys : KeysHaveTables g₀)
    (hlists : ListsStay g₀ target) (hview : classView g = classView g₀) :
    (∃ e, applyMigration partition g target
        (compare partition (schemaFromGroup g₀) target false) none = .error e ∧
      IsDuplicateKey e) ∨
    ∃ g', applyMigration partition g target
        (compare partition (schemaFromGroup g₀) target false) none = .ok g' ∧
      (Core.view g').version = (Core.view g).version ∧ Migrated g₀ g' target := by
  obtain ⟨g₁, hpre, htables₁, hview₁⟩ := applyHandled_ok partition ht hkeys hview
    isNotRemoveProperty (fun _ => ⟨rfl, rfl, fun _ => rfl⟩) fun _ _ _ => hlists
  have hboth : applyMigration partition g target
      (compare partition (schemaFromGroup g₀) target false) none =
      applyPostMigrationChanges g₁ (compare partition (schemaFromGroup g₀) target false)
        emptySchema false := by
    unfold applyMigration
    dsimp only
    rw [applyPreMigrationChanges, hpre]
    rfl
  have hclass := fun n => post_class (G := G) partition ht hkeys n (hview₁ n)
  rw [hboth]
  rcases (applyPostMigrationChange_steps (G := G) target.Has (Core.view g).version).run
    (compare partition (schemaFromGroup g₀) target false) htables₁ fun n => (hclass n).1 with
    ⟨e, he, hduplicate⟩ | ⟨g', hpost, htables', hviews⟩
  · exact .inl ⟨e, he, hduplicate⟩
  · refine .inr ⟨g', hpost, htables'.2, fun t hmem => ?_, fun n hn => ?_⟩
    · have hfind : target.find t.name = some t := ht.distinct.find_eq_some_iff.2 ⟨hmem, rfl⟩
      exact ((hclass t.name).2 _ (hviews t.name)).2 t hfind
    · exact ((hclass n).2 _ (hviews n)).1 hn

end Passes

end OverwatchTeams.ObjectStore
