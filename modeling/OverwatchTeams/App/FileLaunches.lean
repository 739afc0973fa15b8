import OverwatchTeams.App.Persistence
import OverwatchTeams.DatabasePlataform.RealmFile
import OverwatchTeams.ObjectStore.FileGroup

/-!
# Launches on a file

The launches of `Persistence` hand on a database. On a device each of them opens a file,
reads the objects in it and writes others into it (`FileLaunches`). The two are the same:
the app always finds the file compatible, and in it the objects of a database that the
same launches leave (`file_launches`); and all launches on a database can be made on a
file (`launches_file`).
-/

namespace OverwatchTeams

open ObjectStore hiding Realm
open RealmFactory

variable {G V : Type} [Core G V]

section Launches

variable [DecidableEq V]

/-- The launches with these outcomes on one file, and what the file holds afterwards: the
app opens it, the launch is one on the database that its Realm reads, and what it writes
leaves the columns as they are. -/
inductive FileLaunches (text : V → String) (partition : Partition SchemaChange) (fresh : G) :
    List NetworkOutcome → G → Prop where
  | first : FileLaunches text partition fresh [] fresh
  | next {os : List NetworkOutcome} {o : NetworkOutcome} {g g' : G} {device : Device} {fuel : Nat}
      {opened : Opened (OpenFile G)} {realm realm' : Realm} :
      FileLaunches text partition fresh os g →
      createInstance (device.env partition fresh g) fuel 0 [] = some opened →
      opened.realm.objects text = realm.objects →
      Launch realm o realm' →
      SameShape opened.realm.group g' →
      (OpenFile.mk g' opened.realm.realm).objects text = realm'.objects →
      FileLaunches text partition fresh (os ++ [o]) g'

variable [LawfulCore G] {text : V → String} {partition : Partition SchemaChange} {fresh : G}
  {os : List NetworkOutcome} {g : G}

omit [Core G V] [DecidableEq V] [LawfulCore G] in
theorem Realm.ext {realm realm' : Realm} (h : realm.objects = realm'.objects) : realm = realm' := by
  cases realm
  cases realm'
  cases h
  rfl

theorem FileLaunches.compatible (hfresh : Empty fresh)
    (h : FileLaunches text partition fresh os g) :
    ∃ s : Stored G, s.group = g ∧ s.Reachable partition fresh ∧ Compatible partition g ∧
      ∃ realm, Launches os realm ∧ entities text g = realm.objects := by
  induction h with
  | first =>
    exact ⟨⟨fresh, none⟩, rfl, .refl, .inl hfresh.version, _, .first, entities_of_empty hfresh⟩
  | @next os o g g' device fuel opened realm realm' _ hcreate hobjects hlaunch hshape hwritten ih =>
    obtain ⟨s, rfl, hs, hc, realm₀, hlaunches, hentities⟩ := ih
    have hsound := sound_of_reachable hfresh hs
    obtain ⟨f, hfirst, hrun, hopened, hread⟩ :=
      createInstance_compatible text device fresh hsound hc
    obtain rfl : opened = ⟨f, 0, []⟩ := by
      cases fuel with
      | zero => cases hcreate
      | succ fuel => exact Option.some.inj (hcreate.symm.trans (hfirst fuel))
    obtain rfl : realm = realm₀ := Realm.ext (hobjects.symm.trans (hread.trans hentities))
    let app := teamProgram 0 (by decide)
    have hopens : app.opens partition fresh s = ⟨f.group, some app⟩ :=
      Program.opens_of_ok partition fresh hrun
    have hs' : (⟨g', some app⟩ : Stored G).Reachable partition fresh := by
      have hnext := hs.tail (.opens s app (listsStay_teamProgram _))
      rw [hopens] at hnext
      exact hnext.tail (.writes ⟨f.group, some app⟩ g' hshape)
    have hsound' := sound_of_reachable hfresh hs'
    have hnil := hsound'.schema app rfl
    refine ⟨⟨g', some app⟩, rfl, hs', .inr ⟨hsound'.version app rfl, ?_⟩, realm',
      hlaunches.next hlaunch, ?_⟩
    · show needsMigration (Schema.compare partition (schemaFromGroup g') teamSchema false) = false
      rw [show Schema.compare partition (schemaFromGroup g') teamSchema false = [] from hnil]
      rfl
    · have hread' : (OpenFile.mk g' f.realm).objects text = entities text g' :=
        objects_eq_entities hsound'.plain
          ((hopened.positioned hsound.plain).of_sameShape hshape)
      exact hread'.symm.trans hwritten

end Launches

/-! ## Writing objects into a file -/

section Writing

variable {sync : Bool}

def columnOf (objects : List TeamRealmEntity) (c : Column String) : Column String :=
  { c with cells := fun row => objects[row]?.elim "" fun e => e.value c.name }

def writeObjects (g : FileGroup sync) (objects : List TeamRealmEntity) : FileGroup sync :=
  (tableForObjectType g teamRealmEntity.name).elim g fun T =>
    g.put (tableNameForObjectType teamRealmEntity.name)
      ⟨objects.length, T.columns.map (columnOf objects)⟩

variable {g : FileGroup sync} {T : Table String}

theorem table_put (n n' : String) :
    tableForObjectType (g.put (tableNameForObjectType n) T) n' =
      if n' = n then some T else tableForObjectType g n' := by
  show Function.update g.view.table (tableNameForObjectType n) (some T)
    (tableNameForObjectType n') = _
  rw [Function.update_apply]
  by_cases heq : n' = n
  · rw [if_pos heq, if_pos (congrArg _ heq)]
  · rw [if_neg heq, if_neg fun h => heq (tableNameForObjectType_injective h)]
    rfl

theorem sameShape_writeObjects (objects : List TeamRealmEntity) :
    SameShape g (writeObjects g objects) := by
  unfold writeObjects
  cases hT : tableForObjectType g teamRealmEntity.name with
  | none => exact ⟨fun n => ⟨rfl, rfl⟩, rfl⟩
  | some T =>
    refine ⟨fun n => ⟨?_, rfl⟩, rfl⟩
    show (tableForObjectType (g.put _ _) n).map Table.shape =
      (tableForObjectType g n).map Table.shape
    rw [table_put]
    split
    · next heq =>
      rw [heq, hT, Option.map_some, Option.map_some, Table.shape, List.map_map]
      rfl
    · rfl

theorem entities_writeObjects (objects : List TeamRealmEntity)
    (hT : tableForObjectType g teamRealmEntity.name = some T) (hplain : T.Plain)
    (hholds : T.Holds teamRealmEntity.primaryKey teamRealmEntity) :
    entities id (writeObjects g objects) = objects := by
  have hT' : tableForObjectType (writeObjects g objects) teamRealmEntity.name =
      some ⟨objects.length, T.columns.map (columnOf objects)⟩ := by
    rw [writeObjects, hT, Option.elim_some, table_put, if_pos rfl]
  have hnamed : ∀ p ∈ teamRealmEntity.persistedProperties,
      ∃ c, Table.named ⟨objects.length, T.columns.map (columnOf objects)⟩ p.name =
        some (columnOf objects c) ∧ c.name = p.name := by
    intro p hp
    obtain ⟨c, hc, hstores⟩ := hholds.complete p hp
    refine ⟨c, ?_, hstores.name⟩
    have hfound := hplain.named hc
    rw [hstores.name] at hfound
    show (T.columns.map (columnOf objects)).find? _ = _
    rw [List.find?_map]
    exact congrArg (Option.map (columnOf objects)) hfound
  rw [entities, hT', Option.elim_some, entitiesOf]
  refine List.ext_getElem (by simp) fun row hrow hrow' => ?_
  rw [List.getElem_map, List.getElem_range]
  refine TeamRealmEntity.ext_value fun p hp => ?_
  obtain ⟨c, hc, hname⟩ := hnamed p hp
  rw [value_entityAt hp, hc, Option.elim_some]
  simp [columnOf, hrow', hname]

/-- **Launches on a database can be made on a file.** -/
theorem launches_file {partition : Partition SchemaChange} {os : List NetworkOutcome}
    {realm : Realm} (h : Launches os realm) :
    ∃ g : FileGroup sync,
      FileLaunches id partition .empty os g ∧ entities id g = realm.objects := by
  have hfresh : Empty (.empty : FileGroup sync) := ⟨fun _ => rfl, rfl⟩
  induction h with
  | first => exact ⟨_, .first, rfl⟩
  | @next os o realm realm' _ hlaunch ih =>
    obtain ⟨g, hfile, hentities⟩ := ih
    obtain ⟨s, rfl, hs, hc, -⟩ := hfile.compatible hfresh
    have hsound := sound_of_reachable hfresh hs
    obtain ⟨f, hfirst, -, hopened, hread⟩ := createInstance_compatible id
      (deletingFrom 0) .empty hsound hc
    obtain ⟨T, hserves, hholds, -⟩ := (hopened.migrated.classes _ teamRealmEntity_mem).table
    have hT : tableForObjectType f.group teamRealmEntity.name = some T :=
      congrArg ClassState.table hserves
    have hplain := hopened.migrated.plain hsound.plain
    have hshape := sameShape_writeObjects (g := f.group) realm'.objects
    have hwritten := entities_writeObjects realm'.objects hT (hplain _ T hT) hholds
    refine ⟨writeObjects f.group realm'.objects,
      .next hfile (hfirst 0) (hread.trans hentities) hlaunch hshape ?_, hwritten⟩
    have hobjects : (OpenFile.mk (writeObjects f.group realm'.objects) f.realm).objects id =
        entities id (writeObjects f.group realm'.objects) :=
      objects_eq_entities (fun n => (hshape.classes n).plain (hplain n))
        ((hopened.positioned hsound.plain).of_sameShape hshape)
    exact hobjects.trans hwritten

end Writing

end OverwatchTeams
