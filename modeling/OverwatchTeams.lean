import OverwatchTeams.Lib.Transition
import OverwatchTeams.Lib.Combine
import OverwatchTeams.Lib.Fallible
import OverwatchTeams.Lib.Fetch
import OverwatchTeams.Lib.Keyed
import OverwatchTeams.Lib.ListEdits
import OverwatchTeams.Lib.Local
import OverwatchTeams.Lib.MergeJoin
import OverwatchTeams.Domain.Models
import OverwatchTeams.Domain.UseCases
import OverwatchTeams.NetworkPlatform.Json
import OverwatchTeams.NetworkPlatform.TeamsWebService
import OverwatchTeams.NetworkPlatform.WellFormed
import OverwatchTeams.DatabasePlataform.TeamsRealmRepository
import OverwatchTeams.DatabasePlataform.RealmFactory
import OverwatchTeams.App.TeamsView
import OverwatchTeams.App.TeamsPresenter
import OverwatchTeams.App.TeamsScreen
import OverwatchTeams.App.Persistence
import OverwatchTeams.App.Sessions
import OverwatchTeams.App.ImageLoading
import OverwatchTeams.App.ImageCache
import OverwatchTeams.App.TeamDetails
import OverwatchTeams.App.Scene
import OverwatchTeams.App.SceneGallery
import OverwatchTeams.App.Logos
import OverwatchTeams.ObjectStore.Schema
import OverwatchTeams.ObjectStore.Compare
import OverwatchTeams.ObjectStore.Verify
import OverwatchTeams.ObjectStore.Validate
import OverwatchTeams.ObjectStore.Group
import OverwatchTeams.ObjectStore.ApplyChanges
import OverwatchTeams.ObjectStore.Effects
import OverwatchTeams.ObjectStore.Storable
import OverwatchTeams.ObjectStore.Migration
import OverwatchTeams.ObjectStore.MigratedTable
import OverwatchTeams.ObjectStore.SchemaChanges
import OverwatchTeams.ObjectStore.ApplyMigration
import OverwatchTeams.ObjectStore.TableColumns
import OverwatchTeams.ObjectStore.UpdateSchema
import OverwatchTeams.ObjectStore.FileGroup
import OverwatchTeams.ObjectStore.ProgramVersions
import OverwatchTeams.ObjectStore.ExternalChanges
import OverwatchTeams.DatabasePlataform.RealmFile
import OverwatchTeams.App.FileLaunches
