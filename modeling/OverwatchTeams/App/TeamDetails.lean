import OverwatchTeams.App.ImageLoading
import OverwatchTeams.Domain.Models

/-!
# The details of a team

`TeamDetailsModuleAssembler.assemble` makes a view and a view controller, and a
presenter that configures them once, in its initializer, and is gone afterwards.
So a details screen asks for one logo in its life (`assemble_logo`).
-/

namespace OverwatchTeams

variable {D I : Type}

structure TeamDetailsViewModel where
  logoAddress : String
  name : String
  abbreviatedName : String
  location : String
  deriving DecidableEq, Repr

structure TeamDetailsViewImp (I : Type) where
  logoImageView : UIImageView I
  nameLabel : Option String
  abbreviatedNameLabel : Option String
  locationLabel : Option String
  deriving DecidableEq, Repr

namespace TeamDetailsViewImp

def init : TeamDetailsViewImp I where
  logoImageView := { image := none, contentMode := .scaleAspectFit }
  nameLabel := none
  abbreviatedNameLabel := none
  locationLabel := none

/-- `configure(with:)`, with the URL of the data task it starts. -/
def configure (platform : ImagePlatform D I) (imageCache : ImageCache I)
    (viewModel : TeamDetailsViewModel) (view : TeamDetailsViewImp I) :
    TeamDetailsViewImp I × Option URL :=
  let (logoImageView, task) := view.logoImageView.downloaded platform imageCache
    viewModel.logoAddress .scaleAspectFit
  ({ logoImageView
     nameLabel := some viewModel.name
     abbreviatedNameLabel := some viewModel.abbreviatedName
     locationLabel := some viewModel.location }, task)

end TeamDetailsViewImp

structure TeamDetailsViewControllerImp (I : Type) where
  title : String
  teamDetailsView : TeamDetailsViewImp I
  deriving DecidableEq, Repr

namespace TeamDetailsViewControllerImp

def init (teamDetailsView : TeamDetailsViewImp I) : TeamDetailsViewControllerImp I where
  title := "Team Details"
  teamDetailsView := teamDetailsView

def configure (platform : ImagePlatform D I) (imageCache : ImageCache I)
    (viewModel : TeamDetailsViewModel) (viewController : TeamDetailsViewControllerImp I) :
    TeamDetailsViewControllerImp I × Option URL :=
  let (teamDetailsView, task) :=
    viewController.teamDetailsView.configure platform imageCache viewModel
  ({ viewController with teamDetailsView }, task)

end TeamDetailsViewControllerImp

/-- `TeamDetailsPresenter.init(viewController:teamModel:)`, as what it does to the view
controller. -/
def TeamDetailsPresenter.init (platform : ImagePlatform D I) (imageCache : ImageCache I)
    (viewController : TeamDetailsViewControllerImp I) (teamModel : TeamModel) :
    TeamDetailsViewControllerImp I × Option URL :=
  let viewModel : TeamDetailsViewModel :=
    { logoAddress := teamModel.logoAddress
      name := teamModel.name
      abbreviatedName := teamModel.abbreviatedName
      location := teamModel.location }
  viewController.configure platform imageCache viewModel

/-- `assemble(teamModel:)`, with the URL of the data task it starts. -/
def TeamDetailsModuleAssembler.assemble (platform : ImagePlatform D I) (imageCache : ImageCache I)
    (teamModel : TeamModel) : TeamDetailsViewControllerImp I × Option URL :=
  let view := TeamDetailsViewImp.init
  let viewController := TeamDetailsViewControllerImp.init view
  TeamDetailsPresenter.init platform imageCache viewController teamModel

def TeamDetailsViewControllerImp.ShowsTeam (viewController : TeamDetailsViewControllerImp I)
    (team : TeamModel) : Prop :=
  viewController.title = "Team Details" ∧
  viewController.teamDetailsView.nameLabel = some team.name ∧
  viewController.teamDetailsView.abbreviatedNameLabel = some team.abbreviatedName ∧
  viewController.teamDetailsView.locationLabel = some team.location

theorem assemble_showsTeam (platform : ImagePlatform D I) (imageCache : ImageCache I)
    (team : TeamModel) :
    (TeamDetailsModuleAssembler.assemble platform imageCache team).1.ShowsTeam team :=
  ⟨rfl, rfl, rfl, rfl⟩

theorem assemble_logo (platform : ImagePlatform D I) (imageCache : ImageCache I)
    (team : TeamModel) :
    ((TeamDetailsModuleAssembler.assemble platform imageCache team).1.teamDetailsView.logoImageView,
      (TeamDetailsModuleAssembler.assemble platform imageCache team).2) =
      UIImageView.downloaded platform imageCache team.logoAddress .scaleAspectFit
        { image := none, contentMode := .scaleAspectFit } := rfl

theorem UIImageView.downloaded_cases (platform : ImagePlatform D I) (imageCache : ImageCache I)
    (link : String) (mode : ContentMode) (v : UIImageView I) :
    (platform.url link = none ∧ v.downloaded platform imageCache link mode = (v, none)) ∨
    ∃ url, platform.url link = some url ∧
      ((imageCache url.absoluteString = none ∧
          v.downloaded platform imageCache link mode = ({ v with contentMode := mode }, some url)) ∨
        ∃ image, imageCache url.absoluteString = some image ∧
          v.downloaded platform imageCache link mode = ({ v with image := some image }, none)) := by
  cases hurl : platform.url link with
  | none => exact .inl ⟨rfl, by simp only [downloaded, hurl]⟩
  | some url =>
    have hcall : v.downloaded platform imageCache link mode =
        v.downloadedURL imageCache url mode := by simp only [downloaded, hurl]
    refine .inr ⟨url, rfl, ?_⟩
    rw [hcall]
    unfold downloadedURL
    cases imageCache url.absoluteString with
    | none => exact .inl ⟨rfl, rfl⟩
    | some image => exact .inr ⟨image, rfl, rfl⟩

end OverwatchTeams
