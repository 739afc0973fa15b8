import OverwatchTeams.App.TeamsView
import OverwatchTeams.Domain.UseCases
import OverwatchTeams.DatabasePlataform.TeamsRealmRepository

/-!
# The assembled teams screen

`TeamsModuleAssembler.assemble` puts a presenter, a view controller with its
view, the use case, the repository and the service together. A `Screen` is the
state of the whole: what the presenter and the view hold, the closures waiting in
the main queue, the database, the events the service has yet to send, and who is
still alive.

A label is one thing that can happen next, in any order: the service sends its
next event, the main queue runs its first closure, a row is tapped, the owner
lets go of the view controller. Each of the source's functions is a computation
on the screen, and a lemma below says what it does to it.

The fields `emission`, `displayed`, `configured`, `written` and `opened` are
observations: no function of the app reads them.
-/

namespace OverwatchTeams

open Combine

inductive Emission where
  | cached
  | network
  deriving DecidableEq, Repr

inductive MainClosure where
  /-- From `TeamsRealmRepository.save`; holds the repository weakly. -/
  | save (domainModels : List TeamModel)
  /-- From `TeamsPresenterImp.receiveValueHandler`; holds the presenter. -/
  | showContent (viewModel : TeamsViewModel) (emission : Emission)
  deriving DecidableEq, Repr

namespace MainClosure

def isContent : MainClosure → Bool
  | showContent _ _ => true
  | save _ => false

end MainClosure

/-- A database as the repository uses it: what `get` reads, and what the closure
of `save` does, by whether the repository is alive and the transaction commits: the
database afterwards, and what the transaction has added if one was executed. -/
structure TeamStore (ρ : Type) where
  get : ρ → List TeamModel
  saveClosure : Bool → Bool → List TeamModel → ρ → ρ × Option (List TeamRealmEntity)

def TeamsRealmRepository.store : TeamStore Realm where
  get := TeamsRealmRepository.get
  saveClosure := TeamsRealmRepository.saveClosure

structure Screen (ρ : Type) where
  /-- The queue the current step runs on. -/
  executor : Executor
  /-- The emission being delivered. -/
  emission : Emission
  /-- `TeamsPresenterImp.teamsModels`. -/
  teamsModels : List TeamModel
  view : TeamsViewImp
  mainQueue : List MainClosure
  database : ρ
  /-- What the service has yet to send. -/
  upstream : List (Event (List TeamNetworkModel) NetworkPlataformError)
  /-- The subscription is active: no completion was delivered. -/
  subscribed : Bool
  /-- The owner let go of the view controller. -/
  released : Bool
  /-- The emission whose rows the table shows. -/
  displayed : Option Emission
  /-- The executions of `TeamsViewController.configure`. -/
  configured : List (Executor × TeamsViewModel)
  /-- What the executed write transactions have added, one after the other. -/
  written : List (List TeamRealmEntity)
  /-- The teams handed to the router. -/
  opened : List TeamModel

namespace Screen

variable {ρ : Type}

/-! ## Lifetimes

The view controller holds the presenter, the presenter the use case and the use
case the repository. The presenter is also held by the active subscription, whose
callbacks are its methods, and by its own closures in the main queue. -/

def viewControllerAlive (s : Screen ρ) : Bool := !s.released

def presenterAlive (s : Screen ρ) : Bool :=
  s.viewControllerAlive || s.subscribed || s.mainQueue.any MainClosure.isContent

def useCaseAlive (s : Screen ρ) : Bool := s.presenterAlive

def repositoryAlive (s : Screen ρ) : Bool := s.useCaseAlive

/-- `[weak self]` in the use case's closure. -/
def weakUseCase : StateM (Screen ρ) Bool := do return (← get).useCaseAlive

/-! ## The source's functions on the screen -/

/-- `DispatchQueue.main.async`. -/
def dispatchMainAsync (closure : MainClosure) : StateM (Screen ρ) Unit :=
  modify fun s => { s with mainQueue := s.mainQueue ++ [closure] }

def repository (store : TeamStore ρ) : Repository (Screen ρ) where
  save := fun domainModels => dispatchMainAsync (.save domainModels)
  get := do return store.get (← get).database

/-- `viewController?.configure(with:)` through the presenter's weak reference. -/
def configureViewController (viewModel : TeamsViewModel) : StateM (Screen ρ) Unit :=
  modify fun s =>
    if s.viewControllerAlive then
      { s with
        view := s.view.configure viewModel
        configured := s.configured ++ [(s.executor, viewModel)] }
    else s

end Screen

inductive TeamsPresenterEvent where
  | elementSelected (rowIndex : Nat)

namespace TeamsPresenterImp

variable {ρ : Type}

/-- The cell view models of `receiveValueHandler`. -/
def cellsViewModels (models : List TeamModel) : List TeamCell.ViewModel :=
  models.map fun m =>
    { logoAddress := m.logoAddress, name := m.name, abbreviatedName := m.abbreviatedName }

def contentViewModel (models : List TeamModel) : TeamsViewModel :=
  .init (.showContent (cellsViewModels models))

def errorViewModel : TeamsViewModel := .init (.showError "Sorry, something went wrong! =(")

def receiveCompletionHandler : Completion DomainError → StateM (Screen ρ) Unit
  | .failure _ => do
    if (← get).teamsModels.isEmpty then
      Screen.configureViewController errorViewModel
  | .finished => pure ()

def receiveValueHandler (value : List TeamModel) : StateM (Screen ρ) Unit := do
  modify fun s => { s with teamsModels := value }
  let viewModel := contentViewModel (← get).teamsModels
  Screen.dispatchMainAsync (.showContent viewModel (← get).emission)

/-- The subscriber of `sink`, which lets go of its closures when it completes. -/
def sink : Subscriber (Screen ρ) (List TeamModel) DomainError where
  receiveValue := receiveValueHandler
  receiveCompletion := fun completion => do
    receiveCompletionHandler completion
    modify fun s => { s with subscribed := false }

def init (store : TeamStore ρ) : StateM (Screen ρ) Unit := do
  Screen.configureViewController (.init .loading)
  let publisher ← TeamsUseCasesImp.getTeams Screen.weakUseCase (Screen.repository store)
  modify fun s => { s with subscribed := true }
  (publisher.subscribe sink).1

/-- `eventHandler`: the team for the router, or `none` for the trap of a
subscript out of bounds. -/
def eventHandler (teamsModels : List TeamModel) : TeamsPresenterEvent → Option TeamModel
  | .elementSelected rowIndex => teamsModels[rowIndex]?

end TeamsPresenterImp

/-! ## Steps -/

inductive ScreenLabel where
  /-- The service sends its next event. -/
  | deliver
  /-- The main queue runs its first closure; `commits` is for a write transaction. -/
  | execute (commits : Bool)
  /-- A row is tapped. -/
  | select (row : Nat)
  /-- The owner lets go of the view controller. -/
  | release
  deriving DecidableEq, Repr

namespace Screen

variable {ρ : Type} (store : TeamStore ρ)

/-- What the service feeds: the use case's operators, then the presenter. -/
def upstreamSubscriber : Subscriber (Screen ρ) (List TeamNetworkModel) NetworkPlataformError :=
  TeamsUseCasesImp.upstream weakUseCase (repository store) TeamsPresenterImp.sink

def runClosure (commits : Bool) : MainClosure → Screen ρ → Screen ρ
  | .save domainModels, s =>
    let (database, added) := store.saveClosure s.repositoryAlive commits domainModels s.database
    { s with database, written := s.written ++ added.toList }
  | .showContent viewModel emission, s =>
    let shown := ((configureViewController viewModel).run s).2
    { shown with displayed := if s.viewControllerAlive then some emission else s.displayed }

/-- `didSelectRowAt`, through the handlers of the view, the view controller and
the presenter. A trap ends the run. -/
def selectRow (row : Nat) (s : Screen ρ) : Option (Screen ρ) :=
  if s.viewControllerAlive ∧ row < s.view.cellsViewModels.length then
    (TeamsPresenterImp.eventHandler s.teamsModels (.elementSelected row)).map fun team =>
      { s with executor := .main, opened := s.opened ++ [team] }
  else none

def assembled (database : ρ)
    (service : Publisher Executor (List TeamNetworkModel) NetworkPlataformError) : Screen ρ where
  executor := .main
  emission := .cached
  teamsModels := []
  view := .init
  mainQueue := []
  database := database
  upstream := service.run.events
  subscribed := false
  released := false
  displayed := none
  configured := []
  written := []
  opened := []

def step (service : Publisher Executor (List TeamNetworkModel) NetworkPlataformError) (s : Screen ρ)
    (l : ScreenLabel) : Option (Screen ρ) :=
  match l with
  | .deliver =>
    match s.upstream with
    | [] => none
    | e :: rest =>
      let s := { s with upstream := rest, executor := service.executor, emission := .network }
      some (((upstreamSubscriber store).receive e).run s).2
  | .execute commits =>
    match s.mainQueue with
    | [] => none
    | closure :: q =>
      some (runClosure store commits closure { s with mainQueue := q, executor := .main })
  | .select row => selectRow row s
  | .release => some { s with released := true }

end Screen

def teamsScreen {ρ : Type} (store : TeamStore ρ) (database : ρ)
    (service : Publisher Executor (List TeamNetworkModel) NetworkPlataformError) :
    Transition.System (Screen ρ) ScreenLabel where
  init := ((TeamsPresenterImp.init store).run (.assembled database service)).2
  step := Screen.step store service

/-! ## What each function does to the screen -/

namespace Screen

variable {ρ : Type} {store : TeamStore ρ}
  {service : Publisher Executor (List TeamNetworkModel) NetworkPlataformError}

open TeamsPresenterImp

def contentClosure (e : Emission × List TeamModel) : MainClosure :=
  .showContent (contentViewModel e.2) e.1

theorem receiveValueHandler_run (s : Screen ρ) (value : List TeamModel) :
    ((receiveValueHandler value).run s).2 =
      { s with
        teamsModels := value
        mainQueue := s.mainQueue ++ [contentClosure (s.emission, value)] } := rfl

theorem configureViewController_run (s : Screen ρ) (viewModel : TeamsViewModel) :
    ((configureViewController viewModel).run s).2 =
      if s.viewControllerAlive then
        { s with
          view := s.view.configure viewModel
          configured := s.configured ++ [(s.executor, viewModel)] }
      else s := rfl

theorem receiveCompletionHandler_failure_run (s : Screen ρ) (error : DomainError) :
    ((receiveCompletionHandler (.failure error)).run s).2 =
      if s.teamsModels.isEmpty then ((configureViewController errorViewModel).run s).2 else s := by
  simp only [receiveCompletionHandler, run_bind]
  split
  · next h => exact (if_pos h).symm
  · next h => exact (if_neg h).symm

/-- The subscription made in `init`, with a cached list or without, feeds
`upstreamSubscriber`. -/
theorem subscribe_sink (s : Screen ρ) :
    (((TeamsUseCasesImp.getTeams weakUseCase (repository store)).run s).1.subscribe sink).2 =
      upstreamSubscriber store :=
  TeamsUseCasesImp.getTeams_subscribe_snd weakUseCase (repository store) sink s

theorem receive_value (s : Screen ρ) (vs : List TeamNetworkModel) :
    (((upstreamSubscriber store).receive (.value vs)).run s).2 =
      { s with
        teamsModels := asDomainModels vs
        mainQueue := s.mainQueue ++ (if s.useCaseAlive then [.save (asDomainModels vs)] else []) ++
          [contentClosure (s.emission, asDomainModels vs)] } := by
  have h := TeamsUseCasesImp.upstream_receiveValue weakUseCase (repository store) sink vs s
  rw [show weakUseCase.run s = (s.useCaseAlive, s) from rfl] at h
  refine (congrArg Prod.snd h).trans ((receiveValueHandler_run _ _).trans ?_)
  cases s.useCaseAlive
  · simp only [Bool.false_eq_true, if_false, List.append_nil]
  · rfl

theorem receive_value_of_alive (s : Screen ρ) (vs : List TeamNetworkModel)
    (h : s.useCaseAlive = true) :
    (((upstreamSubscriber store).receive (.value vs)).run s).2 =
      { s with
        teamsModels := asDomainModels vs
        mainQueue := s.mainQueue ++ [.save (asDomainModels vs)] ++
          [contentClosure (s.emission, asDomainModels vs)] } := by
  rw [receive_value, if_pos h]

theorem receive_finished (s : Screen ρ) :
    (((upstreamSubscriber store).receive (.completion .finished)).run s).2 =
      { s with subscribed := false } := rfl

theorem receive_failure (s : Screen ρ) (e : NetworkPlataformError) :
    (((upstreamSubscriber store).receive (.completion (.failure e))).run s).2 =
      { (if s.teamsModels.isEmpty then ((configureViewController errorViewModel).run s).2
          else s) with
        subscribed := false } := by
  rw [← receiveCompletionHandler_failure_run s .domainUnkown]
  rfl

theorem init_eq (database : ρ) :
    (teamsScreen store database service).init =
      { executor := .main
        emission := .cached
        teamsModels := store.get database
        view := TeamsViewImp.init.configure (.init .loading)
        mainQueue := (cachedEmission (store.get database)).map fun models =>
          contentClosure (.cached, models)
        database := database
        upstream := service.run.events
        subscribed := true
        released := false
        displayed := none
        configured := [(.main, .init .loading)]
        written := []
        opened := [] } := by
  simp only [teamsScreen, TeamsPresenterImp.init, run_bind, TeamsUseCasesImp.getTeams_run]
  have hget : (((repository store).get).run
      ((configureViewController (.init .loading)).run (assembled database service)).2).1 =
      store.get database := rfl
  rw [hget]
  cases store.get database <;> rfl

end Screen

end OverwatchTeams
