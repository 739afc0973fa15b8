import OverwatchTeams.NetworkPlatform.TeamsWebService

/-!
# The teams use case

`getTeams` builds a chain of operators over the service: a `map` that saves each
list in the repository on its way, a `mapError`, and the cached list in front
when there is one. The repository and the use case's own lifetime are
parameters, so that the same definition runs against a recording repository here
and inside the assembled screen.

`getTeams_cache_then_network` is the whole trace of one subscription, for any
signals of the service: what the subscriber receives, what is saved, and the
order of the two.
-/

namespace OverwatchTeams

open Combine

structure Repository (σ : Type) where
  save : List TeamModel → StateM σ Unit
  get : StateM σ (List TeamModel)

def asDomainModels (networkModels : List TeamNetworkModel) : List TeamModel :=
  networkModels.map TeamNetworkModel.asDomain

/-- The operators between the service and the subscriber of `getTeams`. -/
abbrev TeamsChain (σ : Type) : Type :=
  Chain σ (List TeamNetworkModel) NetworkPlataformError (List TeamModel) DomainError

namespace TeamsUseCasesImp

variable {σ : Type} (weakSelf : StateM σ Bool) (repository : Repository σ)

/-- The service under `map` and `mapError`. `weakSelf` reads whether the use case
still exists when the closure of `map` runs. -/
def networkPublisher : TeamsChain σ :=
  Chain.source
    |>.map (fun networkModels => do
      let models := asDomainModels networkModels
      if ← weakSelf then
        repository.save models
      return models)
    |>.mapError fun _ => DomainError.domainUnkown

def getTeams : StateM σ (TeamsChain σ) := do
  let publisher := networkPublisher weakSelf repository
  let localModels ← repository.get
  if !localModels.isEmpty then
    return publisher.prepend localModels
  else
    return publisher

/-- What the service feeds once `d` subscribed to `getTeams`. -/
def upstream (d : Subscriber σ (List TeamModel) DomainError) :
    Subscriber σ (List TeamNetworkModel) NetworkPlataformError :=
  ((networkPublisher weakSelf repository).subscribe d).2

theorem getTeams_run (s : σ) :
    (getTeams weakSelf repository).run s =
      (if (repository.get.run s).1.isEmpty then networkPublisher weakSelf repository
        else (networkPublisher weakSelf repository).prepend (repository.get.run s).1,
        (repository.get.run s).2) := by
  simp only [getTeams, run_bind]
  cases (repository.get.run s).1.isEmpty <;> rfl

theorem getTeams_subscribe_snd (d : Subscriber σ (List TeamModel) DomainError) (s : σ) :
    (((getTeams weakSelf repository).run s).1.subscribe d).2 = upstream weakSelf repository d := by
  rw [getTeams_run]
  split <;> rfl

theorem upstream_receiveValue (d : Subscriber σ (List TeamModel) DomainError)
    (vs : List TeamNetworkModel) (s : σ) :
    ((upstream weakSelf repository d).receiveValue vs).run s =
      (d.receiveValue (asDomainModels vs)).run
        (if (weakSelf.run s).1 then ((repository.save (asDomainModels vs)).run (weakSelf.run s).2).2
          else (weakSelf.run s).2) := by
  simp only [upstream, networkPublisher, Chain.mapError, Chain.map, Chain.source, run_bind]
  cases (weakSelf.run s).1 <;> rfl

end TeamsUseCasesImp

/-! ## The trace of one subscription -/

inductive Mark where
  | get
  | save (domainModels : List TeamModel)
  | receive (e : Event (List TeamModel) DomainError)
  deriving DecidableEq, Repr

def record (m : Mark) : StateM (List Mark) Unit := modify fun t => t ++ [m]

/-- A repository that holds `localModels` and records its calls. -/
def recordingRepository (localModels : List TeamModel) : Repository (List Mark) where
  save := fun domainModels => record (.save domainModels)
  get := do
    record .get
    return localModels

def recordingSubscriber : Subscriber (List Mark) (List TeamModel) DomainError where
  receiveValue := fun models => record (.receive (.value models))
  receiveCompletion := fun c => record (.receive (.completion c))

/-- The trace of a subscription to `getTeams`, with the use case retained. -/
def getTeamsTrace (localModels : List TeamModel)
    (sigs : List (Signal (List TeamNetworkModel) NetworkPlataformError)) : List Mark :=
  let subscription : StateM (List Mark) Unit := do
    let publisher ← TeamsUseCasesImp.getTeams (pure true) (recordingRepository localModels)
    publisher.sink recordingSubscriber sigs
  (subscription.run []).2

def received (trace : List Mark) : List (Event (List TeamModel) DomainError) :=
  trace.filterMap fun
    | .receive e => some e
    | _ => none

def saved (trace : List Mark) : List (List TeamModel) :=
  trace.filterMap fun
    | .save domainModels => some domainModels
    | _ => none

def cachedEmission (localModels : List TeamModel) : List (List TeamModel) :=
  if localModels.isEmpty then [] else [localModels]

/-- Cache, then network: the run a subscriber of `getTeams` is meant to see. -/
def cacheThenNetwork (localModels : List TeamModel)
    (service : Run (List TeamNetworkModel) NetworkPlataformError) :
    Run (List TeamModel) DomainError where
  values := cachedEmission localModels ++ service.values.map asDomainModels
  completion := service.completion.map (·.mapError fun _ => .domainUnkown)

def marksOf : Event (List TeamNetworkModel) NetworkPlataformError → List Mark
  | .value vs => [.save (asDomainModels vs), .receive (.value (asDomainModels vs))]
  | .completion c => [.receive (.completion (c.mapError fun _ => .domainUnkown))]

section Trace

variable {localModels : List TeamModel}

theorem receive_marks (e : Event (List TeamNetworkModel) NetworkPlataformError) (t : List Mark) :
    ((TeamsUseCasesImp.upstream (pure true) (recordingRepository localModels)
      recordingSubscriber).receive e).run t = ((), t ++ marksOf e) := by
  cases e with
  | value vs =>
    calc _ = ((), (t ++ [Mark.save (asDomainModels vs)]) ++
            [Mark.receive (.value (asDomainModels vs))]) := rfl
      _ = _ := by rw [List.append_assoc]; rfl
  | completion c => rfl

theorem receiveAll_marks (es : List (Event (List TeamNetworkModel) NetworkPlataformError))
    (t : List Mark) :
    ((TeamsUseCasesImp.upstream (pure true) (recordingRepository localModels)
      recordingSubscriber).receiveAll es).run t = ((), t ++ es.flatMap marksOf) := by
  induction es generalizing t with
  | nil => rw [List.flatMap_nil, List.append_nil]; rfl
  | cons e es ih =>
    simp only [Subscriber.receiveAll, run_bind, receive_marks, List.flatMap_cons]
    rw [← List.append_assoc]
    exact ih (t ++ marksOf e)

/-- The trace, piece by piece: the read of the cache, the cached list, then the
marks of each event the service got to send. -/
theorem getTeamsTrace_eq (sigs : List (Signal (List TeamNetworkModel) NetworkPlataformError)) :
    getTeamsTrace localModels sigs =
      .get :: (cachedEmission localModels).map (fun models => .receive (.value models)) ++
        (settle sigs).events.flatMap marksOf := by
  have feed (t : List Mark) :
      ((drive (TeamsUseCasesImp.upstream (pure true) (recordingRepository localModels)
        recordingSubscriber) sigs).run t).2 = t ++ (settle sigs).events.flatMap marksOf := by
    rw [drive_eq_receiveRun, Subscriber.receiveRun, receiveAll_marks]
  cases localModels with
  | nil => exact feed [.get]
  | cons model rest => exact feed [.get, .receive (.value (model :: rest))]

theorem events_marks (service : Run (List TeamNetworkModel) NetworkPlataformError) :
    service.events.flatMap marksOf =
      service.values.flatMap (fun vs =>
        [.save (asDomainModels vs), .receive (.value (asDomainModels vs))]) ++
      (service.completion.map fun c =>
        .receive (.completion (c.mapError fun _ => .domainUnkown))).toList := by
  have hc : ∀ c : Option (Completion NetworkPlataformError),
      (c.map Event.completion).toList.flatMap marksOf =
        (c.map fun c => .receive (.completion (c.mapError fun _ => .domainUnkown))).toList := by
    rintro (_ | c) <;> rfl
  simp only [Run.events, List.flatMap_append, List.flatMap_map, hc]
  rfl

theorem received_marks (service : Run (List TeamNetworkModel) NetworkPlataformError) :
    received (service.events.flatMap marksOf) = (cacheThenNetwork [] service).events := by
  have hv : ∀ values : List (List TeamNetworkModel),
      received (values.flatMap fun vs =>
        [.save (asDomainModels vs), .receive (.value (asDomainModels vs))]) =
        (values.map asDomainModels).map .value := by
    intro values
    induction values with
    | nil => rfl
    | cons vs values ih => exact congrArg (Event.value (asDomainModels vs) :: ·) ih
  rw [events_marks, received, List.filterMap_append]
  refine congrArg₂ (· ++ ·) (hv service.values) ?_
  cases hc : service.completion <;> simp [cacheThenNetwork, hc]

theorem saved_marks (service : Run (List TeamNetworkModel) NetworkPlataformError) :
    saved (service.events.flatMap marksOf) = service.values.map asDomainModels := by
  have hv : ∀ values : List (List TeamNetworkModel),
      saved (values.flatMap fun vs =>
        [.save (asDomainModels vs), .receive (.value (asDomainModels vs))]) =
        values.map asDomainModels := by
    intro values
    induction values with
    | nil => rfl
    | cons vs values ih => exact congrArg (asDomainModels vs :: ·) ih
  rw [events_marks, saved, List.filterMap_append]
  refine (congrArg₂ (· ++ ·) (hv service.values) ?_).trans (List.append_nil _)
  cases service.completion <;> rfl

/-- **Cache, then network.** For every cached list and all signals of the
service, the subscriber receives the cached list when it is not empty, the
network lists and the completion; the saves are the network lists, each right
before the subscriber gets it, and nothing else is saved. -/
theorem getTeams_cache_then_network (localModels : List TeamModel)
    (sigs : List (Signal (List TeamNetworkModel) NetworkPlataformError)) :
    received (getTeamsTrace localModels sigs) =
      (cacheThenNetwork localModels (settle sigs)).events ∧
    saved (getTeamsTrace localModels sigs) = (settle sigs).values.map asDomainModels ∧
    getTeamsTrace localModels sigs =
      .get :: (cachedEmission localModels).map (fun models => .receive (.value models)) ++
        (settle sigs).values.flatMap (fun vs =>
          [.save (asDomainModels vs), .receive (.value (asDomainModels vs))]) ++
        ((settle sigs).completion.map fun c =>
          .receive (.completion (c.mapError fun _ => .domainUnkown))).toList := by
  refine ⟨?_, ?_, ?_⟩
  · have h := received_marks (settle sigs)
    rw [getTeamsTrace_eq, received, List.filterMap_append]
    cases localModels with
    | nil => exact h
    | cons model rest => exact congrArg (Event.value (model :: rest) :: ·) h
  · have h := saved_marks (settle sigs)
    rw [getTeamsTrace_eq, saved, List.filterMap_append]
    cases localModels <;> exact h
  · rw [getTeamsTrace_eq, events_marks, List.append_assoc]

end Trace

end OverwatchTeams
