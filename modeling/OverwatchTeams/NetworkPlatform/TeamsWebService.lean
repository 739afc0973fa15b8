import OverwatchTeams.NetworkPlatform.Json
import OverwatchTeams.Lib.Combine

/-!
# The teams web service

From the outcome of a data task to the publisher of `TeamsWebServiceImp.getTeams`:
the status check and the error mapping of `RequestExecuterImp.execute`, then the
decoder, the second error mapping and the projection to the list of teams. The
operators keep the executor of the data task, so that everything is delivered on
the delegate queue of `URLSession`.

`getTeams_of_build` says what comes out: one list and `.finished` for an outcome
that `accepted` takes, and the failure `.unkown` for any other.
-/

namespace OverwatchTeams

open Combine

inductive NetworkPlataformError where
  | unkown
  deriving DecidableEq, Repr

/-! ## Building the request -/

inductive HTTPMethod where
  | get
  deriving DecidableEq, Repr

def HTTPMethod.rawValue : HTTPMethod → String
  | .get => "GET"

structure WebServiceAction where
  path : String
  method : HTTPMethod

structure WebServiceConfiguration where
  scheme : String
  host : String

def WebServiceActions.GetTeams : WebServiceAction := ⟨"/v2/teams", .get⟩

def OverwatchLeagueWebServiceConfiguration : WebServiceConfiguration :=
  ⟨"https", "api.overwatchleague.com"⟩

structure URLComponents where
  scheme : String
  host : String
  path : String

structure URLRequest where
  url : String
  httpMethod : String
  deriving DecidableEq, Repr

namespace URLRequestBuilder

def createURLComponets (action : WebServiceAction) (configuration : WebServiceConfiguration) :
    URLComponents :=
  ⟨configuration.scheme, configuration.host, action.path⟩

/-- `build`; `url` is Foundation's `URLComponents.url`, which may be `nil`. -/
def build (url : URLComponents → Option String) (action : WebServiceAction)
    (configuration : WebServiceConfiguration) : Option URLRequest :=
  match url (createURLComponets action configuration) with
  | none => none
  | some url => some { url, httpMethod := action.method.rawValue }

end URLRequestBuilder

/-! ## Executing it -/

/-- A response; `statusCode` is there when it is an `HTTPURLResponse`. -/
structure URLResponse where
  statusCode : Option Int
  mimeType : Option String
  deriving DecidableEq, Repr

structure URLError where
  code : Int
  deriving DecidableEq, Repr

inductive DataTaskOutcome where
  | failure (error : URLError)
  | success (data : Data) (response : URLResponse)

/-- Swift's `Error`, as far as the pipeline throws and casts it. -/
inductive AnyError where
  | url (error : URLError)
  | network (error : NetworkPlataformError)
  | decoding (error : DecodingError)
  deriving DecidableEq, Repr

def URLResponseErrorParser.parseErrorIfExists (response : URLResponse) :
    Option NetworkPlataformError :=
  match response.statusCode with
  | none => some .unkown
  | some statusCode => if 200 ≤ statusCode ∧ statusCode ≤ 299 then none else some .unkown

def NetworkPlataformErrorParser.parse (_error : AnyError) : NetworkPlataformError := .unkown

/-- `URLSession.dataTaskPublisher(for:)`, which delivers on the delegate queue. -/
def dataTaskPublisher : DataTaskOutcome → Publisher Executor (Data × URLResponse) URLError
  | .failure error => ⟨.urlSession, .fail error⟩
  | .success data response => ⟨.urlSession, .just (data, response)⟩

/-- `RequestExecuterImp.execute`; `urlSession` says how the task of a request ends. -/
def RequestExecuterImp.execute (urlSession : URLRequest → DataTaskOutcome)
    (urlRquest : URLRequest) : Publisher Executor Data NetworkPlataformError :=
  (dataTaskPublisher (urlSession urlRquest)).tryMap .url
      (fun (data, response) =>
        match URLResponseErrorParser.parseErrorIfExists response with
        | some error => .error (.network error)
        | none => .ok data)
    |>.mapError NetworkPlataformErrorParser.parse

structure TeamsWebServiceImp where
  action : WebServiceAction
  configuration : WebServiceConfiguration
  requestExecuter : URLRequest → Publisher Executor Data NetworkPlataformError

namespace TeamsWebServiceImp

/-- The closure of `mapError` in `getTeams`. -/
def mapDecodeError : AnyError → NetworkPlataformError
  | .decoding _ => .unkown
  | .network error => error
  | .url _ => .unkown

def getTeams (url : URLComponents → Option String) (service : TeamsWebServiceImp) :
    Publisher Executor (List TeamNetworkModel) NetworkPlataformError :=
  match URLRequestBuilder.build url service.action service.configuration with
  -- `Fail` sends its error to the subscriber at once, on the thread that subscribes.
  | none => ⟨.main, .fail .unkown⟩
  | some request =>
    (service.requestExecuter request).tryMap .network
        (fun data => (decodeTeamsResponse data).mapError .decoding)
      |>.mapError mapDecodeError
      |>.map TeamsResponse.data

end TeamsWebServiceImp

def createTeamsWebService (urlSession : URLRequest → DataTaskOutcome) : TeamsWebServiceImp where
  action := WebServiceActions.GetTeams
  configuration := OverwatchLeagueWebServiceConfiguration
  requestExecuter := RequestExecuterImp.execute urlSession

/-! ## What comes out -/

/-- A run of the service as its clients see it: a list and `.finished`, or a failure. -/
inductive NetworkOutcome where
  | success (models : List TeamNetworkModel)
  | failure (error : NetworkPlataformError)
  deriving DecidableEq, Repr

namespace NetworkOutcome

def run : NetworkOutcome → Run (List TeamNetworkModel) NetworkPlataformError
  | success models => .just models
  | failure error => .fail error

def publisher (o : NetworkOutcome) :
    Publisher Executor (List TeamNetworkModel) NetworkPlataformError :=
  ⟨.urlSession, o.run⟩

end NetworkOutcome

/-- The teams of an outcome: those of a decodable body under a status in `200...299`. -/
def DataTaskOutcome.accepted : DataTaskOutcome → Option (List TeamNetworkModel)
  | .failure _ => none
  | .success data response =>
    match response.statusCode with
    | none => none
    | some statusCode =>
      if 200 ≤ statusCode ∧ statusCode ≤ 299 then
        (decodeTeamsResponse data).toOption.map TeamsResponse.data
      else none

def DataTaskOutcome.networkOutcome (t : DataTaskOutcome) : NetworkOutcome :=
  match t.accepted with
  | some models => .success models
  | none => .failure .unkown

theorem execute_failure {urlSession : URLRequest → DataTaskOutcome} {request : URLRequest}
    {error : URLError} (h : urlSession request = .failure error) :
    RequestExecuterImp.execute urlSession request = ⟨.urlSession, .fail .unkown⟩ := by
  simp only [RequestExecuterImp.execute, h]
  rfl

theorem execute_success {urlSession : URLRequest → DataTaskOutcome} {request : URLRequest}
    {data : Data} {response : URLResponse} (h : urlSession request = .success data response) :
    RequestExecuterImp.execute urlSession request = ⟨.urlSession,
      match URLResponseErrorParser.parseErrorIfExists response with
      | some _ => .fail .unkown
      | none => .just data⟩ := by
  simp only [RequestExecuterImp.execute, h, dataTaskPublisher, Publisher.tryMap, Publisher.mapError,
    Run.tryMap_just]
  cases URLResponseErrorParser.parseErrorIfExists response <;> rfl

/-- **The service, once its request is built**: one list when the outcome is
accepted, the failure `.unkown` otherwise, on the delegate queue. -/
theorem getTeams_of_build {url : URLComponents → Option String}
    {urlSession : URLRequest → DataTaskOutcome} {action : WebServiceAction}
    {configuration : WebServiceConfiguration} {request : URLRequest}
    (h : URLRequestBuilder.build url action configuration = some request) :
    TeamsWebServiceImp.getTeams url ⟨action, configuration, RequestExecuterImp.execute urlSession⟩ =
      (urlSession request).networkOutcome.publisher := by
  simp only [TeamsWebServiceImp.getTeams, h]
  cases ht : urlSession request with
  | failure error => rw [execute_failure ht]; rfl
  | success data response =>
    rw [execute_success ht]
    cases hs : response.statusCode with
    | none =>
      simp only [URLResponseErrorParser.parseErrorIfExists, DataTaskOutcome.networkOutcome,
        DataTaskOutcome.accepted, hs]
      rfl
    | some statusCode =>
      simp only [URLResponseErrorParser.parseErrorIfExists, DataTaskOutcome.networkOutcome,
        DataTaskOutcome.accepted, hs]
      by_cases hr : 200 ≤ statusCode ∧ statusCode ≤ 299
      · simp only [if_pos hr, Publisher.tryMap, Publisher.mapError, Publisher.map, Run.tryMap_just]
        cases decodeTeamsResponse data <;> rfl
      · simp only [if_neg hr]
        rfl

end OverwatchTeams
