import OverwatchTeams.NetworkPlatform.TeamsWebService
import OverwatchTeams.Lib.Fallible

/-!
# Well-formed responses

What a body must look like for its teams to come out. `TeamNetworkModel.SpelledBy`
reads a team off a JSON value without decoding it, and each decoder is shown to
succeed with exactly what is spelled, one lemma per response type. A response is
`WellFormed` when its status is in `200...299` and every element of its `"data"` is
a team; `getTeams_emits_iff` says that only these responses give a list.
-/

namespace OverwatchTeams

open Combine Fallible

/-! ## Containers -/

namespace Json

def Has (json : Json) (key : String) (value : Json) : Prop :=
  ∃ members, json = .object members ∧ members.lookup key = some value

theorem keyed_eq_ok {json : Json} {members : List (String × Json)} :
    json.keyed = .ok members ↔ json = .object members := by
  cases json <;> simp [keyed]

theorem unkeyed_eq_ok {json : Json} {elements : List Json} :
    json.unkeyed = .ok elements ↔ json = .array elements := by
  cases json <;> simp [unkeyed]

theorem decodeString_eq_ok {json : Json} {s : String} :
    json.decodeString = .ok s ↔ json = .string s := by
  cases json <;> simp [decodeString]

theorem member_eq_ok {members : List (String × Json)} {key : String} {value : Json} :
    member members key = .ok value ↔ members.lookup key = some value := by
  unfold member
  cases members.lookup key <;> simp

def WellFormedTeam (json : Json) : Prop :=
  (∃ s, json.Has "name" (.string s)) ∧ (∃ s, json.Has "abbreviatedName" (.string s)) ∧
    (∃ s, json.Has "location" (.string s)) ∧
    ∃ logo main, json.Has "logo" logo ∧ logo.Has "main" main ∧ ∃ s, main.Has "png" (.string s)

end Json

/-! ## Response types -/

theorem TeamLogoNetworkModel.Main.decode_eq_ok {json : Json} {model : TeamLogoNetworkModel.Main} :
    decode json = .ok model ↔ json.Has "png" (.string model.png) := by
  -- Without `-existsAndEq` some of the decoders' intermediate values disappear, others do not.
  simp only [-existsAndEq, decode, bind_eq_ok, pure_eq_ok, Json.keyed_eq_ok, Json.member_eq_ok,
    Json.decodeString_eq_ok]
  constructor
  · rintro ⟨members, hjson, _, hpng, _, rfl, rfl⟩
    exact ⟨members, hjson, hpng⟩
  · rintro ⟨members, hjson, hpng⟩
    exact ⟨members, hjson, _, hpng, _, rfl, rfl⟩

theorem TeamLogoNetworkModel.decode_eq_ok {json : Json} {model : TeamLogoNetworkModel} :
    decode json = .ok model ↔
      ∃ main, json.Has "main" main ∧ main.Has "png" (.string model.main.png) := by
  simp only [-existsAndEq, decode, bind_eq_ok, pure_eq_ok, Json.keyed_eq_ok, Json.member_eq_ok,
    Main.decode_eq_ok]
  constructor
  · rintro ⟨members, hjson, main, hmain, model, hpng, rfl⟩
    exact ⟨main, ⟨members, hjson, hmain⟩, hpng⟩
  · rintro ⟨main, ⟨members, hjson, hmain⟩, hpng⟩
    exact ⟨members, hjson, main, hmain, _, hpng, rfl⟩

namespace TeamNetworkModel

/-- The JSON value is an object that spells every field of the team. -/
structure SpelledBy (json : Json) (model : TeamNetworkModel) : Prop where
  name : json.Has "name" (.string model.name)
  abbreviatedName : json.Has "abbreviatedName" (.string model.abbreviatedName)
  logo : ∃ logo main, json.Has "logo" logo ∧ logo.Has "main" main ∧
    main.Has "png" (.string model.logo.main.png)
  location : json.Has "location" (.string model.location)

theorem decode_eq_ok {json : Json} {model : TeamNetworkModel} :
    decode json = .ok model ↔ SpelledBy json model := by
  simp only [-existsAndEq, decode, bind_eq_ok, pure_eq_ok, Json.keyed_eq_ok, Json.member_eq_ok,
    Json.decodeString_eq_ok, TeamLogoNetworkModel.decode_eq_ok]
  constructor
  · rintro ⟨members, hjson, _, hname, _, rfl, _, habbr, _, rfl, logoJson, hlogo, logo,
      ⟨main, hmain, hpng⟩, _, hlocation, _, rfl, rfl⟩
    exact ⟨⟨members, hjson, hname⟩, ⟨members, hjson, habbr⟩,
      ⟨logoJson, main, ⟨members, hjson, hlogo⟩, hmain, hpng⟩, ⟨members, hjson, hlocation⟩⟩
  · rintro ⟨⟨members, rfl, hname⟩, ⟨_, h₁, habbr⟩,
      ⟨logoJson, main, ⟨_, h₂, hlogo⟩, hmain, hpng⟩, ⟨_, h₃, hlocation⟩⟩
    -- One value is an object in one way: all the keys are looked up in the same members.
    cases h₁
    cases h₂
    cases h₃
    exact ⟨members, rfl, _, hname, _, rfl, _, habbr, _, rfl, logoJson, hlogo, _,
      ⟨main, hmain, hpng⟩, _, hlocation, _, rfl, rfl⟩

theorem exists_spelledBy_iff {json : Json} :
    (∃ model, SpelledBy json model) ↔ json.WellFormedTeam := by
  constructor
  · rintro ⟨model, ⟨hname, habbr, ⟨logo, main, hlogo, hmain, hpng⟩, hlocation⟩⟩
    exact ⟨⟨_, hname⟩, ⟨_, habbr⟩, ⟨_, hlocation⟩, logo, main, hlogo, hmain, _, hpng⟩
  · rintro ⟨⟨name, hname⟩, ⟨abbreviatedName, habbr⟩, ⟨location, hlocation⟩, logo, main, hlogo,
      hmain, png, hpng⟩
    exact ⟨⟨name, abbreviatedName, ⟨⟨png⟩⟩, location⟩, hname, habbr,
      ⟨logo, main, hlogo, hmain, hpng⟩, hlocation⟩

/-- All the elements of an array spell teams exactly when each is well formed: one
that is not, at any position, leaves no list at all. -/
theorem exists_forall₂_spelledBy_iff {elements : List Json} :
    (∃ models, List.Forall₂ SpelledBy elements models) ↔ ∀ e ∈ elements, e.WellFormedTeam := by
  induction elements with
  | nil => exact ⟨fun _ => nofun, fun _ => ⟨[], .nil⟩⟩
  | cons e es ih =>
    rw [List.forall_mem_cons, ← ih, ← exists_spelledBy_iff]
    constructor
    · intro ⟨models, hmodels⟩
      cases hmodels with
      | cons hmodel hrest => exact ⟨⟨_, hmodel⟩, _, hrest⟩
    · rintro ⟨⟨model, hmodel⟩, models, hmodels⟩
      exact ⟨model :: models, .cons hmodel hmodels⟩

end TeamNetworkModel

theorem TeamsResponse.decode_eq_ok {json : Json} {response : TeamsResponse} :
    decode json = .ok response ↔ ∃ elements, json.Has "data" (.array elements) ∧
      List.Forall₂ TeamNetworkModel.SpelledBy elements response.data := by
  simp only [-existsAndEq, decode, bind_eq_ok, pure_eq_ok, Json.keyed_eq_ok, Json.member_eq_ok,
    Json.unkeyed_eq_ok, mapM_eq_ok, TeamNetworkModel.decode_eq_ok]
  constructor
  · rintro ⟨members, hjson, _, hdata, elements, rfl, models, hmodels, rfl⟩
    exact ⟨elements, ⟨members, hjson, hdata⟩, hmodels⟩
  · rintro ⟨elements, ⟨members, hjson, hdata⟩, hmodels⟩
    exact ⟨members, hjson, _, hdata, elements, rfl, _, hmodels, rfl⟩

theorem decodeTeamsResponse_eq_ok {data : Data} {response : TeamsResponse} :
    decodeTeamsResponse data = .ok response ↔
      ∃ json, data.json = some json ∧ TeamsResponse.decode json = .ok response := by
  unfold decodeTeamsResponse
  cases data.json <;> simp

theorem decodeTeamsResponse_toOption_eq_some {data : Data} {models : List TeamNetworkModel} :
    (decodeTeamsResponse data).toOption.map TeamsResponse.data = some models ↔
      ∃ json elements, data.json = some json ∧ json.Has "data" (.array elements) ∧
        List.Forall₂ TeamNetworkModel.SpelledBy elements models := by
  have hdecode : (decodeTeamsResponse data).toOption.map TeamsResponse.data = some models ↔
      decodeTeamsResponse data = .ok ⟨models⟩ := by
    cases decodeTeamsResponse data with
    | error e => exact ⟨nofun, nofun⟩
    | ok response => exact ⟨fun h => by cases h; rfl, fun h => by cases h; rfl⟩
  rw [hdecode, decodeTeamsResponse_eq_ok]
  simp only [TeamsResponse.decode_eq_ok]
  constructor
  · rintro ⟨json, hjson, elements, hdata, hmodels⟩
    exact ⟨json, elements, hjson, hdata, hmodels⟩
  · rintro ⟨json, elements, hjson, hdata, hmodels⟩
    exact ⟨json, hjson, elements, hdata, hmodels⟩

/-! ## Outcomes of the data task -/

namespace DataTaskOutcome

/-- An HTTP response with a status in `200...299`, whose body is an object with this
array under `"data"`. -/
def HasElements (t : DataTaskOutcome) (elements : List Json) : Prop :=
  ∃ data response statusCode json, t = .success data response ∧
    response.statusCode = some statusCode ∧ 200 ≤ statusCode ∧ statusCode ≤ 299 ∧
    data.json = some json ∧ json.Has "data" (.array elements)

def WellFormed (t : DataTaskOutcome) : Prop :=
  ∃ elements, t.HasElements elements ∧ ∀ e ∈ elements, e.WellFormedTeam

theorem accepted_eq_some {t : DataTaskOutcome} {models : List TeamNetworkModel} :
    t.accepted = some models ↔
      ∃ elements, t.HasElements elements ∧
        List.Forall₂ TeamNetworkModel.SpelledBy elements models := by
  cases t with
  | failure error =>
    refine ⟨nofun, fun ⟨_, ⟨_, _, _, _, ht, _⟩, _⟩ => ?_⟩
    cases ht
  | success data response =>
    constructor
    · intro h
      simp only [accepted] at h
      split at h
      · cases h
      · next statusCode hstatus =>
        split at h
        · next hrange =>
          obtain ⟨json, elements, hjson, hdata, hmodels⟩ :=
            decodeTeamsResponse_toOption_eq_some.1 h
          exact ⟨elements, ⟨data, response, statusCode, json, rfl, hstatus, hrange.1, hrange.2,
            hjson, hdata⟩, hmodels⟩
        · cases h
    · rintro ⟨elements, ⟨_, _, statusCode, json, ht, hstatus, hlow, hhigh, hjson, hdata⟩, hmodels⟩
      cases ht
      simp only [accepted, hstatus, if_pos (And.intro hlow hhigh)]
      exact decodeTeamsResponse_toOption_eq_some.2 ⟨json, elements, hjson, hdata, hmodels⟩

theorem exists_accepted_iff {t : DataTaskOutcome} :
    (∃ models, t.accepted = some models) ↔ t.WellFormed := by
  simp only [accepted_eq_some, WellFormed, ← TeamNetworkModel.exists_forall₂_spelledBy_iff]
  constructor
  · rintro ⟨models, elements, ht, hmodels⟩
    exact ⟨elements, ht, models, hmodels⟩
  · rintro ⟨elements, ht, models, hmodels⟩
    exact ⟨models, elements, ht, hmodels⟩

theorem networkOutcome_events_eq {t : DataTaskOutcome} {models : List TeamNetworkModel} :
    t.networkOutcome.run.events = [.value models, .completion .finished] ↔
      t.accepted = some models := by
  unfold networkOutcome
  cases t.accepted with
  | none => exact ⟨nofun, nofun⟩
  | some accepted => exact ⟨fun h => by cases h; rfl, fun h => by cases h; rfl⟩

theorem networkOutcome_events_of_not_wellFormed {t : DataTaskOutcome} (h : ¬ t.WellFormed) :
    t.networkOutcome.run.events = [.completion (.failure .unkown)] := by
  unfold networkOutcome
  cases ht : t.accepted with
  | none => rfl
  | some models => exact absurd (exists_accepted_iff.1 ⟨models, ht⟩) h

end DataTaskOutcome

/-! ## The service -/

/-- **Exactly the well-formed responses are accepted, all or nothing.** Once the
request is built, the service emits the teams the array spells, in its order, and
finishes; for any response that is not well formed it emits nothing and fails once
with `.unkown`. -/
theorem getTeams_emits_iff (url : URLComponents → Option String)
    (urlSession : URLRequest → DataTaskOutcome) (action : WebServiceAction)
    (configuration : WebServiceConfiguration) (request : URLRequest)
    (h : URLRequestBuilder.build url action configuration = some request) :
    let t := urlSession request
    let events := (TeamsWebServiceImp.getTeams url
      ⟨action, configuration, RequestExecuterImp.execute urlSession⟩).run.events
    (∀ models, events = [.value models, .completion .finished] ↔
      ∃ elements, t.HasElements elements ∧
        List.Forall₂ TeamNetworkModel.SpelledBy elements models) ∧
    ((∃ models, events = [.value models, .completion .finished]) ↔ t.WellFormed) ∧
    (¬ t.WellFormed → events = [.completion (.failure .unkown)]) := by
  intro t events
  have hevents : events = t.networkOutcome.run.events := by
    simp only [events, getTeams_of_build h]
    rfl
  rw [hevents]
  refine ⟨fun models => ?_, ?_, DataTaskOutcome.networkOutcome_events_of_not_wellFormed⟩
  · rw [DataTaskOutcome.networkOutcome_events_eq, DataTaskOutcome.accepted_eq_some]
  · simp only [DataTaskOutcome.networkOutcome_events_eq]
    exact DataTaskOutcome.exists_accepted_iff

/-- A team with an extra key. -/
def dallasFuelJson : Json := .object [
  ("id", .number "4523"), ("name", .string "Dallas Fuel"), ("abbreviatedName", .string "DAL"),
  ("logo", .object [("main", .object [("png", .string "dal.png")])]),
  ("location", .string "Dallas, TX")]

/-- A team with its keys in another order and an extra logo. -/
def bostonUprisingJson : Json := .object [
  ("location", .string "Boston, MA"), ("abbreviatedName", .string "BOS"),
  ("logo", .object [("alt", .null), ("main", .object [("png", .string "bos.png")])]),
  ("name", .string "Boston Uprising")]

def twoTeamsBody : Data where
  json := some <| .object
    [("total", .number "2"), ("data", .array [bostonUprisingJson, dallasFuelJson])]

theorem twoTeams_spelled :
    List.Forall₂ TeamNetworkModel.SpelledBy [bostonUprisingJson, dallasFuelJson]
      [bostonUprising, dallasFuel] := by
  refine .cons ?_ (.cons ?_ .nil)
  · exact ⟨⟨_, rfl, rfl⟩, ⟨_, rfl, rfl⟩, ⟨_, _, ⟨_, rfl, rfl⟩, ⟨_, rfl, rfl⟩, ⟨_, rfl, rfl⟩⟩,
      ⟨_, rfl, rfl⟩⟩
  · exact ⟨⟨_, rfl, rfl⟩, ⟨_, rfl, rfl⟩, ⟨_, _, ⟨_, rfl, rfl⟩, ⟨_, rfl, rfl⟩, ⟨_, rfl, rfl⟩⟩,
      ⟨_, rfl, rfl⟩⟩

theorem twoTeams_hasElements (response : URLResponse) (h : response.statusCode = some 200) :
    (DataTaskOutcome.success twoTeamsBody response).HasElements
      [bostonUprisingJson, dallasFuelJson] :=
  ⟨_, _, 200, _, rfl, h, by decide, by decide, rfl, _, rfl, rfl⟩

theorem getTeams_emits_twoTeams :
    (TeamsWebServiceImp.getTeams (fun c => some (c.scheme ++ "://" ++ c.host ++ c.path))
      (createTeamsWebService fun _ => .success twoTeamsBody ⟨some 200, none⟩)).run.events =
      [.value [bostonUprising, dallasFuel], .completion .finished] :=
  ((getTeams_emits_iff (fun c => some (c.scheme ++ "://" ++ c.host ++ c.path))
    (fun _ => .success twoTeamsBody ⟨some 200, none⟩) WebServiceActions.GetTeams
    OverwatchLeagueWebServiceConfiguration _ rfl).1 _).2
    ⟨_, twoTeams_hasElements _ rfl, twoTeams_spelled⟩

end OverwatchTeams
