import OverwatchTeams.Domain.Models

/-!
# JSON values and their decoding

What `JSONDecoder` does with a parsed JSON value for the synthesised `Decodable`
conformances of the response types: a keyed container is an object, a missing
key, a `null` and a value of another kind are errors, keys nobody asks for are
ignored, and an array decodes when all its elements do.
-/

namespace OverwatchTeams

inductive Json where
  | null
  | bool (b : Bool)
  | number (text : String)
  | string (s : String)
  | array (elements : List Json)
  | object (members : List (String × Json))

inductive DecodingError where
  | typeMismatch
  | valueNotFound
  | keyNotFound (key : String)
  | dataCorrupted
  deriving DecidableEq, Repr

namespace Json

def keyed : Json → Except DecodingError (List (String × Json))
  | object members => .ok members
  | null => .error .valueNotFound
  | _ => .error .typeMismatch

def unkeyed : Json → Except DecodingError (List Json)
  | array elements => .ok elements
  | null => .error .valueNotFound
  | _ => .error .typeMismatch

def decodeString : Json → Except DecodingError String
  | string s => .ok s
  | null => .error .valueNotFound
  | _ => .error .typeMismatch

/-- The value a keyed container has for a key. -/
def member (members : List (String × Json)) (key : String) : Except DecodingError Json :=
  match members.lookup key with
  | some value => .ok value
  | none => .error (.keyNotFound key)

end Json

/-! ## The response types -/

namespace TeamLogoNetworkModel

structure Main where
  png : String
  deriving DecidableEq, Repr

def Main.decode (json : Json) : Except DecodingError Main := do
  let container ← json.keyed
  let png ← (← Json.member container "png").decodeString
  return { png }

end TeamLogoNetworkModel

structure TeamLogoNetworkModel where
  main : TeamLogoNetworkModel.Main
  deriving DecidableEq, Repr

def TeamLogoNetworkModel.decode (json : Json) : Except DecodingError TeamLogoNetworkModel := do
  let container ← json.keyed
  let main ← Main.decode (← Json.member container "main")
  return { main }

structure TeamNetworkModel where
  name : String
  abbreviatedName : String
  logo : TeamLogoNetworkModel
  location : String
  deriving DecidableEq, Repr

namespace TeamNetworkModel

def decode (json : Json) : Except DecodingError TeamNetworkModel := do
  let container ← json.keyed
  let name ← (← Json.member container "name").decodeString
  let abbreviatedName ← (← Json.member container "abbreviatedName").decodeString
  let logo ← TeamLogoNetworkModel.decode (← Json.member container "logo")
  let location ← (← Json.member container "location").decodeString
  return { name, abbreviatedName, logo, location }

def asDomain (model : TeamNetworkModel) : TeamModel where
  logoAddress := model.logo.main.png
  name := model.name
  abbreviatedName := model.abbreviatedName
  location := model.location

end TeamNetworkModel

/-- Two teams as the service lists them. -/
def dallasFuel : TeamNetworkModel := ⟨"Dallas Fuel", "DAL", ⟨⟨"dal.png"⟩⟩, "Dallas, TX"⟩

def bostonUprising : TeamNetworkModel :=
  ⟨"Boston Uprising", "BOS", ⟨⟨"bos.png"⟩⟩, "Boston, MA"⟩

structure TeamsResponse where
  data : List TeamNetworkModel
  deriving DecidableEq, Repr

def TeamsResponse.decode (json : Json) : Except DecodingError TeamsResponse := do
  let container ← json.keyed
  let data ← (← (← Json.member container "data").unkeyed).mapM TeamNetworkModel.decode
  return { data }

/-- The bytes of a response body, as far as a `JSONDecoder` sees them: the JSON
value they spell, if they spell one. -/
structure Data where
  json : Option Json

/-- `JSONDecoder().decode(TeamsResponse.self, from: data)`. -/
def decodeTeamsResponse (data : Data) : Except DecodingError TeamsResponse :=
  match data.json with
  | some json => TeamsResponse.decode json
  | none => .error .dataCorrupted

end OverwatchTeams
