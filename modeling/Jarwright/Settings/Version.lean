import Jarwright.Mapping.Side
import Jarwright.Text.Blank

/-!
# What is built

The distribution of the game, and the release of the tables of names.
-/

namespace Jarwright.Settings

/-- A text without blanks around it and with the letters of ASCII in lower case. -/
def normalized (value : String) : String :=
  String.ofList ((Text.trim value.toList).map Mapping.Side.lowerAscii)

/-- Which half of the game is built. -/
inductive Distribution where
  | client | server
  deriving DecidableEq, Repr, Inhabited

/-- The name of a distribution. -/
def Distribution.name : Distribution → String
  | .client => "client"
  | .server => "server"

/-- The distribution that a text names, in any case and with blanks around it. -/
def Distribution.parse? (value : String) : Option Distribution :=
  match normalized value with
  | "client" => some .client
  | "server" => some .server
  | _ => none

/-- The side for which names are looked up. -/
def Distribution.side : Distribution → Mapping.Side
  | .client => .client
  | .server => .server

/-- A release of the tables of names. -/
inductive MappingVersion where
  /-- The tables as they are at the moment. -/
  | live
  /-- A release of a channel. -/
  | released (channel version : String)
  deriving DecidableEq, Repr, Inhabited

namespace MappingVersion

/-- The name of a release. -/
def name : MappingVersion → String
  | .live => "live"
  | .released channel version => channel ++ "-" ++ version

/-- Whether the tables may change. -/
def isLive : MappingVersion → Bool
  | .live => true
  | .released .. => false

/-- The release that a text names: `live` in any case, or a channel and what stands behind its
dash, neither of them empty. -/
def parse? (value : String) : Option MappingVersion :=
  let cs := Text.trim value.toList
  if normalized value = "live" then some .live
  else match cs.takeWhile (· != '-'), cs.dropWhile (· != '-') with
    | c :: channel, _ :: v :: version =>
      some (.released (String.ofList (c :: channel)) (String.ofList (v :: version)))
    | _, _ => none

end MappingVersion

end Jarwright.Settings
