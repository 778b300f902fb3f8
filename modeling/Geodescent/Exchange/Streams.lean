import Geodescent.Observation
import Geodescent.Text.Json

/-!
Streams in requests and answers. A stream goes by its name, wherever the request speaks of it; its
text is all that was written to it. Shared specifications speak only where they are referred to.
-/
namespace Geodescent.Exchange

mutual
/-- The texts that stand somewhere under one of the given keys. Keys of tables do not count. -/
def textsUnder (keys : List String) : Json → List String
  | .array items => textsUnderEach keys items
  | .object [("dict", .object fields)] => textsUnderFields keys fields
  | .object fields => directTexts keys fields ++ textsUnderFields keys fields
  | _ => []

def textsUnderEach (keys : List String) : List Json → List String
  | [] => []
  | j :: js => textsUnder keys j ++ textsUnderEach keys js

def textsUnderFields (keys : List String) : List (String × Json) → List String
  | [] => []
  | (_, j) :: fields => textsUnder keys j ++ textsUnderFields keys fields

def directTexts (keys : List String) : List (String × Json) → List String
  | [] => []
  | (key, .text name) :: fields =>
    if keys.contains key then name :: directTexts keys fields else directTexts keys fields
  | _ :: fields => directTexts keys fields
end

def reached (share : List (String × Json)) : Nat → List String → List String
  | 0, names => names
  | count + 1, names =>
    let more := (names.filterMap (share.lookup ·)).flatMap (textsUnder ["ref"])
    reached share count (names ++ more).eraseDups

/-- The names of the streams that a request speaks of, itself or in a shared specification that is
reached from it. -/
def streamNames (request : Json) : List String :=
  let share := (request.get "share").fields
  let own := Json.object (request.fields.filter fun field => field.1 != "share")
  let used := reached share share.length (textsUnder ["ref"] own)
  (own :: used.filterMap (share.lookup ·)).flatMap (textsUnder ["io", "stream"])

def outletName : Outlet → String
  | .standard => "stdout"
  | .named name => name

def writtenTo (names : List String) (c : Console) : Json :=
  .object (names.eraseDups.map fun name => (name, .text (c.text (.named name))))

def writtenAnywhere (c : Console) : Json :=
  .object (c.outlets.filterMap fun outlet =>
    if (c.text outlet).isEmpty then none else some (outletName outlet, .text (c.text outlet)))

end Geodescent.Exchange
