import Clerk.Json.Token

/-!
# The shape of JSON

What is inside a pair of brackets is cut at its commas, those of inner brackets aside.  A value
whose content does not matter still has to be well formed: `isValue` follows its tokens with a
stack of the brackets that are open.
-/

set_option autoImplicit false

namespace Clerk.Json

/-- The tokens between an opening and a closing token at the two ends. -/
def enclosed? (opening closing : Token) : List Token → Option (List Token)
  | [] => none
  | first :: rest =>
    if first = opening ∧ rest.getLast? = some closing then some rest.dropLast else none

/-- The number of open brackets after a token. -/
def depthAfter (depth : Nat) : Token → Nat
  | .openBrace | .openBracket => depth + 1
  | .closeBrace | .closeBracket => depth - 1
  | _ => depth

/-- Cuts tokens at the commas that stand in no inner bracket. -/
def splitItems (depth : Nat) : List Token → List (List Token)
  | [] => [[]]
  | token :: rest =>
    let later := splitItems (depthAfter depth token) rest
    if token = .comma ∧ depth = 0 then [] :: later else later.modifyHead (token :: ·)

/-- The items between two brackets; there are none between brackets that meet. -/
def items (body : List Token) : List (List Token) :=
  if body.isEmpty then [] else splitItems 0 body

/-- A bracket that is open. -/
inductive Frame where
  | list
  | record
  deriving DecidableEq, Repr

/-- What has to come next in a value. -/
inductive Due where
  | value
  | valueOrClose
  | key
  | keyOrClose
  | colon
  | separator
  deriving DecidableEq, Repr

/-- Where a token leads; a token out of place leads nowhere. -/
def follow : Due × List Frame → Token → Option (Due × List Frame)
  | (.valueOrClose, .list :: frames), .closeBracket => some (.separator, frames)
  | (.value, frames), token | (.valueOrClose, frames), token =>
    match token with
    | .openBracket => some (.valueOrClose, .list :: frames)
    | .openBrace => some (.keyOrClose, .record :: frames)
    | .null | .boolean | .string _ | .integer _ _ | .decimal => some (.separator, frames)
    | _ => none
  | (.keyOrClose, .record :: frames), .closeBrace => some (.separator, frames)
  | (.key, frames), .string _ | (.keyOrClose, frames), .string _ => some (.colon, frames)
  | (.colon, frames), .colon => some (.value, frames)
  | (.separator, .list :: frames), .comma => some (.value, .list :: frames)
  | (.separator, .list :: frames), .closeBracket => some (.separator, frames)
  | (.separator, .record :: frames), .comma => some (.key, .record :: frames)
  | (.separator, .record :: frames), .closeBrace => some (.separator, frames)
  | _, _ => none

/-- Where tokens lead, one after the other. -/
def followAll : Due × List Frame → List Token → Option (Due × List Frame)
  | state, [] => some state
  | state, token :: rest => (follow state token).bind fun next => followAll next rest

/-- Whether tokens are one well-formed value. -/
def isValue (tokens : List Token) : Bool :=
  followAll (.value, []) tokens == some (.separator, [])

end Clerk.Json
