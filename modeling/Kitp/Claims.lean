import Kitp.Lib.Json

/-! The claims of a validated token, as the sign-in reads them. -/
namespace Kitp.SignIn

/-- `jwt.MapClaims`: the payload's fields. -/
abbrev Claims := List (String×Json)

/-- `claims[key].(string)`, empty for anything else. -/
def claimText (claims : Claims) (key : String) : String :=
  match claims.lookup key with
  | some (.str s) => s
  | _ => ""

/-- `claimPresent`: sent at all, even if empty. -/
def claimPresent (claims : Claims) (key : String) : Bool := (claims.lookup key).isSome

/-- `claimValues`: one string, or the strings of a list. -/
def claimValues (claims : Claims) (key : String) : List String :=
  match claims.lookup key with
  | some (.str s) => [s]
  | some (.arr xs) => xs.filterMap fun x => match x with
    | .str s => some s
    | _ => none
  | _ => []

end Kitp.SignIn
