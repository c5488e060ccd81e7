import Synclaire.Values

set_option relaxedAutoImplicit false
set_option autoImplicit false

/-!
# Errors

The error type of the crate with its `Display` texts and its constructor functions. Errors
of foreign types (`io::Error`, `AddrParseError`) are carried by their text.

## Main definitions

* `Synclaire.SynError` — the error type; `Synclaire.SynError.toStr` its text.
* `Synclaire.Panic` — the panics that the modelled code can run into.
-/

namespace Synclaire

/-- The error type of the crate. -/
inductive SynError
  | io (message : Str)
  | tls (message : Str)
  | config (message : Str)
  | addrParse (message : Str)
  | timeout (after : Duration) (context : Str)
  | rateLimited (scope key : Str)
  | throttled (scope : Str) (limit : ℕ)
  | bannedIp (ip : Str)
  | guardRejected (guard reason : Str)
  | malformedProbe (message : Str)
  | unsupportedFeature (feature : Str)
  | runtime (message : Str)
  deriving DecidableEq

namespace SynError

/-- The `Display` text of an error. -/
def toStr : SynError → Str
  | io message => "io error: ".toList ++ message
  | tls message => "tls error: ".toList ++ message
  | config message => "configuration error: ".toList ++ message
  | addrParse message => "address parse error: ".toList ++ message
  | timeout after context =>
    "timeout after ".toList ++ after.debug ++ " while ".toList ++ context
  | rateLimited scope key => "rate limited: ".toList ++ scope ++ " for ".toList ++ key
  | throttled scope limit =>
    "connection throttled: ".toList ++ scope ++ " limit ".toList ++ decimal limit
  | bannedIp ip => "ip banned: ".toList ++ ip
  | guardRejected guard reason =>
    "guard ".toList ++ guard ++ " rejected connection: ".toList ++ reason
  | malformedProbe message => "malformed probe: ".toList ++ message
  | unsupportedFeature feature => "unsupported feature: ".toList ++ feature
  | runtime message => "runtime error: ".toList ++ message

/-- `SynError::authentication_error`. -/
def authenticationError (message : Str) : SynError :=
  config ("authentication error: ".toList ++ message)

/-- `SynError::connection_error`. -/
def connectionError (message : Str) : SynError := runtime message

end SynError

/-- A panic of the program. -/
inductive Panic
  | arithmeticOverflow
  | indexOutOfBounds
  deriving DecidableEq

end Synclaire
