import UpdateProtocol.Vocabulary.Basic

/-!
# Status codes

What a server says about an application (`AppStatus`) and about the update it was asked for
(`UpdateStatus`).
-/

namespace UpdateProtocol

/-- Status of one application. -/
inductive AppStatus where
  | ok
  | restricted
  | unknownId
  | invalidId
  | internalError
  | hashError
  | unsupportedProtocol
  deriving DecidableEq, Repr

instance : Vocabulary AppStatus where
  all := [.ok, .restricted, .unknownId, .invalidId, .internalError, .hashError,
    .unsupportedProtocol]
  token
    | .ok => "ok"
    | .restricted => "restricted"
    | .unknownId => "error-unknownApplication"
    | .invalidId => "error-invalidAppId"
    | .internalError => "error-internal"
    | .hashError => "error-hash"
    | .unsupportedProtocol => "error-unsupportedProtocol"

/-- Outcome of an update check. -/
inductive UpdateStatus where
  | noUpdate
  | ok
  | osNotSupported
  | unsupportedProtocol
  | pluginRestrictedHost
  | hashError
  | internalError
  deriving DecidableEq, Repr

instance : Vocabulary UpdateStatus where
  all := [.noUpdate, .ok, .osNotSupported, .unsupportedProtocol, .pluginRestrictedHost, .hashError,
    .internalError]
  token
    | .noUpdate => "noupdate"
    | .ok => "ok"
    | .osNotSupported => "error-osnotsupported"
    | .unsupportedProtocol => "error-unsupportedProtocol"
    | .pluginRestrictedHost => "error-pluginRestrictedHost"
    | .hashError => "error-hash"
    | .internalError => "error-internal"

/-- Whether an update status reports an error: its token begins with `error-`, known or not. -/
def Code.isError (status : Code UpdateStatus) : Bool :=
  "error-".toList.isPrefixOf status.token.toList

end UpdateProtocol
