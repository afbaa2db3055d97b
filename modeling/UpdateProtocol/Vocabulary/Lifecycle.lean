import UpdateProtocol.Vocabulary.Basic

/-!
# Lifecycle codes

What happened to an application on a client (`EventType`) and how it ended (`EventResult`).
-/

namespace UpdateProtocol

/-- Milestone in the life of an application. -/
inductive EventType where
  | unknown
  | downloadComplete
  | installComplete
  | updateComplete
  | uninstall
  | downloadStarted
  | installStarted
  | newApplicationInstallStarted
  | setupStarted
  | setupFinished
  | updateApplicationStarted
  | updateDownloadStarted
  | updateDownloadFinished
  | updateInstallerStarted
  | setupUpdateBegin
  | setupUpdateComplete
  | registerProductComplete
  | oemInstallFirstCheck
  | appSpecificCommandStarted
  | appSpecificCommandEnded
  | setupFailure
  | comServerFailure
  | setupUpdateFailure
  deriving DecidableEq, Repr

instance : Vocabulary EventType where
  all := [.unknown, .downloadComplete, .installComplete, .updateComplete, .uninstall,
    .downloadStarted, .installStarted, .newApplicationInstallStarted, .setupStarted,
    .setupFinished, .updateApplicationStarted, .updateDownloadStarted, .updateDownloadFinished,
    .updateInstallerStarted, .setupUpdateBegin, .setupUpdateComplete, .registerProductComplete,
    .oemInstallFirstCheck, .appSpecificCommandStarted, .appSpecificCommandEnded, .setupFailure,
    .comServerFailure, .setupUpdateFailure]
  token
    | .unknown => "0"
    | .downloadComplete => "1"
    | .installComplete => "2"
    | .updateComplete => "3"
    | .uninstall => "4"
    | .downloadStarted => "5"
    | .installStarted => "6"
    | .newApplicationInstallStarted => "9"
    | .setupStarted => "10"
    | .setupFinished => "11"
    | .updateApplicationStarted => "12"
    | .updateDownloadStarted => "13"
    | .updateDownloadFinished => "14"
    | .updateInstallerStarted => "15"
    | .setupUpdateBegin => "16"
    | .setupUpdateComplete => "17"
    | .registerProductComplete => "20"
    | .oemInstallFirstCheck => "30"
    | .appSpecificCommandStarted => "40"
    | .appSpecificCommandEnded => "41"
    | .setupFailure => "100"
    | .comServerFailure => "102"
    | .setupUpdateFailure => "103"

/-- How the milestone ended. -/
inductive EventResult where
  | error
  | success
  | successReboot
  | successRestartBrowser
  | cancelled
  | errorInstallerMsi
  | errorInstallerOther
  | noUpdate
  | errorInstallerSystem
  | updateDeferred
  | handoffError
  deriving DecidableEq, Repr

instance : Vocabulary EventResult where
  all := [.error, .success, .successReboot, .successRestartBrowser, .cancelled,
    .errorInstallerMsi, .errorInstallerOther, .noUpdate, .errorInstallerSystem, .updateDeferred,
    .handoffError]
  token
    | .error => "0"
    | .success => "1"
    | .successReboot => "2"
    | .successRestartBrowser => "3"
    | .cancelled => "4"
    | .errorInstallerMsi => "5"
    | .errorInstallerOther => "6"
    | .noUpdate => "7"
    | .errorInstallerSystem => "8"
    | .updateDeferred => "9"
    | .handoffError => "10"

/-- The three results that report success. -/
def Code.isSuccess : Code EventResult → Bool
  | .known .success | .known .successReboot | .known .successRestartBrowser => true
  | _ => false

end UpdateProtocol
