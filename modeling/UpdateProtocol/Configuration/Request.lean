import UpdateProtocol.Configuration.Basic
import UpdateProtocol.Document
import UpdateProtocol.EventArgument
import UpdateProtocol.Message.Build

/-!
# The request of a configuration

Every installed application is reported with what the configuration says, and with the event that
was named, if any.
-/

namespace UpdateProtocol

/-- The version of the command line program. -/
def programVersion : String := "0.1.0"

/-- The name of the command line program. -/
def programName : String := "omaha-cli"

/-- A unique id as messages carry it. -/
def braced (id : String) : String :=
  "\x7b" ++ id ++ "\x7d"

/-- The entry of an installed application. -/
def Configuration.app (configuration : Configuration) (event : Option EventArgument)
    (installed : InstalledApp) : App where
  id := installed.id
  version := installed.version
  track := configuration.track
  machineId := configuration.machineId
  bootId := configuration.bootId
  oem := configuration.oem
  ping := if configuration.ping then some { lastReportDays := "1" } else none
  updateCheck := if configuration.updateCheck then some {} else none
  events := event.toList.map (fun event =>
    { eventType := event.eventType, result := event.result, previousVersion := installed.version })

/-- The request of a configuration, with unique ids for the session and the request. -/
def Configuration.request (configuration : Configuration) (event : Option EventArgument)
    (session request : String) : Request :=
  { Request.withVersion (programName ++ "-" ++ programVersion) with
    sessionId := braced session
    requestId := braced request
    apps := configuration.apps.map (configuration.app event) }

end UpdateProtocol
