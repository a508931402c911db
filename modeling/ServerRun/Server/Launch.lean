import ServerRun.Model.Installation
import ServerRun.Json.Basic

/-! The command line and the environment that a server is launched with. -/

namespace ServerRun.Installation

/-- The command line of a server in standalone mode. -/
def commandLine (i : Installation) : List String :=
  [i.java, "-D[Standalone]"] ++ i.jvmArgs ++
    [ "-Dorg.jboss.boot.log.file=" ++ (i.home / "standalone" / "log" / "boot.log").toString,
      "-Dlogging.configuration=file:" ++
        (i.home / "standalone" / "configuration" / "logging.properties").toString,
      "-jar", (i.home / "jboss-modules.jar").toString,
      "-mp", i.modules.toString,
      "-jaxpmodule", "javax.xml.jaxp-provider",
      "org.jboss.as.standalone",
      "-Djboss.home.dir=" ++ i.home.toString,
      "-Djboss.bundles.dir=" ++ i.bundles.toString,
      "-Djboss.bind.address.management=" ++ i.host,
      "-Djboss.management.http.port=" ++ toString i.port ] ++
    match i.serverConfig with
    | some c => if c = "" then [] else ["--server-config=" ++ c]
    | none => []

/-- The environment of a server: the inherited one with the locations of the server and, where one
is known, of the virtual machine. -/
def environment (i : Installation) (inherited : List (String × String)) : List (String × String) :=
  let env := Fields.insert inherited "JBOSS_HOME" i.home.toString
  match i.javaHome with
  | some j => if j = "" then env else Fields.insert env "JAVA_HOME" j
  | none => env

end ServerRun.Installation
