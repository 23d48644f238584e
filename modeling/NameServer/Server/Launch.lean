import NameServer.Server.Basic

/-!
# Starting from the command line

The first argument is the path of the configuration, which may name a state
file and a token file. Further arguments are ignored.
-/

namespace NameServer

inductive LaunchError where
  | usage (program : String)
  | config (error : ConfigError)
  | file (error : FileError)
  deriving DecidableEq, Repr

def LaunchError.message : LaunchError → String
  | usage program => "usage: " ++ program ++ " /path/to/config.json"
  | config error => error.message
  | file error => error.message

def launch (program : String) (arguments : List String) (disk : String → Place) :
    Except LaunchError Server :=
  match arguments with
  | [] => .error (.usage program)
  | path :: _ =>
    match Config.ofPlace (disk path) with
    | .error error => .error (.config error)
    | .ok config =>
      let stateFile := config.sessions.statePath.map disk
      let tokenFile := config.acme.tokensPath.map disk
      (Server.start config stateFile tokenFile).mapError .file

end NameServer
