/-! Why a service, a route or a configuration is refused. -/

namespace Switchboard

inductive IoError where
  | notFound
  | notDirectory
  | isDirectory
  | notText
  | nulInPath
  | invalidAddress
  | invalidPort
  | unknownHost
  | addressNotAvailable
  | other (reason : String)
deriving DecidableEq, Repr

def IoError.message : IoError → String
  | notFound => "No such file or directory (os error 2)"
  | notDirectory => "Not a directory (os error 20)"
  | isDirectory => "Is a directory (os error 21)"
  | notText => "stream did not contain valid UTF-8"
  | nulInPath => "file name contained an unexpected NUL byte"
  | invalidAddress => "invalid socket address"
  | invalidPort => "invalid port value"
  | unknownHost => "failed to lookup address information: Name or service not known"
  | addressNotAvailable => "Cannot assign requested address (os error 99)"
  | other reason => reason

inductive SetupError where
  | middlewareNotFound (name : String)
  | invalidMiddleware (name reason : String)
  | invalidRoute (reason : String)
  | config (reason : String)
  | io (cause : IoError)
  | yaml
  | server (reason : String)
deriving DecidableEq, Repr

def SetupError.message : SetupError → String
  | middlewareNotFound name => "middleware not found: " ++ name
  | invalidMiddleware name reason => "invalid middleware config for '" ++ name ++ "': " ++ reason
  | invalidRoute reason => "invalid route: " ++ reason
  | config reason => "config error: " ++ reason
  | io cause => "io error: " ++ cause.message
  | yaml => "yaml error"
  | server reason => "server error: " ++ reason

end Switchboard
