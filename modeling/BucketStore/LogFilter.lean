import BucketStore.LogFilter.Directive

namespace BucketStore

inductive SetupError
  | config (reason : String)
  | internal (reason : String)
deriving DecidableEq

def SetupError.message : SetupError → String
  | .config reason => "configuration error: " ++ reason
  | .internal reason => reason

namespace LogFilter

/-- Directives stand between commas, and empty ones say nothing. The first faulty one decides. -/
def firstFault? (filter : String) : Option Fault :=
  (filter.toList.splitOn ',').findSome? (fun directive => if directive = [] then none else fault? directive)

def install (taken : Bool) (filter : String) : Except SetupError Unit :=
  match firstFault? filter with
  | some fault => .error (.config ("invalid log level filter " ++ filter ++ ": " ++ fault.message))
  | none =>
    if taken then
      .error (.internal
        "failed to install subscriber: a global default trace dispatcher has already been set")
    else .ok ()

end LogFilter

end BucketStore
