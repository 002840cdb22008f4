import LedgerClient.Config.Profile
import LedgerClient.Config.Timeouts
/-!
# Settings

All that a configuration file can set.
-/
namespace LedgerClient.Config

structure Keys where
  strict : Bool := false
deriving DecidableEq, Repr, Inhabited

structure Observability where
  logLevel : String := "info"
deriving DecidableEq, Repr, Inhabited

structure Settings where
  connection : Profile := {}
  timeouts : Timeouts := {}
  keys : Keys := {}
  observability : Observability := {}
deriving DecidableEq, Repr, Inhabited

end LedgerClient.Config
