/-!
# Identifiers

The branded strings of `packages/core/src/ids.ts`, as far as the modelled code
compares them.
-/

namespace Opensteer

structure WorkspaceId where
  value : String
deriving DecidableEq, Repr

structure ThreadId where
  value : String
deriving DecidableEq, Repr

structure RunId where
  value : String
deriving DecidableEq, Repr

structure CommandId where
  value : String
deriving DecidableEq, Repr

structure EnvironmentId where
  value : String
deriving DecidableEq, Repr

structure RunnerId where
  value : String
deriving DecidableEq, Repr

structure RequestId where
  value : String
deriving DecidableEq, Repr

structure TriggerOccurrenceId where
  value : String
deriving DecidableEq, Repr

structure UserId where
  value : String
deriving DecidableEq, Repr

structure ComputerUseSessionId where
  value : String
deriving DecidableEq, Repr

structure ComputerViewId where
  value : String
deriving DecidableEq, Repr

end Opensteer
