import Mathlib.Logic.Basic

/-!
# The records the gateway's parts share

The kinds of client and of phone, and the records that the gateway keeps of an agent's backups.
Times are seconds.  A snapshot's identifier is opaque, so it is a number here, and
the fields that no decision reads (its size and the release that made it) are left
out.
-/

namespace Vesta
namespace Vestad

/-- The kind of client behind a `/sync` connection. -/
inductive ClientKind
  | web
  | mobile
  | desktop
  | unknown
deriving DecidableEq, Repr

def ClientKind.displayName : ClientKind → String
  | web => "Vesta Web App"
  | mobile => "Vesta Mobile App"
  | desktop => "Vesta Desktop App"
  | unknown => "Vesta App"

/-- The mobile OS that a push subscription targets. -/
inductive MobilePlatform
  | ios
  | android
deriving DecidableEq

inductive BackupType
  | manual
  | periodic
  | preUpdate
  | preRestore
deriving DecidableEq

structure BackupInfo where
  id : Nat
  backupType : BackupType
  createdAt : Nat
  fromVersion : Option String
deriving DecidableEq

structure RetentionPolicy where
  periodic : Nat
  preUpdateVersions : Nat
deriving DecidableEq

end Vestad
end Vesta
