/-
# `Rubix.Domain.Identity` — the local user's identity

Public keys, fingerprint and metadata; private keys are never part of it.
-/
import Rubix.Domain.Fingerprint

namespace Rubix

/-- Local user identity. -/
structure Identity where
  id : Uuid
  displayName : String
  ed25519Public : Vector UInt8 32
  x25519Public : Vector UInt8 32
  fingerprint : Fingerprint
  createdAt : DateTime
  updatedAt : DateTime
  deriving DecidableEq

end Rubix
