/-
# `Rubix.Security.DomainIdentity` — the identity that is made of keys, and renamed

`to_domain_identity` derives the fingerprint of the keys and hands everything
to the builder, which checks the display name; nothing checks the fingerprint
again.  From then on only `set_display_name` changes the identity, in place:

    validate the name → display_name := name → updated_at := now

What is left behind any renames is the identity as it was made, with the last
name that was valid and the instant it was given (`run_renames`).  So the
fingerprint stays the one of the keys, and `verify_fingerprint` says so for any
function that derives it, and for no function that derives another
(`identity_lasts`).
-/
import Rubix.Domain.Identity
import Rubix.Domain.Peer
import Rubix.Lib.InPlace
import Rubix.Lib.Runs
import Rubix.Security.Idealized

namespace Rubix

structure IdentityBuilder where
  displayName : Option String := none
  ed25519Public : Option (Vector UInt8 32) := none
  x25519Public : Option (Vector UInt8 32) := none
  fingerprint : Option Fingerprint := none

/-- `IdentityBuilder::build`, on the UUID and the clock reading it draws. -/
def IdentityBuilder.build (b : IdentityBuilder) (id : Uuid) (now : DateTime) :
    DomainResult Identity := do
  let displayName ← required "display_name" b.displayName
  validateDisplayName displayName
  let ed25519Public ← required "ed25519_public" b.ed25519Public
  let x25519Public ← required "x25519_public" b.x25519Public
  let fingerprint ← required "fingerprint" b.fingerprint
  .ok { id, displayName, ed25519Public, x25519Public, fingerprint
        createdAt := now
        updatedAt := now }

namespace Identity

/-- `set_display_name` -/
def setDisplayName (i : Identity) (name : String) (now : DateTime) : DomainResult Identity := do
  validateDisplayName name
  .ok { i with displayName := name, updatedAt := now }

def setDisplayNameInPlace (name : String) (now : DateTime) : EStateM DomainError Identity Unit := do
  match validateDisplayName name with
  | .error e => throw e
  | .ok () =>
      modify fun i => { i with displayName := name }
      modify fun i => { i with updatedAt := now }

/-- `verify_fingerprint` -/
def verifyFingerprint (i : Identity)
    (derive : Vector UInt8 32 → Vector UInt8 32 → Fingerprint) : DomainResult Bool :=
  let expected := derive i.ed25519Public i.x25519Public
  .ok (i.fingerprint.constantTimeEq expected)

theorem setDisplayNameInPlace_computes (name : String) (now : DateTime) :
    InPlace.Computes (setDisplayNameInPlace name now) fun i => i.setDisplayName name now := by
  intro i
  dsimp only
  rw [setDisplayNameInPlace, setDisplayName]
  cases validateDisplayName name with
  | error e => rfl
  | ok u => rfl

/-- It answers whether the fingerprints are the same. -/
theorem verifyFingerprint_iff {i : Identity}
    {derive : Vector UInt8 32 → Vector UInt8 32 → Fingerprint} :
    i.verifyFingerprint derive = .ok true ↔ i.fingerprint = derive i.ed25519Public i.x25519Public := by
  rw [verifyFingerprint, Except.ok.injEq, Fingerprint.constantTimeEq_iff]

end Identity

/-! ## Renaming -/

/-- A call of `set_display_name`, with the clock's reading. -/
structure Rename where
  name : String
  now : DateTime
  deriving DecidableEq

namespace Rename

/-- The name passes the check. -/
def Valid (call : Rename) : Prop := validateDisplayName call.name = .ok ()

instance (call : Rename) : Decidable call.Valid := inferInstanceAs (Decidable (_ = _))

/-- The identity behind a call, whether it succeeds or not. -/
def step (i : Identity) (call : Rename) : Identity :=
  InPlace.behind (Identity.setDisplayNameInPlace call.name call.now) i

/-- What a call that succeeds makes of the identity. -/
def applied (i : Identity) (call : Rename) : Identity :=
  { i with displayName := call.name, updatedAt := call.now }

theorem step_of_valid (i : Identity) {call : Rename} (h : call.Valid) :
    step i call = call.applied i := by
  have hcomputes := Identity.setDisplayNameInPlace_computes call.name call.now
  refine hcomputes.behind_of_ok ?_
  rw [Identity.setDisplayName, h]
  rfl

theorem step_of_invalid (i : Identity) {call : Rename} (h : ¬ call.Valid) : step i call = i := by
  have hcomputes := Identity.setDisplayNameInPlace_computes call.name call.now
  cases hvalid : validateDisplayName call.name with
  | ok u => exact absurd hvalid h
  | error e =>
      have herror : i.setDisplayName call.name call.now = .error e := by
        rw [Identity.setDisplayName, hvalid]
        rfl
      exact hcomputes.behind_of_error herror

/-- The last call that succeeds. -/
def lastValid (calls : List Rename) : Option Rename :=
  calls.foldl (fun last call => if call.Valid then some call else last) none

theorem lastValid_concat (calls : List Rename) (call : Rename) :
    lastValid (calls ++ [call]) = if call.Valid then some call else lastValid calls := by
  rw [lastValid, List.foldl_append]
  rfl

/-- Of any renames, the last valid one counts. -/
theorem run_renames (calls : List Rename) (i : Identity) :
    Runs.run step calls i = (lastValid calls).elim i fun call => call.applied i := by
  induction calls using List.reverseRecOn with
  | nil => rfl
  | append_singleton calls call ih =>
      rw [Runs.run_concat, ih, lastValid_concat]
      by_cases hvalid : call.Valid
      · rw [step_of_valid _ hvalid, if_pos hvalid]
        cases lastValid calls with
        | none => rfl
        | some last => rfl
      · rw [step_of_invalid _ hvalid, if_neg hvalid]

theorem lastValid_spec {calls : List Rename} {call : Rename} (h : lastValid calls = some call) :
    call.Valid ∧ call ∈ calls := by
  induction calls using List.reverseRecOn with
  | nil => cases h
  | append_singleton calls last ih =>
      rw [lastValid_concat] at h
      split at h
      · next hvalid =>
          cases h
          exact ⟨hvalid, List.mem_append_right _ List.mem_cons_self⟩
      · obtain ⟨hvalid, hmem⟩ := ih h
        exact ⟨hvalid, List.mem_append_left _ hmem⟩

end Rename

namespace Security

namespace IdentityKeys

/-- `to_domain_identity` -/
def toDomainIdentity (crypto : Crypto) (keys : IdentityKeys) (displayName : String) (id : Uuid)
    (now : DateTime) : SecurityResult Identity :=
  let b : IdentityBuilder :=
    { displayName := some displayName
      ed25519Public := some keys.ed25519.pub
      x25519Public := some keys.x25519.pub
      fingerprint := some (keys.fingerprint crypto) }
  (b.build id now).mapError fun e => .internal ("domain identity build failed: " ++ e.toString)

section
variable {crypto : Crypto} {keys : IdentityKeys} {displayName : String} {id : Uuid}
  {created : DateTime}

/-- Only the name can be refused. -/
theorem toDomainIdentity_eq :
    keys.toDomainIdentity crypto displayName id created =
      match validateDisplayName displayName with
      | .error e => .error (.internal ("domain identity build failed: " ++ e.toString))
      | .ok () => .ok
          { id
            displayName
            ed25519Public := keys.ed25519.pub
            x25519Public := keys.x25519.pub
            fingerprint := keys.fingerprint crypto
            createdAt := created
            updatedAt := created } := by
  show (validateDisplayName displayName >>= fun _ => Except.ok (Identity.mk id displayName
    keys.ed25519.pub keys.x25519.pub (keys.fingerprint crypto) created created)).mapError _ = _
  cases validateDisplayName displayName with
  | error e => rfl
  | ok u => rfl

end

/-- An identity is made of keys wherever its name is valid, and is theirs for
good.  Behind any renames, valid or not, it has the id, the keys, the
fingerprint and the instant it was made with; its name is valid, and is the last
valid one it was given, at the instant of `updated_at`.  Its fingerprint is
verified by the derivation from keys, and no derivation of another verifies it. -/
theorem identity_lasts (crypto : Crypto) (keys : IdentityKeys) (displayName : String) (id : Uuid)
    (created : DateTime) :
    (∀ e, validateDisplayName displayName = .error e →
      keys.toDomainIdentity crypto displayName id created
        = .error (.internal ("domain identity build failed: " ++ e.toString))) ∧
    (validateDisplayName displayName = .ok () → ∀ calls : List Rename,
      ∃ made, keys.toDomainIdentity crypto displayName id created = .ok made ∧
        let i := Runs.run Rename.step calls made
        i.id = id ∧ i.ed25519Public = keys.ed25519.pub ∧ i.x25519Public = keys.x25519.pub ∧
          i.fingerprint = keys.fingerprint crypto ∧ i.createdAt = created ∧
          validateDisplayName i.displayName = .ok () ∧
          i.displayName = (Rename.lastValid calls).elim displayName Rename.name ∧
          i.updatedAt = (Rename.lastValid calls).elim created Rename.now ∧
          ((created :: calls.map Rename.now).Pairwise (· ≤ ·) → i.createdAt ≤ i.updatedAt) ∧
          ∀ derive, i.verifyFingerprint derive = .ok true ↔
            derive keys.ed25519.pub keys.x25519.pub = keys.fingerprint crypto) := by
  constructor
  · intro e he
    rw [toDomainIdentity_eq, he]
  · intro hvalid calls
    refine ⟨_, by rw [toDomainIdentity_eq, hvalid], ?_⟩
    intro i
    have hi : i = _ := Rename.run_renames calls _
    cases hlast : Rename.lastValid calls with
    | none =>
        rw [hlast] at hi
        rw [hi]
        refine ⟨rfl, rfl, rfl, rfl, rfl, hvalid, rfl, rfl, fun _ => Int.le_refl _, ?_⟩
        intro derive
        rw [Identity.verifyFingerprint_iff]
        exact eq_comm
    | some call =>
        obtain ⟨hcall, hmem⟩ := Rename.lastValid_spec hlast
        rw [hlast] at hi
        rw [hi]
        refine ⟨rfl, rfl, rfl, rfl, rfl, hcall, rfl, rfl, ?_, ?_⟩
        · intro hclock
          exact (List.pairwise_cons.mp hclock).1 _ (List.mem_map_of_mem hmem)
        · intro derive
          rw [Identity.verifyFingerprint_iff]
          exact eq_comm

end IdentityKeys

section
open Idealized

/-- Alice is renamed, and a name that is refused changes nothing. -/
theorem identity_lasts_alice :
    ∃ made, alice.toDomainIdentity crypto "Alice" ⟨Vector.replicate 16 0⟩ 0 = .ok made ∧
      (Runs.run Rename.step [⟨"Alice B.", 5⟩, ⟨"", 9⟩] made).displayName = "Alice B." ∧
      (Runs.run Rename.step [⟨"Alice B.", 5⟩, ⟨"", 9⟩] made).updatedAt = 5 ∧
      (Runs.run Rename.step [⟨"Alice B.", 5⟩, ⟨"", 9⟩] made).createdAt ≤ 5 := by
  obtain ⟨-, hmade⟩ := IdentityKeys.identity_lasts crypto alice "Alice" ⟨Vector.replicate 16 0⟩ 0
  obtain ⟨made, hok, -, -, -, -, -, -, hname, hupdated, hclock, -⟩ :=
    hmade (by decide) [⟨"Alice B.", 5⟩, ⟨"", 9⟩]
  have hlast : Rename.lastValid [⟨"Alice B.", 5⟩, ⟨"", 9⟩] = some ⟨"Alice B.", 5⟩ := by decide
  rw [hlast] at hname hupdated
  refine ⟨made, hok, hname, hupdated, ?_⟩
  have hle := hclock (by decide)
  rw [hupdated] at hle
  exact hle

end

end Security
end Rubix
