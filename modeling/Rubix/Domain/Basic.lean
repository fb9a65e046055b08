/-
# `Rubix.Domain.Basic` — time, identifiers, errors and the validation helpers

The vocabulary every layer shares.  Wall-clock time is counted in nanoseconds
since the epoch and `timestamp` floors it to whole seconds.  Randomness and
the clock are never read here: a function of the source that draws a UUID or
reads `Utc::now()` takes the value as an argument.

`Chrono` is what the code uses of the date library's text formats; nothing is
assumed about the texts.
-/
import Rubix.Lib.Hex

namespace Rubix

/-- `DateTime<Utc>`: nanoseconds since the epoch. -/
abbrev DateTime := Int

/-- `std::time::Duration` and `chrono::Duration`, in nanoseconds. -/
abbrev Duration := Int

/-- `Duration::seconds` / `Duration::from_secs`. -/
def seconds (s : Int) : Duration := s * 1000000000

/-- `DateTime::timestamp`: whole seconds since the epoch, rounded down. -/
def DateTime.timestamp (t : DateTime) : Int := t / 1000000000

/-- The date library's text formats. -/
class Chrono where
  /-- `DateTime::to_rfc3339` -/
  toRfc3339 : DateTime → String
  /-- `{:?}` of a `DateTime<Utc>` -/
  debug : DateTime → String

/-- A UUID: sixteen bytes. -/
structure Uuid where
  bytes : Vector UInt8 16
  deriving DecidableEq

/-- `Uuid::to_string`: lower-case hex, grouped 8-4-4-4-12. -/
def Uuid.toString (id : Uuid) : String :=
  let h := Hex.encode id.bytes.toList
  String.ofList (h.take 8 ++ '-' :: ((h.drop 8).take 4 ++ '-' :: ((h.drop 12).take 4 ++
    '-' :: ((h.drop 16).take 4 ++ '-' :: h.drop 20))))

/-! ## Errors -/

inductive IdentityError where
  | invalidParameters | notFound | alreadyExists | keyGenerationFailed | invalidKeyMaterial
  | locked
  deriving DecidableEq

inductive PeerError where
  | notFound | alreadyExists | unreachable | invalidData | blocked | handshakeFailed
  deriving DecidableEq

inductive MessageError where
  | notFound | tooLarge | invalidFormat | deliveryFailed | expired | recipientLimitExceeded
  deriving DecidableEq

/-- Core error enum for all domain-level failures. -/
inductive DomainError where
  | identity (e : IdentityError)
  | peer (e : PeerError)
  | message (e : MessageError)
  | cryptographic
  | validation (field reason : String)
  | resourceLimit (resource : String)
  | concurrentModification
  | cancelled
  | internal
  deriving DecidableEq

def IdentityError.toString : IdentityError → String
  | .invalidParameters => "invalid identity parameters"
  | .notFound => "identity not found"
  | .alreadyExists => "identity already exists"
  | .keyGenerationFailed => "key generation failed"
  | .invalidKeyMaterial => "invalid key material"
  | .locked => "identity locked"

def PeerError.toString : PeerError → String
  | .notFound => "peer not found"
  | .alreadyExists => "peer already exists"
  | .unreachable => "peer unreachable"
  | .invalidData => "invalid peer data"
  | .blocked => "peer blocked"
  | .handshakeFailed => "handshake failed"

def MessageError.toString : MessageError → String
  | .notFound => "message not found"
  | .tooLarge => "message too large"
  | .invalidFormat => "invalid message format"
  | .deliveryFailed => "delivery failed"
  | .expired => "message expired"
  | .recipientLimitExceeded => "recipient limit exceeded"

/-- The `Display` text. -/
def DomainError.toString : DomainError → String
  | .identity e => "identity error: " ++ e.toString
  | .peer e => "peer error: " ++ e.toString
  | .message e => "message error: " ++ e.toString
  | .cryptographic => "cryptographic operation failed"
  | .validation field reason => "validation failed: " ++ field ++ " - " ++ reason
  | .resourceLimit resource => "resource limit exceeded: " ++ resource
  | .concurrentModification => "concurrent modification detected"
  | .cancelled => "operation cancelled"
  | .internal => "internal error"

abbrev DomainResult (α : Type) := Except DomainError α

/-! ## Validation -/

def maxDisplayNameLen : Nat := 64
def maxMessageContentLen : Nat := 65536

/-- `char::is_control`: the two control blocks of Unicode category Cc. -/
def isControl (c : Char) : Bool := c.toNat < 32 || (127 ≤ c.toNat && c.toNat < 160)

/-- `validate_display_name`; the length is counted in bytes. -/
def validateDisplayName (name : String) : DomainResult Unit :=
  if name.utf8ByteSize = 0 then
    .error (.validation "display_name" "cannot be empty")
  else if maxDisplayNameLen < name.utf8ByteSize then
    .error (.resourceLimit s!"display_name exceeds {maxDisplayNameLen} bytes")
  else if name.toList.any isControl then
    .error (.validation "display_name" "contains control characters")
  else .ok ()

theorem validateDisplayName_ok_iff {name : String} :
    validateDisplayName name = .ok () ↔
      name ≠ "" ∧ name.utf8ByteSize ≤ 64 ∧ ∀ c ∈ name.toList, isControl c = false := by
  have hany : name.toList.any isControl = true ↔ ¬ ∀ c ∈ name.toList, isControl c = false := by
    simp
  rw [validateDisplayName, maxDisplayNameLen]
  by_cases hempty : name.utf8ByteSize = 0
  · rw [if_pos hempty]
    exact iff_of_false (fun h => nomatch h) fun h => h.1 (String.utf8ByteSize_eq_zero_iff.mp hempty)
  · rw [if_neg hempty]
    have hname : name ≠ "" := mt String.utf8ByteSize_eq_zero_iff.mpr hempty
    by_cases hlong : 64 < name.utf8ByteSize
    · rw [if_pos hlong]
      exact iff_of_false (fun h => nomatch h) fun h => Nat.not_lt.mpr h.2.1 hlong
    · rw [if_neg hlong]
      by_cases hclean : ∀ c ∈ name.toList, isControl c = false
      · rw [if_neg (mt hany.mp (not_not_intro hclean))]
        exact iff_of_true rfl ⟨hname, Nat.le_of_not_lt hlong, hclean⟩
      · rw [if_pos (hany.mpr hclean)]
        exact iff_of_false (fun h => nomatch h) fun h => hclean h.2.2

/-- An admissible name has at most 64 bytes. -/
theorem size_of_validateDisplayName {name : String} (h : validateDisplayName name = .ok ()) :
    name.utf8ByteSize ≤ 64 :=
  (validateDisplayName_ok_iff.mp h).2.1

/-- `validate_message_content` -/
def validateMessageContent (content : List UInt8) : DomainResult Unit :=
  if content.isEmpty then
    .error (.validation "content" "cannot be empty")
  else if maxMessageContentLen < content.length then
    .error (.resourceLimit s!"content exceeds {maxMessageContentLen} bytes")
  else .ok ()

theorem validateMessageContent_ok_iff {content : List UInt8} :
    validateMessageContent content = .ok () ↔
      1 ≤ content.length ∧ content.length ≤ 65536 := by
  rw [validateMessageContent, maxMessageContentLen]
  cases content with
  | nil => simp
  | cons b bs =>
      simp only [List.isEmpty_cons, Bool.false_eq_true, if_false]
      split
      · next h => simp only [reduceCtorEq, false_iff]; omega
      · next h => simp only [true_iff]; exact ⟨by simp, by omega⟩

/-! ## The text of a UUID -/

/-- The hex digits of a UUID's text spell its bytes. -/
theorem Uuid.filter_toString (id : Uuid) :
    id.toString.toList.filter Hex.isDigit = Hex.encode id.bytes.toList := by
  have hd : ∀ c ∈ Hex.encode id.bytes.toList, Hex.isDigit c = true := Hex.isDigit_of_mem_encode
  generalize hh : Hex.encode id.bytes.toList = h at hd
  have htake : ∀ k n, ((h.drop k).take n).filter Hex.isDigit = (h.drop k).take n :=
    fun k n => List.filter_eq_self.mpr fun c hc =>
      hd c (List.mem_of_mem_drop (List.mem_of_mem_take hc))
  have hdash : Hex.isDigit '-' = false := by decide
  have h0 : (h.take 8).filter Hex.isDigit = h.take 8 := htake 0 8
  have hlast : (h.drop 20).filter Hex.isDigit = h.drop 20 :=
    List.filter_eq_self.mpr fun c hc => hd c (List.mem_of_mem_drop hc)
  simp only [Uuid.toString, hh, String.toList_ofList, List.filter_append, List.filter_cons, hdash,
    Bool.false_eq_true, if_false, h0, htake, hlast]
  -- the five groups, put back together from the right
  have glue : ∀ k n, (h.drop k).take n ++ h.drop (k + n) = h.drop k := fun k n => by
    rw [← List.drop_drop]
    exact List.take_append_drop n (h.drop k)
  rw [glue 16 4, glue 12 4, glue 8 4, List.take_append_drop]

theorem Uuid.toString_injective {a b : Uuid} (h : a.toString = b.toString) : a = b := by
  have hab : Hex.encode a.bytes.toList = Hex.encode b.bytes.toList := by
    rw [← Uuid.filter_toString a, ← Uuid.filter_toString b, h]
  have hbytes : a.bytes = b.bytes := Vector.toList_inj.mp (Hex.encode_injective hab)
  cases a
  cases b
  exact congrArg Uuid.mk hbytes

end Rubix
