/-
# `Rubix.Networking.Mdns` — the fingerprint in a service name

    FP.toFormattedString "." "_rubix-pingpongzz._tcp.local."

The browser takes a removed service's name up to its first dot and reads the
fingerprint from it.  There is no dot in a formatted fingerprint, so what is
read is what was advertised.  With it every text form of a fingerprint goes
back to the one it was made of (`text_forms_agree`).
-/
import Rubix.Domain.FingerprintText

namespace Rubix.Networking

/-- `SERVICE_TYPE` -/
def serviceType : String := "_rubix-pingpongzz._tcp.local."

/-- The service name of `MdnsAdvertiser::new`. -/
def serviceName (fp : Fingerprint) : String := fp.toFormattedString ++ "." ++ serviceType

/-- `fullname.split('.').next()` -/
def firstLabel (fullname : String) : String :=
  String.ofList (fullname.toList.takeWhile fun c => decide (c ≠ '.'))

/-- The fingerprint that the browser reports as removed. -/
def removedFingerprint (fullname : String) : Option Fingerprint :=
  (Fingerprint.fromHex (firstLabel fullname)).toOption

open Fingerprint (fromHex fromHexSteps)

/-- There is no dot in a formatted fingerprint. -/
theorem firstLabel_formatted (fp : Fingerprint) (rest : String) :
    firstLabel (fp.toFormattedString ++ "." ++ rest) = fp.toFormattedString := by
  have hdots : ∀ c ∈ fp.toFormattedString.toList, decide (c ≠ '.') = true := by
    intro c hc
    refine decide_eq_true ?_
    rintro rfl
    rcases Fingerprint.mem_toFormattedString hc with hdash | hdigit
    · exact absurd hdash (by decide)
    · exact absurd hdigit (by decide)
  have hdot : (fp.toFormattedString ++ "." ++ rest).toList
      = fp.toFormattedString.toList ++ ('.' :: rest.toList) := by
    rw [String.toList_append, String.toList_append, List.append_assoc]
    rfl
  rw [firstLabel, hdot, List.takeWhile_append_of_pos hdots, List.takeWhile_cons_of_neg (by decide),
    List.append_nil, String.ofList_toList]

theorem firstLabel_serviceName (fp : Fingerprint) :
    firstLabel (serviceName fp) = fp.toFormattedString := firstLabel_formatted fp serviceType

/-- Every text form of a fingerprint goes back to it, and every text that is
read is written again as its own digits. -/
theorem text_forms_agree :
    (∀ fp : Fingerprint,
      (∀ t : String, t.toList.map Char.toLower = fp.toFormattedString.toList.map Char.toLower →
        fromHex t = .ok fp) ∧
      Fingerprint.deserialize fp.serialize = .ok fp ∧
      fromHex (firstLabel (serviceName fp)) = .ok fp ∧
      removedFingerprint (serviceName fp) = some fp) ∧
    (∀ fp : Fingerprint, fp.toFormattedString.length = 49 ∧
      ∃ groups : List (List Char), groups.length = 10 ∧
        (∀ group ∈ groups, group.length = 4 ∧
          ∀ c ∈ group, Hex.isDigit c = true ∧ c.toUpper = c) ∧
        fp.toFormattedString.toList = ['-'].intercalate groups) ∧
    (∀ fp fp' : Fingerprint, fp.toFormattedString = fp'.toFormattedString → fp = fp') ∧
    (∀ (s : String) (fp : Fingerprint), fromHex s = .ok fp →
      fp.toFormattedString.toList
        = ['-'].intercalate (Hex.chunks 4 ((s.toList.filter Hex.isDigit).map Char.toUpper))) ∧
    (∀ s : String, fromHexSteps s = .ok (fromHex s) ∧
      ∀ e, fromHexSteps s = .ok (.error e) →
        s.toList.countP Hex.isDigit ≠ 40 ∧ e = .validation "fingerprint"
          s!"expected 40 hex chars, got {s.toList.countP Hex.isDigit}") := by
  have hformatted := Fingerprint.fromHex_toFormattedString
  refine ⟨?_, ?_, ?_, ?_, ?_⟩
  · intro fp
    refine ⟨?_, fp.deserialize_serialize, ?_, ?_⟩
    · intro t ht
      exact Fingerprint.fromHex_of_toLower ht (hformatted fp)
    · rw [firstLabel_serviceName, hformatted]
    · rw [removedFingerprint, firstLabel_serviceName, hformatted]
      rfl
  · intro fp
    obtain ⟨hcount, hgroups⟩ := fp.groups_spec
    exact ⟨fp.length_toFormattedString, fp.groups, hcount, hgroups, fp.toList_toFormattedString⟩
  · intro fp fp' h
    exact Fingerprint.toFormattedString_injective h
  · intro s fp h
    exact Fingerprint.toFormattedString_of_fromHex h
  · intro s
    exact ⟨Fingerprint.fromHexSteps_eq s, fun e he => Fingerprint.fromHexSteps_error he⟩

end Rubix.Networking
