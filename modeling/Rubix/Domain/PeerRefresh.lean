/-
# `Rubix.Domain.PeerRefresh` — refreshing a status more than once

A refresh makes at most one transition, from `Online` to `Away` or from `Away`
to `Offline`.  `settled` is the status that the time elapsed asks for on its
own, with both timeouts read at once.  Two refreshes at an instant reach it
(`refresh_refresh_eq_settled`), whatever refreshes came before
(`refreshes_eq_settled`); a single one falls short of it exactly when an `Online`
peer was not seen for longer than both timeouts.
-/
import Rubix.Domain.Peer

namespace Rubix
namespace PeerStatus

/-- The status by elapsed time alone. -/
def settled (now : DateTime) : PeerStatus → PeerStatus
  | .online lastSeen =>
      if seconds (onlineTimeoutSeconds + 300) < now - lastSeen then .offline (some lastSeen)
      else if seconds onlineTimeoutSeconds < now - lastSeen then .away lastSeen
      else .online lastSeen
  | .away lastSeen =>
      if seconds (onlineTimeoutSeconds + 300) < now - lastSeen then .offline (some lastSeen)
      else .away lastSeen
  | other => other

/-- `Online`, past the first timeout at `first` and past both at `second`. -/
def Overdue (first second : DateTime) : PeerStatus → Prop
  | .online lastSeen =>
      seconds onlineTimeoutSeconds < first - lastSeen ∧
        seconds (onlineTimeoutSeconds + 300) < second - lastSeen
  | _ => False

variable {status : PeerStatus} {first second now : DateTime}

/-! ## One refresh -/

section
variable {lastSeen : DateTime}

theorem refresh_online_fresh (h : ¬ seconds onlineTimeoutSeconds < now - lastSeen) :
    (online lastSeen).refresh now = .online lastSeen := if_neg h

theorem refresh_online_stale (h : seconds onlineTimeoutSeconds < now - lastSeen) :
    (online lastSeen).refresh now = .away lastSeen := if_pos h

theorem refresh_away_recent (h : ¬ seconds (onlineTimeoutSeconds + 300) < now - lastSeen) :
    (away lastSeen).refresh now = .away lastSeen := if_neg h

theorem refresh_away_gone (h : seconds (onlineTimeoutSeconds + 300) < now - lastSeen) :
    (away lastSeen).refresh now = .offline (some lastSeen) := if_pos h

/-- A timeout that has passed stays passed. -/
theorem elapsed_mono {timeout : Duration} (h : first ≤ second)
    (hpast : timeout < first - lastSeen) : timeout < second - lastSeen :=
  Int.lt_of_lt_of_le hpast (Int.sub_le_sub_right h lastSeen)

/-- Past the second timeout is past the first. -/
theorem past_first (h : seconds (onlineTimeoutSeconds + 300) < now - lastSeen) :
    seconds onlineTimeoutSeconds < now - lastSeen :=
  Int.lt_trans (by decide) h

theorem refresh_of_overdue (h : (online lastSeen).Overdue first second) (hle : first ≤ second) :
    (online lastSeen).refresh second = .away lastSeen ∧
      ((online lastSeen).refresh first).refresh second = .offline (some lastSeen) := by
  obtain ⟨hfirst, hsecond⟩ := h
  constructor
  · exact refresh_online_stale (elapsed_mono hle hfirst)
  · rw [refresh_online_stale hfirst, refresh_away_gone hsecond]

end

theorem refresh_refresh_of_not_overdue (h : ¬ status.Overdue first second) (hle : first ≤ second) :
    (status.refresh first).refresh second = status.refresh second := by
  cases status with
  | online lastSeen =>
      by_cases hfirst : seconds onlineTimeoutSeconds < first - lastSeen
      · have hsecond : ¬ seconds (onlineTimeoutSeconds + 300) < second - lastSeen :=
          fun hsecond => h ⟨hfirst, hsecond⟩
        rw [refresh_online_stale hfirst, refresh_away_recent hsecond,
          refresh_online_stale (elapsed_mono hle hfirst)]
      · rw [refresh_online_fresh hfirst]
  | away lastSeen =>
      by_cases hfirst : seconds (onlineTimeoutSeconds + 300) < first - lastSeen
      · rw [refresh_away_gone hfirst, refresh_away_gone (elapsed_mono hle hfirst)]
        rfl
      · rw [refresh_away_recent hfirst]
  | offline lastSeen => rfl
  | blocked => rfl

/-- What a refresh leaves is not overdue at the same instant. -/
theorem not_overdue_refresh : ¬ (status.refresh now).Overdue now now := by
  cases status with
  | online lastSeen =>
      by_cases hfirst : seconds onlineTimeoutSeconds < now - lastSeen
      · rw [refresh_online_stale hfirst]
        exact id
      · rw [refresh_online_fresh hfirst]
        intro hdue
        exact hfirst hdue.1
  | away lastSeen =>
      by_cases hsecond : seconds (onlineTimeoutSeconds + 300) < now - lastSeen
      · rw [refresh_away_gone hsecond]
        exact id
      · rw [refresh_away_recent hsecond]
        exact id
  | offline lastSeen => exact id
  | blocked => exact id

/-! ## Two refreshes -/

/-- The second refresh at an instant makes the transition that is left. -/
theorem refresh_refresh_eq_settled : (status.refresh now).refresh now = status.settled now := by
  cases status with
  | online lastSeen =>
      rw [settled]
      by_cases hfirst : seconds onlineTimeoutSeconds < now - lastSeen
      · rw [refresh_online_stale hfirst, if_pos hfirst]
        rfl
      · rw [refresh_online_fresh hfirst, refresh_online_fresh hfirst,
          if_neg (mt past_first hfirst), if_neg hfirst]
  | away lastSeen =>
      by_cases hsecond : seconds (onlineTimeoutSeconds + 300) < now - lastSeen
      · rw [refresh_away_gone hsecond]
        exact (if_pos hsecond).symm
      · rw [refresh_away_recent hsecond]
        rfl
  | offline lastSeen => rfl
  | blocked => rfl

/-- A refresh on the way does not change what the time asks for. -/
theorem settled_refresh (h : first ≤ second) :
    (status.refresh first).settled second = status.settled second := by
  cases status with
  | online lastSeen =>
      by_cases hfirst : seconds onlineTimeoutSeconds < first - lastSeen
      · rw [refresh_online_stale hfirst, settled, settled, if_pos (elapsed_mono h hfirst)]
      · rw [refresh_online_fresh hfirst]
  | away lastSeen =>
      by_cases hfirst : seconds (onlineTimeoutSeconds + 300) < first - lastSeen
      · rw [refresh_away_gone hfirst]
        exact (if_pos (elapsed_mono h hfirst)).symm
      · rw [refresh_away_recent hfirst]
  | offline lastSeen => rfl
  | blocked => rfl

/-- Nor do any number of them, in any order. -/
theorem settled_refreshes {times : List DateTime} (h : ∀ t ∈ times, t ≤ now) :
    (times.foldl (fun s t => s.refresh t) status).settled now = status.settled now := by
  induction times generalizing status with
  | nil => rfl
  | cons t times ih =>
      have ht : t ≤ now := h t List.mem_cons_self
      rw [List.foldl_cons, ih fun t' ht' => h t' (List.mem_cons_of_mem _ ht'), settled_refresh ht]

/-- So two refreshes make up for any that came before. -/
theorem refreshes_eq_settled {times : List DateTime} (h : ∀ t ∈ times, t ≤ now) :
    ((times.foldl (fun s t => s.refresh t) status).refresh now).refresh now =
      status.settled now := by
  rw [refresh_refresh_eq_settled, settled_refreshes h]

/-- Which statuses two refreshes tell apart from one. -/
theorem refresh_refresh_iff (h : first ≤ second) :
    (status.refresh first).refresh second = status.refresh second ↔
      ¬ status.Overdue first second := by
  constructor
  · intro hsame hdue
    cases status with
    | online lastSeen =>
        obtain ⟨haway, hoffline⟩ := refresh_of_overdue hdue h
        rw [haway, hoffline] at hsame
        cases hsame
    | away _ | offline _ | blocked => exact hdue
  · intro hdue
    exact refresh_refresh_of_not_overdue hdue h

/-- Refreshing at `first` and then at `second` is refreshing at `second`,
exactly unless the status is `Online` and was last seen longer ago than the
first timeout at `first` and than both at `second`.  There one refresh gives
`Away` and two give `Offline`.  From the second refresh at an instant on,
nothing changes. -/
theorem refresh_after_refresh (status : PeerStatus) {first second : DateTime}
    (h : first ≤ second) :
    ((status.refresh first).refresh second = status.refresh second ↔
      ¬ status.Overdue first second) ∧
    (∀ lastSeen, status = .online lastSeen → status.Overdue first second →
      status.refresh second = .away lastSeen ∧
        (status.refresh first).refresh second = .offline (some lastSeen)) ∧
    ((status.refresh second).refresh second).refresh second =
      (status.refresh second).refresh second := by
  refine ⟨refresh_refresh_iff h, ?_, ?_⟩
  · rintro lastSeen rfl hdue
    exact refresh_of_overdue hdue h
  · exact refresh_refresh_of_not_overdue not_overdue_refresh (Int.le_refl second)

theorem overdue_refreshes :
    (((online 0).refresh (seconds 31)).refresh (seconds 400) = (online 0).refresh (seconds 400) ↔
      ¬ (online 0).Overdue (seconds 31) (seconds 400)) ∧
    (∀ lastSeen, online 0 = .online lastSeen → (online 0).Overdue (seconds 31) (seconds 400) →
      (online 0).refresh (seconds 400) = .away lastSeen ∧
        ((online 0).refresh (seconds 31)).refresh (seconds 400) = .offline (some lastSeen)) ∧
    (((online 0).refresh (seconds 400)).refresh (seconds 400)).refresh (seconds 400) =
      ((online 0).refresh (seconds 400)).refresh (seconds 400) :=
  refresh_after_refresh (online 0) (by decide)

/-- A peer last seen 400 seconds ago, refreshed twice at once. -/
theorem refresh_not_idempotent :
    ¬ ∀ (status : PeerStatus) (first second : DateTime), first ≤ second →
      (status.refresh first).refresh second = status.refresh second := by
  intro h
  exact absurd (h (online 0) (seconds 400) (seconds 400) (by decide)) (by decide)

end PeerStatus

/-- The same of a peer, of which a refresh changes nothing but the status. -/
theorem Peer.refreshStatus_refreshStatus_iff (p : Peer) {first second : DateTime}
    (h : first ≤ second) :
    (p.refreshStatus first).refreshStatus second = p.refreshStatus second ↔
      ¬ p.status.Overdue first second := by
  rw [← PeerStatus.refresh_refresh_iff h]
  constructor
  · intro hsame
    exact congrArg Peer.status hsame
  · intro hsame
    rw [refreshStatus, refreshStatus, refreshStatus]
    dsimp only
    rw [hsame]

end Rubix
