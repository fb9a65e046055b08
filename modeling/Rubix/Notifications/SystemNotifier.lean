/-
# `Rubix.Notifications.SystemNotifier` — one notification a sender in five seconds

    call                        desktop gets                    asks is_allowed
    notify_message_received     the preview, cut                of the sender
    notify_peer_connected       name and fingerprint            of the peer
    notify_peer_disconnected    nothing                         no
    notify_identity_reset       the new fingerprint             no

Calls overlap, but they meet in `is_allowed` only, and that is one step under
the lock; a run is the calls in the order in which they got it.  The clock is
read before the lock is taken, so the readings of a run need not go up.

Even so, what is handed to the desktop about one fingerprint is five seconds
apart, and a call is suppressed for no other reason (`cooldown_exact`).  Where
the readings do go up, this is a sliding window of one (`limited_alike`): the
notifier and the application's rate limiter give the same answers.
-/
import Rubix.Application.Memory
import Rubix.Application.RateWindow

namespace Rubix.Notifications

open Runs
open RateLimiter (LimiterHistory LimiterCall)

/-- `MAX_PREVIEW_LEN` -/
def maxPreviewLen : Nat := 100

/-- `NOTIFICATION_COOLDOWN` -/
def notificationCooldown : Duration := seconds 5

/-- What `notify_rust` is given. -/
structure Notification where
  summary : String
  subtitle : String
  body : String
  icon : String
  timeout : Nat
  deriving DecidableEq

/-- How the blocking task that shows it ends. -/
inductive Display where
  | shown
  | failed
  | panicked
  deriving DecidableEq

/-- The last notification per sender, by formatted fingerprint. -/
structure SystemNotifier where
  lastNotify : String → Option Instant

/-- What a call comes to. -/
structure Notified where
  handed : Option Notification
  result : Except NotificationError Unit
  notifier : SystemNotifier

namespace SystemNotifier

/-- `SystemNotifier::new` -/
def new : SystemNotifier := ⟨fun _ => none⟩

def insert (n : SystemNotifier) (key : String) (now : Instant) : SystemNotifier :=
  { n with lastNotify := fun k => if k = key then some now else n.lastNotify k }

/-- `SystemNotifier::is_allowed`; the difference of two instants is zero where
the second is the later one, and so below the cooldown as it is here. -/
def isAllowed (n : SystemNotifier) (now : Instant) (senderFp : Fingerprint) :
    Bool × SystemNotifier :=
  let key := senderFp.toFormattedString
  match n.lastNotify key with
  | some last => if now - last < notificationCooldown then (false, n) else (true, n.insert key now)
  | none => (true, n.insert key now)

/-- The loop of `truncate_preview`, at character `i`. -/
def truncateLoop : Nat → List Char → List Char → List Char
  | _, [], result => result
  | i, ch :: rest, result =>
      if maxPreviewLen ≤ i then result ++ ['…'] else truncateLoop (i + 1) rest (result ++ [ch])

/-- `SystemNotifier::truncate_preview` -/
def truncatePreview (preview : String) : String :=
  if maxPreviewLen < preview.toList.length then
    String.ofList (truncateLoop 0 preview.toList [])
  else preview

/-- `notify_message_received` -/
def notifyMessageReceived (n : SystemNotifier) (now : Instant) (display : Display)
    (senderFp : Fingerprint) (preview : String) : Notified :=
  match n.isAllowed now senderFp with
  | (false, n) => ⟨none, .ok (), n⟩
  | (true, n) =>
      { handed := some
          { summary := "Rubix-PingPongzz"
            subtitle := "Message from " ++ senderFp.toFormattedString
            body := truncatePreview preview
            icon := "dialog-information"
            timeout := 5000 }
        result :=
          match display with
          | .shown => .ok ()
          | .failed => .error .unavailable
          | .panicked => .error .internal
        notifier := n }

/-- The answer of the other calls: a failure and a panic are one error. -/
def orUnavailable : Display → Except NotificationError Unit
  | .shown => .ok ()
  | .failed | .panicked => .error .unavailable

/-- `notify_peer_connected` -/
def notifyPeerConnected (n : SystemNotifier) (now : Instant) (display : Display) (peer : Peer) :
    Notified :=
  match n.isAllowed now peer.fingerprint with
  | (false, n) => ⟨none, .ok (), n⟩
  | (true, n) =>
      { handed := some
          { summary := "Rubix-PingPongzz"
            subtitle := peer.displayName ++ " is online"
            body := "Fingerprint: " ++ peer.fingerprint.toFormattedString
            icon := "dialog-information"
            timeout := 3000 }
        result := orUnavailable display
        notifier := n }

/-- `notify_peer_disconnected` -/
def notifyPeerDisconnected (n : SystemNotifier) (_fingerprint : Fingerprint) : Notified :=
  ⟨none, .ok (), n⟩

/-- `notify_identity_reset` -/
def notifyIdentityReset (n : SystemNotifier) (display : Display) (newFp : Fingerprint) :
    Notified :=
  { handed := some
      { summary := "Rubix-PingPongzz"
        subtitle := "Identity Reset Complete"
        body := "New fingerprint: " ++ newFp.toFormattedString
        icon := "dialog-warning"
        timeout := 10000 }
    result := orUnavailable display
    notifier := n }

/-! ## The preview -/

/-- The loop copies up to the limit and ends with the ellipsis if there is more. -/
theorem truncateLoop_eq (rest result : List Char) (i : Nat) (hi : i ≤ maxPreviewLen) :
    truncateLoop i rest result =
      if maxPreviewLen - i < rest.length then result ++ rest.take (maxPreviewLen - i) ++ ['…']
      else result ++ rest := by
  induction rest generalizing i result with
  | nil => simp [truncateLoop]
  | cons ch rest ih =>
      rw [truncateLoop]
      by_cases hfull : maxPreviewLen ≤ i
      · have heq : maxPreviewLen - i = 0 := Nat.sub_eq_zero_of_le hfull
        have hmore : 0 < (ch :: rest).length := List.length_pos_iff.mpr (List.cons_ne_nil ch rest)
        rw [if_pos hfull, heq, if_pos hmore, List.take_zero, List.append_nil]
      · have hnext : maxPreviewLen - i = maxPreviewLen - (i + 1) + 1 := by omega
        rw [if_neg hfull, ih (result ++ [ch]) (i + 1) (by omega), hnext, List.length_cons]
        simp only [Nat.add_lt_add_iff_right, List.take_succ_cons, List.append_assoc,
          List.singleton_append]

/-- A preview is shown whole, or as its first hundred characters and an ellipsis. -/
theorem toList_truncatePreview (preview : String) :
    (truncatePreview preview).toList =
      if maxPreviewLen < preview.toList.length then preview.toList.take maxPreviewLen ++ ['…']
      else preview.toList := by
  rw [truncatePreview]
  split
  · next hlong =>
      rw [String.toList_ofList, truncateLoop_eq _ _ 0 (Nat.zero_le _), Nat.sub_zero, if_pos hlong]
      rfl
  · rfl

example : truncatePreview "Hello" = "Hello" := by decide

theorem isAllowed_none {n : SystemNotifier} {senderFp : Fingerprint}
    (h : n.lastNotify senderFp.toFormattedString = none) (now : Instant) :
    n.isAllowed now senderFp = (true, n.insert senderFp.toFormattedString now) := by
  rw [isAllowed, h]

theorem isAllowed_some {n : SystemNotifier} {senderFp : Fingerprint} {last : Instant}
    (h : n.lastNotify senderFp.toFormattedString = some last) (now : Instant) :
    n.isAllowed now senderFp =
      if now - last < notificationCooldown then (false, n)
      else (true, n.insert senderFp.toFormattedString now) := by
  rw [isAllowed, h]

/-- Refused, the sender's entry stands; allowed, it is the reading, and
nobody else's entry changes. -/
theorem isAllowed_cases (n : SystemNotifier) (now : Instant) (senderFp : Fingerprint) :
    n.isAllowed now senderFp = (false, n) ∨
      n.isAllowed now senderFp = (true, n.insert senderFp.toFormattedString now) := by
  cases h : n.lastNotify senderFp.toFormattedString with
  | none => exact .inr (isAllowed_none h now)
  | some last =>
      rw [isAllowed_some h]
      split
      · exact .inl rfl
      · exact .inr rfl

end SystemNotifier

/-! ## Runs -/

inductive NotifierCall where
  | messageReceived (senderFp : Fingerprint) (preview : String)
  | peerConnected (peer : Peer)
  | peerDisconnected (fingerprint : Fingerprint)
  | identityReset (newFp : Fingerprint)

/-- A call, with the reading of its clock and the way the desktop takes it. -/
structure NotifierEvent where
  now : Instant
  display : Display
  call : NotifierCall

namespace NotifierEvent

def serve (n : SystemNotifier) (e : NotifierEvent) : Notified :=
  match e.call with
  | .messageReceived senderFp preview => n.notifyMessageReceived e.now e.display senderFp preview
  | .peerConnected peer => n.notifyPeerConnected e.now e.display peer
  | .peerDisconnected fingerprint => n.notifyPeerDisconnected fingerprint
  | .identityReset newFp => n.notifyIdentityReset e.display newFp

/-- The fingerprint a call asks `is_allowed` about. -/
def limited? (e : NotifierEvent) : Option Fingerprint :=
  match e.call with
  | .messageReceived senderFp _ => some senderFp
  | .peerConnected peer => some peer.fingerprint
  | .peerDisconnected _ | .identityReset _ => none

/-- The same question, put to a rate limiter. -/
def check? (e : NotifierEvent) : Option LimiterCall :=
  e.limited?.map fun fp => ⟨e.now, fp.toFormattedString, .check⟩

/-- A call that asks hands something over if it is allowed to, and leaves the
notifier as `is_allowed` does. -/
theorem serve_limited {e : NotifierEvent} {fp : Fingerprint} (h : e.limited? = some fp)
    (n : SystemNotifier) :
    (serve n e).handed.isSome = (n.isAllowed e.now fp).1 ∧
      (serve n e).notifier = (n.isAllowed e.now fp).2 := by
  obtain ⟨now, display, call⟩ := e
  cases call with
  | messageReceived senderFp preview =>
      cases h
      show (n.notifyMessageReceived now display fp preview).handed.isSome = _ ∧ _
      rcases n.isAllowed_cases now fp with hcase | hcase
      · simp [SystemNotifier.notifyMessageReceived, serve, hcase]
      · simp [SystemNotifier.notifyMessageReceived, serve, hcase]
  | peerConnected peer =>
      cases h
      show (n.notifyPeerConnected now display peer).handed.isSome = _ ∧ _
      rcases n.isAllowed_cases now peer.fingerprint with hcase | hcase
      · simp [SystemNotifier.notifyPeerConnected, serve, hcase]
      · simp [SystemNotifier.notifyPeerConnected, serve, hcase]
  | peerDisconnected fingerprint => cases h
  | identityReset newFp => cases h

/-- A call that does not ask leaves the notifier alone. -/
theorem serve_unlimited {e : NotifierEvent} (h : e.limited? = none) (n : SystemNotifier) :
    (serve n e).notifier = n := by
  obtain ⟨now, display, call⟩ := e
  cases call with
  | messageReceived senderFp preview => cases h
  | peerConnected peer => cases h
  | peerDisconnected fingerprint => rfl
  | identityReset newFp => rfl

end NotifierEvent

/-- The notifier, and for each fingerprint the readings at which something
about it was handed over, oldest first. -/
structure NotifierHistory where
  notifier : SystemNotifier
  handed : Fingerprint → List Instant

namespace NotifierHistory

def start : NotifierHistory := ⟨.new, fun _ => []⟩

def step (s : NotifierHistory) (e : NotifierEvent) : NotifierHistory :=
  { notifier := (e.serve s.notifier).notifier
    handed := fun fp =>
      if e.limited? = some fp ∧ (e.serve s.notifier).handed.isSome then s.handed fp ++ [e.now]
      else s.handed fp }

/-- Each is past the cooldown of the one before it. -/
def Spaced (readings : List Instant) : Prop :=
  readings.Pairwise fun a b => a + notificationCooldown ≤ b

/-- The map has the last reading of each, and they are spaced. -/
structure Paced (s : NotifierHistory) : Prop where
  last : ∀ fp : Fingerprint, s.notifier.lastNotify fp.toFormattedString = (s.handed fp).getLast?
  spaced : ∀ fp, Spaced (s.handed fp)

/-- Of spaced readings the last one decides. -/
theorem Spaced.past_iff {readings : List Instant} (h : Spaced readings) (now : Instant) :
    (∀ t ∈ readings, t + notificationCooldown ≤ now) ↔
      ∀ t, readings.getLast? = some t → t + notificationCooldown ≤ now := by
  rcases List.eq_nil_or_concat readings with rfl | ⟨front, last, rfl⟩
  · simp
  · rw [List.concat_eq_append] at h ⊢
    rw [List.getLast?_concat]
    constructor
    · rintro hall t heq
      cases heq
      exact hall _ (List.mem_append_right _ List.mem_cons_self)
    · intro hlast t ht
      have hnow : last + notificationCooldown ≤ now := hlast last rfl
      rcases List.mem_append.mp ht with hfront | hlast
      · have hgap := (List.pairwise_append.mp h).2.2 t hfront last List.mem_cons_self
        have hcooldown : 0 ≤ notificationCooldown := by decide
        exact Int.le_trans hgap (Int.le_trans (Int.le_add_of_nonneg_right hcooldown) hnow)
      · rw [List.mem_singleton.mp hlast]
        exact hnow

variable {s : NotifierHistory}

theorem paced_start : Paced start := ⟨fun _ => rfl, fun _ => List.Pairwise.nil⟩

/-- A call is allowed if everything handed over before is past its cooldown. -/
theorem Paced.isAllowed_iff (h : Paced s) (now : Instant) (fp : Fingerprint) :
    (s.notifier.isAllowed now fp).1 = true ↔
      ∀ t ∈ s.handed fp, t + notificationCooldown ≤ now := by
  rw [(h.spaced fp).past_iff, ← h.last fp]
  cases hlast : s.notifier.lastNotify fp.toFormattedString with
  | none =>
      rw [SystemNotifier.isAllowed_none hlast]
      exact iff_of_true rfl fun _ hnone => nomatch hnone
  | some last =>
      rw [SystemNotifier.isAllowed_some hlast]
      split
      · next hcool =>
          refine iff_of_false (fun h => nomatch h) ?_
          intro hpast
          exact Int.not_lt.mpr (Int.le_sub_left_of_add_le (hpast last rfl)) hcool
      · next hpast =>
          refine iff_of_true rfl ?_
          intro t ht
          cases ht
          exact Int.add_le_of_le_sub_left (Int.not_lt.mp hpast)

/-- What is handed over is what `is_allowed` lets through. -/
theorem Paced.handed_iff (h : Paced s) {e : NotifierEvent} {fp : Fingerprint}
    (hfp : e.limited? = some fp) :
    (e.serve s.notifier).handed.isSome = true ↔
      ∀ t ∈ s.handed fp, t + notificationCooldown ≤ e.now := by
  rw [(NotifierEvent.serve_limited hfp s.notifier).1]
  exact h.isAllowed_iff e.now fp

theorem Paced.step (h : Paced s) (e : NotifierEvent) : Paced (s.step e) := by
  cases hlimited : e.limited? with
  | none =>
      constructor
      · intro fp
        simp only [NotifierHistory.step, NotifierEvent.serve_unlimited hlimited, hlimited,
          reduceCtorEq, false_and, if_false]
        exact h.last fp
      · intro fp
        simp only [NotifierHistory.step, hlimited, reduceCtorEq, false_and, if_false]
        exact h.spaced fp
  | some sender =>
      obtain ⟨hhanded, hnotifier⟩ := NotifierEvent.serve_limited hlimited s.notifier
      have hiff := h.isAllowed_iff e.now sender
      rcases s.notifier.isAllowed_cases e.now sender with hcase | hcase
      · rw [hcase] at hhanded hnotifier
        constructor
        · intro fp
          simp only [NotifierHistory.step, hnotifier, hhanded, Bool.false_eq_true, and_false,
            if_false]
          exact h.last fp
        · intro fp
          simp only [NotifierHistory.step, hhanded, Bool.false_eq_true, and_false, if_false]
          exact h.spaced fp
      · rw [hcase] at hhanded hnotifier hiff
        constructor
        · intro fp
          simp only [NotifierHistory.step, hnotifier, hhanded, hlimited, Option.some.injEq,
            and_true,
            SystemNotifier.insert]
          by_cases heq : sender = fp
          · subst heq
            rw [if_pos rfl, if_pos rfl, List.getLast?_concat]
          · have hkey : fp.toFormattedString ≠ sender.toFormattedString := fun hkey =>
              heq (Fingerprint.toFormattedString_injective hkey.symm)
            rw [if_neg hkey, if_neg heq]
            exact h.last fp
        · intro fp
          simp only [NotifierHistory.step, hhanded, hlimited, Option.some.injEq, and_true]
          by_cases heq : sender = fp
          · subst heq
            rw [if_pos rfl]
            refine List.pairwise_append.mpr ⟨h.spaced sender, List.pairwise_singleton _ _, ?_⟩
            intro a ha b hb
            rw [List.mem_singleton.mp hb]
            exact hiff.mp rfl a ha
          · rw [if_neg heq]
            exact h.spaced fp

/-! ## The notifier is a rate limiter -/

/-- A step of the notifier, and the same question to the limiter. -/
def beside (p : NotifierHistory × LimiterHistory) (e : NotifierEvent) :
    NotifierHistory × LimiterHistory :=
  (p.1.step e, (e.check?.map p.2.step).getD p.2)

theorem run_beside (events : List NotifierEvent) (s : NotifierHistory) (l : LimiterHistory) :
    run beside events (s, l) =
      (run step events s, run LimiterHistory.step (events.filterMap NotifierEvent.check?) l) := by
  induction events generalizing s l with
  | nil => rfl
  | cons e events ih =>
      rw [run_cons, beside, ih]
      cases hcheck : e.check? with
      | none =>
          rw [List.filterMap_cons_none hcheck]
          rfl
      | some call =>
          rw [List.filterMap_cons_some hcheck]
          rfl

/-- Both have let through the same. -/
structure Alike (now : Instant) (p : NotifierHistory × LimiterHistory) : Prop where
  paced : Paced p.1
  follows : p.2.Follows notificationCooldown 1 now
  allowed_eq : ∀ fp : Fingerprint, p.2.allowed fp.toFormattedString = p.1.handed fp

variable {l : LimiterHistory} {now : Instant}

/-- Fewer than one in the window: none. -/
theorem Alike.answer_eq (h : Alike now (s, l)) (fp : Fingerprint) :
    l.answer now fp.toFormattedString = (s.notifier.isAllowed now fp).1 := by
  rw [Bool.eq_iff_iff, h.paced.isAllowed_iff, h.follows.answer_iff, h.allowed_eq, Nat.lt_one_iff,
    List.length_eq_zero_iff, List.filter_eq_nil_iff]
  refine forall₂_congr fun t _ => ?_
  rw [decide_eq_true_eq, Int.not_lt]
  constructor
  · exact Int.add_le_of_le_sub_right
  · exact Int.le_sub_right_of_add_le

theorem Alike.clocked : Clocked beside NotifierEvent.now Alike where
  later := fun h hle => ⟨h.paced, LimiterHistory.Follows.clocked.later h.follows hle, h.allowed_eq⟩
  step := by
    rintro ⟨s, l⟩ e h
    have hpaced : Paced (s.step e) := h.paced.step e
    cases hlimited : e.limited? with
    | none =>
        have hcheck : e.check? = none := by rw [NotifierEvent.check?, hlimited]; rfl
        have hnext : beside (s, l) e = (s.step e, l) := by rw [beside, hcheck]; rfl
        rw [hnext]
        refine ⟨hpaced, h.follows, ?_⟩
        intro fp
        show l.allowed fp.toFormattedString = (s.step e).handed fp
        simp only [NotifierHistory.step, hlimited, reduceCtorEq, false_and, if_false]
        exact h.allowed_eq fp
    | some sender =>
        have hcheck : e.check? = some ⟨e.now, sender.toFormattedString, .check⟩ := by
          rw [NotifierEvent.check?, hlimited]; rfl
        have hnext : beside (s, l) e =
            (s.step e, l.step ⟨e.now, sender.toFormattedString, .check⟩) := by
          rw [beside, hcheck]; rfl
        have hhanded : (e.serve s.notifier).handed.isSome =
            l.answer e.now sender.toFormattedString := by
          rw [(NotifierEvent.serve_limited hlimited s.notifier).1, h.answer_eq]
        have hfollows : (l.step ⟨e.now, sender.toFormattedString, .check⟩).Follows
            notificationCooldown 1 e.now :=
          @LimiterHistory.Follows.step _ _ _ ⟨e.now, sender.toFormattedString, .check⟩ h.follows
        rw [hnext]
        refine ⟨hpaced, hfollows, ?_⟩
        intro fp
        show (if fp.toFormattedString = sender.toFormattedString then
            SlidingWindow.record (l.answer e.now sender.toFormattedString) e.now
              (l.allowed fp.toFormattedString)
          else l.allowed fp.toFormattedString) = (s.step e).handed fp
        simp only [NotifierHistory.step, hlimited, hhanded, Option.some.injEq,
          Fingerprint.toFormattedString_inj, SlidingWindow.record]
        have hallowed : l.allowed fp.toFormattedString = s.handed fp := h.allowed_eq fp
        rw [hallowed]
        by_cases heq : sender = fp
        · simp only [heq, true_and, if_true]
        · simp only [heq, Ne.symm heq, false_and, if_false]

/-- Whatever the calls, the readings and the desktop:

* what is handed over about one fingerprint, a message or a connection, is a
  cooldown apart;
* a call that asks hands something over exactly if whatever was handed over
  about its fingerprint before is past its cooldown, shown or not;
* and if the readings do not go back, exactly if a rate limiter of one in a
  cooldown, asked the same questions, says yes. -/
theorem cooldown_exact (events : List NotifierEvent) :
    Always step (fun s => ∀ fp, Spaced (s.handed fp)) events start ∧
    Guarded step (fun s e => ∀ fp, e.limited? = some fp →
      ((e.serve s.notifier).handed.isSome = true ↔
        ∀ t ∈ s.handed fp, t + notificationCooldown ≤ e.now)) events start ∧
    ((events.map NotifierEvent.now).Pairwise (· ≤ ·) →
      ∀ before e, before ++ [e] <+: events → ∀ call, e.check? = some call →
        (e.serve (run step before start).notifier).handed.isSome =
          (run LimiterHistory.step (before.filterMap NotifierEvent.check?)
            (LimiterHistory.start notificationCooldown 1)).answer call.now call.key) := by
  have hpaced : Always step Paced events start :=
    always_of_invariant paced_start (fun s e h => h.step e) events
  refine ⟨hpaced.imp fun s h => h.spaced, ?_, ?_⟩
  · intro before e hbefore fp hfp
    have hnow : Paced (run step before start) :=
      hpaced before ((List.prefix_append before [e]).trans hbefore)
    exact hnow.handed_iff hfp
  · intro hclock before e hbefore call hcall
    obtain ⟨t, hstart⟩ := exists_before hclock
    have hbegin : Alike t (start, LimiterHistory.start notificationCooldown 1) :=
      ⟨paced_start, LimiterHistory.Follows.start _ _ t, fun _ => rfl⟩
    have halike := Alike.clocked.guarded hbegin hstart before e hbefore
    rw [run_beside] at halike
    obtain ⟨fp, hfp, rfl⟩ := Option.map_eq_some_iff.mp hcall
    rw [(NotifierEvent.serve_limited hfp _).1]
    exact (halike.answer_eq fp).symm

/-- A message, the sender's connection three seconds on, a reset, and a second
message at the edge that the desktop does not take. -/
def exchange : List NotifierEvent :=
  [⟨0, .shown, .messageReceived Memory.peer.fingerprint "hi"⟩,
    ⟨seconds 3, .shown, .peerConnected Memory.peer⟩,
    ⟨seconds 4, .shown, .identityReset Memory.peer.fingerprint⟩,
    ⟨seconds 5, .failed, .messageReceived Memory.peer.fingerprint "hello"⟩,
    ⟨seconds 9, .shown, .messageReceived Memory.peer.fingerprint "still there?"⟩]

theorem cooldown_exact_exchange :
    Always step (fun s => ∀ fp, Spaced (s.handed fp)) exchange start ∧
    Guarded step (fun s e => ∀ fp, e.limited? = some fp →
      ((e.serve s.notifier).handed.isSome = true ↔
        ∀ t ∈ s.handed fp, t + notificationCooldown ≤ e.now)) exchange start ∧
    ((exchange.map NotifierEvent.now).Pairwise (· ≤ ·) →
      ∀ before e, before ++ [e] <+: exchange → ∀ call, e.check? = some call →
        (e.serve (run step before start).notifier).handed.isSome =
          (run LimiterHistory.step (before.filterMap NotifierEvent.check?)
            (LimiterHistory.start notificationCooldown 1)).answer call.now call.key) :=
  cooldown_exact exchange

example : (run step exchange start).handed Memory.peer.fingerprint = [0, seconds 5] := by decide

end NotifierHistory
end Rubix.Notifications
