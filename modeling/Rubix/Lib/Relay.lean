/-
# `Rubix.Lib.Relay` — a task that passes on what it makes of what arrives

    source ──takes──▶ the task ──sends──▶ channel ──receives──▶ receiver

The task takes an item, makes a message of it or none, and sends the message.
Where the channel is full it waits for a slot, and takes no other item before
it has one.  Once the receiver has gone, what is sent is dropped.

Nothing is lost, repeated or overtaken on the way (`Ordered`): what was
received and what the channel holds are the messages made of what was taken,
in order.  Each turn that changes anything leaves less to do (`left_lt`), and
where none does all of it has been received (`Ordered.all_received`).
-/
import Rubix.Lib.Channel
import Rubix.Lib.Runs

/-- The items not yet taken, the channel, and whether its receiver has gone;
`taken` is what the task has taken, with the reading of each, and `received`
what came out. -/
structure Relay (ρ α β : Type) (cap : Nat) where
  source : List α
  channel : Channel β cap
  closed : Bool
  taken : List (ρ × α)
  received : List β

namespace Relay

open Runs

inductive Event (ρ α : Type) where
  /-- An item is put at the end of the source. -/
  | arrives (a : α)
  /-- A turn of the task, at a reading. -/
  | takes (r : ρ)
  /-- A turn of the task where it waits for a slot. -/
  | resumes
  /-- The receiver asks for a message. -/
  | receives
  /-- The receiver is dropped. -/
  | closes

variable {ρ α β : Type} {cap : Nat}

def new : Relay ρ α β cap :=
  { source := [], channel := .empty, closed := false, taken := [], received := [] }

/-- The channel behind the sending of what was made of an item. -/
def sent (s : Relay ρ α β cap) : Option β → Channel β cap
  | none => s.channel
  | some b => if s.closed then s.channel else s.channel.offer b

/-- Behind the taking of `a`, with `source` left. -/
def take (make : ρ → α → Option β) (s : Relay ρ α β cap) (r : ρ) (a : α) (source : List α) :
    Relay ρ α β cap :=
  { s with source, taken := s.taken ++ [(r, a)], channel := s.sent (make r a) }

def step (make : ρ → α → Option β) (s : Relay ρ α β cap) : Event ρ α → Relay ρ α β cap
  | .arrives a => { s with source := s.source ++ [a] }
  | .takes r =>
      match s.source with
      | [] => s
      | a :: source => if s.channel.waiting = [] then s.take make r a source else s
  | .resumes => { s with channel := s.channel.resume }
  | .receives =>
      match s.channel.receive with
      | none => s
      | some (b, channel) => { s with channel, received := s.received ++ [b] }
  | .closes => { s with channel := .empty, closed := true }

/-- What was made of what was taken. -/
def made (make : ρ → α → Option β) (s : Relay ρ α β cap) : List β :=
  s.taken.filterMap fun t => make t.1 t.2

/-- What a run puts into the source. -/
def arrivals (events : List (Event ρ α)) : List α :=
  events.filterMap fun
    | .arrives a => some a
    | _ => none

variable {make : ρ → α → Option β} {s : Relay ρ α β cap}

/-- The turns of the task and of the receiver. -/
def Event.IsTurn : Event ρ α → Prop
  | .takes _ | .resumes | .receives => True
  | _ => False

/-! ## The order -/

/-- The channel holds what was made and not received; without a receiver it is
empty. -/
structure Ordered (make : ρ → α → Option β) (s : Relay ρ α β cap) : Prop where
  front : s.received ++ s.channel.contents <+: s.made make
  whole : s.closed = false → s.received ++ s.channel.contents = s.made make
  empty : s.closed = true → s.channel = .empty
  one : s.channel.waiting.length ≤ 1

theorem new_ordered : Ordered make (new : Relay ρ α β cap) where
  front := List.prefix_rfl
  whole := fun _ => rfl
  empty := fun h => absurd h Bool.false_ne_true
  one := Nat.zero_le 1

theorem made_take (s : Relay ρ α β cap) (r : ρ) (a : α) (source : List α) :
    (s.take make r a source).made make = s.made make ++ (make r a).toList := by
  rw [made, take, List.filterMap_append]
  cases h : make r a with
  | none => simp [made, h]
  | some b => simp [made, h]

theorem sent_open (h : s.closed = false) (b : β) : s.sent (some b) = s.channel.offer b := by
  rw [sent, h]
  exact if_neg Bool.false_ne_true

theorem sent_closed (h : s.closed = true) (o : Option β) : s.sent o = s.channel := by
  cases o with
  | none => rfl
  | some b =>
      rw [sent, h]
      exact if_pos rfl

theorem contents_sent (h : s.closed = false) (o : Option β) :
    (s.sent o).contents = s.channel.contents ++ o.toList := by
  cases o with
  | none => exact (List.append_nil _).symm
  | some b =>
      rw [sent_open h]
      exact Channel.contents_offer

theorem length_waiting_sent (hidle : s.channel.waiting = []) (o : Option β) :
    (s.sent o).waiting.length ≤ 1 := by
  cases o with
  | none =>
      rw [sent, hidle]
      exact Nat.zero_le 1
  | some b =>
      rw [sent]
      split
      · rw [hidle]
        exact Nat.zero_le 1
      · have hwaits := s.channel.length_waiting_offer_le b
        rw [hidle] at hwaits
        exact hwaits

theorem Ordered.take (h : Ordered make s) (hidle : s.channel.waiting = []) (r : ρ) (a : α)
    (source : List α) : Ordered make (s.take make r a source) := by
  have hfront : s.received ++ (s.sent (make r a)).contents
      <+: s.made make ++ (make r a).toList := by
    cases hclosed : s.closed with
    | true =>
        rw [sent_closed hclosed]
        exact h.front.trans (List.prefix_append _ _)
    | false =>
        have hwhole : s.received ++ (s.sent (make r a)).contents
            = s.made make ++ (make r a).toList := by
          rw [contents_sent hclosed, ← List.append_assoc, h.whole hclosed]
        exact hwhole.symm ▸ List.prefix_refl _
  refine ⟨?_, ?_, ?_, length_waiting_sent hidle (make r a)⟩
  · rw [made_take]
    exact hfront
  · intro (hopen : s.closed = false)
    rw [made_take, ← h.whole hopen, List.append_assoc]
    exact congrArg (s.received ++ ·) (contents_sent hopen _)
  · intro (hclosed : s.closed = true)
    exact (sent_closed hclosed _).trans (h.empty hclosed)

theorem Ordered.step (h : Ordered make s) (e : Event ρ α) : Ordered make (s.step make e) := by
  cases e with
  | arrives a => exact ⟨h.front, h.whole, h.empty, h.one⟩
  | takes r =>
      rw [Relay.step]
      split
      · exact h
      · split
        · next hidle => exact h.take hidle r _ _
        · exact h
  | resumes =>
      refine ⟨?_, ?_, ?_, ?_⟩
      · show s.received ++ s.channel.resume.contents <+: _
        rw [Channel.contents_resume]
        exact h.front
      · intro hopen
        show s.received ++ s.channel.resume.contents = _
        rw [Channel.contents_resume]
        exact h.whole hopen
      · intro hclosed
        show s.channel.resume = .empty
        rw [h.empty hclosed]
        rfl
      · exact Nat.le_trans s.channel.length_waiting_resume_le h.one
  | receives =>
      rw [Relay.step]
      split
      · exact h
      · next b channel hreceive =>
          obtain ⟨hcontents, hwaiting⟩ := Channel.receive_eq_some hreceive
          have hmoved : (s.received ++ [b]) ++ channel.contents
              = s.received ++ s.channel.contents := by
            rw [hcontents, List.append_assoc]
            rfl
          refine ⟨?_, ?_, ?_, ?_⟩
          · show (s.received ++ [b]) ++ channel.contents <+: _
            rw [hmoved]
            exact h.front
          · intro hopen
            show (s.received ++ [b]) ++ channel.contents = _
            rw [hmoved]
            exact h.whole hopen
          · intro hclosed
            rw [h.empty hclosed] at hreceive
            exact nomatch hreceive
          · show channel.waiting.length ≤ 1
            rw [hwaiting]
            exact h.one
  | closes =>
      refine ⟨?_, ?_, fun _ => rfl, Nat.zero_le 1⟩
      · show s.received ++ [] <+: _
        rw [List.append_nil]
        exact (List.prefix_append _ _).trans h.front
      · intro hopen
        exact absurd hopen Bool.true_eq_false.mp

theorem run_ordered (events : List (Event ρ α)) :
    Ordered make (run (step make) events (new : Relay ρ α β cap)) :=
  (always_of_invariant (P := Ordered make) new_ordered (fun _ e h => h.step e) events).last

theorem Ordered.length_contents_le (h : Ordered make s) :
    s.channel.contents.length ≤ cap + 1 := by
  rw [Channel.contents, List.length_append]
  exact Nat.add_le_add s.channel.bounded h.one

/-- What is received was made of something taken. -/
theorem Ordered.of_received (h : Ordered make s) {b : β} (hb : b ∈ s.received) :
    ∃ r a, (r, a) ∈ s.taken ∧ make r a = some b := by
  have hmade : b ∈ s.made make := h.front.subset (List.mem_append_left _ hb)
  obtain ⟨⟨r, a⟩, htaken, hmake⟩ := List.mem_filterMap.mp hmade
  exact ⟨r, a, htaken, hmake⟩

/-- What a step adds to what was taken: the item at the head of the source. -/
theorem step_taken (make : ρ → α → Option β) (s : Relay ρ α β cap) (e : Event ρ α) :
    (s.step make e).taken = s.taken ∨ ∃ r, e = .takes r ∧ ∃ a ∈ s.source.head?,
      (s.step make e).taken = s.taken ++ [(r, a)] := by
  cases e with
  | arrives a => exact .inl rfl
  | takes r =>
      rw [step]
      split
      · exact .inl rfl
      · next a source hsource =>
          split
          · refine .inr ⟨r, rfl, a, ?_, rfl⟩
            rw [hsource]
            rfl
          · exact .inl rfl
  | resumes => exact .inl rfl
  | receives =>
      rw [step]
      split
      · exact .inl rfl
      · exact .inl rfl
  | closes => exact .inl rfl

/-- The items are taken in the order of their arrival. -/
theorem step_items (s : Relay ρ α β cap) (e : Event ρ α) :
    (s.step make e).taken.map Prod.snd ++ (s.step make e).source
      = (s.taken.map Prod.snd ++ s.source) ++ arrivals [e] := by
  cases e with
  | arrives a => exact (List.append_assoc _ _ _).symm
  | takes r =>
      rw [show arrivals [Event.takes (α := α) r] = [] from rfl, List.append_nil, step]
      split
      · rfl
      · next a source hsource =>
          split
          · rw [take, hsource, List.map_append, List.append_assoc]
            rfl
          · rfl
  | resumes => exact (List.append_nil _).symm
  | receives =>
      rw [show arrivals [Event.receives (ρ := ρ) (α := α)] = [] from rfl, List.append_nil, step]
      split
      · rfl
      · rfl
  | closes => exact (List.append_nil _).symm

theorem run_items (events : List (Event ρ α)) (s : Relay ρ α β cap) :
    (run (step make) events s).taken.map Prod.snd ++ (run (step make) events s).source
      = (s.taken.map Prod.snd ++ s.source) ++ arrivals events := by
  induction events generalizing s with
  | nil => exact (List.append_nil _).symm
  | cons e events ih =>
      have hsplit : arrivals (e :: events) = arrivals [e] ++ arrivals events :=
        List.filterMap_append (l := [e])
      rw [run_cons, ih, step_items, hsplit, List.append_assoc]

/-! ## The way out -/

/-- The turns still needed: an item is taken, gets a slot and is received. -/
def left (s : Relay ρ α β cap) : Nat :=
  3 * s.source.length + 2 * s.channel.waiting.length + s.channel.queue.length

/-- A turn changes nothing, or leaves less to do. -/
theorem left_lt {e : Event ρ α} (he : e.IsTurn) :
    s.step make e = s ∨ (s.step make e).left < s.left := by
  cases e with
  | arrives a => exact he.elim
  | takes r =>
      rw [step]
      split
      · exact .inl rfl
      · next a source hsource =>
          split
          · refine .inr ?_
            have hsent : 2 * (s.sent (make r a)).waiting.length
                + (s.sent (make r a)).queue.length
                  ≤ 2 * s.channel.waiting.length + s.channel.queue.length + 2 := by
              cases make r a with
              | none => exact Nat.le_add_right _ _
              | some b =>
                  rw [sent]
                  split
                  · exact Nat.le_add_right _ _
                  · exact s.channel.weight_offer_le b
            simp only [left, take, hsource, List.length_cons]
            omega
          · exact .inl rfl
  | resumes =>
      rcases s.channel.resume_cases with hsame | ⟨hwaiting, hqueue⟩
      · left
        show { s with channel := s.channel.resume } = s
        rw [hsame]
      · right
        simp only [step, left]
        omega
  | receives =>
      rw [step]
      split
      · exact .inl rfl
      · next b channel hreceive =>
          obtain ⟨hcontents, hwaiting⟩ := Channel.receive_eq_some hreceive
          right
          have hlength := congrArg List.length hcontents
          simp only [Channel.contents, List.length_append, List.length_cons] at hlength
          simp only [left, hwaiting]
          rw [hwaiting] at hlength
          omega
  | closes => exact he.elim

/-- Where no turn changes anything, nothing is left. -/
theorem Ordered.all_received (h : Ordered make s) (hcap : 0 < cap) (hopen : s.closed = false)
    (hquiet : ∀ e : Event ρ α, e.IsTurn → s.step make e = s) (r : ρ) :
    s.source = [] ∧ s.received = s.made make := by
  have hqueue : s.channel.queue = [] := by
    have hreceives := hquiet .receives trivial
    cases hc : s.channel.receive with
    | none => exact Channel.receive_eq_none hc
    | some p =>
        have hchanged : (s.step make .receives).received = s.received ++ [p.1] := by
          rw [Relay.step, hc]
        rw [hreceives] at hchanged
        exact absurd (List.self_eq_append_right.mp hchanged) (List.cons_ne_nil _ _)
  have hwaiting : s.channel.waiting = [] := by
    have hresumes : s.channel.resume = s.channel :=
      congrArg Relay.channel (hquiet .resumes trivial)
    exact Channel.waiting_of_resume hresumes (by rw [hqueue]; exact hcap)
  have hsource : s.source = [] := by
    have htakes := congrArg Relay.source (hquiet (.takes r) trivial)
    cases hs : s.source with
    | nil => rfl
    | cons a source =>
        simp only [Relay.step, hs, if_pos hwaiting] at htakes
        exact absurd htakes.symm (List.cons_ne_self a source)
  refine ⟨hsource, ?_⟩
  have hcontents : s.channel.contents = [] := by rw [Channel.contents, hqueue, hwaiting]; rfl
  have hwhole := h.whole hopen
  rw [hcontents, List.append_nil] at hwhole
  exact hwhole

end Relay
