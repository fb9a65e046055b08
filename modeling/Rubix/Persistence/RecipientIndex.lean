/-
# `Rubix.Persistence.RecipientIndex` — what the index of recipients finds

`insert` fills the index from the recipients column, which holds the JSON text
of an array, as if it were a list separated by commas; `list_for_recipient`
looks a fingerprint up by its display form:

    the column             ["AAAA-...","BBBB-..."]
    rows of the index      ["AAAA-..."    and    "BBBB-..."]
    looked up              AAAA-...

Every row of the index keeps a quotation mark or a bracket, through every
sequence of calls (`serveMessage_marked`), and no fingerprint is displayed
with one, so nothing is ever found.  The list is right exactly for those who
have received nothing (`listed_iff`).
-/
import Rubix.Persistence.MessageCatalog

namespace Rubix.Persistence

open Effect (Prog Outcome)
open MessageRepository

/-- The JSON library writes fingerprints into an array as they are displayed:
nothing in them is escaped. -/
def WritesFingerprints (serde : SerdeJson) : Prop :=
  ∀ fps : List Fingerprint, serde.stringsToString (fps.map Fingerprint.toFormattedString)
    = some (jsonArray (fps.map Fingerprint.toFormattedString))

/-! ## The messages that should be listed -/

/-- The messages inserted and not deleted, after a call. -/
def noteLive (live : List Message) (call : MessageCall)
    (o : Outcome DomainError Empty (Option Message)) : List Message :=
  match call, o with
  | .insert msg, .ok _ => live ++ [msg]
  | .delete id, .ok _ => live.filter fun m => decide (m.id ≠ id)
  | _, _ => live

/-- The messages inserted and not deleted in a run. -/
def live (served : List MessageServed) : List Message :=
  served.foldl (fun l e => noteLive l e.request.call e.run.outcome) []

/-- The messages for `fp` that are still there after a run on empty tables. -/
def messagesFor (serde : SerdeJson) (requests : List MessageRequest) (fp : Fingerprint) :
    List Message :=
  (live (Prog.serve (serveMessage serde) requests empty)).filter fun m =>
    decide (fp ∈ m.recipientFingerprints)

/-- `list_for_recipient` returns just these, each once. -/
def Listed (serde : SerdeJson) (requests : List MessageRequest) (fp : Fingerprint) : Prop :=
  ∃ messages, (listForRecipient serde .none fp (tablesAfter serde requests)).outcome = .ok messages ∧
    messages.Perm (messagesFor serde requests fp)

/-! ## The pieces of a JSON array -/

/-- A character that no fingerprint is displayed with. -/
def IsMark (c : Char) : Prop := c = '"' ∨ c = '['

def Marked (text : String) : Prop := ∃ c ∈ text.toList, IsMark c

theorem not_marked_fingerprint (fp : Fingerprint) : ¬ Marked fp.toFormattedString := by
  rintro ⟨c, hc, hmark⟩
  rcases Fingerprint.mem_toFormattedString hc with rfl | hdigit
  · rcases hmark with h | h
    · exact absurd h (by decide)
    · exact absurd h (by decide)
  · rcases hmark with rfl | rfl
    · exact absurd hdigit (by decide)
    · exact absurd hdigit (by decide)

theorem comma_not_mem_fingerprint (fp : Fingerprint) : ',' ∉ fp.toFormattedString.toList := by
  intro h
  rcases Fingerprint.mem_toFormattedString h with h | h
  · exact absurd h (by decide)
  · exact absurd h (by decide)

/-- A string of a JSON array, in its quotation marks. -/
def quoted (s : String) : List Char := '"' :: (s.toList ++ ['"'])

/-- Cutting an array's text at the commas leaves a quotation mark in each
piece: those between two strings, and what comes before the first and after
the last. -/
theorem mark_of_mem_splitOn : ∀ {ss : List String}, ss ≠ [] → (∀ s ∈ ss, ',' ∉ s.toList) →
    ∀ {front : List Char}, ',' ∉ front →
      ∀ piece ∈ (front ++ ([','].intercalate (ss.map quoted) ++ [']'])).splitOn ',', '"' ∈ piece
  | [], h, _, _, _, _, _ => absurd rfl h
  | [s], _, hss, front, hfront, piece, hpiece => by
      rw [List.map_singleton, List.intercalate_singleton] at hpiece
      have hwhole : ',' ∉ front ++ (quoted s ++ [']']) := by
        have hs := hss s List.mem_cons_self
        simp [quoted, hfront, hs]
      rw [List.splitOn_eq_singleton hwhole] at hpiece
      rw [List.mem_singleton.mp hpiece]
      simp [quoted]
  | s :: s' :: ss, _, hss, front, hfront, piece, hpiece => by
      have hs := hss s List.mem_cons_self
      have hhead : ',' ∉ front ++ quoted s := by simp [quoted, hfront, hs]
      have htext : front ++ ([','].intercalate ((s :: s' :: ss).map quoted) ++ [']'])
          = (front ++ quoted s) ++ ',' ::
            ([] ++ ([','].intercalate ((s' :: ss).map quoted) ++ [']'])) := by
        simp
      rw [htext, List.splitOn_append_cons_self_of_not_mem hhead] at hpiece
      rcases List.mem_cons.mp hpiece with rfl | hpiece
      · simp [quoted]
      · exact mark_of_mem_splitOn (List.cons_ne_nil s' ss)
          (fun x hx => hss x (List.mem_cons_of_mem s hx)) List.not_mem_nil piece hpiece

theorem marked_of_mem_splitComma {fps : List Fingerprint} :
    ∀ piece ∈ splitComma (jsonArray (fps.map Fingerprint.toFormattedString)), Marked piece := by
  intro piece hpiece
  obtain ⟨chars, hchars, rfl⟩ := List.mem_map.mp hpiece
  rw [Marked, String.toList_ofList]
  rw [jsonArray, String.toList_ofList] at hchars
  cases fps with
  | nil =>
      have hpieces : ('[' :: ([','].intercalate (([] : List String).map quoted) ++ [']'])).splitOn ','
          = [['[', ']']] := rfl
      have heq : chars = ['[', ']'] := List.mem_singleton.mp (hpieces ▸ hchars)
      exact ⟨'[', heq ▸ List.mem_cons_self, .inr rfl⟩
  | cons fp fps =>
      have hplain : ∀ s ∈ (fp :: fps).map Fingerprint.toFormattedString, ',' ∉ s.toList := by
        intro s hs
        obtain ⟨fp', -, rfl⟩ := List.mem_map.mp hs
        exact comma_not_mem_fingerprint fp'
      have hfront : ',' ∉ ['['] := by decide
      exact ⟨'"', mark_of_mem_splitOn (List.cons_ne_nil _ _) hplain hfront chars hchars, .inl rfl⟩

/-! ## Every row of the index is marked -/

def MarkedIndex (s : MessageTables) : Prop := ∀ r ∈ s.recipients, Marked r.2

section
variable {serde : SerdeJson} {faults : Faults}

theorem insertRecipients_marked (id : String) {pieces : List String} {k : Nat}
    (h : ∀ piece ∈ pieces, Marked piece) :
    Prog.Keeps MarkedIndex (insertRecipients faults id k pieces) := by
  induction pieces generalizing k with
  | nil => exact .pure ()
  | cons fp rest ih =>
      refine .bind (.silent fun s hs => ?_) fun _ =>
        ih fun piece hpiece => h piece (List.mem_cons_of_mem fp hpiece)
      rw [insertRecipient]
      split
      · exact hs
      · intro r hr
        rcases List.mem_append.mp hr with hr | hr
        · exact hs r hr
        · rw [List.mem_singleton.mp hr]
          exact h fp List.mem_cons_self

theorem insert_marked (hserde : WritesFingerprints serde) (msg : Message) :
    Prog.Keeps MarkedIndex (insert serde faults msg) := by
  refine .bind (attempt_keeps faults 0) ?_
  intro _
  refine .bind (attempt_keeps faults 1) ?_
  intro _
  refine transaction_keeps (.bind (attempt_keeps faults 2) fun _ => .bind (.silent ?_) ?_)
  · intro s hs
    rw [MarkedIndex, insertRow_recipients]
    exact hs
  · intro inserted
    split
    · refine .bind (insertRecipients_marked _ ?_) fun _ => attempt_keeps faults _
      intro piece hpiece
      simp only [MessageModel.ofMessage, hserde msg.recipientFingerprints, Option.getD_some]
        at hpiece
      exact marked_of_mem_splitComma piece hpiece
    · exact .fail _

theorem updateState_marked (id : Uuid) (newState : MessageState) :
    Prog.Keeps MarkedIndex (updateState serde faults id newState) := by
  rw [updateState]
  split
  · exact .fail _
  · refine .bind (attempt_keeps faults 0) ?_
    intro _
    refine .bind (attempt_keeps faults 1) ?_
    intro _
    refine .bind (.silent fun s hs => ?_) fun updated => ?_
    · rw [MarkedIndex, updateRow_recipients]
      exact hs
    · split
      · exact .pure ()
      · exact .fail _

theorem delete_marked (id : Uuid) : Prog.Keeps MarkedIndex (delete faults id) := by
  refine .bind (attempt_keeps faults 0) ?_
  intro _
  refine .bind (attempt_keeps faults 1) ?_
  intro _
  refine .bind (.silent fun s hs => ?_) fun deleted => ?_
  · rw [MarkedIndex, deleteRow_recipients]
    exact hs
  · split
    · refine .silent ?_
      intro s hs
      rw [deleteRecipients]
      split
      · exact hs
      · exact fun r hr => hs r (List.mem_filter.mp hr).1
    · exact .fail _

/-- No call puts a fingerprint into the index as it is displayed. -/
theorem serveMessage_marked (hserde : WritesFingerprints serde) (r : MessageRequest) :
    Prog.Keeps MarkedIndex (serveMessage serde r) := by
  obtain ⟨call, faults⟩ := r
  cases call with
  | insert msg => exact .bind (insert_marked hserde msg) fun _ => .pure none
  | updateState id newState => exact .bind (updateState_marked id newState) fun _ => .pure none
  | delete id => exact .bind (delete_marked id) fun _ => .pure none
  | get id =>
      refine .bind (fun s hs => ?_) fun msg => .pure _
      rw [get_world]
      exact hs

end

/-! ## Nothing is listed -/

theorem selectForRecipient_marked {s : MessageTables} (h : MarkedIndex s) (fp : Fingerprint) :
    selectForRecipient s fp.toFormattedString = [] := by
  have hnone : ∀ m : MessageModel, s.recipients.filter
      (fun r => decide (r.1 = m.id ∧ r.2 = fp.toFormattedString)) = [] := by
    intro m
    refine List.filter_eq_nil_iff.mpr ?_
    intro r hr heq
    have hfp := (of_decide_eq_true heq).2
    exact not_marked_fingerprint fp (hfp ▸ h r hr)
  have hjoin : (s.messages.flatMap fun m => (s.recipients.filter fun r =>
      decide (r.1 = m.id ∧ r.2 = fp.toFormattedString)).map fun _ => m) = [] := by
    refine List.flatMap_eq_nil_iff.mpr ?_
    intro m _
    rw [hnone m, List.map_nil]
  rw [selectForRecipient, hjoin, List.mergeSort_nil]

theorem listForRecipient_marked {serde : SerdeJson} {s : MessageTables} (h : MarkedIndex s)
    (fp : Fingerprint) : (listForRecipient serde .none fp s).outcome = .ok [] := by
  simp only [listForRecipient, attempt_none_bind, statement_bind, selectForRecipient_marked h fp]
  rfl

/-- After any sequence of calls, the list for a fingerprint is right exactly
when no message that is still there has it as a recipient. -/
theorem listed_iff (serde : SerdeJson) (hserde : WritesFingerprints serde)
    (requests : List MessageRequest) (fp : Fingerprint) :
    Listed serde requests fp ↔
      ∀ m ∈ live (Prog.serve (serveMessage serde) requests empty),
        fp ∉ m.recipientFingerprints := by
  have hmarked : MarkedIndex (tablesAfter serde requests) :=
    Prog.leaves_keeps (serveMessage_marked hserde) requests fun r hr => absurd hr List.not_mem_nil
  rw [Listed, listForRecipient_marked hmarked fp, messagesFor]
  constructor
  · rintro ⟨messages, hok, hperm⟩ m hm hfp
    cases hok
    have hnil := hperm.symm.eq_nil
    have hrejected := List.filter_eq_nil_iff.mp hnil m hm
    exact hrejected (decide_eq_true hfp)
  · intro hnone
    refine ⟨[], rfl, ?_⟩
    rw [List.filter_eq_nil_iff.mpr fun m hm hfp => hnone m hm (of_decide_eq_true hfp)]

section
open Sample

/-- Nothing is listed for the sender of a message. -/
theorem listed_sender :
    Listed serde [⟨.insert message, .none⟩] message.senderFingerprint ↔
      ∀ m ∈ live (Prog.serve (serveMessage serde) [⟨.insert message, .none⟩] empty),
        message.senderFingerprint ∉ m.recipientFingerprints :=
  listed_iff serde (fun _ => rfl) _ _

/-- A message that was inserted is not listed for its recipient. -/
theorem inserted_not_listed : ¬ Listed serde [⟨.insert message, .none⟩] bob := by
  rintro ⟨messages, hok, hperm⟩
  have hnothing : (listForRecipient serde .none bob
      (tablesAfter serde [⟨.insert message, .none⟩])).outcome = .ok [] := by decide +kernel
  have hone : messagesFor serde [⟨.insert message, .none⟩] bob = [message] := by decide +kernel
  rw [hnothing] at hok
  cases hok
  rw [hone] at hperm
  exact absurd hperm.length_eq (by decide)

end

end Rubix.Persistence
