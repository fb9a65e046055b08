/-
# `Rubix.Persistence.StoredMessages` — the messages that are read back

`Message` derives its decoder.  The fields of a text are read one by one, each
at its own type, and the message is put together from the values as they are:

    sender, recipients    forty hex digits each, by the fingerprint's decoder
    the other fields      any value of the type

The builder is not asked, so what its checks and the transitions ensure holds
of a message that is read back exactly if it holds of the text
(`read_back_producible_iff`).
-/
import Rubix.Domain.FingerprintText
import Rubix.Domain.Producible
import Rubix.Persistence.MessageRepository
import Rubix.Persistence.Sample

namespace Rubix.Persistence

open Effect (Prog)
open MessageRepository

/-- The values of a text for the fields of `Message`; those of a fingerprint
are strings still. -/
structure MessageFields where
  id : Uuid
  senderFingerprint : String
  recipientFingerprints : List String
  content : List UInt8
  contentType : ContentType
  state : MessageState
  createdAt : DateTime
  sentAt : Option DateTime
  deliveredAt : Option DateTime
  readAt : Option DateTime

namespace MessageFields

/-- The derived `Deserialize`, behind the reading of the fields. -/
def toMessage (f : MessageFields) : Option Message := do
  let sender ← (Fingerprint.deserialize f.senderFingerprint).toOption
  let recipients ← f.recipientFingerprints.mapM fun s => (Fingerprint.deserialize s).toOption
  some
    { id := f.id
      senderFingerprint := sender
      recipientFingerprints := recipients
      content := f.content
      contentType := f.contentType
      state := f.state
      createdAt := f.createdAt
      sentAt := f.sentAt
      deliveredAt := f.deliveredAt
      readAt := f.readAt }

/-- Every fingerprint has its forty digits. -/
def Readable (f : MessageFields) : Prop :=
  ∀ s ∈ f.senderFingerprint :: f.recipientFingerprints, s.toList.countP Hex.isDigit = 40

instance (f : MessageFields) : Decidable f.Readable :=
  inferInstanceAs (Decidable (∀ s ∈ f.senderFingerprint :: f.recipientFingerprints, _ = 40))

/-- The timestamps that go with the state. -/
def Stamped (f : MessageFields) : Prop :=
  match f.state with
  | .pending | .sending | .failed _ _ =>
      (f.deliveredAt.isSome = true → f.sentAt.isSome = true) ∧ f.readAt = none
  | .sent t => f.sentAt = some t ∧ f.readAt = none
  | .delivered t => f.sentAt.isSome = true ∧ f.deliveredAt = some t ∧ f.readAt = none
  | .read t => f.sentAt.isSome = true ∧ f.deliveredAt.isSome = true ∧ f.readAt = some t

/-- One to fifty recipients in ascending order, content within its limits, and
the timestamps of the state. -/
structure Sound (f : MessageFields) : Prop where
  count : 1 ≤ f.recipientFingerprints.length ∧ f.recipientFingerprints.length ≤ maxRecipients
  ascending : ∃ fps : List Fingerprint,
    f.recipientFingerprints.map Fingerprint.deserialize = fps.map .ok ∧
      fps.Pairwise Fingerprint.lt
  content : 1 ≤ f.content.length ∧ f.content.length ≤ 65536
  stamped : f.Stamped

end MessageFields

/-- The decoder of messages is the derived one, over the fields a text has. -/
structure Derived (serde : SerdeJson) (fields : String → Option MessageFields) : Prop where
  fromStr : ∀ text, serde.messageFromStr text = (fields text).bind MessageFields.toMessage

/-- The text is not accepted, or its fields are sound. -/
def SoundText (fields : String → Option MessageFields) (text : String) : Prop :=
  ∀ f, fields text = some f → f.Readable → f.Sound

/-! ## Decoding -/

section
variable {ε α β : Type}

theorem toOption_eq_some {r : Except ε α} {a : α} : r.toOption = some a ↔ r = .ok a := by
  cases r with
  | ok b => simp [Except.toOption]
  | error e => simp [Except.toOption]

theorem mapM_toOption_eq_some {g : α → Except ε β} {l : List α} {bs : List β} :
    (l.mapM fun a => (g a).toOption) = some bs ↔ l.map g = bs.map .ok := by
  induction l generalizing bs with
  | nil => cases bs <;> simp
  | cons a l ih =>
      cases bs with
      | nil => simp [Option.bind_eq_some_iff]
      | cons b bs =>
          simp only [List.mapM_cons, Option.bind_eq_bind, Option.bind_eq_some_iff, Option.pure_def,
            Option.some.injEq, List.cons.injEq, List.map_cons, toOption_eq_some]
          constructor
          · rintro ⟨b', hb, bs', hbs, rfl, rfl⟩
            exact ⟨hb, ih.mp hbs⟩
          · rintro ⟨hb, hbs⟩
            exact ⟨b, hb, bs, ih.mpr hbs, rfl, rfl⟩

end

namespace MessageFields

variable {f : MessageFields} {m : Message}

theorem toMessage_eq_some : f.toMessage = some m ↔ ∃ sender recipients,
    Fingerprint.deserialize f.senderFingerprint = .ok sender ∧
      f.recipientFingerprints.map Fingerprint.deserialize = recipients.map .ok ∧
      m = ⟨f.id, sender, recipients, f.content, f.contentType, f.state, f.createdAt, f.sentAt,
        f.deliveredAt, f.readAt⟩ := by
  simp only [toMessage, Option.bind_eq_bind, Option.bind_eq_some_iff, toOption_eq_some,
    mapM_toOption_eq_some, Option.some.injEq]
  constructor
  · rintro ⟨sender, hsender, recipients, hrecipients, rfl⟩
    exact ⟨sender, recipients, hsender, hrecipients, rfl⟩
  · rintro ⟨sender, recipients, hsender, hrecipients, rfl⟩
    exact ⟨sender, hsender, recipients, hrecipients, rfl⟩

/-- The texts of a list of fingerprints, each read on its own. -/
theorem exists_map_deserialize {ss : List String}
    (h : ∀ s ∈ ss, s.toList.countP Hex.isDigit = 40) :
    ∃ fps : List Fingerprint, ss.map Fingerprint.deserialize = fps.map .ok := by
  induction ss with
  | nil => exact ⟨[], rfl⟩
  | cons s ss ih =>
      obtain ⟨fp, hfp⟩ := Fingerprint.fromHex_ok_iff_count.mpr (h s List.mem_cons_self)
      obtain ⟨fps, hfps⟩ := ih fun s' hs' => h s' (List.mem_cons_of_mem s hs')
      refine ⟨fp :: fps, ?_⟩
      rw [List.map_cons, List.map_cons, hfps]
      exact congrArg (· :: _) hfp

/-- The fields are accepted exactly if the fingerprints have their digits. -/
theorem accepted_iff : (∃ m, f.toMessage = some m) ↔ f.Readable := by
  constructor
  · rintro ⟨m, hm⟩ s hs
    obtain ⟨sender, recipients, hsender, hrecipients, -⟩ := toMessage_eq_some.mp hm
    refine Fingerprint.fromHex_ok_iff_count.mp ?_
    rcases List.mem_cons.mp hs with rfl | hs
    · exact ⟨sender, hsender⟩
    · have hmem : Fingerprint.deserialize s ∈ recipients.map .ok := by
        rw [← hrecipients]
        exact List.mem_map_of_mem hs
      obtain ⟨fp, -, hfp⟩ := List.mem_map.mp hmem
      exact ⟨fp, hfp.symm⟩
  · intro h
    obtain ⟨sender, hsender⟩ := Fingerprint.fromHex_ok_iff_count.mpr (h _ List.mem_cons_self)
    obtain ⟨recipients, hrecipients⟩ :=
      exists_map_deserialize fun s hs => h s (List.mem_cons_of_mem _ hs)
    exact ⟨_, toMessage_eq_some.mpr ⟨sender, recipients, hsender, hrecipients, rfl⟩⟩

/-- Outside `Read`, that `read_at` goes with the state is that there is none. -/
theorem read_last_iff {state : MessageState} {readAt : Option DateTime}
    (h : ∀ t, state ≠ .read t) : (∀ t, readAt = some t → state = .read t) ↔ readAt = none := by
  constructor
  · intro hlast
    exact Option.eq_none_iff_forall_ne_some.mpr fun t ht => h t (hlast t ht)
  · intro hnone t ht
    cases hnone.symm.trans ht

/-- The timestamps of the fields are those of a message that came about. -/
theorem stamped_iff (h : f.toMessage = some m) : f.Stamped ↔ m.FieldsAgree ∧ m.Traced := by
  obtain ⟨sender, recipients, -, -, rfl⟩ := toMessage_eq_some.mp h
  obtain ⟨id, fp, fps, content, contentType, state, created, sent, delivered, read⟩ := f
  rw [Stamped, Message.FieldsAgree]
  cases state with
  | pending | sending | failed _ _ =>
      constructor
      · rintro ⟨hsent, hnone⟩
        exact ⟨trivial, hsent, (read_last_iff (by simp)).mpr hnone⟩
      · rintro ⟨-, hsent, hlast⟩
        exact ⟨hsent, (read_last_iff (by simp)).mp hlast⟩
  | sent t =>
      constructor
      · rintro ⟨hsent, hnone⟩
        exact ⟨hsent, fun _ => Option.isSome_of_eq_some hsent,
          (read_last_iff (by simp)).mpr hnone⟩
      · rintro ⟨hsent, -, hlast⟩
        exact ⟨hsent, (read_last_iff (by simp)).mp hlast⟩
  | delivered t =>
      constructor
      · rintro ⟨hsent, hdelivered, hnone⟩
        exact ⟨⟨hdelivered, hsent⟩, fun _ => hsent, (read_last_iff (by simp)).mpr hnone⟩
      · rintro ⟨⟨hdelivered, hsent⟩, -, hlast⟩
        exact ⟨hsent, hdelivered, (read_last_iff (by simp)).mp hlast⟩
  | read t =>
      constructor
      · rintro ⟨hsent, hdelivered, hread⟩
        refine ⟨⟨hread, hsent, hdelivered⟩, fun _ => hsent, ?_⟩
        intro t' ht'
        rw [Option.some.inj (hread.symm.trans ht')]
      · rintro ⟨⟨hread, hsent, hdelivered⟩, -⟩
        exact ⟨hsent, hdelivered, hread⟩

variable [Chrono]

/-- What is put together from the fields can come about exactly if they are sound. -/
theorem producible_iff_sound (h : f.toMessage = some m) : m.Producible ↔ f.Sound := by
  have hstamped := stamped_iff h
  rw [Message.producible_iff]
  obtain ⟨sender, recipients, -, hrecipients, rfl⟩ := toMessage_eq_some.mp h
  have hlen : f.recipientFingerprints.length = recipients.length := by
    have hmap := congrArg List.length hrecipients
    rwa [List.length_map, List.length_map] at hmap
  constructor
  · rintro ⟨hinv, hsorted, htraced⟩
    exact ⟨hlen ▸ hinv.count, ⟨recipients, hrecipients, hsorted⟩, hinv.content,
      hstamped.mpr ⟨hinv.agree, htraced⟩⟩
  · intro hsound
    obtain ⟨hagree, htraced⟩ := hstamped.mp hsound.stamped
    obtain ⟨fps, hfps, hsorted⟩ := hsound.ascending
    have hsame : fps = recipients :=
      List.map_injective_iff.mpr (fun _ _ => Except.ok.inj) (hfps.symm.trans hrecipients)
    rw [hsame] at hsorted
    exact ⟨⟨hlen ▸ hsound.count, hsorted.imp fun hlt => hlt.2, hsound.content, hagree⟩,
      hsorted, htraced⟩

end MessageFields

/-! ## The three ways a text is read -/

theorem decodeMessage_eq_ok {serde : SerdeJson} {text : String} {m : Message} :
    decodeMessage serde text = .ok m ↔ serde.messageFromStr text = some m := by
  rw [decodeMessage]
  cases serde.messageFromStr text with
  | none => simp
  | some m' => simp

namespace MessageRepository

variable {serde : SerdeJson} {faults : Faults} {s : MessageTables} {m : Message}

/-- What `get` answers is decoded from a row. -/
theorem get_reads {id : Uuid} (h : (get serde faults id s).outcome = .ok m) :
    ∃ row ∈ s.messages, row.toMessage serde = .ok m := by
  simp only [get] at h
  have hanswer := query_bind_ok h
  dsimp only at hanswer
  cases hrow : selectById s id.toString with
  | none =>
      rw [hrow] at hanswer
      cases hanswer
  | some row =>
      rw [hrow] at hanswer
      refine ⟨row, List.mem_of_find?_eq_some hrow, ?_⟩
      exact Prog.Yields.orFail (Q := fun m => row.toMessage serde = .ok m) (fun _ h => h) s m hanswer

/-- So is every message that the loop over the rows collects. -/
theorem collect_reads (serde : SerdeJson) (faults : Faults) (k : Nat) (rows : List MessageModel) :
    Prog.Yields (fun ms => ∀ m ∈ ms, ∃ row ∈ rows, row.toMessage serde = .ok m)
      (collect serde faults k rows) := by
  induction rows generalizing k with
  | nil =>
      intro s ms h m hm
      cases h
      cases hm
  | cons row rows ih =>
      refine .bind fun _ => .orFail_bind fun msg hmsg => .bind_of (ih (k + 1)) ?_
      intro messages hmessages s ms h m hm
      cases h
      rcases List.mem_cons.mp hm with rfl | hm
      · exact ⟨row, List.mem_cons_self, hmsg⟩
      · obtain ⟨row', hrow', hread⟩ := hmessages m hm
        exact ⟨row', List.mem_cons_of_mem row hrow', hread⟩

theorem mem_of_mem_selectForRecipient {fp : String} {row : MessageModel}
    (h : row ∈ selectForRecipient s fp) : row ∈ s.messages := by
  simp only [selectForRecipient, List.mem_mergeSort, List.mem_flatMap, List.mem_map] at h
  obtain ⟨row', hrow', -, -, rfl⟩ := h
  exact hrow'

theorem listForRecipient_reads {fp : Fingerprint} {ms : List Message}
    (h : (listForRecipient serde faults fp s).outcome = .ok ms) :
    ∀ m ∈ ms, ∃ row ∈ s.messages, row.toMessage serde = .ok m := by
  simp only [listForRecipient] at h
  intro m hm
  obtain ⟨row, hrow, hread⟩ := collect_reads serde faults 3 _ s ms (query_bind_ok h) m hm
  exact ⟨row, mem_of_mem_selectForRecipient hrow, hread⟩

end MessageRepository

section
variable [Chrono] {serde : SerdeJson} {fields : String → Option MessageFields}

theorem producible_of_soundText (h : Derived serde fields) {text : String}
    (hsound : SoundText fields text) {m : Message} (hm : decodeMessage serde text = .ok m) :
    m.EntityInvariants ∧ m.Producible := by
  rw [decodeMessage_eq_ok, h.fromStr] at hm
  obtain ⟨f, hfields, hf⟩ := Option.bind_eq_some_iff.mp hm
  have hproducible : m.Producible :=
    (MessageFields.producible_iff_sound hf).mpr
      (hsound f hfields (MessageFields.accepted_iff.mp ⟨m, hf⟩))
  exact ⟨((Message.producible_iff m).mp hproducible).1, hproducible⟩

/-- For every text: a message that is decoded from it satisfies the entity's
invariants, and could have been built and moved to where it is, exactly if the
text's fields are sound.  If the texts of a repository are, so is whatever
`try_from`, `get` and `list_for_recipient` return from it. -/
theorem read_back_producible_iff (h : Derived serde fields) :
    (∀ text, (∀ m, decodeMessage serde text = .ok m → m.EntityInvariants ∧ m.Producible) ↔
      SoundText fields text) ∧
    ∀ s : MessageTables, (∀ row ∈ s.messages, SoundText fields row.messageJson) →
      (∀ row ∈ s.messages, ∀ m, row.toMessage serde = .ok m →
        m.EntityInvariants ∧ m.Producible) ∧
      (∀ faults id m, (MessageRepository.get serde faults id s).outcome = .ok m →
        m.EntityInvariants ∧ m.Producible) ∧
      (∀ faults fp ms, (listForRecipient serde faults fp s).outcome = .ok ms →
        ∀ m ∈ ms, m.EntityInvariants ∧ m.Producible) := by
  constructor
  · intro text
    constructor
    · intro hall f hfields hreadable
      obtain ⟨m, hf⟩ := MessageFields.accepted_iff.mpr hreadable
      have hm : decodeMessage serde text = .ok m := by
        rw [decodeMessage_eq_ok, h.fromStr, hfields]
        exact hf
      exact (MessageFields.producible_iff_sound hf).mp (hall m hm).2
    · intro hsound m hm
      exact producible_of_soundText h hsound hm
  · intro s hsound
    have hrow : ∀ row ∈ s.messages, ∀ m, row.toMessage serde = .ok m →
        m.EntityInvariants ∧ m.Producible :=
      fun row hmem m hm => producible_of_soundText h (hsound row hmem) hm
    refine ⟨hrow, ?_, ?_⟩
    · intro faults id m hget
      obtain ⟨row, hmem, hm⟩ := get_reads hget
      exact hrow row hmem m hm
    · intro faults fp ms hlist m hmem
      obtain ⟨row, hrow', hm⟩ := listForRecipient_reads hlist m hmem
      exact hrow row hrow' m hm

end

namespace Sample

/-- A message to nobody, without content, read and never sent. -/
def unaddressedFields : MessageFields where
  id := ⟨Vector.replicate 16 0⟩
  senderFingerprint := "aaaaaaaaaaaaaaaaaaaaaaaaaaaaaaaaaaaaaaaa"
  recipientFingerprints := []
  content := []
  contentType := .text
  state := .read 0
  createdAt := 0
  sentAt := none
  deliveredAt := none
  readAt := none

def unaddressedJson : String :=
  "\x7b\"id\":\"00000000-0000-0000-0000-000000000000\"," ++
    "\"sender_fingerprint\":\"aaaaaaaaaaaaaaaaaaaaaaaaaaaaaaaaaaaaaaaa\"," ++
    "\"recipient_fingerprints\":[],\"content\":[],\"content_type\":\"Text\"," ++
    "\"state\":\x7b\"Read\":\x7b\"read_at\":\"1970-01-01T00:00:00Z\"\x7d\x7d," ++
    "\"created_at\":\"1970-01-01T00:00:00Z\",\"sent_at\":null,\"delivered_at\":null," ++
    "\"read_at\":null\x7d"

def storedFields (text : String) : Option MessageFields :=
  if text = unaddressedJson then some unaddressedFields else none

def storedSerde : SerdeJson :=
  { serde with messageFromStr := fun text => (storedFields text).bind MessageFields.toMessage }

theorem storedSerde_derived : Derived storedSerde storedFields := ⟨fun _ => rfl⟩

section
open Delivery

theorem stored_read_back :
    (∀ text, (∀ m, decodeMessage storedSerde text = .ok m → m.EntityInvariants ∧ m.Producible) ↔
      SoundText storedFields text) ∧
    ∀ s : MessageTables, (∀ row ∈ s.messages, SoundText storedFields row.messageJson) →
      (∀ row ∈ s.messages, ∀ m, row.toMessage storedSerde = .ok m →
        m.EntityInvariants ∧ m.Producible) ∧
      (∀ faults id m, (MessageRepository.get storedSerde faults id s).outcome = .ok m →
        m.EntityInvariants ∧ m.Producible) ∧
      (∀ faults fp ms, (listForRecipient storedSerde faults fp s).outcome = .ok ms →
        ∀ m ∈ ms, m.EntityInvariants ∧ m.Producible) :=
  read_back_producible_iff storedSerde_derived

end

/-- The fields are accepted, whatever decoder is derived. -/
theorem unaddressed_accepted :
    ∃ m, unaddressedFields.toMessage = some m ∧ ¬ m.EntityInvariants := by
  obtain ⟨m, hm⟩ : ∃ m, unaddressedFields.toMessage = some m :=
    MessageFields.accepted_iff.mpr (by decide)
  refine ⟨m, hm, ?_⟩
  intro hinv
  obtain ⟨sender, recipients, -, hrecipients, rfl⟩ := MessageFields.toMessage_eq_some.mp hm
  rw [List.map_eq_nil_iff.mp hrecipients.symm] at hinv
  exact Nat.not_succ_le_zero 0 hinv.count.1

/-- A stored message to nobody is read back. -/
theorem unaddressed_read_back : Derived storedSerde storedFields ∧
    ∃ m, decodeMessage storedSerde unaddressedJson = .ok m ∧ ¬ m.EntityInvariants := by
  obtain ⟨m, hm, hbad⟩ := unaddressed_accepted
  refine ⟨storedSerde_derived, m, decodeMessage_eq_ok.mpr ?_, hbad⟩
  rw [storedSerde_derived.fromStr, storedFields, if_pos rfl]
  exact hm

end Sample

/-- Where every choice of values has a text, some text is accepted that breaks
the invariants, whatever else the decoder does. -/
theorem Derived.accepts_unsound {serde : SerdeJson} {fields : String → Option MessageFields}
    (h : Derived serde fields) (hany : ∀ f, ∃ text, fields text = some f) :
    ∃ text m, decodeMessage serde text = .ok m ∧ ¬ m.EntityInvariants := by
  obtain ⟨text, hfields⟩ := hany Sample.unaddressedFields
  obtain ⟨m, hm, hbad⟩ := Sample.unaddressed_accepted
  refine ⟨text, m, decodeMessage_eq_ok.mpr ?_, hbad⟩
  rw [h.fromStr, hfields]
  exact hm

end Rubix.Persistence
