/-
# `Rubix.Domain.Recipients` — the recipients of a message as a set

`build` sorts the recipients by their bytes and drops what repeats, so the
list a message keeps is strictly ascending (`canonical_recipients`), and there
is one such list for each set (`sortDedup_congr`).  The limit on the recipients is checked before,
on the list as it came:

    built   ↔   acceptable as a set, and at most fifty entries

(`MessageBuilder.build_ok_iff`).  A list that names few fingerprints often is
refused for its length.
-/
import Mathlib.Data.Finset.Card
import Mathlib.Data.List.Lex
import Rubix.Domain.Message

namespace Rubix

/-! ## Dropping repetitions from a sorted list -/

section
variable {α : Type} [DecidableEq α] {r : α → α → Prop} {l : List α}

theorem mem_dedup {a : α} : a ∈ dedup l ↔ a ∈ l := by
  induction l using dedup.induct with
  | case1 => rfl
  | case2 b => rfl
  | case3 b l ih =>
      rw [dedup, if_pos rfl, ih]
      simp
  | case4 b c l hne ih =>
      rw [dedup, if_neg hne, List.mem_cons, ih, ← List.mem_cons]

/-- What is left of a sorted list is strictly sorted. -/
theorem pairwise_dedup (hr : ∀ a b, r a b → r b a → a = b) (h : l.Pairwise r) :
    (dedup l).Pairwise fun a b => r a b ∧ a ≠ b := by
  induction l using dedup.induct with
  | case1 => exact List.Pairwise.nil
  | case2 b => exact List.pairwise_singleton _ _
  | case3 b l ih =>
      rw [dedup, if_pos rfl]
      exact ih (List.pairwise_cons.mp h).2
  | case4 b c l hne ih =>
      obtain ⟨hb, hrest⟩ := List.pairwise_cons.mp h
      rw [dedup, if_neg hne]
      refine List.pairwise_cons.mpr ⟨?_, ih hrest⟩
      intro a ha
      have ha' : a ∈ c :: l := mem_dedup.mp ha
      refine ⟨hb a ha', ?_⟩
      rintro rfl
      -- `b` comes again behind `c`, so `c` is below it as well as above
      rcases List.mem_cons.mp ha' with heq | hl
      · exact hne heq
      · exact hne (hr b c (hb c List.mem_cons_self) ((List.pairwise_cons.mp hrest).1 b hl))

/-- A list without repetitions stays as it is. -/
theorem dedup_eq_self (h : l.Pairwise (· ≠ ·)) : dedup l = l := by
  induction l using dedup.induct with
  | case1 => rfl
  | case2 b => rfl
  | case3 b l ih => exact absurd rfl ((List.pairwise_cons.mp h).1 b List.mem_cons_self)
  | case4 b c l hne ih =>
      rw [dedup, if_neg hne, ih (List.pairwise_cons.mp h).2]

end

namespace Fingerprint

/-! ## The order of the bytes -/

theorem le_total (a b : Fingerprint) : a.le b ∨ b.le a := List.le_total _ _

theorem le_trans {a b c : Fingerprint} (hab : a.le b) (hbc : b.le c) : a.le c :=
  List.le_trans hab hbc

theorem le_antisymm {a b : Fingerprint} (hab : a.le b) (hba : b.le a) : a = b := by
  obtain ⟨bytes⟩ := a
  obtain ⟨bytes'⟩ := b
  have hbytes : bytes.toList = bytes'.toList := List.le_antisymm hab hba
  rw [Vector.toList_inj.mp hbytes]

/-- Before, and not the same. -/
def lt (a b : Fingerprint) : Prop := a.le b ∧ a ≠ b

instance : DecidableRel lt := fun a b => inferInstanceAs (Decidable (a.le b ∧ a ≠ b))

instance : Std.Irrefl lt := ⟨fun _ h => h.2 rfl⟩

instance : Std.Antisymm lt := ⟨fun _ _ hab hba => le_antisymm hab.1 hba.1⟩

instance : Std.Total le := ⟨le_total⟩

instance : IsTrans Fingerprint le := ⟨fun _ _ _ => le_trans⟩

/-- The recipients `build` keeps of those it was given. -/
def sortDedup (fps : List Fingerprint) : List Fingerprint := dedup (fps.insertionSort le)

section
variable {fps fps' : List Fingerprint}

theorem mem_sortDedup {fp : Fingerprint} : fp ∈ sortDedup fps ↔ fp ∈ fps := by
  rw [sortDedup, mem_dedup, List.mem_insertionSort]

theorem pairwise_sortDedup (fps : List Fingerprint) : (sortDedup fps).Pairwise lt :=
  pairwise_dedup (fun _ _ => le_antisymm) (List.pairwise_insertionSort le fps)

/-- Before it, without being it, is before it in the order of the bytes. -/
theorem lt.bytes_lt {a b : Fingerprint} (h : a.lt b) : a.bytes.toList < b.bytes.toList := by
  obtain ⟨hle, hne⟩ := h
  by_contra hnot
  exact hne (le_antisymm hle (List.not_lt.mp hnot))

/-- The list kept depends on the set given. -/
theorem sortDedup_congr (h : ∀ fp, fp ∈ fps ↔ fp ∈ fps') : sortDedup fps = sortDedup fps' := by
  refine (pairwise_sortDedup fps).eq_of_mem_iff (pairwise_sortDedup fps') ?_
  intro fp
  rw [mem_sortDedup, mem_sortDedup, h]

/-- A strictly ascending list is kept as it is. -/
theorem sortDedup_eq_self (h : fps.Pairwise lt) : sortDedup fps = fps := by
  rw [sortDedup, (h.imp fun hlt => hlt.1).insertionSort_eq, dedup_eq_self (h.imp fun hlt => hlt.2)]

theorem length_sortDedup (fps : List Fingerprint) :
    (sortDedup fps).length = fps.toFinset.card := by
  have hnodup : (sortDedup fps).Nodup := (pairwise_sortDedup fps).imp fun hlt => hlt.2
  rw [← List.toFinset_card_of_nodup hnodup]
  congr 1
  ext fp
  rw [List.mem_toFinset, List.mem_toFinset, mem_sortDedup]

end
end Fingerprint

namespace MessageBuilder

/-! ## What a builder accepts -/

/-- As a set: the sender is set, the content is within its limits, and so is
the number of distinct recipients. -/
structure Acceptable (b : MessageBuilder) : Prop where
  sender : ∃ fp, b.senderFingerprint = some fp
  content : ∃ bytes, b.content = some bytes ∧ 1 ≤ bytes.length ∧ bytes.length ≤ 65536
  recipients : 1 ≤ b.recipientFingerprints.toFinset.card ∧
    b.recipientFingerprints.toFinset.card ≤ maxRecipients

/-- The same sender, content and type, and the same fingerprints among the
recipients. -/
structure SameSet (b b' : MessageBuilder) : Prop where
  sender_eq : b.senderFingerprint = b'.senderFingerprint
  content_eq : b.content = b'.content
  contentType_eq : b.contentType = b'.contentType
  mem_iff : ∀ fp, fp ∈ b.recipientFingerprints ↔ fp ∈ b'.recipientFingerprints

/-- Both fail, or both succeed with the same recipients. -/
def SameOutcome : DomainResult Message → DomainResult Message → Prop
  | .ok m, .ok m' => m.recipientFingerprints = m'.recipientFingerprints
  | .error _, .error _ => True
  | _, _ => False

/-- The two builders come to the same outcome, and each succeeds exactly if
its request is acceptable. -/
def DependsOnSet (b b' : MessageBuilder) : Prop :=
  ∀ (id id' : Uuid) (now now' : DateTime), SameOutcome (b.build id now) (b'.build id' now') ∧
    ((∃ m, b.build id now = .ok m) ↔ b.Acceptable) ∧
    ((∃ m, b'.build id' now' = .ok m) ↔ b'.Acceptable)

variable {b b' : MessageBuilder} {id : Uuid} {now : DateTime} {m : Message}

theorem card_recipients_le (b : MessageBuilder) :
    b.recipientFingerprints.toFinset.card ≤ b.recipientFingerprints.length :=
  List.toFinset_card_le _

theorem one_le_card_iff : 1 ≤ b.recipientFingerprints.toFinset.card ↔
    b.recipientFingerprints ≠ [] := by
  rw [Nat.succ_le_iff, Finset.card_pos, List.toFinset_nonempty_iff]

/-- A message is built exactly if the request is acceptable and its list of
recipients is no longer than the limit. -/
theorem build_ok_iff : (∃ m, b.build id now = .ok m) ↔
    b.Acceptable ∧ b.recipientFingerprints.length ≤ maxRecipients := by
  constructor
  · rintro ⟨m, hm⟩
    obtain ⟨sender, content, hsender, hnonempty, hroom, hcontent, hvalid, -⟩ :=
      build_eq_ok_iff.mp hm
    refine ⟨⟨⟨sender, hsender⟩, ⟨content, hcontent, validateMessageContent_ok_iff.mp hvalid⟩, ?_⟩,
      hroom⟩
    exact ⟨one_le_card_iff.mpr hnonempty, b.card_recipients_le.trans hroom⟩
  · rintro ⟨⟨⟨sender, hsender⟩, ⟨content, hcontent, hsize⟩, hfew⟩, hroom⟩
    exact ⟨_, build_eq_ok_iff.mpr ⟨sender, content, hsender, one_le_card_iff.mp hfew.1, hroom,
      hcontent, validateMessageContent_ok_iff.mpr hsize, rfl⟩⟩

theorem build_recipients (h : b.build id now = .ok m) :
    m.recipientFingerprints = Fingerprint.sortDedup b.recipientFingerprints := by
  obtain ⟨sender, content, -, -, -, -, -, rfl⟩ := build_eq_ok_iff.mp h
  rfl

/-! ## Whom a built message is to -/

theorem isTo_iff {fp : Fingerprint} : m.isTo fp = true ↔ fp ∈ m.recipientFingerprints := by
  rw [Message.isTo, List.any_eq_true]
  constructor
  · rintro ⟨fp', hmem, heq⟩
    rw [Fingerprint.constantTimeEq_iff] at heq
    exact heq ▸ hmem
  · intro hmem
    exact ⟨fp, hmem, Fingerprint.constantTimeEq_iff.mpr rfl⟩

/-- More than one recipient is kept of two that differ, and only of such. -/
theorem isGroup_iff (h : b.build id now = .ok m) : m.isGroup = true ↔
    ∃ fp ∈ b.recipientFingerprints, ∃ fp' ∈ b.recipientFingerprints, fp ≠ fp' := by
  rw [Message.isGroup, decide_eq_true_iff, build_recipients h, Fingerprint.length_sortDedup,
    Finset.one_lt_card]
  simp only [List.mem_toFinset]

/-- The recipients of a built message: strictly ascending by their bytes, those
that were given, and at least one.  So it is to those that were given, and to
a group if two of these differ. -/
theorem canonical_recipients (h : b.build id now = .ok m) :
    m.recipientFingerprints.Pairwise (fun fp fp' => fp.bytes.toList < fp'.bytes.toList) ∧
    (∀ fp, fp ∈ m.recipientFingerprints ↔ fp ∈ b.recipientFingerprints) ∧
    m.recipientFingerprints ≠ [] ∧
    (∀ fp, m.isTo fp = true ↔ fp ∈ b.recipientFingerprints) ∧
    (m.isGroup = true ↔
      ∃ fp ∈ b.recipientFingerprints, ∃ fp' ∈ b.recipientFingerprints, fp ≠ fp') := by
  have hkept := build_recipients h
  have hmem : ∀ fp, fp ∈ m.recipientFingerprints ↔ fp ∈ b.recipientFingerprints := by
    intro fp
    rw [hkept, Fingerprint.mem_sortDedup]
  refine ⟨?_, hmem, ?_, ?_, isGroup_iff h⟩
  · rw [hkept]
    exact (Fingerprint.pairwise_sortDedup _).imp fun hlt => hlt.bytes_lt
  · obtain ⟨_, _, _, hnonempty, -⟩ := build_eq_ok_iff.mp h
    obtain ⟨fp, hfp⟩ := List.exists_mem_of_ne_nil _ hnonempty
    exact List.ne_nil_of_mem ((hmem fp).mpr hfp)
  · intro fp
    rw [isTo_iff, hmem]

theorem SameSet.acceptable (h : SameSet b b') (hb : b.Acceptable) : b'.Acceptable := by
  have hset : b'.recipientFingerprints.toFinset = b.recipientFingerprints.toFinset := by
    ext fp
    rw [List.mem_toFinset, List.mem_toFinset, h.mem_iff]
  refine ⟨h.sender_eq ▸ hb.sender, h.content_eq ▸ hb.content, ?_⟩
  rw [hset]
  exact hb.recipients

theorem SameSet.symm (h : SameSet b b') : SameSet b' b :=
  ⟨h.sender_eq.symm, h.content_eq.symm, h.contentType_eq.symm, fun fp => (h.mem_iff fp).symm⟩

/-- For two requests that are the same as sets, `build` goes by the set of
recipients, unless the request is acceptable and one of the lists has more
entries than the limit. -/
theorem depends_on_set_iff (h : SameSet b b') :
    b.DependsOnSet b' ↔
      ¬ (b.Acceptable ∧ (maxRecipients < b.recipientFingerprints.length ∨
        maxRecipients < b'.recipientFingerprints.length)) := by
  constructor
  · rintro hset ⟨hacc, hlong⟩
    obtain ⟨-, hbuilt, hbuilt'⟩ := hset ⟨Vector.replicate 16 0⟩ ⟨Vector.replicate 16 0⟩ 0 0
    rcases hlong with hlong | hlong
    · exact Nat.not_lt.mpr (build_ok_iff.mp (hbuilt.mpr hacc)).2 hlong
    · exact Nat.not_lt.mpr (build_ok_iff.mp (hbuilt'.mpr (h.acceptable hacc))).2 hlong
  · intro hshort id id' now now'
    have hbuilt : (∃ m, b.build id now = .ok m) ↔ b.Acceptable := by
      rw [build_ok_iff, and_iff_left_iff_imp]
      intro hacc
      exact Nat.le_of_not_lt fun hlong => hshort ⟨hacc, .inl hlong⟩
    have hbuilt' : (∃ m, b'.build id' now' = .ok m) ↔ b'.Acceptable := by
      rw [build_ok_iff, and_iff_left_iff_imp]
      intro hacc
      exact Nat.le_of_not_lt fun hlong => hshort ⟨h.symm.acceptable hacc, .inr hlong⟩
    refine ⟨?_, hbuilt, hbuilt'⟩
    cases hm : b.build id now with
    | ok m =>
        obtain ⟨m', hm'⟩ := hbuilt'.mpr (h.acceptable (hbuilt.mp ⟨m, hm⟩))
        rw [hm']
        show m.recipientFingerprints = m'.recipientFingerprints
        rw [build_recipients hm, build_recipients hm', Fingerprint.sortDedup_congr h.mem_iff]
    | error e =>
        cases hm' : b'.build id' now' with
        | ok m' =>
            obtain ⟨m, hbad⟩ := hbuilt.mpr (h.symm.acceptable (hbuilt'.mp ⟨m', hm'⟩))
            rw [hm] at hbad
            cases hbad
        | error e' => trivial

/-- Two recipients, and the same two in another order with one of them twice. -/
def twoNames : MessageBuilder :=
  { senderFingerprint := some ⟨Vector.replicate 20 0xAA⟩
    recipientFingerprints := [⟨Vector.replicate 20 0xBB⟩, ⟨Vector.replicate 20 0xCC⟩]
    content := some [0x74] }

def twoNamesAgain : MessageBuilder :=
  { twoNames with
    recipientFingerprints :=
      [⟨Vector.replicate 20 0xCC⟩, ⟨Vector.replicate 20 0xBB⟩, ⟨Vector.replicate 20 0xBB⟩] }

/-- The message of the second: both, in the order of their bytes. -/
def twoNamesMessage : Message :=
  { id := ⟨Vector.replicate 16 0⟩
    senderFingerprint := ⟨Vector.replicate 20 0xAA⟩
    recipientFingerprints := [⟨Vector.replicate 20 0xBB⟩, ⟨Vector.replicate 20 0xCC⟩]
    content := [0x74]
    contentType := .text
    state := .pending
    createdAt := 0
    sentAt := none
    deliveredAt := none
    readAt := none }

theorem twoNamesMessage_recipients :
    twoNamesMessage.recipientFingerprints.Pairwise
      (fun fp fp' => fp.bytes.toList < fp'.bytes.toList) ∧
    (∀ fp, fp ∈ twoNamesMessage.recipientFingerprints ↔
      fp ∈ twoNamesAgain.recipientFingerprints) ∧
    twoNamesMessage.recipientFingerprints ≠ [] ∧
    (∀ fp, twoNamesMessage.isTo fp = true ↔ fp ∈ twoNamesAgain.recipientFingerprints) ∧
    (twoNamesMessage.isGroup = true ↔ ∃ fp ∈ twoNamesAgain.recipientFingerprints,
      ∃ fp' ∈ twoNamesAgain.recipientFingerprints, fp ≠ fp') :=
  canonical_recipients
    (rfl : twoNamesAgain.build ⟨Vector.replicate 16 0⟩ 0 = .ok twoNamesMessage)

theorem twoNames_sameSet : SameSet twoNames twoNamesAgain where
  sender_eq := rfl
  content_eq := rfl
  contentType_eq := rfl
  mem_iff fp := by
    simp only [twoNames, twoNamesAgain, List.mem_cons, List.not_mem_nil, or_false]
    tauto

theorem twoNames_depends_on_set :
    twoNames.DependsOnSet twoNamesAgain ↔
      ¬ (twoNames.Acceptable ∧ (maxRecipients < twoNames.recipientFingerprints.length ∨
        maxRecipients < twoNamesAgain.recipientFingerprints.length)) :=
  depends_on_set_iff twoNames_sameSet

/-- One recipient, named `n` times. -/
def oneName (n : Nat) : MessageBuilder :=
  { senderFingerprint := some ⟨Vector.replicate 20 0xAA⟩
    recipientFingerprints := List.replicate n ⟨Vector.replicate 20 0xBB⟩
    content := some [0x74] }

/-- Named fifty-one times, the one recipient is too many. -/
theorem repeated_name_refused :
    SameSet (oneName 1) (oneName 51) ∧ ¬ (oneName 1).DependsOnSet (oneName 51) := by
  have hsame : SameSet (oneName 1) (oneName 51) := by
    refine ⟨rfl, rfl, rfl, ?_⟩
    intro fp
    simp only [oneName, List.mem_replicate]
    simp
  have hacc : (oneName 1).Acceptable := by
    refine ⟨⟨_, rfl⟩, ⟨_, rfl, by decide, by decide⟩, ?_⟩
    decide
  refine ⟨hsame, ?_⟩
  intro hset
  obtain ⟨-, -, hbuilt⟩ := hset ⟨Vector.replicate 16 0⟩ ⟨Vector.replicate 16 0⟩ 0 0
  have hlong := (build_ok_iff.mp (hbuilt.mpr (hsame.acceptable hacc))).2
  rw [oneName, List.length_replicate] at hlong
  exact absurd hlong (by decide)

end MessageBuilder
end Rubix
