/-
# `Rubix.Application.SendLimits` — the byte limits a sent text meets

    validate_request   at most 65536 bytes of plaintext
    build              at most 65536 bytes of ciphertext
    from_message       a preview of 256 bytes, cut wherever byte 256 is

The ciphertext is 16 bytes longer than the plaintext, so the two limits of the
same value do not fit: of what the first admits, the second refuses the last 16
lengths (`sendable_iff`).  The cut is at a byte, and panics inside a character;
by then the message is saved and sent (`previews_iff`).
-/
import Rubix.Application.SendMessage

namespace Rubix

open Effect (Prog Run Outcome)

variable {W : Type}

namespace SendMessage

/-! ## Two limits on two sides of an expansion -/

/-- The bytes an AEAD adds to the plaintext. -/
def aeadOverhead : Nat := 16

/-- Every encryption succeeds, with the plaintext and a tag. -/
def Seals (security : SecurityPort W) : Prop :=
  ∀ plaintext fp env, ∃ ct, (security.encryptForPeer plaintext fp env).1 = .ok ct ∧
    ct.length = plaintext.length + aeadOverhead

/-- No save fails. -/
def Stores (persistence : PersistencePort W) : Prop :=
  ∀ m env, (persistence.saveMessage m env).1 = .ok ()

/-- A message to the recipient was saved, and the end is no domain error. -/
structure Sendable (fp : Fingerprint)
    (run : Run (App W) Call ApplicationError Panic MessageResponse) : Prop where
  saved : ∃ m, m ∈ saves run.log ∧ m.recipientFingerprints = [fp]
  admitted : run.outcome ≠ .err .domain

/-- What passes the first validation. -/
theorem length_of_validate {request : SendMessageRequest} {fp : Fingerprint}
    (h : validate request = .ok fp) :
    1 ≤ (Utf8.encode request.content.toList).length := by
  rw [validate, validateRequest] at h
  split at h
  · cases h
  · next hrequest =>
      split at hrequest
      · cases hrequest
      · split at hrequest
        · cases hrequest
        · next hcontent =>
            rw [Utf8.length_encode, ← Utf8.utf8ByteSize_eq]
            omega

/-- A builder with a sender, a recipient and a content checks the content. -/
theorem build_one (sender fp : Fingerprint) (content : List UInt8) (contentType : ContentType)
    (id : Uuid) (now : DateTime) :
    (∀ m, MessageBuilder.build ⟨some sender, [fp], some content, contentType⟩ id now = .ok m →
      m.recipientFingerprints = [fp]) ∧
    ((MessageBuilder.build ⟨some sender, [fp], some content, contentType⟩ id now).isOk ↔
      1 ≤ content.length ∧ content.length ≤ 65536) := by
  rw [← validateMessageContent_ok_iff]
  cases hcontent : validateMessageContent content with
  | error e =>
      have hbuild : MessageBuilder.build ⟨some sender, [fp], some content, contentType⟩ id now
          = .error e := by
        simp only [MessageBuilder.build, hcontent]
        rfl
      rw [hbuild]
      refine ⟨?_, ?_⟩
      · intro m h
        cases h
      · exact iff_of_false (by simp [Except.isOk, Except.toBool]) (by simp)
  | ok u =>
      have hbuild : MessageBuilder.build ⟨some sender, [fp], some content, contentType⟩ id now
          = .ok ⟨id, sender, [fp], content, contentType, .pending, now, none, none, none⟩ := by
        simp only [MessageBuilder.build, hcontent]
        rfl
      rw [hbuild]
      refine ⟨?_, ?_⟩
      · intro m h
        cases h
        rfl
      · exact iff_of_true rfl rfl

/-- Steps 6 and 7, on the ciphertext. -/
def buildAndSave (ports : Ports W) (request : SendMessageRequest) (sender fp : Fingerprint)
    (ciphertext : List UInt8) : UseCase W Prepared := do
  let id ← draw ports.newUuid
  let now ← draw ports.utcNow
  let message ← Prog.orFail (fun _ => .domain) (MessageBuilder.build
    { senderFingerprint := some sender
      recipientFingerprints := [fp]
      content := some ciphertext
      contentType := request.contentType.toDomain } id now)
  let saved ← ports.saveMessage message
  orPersistence saved
  pure ⟨message, fp, ciphertext, Utf8.encode request.content.toList⟩

section
variable {ports : Ports W} {request : SendMessageRequest} {fp : Fingerprint} {s : App W}

/-- The length of the ciphertext decides. -/
theorem buildAndSave_spec (hstores : Stores ports.persistence) (request : SendMessageRequest)
    (sender fp : Fingerprint) (ct : List UInt8) (s : App W) :
    let run := buildAndSave ports request sender fp ct s
    (1 ≤ ct.length ∧ ct.length ≤ 65536 → ∃ p, run.outcome = .ok p ∧
        p.message ∈ saves run.log ∧ p.message.recipientFingerprints = [fp]) ∧
      (¬ (1 ≤ ct.length ∧ ct.length ≤ 65536) → run.outcome = .err .domain ∧ saves run.log = []) := by
  intro run
  obtain ⟨hrecipient, hbuilds⟩ := build_one sender fp ct request.contentType.toDomain
    (ports.newUuid s.env).1 (ports.utcNow (ports.newUuid s.env).2).1
  simp only [run, buildAndSave, draw, Prog.silent_bind]
  cases hbuilt : MessageBuilder.build
      ⟨some sender, [fp], some ct, request.contentType.toDomain⟩ (ports.newUuid s.env).1
      (ports.utcNow (ports.newUuid s.env).2).1 with
  | error e =>
      rw [hbuilt] at hbuilds
      refine ⟨?_, ?_⟩
      · intro hlen
        exact absurd (hbuilds.mpr hlen) (by simp [Except.isOk, Except.toBool])
      · intro _
        exact ⟨rfl, rfl⟩
  | ok m =>
      rw [hbuilt] at hbuilds
      have hsaved : ∀ m env, (ports.persistence.saveMessage m env).1 = .ok () := hstores
      simp only [Prog.orFail_ok, Prog.pure_bind_run, Ports.saveMessage, ask, Prog.call_bind, hsaved,
        orPersistence]
      refine ⟨?_, ?_⟩
      · intro _
        exact ⟨_, rfl, List.mem_cons_self, hrecipient m hbuilt⟩
      · intro hlen
        exact absurd (hbuilds.mp rfl) hlen

/-- The first steps, where neither the limiter nor a port stands in the way. -/
theorem prepare_spec (hseals : Seals ports.security) (hstores : Stores ports.persistence)
    (hvalid : validate request = .ok fp)
    (hallowed : (s.sendLimiter.check s.now (rateKey fp)).1 = true) :
    let run := prepare ports request s
    (request.content.utf8ByteSize ≤ 65520 → ∃ p, run.outcome = .ok p ∧
        p.message ∈ saves run.log ∧ p.message.recipientFingerprints = [fp]) ∧
      (65520 < request.content.utf8ByteSize →
        run.outcome = .err .domain ∧ saves run.log = []) := by
  intro run
  have hpos := length_of_validate hvalid
  have hsize := Utf8.utf8ByteSize_eq request.content
  rw [← Utf8.length_encode] at hsize
  obtain ⟨ct, hct, hlen⟩ := hseals (Utf8.encode request.content.toList) fp s.env
  rw [aeadOverhead] at hlen
  -- the calls before the ciphertext save nothing
  have hrun : run = (ask (.encryptForPeer (Utf8.encode request.content.toList) fp)
      (ports.security.encryptForPeer (Utf8.encode request.content.toList) fp) >>= fun _ =>
        buildAndSave ports request s.identity.fingerprint fp ct)
      { s with sendLimiter := (s.sendLimiter.check s.now (rateKey fp)).2 } := by
    simp only [run, prepare, hvalid, Prog.orFail_ok, Prog.pure_bind_run, checkLimiter,
      Prog.silent_bind, hallowed, if_true, Ports.encryptForPeer, ask, Prog.call_bind, hct]
    rfl
  have hsaves : ∀ log, saves (.encryptForPeer (Utf8.encode request.content.toList) fp
      (ports.security.encryptForPeer (Utf8.encode request.content.toList) fp s.env).1 :: log)
        = saves log := fun _ => rfl
  obtain ⟨hshort, hlong⟩ := buildAndSave_spec hstores request s.identity.fingerprint fp ct
    { s with
      sendLimiter := (s.sendLimiter.check s.now (rateKey fp)).2
      env := (ports.security.encryptForPeer (Utf8.encode request.content.toList) fp s.env).2 }
  rw [hrun, ask, Prog.call_bind]
  dsimp only
  rw [hsaves]
  exact ⟨fun h => hshort ⟨by omega, by omega⟩, fun h => hlong fun hct => absurd hct.2 (by omega)⟩

end

/-- Nothing before the first save panics. -/
theorem prepare_safe (ports : Ports W) (request : SendMessageRequest) :
    Prog.Safe (prepare ports request) := by
  refine (Prog.Safe.orFail _ _).bind ?_
  intro fp
  refine (Prog.Safe.silent _).bind ?_
  intro allowed
  split
  · refine (Prog.Safe.silent _).bind ?_
    intro identity
    refine (Prog.Safe.call _ _).bind ?_
    intro encrypted
    refine (Prog.Safe.orFail _ _).bind ?_
    intro ct
    refine (Prog.Safe.silent _).bind ?_
    intro id
    refine (Prog.Safe.silent _).bind ?_
    intro now
    refine (Prog.Safe.orFail _ _).bind ?_
    intro message
    refine (Prog.Safe.call _ _).bind ?_
    intro saved
    exact (Prog.Safe.orFail _ _).bind fun _ => Prog.Safe.pure _
  · exact Prog.Safe.fail _

/-- The plaintext kept for the preview is that of the request. -/
theorem prepare_plaintext (ports : Ports W) (request : SendMessageRequest) :
    Prog.Yields (fun p => p.plaintext = Utf8.encode request.content.toList)
      (prepare ports request) := by
  refine Prog.Yields.bind ?_
  intro fp
  refine Prog.Yields.bind ?_
  intro allowed
  split
  · refine Prog.Yields.bind ?_
    intro identity
    refine Prog.Yields.bind ?_
    intro encrypted
    refine Prog.Yields.bind ?_
    intro ct
    refine Prog.Yields.bind ?_
    intro id
    refine Prog.Yields.bind ?_
    intro now
    refine Prog.Yields.bind ?_
    intro message
    refine Prog.Yields.bind ?_
    intro saved
    exact Prog.Yields.bind fun _ => Prog.Yields.pure rfl
  · exact Prog.Yields.fail _

/-! ## Behind the first save -/

section
variable [Chrono] (ports : Ports W)

/-- Steps 8 and 9: send, and save again. -/
def settle (p : Prepared) : UseCase W Message := do
  let (msg, _) ← sendWithRetry ports p.message p.recipientFp p.ciphertext
  let saved ← ports.saveMessage msg
  orPersistence saved
  pure msg

theorem finish_eq (p : Prepared) :
    finish ports p = settle ports p >>= fun msg =>
      MessageResponse.fromMessage msg (Utf8.lossy p.plaintext) := by
  rw [finish, settle, Prog.bind_assoc]
  refine congrArg (sendWithRetry ports p.message p.recipientFp p.ciphertext >>= ·) ?_
  funext sent
  obtain ⟨msg, result⟩ := sent
  dsimp only
  rw [Prog.bind_assoc]
  refine congrArg (ports.saveMessage msg >>= ·) ?_
  funext saved
  rw [Prog.bind_assoc]
  rfl

/-- Sending ends with the message, whether it could be sent or not. -/
theorem sent_ok {p : Prepared} (h : p.message.state = .pending) (s : App W) :
    ∃ final result, (sendWithRetry ports p.message p.recipientFp p.ciphertext s).outcome
      = .ok (final, result) := by
  obtain ⟨hsettles, hstrands⟩ := sendWithRetry_spec ports h p.recipientFp p.ciphertext s
  cases hconn : connects ports p.recipientFp s with
  | true =>
      obtain ⟨final, result, hout, -⟩ := (hsettles hconn).returns
      exact ⟨final, result, hout⟩
  | false =>
      obtain ⟨final, result, hout, -⟩ := (hstrands hconn).returns
      exact ⟨final, result, hout⟩

/-- Sending and saving again ends with the message or with the save's error. -/
theorem settle_run {p : Prepared} (h : p.message.state = .pending) (s : App W) :
    (∃ msg, (settle ports p s).outcome = .ok msg) ∨
      (settle ports p s).outcome = .err .persistence := by
  obtain ⟨final, result, hout⟩ := sent_ok ports h s
  simp only [settle, Prog.bind_of_ok hout, Ports.saveMessage, ask, Prog.call_bind, orPersistence]
  cases (ports.persistence.saveMessage final
      (sendWithRetry ports p.message p.recipientFp p.ciphertext s).world.env).1 with
  | ok u => exact .inl ⟨final, rfl⟩
  | error e => exact .inr rfl

theorem settle_ok {ports : Ports W} (hstores : Stores ports.persistence) {p : Prepared}
    (h : p.message.state = .pending) (s : App W) : ∃ msg, (settle ports p s).outcome = .ok msg := by
  obtain ⟨final, result, hout⟩ := sent_ok ports h s
  have hsaved : ∀ m env, (ports.persistence.saveMessage m env).1 = .ok () := hstores
  refine ⟨final, ?_⟩
  simp only [settle, Prog.bind_of_ok hout, Ports.saveMessage, ask, Prog.call_bind, orPersistence,
    hsaved]
  rfl

theorem finish_admitted {p : Prepared} (h : p.message.state = .pending) (s : App W) :
    (finish ports p s).outcome ≠ .err .domain := by
  rw [finish_eq]
  rcases settle_run ports h s with ⟨msg, hmsg⟩ | herr
  · rw [Prog.bind_of_ok hmsg]
    rcases MessageResponse.fromMessage_run msg (Utf8.lossy p.plaintext) (settle ports p s).world with
      ⟨text, ht⟩ | ht
    · rw [ht]
      simp
    · rw [ht]
      simp
  · rw [Prog.bind_of_err herr]
    simp

section
variable {ports} {request : SendMessageRequest} {fp : Fingerprint} {s : App W}

theorem sendable_of_short (hseals : Seals ports.security) (hstores : Stores ports.persistence)
    (hvalid : validate request = .ok fp)
    (hallowed : (s.sendLimiter.check s.now (rateKey fp)).1 = true)
    (hsize : request.content.utf8ByteSize ≤ 65520) : Sendable fp (execute ports request s) := by
  obtain ⟨p, hp, hsaved, hrecipient⟩ := (prepare_spec hseals hstores hvalid hallowed).1 hsize
  obtain ⟨hpending, -⟩ := prepare_traces ports request s p hp
  rw [execute, Prog.bind_of_ok hp]
  refine ⟨⟨p.message, ?_, hrecipient⟩, finish_admitted ports hpending _⟩
  rw [saves_append]
  exact List.mem_append_left _ hsaved

theorem not_sendable_of_long (hseals : Seals ports.security) (hstores : Stores ports.persistence)
    (hvalid : validate request = .ok fp)
    (hallowed : (s.sendLimiter.check s.now (rateKey fp)).1 = true)
    (hsize : 65520 < request.content.utf8ByteSize) : ¬ Sendable fp (execute ports request s) := by
  intro h
  obtain ⟨hdomain, -⟩ := (prepare_spec hseals hstores hvalid hallowed).2 hsize
  refine h.admitted ?_
  rw [execute, Prog.bind_of_err hdomain]

/-- Where nothing else stands in the way, a request that validates is sent
exactly if the tag still fits behind its content. -/
theorem sendable_iff (hseals : Seals ports.security) (hstores : Stores ports.persistence)
    (hvalid : validate request = .ok fp)
    (hallowed : (s.sendLimiter.check s.now (rateKey fp)).1 = true) :
    Sendable fp (execute ports request s) ↔ request.content.utf8ByteSize ≤ 65520 := by
  constructor
  · intro h
    refine Nat.not_lt.mp ?_
    intro hlong
    exact not_sendable_of_long hseals hstores hvalid hallowed hlong h
  · intro hshort
    exact sendable_of_short hseals hstores hvalid hallowed hshort

end

/-! ## The preview -/

/-- A text short enough to be shown whole, or with a character boundary where
it is cut. -/
def Cuttable (text : String) : Prop :=
  Utf8.byteLen text.toList ≤ maxPreviewLen ∨ Utf8.IsBoundary maxPreviewLen text.toList

/-- The whole text if it is short enough, else a prefix that is, and an ellipsis. -/
def IsPreview (text preview : String) : Prop :=
  if Utf8.byteLen text.toList ≤ maxPreviewLen then preview = text
  else ∃ front, front <+: text.toList ∧ Utf8.byteLen front ≤ maxPreviewLen ∧
    preview = String.ofList (front ++ ['…'])

/-- The response has the preview of the text. -/
def Shows (m : Message) (text : String) (s : App W) : Prop :=
  ∃ response, (MessageResponse.fromMessage m text.toList s).outcome = .ok response ∧
    IsPreview text response.contentPreview

/-- The run gets as far as the response: the message is saved, sent and saved
again. -/
def Responds (request : SendMessageRequest) (s : App W) : Prop :=
  ∃ p msg, (prepare ports request s).outcome = .ok p ∧
    (settle ports p (prepare ports request s).world).outcome = .ok msg

theorem fromMessage_cuttable {m : Message} {text : String} {s : App W} (h : Cuttable text) :
    Shows m text s := by
  rw [Shows, MessageResponse.fromMessage, preview]
  split
  · next hlong =>
      have hboundary := h.resolve_left (Nat.not_le.mpr hlong)
      obtain ⟨front, hfront⟩ := Option.isSome_iff_exists.mp (Utf8.isSome_sliceTo?_iff.mpr hboundary)
      obtain ⟨hfronts, hlen⟩ := Utf8.sliceTo?_eq_some_iff.mp hfront
      rw [hfront]
      refine ⟨_, rfl, ?_⟩
      rw [IsPreview, if_neg (Nat.not_le.mpr hlong)]
      exact ⟨front, hfronts, hlen.le, rfl⟩
  · next hshort =>
      refine ⟨_, rfl, ?_⟩
      rw [IsPreview, if_pos (Nat.not_lt.mp hshort)]
      exact String.ofList_toList

theorem fromMessage_panics {m : Message} {text : String} {s : App W} (h : ¬ Cuttable text) :
    (MessageResponse.fromMessage m text.toList s).outcome = .panic .strSlice := by
  rw [Cuttable, not_or] at h
  obtain ⟨hlong, hboundary⟩ := h
  have hnone : Utf8.sliceTo? maxPreviewLen text.toList = none := by
    rw [← Option.not_isSome_iff_eq_none, Utf8.isSome_sliceTo?_iff]
    exact hboundary
  rw [MessageResponse.fromMessage, preview, if_pos (Nat.not_le.mp hlong), hnone]
  rfl

theorem execute_panics {request : SendMessageRequest} {s : App W}
    (hresponds : Responds ports request s) (hcuttable : ¬ Cuttable request.content) :
    (execute ports request s).outcome = .panic .strSlice := by
  obtain ⟨p, msg, hp, hmsg⟩ := hresponds
  refine Prog.bind_panics.mpr (.inr ⟨p, hp, ?_⟩)
  rw [finish_eq]
  refine Prog.bind_panics.mpr (.inr ⟨msg, hmsg, ?_⟩)
  rw [prepare_plaintext ports request s p hp, Utf8.lossy_encode]
  exact fromMessage_panics hcuttable

/-- The one panic is that of the preview. -/
theorem execute_panics_iff (request : SendMessageRequest) (s : App W) :
    (∃ q, (execute ports request s).outcome = .panic q) ↔
      Responds ports request s ∧ ¬ Cuttable request.content := by
  constructor
  · rintro ⟨q, hq⟩
    rcases Prog.bind_panics.mp hq with hq | ⟨p, hp, hq⟩
    · exact absurd hq (prepare_safe ports request s q)
    · obtain ⟨hpending, -⟩ := prepare_traces ports request s p hp
      rw [finish_eq] at hq
      rcases Prog.bind_panics.mp hq with hq | ⟨msg, hmsg, hq⟩
      · rcases settle_run ports hpending (prepare ports request s).world with ⟨msg, hmsg⟩ | herr
        · rw [hmsg] at hq
          cases hq
        · rw [herr] at hq
          cases hq
      · refine ⟨⟨p, msg, hp, hmsg⟩, ?_⟩
        intro hcuttable
        rw [prepare_plaintext ports request s p hp, Utf8.lossy_encode] at hq
        obtain ⟨response, hresponse, -⟩ := fromMessage_cuttable (m := msg)
          (s := (settle ports p (prepare ports request s).world).world) hcuttable
        rw [hresponse] at hq
        cases hq
  · rintro ⟨hresponds, hcuttable⟩
    exact ⟨.strSlice, execute_panics ports hresponds hcuttable⟩

/-- A text has a preview exactly if it can be cut where it is cut, and a run
that has sent its message ends without a panic exactly if its content can. -/
theorem previews_iff :
    (∀ (m : Message) (text : String) (s : App W), Shows m text s ↔ Cuttable text) ∧
      ∀ (request : SendMessageRequest) (s : App W),
        (∀ q, (execute ports request s).outcome ≠ .panic q) ↔
          (Responds ports request s → Cuttable request.content) := by
  constructor
  · intro m text s
    constructor
    · rintro ⟨response, hresponse, -⟩
      by_contra hcuttable
      rw [fromMessage_panics hcuttable] at hresponse
      cases hresponse
    · intro h
      exact fromMessage_cuttable h
  · intro request s
    rw [← not_exists, execute_panics_iff, not_and, not_not]

end

/-! ## Two requests in memory -/

section
open Memory

/-- Ports in memory whose encryption adds a tag. -/
def tagged : Ports Memory :=
  { Memory.ports with
    security :=
      { encryptForPeer := fun plaintext _ m => (.ok (plaintext ++ List.replicate aeadOverhead 0), m)
        decryptFromPeer := fun ciphertext _ m =>
          (.ok (ciphertext.take (ciphertext.length - aeadOverhead)), m) } }

theorem tagged_seals : Seals tagged.security := by
  intro plaintext fp env
  exact ⟨_, rfl, by rw [List.length_append, List.length_replicate]⟩

theorem tagged_stores : Stores tagged.persistence := fun _ _ => rfl

/-- A content that is not too long is fine to send to the example peer. -/
theorem validate_toPeer {content : String} (hpos : 1 ≤ content.utf8ByteSize)
    (hle : content.utf8ByteSize ≤ 65536) :
    validate ⟨peer.fingerprint.toFormattedString, content, .text⟩ = .ok peer.fingerprint := by
  have hrecipient : peer.fingerprint.toFormattedString.utf8ByteSize ≠ 0 := by decide
  rw [validate, validateRequest]
  dsimp only
  rw [if_neg hrecipient, if_neg (by omega), maxContentBytes, if_neg (by omega)]
  dsimp only
  rw [Fingerprint.fromHex_toFormattedString]

/-- `n` letters to the example peer. -/
def letters (n : Nat) : SendMessageRequest :=
  ⟨peer.fingerprint.toFormattedString, String.ofList (List.replicate n 'a'), .text⟩

theorem size_letters (n : Nat) : (letters n).content.utf8ByteSize = n := by
  show (String.ofList (List.replicate n 'a')).utf8ByteSize = n
  rw [Utf8.utf8ByteSize_eq, String.toList_ofList, Utf8.byteLen_replicate]
  exact Nat.mul_one n

theorem validate_letters {n : Nat} (hpos : 1 ≤ n) (hle : n ≤ 65536) :
    validate (letters n) = .ok peer.fingerprint := by
  rw [← size_letters n] at hpos hle
  exact validate_toPeer hpos hle

theorem letters_sendable : Sendable peer.fingerprint (execute tagged (letters 2) reachable) ↔
    (letters 2).content.utf8ByteSize ≤ 65520 :=
  sendable_iff tagged_seals tagged_stores (validate_letters (by decide) (by decide)) rfl

/-- One byte more than leaves room for the tag: validated, encrypted, and
refused by the domain. -/
theorem letters_refused :
    Seals tagged.security ∧ Stores tagged.persistence ∧
      validate (letters 65521) = .ok peer.fingerprint ∧
      (reachable.sendLimiter.check reachable.now (rateKey peer.fingerprint)).1 = true ∧
      ¬ Sendable peer.fingerprint (execute tagged (letters 65521) reachable) := by
  have hvalid : validate (letters 65521) = .ok peer.fingerprint :=
    validate_letters (by decide) (by decide)
  refine ⟨tagged_seals, tagged_stores, hvalid, rfl, ?_⟩
  refine not_sendable_of_long tagged_seals tagged_stores hvalid rfl ?_
  rw [size_letters]
  omega

/-- 255 letters and one of two bytes, to the example peer. -/
def accented : SendMessageRequest :=
  ⟨peer.fingerprint.toFormattedString, String.ofList (List.replicate 255 'a' ++ ['é']), .text⟩

theorem size_accented : accented.content.utf8ByteSize = 257 := by
  show (String.ofList (List.replicate 255 'a' ++ ['é'])).utf8ByteSize = 257
  rw [Utf8.utf8ByteSize_eq, String.toList_ofList, Utf8.byteLen_append, Utf8.byteLen_replicate]
  decide

theorem not_cuttable_accented : ¬ Cuttable accented.content := by
  show ¬ (Utf8.byteLen (String.ofList (List.replicate 255 'a' ++ ['é'])).toList ≤ 256 ∨
    Utf8.IsBoundary 256 (String.ofList (List.replicate 255 'a' ++ ['é'])).toList)
  rw [String.toList_ofList]
  decide +kernel

/-- The message is saved, sent and saved again. -/
theorem accented_responds : Responds tagged accented reachable := by
  have hvalid : validate accented = .ok peer.fingerprint :=
    validate_toPeer (Nat.le_of_lt (size_accented ▸ by decide)) (size_accented ▸ by decide)
  obtain ⟨p, hp, -⟩ := (prepare_spec (s := reachable) tagged_seals tagged_stores hvalid rfl).1
    (size_accented ▸ by decide)
  obtain ⟨hpending, -⟩ := prepare_traces tagged accented reachable p hp
  obtain ⟨msg, hmsg⟩ := settle_ok tagged_stores hpending (prepare tagged accented reachable).world
  exact ⟨p, msg, hp, hmsg⟩

/-- And then the preview panics. -/
theorem accented_panics :
    ¬ Shows message accented.content reachable ∧ Responds tagged accented reachable ∧
      (execute tagged accented reachable).outcome = .panic .strSlice := by
  refine ⟨?_, accented_responds, execute_panics tagged accented_responds not_cuttable_accented⟩
  rintro ⟨response, hresponse, -⟩
  rw [fromMessage_panics not_cuttable_accented] at hresponse
  cases hresponse

end

end SendMessage
end Rubix
