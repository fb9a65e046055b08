/-
# `Rubix.Persistence.MessageCatalog` — what the message repository is for

The abstract repository is a map from ids to entries: the message as it was
inserted, and the state it was last given.

    call                  the catalog after it, if it succeeds
    insert m              m.id ↦ m, in its own state
    update_state id st    id ↦ what it was, in state st
    delete id             id ↦ nothing
    get id                as before

Every sequence of calls keeps the tables and the catalog in step
(`run_represents`), the state column included.  `get` does not look at that
column, so what it answers is the catalog's message exactly while the state of
each message is the one it was inserted with (`refines_iff`).
-/
import Rubix.Persistence.MessageRepository
import Rubix.Persistence.Sample

namespace Rubix.Persistence

open Effect (Prog Outcome)
open MessageRepository

/-- The calls of the repository. -/
inductive MessageCall where
  | insert (msg : Message)
  | updateState (id : Uuid) (newState : MessageState)
  | delete (id : Uuid)
  | get (id : Uuid)

/-- A call, and which of its own calls to the database fail. -/
structure MessageRequest where
  call : MessageCall
  faults : Faults

abbrev MessageServed :=
  Prog.Served MessageRequest MessageTables Empty DomainError Empty (Option Message)

/-- Make one call; only `get` answers with a message. -/
def serveMessage (serde : SerdeJson) (r : MessageRequest) : Sql MessageTables (Option Message) :=
  match r.call with
  | .insert msg => do
      insert serde r.faults msg
      pure none
  | .updateState id newState => do
      updateState serde r.faults id newState
      pure none
  | .delete id => do
      delete r.faults id
      pure none
  | .get id => do
      let msg ← get serde r.faults id
      pure (some msg)

/-! ## The catalog -/

/-- A message of the catalog. -/
structure Entry where
  inserted : Message
  state : MessageState

/-- The message in the state it was last given. -/
def Entry.message (e : Entry) : Message := { e.inserted with state := e.state }

abbrev Catalog := Uuid → Option Entry

def Catalog.set (c : Catalog) (id : Uuid) (e : Option Entry) : Catalog := fun id' =>
  if id = id' then e else c id'

/-- The catalog after a call that succeeds. -/
def Catalog.record (c : Catalog) : MessageCall → Catalog
  | .insert msg => c.set msg.id (some ⟨msg, msg.state⟩)
  | .updateState id newState => c.set id ((c id).map fun e => { e with state := newState })
  | .delete id => c.set id none
  | .get _ => c

/-- The catalog after a call, whichever way it ends. -/
def Catalog.note (c : Catalog) (call : MessageCall)
    (o : Outcome DomainError Empty (Option Message)) : Catalog :=
  match o with
  | .ok _ => c.record call
  | .err _ => c

/-- The catalog after a run. -/
def Catalog.after (c : Catalog) (served : List MessageServed) : Catalog :=
  served.foldl (fun c e => c.note e.request.call e.run.outcome) c

def catalog (served : List MessageServed) : Catalog := Catalog.after (fun _ => none) served

/-- What the catalog has to say about an id. -/
def Catalog.answer (c : Catalog) (id : Uuid) : Outcome DomainError Empty Message :=
  match c id with
  | some e => .ok e.message
  | none => .err (.message .notFound)

/-! ## The tables hold the catalog -/

/-- The row of an entry: the message's own, but for the state column. -/
def rowOf (serde : SerdeJson) (e : Entry) : MessageModel :=
  { MessageModel.ofMessage serde e.inserted with state := stateColumn serde e.state }

structure Represents (serde : SerdeJson) (s : MessageTables) (c : Catalog) : Prop where
  rows : ∀ id : Uuid, selectById s id.toString = (c id).map (rowOf serde)
  ids : ∀ id e, c id = some e → e.inserted.id = id

section
variable {serde : SerdeJson} {s s' : MessageTables} {c : Catalog}

theorem represents_empty : Represents serde empty fun _ => none :=
  ⟨fun _ => rfl, fun _ _ h => nomatch h⟩

/-- Ids are told apart by their texts. -/
theorem ite_toString {α : Type} {a b : Uuid} {x y : α} :
    (if a.toString = b.toString then x else y) = if a = b then x else y := by
  refine if_congr ?_ rfl rfl
  exact ⟨Uuid.toString_injective, congrArg Uuid.toString⟩

theorem Represents.insert (h : Represents serde s c) {msg : Message}
    (hnew : selectById s msg.id.toString = none)
    (hrows : s'.messages = s.messages ++ [MessageModel.ofMessage serde msg]) :
    Represents serde s' (c.set msg.id (some ⟨msg, msg.state⟩)) := by
  constructor
  · intro id
    rw [selectById_append hnew hrows, Catalog.set]
    show (if msg.id.toString = id.toString then _ else _) = _
    rw [ite_toString]
    split
    · rfl
    · exact h.rows id
  · intro id e he
    rw [Catalog.set] at he
    split at he
    · next hid =>
        cases he
        exact hid
    · exact h.ids id e he

theorem Represents.updateState (h : Represents serde s c) {id : Uuid} {newState : MessageState}
    (hrows : s'.messages = Table.modify MessageModel.id
      ({ · with state := stateColumn serde newState }) s.messages id.toString) :
    Represents serde s' (c.set id ((c id).map fun e => { e with state := newState })) := by
  constructor
  · intro id'
    rw [selectById_modify hrows, Catalog.set, ite_toString]
    split
    · next hid =>
        subst hid
        rw [h.rows id]
        cases c id with
        | none => rfl
        | some e => rfl
    · exact h.rows id'
  · intro id' e he
    rw [Catalog.set] at he
    split at he
    · next hid =>
        subst hid
        obtain ⟨e', he', rfl⟩ := Option.map_eq_some_iff.mp he
        exact h.ids id e' he'
    · exact h.ids id' e he

theorem Represents.delete (h : Represents serde s c) {id : Uuid}
    (hrows : s'.messages = Table.erase MessageModel.id s.messages id.toString) :
    Represents serde s' (c.set id none) := by
  constructor
  · intro id'
    rw [selectById_erase hrows, Catalog.set, ite_toString]
    split
    · rfl
    · exact h.rows id'
  · intro id' e he
    rw [Catalog.set] at he
    split at he
    · exact nomatch he
    · exact h.ids id' e he

/-- A method that is refused, or does to the tables what the catalog records,
keeps them in step. -/
theorem Represents.reply (h : Represents serde s c) {call : MessageCall}
    {method : Sql MessageTables Unit} (answer : Option Message)
    (hmethod : Refused s (method s) ∨
      (method s).outcome = .ok () ∧ Represents serde (method s).world (c.record call)) :
    Represents serde ((method >>= fun _ => pure answer) s).world
      (c.note call ((method >>= fun _ => pure answer) s).outcome) := by
  rw [reply_world]
  rcases hmethod with hrefused | ⟨hok, hnext⟩
  · obtain ⟨e, he⟩ := hrefused.err
    rw [reply_err answer he, hrefused.world]
    exact h
  · rw [reply_ok answer hok]
    exact hnext

/-- One call keeps the tables and the catalog in step. -/
theorem serveMessage_represents (h : Represents serde s c) (r : MessageRequest) :
    Represents serde (serveMessage serde r s).world
      (c.note r.call (serveMessage serde r s).outcome) := by
  obtain ⟨call, faults⟩ := r
  cases call with
  | insert msg =>
      refine h.reply none (Or.imp_right ?_ (insert_cases serde faults msg s))
      rintro ⟨hok, hnew, hrows⟩
      exact ⟨hok, h.insert hnew hrows⟩
  | updateState id newState =>
      refine h.reply none (Or.imp_right ?_ (updateState_cases serde faults id newState s))
      rintro ⟨hok, hrows⟩
      exact ⟨hok, h.updateState hrows⟩
  | delete id =>
      refine h.reply none (Or.imp_right ?_ (delete_cases faults id s))
      rintro ⟨hok, hrows⟩
      exact ⟨hok, h.delete hrows⟩
  | get id =>
      have hkeeps : Prog.Keeps (· = s) (serveMessage serde ⟨.get id, faults⟩) := by
        refine .bind (fun s' hs' => ?_) fun msg => .pure _
        rw [get_world, hs']
      rw [hkeeps s rfl]
      cases (serveMessage serde ⟨.get id, faults⟩ s).outcome with
      | ok reply => exact h
      | err e => exact h
      | panic p => cases p

/-- A run keeps the tables and the catalog in step. -/
theorem run_represents (h : Represents serde s c) (requests : List MessageRequest) :
    Represents serde (Prog.leaves (serveMessage serde) requests s)
      (c.after (Prog.serve (serveMessage serde) requests s)) := by
  induction requests generalizing s c with
  | nil => exact h
  | cons r requests ih =>
      have hstep := serveMessage_represents h r
      exact ih hstep

end

/-! ## Where the messages come from -/

/-- Every entry of a catalog is about a message with `P`. -/
def Catalog.About (P : Message → Prop) (c : Catalog) : Prop := ∀ id e, c id = some e → P e.inserted

section
variable {P : Message → Prop} {c : Catalog}

theorem Catalog.About.set (h : c.About P) (id : Uuid) {entry : Option Entry}
    (hentry : ∀ e, entry = some e → P e.inserted) : (c.set id entry).About P := by
  intro id' e he
  rw [Catalog.set] at he
  split at he
  · exact hentry e he
  · exact h id' e he

theorem Catalog.About.note (h : c.About P) {call : MessageCall}
    (hcall : ∀ msg, call = .insert msg → P msg) (o : Outcome DomainError Empty (Option Message)) :
    (c.note call o).About P := by
  cases o with
  | err e => exact h
  | panic p => cases p
  | ok reply =>
      cases call with
      | insert msg =>
          refine h.set msg.id ?_
          intro e he
          cases he
          exact hcall msg rfl
      | updateState id newState =>
          refine h.set id ?_
          intro e he
          obtain ⟨e', he', rfl⟩ := Option.map_eq_some_iff.mp he
          exact h id e' he'
      | delete id => exact h.set id fun e he => nomatch he
      | get id => exact h

theorem Catalog.About.after (h : c.About P) {served : List MessageServed}
    (hinserts : ∀ e ∈ served, ∀ msg, e.request.call = .insert msg → P msg) :
    (c.after served).About P := by
  induction served generalizing c with
  | nil => exact h
  | cons e served ih =>
      have hstep := h.note (hinserts e List.mem_cons_self) e.run.outcome
      exact ih hstep fun e he => hinserts e (List.mem_cons_of_mem _ he)

end

/-! ## When `get` answers as the catalog does -/

/-- The tables after a run on empty ones. -/
def tablesAfter (serde : SerdeJson) (requests : List MessageRequest) : MessageTables :=
  Prog.leaves (serveMessage serde) requests empty

/-- The catalog after the same run. -/
def catalogAfter (serde : SerdeJson) (requests : List MessageRequest) : Catalog :=
  catalog (Prog.serve (serveMessage serde) requests empty)

/-- `get` answers with the message as it was inserted. -/
theorem get_eq {serde : SerdeJson} {s : MessageTables} {c : Catalog} (h : Represents serde s c)
    (hserde : c.About (RoundTrips serde)) (id : Uuid) :
    (get serde .none id s).outcome
      = match c id with
        | some e => .ok e.inserted
        | none => .err (.message .notFound) := by
  rw [get_none, h.rows id]
  cases he : c id with
  | none => rfl
  | some e =>
      have hdecode : decodeMessage serde (rowOf serde e).messageJson = .ok e.inserted :=
        decodeMessage_ofMessage (hserde id e he)
      rw [Option.map_some]
      dsimp only
      rw [hdecode]

/-- After a run, `get` answers as the catalog does, for every id, exactly when
every message that is still there is in the state it was inserted with. -/
theorem refines_iff (serde : SerdeJson) (requests : List MessageRequest)
    (hserde : ∀ r ∈ requests, ∀ msg, r.call = .insert msg → RoundTrips serde msg) :
    (∀ id, (get serde .none id (tablesAfter serde requests)).outcome
        = (catalogAfter serde requests).answer id) ↔
      ∀ id e, catalogAfter serde requests id = some e → e.state = e.inserted.state := by
  have hrep : Represents serde (tablesAfter serde requests) (catalogAfter serde requests) :=
    run_represents represents_empty requests
  have habout : (catalogAfter serde requests).About (RoundTrips serde) := by
    refine Catalog.About.after (fun _ _ h => nomatch h) ?_
    intro e he msg hmsg
    exact hserde e.request (Prog.request_mem_of_serve e he) msg hmsg
  constructor
  · intro hall id e he
    have hid := hall id
    rw [get_eq hrep habout, Catalog.answer, he] at hid
    have hsame : e.inserted = e.message := Outcome.ok.inj hid
    exact (congrArg Message.state hsame).symm
  · intro hstates id
    rw [get_eq hrep habout, Catalog.answer]
    cases he : catalogAfter serde requests id with
    | none => rfl
    | some e =>
        have hsame : e.message = e.inserted := by
          rw [Entry.message, hstates id e he]
        exact congrArg Outcome.ok hsame.symm

/-! ## An update that is not read back -/

section
open Sample

/-- A message that is inserted and sent. -/
def sending : List MessageRequest :=
  [⟨.insert message, .none⟩, ⟨.updateState message.id .sending, .none⟩]

/-- A message that is inserted, and looked up. -/
theorem refines_inserted :
    (∀ id, (get serde .none id (tablesAfter serde [⟨.insert message, .none⟩])).outcome
        = (catalogAfter serde [⟨.insert message, .none⟩]).answer id) ↔
      ∀ id e, catalogAfter serde [⟨.insert message, .none⟩] id = some e →
        e.state = e.inserted.state := by
  refine refines_iff serde _ ?_
  intro r hr msg hmsg
  rw [List.mem_singleton.mp hr] at hmsg
  cases hmsg
  exact ⟨messageJson, by decide +kernel, by decide +kernel⟩

/-- The state of a message that is being sent is answered as `Pending`. -/
theorem update_not_read :
    ¬ ∀ id, (get serde .none id (tablesAfter serde sending)).outcome
      = (catalogAfter serde sending).answer id := by
  intro hall
  have hget := hall message.id
  exact absurd hget (by decide +kernel)

end

end Rubix.Persistence
