/-
# `Rubix.Security.StoreLifetime` — one identity for the life of a store

A process builds the store, which cleans up behind the processes before it,
and makes one call:

    load            what is at the path
    create          new keys, if there is nothing
    load_or_create  the one or the other

Any of its calls of the system may fail, and it may die in any of them; between
two processes the other files of the directory may change.  The path is empty
until some `create` renames its file there, whether or not that call lives to
return (`Unborn`), and from then on it holds that file (`Born`): whoever has
the passphrase it was encrypted with gets the keys of that call, and nobody
gets to create others.

A look at the path that fails is taken for an empty path, and this does no harm
but to one who creates (`Process.blind`): a file that was there is replaced.
-/
import Rubix.Lib.Runs
import Rubix.Security.SecureStore

namespace Rubix.Security.SecureStore

open Directory Effect Runs

variable {P : Type}

inductive StoreOp where
  | load (passphrase : String)
  | create (c : CreateCall)
  | loadOrCreate (c : CreateCall)

namespace StoreOp

def passphrase : StoreOp → String
  | .load passphrase => passphrase
  | .create c | .loadOrCreate c => c.passphrase

/-- What it creates, if it does. -/
def creation? : StoreOp → Option CreateCall
  | .load _ => none
  | .create c | .loadOrCreate c => some c

/-- It is content with what is there. -/
def loads : StoreOp → Bool
  | .load _ | .loadOrCreate _ => true
  | .create _ => false

/-- `path.exists()`, where the path can be looked at or not -/
def glance (store : SecureStore) (seen : Bool) : Sys SecurityError Bool :=
  if seen then pathExists store else pure false

/-- The call, with what its first and its second look at the path come to. -/
def perform (prims : Primitives P) (store : SecureStore) (faults : Faults) (seen : Bool × Bool) :
    StoreOp → Sys SecurityError IdentityKeys
  | .load passphrase => do
      let there ← glance store seen.1
      loadSeeing prims store passphrase faults there
  | .create c => do
      let there ← glance store seen.1
      createSeeing prims store c faults there
  | .loadOrCreate c => do
      let there ← glance store seen.1
      if there = true then do
        let again ← glance store seen.2
        loadSeeing prims store c.passphrase faults again
      else do
        let again ← glance store seen.2
        createSeeing prims store c faults again

/-- A path that can be looked at. -/
theorem perform_seen (prims : Primitives P) (store : SecureStore) (faults : Faults)
    (op : StoreOp) :
    op.perform prims store faults (true, true) =
      match op with
      | .load passphrase => SecureStore.load prims store passphrase faults
      | .create c => SecureStore.create prims store c faults
      | .loadOrCreate c => SecureStore.loadOrCreate prims store c faults := by
  cases op with
  | load passphrase => rfl
  | create c => rfl
  | loadOrCreate c => rfl

end StoreOp

/-- A process: what its cleanup leaves, its call, what goes wrong in it, and
whether its looks at the path succeed. -/
structure Process where
  kept : Name → Bool
  op : StoreOp
  faults : Faults
  seen : Bool × Bool

/-- It creates, and no look at the path before that succeeds. -/
def Process.blind (p : Process) : Bool :=
  match p.op with
  | .load _ => false
  | .create _ => !p.seen.1
  | .loadOrCreate _ => !p.seen.1 && !p.seen.2

inductive StoreEvent where
  | runs (process : Process)
  /-- The other files become these. -/
  | elsewhere (node : Name → Option Directory.Node)

/-- The directory, and how the calls ended. -/
structure Lifetime where
  fs : Fs
  results : List (StoreOp × Outcome SecurityError Unit IdentityKeys)

def StoreEvent.creation? : StoreEvent → Option CreateCall
  | .runs p => p.op.creation?
  | .elsewhere _ => none

/-- Whoever creates has looked at the path. -/
def StoreEvent.sighted : StoreEvent → Bool
  | .runs p => !p.blind
  | .elsewhere _ => true

namespace Lifetime

def start (fs : Fs) : Lifetime := ⟨fs, []⟩

def finished (prims : Primitives P) (store : SecureStore) (s : Lifetime) (p : Process) :
    Effect.Run Fs Empty SecurityError Unit IdentityKeys :=
  p.op.perform prims store p.faults p.seen (cleanupTempFiles p.kept s.fs)

def step (prims : Primitives P) (store : SecureStore) (s : Lifetime) : StoreEvent → Lifetime
  | .runs p =>
      { fs := (s.finished prims store p).world
        results := s.results ++ [(p.op, (s.finished prims store p).outcome)] }
  | .elsewhere node =>
      { s with fs := some fun name => if name = store.name then s.fs.node name else node name }

/-! ## Before and after -/

/-- Nothing is at the path, and nobody has got any keys. -/
structure Unborn (store : SecureStore) (s : Lifetime) : Prop where
  node : s.fs.node store.name = none
  results : ∀ r ∈ s.results, ∀ keys, r.2 ≠ .ok keys

/-- The file of the call `c` is at the path, and whoever had its passphrase and
got keys got those of `c`. -/
structure Born (prims : Primitives P) (store : SecureStore) (c : CreateCall) (f : List UInt8)
    (s : Lifetime) : Prop where
  file : (c.saved prims).file prims = .ok f
  node : s.fs.node store.name = some (.file f)
  results : ∀ r ∈ s.results, r.1.passphrase = c.passphrase →
    ∀ keys, r.2 = .ok keys → keys = c.keys prims

section
variable {prims : Primitives P} {store : SecureStore} {c : CreateCall} {f : List UInt8}
  {fs : Fs} {faults : Faults} {s : Lifetime}

/-- Whatever goes wrong, the keys that are loaded with the passphrase of the
file are those in it. -/
theorem load_keys (lawful : prims.Lawful) (hf : (c.saved prims).file prims = .ok f)
    (hnode : fs.node store.name = some (.file f)) {keys : IdentityKeys}
    (h : (load prims store c.passphrase faults fs).outcome = .ok keys) : keys = c.keys prims := by
  have hthere : pathExists store fs = ⟨.ok true, fs, []⟩ := by
    rw [pathExists_run, hnode]
    rfl
  rw [load, Prog.bind_of_silent hthere, loadSeeing, if_neg (by decide)] at h
  obtain ⟨len, hmetadata, h⟩ := Prog.ok_of_bind h
  obtain ⟨-, hlen⟩ := atomicCall_ok hmetadata
  rw [(metadata_ok.mp hlen).1] at h
  split at h
  · cases h
  · obtain ⟨data, hread, h⟩ := Prog.ok_of_bind h
    obtain ⟨-, hdata⟩ := atomicCall_ok hread
    obtain ⟨-, hstored⟩ := read_ok.mp hdata
    rw [hnode] at hstored
    cases hstored
    have hdecrypted := decrypt_file lawful (c.saved_made prims).consistent hf
    rw [CreateCall.saved_passphrase] at hdecrypted
    rw [hdecrypted] at h
    cases h
    rfl

theorem glance_absent (h : fs.node store.name = none) (seen : Bool) :
    StoreOp.glance store seen fs = ⟨.ok false, fs, []⟩ := by
  rw [StoreOp.glance]
  split
  · rw [pathExists_run, h]
    rfl
  · rfl

theorem glance_present (h : (fs.node store.name).isSome) (seen : Bool) :
    StoreOp.glance store seen fs = ⟨.ok seen, fs, []⟩ := by
  rw [StoreOp.glance]
  split
  · next hseen => rw [pathExists_run, h, hseen]
  · next hseen =>
      rw [eq_false_of_ne_true hseen]
      rfl

theorem loadSeeing_false (passphrase : String) :
    loadSeeing prims store passphrase faults false fs =
      ⟨.err (.storage "identity file not found"), fs, []⟩ := rfl

theorem createSeeing_true (c : CreateCall) :
    createSeeing prims store c faults true fs =
      ⟨.err (.storage "identity already exists"), fs, []⟩ := rfl

theorem create_absent (h : fs.node store.name = none) (c : CreateCall) :
    create prims store c faults fs = createSeeing prims store c faults false fs :=
  Prog.bind_of_silent (glance_absent h true) _

/-- Without a file `load` fails. -/
theorem load_absent (h : fs.node store.name = none) (passphrase : String) (seen : Bool × Bool) :
    (StoreOp.load passphrase).perform prims store faults seen fs =
      ⟨.err (.storage "identity file not found"), fs, []⟩ := by
  rw [StoreOp.perform, Prog.bind_of_silent (glance_absent h seen.1), loadSeeing_false]

/-- And the other calls are `create`. -/
theorem perform_absent (h : fs.node store.name = none) {op : StoreOp} (hop : op.creation? = some c)
    (seen : Bool × Bool) :
    op.perform prims store faults seen fs = create prims store c faults fs := by
  rw [create_absent h]
  cases op with
  | load passphrase => cases hop
  | create c' =>
      cases hop
      rw [StoreOp.perform, Prog.bind_of_silent (glance_absent h seen.1)]
  | loadOrCreate c' =>
      cases hop
      rw [StoreOp.perform, Prog.bind_of_silent (glance_absent h seen.1), if_neg (by decide),
        Prog.bind_of_silent (glance_absent h seen.2)]

/-- With a file, a process that has looked at the path fails, or it loads. -/
theorem perform_present (h : (fs.node store.name).isSome) {p : Process}
    (hsighted : p.blind = false) :
    (∃ e, p.op.perform prims store p.faults p.seen fs = ⟨.err e, fs, []⟩) ∨
      p.op.perform prims store p.faults p.seen fs =
        load prims store p.op.passphrase p.faults fs := by
  obtain ⟨kept, op, faults, first, second⟩ := p
  dsimp only
  have hload : ∀ passphrase, load prims store passphrase faults fs =
      loadSeeing prims store passphrase faults true fs :=
    fun passphrase => Prog.bind_of_silent (glance_present h true) _
  cases op with
  | load passphrase =>
      rw [StoreOp.perform, Prog.bind_of_silent (glance_present h first)]
      cases first with
      | true => exact .inr (hload passphrase).symm
      | false => exact .inl ⟨_, loadSeeing_false passphrase⟩
  | create c =>
      rw [StoreOp.perform, Prog.bind_of_silent (glance_present h first)]
      cases first with
      | true => exact .inl ⟨_, createSeeing_true c⟩
      | false => cases hsighted
  | loadOrCreate c =>
      rw [StoreOp.perform, Prog.bind_of_silent (glance_present h first)]
      cases first with
      | true =>
          rw [if_pos rfl, Prog.bind_of_silent (glance_present h second)]
          cases second with
          | true => exact .inr (hload c.passphrase).symm
          | false => exact .inl ⟨_, loadSeeing_false c.passphrase⟩
      | false =>
          rw [if_neg (by decide), Prog.bind_of_silent (glance_present h second)]
          cases second with
          | true => exact .inl ⟨_, createSeeing_true c⟩
          | false => cases hsighted

/-- Where there is nothing, `create` leaves nothing and returns nothing, or it
leaves its file and returns no keys but its own. -/
theorem create_cases (c : CreateCall) (faults : Faults) (h : fs.node store.name = none) :
    ((create prims store c faults fs).world.node store.name = none ∧
        ∀ keys, (create prims store c faults fs).outcome ≠ .ok keys) ∨
      ∃ f, (c.saved prims).file prims = .ok f ∧
        (create prims store c faults fs).world.node store.name = some (.file f) ∧
        ∀ keys, (create prims store c faults fs).outcome = .ok keys → keys = c.keys prims := by
  have hcreate : create prims store c faults fs =
      (save prims store (c.saved prims) faults >>= fun _ => pure (c.keys prims)) fs :=
    create_absent h c
  have hworld : (create prims store c faults fs).world =
      (save prims store (c.saved prims) faults fs).world := by
    rw [hcreate]
    exact Prog.discard_world _ _ _
  have hkeys : ∀ keys, (create prims store c faults fs).outcome = .ok keys →
      (save prims store (c.saved prims) faults fs).outcome = .ok () ∧ keys = c.keys prims := by
    intro keys hok
    rw [hcreate] at hok
    obtain ⟨⟨⟩, hsaved, hpure⟩ := Prog.ok_of_bind hok
    cases hpure
    exact ⟨hsaved, rfl⟩
  rw [hworld]
  rcases save_node prims store (c.saved prims) faults fs with hsame | ⟨f, hf, hnew⟩
  · refine .inl ⟨hsame.trans h, ?_⟩
    intro keys hok
    obtain ⟨f, -, hplaced⟩ := save_ok (hkeys keys hok).1
    rw [hplaced, h] at hsame
    cases hsame
  · exact .inr ⟨f, hf, hnew, fun keys hok => (hkeys keys hok).2⟩

/-! ## One process -/

theorem step_elsewhere (node : Name → Option Directory.Node) (s : Lifetime) :
    (s.step prims store (.elsewhere node)).fs.node store.name = s.fs.node store.name := by
  show (if store.name = store.name then s.fs.node store.name else node store.name) = _
  rw [if_pos rfl]

/-- Before there is a file: none behind the process either, or its own. -/
theorem Unborn.step (h : s.Unborn store) (e : StoreEvent) :
    (s.step prims store e).Unborn store ∨
      ∃ p c f, e = .runs p ∧ p.op.creation? = some c ∧
        (s.step prims store e).Born prims store c f := by
  cases e with
  | elsewhere node =>
      left
      refine ⟨?_, h.results⟩
      rw [step_elsewhere]
      exact h.node
  | runs p =>
      have hclean : (cleanupTempFiles p.kept s.fs).node store.name = none := by
        rw [node_cleanupTempFiles]
        exact h.node
      cases hop : p.op.creation? with
      | none =>
          have hrun : s.finished prims store p =
              ⟨.err (.storage "identity file not found"), cleanupTempFiles p.kept s.fs, []⟩ := by
            rw [finished]
            cases hload : p.op with
            | load passphrase => exact load_absent hclean passphrase p.seen
            | create c =>
                rw [hload] at hop
                cases hop
            | loadOrCreate c =>
                rw [hload] at hop
                cases hop
          refine .inl ⟨?_, ?_⟩
          · show (s.finished prims store p).world.node store.name = none
            rw [hrun]
            exact hclean
          · intro r hr keys
            rcases List.mem_append.mp hr with hbefore | hlast
            · exact h.results r hbefore keys
            · rw [List.mem_singleton.mp hlast]
              show (s.finished prims store p).outcome ≠ .ok keys
              rw [hrun]
              intro hok
              cases hok
      | some c =>
          have hrun : s.finished prims store p =
              create prims store c p.faults (cleanupTempFiles p.kept s.fs) :=
            perform_absent hclean hop p.seen
          rcases create_cases c p.faults hclean with ⟨hnode, hkeys⟩ | ⟨f, hf, hnode, hkeys⟩
          · refine .inl ⟨?_, ?_⟩
            · show (s.finished prims store p).world.node store.name = none
              rw [hrun, hnode]
            · intro r hr keys
              rcases List.mem_append.mp hr with hbefore | hlast
              · exact h.results r hbefore keys
              · rw [List.mem_singleton.mp hlast]
                show (s.finished prims store p).outcome ≠ .ok keys
                rw [hrun]
                exact hkeys keys
          · refine .inr ⟨p, c, f, rfl, hop, hf, ?_, ?_⟩
            · show (s.finished prims store p).world.node store.name = some (.file f)
              rw [hrun, hnode]
            · intro r hr _ keys hok
              rcases List.mem_append.mp hr with hbefore | hlast
              · exact absurd hok (h.results r hbefore keys)
              · rw [List.mem_singleton.mp hlast] at hok
                have hok' : (s.finished prims store p).outcome = .ok keys := hok
                rw [hrun] at hok'
                exact hkeys keys hok'

/-- Once there is a file, a process that has looked at the path changes nothing
under it, and gets no keys with the file's passphrase but those in it. -/
theorem Born.perform (lawful : prims.Lawful) (h : s.Born prims store c f) {p : Process}
    (hsighted : p.blind = false) :
    (s.finished prims store p).world.node store.name = some (.file f) ∧
      (p.op.passphrase = c.passphrase → ∀ keys,
        (s.finished prims store p).outcome = .ok keys → keys = c.keys prims) := by
  have hclean : (cleanupTempFiles p.kept s.fs).node store.name = some (.file f) := by
    rw [node_cleanupTempFiles]
    exact h.node
  have hthere : ((cleanupTempFiles p.kept s.fs).node store.name).isSome := by
    rw [hclean]
    rfl
  rw [finished]
  obtain ⟨e, hfails⟩ | hloads : (∃ e, p.op.perform prims store p.faults p.seen
      (cleanupTempFiles p.kept s.fs) = ⟨.err e, cleanupTempFiles p.kept s.fs, []⟩) ∨ _ :=
    perform_present hthere hsighted
  · rw [hfails]
    refine ⟨hclean, ?_⟩
    intro _ keys hok
    cases hok
  · rw [hloads]
    constructor
    · rw [load_keeps prims store p.op.passphrase p.faults _ _ rfl]
      exact hclean
    · intro hpass keys hok
      rw [hpass] at hok
      exact load_keys lawful h.file hclean hok

theorem Born.step (lawful : prims.Lawful) (h : s.Born prims store c f) {e : StoreEvent}
    (hsighted : e.sighted = true) : (s.step prims store e).Born prims store c f := by
  cases e with
  | elsewhere node =>
      refine ⟨h.file, ?_, h.results⟩
      rw [step_elsewhere]
      exact h.node
  | runs p =>
      obtain ⟨hnode, hkeys⟩ := h.perform lawful (Bool.not_eq_true' _ ▸ hsighted)
      refine ⟨h.file, hnode, ?_⟩
      intro r hr hpass keys hok
      rcases List.mem_append.mp hr with hbefore | hlast
      · exact h.results r hbefore hpass keys hok
      · rw [List.mem_singleton.mp hlast] at hpass hok
        exact hkeys hpass keys hok

/-- Where there is a file, nobody creates without having looked. -/
def Looked (store : SecureStore) (s : Lifetime) (e : StoreEvent) : Prop :=
  (s.fs.node store.name).isSome → e.sighted = true

theorem looked_of_sighted {events : List StoreEvent} (h : ∀ e ∈ events, e.sighted = true) :
    Guarded (step prims store) (Looked store) events s := by
  intro before e hbefore _
  exact h e (hbefore.subset (List.mem_append_right _ List.mem_cons_self))

theorem Born.throughout (lawful : prims.Lawful) (h : s.Born prims store c f)
    {events : List StoreEvent}
    (hlooked : Guarded (Lifetime.step prims store) (Looked store) events s) :
    (Runs.run (Lifetime.step prims store) events s).Born prims store c f := by
  refine (always_of_step (P := fun s : Lifetime => s.Born prims store c f) h ?_ hlooked).last
  intro s e h hlook
  refine h.step lawful (hlook ?_)
  rw [h.node]
  rfl

/-- A process that creates without having looked leaves its own file, whatever
was there. -/
theorem blind_replaces {p : Process} (hblind : p.blind = true) (hcreates : p.op.creation? = some c)
    {keys : IdentityKeys} (hok : (s.finished prims store p).outcome = .ok keys) :
    ∃ f, (c.saved prims).file prims = .ok f ∧
      (s.finished prims store p).world.node store.name = some (.file f) := by
  have hrun : s.finished prims store p =
      (save prims store (c.saved prims) p.faults >>= fun _ => pure (c.keys prims))
        (cleanupTempFiles p.kept s.fs) := by
    obtain ⟨kept, op, faults, first, second⟩ := p
    cases op with
    | load passphrase => cases hcreates
    | create c' =>
        cases hcreates
        cases first with
        | true => cases hblind
        | false => rfl
    | loadOrCreate c' =>
        cases hcreates
        cases first with
        | true => cases hblind
        | false =>
            cases second with
            | true => cases hblind
            | false => rfl
  rw [hrun] at hok ⊢
  obtain ⟨⟨⟩, hsaved, -⟩ := Prog.ok_of_bind hok
  rw [Prog.discard_world]
  exact save_ok hsaved

/-- With nothing going wrong, the passphrase gets the keys. -/
theorem Born.loads (lawful : prims.Lawful) (h : s.Born prims store c f) (kept : Name → Bool)
    {op : StoreOp} (hop : op.loads = true) (hpass : op.passphrase = c.passphrase) :
    (s.finished prims store ⟨kept, op, fun _ => none, (true, true)⟩).outcome =
      .ok (c.keys prims) := by
  have hclean : (cleanupTempFiles kept s.fs).node store.name = some (.file f) := by
    rw [node_cleanupTempFiles]
    exact h.node
  have hload : (load prims store (c.saved prims).passphrase (fun _ => none)
      (cleanupTempFiles kept s.fs)).outcome = .ok (c.saved prims).keys :=
    load_file lawful (c.saved_made prims) h.file hclean
  rw [CreateCall.saved_passphrase, CreateCall.saved_keys] at hload
  have hperform := StoreOp.perform_seen prims store (fun _ => none) op
  show (op.perform prims store (fun _ => none) (true, true)
    (cleanupTempFiles kept s.fs)).outcome = _
  rw [hperform]
  cases op with
  | load passphrase =>
      obtain rfl : passphrase = c.passphrase := hpass
      exact hload
  | create c' => cases hop
  | loadOrCreate c' =>
      have hthere : pathExists store (cleanupTempFiles kept s.fs) =
          ⟨.ok true, cleanupTempFiles kept s.fs, []⟩ := by
        rw [pathExists_run, hclean]
        rfl
      show (loadOrCreate prims store c' (fun _ => none) (cleanupTempFiles kept s.fs)).outcome = _
      rw [loadOrCreate, Prog.bind_of_silent hthere, if_pos rfl,
        show c'.passphrase = c.passphrase from hpass]
      exact hload

/-! ## Lives -/

/-- The creations of a run's processes. -/
def creations (events : List StoreEvent) : List CreateCall :=
  events.filterMap StoreEvent.creation?

/-- Behind every run there is either no file, or that of one of its creations. -/
theorem run_cases (lawful : prims.Lawful) {events : List StoreEvent} (h : s.Unborn store)
    (hlooked : Guarded (step prims store) (Looked store) events s) :
    (run (step prims store) events s).Unborn store ∨
      ∃ c ∈ creations events, ∃ f, (run (step prims store) events s).Born prims store c f := by
  induction events generalizing s with
  | nil => exact .inl h
  | cons e events ih =>
      rw [run_cons]
      obtain ⟨-, hrest⟩ := guarded_cons.mp hlooked
      rcases h.step e with hunborn | ⟨p, c, f, rfl, hc, hborn⟩
      · rcases ih hunborn hrest with hstill | ⟨c, hc, f, hborn⟩
        · exact .inl hstill
        · refine .inr ⟨c, ?_, f, hborn⟩
          rw [creations, List.filterMap_cons]
          split
          · exact hc
          · exact List.mem_cons_of_mem _ hc
      · refine .inr ⟨c, ?_, f, hborn.throughout lawful hrest⟩
        have hfirst : (StoreEvent.runs p).creation? = some c := hc
        rw [creations, List.filterMap_cons_some hfirst]
        exact List.mem_cons_self

/-- One identity for the life of a store: whatever processes run on a path that
was empty, one after the other, with any passphrases, whatever fails and
wherever they die, as long as nobody creates where there is a file without having
looked, either there is no file still and nobody has got keys, or the file is
that of one creation among them, and then, and as long after,

* it stays, byte for byte, and whoever got keys with its passphrase got the
  keys of that creation;
* with nothing going wrong, `load` and `load_or_create` with its passphrase
  return those keys. -/
theorem identity_permanent (lawful : prims.Lawful) (store : SecureStore)
    {events : List StoreEvent} {fs : Fs} (habsent : fs.node store.name = none)
    (hlooked : Guarded (step prims store) (Looked store) events (start fs)) :
    (run (step prims store) events (start fs)).Unborn store ∨
      ∃ c ∈ creations events, ∃ f, ∀ later,
        Guarded (step prims store) (Looked store) later
            (run (step prims store) events (start fs)) →
          let s := run (step prims store) later (run (step prims store) events (start fs))
          s.Born prims store c f ∧
            ∀ kept op, op.loads = true → op.passphrase = c.passphrase →
              (s.finished prims store ⟨kept, op, fun _ => none, (true, true)⟩).outcome =
                .ok (c.keys prims) := by
  have hstart : (start fs).Unborn store := ⟨habsent, fun _ h => absurd h List.not_mem_nil⟩
  rcases run_cases lawful hstart hlooked with hunborn | ⟨c, hc, f, hborn⟩
  · exact .inl hunborn
  · refine .inr ⟨c, hc, f, ?_⟩
    intro later hlater s
    have hstill : s.Born prims store c f := hborn.throughout lawful hlater
    refine ⟨hstill, ?_⟩
    intro kept op hop hpass
    exact hstill.loads lawful kept hop hpass

end

section
open Idealized

/-- The first process dies as it renames its file, the second gets through,
and the third asks to create another. -/
def firstDays : List StoreEvent :=
  [.runs ⟨fun _ => false,
      .loadOrCreate ⟨"pass", Vector.replicate 32 3, Vector.replicate 32 4, Vector.replicate 32 1,
        Vector.replicate 12 7⟩,
      fun call => if call = .rename then some ⟨none, none⟩ else none, (true, true)⟩,
    .runs ⟨fun _ => true,
      .loadOrCreate ⟨"pass", Vector.replicate 32 5, Vector.replicate 32 6, Vector.replicate 32 2,
        Vector.replicate 12 8⟩,
      fun _ => none, (false, true)⟩,
    .runs ⟨fun _ => false,
      .create ⟨"word", Vector.replicate 32 9, Vector.replicate 32 9, Vector.replicate 32 9,
        Vector.replicate 12 9⟩,
      fun _ => none, (true, true)⟩]

theorem identity_permanent_firstDays :
    (run (step prims atDefault) firstDays (start none)).Unborn atDefault ∨
      ∃ c ∈ creations firstDays, ∃ f, ∀ later,
        Guarded (step prims atDefault) (Looked atDefault) later
            (run (step prims atDefault) firstDays (start none)) →
          let s := run (step prims atDefault) later
            (run (step prims atDefault) firstDays (start none))
          s.Born prims atDefault c f ∧
            ∀ kept op, op.loads = true → op.passphrase = c.passphrase →
              (s.finished prims atDefault ⟨kept, op, fun _ => none, (true, true)⟩).outcome =
                .ok (c.keys prims) :=
  identity_permanent prims_lawful atDefault rfl (looked_of_sighted (by decide))

end
end Lifetime
end Rubix.Security.SecureStore
