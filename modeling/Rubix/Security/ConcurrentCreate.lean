/-
# `Rubix.Security.ConcurrentCreate` — calls of `create` on one path, interleaved

Each caller goes through the same calls of the system, one at a time:

    exists?    encrypt    create_dir_all    temp: write    temp → path: rename
    set permissions

and between two of them the others may go on.  Two things can go wrong.  A
caller that saw no file may rename onto one that another has placed since, and
since all share the name of the temporary file, it may rename what another has
written.  Where no rename does either, at most one caller returns, and the file
is its own (`sound_of_guarded`).
-/
import Rubix.Lib.Interleaving
import Rubix.Security.SecureStore

namespace Rubix.Security

open Directory Effect Interleaving Runs

/-- The steps of `create`. -/
inductive CreateStep where
  | checkAbsent
  | encrypt
  | createDir
  | writeTemp
  | rename
  | setPermissions
  deriving DecidableEq

namespace CreateStep

/-- Their order. -/
def plan : List CreateStep :=
  [.checkAbsent, .encrypt, .createDir, .writeTemp, .rename, .setPermissions]

end CreateStep

namespace SecureStore

variable {P : Type}

/-- One step of a caller. -/
def perform (prims : Primitives P) (store : SecureStore) (callers : Nat → CreateCall) (i : Nat) :
    CreateStep → Option Fault → Sys SecurityError Unit
  | .checkAbsent, _ => do
      let there ← pathExists store
      if there = true then Prog.fail (.storage "identity already exists") else pure ()
  | .encrypt, _ => do
      let _ ← Prog.orFail id (((callers i).saved prims).file prims)
      pure ()
  | .createDir, fault => createDir fault
  | .writeTemp, fault => do
      let encrypted ← Prog.orFail id (((callers i).saved prims).file prims)
      writeTemp store encrypted fault
  | .rename, fault => renameTemp store fault
  | .setPermissions, fault => setPermissions fault

/-- The circumstances of each step, by the system call it makes. -/
def faultOf (faults : Faults) : CreateStep → Option Fault
  | .checkAbsent => none
  | .encrypt => none
  | .createDir => faults .createDir
  | .writeTemp => faults .writeTemp
  | .rename => faults .rename
  | .setPermissions => faults .setPermissions

section
variable {prims : Primitives P} {store : SecureStore} {callers : Nat → CreateCall} {i : Nat}

theorem checkAbsent_of_exists {fault : Option Fault} {fs : Fs}
    (h : (fs.node store.name).isSome = true) :
    perform prims store callers i .checkAbsent fault fs
      = ⟨.err (.storage "identity already exists"), fs, []⟩ := by
  rw [perform, Prog.bind_of_silent pathExists_run, if_pos h]
  rfl

theorem checkAbsent_of_absent {fault : Option Fault} {fs : Fs}
    (h : (fs.node store.name).isSome = false) :
    perform prims store callers i .checkAbsent fault fs = ⟨.ok (), fs, []⟩ := by
  rw [perform, Prog.bind_of_silent pathExists_run, if_neg (by rw [h]; decide)]
  rfl

/-- In sequence, the steps are `create`. -/
theorem create_eq_inSequence (faults : Faults) (fs : Fs) :
    create prims store (callers i) faults fs =
      (inSequence (perform prims store callers i)
        (CreateStep.plan.map fun c => (c, faultOf faults c)) >>=
          fun _ => pure ((callers i).keys prims)) fs := by
  rw [CreateStep.plan, List.map_cons, inSequence, Prog.bind_assoc]
  cases hthere : (fs.node store.name).isSome with
  | true =>
      have hcheck : perform prims store callers i .checkAbsent (faultOf faults .checkAbsent) fs
          = _ := checkAbsent_of_exists hthere
      rw [create_of_exists hthere, Prog.bind_run, hcheck]
  | false =>
      have hcheck : perform prims store callers i .checkAbsent (faultOf faults .checkAbsent) fs
          = _ := checkAbsent_of_absent hthere
      rw [Prog.bind_of_silent hcheck, create, Prog.bind_of_silent pathExists_run, createSeeing,
        if_neg (by rw [hthere]; decide)]
      cases hf : ((callers i).saved prims).file prims with
      | error e =>
          rw [save_of_error hf, List.map_cons, inSequence, perform, hf]
          rfl
      | ok f =>
          rw [save_of_file hf, place]
          simp only [List.map_cons, List.map_nil, inSequence, perform, hf, Prog.orFail_ok,
            Prog.bind_assoc, faultOf]
          rfl

end

/-! ## Many callers -/

/-- The directory, and where each of the callers stands. -/
abbrev Callers := System Nat Fs SecurityError Unit CreateStep

/-- Nobody has begun. -/
def start (fs : Fs) : Callers := ⟨fs, fun _ => .ok CreateStep.plan⟩

/-- A caller that nobody comes between is a run of `create`. -/
theorem create_alone (prims : Primitives P) (store : SecureStore) (callers : Nat → CreateCall)
    (i : Nat) (faults : Faults) (fs : Fs) :
    let events := CreateStep.plan.map fun c => (i, faultOf faults c)
    let s := run (step (perform prims store callers)) events (start fs)
    s.world = (create prims store (callers i) faults fs).world ∧
      (s.Returned i ↔
        (create prims store (callers i) faults fs).outcome = .ok ((callers i).keys prims)) := by
  intro events s
  have hrun : s = ⟨_, _⟩ := run_alone (CreateStep.plan.map fun c => (c, faultOf faults c)) rfl
  rw [create_eq_inSequence, Prog.discard_world, Prog.discard_ok, hrun]
  refine ⟨rfl, ?_⟩
  dsimp only [System.Returned]
  rw [Function.update_self, after_eq_ok]
  constructor
  · rintro ⟨hok, -⟩
    exact ⟨(), hok⟩
  · rintro ⟨⟨⟩, hok⟩
    exact ⟨hok, rfl⟩

/-- At most one caller has returned the keys it made, and they are loaded with
its passphrase. -/
structure Sound (prims : Primitives P) (store : SecureStore) (callers : Nat → CreateCall)
    (s : Callers) : Prop where
  unique : ∀ i j, s.Returned i → s.Returned j → i = j
  loads : ∀ i, s.Returned i →
    (load prims store (callers i).passphrase (fun _ => none) s.world).outcome
      = .ok ((callers i).keys prims)

/-- The file of a caller, where its keys can be encrypted. -/
def fileOf (prims : Primitives P) (c : CreateCall) : Option Directory.Node :=
  ((c.saved prims).file prims).toOption.map .file

/-- Before a rename that goes through, there is no file at the path, and the
temporary one is the caller's own. -/
def RenamesOwn (prims : Primitives P) (store : SecureStore) (callers : Nat → CreateCall)
    (s : Callers) (e : Nat × Option Fault) : Prop :=
  s.due e.1 = some .rename → (renameTemp store e.2 s.world).outcome = .ok () →
    s.world.node store.name = none ∧ s.world.node store.tempName = fileOf prims (callers e.1)

instance (prims : Primitives P) (store : SecureStore) (callers : Nat → CreateCall) (s : Callers)
    (e : Nat × Option Fault) : Decidable (RenamesOwn prims store callers s e) :=
  inferInstanceAs (Decidable (_ → _ → _ ∧ _))

/-- The caller's rename has gone through. -/
def Placed (s : Callers) (i : Nat) : Prop := s.stage i = .ok [.setPermissions] ∨ s.Returned i

/-- What holds throughout: the callers are where their plan says, and the file
of the one that has placed it, if there is one, is at the path. -/
structure Inv (prims : Primitives P) (store : SecureStore) (callers : Nat → CreateCall)
    (s : Callers) : Prop where
  ahead : ∀ i rest, s.stage i = .ok rest → rest <:+ CreateStep.plan
  unique : ∀ i j, Placed s i → Placed s j → i = j
  file : ∀ i, Placed s i → ∃ f, ((callers i).saved prims).file prims = .ok f ∧
    s.world.node store.name = some (.file f)

section
variable {prims : Primitives P} {store : SecureStore} {callers : Nat → CreateCall} {s : Callers}
  {i : Nat} {fault : Option Fault}

theorem fileOf_eq_some {c : CreateCall} {node : Directory.Node} (h : fileOf prims c = some node) :
    ∃ f, (c.saved prims).file prims = .ok f ∧ node = .file f := by
  unfold fileOf at h
  cases hf : (c.saved prims).file prims with
  | error e =>
      rw [hf] at h
      cases h
  | ok f =>
      rw [hf] at h
      exact ⟨f, rfl, (Option.some.inj h).symm⟩

theorem inv_start (fs : Fs) : Inv prims store callers (start fs) where
  ahead i rest h := by
    cases h
    exact List.suffix_rfl
  unique i j h := by
    rcases h with h | h <;> cases h
  file i h := by
    rcases h with h | h <;> cases h

/-- Every step but the rename leaves what is at the path. -/
theorem perform_node {c : CreateStep} (hc : c ≠ .rename) (fs : Fs) :
    (perform prims store callers i c fault fs).world.node store.name = fs.node store.name := by
  cases c with
  | checkAbsent =>
      cases hthere : (fs.node store.name).isSome with
      | true => rw [checkAbsent_of_exists hthere]
      | false => rw [checkAbsent_of_absent hthere]
  | encrypt =>
      unfold perform
      cases ((callers i).saved prims).file prims with
      | error e => rfl
      | ok f => rfl
  | createDir => exact congrFun createDir_node store.name
  | writeTemp =>
      unfold perform
      cases ((callers i).saved prims).file prims with
      | error e => rfl
      | ok f => exact writeTemp_node
  | rename => exact absurd rfl hc
  | setPermissions =>
      unfold perform
      rw [setPermissions_world]

/-- What follows on a caller's plan. -/
theorem rename_of_before {c : CreateStep} (h : [c, .setPermissions] <:+ CreateStep.plan) :
    c = .rename := by
  have hlast := List.suffix_iff_eq_drop.mp h
  cases c with
  | rename => rfl
  | checkAbsent | encrypt | createDir | writeTemp | setPermissions => exact absurd hlast (by decide)

theorem setPermissions_of_last {c : CreateStep} (h : [c] <:+ CreateStep.plan) :
    c = .setPermissions := by
  have hlast := List.suffix_iff_eq_drop.mp h
  cases c with
  | setPermissions => rfl
  | checkAbsent | encrypt | createDir | writeTemp | rename => exact absurd hlast (by decide)

/-- A step after which no more callers have placed their file, and nothing has
changed at the path. -/
theorem inv_of_unplaced {s' : Callers} (hinv : Inv prims store callers s)
    (hahead : ∀ i rest, s'.stage i = .ok rest → rest <:+ CreateStep.plan)
    (hplaced : ∀ j, Placed s' j → Placed s j)
    (hnode : s'.world.node store.name = s.world.node store.name) :
    Inv prims store callers s' where
  ahead := hahead
  unique j k hj hk := hinv.unique j k (hplaced j hj) (hplaced k hk)
  file j hj := by
    rw [hnode]
    exact hinv.file j (hplaced j hj)

theorem placed_of_ne {o : Outcome SecurityError Unit (List CreateStep)} {fs : Fs} {j : Nat}
    (h : Placed ⟨fs, Function.update s.stage i o⟩ j) (hne : j ≠ i) : Placed s j := by
  have hsame : Function.update s.stage i o j = s.stage j := Function.update_of_ne hne o s.stage
  rcases h with h | h
  · exact .inl (hsame.symm.trans h)
  · exact .inr (hsame.symm.trans h)

/-- A step that is no rename does not place a file. -/
theorem placed_of_update {c : CreateStep} {rest : List CreateStep}
    {o : Outcome SecurityError Unit Unit} {fs : Fs} (hstage : s.stage i = .ok (c :: rest))
    (hahead : c :: rest <:+ CreateStep.plan) (hmoved : c = .rename → o ≠ .ok ()) (j : Nat)
    (h : Placed ⟨fs, Function.update s.stage i (after rest o)⟩ j) : Placed s j := by
  by_cases hj : j = i
  · subst hj
    rcases h with h | h
    · dsimp only at h
      rw [Function.update_self] at h
      obtain ⟨ho, rfl⟩ := after_eq_ok.mp h
      exact absurd ho (hmoved (rename_of_before hahead))
    · dsimp only [System.Returned] at h
      rw [Function.update_self] at h
      obtain ⟨-, rfl⟩ := after_eq_ok.mp h
      rw [setPermissions_of_last hahead] at hstage
      exact .inl hstage
  · exact placed_of_ne h hj

theorem ahead_of_update {c : CreateStep} {rest : List CreateStep}
    {o : Outcome SecurityError Unit Unit} (hinv : Inv prims store callers s)
    (hstage : s.stage i = .ok (c :: rest)) (j : Nat) (left : List CreateStep)
    (h : Function.update s.stage i (after rest o) j = .ok left) : left <:+ CreateStep.plan := by
  by_cases hj : j = i
  · subst hj
    rw [Function.update_self] at h
    obtain ⟨-, rfl⟩ := after_eq_ok.mp h
    exact (List.suffix_cons c left).trans (hinv.ahead j _ hstage)
  · rw [Function.update_of_ne hj] at h
    exact hinv.ahead j left h

/-- Where there is no file, nobody has placed one. -/
theorem Inv.nobody (hinv : Inv prims store callers s) (habsent : s.world.node store.name = none)
    (j : Nat) : ¬ Placed s j := by
  intro hj
  obtain ⟨f, -, hthere⟩ := hinv.file j hj
  rw [habsent] at hthere
  cases hthere

/-- The one rename that goes through: nobody has placed a file before it, and
what it places is the caller's own. -/
theorem inv_rename {rest : List CreateStep} (hinv : Inv prims store callers s)
    (hstage : s.stage i = .ok (.rename :: rest))
    (hok : (renameTemp store fault s.world).outcome = .ok ())
    (hown : RenamesOwn prims store callers s (i, fault)) :
    Inv prims store callers
      { world := (renameTemp store fault s.world).world
        stage := Function.update s.stage i
          (after rest (renameTemp store fault s.world).outcome) } := by
  obtain ⟨habsent, htemp⟩ := hown (due_of_stage hstage) hok
  have halone : ∀ j, Placed ⟨(renameTemp store fault s.world).world,
      Function.update s.stage i (after rest (renameTemp store fault s.world).outcome)⟩ j →
        j = i := by
    intro j hj
    by_contra hne
    exact hinv.nobody habsent j (placed_of_ne hj hne)
  refine ⟨ahead_of_update hinv hstage, ?_, ?_⟩
  · intro j k hj hk
    rw [halone j hj, halone k hk]
  · intro j hj
    rw [halone j hj]
    obtain ⟨node, hnode, hrenamed⟩ := renameTemp_ok hok
    rw [hnode] at htemp
    obtain ⟨f, hf, rfl⟩ := fileOf_eq_some htemp.symm
    exact ⟨f, hf, hrenamed⟩

theorem inv_step (e : Nat × Option Fault) (hinv : Inv prims store callers s)
    (hown : RenamesOwn prims store callers s e) :
    Inv prims store callers (step (perform prims store callers) s e) := by
  obtain ⟨i, fault⟩ := e
  refine step_keeps hinv ?_
  intro c rest hstage
  have hplan := hinv.ahead i _ hstage
  by_cases hc : c = .rename
  · subst hc
    by_cases hok : (renameTemp store fault s.world).outcome = .ok ()
    · exact inv_rename hinv hstage hok hown
    · have hsame := (renameTemp_cases store fault s.world).resolve_left hok
      refine inv_of_unplaced hinv (ahead_of_update hinv hstage)
        (placed_of_update hstage hplan fun _ => hok) ?_
      exact congrArg (fun fs : Fs => fs.node store.name) hsame
  · refine inv_of_unplaced hinv (ahead_of_update hinv hstage) (placed_of_update hstage hplan ?_)
      (perform_node hc s.world)
    intro hrename
    exact absurd hrename hc

/-- What the invariant is for. -/
theorem Inv.sound (lawful : prims.Lawful) (hinv : Inv prims store callers s) :
    Sound prims store callers s where
  unique i j hi hj := hinv.unique i j (.inr hi) (.inr hj)
  loads i hi := by
    obtain ⟨f, hf, hnode⟩ := hinv.file i (.inr hi)
    have hload := load_file lawful ((callers i).saved_made prims) hf hnode
    rwa [CreateCall.saved_passphrase, CreateCall.saved_keys] at hload

end

/-- Whatever the order of the steps and their failures: where every rename that
goes through finds no file at the path, and the caller's own under the
temporary name, at most one caller returns, and the file is its own. -/
theorem sound_of_guarded {prims : Primitives P} (lawful : prims.Lawful) (store : SecureStore)
    (callers : Nat → CreateCall) (fs : Fs) (events : List (Nat × Option Fault))
    (hown : Guarded (step (perform prims store callers)) (RenamesOwn prims store callers) events
      (start fs)) :
    Always (step (perform prims store callers)) (Sound prims store callers) events (start fs) := by
  have hinv : Always (step (perform prims store callers)) (Inv prims store callers) events
      (start fs) :=
    always_of_step (inv_start fs) (fun _ e hinv hown => inv_step e hinv hown) hown
  exact hinv.imp fun _ h => h.sound lawful

/-- Callers that differ in their secrets. -/
def sampleCallers (i : Nat) : CreateCall where
  passphrase := "pass"
  edSecret := Vector.replicate 32 (UInt8.ofNat i)
  xSecret := Vector.replicate 32 (UInt8.ofNat (i + 100))
  salt := Vector.replicate 32 (UInt8.ofNat i)
  nonce := Vector.replicate 12 7

/-- Steps of a caller in which nothing goes wrong. -/
def goOn (i n : Nat) : List (Nat × Option Fault) := List.replicate n (i, none)

open Idealized in
/-- One caller after the other. -/
theorem inTurn_sound :
    Always (step (perform prims atDefault sampleCallers)) (Sound prims atDefault sampleCallers)
      (goOn 0 6 ++ goOn 1 6) (start none) :=
  sound_of_guarded prims_lawful atDefault sampleCallers none _ (by decide +kernel)

open Idealized in
/-- Both look before either of them renames, and both return. -/
theorem overtaken_unsound :
    ¬ Always (step (perform prims atDefault sampleCallers)) (Sound prims atDefault sampleCallers)
      (goOn 0 1 ++ goOn 1 1 ++ goOn 0 5 ++ goOn 1 5) (start none) := by
  intro h
  have hboth : ∀ i ∈ [0, 1], (run (step (perform prims atDefault sampleCallers))
      (goOn 0 1 ++ goOn 1 1 ++ goOn 0 5 ++ goOn 1 5) (start none)).stage i = .ok [] := by
    decide +kernel
  have hsame := h.last.unique 0 1 (hboth 0 (by decide)) (hboth 1 (by decide))
  cases hsame

end SecureStore

end Rubix.Security
