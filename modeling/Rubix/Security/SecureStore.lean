/-
# `Rubix.Security.SecureStore` — saving, creating and loading the identity file

A store has a path; runs are about the directory of that path.  `save` writes
the new file under another name and renames it:

    create_dir_all    temp: write    temp → path: rename    set permissions

so the file at the path changes in one call, from what it was to all of the
new one (`save_all_or_nothing`).  What a failure or a crash leaves under the
other name has the extension `tmp`, which the store's file has not, and is
cleaned up when the next store is built.
-/
import Rubix.Lib.Directory
import Rubix.Security.IdentityFile

namespace Rubix.Security

open Directory Effect

/-- Secure storage for encrypted identity keys: the file name of its path. -/
structure SecureStore where
  name : Name
  named : name ≠ ""
  notTemp : extension name ≠ some "tmp"

/-- A call of `create`, with what it draws. -/
structure CreateCall where
  passphrase : String
  edSecret : Vector UInt8 32
  xSecret : Vector UInt8 32
  salt : Vector UInt8 32
  nonce : Vector UInt8 12

namespace CreateCall

/-- The keys the call generates. -/
def keys {P : Type} (prims : Primitives P) (c : CreateCall) : IdentityKeys :=
  .generate prims c.edSecret c.xSecret

/-- How it encrypts them. -/
def saved {P : Type} (prims : Primitives P) (c : CreateCall) : EncryptCall where
  keys := c.keys prims
  passphrase := c.passphrase
  salt := c.salt
  nonce := c.nonce

@[simp] theorem saved_keys {P : Type} (prims : Primitives P) (c : CreateCall) :
    (c.saved prims).keys = c.keys prims := rfl

@[simp] theorem saved_passphrase {P : Type} (prims : Primitives P) (c : CreateCall) :
    (c.saved prims).passphrase = c.passphrase := rfl

theorem saved_made {P : Type} (prims : Primitives P) (c : CreateCall) :
    (c.saved prims).keys.Made prims :=
  .generate c.edSecret c.xSecret

end CreateCall

namespace SecureStore

variable {P : Type}

/-- `STORAGE_FILE` -/
def storageFile : Name := "identity.enc"

theorem storageFile_named : storageFile ≠ "" := by decide

theorem storageFile_notTemp : extension storageFile ≠ some "tmp" := by decide

/-- The store at the default path. -/
def atDefault : SecureStore := ⟨storageFile, storageFile_named, storageFile_notTemp⟩

/-- `path.with_extension("tmp")` -/
def tempName (store : SecureStore) : Name := withExtension store.name "tmp"

/-- The calls of the system that can go wrong, each made once at most. -/
inductive Call where
  | createDir
  | writeTemp
  | rename
  | setPermissions
  | metadata
  | read
  deriving DecidableEq

/-- What goes wrong in which call. -/
abbrev Faults := Call → Option Fault

/-- `path.exists()`, of a path that can be looked at; of another it is false. -/
def pathExists (store : SecureStore) : Sys SecurityError Bool :=
  Prog.silent fun fs => ((fs.node store.name).isSome, fs)

/-- `cleanup_temp_files`, which building a store runs; `kept` says which of the
files it cannot list or remove. -/
def cleanupTempFiles (kept : Name → Bool) (fs : Fs) : Fs :=
  removeFiles (fun name => decide (extension name = some "tmp") && !kept name) fs

/-- `load`, behind its look at the path -/
def loadSeeing (prims : Primitives P) (store : SecureStore) (passphrase : String) (faults : Faults)
    (there : Bool) : Sys SecurityError IdentityKeys := do
  if there = false then Prog.fail (.storage "identity file not found")
  else
    let len ← atomicCall (fun e => .storage ("metadata: " ++ e)) (faults .metadata)
      (metadata store.name)
    if maxStoreSize < len then
      Prog.fail (.storage s!"file too large: {len} bytes (max {maxStoreSize})")
    else
      let data ← atomicCall (fun e => .storage ("read: " ++ e)) (faults .read) (read store.name)
      Prog.orFail id (decrypt prims data passphrase)

/-- `load` -/
def load (prims : Primitives P) (store : SecureStore) (passphrase : String) (faults : Faults) :
    Sys SecurityError IdentityKeys := do
  let there ← pathExists store
  loadSeeing prims store passphrase faults there

/-- `create_dir_all(parent)` -/
def createDir (fault : Option Fault) : Sys SecurityError Unit :=
  atomicCall (fun e => .storage ("create dir: " ++ e)) fault createDirAll

def writeTemp (store : SecureStore) (encrypted : List UInt8) (fault : Option Fault) :
    Sys SecurityError Unit :=
  writeCall (fun e => .storage ("write temp: " ++ e)) fault store.tempName encrypted

def renameTemp (store : SecureStore) (fault : Option Fault) : Sys SecurityError Unit :=
  atomicCall (fun e => .storage ("rename: " ++ e)) fault (rename store.tempName store.name)

/-- The permissions are no part of the directory here; an error is only logged. -/
def setPermissions (fault : Option Fault) : Sys SecurityError Unit :=
  match fault with
  | some ⟨none, _⟩ => Prog.abort ()
  | _ => pure ()

/-- The calls of `save`, once the keys are encrypted. -/
def place (store : SecureStore) (encrypted : List UInt8) (faults : Faults) :
    Sys SecurityError Unit := do
  createDir (faults .createDir)
  writeTemp store encrypted (faults .writeTemp)
  renameTemp store (faults .rename)
  setPermissions (faults .setPermissions)

/-- `save`, with the salt and the nonce that the call draws. -/
def save (prims : Primitives P) (store : SecureStore) (call : EncryptCall) (faults : Faults) :
    Sys SecurityError Unit := do
  let encrypted ← Prog.orFail id (call.file prims)
  place store encrypted faults

/-- `create`, behind its look at the path -/
def createSeeing (prims : Primitives P) (store : SecureStore) (c : CreateCall) (faults : Faults)
    (there : Bool) : Sys SecurityError IdentityKeys := do
  if there = true then Prog.fail (.storage "identity already exists")
  else
    save prims store (c.saved prims) faults
    pure (c.keys prims)

/-- `create` -/
def create (prims : Primitives P) (store : SecureStore) (c : CreateCall) (faults : Faults) :
    Sys SecurityError IdentityKeys := do
  let there ← pathExists store
  createSeeing prims store c faults there

/-- `load_or_create` -/
def loadOrCreate (prims : Primitives P) (store : SecureStore) (c : CreateCall) (faults : Faults) :
    Sys SecurityError IdentityKeys := do
  let there ← pathExists store
  if there = true then load prims store c.passphrase faults else create prims store c faults

/-! ## The names -/

theorem extension_tempName (store : SecureStore) : extension store.tempName = some "tmp" :=
  extension_withExtension store.named (by decide)

theorem name_ne_tempName (store : SecureStore) : store.name ≠ store.tempName := by
  intro h
  exact store.notTemp (h ▸ store.extension_tempName)

/-- Cleaning up does not touch the store's file. -/
theorem node_cleanupTempFiles (store : SecureStore) (kept : Name → Bool) (fs : Fs) :
    (cleanupTempFiles kept fs).node store.name = fs.node store.name := by
  refine node_removeFiles ?_
  rw [decide_eq_false store.notTemp]
  rfl

/-! ## Loading -/

section
variable {prims : Primitives P} {store : SecureStore} {call : EncryptCall} {f : List UInt8}
  {fs : Fs} {faults : Faults} {passphrase : String}

/-- Loading changes nothing. -/
theorem load_keeps (prims : Primitives P) (store : SecureStore) (passphrase : String)
    (faults : Faults) (fs : Fs) : Prog.Keeps (· = fs) (load prims store passphrase faults) := by
  have hcall : ∀ {α : Type} describe fault (act : Fs → Except String (α × Fs)),
      (∀ a fs', act fs = .ok (a, fs') → fs' = fs) →
        Prog.Keeps (· = fs) (atomicCall describe fault act : Sys SecurityError α) := by
    rintro α describe fault act hact _ rfl
    exact atomicCall_world (I := (· = _)) rfl hact
  refine Prog.Keeps.bind (fun _ h => h) ?_
  intro there
  rw [loadSeeing]
  split
  · exact Prog.Keeps.fail _
  · have hmetadata : ∀ len fs', metadata store.name fs = .ok (len, fs') → fs' = fs := by
      intro len fs' h
      exact (metadata_ok.mp h).1
    refine (hcall _ _ _ hmetadata).bind ?_
    intro len
    split
    · exact Prog.Keeps.fail _
    · have hread : ∀ data fs', read store.name fs = .ok (data, fs') → fs' = fs := by
        intro data fs' h
        exact (read_ok.mp h).1
      refine (hcall _ _ _ hread).bind ?_
      intro data
      exact Prog.Keeps.orFail id _

/-- A file under the store's name is loaded with its passphrase. -/
theorem load_file (lawful : prims.Lawful) (hkeys : call.keys.Made prims)
    (hf : call.file prims = .ok f) (hnode : fs.node store.name = some (.file f)) :
    (load prims store call.passphrase (fun _ => none) fs).outcome = .ok call.keys := by
  have hthere : pathExists store fs = ⟨.ok true, fs, []⟩ := by
    rw [pathExists, Prog.silent_run, hnode]
    rfl
  have hlen : f.length = 193 := length_of_file lawful.tag hf
  have hmetadata : metadata store.name fs = .ok (f.length, fs) :=
    metadata_ok.mpr ⟨rfl, _, hnode, rfl⟩
  have hread : read store.name fs = .ok (f, fs) := read_ok.mpr ⟨rfl, hnode⟩
  rw [load, Prog.bind_of_silent hthere, loadSeeing, if_neg (by decide)]
  rw [Prog.bind_of_silent (atomicCall_run hmetadata), if_neg (by rw [hlen]; decide)]
  rw [Prog.bind_of_silent (atomicCall_run hread), decrypt_file lawful hkeys.consistent hf]
  rfl

end

/-! ## Saving -/

section
variable {prims : Primitives P} {store : SecureStore} {call : EncryptCall} {f : List UInt8}
  {fs : Fs} {fault : Option Fault}

theorem createDir_node : (createDir fault fs).world.node = fs.node :=
  atomicCall_world (I := fun fs' => fs'.node = fs.node) rfl fun _ _ h => createDirAll_ok h

theorem writeTemp_node : (writeTemp store f fault fs).world.node store.name = fs.node store.name :=
  writeCall_node_of_ne store.name_ne_tempName

theorem writeTemp_ok (h : (writeTemp store f fault fs).outcome = .ok ()) :
    (writeTemp store f fault fs).world.node store.tempName = some (.file f) := by
  rw [writeTemp, (writeCall_ok h).2, Function.update_self]

/-- A rename that goes through puts what is under the temporary name under the
store's. -/
theorem renameTemp_ok (h : (renameTemp store fault fs).outcome = .ok ()) :
    ∃ node, fs.node store.tempName = some node ∧
      (renameTemp store fault fs).world.node store.name = some node := by
  obtain ⟨-, hact⟩ := atomicCall_ok h
  obtain ⟨node, hnode, hmoved⟩ := rename_ok hact
  refine ⟨node, hnode, ?_⟩
  rw [renameTemp, hmoved, Function.update_self]

/-- One that does not changes nothing. -/
theorem renameTemp_cases (store : SecureStore) (fault : Option Fault) (fs : Fs) :
    (renameTemp store fault fs).outcome = .ok () ∨ (renameTemp store fault fs).world = fs := by
  cases fault with
  | none =>
      cases hact : rename store.tempName store.name fs with
      | error reason =>
          right
          simp only [renameTemp, atomicCall, sysCall, hact]
      | ok r =>
          left
          simp only [renameTemp, atomicCall, sysCall, hact]
  | some f =>
      right
      obtain ⟨reason, wrote⟩ := f
      cases reason with
      | none => rfl
      | some reason => rfl

theorem setPermissions_world : (setPermissions fault fs).world = fs := by
  unfold setPermissions
  split <;> rfl

/-- What stands under the store's name was there, or is what the temporary
name held. -/
theorem renameTemp_node (fault : Option Fault) (htemp : fs.node store.tempName = some (.file f)) :
    (renameTemp store fault fs).world.node store.name = fs.node store.name ∨
      (renameTemp store fault fs).world.node store.name = some (.file f) := by
  rcases renameTemp_cases store fault fs with hok | hsame
  · right
    obtain ⟨node, hnode, hrenamed⟩ := renameTemp_ok hok
    rw [hrenamed, ← hnode, htemp]
  · left
    rw [hsame]

/-- However the calls end, the file is the old one or all of the new one. -/
theorem place_node (store : SecureStore) (f : List UInt8) (faults : Faults) (fs : Fs) :
    (place store f faults fs).world.node store.name = fs.node store.name ∨
      (place store f faults fs).world.node store.name = some (.file f) := by
  let I : Fs → Prop := fun fs' =>
    fs'.node store.name = fs.node store.name ∨ fs'.node store.name = some (.file f)
  show I (place store f faults fs).world
  have hcreated : (createDir (faults .createDir) fs).world.node store.name = fs.node store.name :=
    congrFun createDir_node store.name
  refine Prog.bind_world (.inl hcreated) ?_
  rintro ⟨⟩ -
  have hwritten : (writeTemp store f (faults .writeTemp)
      (createDir (faults .createDir) fs).world).world.node store.name = fs.node store.name :=
    writeTemp_node.trans hcreated
  refine Prog.bind_world (.inl hwritten) ?_
  rintro ⟨⟩ hok
  have hrenamed := renameTemp_node (faults .rename) (writeTemp_ok hok)
  rw [hwritten] at hrenamed
  refine Prog.bind_world hrenamed ?_
  rintro ⟨⟩ -
  rw [setPermissions_world]
  exact hrenamed

/-- Where they end well, it is the new one. -/
theorem place_ok {faults : Faults} (h : (place store f faults fs).outcome = .ok ()) :
    (place store f faults fs).world.node store.name = some (.file f) := by
  obtain ⟨⟨⟩, hcreate, h⟩ := Prog.ok_of_bind h
  obtain ⟨⟨⟩, hwrite, h⟩ := Prog.ok_of_bind h
  obtain ⟨⟨⟩, hrename, -⟩ := Prog.ok_of_bind h
  obtain ⟨node, hnode, hrenamed⟩ := renameTemp_ok hrename
  rw [place, Prog.bind_of_ok hcreate, Prog.bind_of_ok hwrite, Prog.bind_of_ok hrename]
  rw [setPermissions_world, hrenamed, ← hnode, writeTemp_ok hwrite]

theorem save_of_file (hf : call.file prims = .ok f) (faults : Faults) :
    save prims store call faults = place store f faults := by
  rw [save, hf]
  rfl

theorem save_of_error {e : SecurityError} (hf : call.file prims = .error e) (faults : Faults) :
    save prims store call faults = Prog.fail e := by
  rw [save, hf]
  rfl

theorem pathExists_run : pathExists store fs = ⟨.ok (fs.node store.name).isSome, fs, []⟩ := rfl

/-- Where there is something at the path, nothing is created. -/
theorem create_of_exists {c : CreateCall} {faults : Faults} (h : (fs.node store.name).isSome) :
    create prims store c faults fs = ⟨.err (.storage "identity already exists"), fs, []⟩ := by
  rw [create, Prog.bind_of_silent pathExists_run, createSeeing, if_pos h]
  rfl

/-- However saving ends, the file is the old one or all of the new one. -/
theorem save_node (prims : Primitives P) (store : SecureStore) (call : EncryptCall)
    (faults : Faults) (fs : Fs) :
    (save prims store call faults fs).world.node store.name = fs.node store.name ∨
      ∃ f, call.file prims = .ok f ∧
        (save prims store call faults fs).world.node store.name = some (.file f) := by
  cases hf : call.file prims with
  | error e =>
      left
      rw [save_of_error hf]
      rfl
  | ok f =>
      rw [save_of_file hf]
      rcases place_node store f faults fs with hold | hnew
      · exact .inl hold
      · exact .inr ⟨f, rfl, hnew⟩

theorem save_ok {faults : Faults} (h : (save prims store call faults fs).outcome = .ok ()) :
    ∃ f, call.file prims = .ok f ∧
      (save prims store call faults fs).world.node store.name = some (.file f) := by
  cases hf : call.file prims with
  | error e =>
      rw [save_of_error hf] at h
      cases h
  | ok f =>
      rw [save_of_file hf] at h ⊢
      exact ⟨f, rfl, place_ok h⟩

/-- What is at the path is loaded with its own passphrase, also after the
cleanup. -/
theorem load_cleaned (lawful : prims.Lawful) (kept : Name → Bool) (hkeys : call.keys.Made prims)
    (hf : call.file prims = .ok f) (hnode : fs.node store.name = some (.file f)) :
    (load prims store call.passphrase (fun _ => none) (cleanupTempFiles kept fs)).outcome
      = .ok call.keys := by
  rw [← node_cleanupTempFiles store kept] at hnode
  exact load_file lawful hkeys hf hnode

/-- Saving is all-or-nothing: wherever it fails or crashes, the file at the
path is the old one or all of the new one, and after the cleanup of the next
store it is loaded with its own passphrase.  What is there when `create`,
`load` or `load_or_create` starts is not changed by them. -/
theorem all_or_nothing {prims : Primitives P} (lawful : prims.Lawful) (store : SecureStore) :
    (∀ call faults fs,
      ((save prims store call faults fs).world.node store.name = fs.node store.name ∨
        ∃ f, call.file prims = .ok f ∧
          (save prims store call faults fs).world.node store.name = some (.file f)) ∧
      ((save prims store call faults fs).outcome = .ok () →
        ∃ f, call.file prims = .ok f ∧
          (save prims store call faults fs).world.node store.name = some (.file f)) ∧
      ∀ (kept : Name → Bool) (present : EncryptCall) f, present.keys.Made prims →
        present.file prims = .ok f →
        (save prims store call faults fs).world.node store.name = some (.file f) →
        (load prims store present.passphrase (fun _ => none)
          (cleanupTempFiles kept (save prims store call faults fs).world)).outcome
            = .ok present.keys) ∧
    ∀ c passphrase faults (fs : Fs), (fs.node store.name).isSome →
      (create prims store c faults fs).world = fs ∧
      (load prims store passphrase faults fs).world = fs ∧
      (loadOrCreate prims store c faults fs).world = fs := by
  constructor
  · intro call faults fs
    refine ⟨save_node prims store call faults fs, save_ok, ?_⟩
    intro kept present f hkeys hf hnode
    exact load_cleaned lawful kept hkeys hf hnode
  · intro c passphrase faults fs hthere
    have hload : ∀ pass, (load prims store pass faults fs).world = fs := by
      intro pass
      exact load_keeps prims store pass faults fs fs rfl
    refine ⟨?_, hload passphrase, ?_⟩
    · rw [create_of_exists hthere]
    · rw [loadOrCreate, Prog.bind_of_silent pathExists_run, if_pos hthere]
      exact hload c.passphrase

end

open Idealized in
/-- A process that dies while it renames Alice's first file. -/
theorem alice_crashed :
    (save prims atDefault aliceCall (fun call => if call = .rename then some ⟨none, none⟩ else none)
        none).world.node storageFile = none ∨
      ∃ f, aliceCall.file prims = .ok f ∧
        (save prims atDefault aliceCall
          (fun call => if call = .rename then some ⟨none, none⟩ else none)
          none).world.node storageFile = some (.file f) :=
  ((all_or_nothing prims_lawful atDefault).1 aliceCall _ none).1

end SecureStore

end Rubix.Security
