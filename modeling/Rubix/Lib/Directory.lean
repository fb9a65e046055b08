/-
# `Rubix.Lib.Directory` — the files of one directory, and calls that go wrong

A directory holds a node under each name, or does not exist.  A call of the
operating system goes through, or returns an error, or is the one in which the
process dies; a call is a program (`Effect.Prog`) over the directory whose
panic is the end of the process.  Where it does not go through it leaves the
directory as it was, except for a write, which may leave any front of its
bytes.  A name splits at its last dot into a stem and an extension.
-/
import Mathlib.Logic.Function.Basic
import Rubix.Lib.Effect

namespace Directory

open Effect

/-! ## Names -/

/-- The name of a file; `..` is not one. -/
abbrev Name := String

/-- A text around its last dot. -/
def splitLastDot : List Char → Option (List Char × List Char)
  | [] => none
  | c :: cs =>
      match splitLastDot cs with
      | some (before, after) => some (c :: before, after)
      | none => if c = '.' then some ([], cs) else none

/-- The stem and the extension; a dot in front starts no extension. -/
def splitExtension (name : Name) : Name × Option String :=
  match splitLastDot name.toList with
  | some (c :: before, after) => (String.ofList (c :: before), some (String.ofList after))
  | _ => (name, none)

def extension (name : Name) : Option String := (splitExtension name).2

/-- The name with another extension, which is not empty. -/
def withExtension (name : Name) (ext : String) : Name :=
  String.ofList ((splitExtension name).1.toList ++ '.' :: ext.toList)

theorem splitLastDot_eq_none {cs : List Char} (h : '.' ∉ cs) : splitLastDot cs = none := by
  induction cs with
  | nil => rfl
  | cons c cs ih =>
      have hc : c ≠ '.' := by
        rintro rfl
        exact h List.mem_cons_self
      have hcs : '.' ∉ cs := by
        intro hmem
        exact h (List.mem_cons_of_mem c hmem)
      rw [splitLastDot, ih hcs]
      exact if_neg hc

theorem splitLastDot_append (stem : List Char) {ext : List Char} (h : '.' ∉ ext) :
    splitLastDot (stem ++ '.' :: ext) = some (stem, ext) := by
  induction stem with
  | nil =>
      rw [List.nil_append, splitLastDot, splitLastDot_eq_none h]
      rfl
  | cons c stem ih => rw [List.cons_append, splitLastDot, ih]

/-- The stem of a name that is not empty is not empty. -/
theorem stem_ne_nil {name : Name} (h : name ≠ "") : (splitExtension name).1.toList ≠ [] := by
  unfold splitExtension
  split
  · rw [String.toList_ofList]
    exact List.cons_ne_nil _ _
  · intro hnil
    exact h (String.toList_inj.mp hnil)

theorem extension_withExtension {name : Name} {ext : String} (hname : name ≠ "")
    (hext : '.' ∉ ext.toList) : extension (withExtension name ext) = some ext := by
  obtain ⟨c, stem, hstem⟩ := List.exists_cons_of_ne_nil (stem_ne_nil hname)
  have hsplit : splitLastDot (withExtension name ext).toList = some (c :: stem, ext.toList) := by
    rw [withExtension, String.toList_ofList, splitLastDot_append _ hext, hstem]
  rw [extension, splitExtension, hsplit]
  exact congrArg some String.ofList_toList

/-! ## Nodes -/

inductive Node where
  | file (bytes : List UInt8)
  | directory (size : Nat)
  deriving DecidableEq

/-- The length in the metadata. -/
def Node.len : Node → Nat
  | .file bytes => bytes.length
  | .directory size => size

/-- What stands under each name, or `none` where there is no such directory. -/
abbrev Fs := Option (Name → Option Node)

def Fs.node (fs : Fs) (name : Name) : Option Node := fs.bind (· name)

/-- `create_dir_all` -/
def createDirAll (fs : Fs) : Except String (Unit × Fs) := .ok ((), some (fs.getD fun _ => none))

/-- `metadata`, of which only the length is used. -/
def metadata (name : Name) (fs : Fs) : Except String (Nat × Fs) :=
  match fs.node name with
  | none => .error "No such file or directory (os error 2)"
  | some node => .ok (node.len, fs)

/-- `read` -/
def read (name : Name) (fs : Fs) : Except String (List UInt8 × Fs) :=
  match fs.node name with
  | none => .error "No such file or directory (os error 2)"
  | some (.directory _) => .error "Is a directory (os error 21)"
  | some (.file bytes) => .ok (bytes, fs)

/-- `write`: the file is created, or cut to nothing, and written. -/
def write (name : Name) (bytes : List UInt8) (fs : Fs) : Except String (Unit × Fs) :=
  match fs with
  | none => .error "No such file or directory (os error 2)"
  | some dir =>
      match dir name with
      | some (.directory _) => .error "Is a directory (os error 21)"
      | _ => .ok ((), some (Function.update dir name (some (.file bytes))))

/-- Why a node does not take the place of what stands under a name.  (That a
directory replaces an empty one is left out.) -/
def refusal : Node → Option Node → Option String
  | .file _, some (.directory _) => some "Is a directory (os error 21)"
  | .directory _, some (.file _) => some "Not a directory (os error 20)"
  | .directory _, some (.directory _) => some "Directory not empty (os error 39)"
  | _, none => none
  | .file _, some (.file _) => none

/-- `rename`: the node moves in one go, also over a file. -/
def rename (source target : Name) (fs : Fs) : Except String (Unit × Fs) :=
  match fs with
  | none => .error "No such file or directory (os error 2)"
  | some dir =>
      match dir source with
      | none => .error "No such file or directory (os error 2)"
      | some node =>
          match refusal node (dir target) with
          | some reason => .error reason
          | none =>
              .ok ((), some (Function.update (Function.update dir source none) target (some node)))

/-- `remove_file`, wherever it succeeds. -/
def removeFiles (removed : Name → Bool) (fs : Fs) : Fs :=
  fs.map fun dir name =>
    match dir name with
    | some (.file _) => if removed name then none else dir name
    | node => node

section
variable {fs fs' : Fs} {name source target : Name} {bytes : List UInt8} {u : Unit}

theorem createDirAll_ok (h : createDirAll fs = .ok (u, fs')) : fs'.node = fs.node := by
  cases h
  cases fs with
  | none => rfl
  | some dir => rfl

theorem metadata_ok {len : Nat} :
    metadata name fs = .ok (len, fs') ↔
      fs' = fs ∧ ∃ node, fs.node name = some node ∧ len = node.len := by
  unfold metadata
  cases hnode : fs.node name with
  | none => simp
  | some node => simp [eq_comm, and_comm]

theorem read_ok :
    read name fs = .ok (bytes, fs') ↔ fs' = fs ∧ fs.node name = some (.file bytes) := by
  unfold read
  cases hnode : fs.node name with
  | none => simp
  | some node =>
      cases node with
      | directory size => simp
      | file bytes' => simp [eq_comm, and_comm]

theorem write_ok (h : write name bytes fs = .ok (u, fs')) :
    fs'.node = Function.update fs.node name (some (.file bytes)) := by
  unfold write at h
  split at h
  · cases h
  · split at h
    · cases h
    · cases h
      rfl

theorem rename_ok (h : rename source target fs = .ok (u, fs')) :
    ∃ node, fs.node source = some node ∧
      fs'.node = Function.update (Function.update fs.node source none) target (some node) := by
  unfold rename at h
  split at h
  · cases h
  · rename_i dir
    split at h
    · cases h
    · rename_i node hnode
      split at h
      · cases h
      · cases h
        exact ⟨node, hnode, rfl⟩

theorem node_removeFiles {removed : Name → Bool} (h : removed name = false) :
    (removeFiles removed fs).node name = fs.node name := by
  cases fs with
  | none => rfl
  | some dir =>
      show (match dir name with
        | some (.file _) => if removed name then none else dir name
        | node => node) = dir name
      split
      · rw [h]
        rfl
      · rfl

end

/-! ## Calls -/

/-- What goes wrong in a call: the error it returns, or the process dies in it.
A write may have opened the file and written some of its bytes. -/
structure Fault where
  reason : Option String
  wrote : Option Nat

/-- A program that calls the system on the directory, with errors `ε`. -/
abbrev Sys (ε α : Type) := Prog Fs Empty ε Unit α

variable {ε α : Type}

/-- A call that does `act`, or else leaves what `torn` says. -/
def sysCall (describe : String → ε) (fault : Option Fault) (torn : Fault → Fs → Fs)
    (act : Fs → Except String (α × Fs)) : Sys ε α := fun fs =>
  match fault with
  | none =>
      match act fs with
      | .ok (a, fs') => ⟨.ok a, fs', []⟩
      | .error reason => ⟨.err (describe reason), fs, []⟩
  | some f =>
      match f.reason with
      | some reason => ⟨.err (describe reason), torn f fs, []⟩
      | none => ⟨.panic (), torn f fs, []⟩

/-- A call that does all it does or nothing. -/
def atomicCall (describe : String → ε) (fault : Option Fault)
    (act : Fs → Except String (α × Fs)) : Sys ε α :=
  sysCall describe fault (fun _ fs => fs) act

/-- What a write leaves that does not go through. -/
def tornWrite (name : Name) (bytes : List UInt8) (f : Fault) (fs : Fs) : Fs :=
  match f.wrote with
  | none => fs
  | some n =>
      match write name (bytes.take n) fs with
      | .ok (_, fs') => fs'
      | .error _ => fs

def writeCall (describe : String → ε) (fault : Option Fault) (name : Name) (bytes : List UInt8) :
    Sys ε Unit :=
  sysCall describe fault (tornWrite name bytes) (write name bytes)

section
variable {describe : String → ε} {fault : Option Fault} {torn : Fault → Fs → Fs}
  {act : Fs → Except String (α × Fs)} {fs : Fs} {I : Fs → Prop}

/-- A call with a value went through. -/
theorem sysCall_ok {a : α} (h : (sysCall describe fault torn act fs).outcome = .ok a) :
    fault = none ∧ act fs = .ok (a, (sysCall describe fault torn act fs).world) := by
  cases fault with
  | none =>
      refine ⟨rfl, ?_⟩
      unfold sysCall at h ⊢
      cases hact : act fs with
      | error reason =>
          rw [hact] at h
          cases h
      | ok r =>
          rw [hact] at h
          cases h
          rfl
  | some f =>
      unfold sysCall at h
      dsimp only at h
      split at h <;> cases h

/-- What the directory meets before the call, after what it does and after
what it leaves behind. -/
theorem sysCall_world (hsame : I fs) (htorn : ∀ f, I (torn f fs))
    (hact : ∀ a fs', act fs = .ok (a, fs') → I fs') :
    I (sysCall describe fault torn act fs).world := by
  unfold sysCall
  split
  · split
    · rename_i a fs' h
      exact hact a fs' h
    · exact hsame
  · split
    · exact htorn _
    · exact htorn _

theorem atomicCall_ok {a : α} (h : (atomicCall describe fault act fs).outcome = .ok a) :
    fault = none ∧ act fs = .ok (a, (atomicCall describe fault act fs).world) := sysCall_ok h

theorem atomicCall_run {a : α} {fs' : Fs} (h : act fs = .ok (a, fs')) :
    atomicCall describe none act fs = ⟨.ok a, fs', []⟩ := by
  rw [atomicCall, sysCall, h]

theorem atomicCall_world (hsame : I fs) (hact : ∀ a fs', act fs = .ok (a, fs') → I fs') :
    I (atomicCall describe fault act fs).world :=
  sysCall_world hsame (fun _ => hsame) hact

theorem writeCall_ok {name : Name} {bytes : List UInt8}
    (h : (writeCall describe fault name bytes fs).outcome = .ok ()) :
    fault = none ∧ (writeCall describe fault name bytes fs).world.node
      = Function.update fs.node name (some (.file bytes)) := by
  obtain ⟨hfault, hact⟩ := sysCall_ok h
  exact ⟨hfault, write_ok hact⟩

/-- However a write ends, the other names keep their nodes. -/
theorem writeCall_node_of_ne {name other : Name} {bytes : List UInt8} (h : other ≠ name) :
    (writeCall describe fault name bytes fs).world.node other = fs.node other := by
  have hwrite : ∀ bytes' fs', write name bytes' fs = .ok ((), fs') →
      fs'.node other = fs.node other := by
    intro bytes' fs' hok
    rw [write_ok hok, Function.update_of_ne h]
  refine sysCall_world (I := fun fs' => fs'.node other = fs.node other) rfl ?_ ?_
  · intro f
    unfold tornWrite
    split
    · rfl
    · split
      · rename_i hok
        exact hwrite _ _ hok
      · rfl
  · intro _ fs' hok
    exact hwrite bytes fs' hok

end

end Directory
