import Mathlib

/-!
One directory of a file system with hard links. Entries name files; a file is itself whatever names it, and
a new file is never one that was there before. `Keeps` is the frame of the operations: what they leave alone
of a file they are not about.
-/

namespace Lycoris.Lib

/-- Why an operation on a directory fails. -/
inductive ErrorKind where
  | notFound
  | alreadyExists
  | other
  deriving DecidableEq

theorem bounded_update {N : Type} [DecidableEq N] {names : N → Option Nat} {next next' : Nat} {entry : N}
    {target : Option Nat} (bounded : ∀ name file, names name = some file → file < next)
    (grows : next ≤ next') (fits : ∀ file, target = some file → file < next') :
    ∀ name file, Function.update names entry target name = some file → file < next' := by
  intro name file named
  by_cases same : name = entry
  · subst same
    exact fits file (by rwa [Function.update_self] at named)
  · rw [Function.update_of_ne same] at named
    exact Nat.lt_of_lt_of_le (bounded name file named) grows

structure Files (N α : Type) where
  names : N → Option Nat
  contents : Nat → List α
  /-- The next file to be created. -/
  next : Nat
  bounded : ∀ name file, names name = some file → file < next

namespace Files
variable {N α : Type}

def read (files : Files N α) (name : N) : Option (List α) := (files.names name).map files.contents

/-- The file behind an entry. -/
def find (files : Files N α) (name : N) : Except ErrorKind Nat :=
  match files.names name with
  | some file => .ok file
  | none => .error .notFound

def append (files : Files N α) (file : Nat) (bytes : List α) : Files N α :=
  { files with contents := Function.update files.contents file (files.contents file ++ bytes) }

variable [DecidableEq N]

/-- Exclusive creation: a new empty file under a free name. -/
def createNew (files : Files N α) (name : N) : Except ErrorKind (Files N α × Nat) :=
  match files.names name with
  | some _ => .error .alreadyExists
  | none => .ok ({
      names := Function.update files.names name (some files.next)
      contents := Function.update files.contents files.next []
      next := files.next + 1
      bounded := bounded_update files.bounded (Nat.le_succ _)
        fun _ same => Nat.lt_succ_of_le (Nat.le_of_eq (Option.some.inj same).symm) }, files.next)

/-- A second entry for the file of the first, made at once or not at all. -/
def hardLink (files : Files N α) (original link : N) : Except ErrorKind (Files N α) :=
  match files.names original, files.names link with
  | none, _ => .error .notFound
  | some _, some _ => .error .alreadyExists
  | some _, none => .ok { files with
      names := Function.update files.names link (files.names original)
      bounded := bounded_update files.bounded (Nat.le_refl _) (files.bounded original) }

def remove (files : Files N α) (name : N) : Except ErrorKind (Files N α) :=
  match files.names name with
  | none => .error .notFound
  | some _ => .ok { files with
      names := Function.update files.names name none
      bounded := bounded_update files.bounded (Nat.le_refl _) fun _ missing => by cases missing }

/-! ### What the operations do -/

section Effects

variable {files files' : Files N α} {name original link : N} {file made : Nat}

omit [DecidableEq N] in
theorem find_ok : files.find name = .ok file ↔ files.names name = some file := by
  unfold find
  split <;> simp_all

theorem createNew_ok (done : files.createNew name = .ok (files', made)) :
    files.names name = none ∧ made = files.next ∧ files'.next = files.next + 1 ∧
      files'.names = Function.update files.names name (some made) ∧
      files'.contents = Function.update files.contents made [] := by
  unfold createNew at done
  split at done
  · cases done
  · rename_i free
    cases done
    exact ⟨free, rfl, rfl, rfl, rfl⟩

theorem hardLink_ok (done : files.hardLink original link = .ok files') :
    files.names link = none ∧ files'.next = files.next ∧ files'.contents = files.contents ∧
      files'.names = Function.update files.names link (files.names original) := by
  unfold hardLink at done
  split at done
  · cases done
  · cases done
  · rename_i free
    cases done
    exact ⟨free, rfl, rfl, rfl⟩

theorem remove_ok (done : files.remove name = .ok files') :
    files'.next = files.next ∧ files'.contents = files.contents ∧
      files'.names = Function.update files.names name none := by
  unfold remove at done
  split at done
  · cases done
  · cases done
    exact ⟨rfl, rfl, rfl⟩

end Effects

/-! ### The frame -/

/-- The file has the names and the content it had. -/
structure Keeps (file : Nat) (files files' : Files N α) : Prop where
  names : ∀ name, files'.names name = some file ↔ files.names name = some file
  content : files'.contents file = files.contents file

section Frame

variable {files files' : Files N α} {name original link : N} {file made : Nat}

omit [DecidableEq N] in
theorem Keeps.refl (file : Nat) (files : Files N α) : Keeps file files files :=
  ⟨fun _ => Iff.rfl, rfl⟩

/-- An entry that is given to or taken from other files only. -/
theorem update_names_iff {names : N → Option Nat} {entry : N} {target : Option Nat}
    (before : names entry ≠ some file) (after : target ≠ some file) (name : N) :
    Function.update names entry target name = some file ↔ names name = some file := by
  by_cases same : name = entry
  · subst same
    rw [Function.update_self]
    exact iff_of_false after before
  · rw [Function.update_of_ne same]

theorem createNew_keeps (done : files.createNew name = .ok (files', made)) (old : file < files.next) :
    Keeps file files files' := by
  obtain ⟨free, rfl, -, names, contents⟩ := createNew_ok done
  have other : file ≠ files.next := Nat.ne_of_lt old
  constructor
  · rw [names]
    exact update_names_iff (by simp [free]) (by simpa using other.symm)
  · rw [contents, Function.update_of_ne other]

omit [DecidableEq N] in
theorem append_keeps {bytes : List α} (other : file ≠ made) : Keeps file files (files.append made bytes) :=
  ⟨fun _ => Iff.rfl, Function.update_of_ne other _ _⟩

theorem hardLink_keeps (done : files.hardLink original link = .ok files')
    (other : files.names original ≠ some file) : Keeps file files files' := by
  obtain ⟨free, -, contents, names⟩ := hardLink_ok done
  constructor
  · rw [names]
    exact update_names_iff (by simp [free]) other
  · rw [contents]

theorem remove_keeps (done : files.remove name = .ok files') (other : files.names name ≠ some file) :
    Keeps file files files' := by
  obtain ⟨-, contents, names⟩ := remove_ok done
  constructor
  · rw [names]
    exact update_names_iff other (by simp)
  · rw [contents]

end Frame

end Files
end Lycoris.Lib
