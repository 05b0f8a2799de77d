import Mathlib.Tactic

/-!
# Descriptors, open files and registrations

A process has a table of descriptors, each of which stands for an open file. A child gets a copy of
the table when it is forked, so that an open file may have descriptors in several processes. It is
closed when the last of them is closed. A registration of an open file with an instance of `epoll`
carries some data, and it lives as long as the file is open, not as long as the descriptor under which
it was made.

`Kernel α` carries its own well-formedness: no two descriptors of the process have the same number or
the same open file (nothing is duplicated within the process), and files are numbered as they are
opened.

* `open_close_iff`: whether a file is still open after a `close`.
* `mem_close`, `registrations_exec`, `registrations_exit`: which registrations are left.
-/

namespace TurtleServer.Lib

/-- A descriptor: its number, the open file it stands for, and whether `exec` closes it. -/
structure Descriptor where
  fd : ℤ
  file : ℕ
  cloexec : Bool
deriving DecidableEq, Repr

/-- A child process. -/
structure Child where
  pid : ℕ
  descriptors : List Descriptor
deriving DecidableEq, Repr

/-- A registration of an open file. -/
structure Registration (α : Type*) where
  file : ℕ
  data : α
deriving DecidableEq, Repr

/-- The kernel as a process sees it: its descriptors, its children and the registrations with each of
its instances of `epoll`. -/
structure Kernel (α : Type*) where
  table : List Descriptor
  children : List Child
  registrations : ℕ → List (Registration α)
  opened : ℕ
  numbered : ∀ d ∈ table, d.file < opened
  distinct : table.Pairwise fun d d' => d.fd ≠ d'.fd ∧ d.file ≠ d'.file

namespace Kernel

variable {α : Type*} (k : Kernel α)

/-- Nothing is open. -/
def new : Kernel α where
  table := []
  children := []
  registrations _ := []
  opened := 0
  numbered := nofun
  distinct := .nil

/-- A child has a descriptor of the file. -/
def Inherited (file : ℕ) : Prop := ∃ c ∈ k.children, ∃ d ∈ c.descriptors, d.file = file

instance (file : ℕ) : Decidable (k.Inherited file) :=
  inferInstanceAs (Decidable (∃ c ∈ k.children, ∃ d ∈ c.descriptors, d.file = file))

/-- Some process has a descriptor of the file. -/
def Open (file : ℕ) : Prop := (∃ d ∈ k.table, d.file = file) ∨ k.Inherited file

instance (file : ℕ) : Decidable (k.Open file) :=
  inferInstanceAs (Decidable ((∃ d ∈ k.table, d.file = file) ∨ k.Inherited file))

/-- The descriptor with a given number. -/
def descriptor (fd : ℤ) : Option Descriptor := k.table.find? fun d => d.fd = fd

/-- The registrations of files that are not open any more disappear. -/
def settle : Kernel α :=
  { k with registrations := fun i => (k.registrations i).filter fun g => k.Open g.file }

/-- A new open file under a number that is free. -/
def openFile (fd : ℤ) (cloexec : Bool) (hfree : ∀ d ∈ k.table, d.fd ≠ fd) : Kernel α :=
  { k with
    table := ⟨fd, k.opened, cloexec⟩ :: k.table
    opened := k.opened + 1
    numbered := by
      refine List.forall_mem_cons.mpr ⟨Nat.lt_succ_self _, fun d hd => ?_⟩
      exact Nat.lt_succ_of_lt (k.numbered d hd)
    distinct := by
      refine List.pairwise_cons.mpr ⟨fun d hd => ⟨Ne.symm (hfree d hd), ?_⟩, k.distinct⟩
      exact Ne.symm (Nat.ne_of_lt (k.numbered d hd)) }

/-- `close`. -/
def close (fd : ℤ) : Kernel α :=
  settle { k with
    table := k.table.filter fun d => d.fd ≠ fd
    numbered := fun d hd => k.numbered d (List.mem_of_mem_filter hd)
    distinct := k.distinct.filter _ }

/-- `epoll_ctl` with `EPOLL_CTL_ADD`, on the instance `i`. -/
def register (i : ℕ) (fd : ℤ) (data : α) : Kernel α :=
  match k.descriptor fd with
  | none => k
  | some d => { k with
      registrations := Function.update k.registrations i (⟨d.file, data⟩ :: k.registrations i) }

/-- `fork`: the child gets all descriptors. -/
def fork (pid : ℕ) : Kernel α := { k with children := ⟨pid, k.table⟩ :: k.children }

/-- `execve` in a child: the descriptors marked for it are closed. -/
def exec (pid : ℕ) : Kernel α :=
  settle { k with children := k.children.map fun c =>
    if c.pid = pid then { c with descriptors := c.descriptors.filter fun d => !d.cloexec } else c }

/-- The end of a child: its descriptors are closed. -/
def exit (pid : ℕ) : Kernel α := settle { k with children := k.children.filter fun c => c.pid ≠ pid }

variable {k} {d d' : Descriptor} {fd : ℤ} {file i pid : ℕ} {g : Registration α}

theorem apart (hd : d ∈ k.table) (hd' : d' ∈ k.table) (hne : d ≠ d') :
    d.fd ≠ d'.fd ∧ d.file ≠ d'.file := by
  have : Std.Symm fun d d' : Descriptor => d.fd ≠ d'.fd ∧ d.file ≠ d'.file :=
    ⟨fun _ _ h => ⟨h.1.symm, h.2.symm⟩⟩
  exact k.distinct.forall hd hd' hne

theorem eq_of_fd (hd : d ∈ k.table) (hd' : d' ∈ k.table) (h : d.fd = d'.fd) : d = d' := by
  by_contra hne
  exact (apart hd hd' hne).1 h

theorem eq_of_file (hd : d ∈ k.table) (hd' : d' ∈ k.table) (h : d.file = d'.file) : d = d' := by
  by_contra hne
  exact (apart hd hd' hne).2 h

theorem descriptor_of_mem (hd : d ∈ k.table) : k.descriptor d.fd = some d := by
  cases hfind : k.descriptor d.fd with
  | none => exact absurd (List.find?_eq_none.mp hfind d hd) (by simp)
  | some d' =>
    have hfd : d'.fd = d.fd := by simpa using List.find?_some hfind
    rw [eq_of_fd (List.mem_of_find?_eq_some hfind) hd hfd]

/-! ## New registrations -/

@[simp] theorem table_register (data : α) : (k.register i fd data).table = k.table := by
  unfold register
  split <;> rfl

theorem mem_register (hd : d ∈ k.table) (data : α) {j : ℕ} :
    g ∈ (k.register i d.fd data).registrations j ↔
      g ∈ k.registrations j ∨ j = i ∧ g = ⟨d.file, data⟩ := by
  unfold register
  rw [descriptor_of_mem hd]
  rcases eq_or_ne j i with rfl | hne
  · simp [or_comm]
  · simp [hne]

/-! ## Closed files -/

theorem mem_settle : g ∈ k.settle.registrations i ↔ g ∈ k.registrations i ∧ k.Open g.file := by
  simp [settle]

theorem mem_table_close : d ∈ (k.close fd).table ↔ d ∈ k.table ∧ d.fd ≠ fd := by
  simp [close, settle]

theorem mem_close : g ∈ (k.close fd).registrations i ↔
    g ∈ k.registrations i ∧ (k.close fd).Open g.file := mem_settle

/-- After a `close` the file is open exactly if a child has inherited it. -/
theorem open_close_iff (hd : d ∈ k.table) : (k.close d.fd).Open d.file ↔ k.Inherited d.file := by
  constructor
  · rintro (⟨d', hd', hfile⟩ | hinherited)
    · obtain ⟨hmem, hne⟩ := mem_table_close.mp hd'
      exact absurd (congrArg Descriptor.fd (eq_of_file hmem hd hfile)) hne
    · exact hinherited
  · exact .inr

/-- The registrations of files that the process itself has open do not depend on the children. -/
theorem registrations_settle {children : List Child}
    (h : ∀ g ∈ k.registrations i, ∃ d ∈ k.table, d.file = g.file) :
    (settle { k with children }).registrations i = k.registrations i := by
  refine List.filter_eq_self.mpr fun g hg => ?_
  exact decide_eq_true (.inl (h g hg))

theorem registrations_exec (h : ∀ g ∈ k.registrations i, ∃ d ∈ k.table, d.file = g.file) :
    (k.exec pid).registrations i = k.registrations i := registrations_settle h

theorem registrations_exit (h : ∀ g ∈ k.registrations i, ∃ d ∈ k.table, d.file = g.file) :
    (k.exit pid).registrations i = k.registrations i := registrations_settle h

end Kernel

end TurtleServer.Lib
