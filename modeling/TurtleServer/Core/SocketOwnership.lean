import TurtleServer.Lib.Runs

/-!
# Who owns a descriptor (`core/socket.cpp`)

A `Socket` holds a descriptor or `-1` and closes what it holds when it is destroyed. The kernel hands
out a number again once it was closed, so a descriptor is more than its number: `Opened` is a number
together with which opening gave it. The program only ever sees the number.

The move assignment closes the descriptor that the target holds and then swaps the two. The closed
number goes to the other socket, which closes it a second time when it is destroyed. By then it may be
the number of somebody else (`stolen_descriptor`).

1. `step`: the operations on sockets.
2. `Owned`: what is asked of their descriptors.
3. `sockets_own_iff`: it holds in a whole run exactly when no socket that holds a descriptor is
   assigned to.
-/

namespace TurtleServer.Ownership

open Lib

/-! ## 1. Operations -/

/-- A descriptor: its number, and which of all openings has given it. -/
structure Opened where
  fd : ℕ
  opening : ℕ
deriving DecidableEq, Repr

/-- The class `Socket`, where `none` stands for `-1`. -/
structure Socket where
  fd : Option Opened
deriving DecidableEq, Repr

/-- The sockets alive, by address, and the descriptors of the process: under each number the opening
that it stands for, how many there have been, and the calls of `close`. -/
structure Process where
  sockets : ℕ → Option Socket
  table : ℕ → Option ℕ
  opened : ℕ
  closes : List Opened

/-- The operations. The number of a new descriptor is chosen by the kernel among the free ones. -/
inductive Op
  /-- `Socket()` -/
  | construct (addr : ℕ)
  /-- `Socket(fd)`, of a descriptor just opened -/
  | constructFrom (addr fd : ℕ)
  /-- `Socket(std::move(other))` -/
  | moveConstruct (addr other : ℕ)
  /-- `*addr = std::move(*other)` -/
  | moveAssign (addr other : ℕ)
  /-- `CreateByProtocol`, in `Bind` and `Connect` of a socket without a descriptor -/
  | createByProtocol (addr fd : ℕ)
  /-- `~Socket()` -/
  | destroy (addr : ℕ)
deriving DecidableEq, Repr

namespace Process

def new : Process := ⟨fun _ => none, fun _ => none, 0, []⟩

/-- A socket is alive and holds the descriptor. -/
def Holds (s : Process) (addr : ℕ) (d : Opened) : Prop := s.sockets addr = some ⟨some d⟩

/-- The object at an address. -/
def put (s : Process) (addr : ℕ) (socket : Option Socket) : Process :=
  { s with sockets := Function.update s.sockets addr socket }

/-- `close`. The kernel looks at the number only. -/
def close (s : Process) (d : Opened) : Process :=
  { s with table := Function.update s.table d.fd none, closes := s.closes ++ [d] }

/-- `if (fd_ != -1) { close(fd_); }` -/
def closeHeld (s : Process) (socket : Socket) : Process :=
  match socket.fd with
  | some d => s.close d
  | none => s

/-- A new descriptor for the socket at `addr`. -/
def openFor (s : Process) (addr fd : ℕ) : Process :=
  put { s with table := Function.update s.table fd (some s.opened), opened := s.opened + 1 } addr
    (some ⟨some ⟨fd, s.opened⟩⟩)

/-- One operation. One that C++ does not allow (on an object that is not alive, or a second object at
an address), or a number that is not free, changes nothing. -/
def step (s : Process) : Op → Process
  | .construct addr =>
    match s.sockets addr with
    | none => s.put addr (some ⟨none⟩)
    | some _ => s
  | .constructFrom addr fd =>
    match s.sockets addr, s.table fd with
    | none, none => s.openFor addr fd
    | _, _ => s
  | .moveConstruct addr other =>
    match s.sockets addr, s.sockets other with
    | none, some that => (s.put addr (some ⟨that.fd⟩)).put other (some ⟨none⟩)
    | _, _ => s
  | .moveAssign addr other =>
    match s.sockets addr, s.sockets other with
    | some this, some that =>
      -- `this` keeps the number it has closed until it is swapped
      ((s.closeHeld this).put addr (some ⟨that.fd⟩)).put other (some ⟨this.fd⟩)
    | _, _ => s
  | .createByProtocol addr fd =>
    match s.sockets addr, s.table fd with
    | some ⟨none⟩, none => s.openFor addr fd
    | _, _ => s
  | .destroy addr =>
    match s.sockets addr with
    | some this => (s.closeHeld this).put addr none
    | none => s

end Process

/-! ## 2. Ownership -/

/-- No two sockets hold the same number. What a socket holds has not been closed, and its number still
stands for it. No descriptor is closed twice, and when there are no sockets left each has been closed
once. -/
structure Owned (s : Process) : Prop where
  distinct : ∀ a b d d', s.Holds a d → s.Holds b d' → d.fd = d'.fd → a = b
  unclosed : ∀ a d, s.Holds a d → d ∉ s.closes ∧ s.table d.fd = some d.opening
  once : (s.closes.map Opened.opening).Nodup
  all : (∀ a, s.sockets a = none) → ∀ i < s.opened, (s.closes.map Opened.opening).count i = 1

/-- No socket that holds a descriptor is assigned to. -/
def NotOverwritten (s : Process) : Op → Prop
  | .moveAssign addr other => ∀ d, s.Holds addr d → s.sockets other = none
  | _ => True

namespace OwnershipLemmas

open Process

variable {s s' : Process} {addr other fd : ℕ} {d : Opened}

/-- The openings whose descriptor has been passed to `close`. -/
def closed (s : Process) : List ℕ := s.closes.map Opened.opening

/-- Every opening is held by one socket or has been closed once, and what is held is in the table. -/
structure Inv (s : Process) : Prop where
  apart : ∀ a b d d', s.Holds a d → s.Holds b d' → d.opening = d'.opening → a = b
  unclosed : ∀ a d, s.Holds a d → d.opening ∉ closed s ∧ s.table d.fd = some d.opening
  once : (closed s).Nodup
  heldPast : ∀ a d, s.Holds a d → d.opening < s.opened
  closedPast : ∀ i ∈ closed s, i < s.opened
  cared : ∀ i < s.opened, i ∈ closed s ∨ ∃ a d, s.Holds a d ∧ d.opening = i

theorem inv_new : Inv .new where
  apart := nofun
  unclosed := nofun
  once := List.nodup_nil
  heldPast := nofun
  closedPast := nofun
  cared := fun _ hi => absurd hi (Nat.not_lt_zero _)

theorem fd_inj (hI : Inv s) {a b : ℕ} {d d' : Opened} (hd : s.Holds a d) (hd' : s.Holds b d')
    (hfd : d.fd = d'.fd) : a = b := by
  have htable : some d.opening = some d'.opening := by
    rw [← (hI.unclosed a d hd).2, ← (hI.unclosed b d' hd').2, hfd]
  exact hI.apart a b d d' hd hd' (Option.some.inj htable)

theorem owned_of_inv (hI : Inv s) : Owned s where
  distinct := fun _ _ _ _ hd hd' hfd => fd_inj hI hd hd' hfd
  unclosed := by
    intro a d hd
    obtain ⟨hnot, htable⟩ := hI.unclosed a d hd
    exact ⟨fun hmem => hnot (List.mem_map_of_mem hmem), htable⟩
  once := hI.once
  all := by
    intro hnone i hi
    rcases hI.cared i hi with hmem | ⟨a, d, hd, -⟩
    · exact List.count_eq_one_of_mem hI.once hmem
    · exact absurd (hd.symm.trans (hnone a)) (Option.some_ne_none _)

/-! ### Who holds what after an operation -/

theorem holds_put {socket : Option Socket} {b : ℕ} :
    (s.put addr socket).Holds b d ↔
      b = addr ∧ socket = some ⟨some d⟩ ∨ b ≠ addr ∧ s.Holds b d := by
  unfold Holds put
  rcases eq_or_ne b addr with rfl | hne
  · simp
  · simp [hne]

/-- What two sockets hold is exchanged, and nothing else happens. -/
theorem inv_swap (hI : Inv s) (addr other : ℕ) (htable : s'.table = s.table) (hopened : s'.opened = s.opened)
    (hcloses : s'.closes = s.closes)
    (h : ∀ b d, s'.Holds b d ↔ s.Holds (Equiv.swap addr other b) d) : Inv s' := by
  have hclosed : closed s' = closed s := congrArg (List.map Opened.opening) hcloses
  constructor
  · intro a b d d' hd hd' heq
    exact (Equiv.swap addr other).injective
      (hI.apart _ _ d d' ((h a d).mp hd) ((h b d').mp hd') heq)
  · intro a d hd
    rw [hclosed, htable]
    exact hI.unclosed _ d ((h a d).mp hd)
  · rw [hclosed]
    exact hI.once
  · intro a d hd
    rw [hopened]
    exact hI.heldPast _ d ((h a d).mp hd)
  · rw [hclosed, hopened]
    exact hI.closedPast
  · intro i hi
    rw [hopened] at hi
    rw [hclosed]
    refine (hI.cared i hi).imp_right ?_
    rintro ⟨a, d, hd, heq⟩
    refine ⟨Equiv.swap addr other a, d, (h _ d).mpr ?_, heq⟩
    rw [Equiv.swap_apply_self]
    exact hd

/-- A socket that holds nothing is put where there is none that holds anything. -/
theorem inv_put (hI : Inv s) {socket : Option Socket} (hbefore : ∀ d, ¬ s.Holds addr d)
    (hafter : ∀ d, socket ≠ some ⟨some d⟩) : Inv (s.put addr socket) := by
  refine inv_swap hI addr addr rfl rfl rfl fun b d => ?_
  rw [holds_put, Equiv.swap_self, Equiv.refl_apply]
  constructor
  · rintro (⟨-, heq⟩ | ⟨-, hd⟩)
    · exact absurd heq (hafter d)
    · exact hd
  · intro hd
    refine .inr ⟨?_, hd⟩
    rintro rfl
    exact hbefore d hd

theorem inv_openFor (hI : Inv s) (haddr : ∀ d, ¬ s.Holds addr d) (hfree : s.table fd = none) :
    Inv (s.openFor addr fd) := by
  have hholds : ∀ b d, (s.openFor addr fd).Holds b d ↔
      b = addr ∧ d = ⟨fd, s.opened⟩ ∨ b ≠ addr ∧ s.Holds b d := by
    intro b d
    unfold openFor
    rw [holds_put]
    refine or_congr_left (and_congr_right fun _ => ?_)
    simp [eq_comm]
  have hnew : s.opened ∉ closed s := fun hmem => Nat.lt_irrefl _ (hI.closedPast _ hmem)
  constructor
  · intro a b d d' hd hd' heq
    rcases (hholds a d).mp hd with ⟨ha, rfl⟩ | ⟨-, hold⟩
    · rcases (hholds b d').mp hd' with ⟨hb, -⟩ | ⟨-, hold'⟩
      · exact ha.trans hb.symm
      · exact absurd heq (Nat.ne_of_gt (hI.heldPast b d' hold'))
    · rcases (hholds b d').mp hd' with ⟨-, rfl⟩ | ⟨-, hold'⟩
      · exact absurd heq (Nat.ne_of_lt (hI.heldPast a d hold))
      · exact hI.apart a b d d' hold hold' heq
  · intro a d hd
    rcases (hholds a d).mp hd with ⟨-, rfl⟩ | ⟨-, hd⟩
    · exact ⟨hnew, Function.update_self fd _ _⟩
    · obtain ⟨hnot, htable⟩ := hI.unclosed a d hd
      have hne : d.fd ≠ fd := by
        intro heq
        rw [heq, hfree] at htable
        cases htable
      exact ⟨hnot, (Function.update_of_ne hne _ _).trans htable⟩
  · exact hI.once
  · intro a d hd
    rcases (hholds a d).mp hd with ⟨-, rfl⟩ | ⟨-, hd⟩
    · exact Nat.lt_succ_self _
    · exact Nat.lt_succ_of_lt (hI.heldPast a d hd)
  · exact fun i hi => Nat.lt_succ_of_lt (hI.closedPast i hi)
  · intro i hi
    rcases Nat.lt_succ_iff_lt_or_eq.mp hi with hlt | rfl
    · refine (hI.cared i hlt).imp_right ?_
      rintro ⟨a, d, hd, heq⟩
      refine ⟨a, d, (hholds a d).mpr (.inr ⟨?_, hd⟩), heq⟩
      rintro rfl
      exact haddr d hd
    · exact .inr ⟨addr, _, (hholds _ _).mpr (.inl ⟨rfl, rfl⟩), rfl⟩

/-- The socket that holds a descriptor closes it and is gone. -/
theorem inv_close (hI : Inv s) (hheld : s.Holds addr d) : Inv ((s.close d).put addr none) := by
  have hholds : ∀ b d', ((s.close d).put addr none).Holds b d' ↔ b ≠ addr ∧ s.Holds b d' := by
    intro b d'
    rw [holds_put]
    simp only [reduceCtorEq, and_false, false_or]
    exact Iff.rfl
  have hclosed : closed ((s.close d).put addr none) = closed s ++ [d.opening] := by
    simp [closed, put, close]
  obtain ⟨hnot, -⟩ := hI.unclosed addr d hheld
  constructor
  · intro a b e e' he he' heq
    exact hI.apart a b e e' ((hholds a e).mp he).2 ((hholds b e').mp he').2 heq
  · intro a e he
    obtain ⟨hne, he⟩ := (hholds a e).mp he
    obtain ⟨hnote, htable⟩ := hI.unclosed a e he
    rw [hclosed, List.mem_append, List.mem_singleton]
    refine ⟨?_, ?_⟩
    · rintro (hmem | heq)
      · exact hnote hmem
      · exact hne (hI.apart a addr e d he hheld heq)
    · have hfd : e.fd ≠ d.fd := fun heq => hne (fd_inj hI he hheld heq)
      exact (Function.update_of_ne hfd _ _).trans htable
  · rw [hclosed]
    refine List.nodup_append.mpr ⟨hI.once, List.nodup_singleton _, ?_⟩
    rintro i hi _ hmem rfl
    exact hnot (List.mem_singleton.mp hmem ▸ hi)
  · exact fun a e he => hI.heldPast a e ((hholds a e).mp he).2
  · rw [hclosed]
    intro i hi
    rcases List.mem_append.mp hi with hi | hi
    · exact hI.closedPast i hi
    · rw [List.mem_singleton.mp hi]
      exact hI.heldPast addr d hheld
  · intro i hi
    rw [hclosed, List.mem_append, List.mem_singleton]
    rcases hI.cared i hi with hmem | ⟨a, e, he, rfl⟩
    · exact .inl (.inl hmem)
    · rcases eq_or_ne a addr with rfl | hne
      · have heq : e = d := by
          have hsome := he.symm.trans hheld
          simpa using hsome
        exact .inl (.inr (congrArg Opened.opening heq))
      · exact .inr ⟨a, e, (hholds a e).mpr ⟨hne, he⟩, rfl⟩

/-! ### Steps -/

/-- What one socket holds goes to another one that holds nothing. -/
theorem inv_move (hI : Inv s) {that : Socket} (haddr : ∀ d, ¬ s.Holds addr d)
    (hother : s.sockets other = some that) :
    Inv ((s.put addr (some ⟨that.fd⟩)).put other (some ⟨none⟩)) := by
  have hthat : ∀ d, s.Holds other d ↔ that.fd = some d := by
    intro d
    obtain ⟨held⟩ := that
    unfold Holds
    rw [hother]
    simp
  refine inv_swap hI addr other rfl rfl rfl fun b d => ?_
  rw [holds_put, holds_put]
  rcases eq_or_ne b other with rfl | hne
  · rw [Equiv.swap_apply_right]
    exact iff_of_false (by simp) (haddr d)
  · rcases eq_or_ne b addr with rfl | hne'
    · rw [Equiv.swap_apply_left, hthat]
      simp [hne]
    · rw [Equiv.swap_apply_of_ne_of_ne hne' hne]
      simp [hne, hne']

/-- A socket that holds nothing is assigned to, so nothing is closed. -/
theorem inv_moveAssign (hI : Inv s) {this that : Socket} (hthis : s.sockets addr = some this)
    (hthat : s.sockets other = some that) (hnone : this.fd = none) :
    Inv (((s.closeHeld this).put addr (some ⟨that.fd⟩)).put other (some ⟨this.fd⟩)) := by
  have hclose : s.closeHeld this = s := by rw [closeHeld, hnone]
  have hholds : ∀ d, ¬ s.Holds addr d := by
    intro d hd
    have hsome := Option.some.inj (hthis.symm.trans hd)
    rw [hsome] at hnone
    cases hnone
  rw [hclose, hnone]
  exact inv_move hI hholds hthat

theorem not_holds_of_none (h : s.sockets addr = none) : ∀ d, ¬ s.Holds addr d :=
  fun _ hd => Option.some_ne_none _ (hd.symm.trans h)

theorem inv_step (hI : Inv s) (op : Op) (hnot : NotOverwritten s op) : Inv (s.step op) := by
  cases op with
  | construct addr =>
    rw [step]
    split
    · next h => exact inv_put hI (not_holds_of_none h) (by simp)
    · exact hI
  | constructFrom addr fd =>
    rw [step]
    split
    · next h hfree => exact inv_openFor hI (not_holds_of_none h) hfree
    · exact hI
  | moveConstruct addr other =>
    rw [step]
    split
    · next that h hother => exact inv_move hI (not_holds_of_none h) hother
    · exact hI
  | moveAssign addr other =>
    rw [step]
    split
    · next this that hthis hthat =>
      refine inv_moveAssign hI hthis hthat ?_
      cases hfd : this.fd with
      | none => rfl
      | some d =>
        have hother := hnot d (by rw [Holds, hthis, ← hfd])
        exact absurd (hthat.symm.trans hother) (Option.some_ne_none _)
    · exact hI
  | createByProtocol addr fd =>
    rw [step]
    split
    · next h hfree =>
      refine inv_openFor hI (fun d hd => ?_) hfree
      cases h.symm.trans hd
    · exact hI
  | destroy addr =>
    rw [step]
    split
    · next this h =>
      obtain ⟨held⟩ := this
      cases held with
      | some d => exact inv_close hI h
      | none => exact inv_put hI (fun d hd => by cases h.symm.trans hd) (by simp)
    · exact hI

/-- The descriptor that was closed is held by the other socket. -/
theorem not_owned_of_overwritten {op : Op} (h : ¬ NotOverwritten s op) : ¬ Owned (s.step op) := by
  cases op with
  | moveAssign addr other =>
    simp only [NotOverwritten, not_forall] at h
    obtain ⟨d, hd, hother⟩ := h
    obtain ⟨that, hthat⟩ := Option.ne_none_iff_exists'.mp hother
    have hstep : s.step (.moveAssign addr other) =
        ((s.close d).put addr (some ⟨that.fd⟩)).put other (some ⟨some d⟩) := by
      rw [step]
      rw [hd, hthat]
      rfl
    intro howned
    rw [hstep] at howned
    refine (howned.unclosed other d (holds_put.mpr (.inl ⟨rfl, rfl⟩))).1 ?_
    exact List.mem_append_right _ List.mem_cons_self
  | construct addr => exact absurd True.intro h
  | constructFrom addr fd => exact absurd True.intro h
  | moveConstruct addr other => exact absurd True.intro h
  | createByProtocol addr fd => exact absurd True.intro h
  | destroy addr => exact absurd True.intro h

end OwnershipLemmas

open OwnershipLemmas

/-! ## 3. Runs -/

/-- Descriptors are owned in every state of a run exactly when no socket that holds one is assigned
to. -/
theorem sockets_own_iff (ops : List Op) :
    Always Process.step Owned .new ops ↔ Along Process.step NotOverwritten .new ops := by
  refine always_iff_along (I := Inv) (G := fun _ _ => True) ?_ ?_ inv_new
    (Along.of_forall (fun _ _ => True.intro) _ _)
  · exact fun s op hI _ hnot => inv_step hI op hnot
  · intro s op hI _
    constructor
    · intro howned
      by_contra hnot
      exact not_owned_of_overwritten hnot howned
    · exact fun hnot => owned_of_inv (inv_step hI op hnot)

/-- Socket 0 is assigned from socket 1 and closes number 3, which socket 1 keeps. A third socket gets
this number, and then socket 1 is destroyed. -/
def stolen : List Op :=
  [.constructFrom 0 3, .constructFrom 1 4, .moveAssign 0 1, .constructFrom 2 3, .destroy 1]

theorem stolen_descriptor :
    (run Process.step .new stolen).Holds 2 ⟨3, 2⟩ ∧
      (run Process.step .new stolen).table 3 = none ∧
      (run Process.step .new stolen).closes = [⟨3, 0⟩, ⟨3, 0⟩] ∧
      ¬ Always Process.step Owned .new stolen := by
  refine ⟨rfl, rfl, rfl, fun hall => ?_⟩
  have howned : Owned (run Process.step .new stolen) := hall.2.2.2.2.1
  exact absurd howned.once (by decide)

end TurtleServer.Ownership
