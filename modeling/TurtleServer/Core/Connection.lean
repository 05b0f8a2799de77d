import TurtleServer.Core.Basic
import TurtleServer.Lib.Frames

/-!
# Buffers and connections (`core/buffer.cpp`, `core/connection.cpp`)

A connection reads from and writes to a socket whose other side is the environment: `incoming` holds
the results of the next calls of `recv` and `outgoing` those of `send`. When a script has run out,
`recv` answers `EAGAIN` (there is nothing more to read) and `send` takes all it is given (the other side
goes on reading). `delivered` collects the bytes that `send` has accepted. A `send` to a peer that has
closed is one that fails with `other`; that the signal `SIGPIPE`, which nobody handles, ends the process
is left to those who say what becomes of it (`EdgeTrigger.Move.Delivers`).

* `recv_clean`: without end of file and errors, `Recv` appends what arrived to the read buffer.
* `send_clean`: when no `send` fails for good, `Send` delivers the whole write buffer.
-/

namespace TurtleServer

open Lib

/-- The values of `errno` that `Connection` tells apart. -/
inductive Errno
  | eintr
  | eagain
  | ewouldblock
  | other
deriving DecidableEq, Repr

/-- The result of a call of `recv`. Zero bytes are the end of the file. -/
inductive RecvResult
  | received (chunk : Bytes)
  | failed (errno : Errno)
deriving DecidableEq, Repr

/-- The result of a call of `send`: the number of bytes it would take, or an error. -/
inductive SendResult
  | accepted (count : ℕ+)
  | failed (errno : Errno)
deriving DecidableEq, Repr

/-- A socket, as its two scripts and what has gone out through it. -/
structure Socket where
  incoming : List RecvResult
  outgoing : List SendResult
  delivered : Bytes
deriving DecidableEq, Repr

/-! ## A network that does not fail -/

/-- Bytes or an interrupt: neither the end of the file nor an error. -/
def RecvResult.Clean : RecvResult → Prop
  | .received chunk => chunk ≠ []
  | .failed errno => errno = .eintr

instance : DecidablePred RecvResult.Clean
  | .received chunk => inferInstanceAs (Decidable (chunk ≠ []))
  | .failed errno => inferInstanceAs (Decidable (errno = .eintr))

/-- The bytes that come with a result. -/
def RecvResult.chunk : RecvResult → Bytes
  | .received chunk => chunk
  | .failed _ => []

/-- The bytes of a script of results. -/
def received (incoming : List RecvResult) : Bytes := incoming.flatMap RecvResult.chunk

/-- No `send` fails for good. -/
def SendResult.Clean : SendResult → Prop
  | .accepted _ => True
  | .failed errno => errno ≠ .other

instance : DecidablePred SendResult.Clean
  | .accepted _ => inferInstanceAs (Decidable True)
  | .failed errno => inferInstanceAs (Decidable (errno ≠ .other))

/-- The class `Buffer`. -/
structure Buffer where
  buf : Bytes
deriving DecidableEq, Repr

namespace Buffer

/-- `Append`. -/
def append (b : Buffer) (newData : Bytes) : Buffer := ⟨b.buf ++ newData⟩

/-- `FindAndPopTill`: the content up to and including the first `target`, and the buffer without
it. -/
def findAndPopTill (b : Buffer) (target : Bytes) : Option (Bytes × Buffer) :=
  (cut target b.buf).map fun (before, after) => (before ++ target, ⟨after⟩)

/-- `Clear`. -/
def clear (_ : Buffer) : Buffer := ⟨[]⟩

end Buffer

/-- The class `Connection`, without its callback and event masks. -/
structure Connection where
  socket : Socket
  readBuffer : Buffer
  writeBuffer : Buffer
deriving DecidableEq, Repr

namespace Connection

/-- A connection just accepted. -/
def fresh : Connection := ⟨⟨[], [], []⟩, ⟨[]⟩, ⟨[]⟩⟩

/-- `FindAndPopTill`. -/
def findAndPopTill (c : Connection) (target : Bytes) : Option (Bytes × Connection) :=
  (c.readBuffer.findAndPopTill target).map fun (found, readBuffer) => (found, { c with readBuffer })

/-- `WriteToReadBuffer`. -/
def writeToReadBuffer (c : Connection) (buf : Bytes) : Connection :=
  { c with readBuffer := c.readBuffer.append buf }

/-- `WriteToWriteBuffer`. -/
def writeToWriteBuffer (c : Connection) (buf : Bytes) : Connection :=
  { c with writeBuffer := c.writeBuffer.append buf }

/-- `ClearWriteBuffer`. -/
def clearWriteBuffer (c : Connection) : Connection := { c with writeBuffer := c.writeBuffer.clear }

/-- The loop of `Recv`, over the results of `recv`: how much was read, whether the client has exited,
and the connection after. -/
def recvLoop : List RecvResult → ℕ → Connection → ℕ × Bool × Connection
  | [], read, c => (read, false, { c with socket := { c.socket with incoming := [] } })
  | .received chunk :: incoming, read, c =>
    if 0 < chunk.length then recvLoop incoming (read + chunk.length) (c.writeToReadBuffer chunk)
    else (read, true, { c with socket := { c.socket with incoming } })
  | .failed .eintr :: incoming, read, c => recvLoop incoming read c
  | .failed .eagain :: incoming, read, c =>
    (read, false, { c with socket := { c.socket with incoming } })
  | .failed .ewouldblock :: incoming, read, c =>
    (read, false, { c with socket := { c.socket with incoming } })
  | .failed .other :: incoming, read, c =>
    (read, true, { c with socket := { c.socket with incoming } })

/-- `Recv`. -/
def recv (c : Connection) : ℕ × Bool × Connection := recvLoop c.socket.incoming 0 c

/-- The loop of `Send` over the results of `send`, with the bytes still to write: the bytes that went
out, and the results left. After an error other than the three it gives up. -/
def sendLoop : List SendResult → Bytes → Bytes × List SendResult
  | outgoing, [] => ([], outgoing)
  | [], toWrite => (toWrite, [])
  | .accepted count :: outgoing, toWrite =>
    let (sent, outgoing) := sendLoop outgoing (toWrite.drop count)
    (toWrite.take count ++ sent, outgoing)
  | .failed .other :: outgoing, _ => ([], outgoing)
  | .failed _ :: outgoing, toWrite => sendLoop outgoing toWrite

/-- `Send`. -/
def send (c : Connection) : Connection :=
  let (sent, outgoing) := sendLoop c.socket.outgoing c.writeBuffer.buf
  clearWriteBuffer
    { c with socket := { c.socket with outgoing, delivered := c.socket.delivered ++ sent } }

/-- `Recv` touches the read buffer only. -/
theorem recvLoop_frame (incoming : List RecvResult) (read : ℕ) (c : Connection) :
    (recvLoop incoming read c).2.2.writeBuffer = c.writeBuffer ∧
      (recvLoop incoming read c).2.2.socket.outgoing = c.socket.outgoing ∧
      (recvLoop incoming read c).2.2.socket.delivered = c.socket.delivered := by
  induction incoming generalizing read c with
  | nil => exact ⟨rfl, rfl, rfl⟩
  | cons r incoming ih =>
    cases r with
    | received chunk =>
      rw [recvLoop]
      split
      · exact ih (read + chunk.length) (c.writeToReadBuffer chunk)
      · exact ⟨rfl, rfl, rfl⟩
    | failed errno =>
      cases errno with
      | eintr => exact ih read c
      | eagain => exact ⟨rfl, rfl, rfl⟩
      | ewouldblock => exact ⟨rfl, rfl, rfl⟩
      | other => exact ⟨rfl, rfl, rfl⟩

theorem recvLoop_clean {incoming : List RecvResult} (h : ∀ r ∈ incoming, r.Clean) (read : ℕ)
    (c : Connection) :
    recvLoop incoming read c = (read + (received incoming).length, false,
      { c.writeToReadBuffer (received incoming) with socket := { c.socket with incoming := [] } }) := by
  induction incoming generalizing read c with
  | nil => simp [recvLoop, received, writeToReadBuffer, Buffer.append]
  | cons r incoming ih =>
    obtain ⟨hr, hrest⟩ := List.forall_mem_cons.mp h
    cases r with
    | received chunk =>
      rw [recvLoop, if_pos (List.length_pos_of_ne_nil hr), ih hrest]
      simp [received, RecvResult.chunk, writeToReadBuffer, Buffer.append, Nat.add_assoc]
    | failed errno =>
      have herrno : errno = .eintr := hr
      subst herrno
      rw [recvLoop, ih hrest]
      simp [received, RecvResult.chunk]

/-- The end of the file is reported, whatever came before it in the same call. -/
theorem recvLoop_eof {chunks : List RecvResult} (h : ∀ r ∈ chunks, r.Clean)
    (rest : List RecvResult) (read : ℕ) (c : Connection) :
    (recvLoop (chunks ++ .received [] :: rest) read c).2.1 = true := by
  induction chunks generalizing read c with
  | nil => rfl
  | cons r chunks ih =>
    obtain ⟨hr, hrest⟩ := List.forall_mem_cons.mp h
    cases r with
    | received chunk =>
      rw [List.cons_append, recvLoop, if_pos (List.length_pos_of_ne_nil hr)]
      exact ih hrest _ _
    | failed errno =>
      have herrno : errno = .eintr := hr
      subst herrno
      exact ih hrest _ _

theorem recv_clean {c : Connection} (h : ∀ r ∈ c.socket.incoming, r.Clean) :
    c.recv = ((received c.socket.incoming).length, false,
      { c.writeToReadBuffer (received c.socket.incoming) with
        socket := { c.socket with incoming := [] } }) := by
  rw [recv, recvLoop_clean h, Nat.zero_add]

theorem sendLoop_clean {outgoing : List SendResult} (h : ∀ r ∈ outgoing, r.Clean) (toWrite : Bytes) :
    ∃ outgoing', sendLoop outgoing toWrite = (toWrite, outgoing') ∧ ∀ r ∈ outgoing', r.Clean := by
  induction outgoing generalizing toWrite with
  | nil =>
    cases toWrite with
    | nil => exact ⟨[], rfl, h⟩
    | cons b toWrite => exact ⟨[], rfl, h⟩
  | cons r outgoing ih =>
    obtain ⟨hr, hrest⟩ := List.forall_mem_cons.mp h
    cases toWrite with
    | nil => exact ⟨r :: outgoing, rfl, h⟩
    | cons b toWrite =>
      cases r with
      | accepted count =>
        obtain ⟨outgoing', hloop, hclean⟩ := ih hrest ((b :: toWrite).drop count)
        refine ⟨outgoing', ?_, hclean⟩
        rw [sendLoop, hloop]
        · exact Prod.ext (List.take_append_drop _ _) rfl
        · exact List.cons_ne_nil _ _
      | failed errno =>
        obtain ⟨outgoing', hloop, hclean⟩ := ih hrest (b :: toWrite)
        refine ⟨outgoing', ?_, hclean⟩
        cases errno with
        | other => exact absurd rfl hr
        | eintr => exact hloop
        | eagain => exact hloop
        | ewouldblock => exact hloop

theorem send_clean {c : Connection} (h : ∀ r ∈ c.socket.outgoing, r.Clean) :
    ∃ outgoing', (∀ r ∈ outgoing', r.Clean) ∧ c.send =
      { c with
        socket := { c.socket with
          outgoing := outgoing'
          delivered := c.socket.delivered ++ c.writeBuffer.buf }
        writeBuffer := ⟨[]⟩ } := by
  obtain ⟨outgoing', hloop, hclean⟩ := sendLoop_clean h c.writeBuffer.buf
  refine ⟨outgoing', hclean, ?_⟩
  rw [send, hloop]
  rfl

end Connection

end TurtleServer
