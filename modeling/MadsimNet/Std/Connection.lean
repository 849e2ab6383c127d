import MadsimNet.Std.Frame
import MadsimNet.Safety

/-!
# Std-mode endpoints and their TCP connections

tcp.rs binds every `Endpoint` to a TCP listener. `send_to_vectored` takes from `Inner.sender` the
channel of the sender task for the destination, and `get_or_connect` first opens a connection
there if there is none: the connecting side writes its own address as the first frame, and the
accepting side's acceptor task reads it in `setup_connection`, takes it as the peer's address and
registers its own sender task for that address. On each side of a connection a recver task reads
frames with `FramedRead`, takes the tag off each with `get_u64` and delivers the message, from the
peer it was given, to the endpoint's `Mailbox`; `recv_from` takes a message from there.

`StdNet` is every endpoint bound so far (`Node`) and every connection between them (`Conn`), each
direction of a connection a `Pipe`: the bytes on the wire and the reading side's codec state and
buffer. `StdNet.step` applies a `StdEvent`: `Endpoint::bind`, a `send_to_vectored` call, one turn
of the task reading a direction, or a call on a mailbox. The interleaving of these is arbitrary, and
a read may return any number of the bytes on the wire.

`Pipe.Carries` says what a direction still carries: its bytes decode, from the reader's state on,
to the handshake if it is unread and to the frame of each message written and not delivered. The
three things that happen to a direction keep it (`Carries.push`, `Carries.readMore`,
`Carries.frame_message` and `Carries.frame_handshake`), and under it no decode fails
(`Carries.decode_ne_error`). `StdInv` adds what holds of the endpoints: distinct addresses,
mailboxes that keep the invariant `Inv` of `Safety`, sender tables that name connections the
endpoint writes to the address, and mailboxes whose parked and accepted messages are, as a
multiset, those the connections have delivered to them. `StdInv.step` keeps it across every
admissible event, a turn of a reading task taking one lemma per case of `read`
(`StdInv.read_more`, `StdInv.read_handshake`, `StdInv.read_deliver`). `stdInv_run` and then
`std_run_safe` assemble it along every run: no task panics, every direction has delivered, in
order and from its writer's address, a prefix of what was written into it, every mailbox holds
exactly what was delivered to it, and what was written is exactly what the run's `send_to` calls
sent. `StdInv.drain` is the other half: reading a direction often enough leaves nothing written
into it undelivered, counted down by what one read does (`ReadProgress`). `recvFrom_spec` is
`recv_from`'s copy of a message into the caller's buffer.

Scope. Connections never fail or close, and endpoints are never dropped, so neither
`decode_eof` nor the `Weak::upgrade` that stops a task is reached. The acceptor task reads the
handshakes of its connections one at a time; the model lets them be read in any order, which only
adds interleavings. Address resolution (`lookup_host`) is the identity on `Addr`, and the address
text and its parsing are the parameters `text` and `parse`.
-/

set_option autoImplicit false
set_option relaxedAutoImplicit false

namespace MadsimNet

/-! ### Endpoints and connections -/

/-- Which way bytes go on a connection: `up` from the endpoint that connected to the one that
accepted, `down` back. -/
inductive Dir
  | up
  | down
  deriving DecidableEq, Repr

/-- One direction of a TCP connection: `wire`, the bytes the writing side's sender task has written
and the reading side has not read, and `st` and `buf`, the reading side's `LengthDelimitedCodec`
state and `FramedRead` buffer. Two ghosts follow the messages: `sent`, each message the sender
task has written, and `delivered`, how many of them the recver task has delivered. -/
structure Pipe where
  wire : List UInt8
  st : DecodeState
  buf : List UInt8
  sent : List (UInt64 × List (List UInt8))
  delivered : ℕ
  deriving DecidableEq, Repr

namespace Pipe

/-- A direction with `wire` written into it and nothing read. -/
def fresh (wire : List UInt8) : Pipe := ⟨wire, .head, [], [], 0⟩

/-- The sender task writing the message `m` as the bytes `bytes`. -/
def push (bytes : List UInt8) (m : UInt64 × List (List UInt8)) (p : Pipe) : Pipe :=
  { p with wire := p.wire ++ bytes, sent := p.sent ++ [m] }

/-- `FramedRead` after `decode` returned no frame with the state `st` and buffer `buf`: the socket
read appends the next `n` bytes of the wire to the buffer. -/
def readMore (st : DecodeState) (buf : List UInt8) (n : ℕ) (p : Pipe) : Pipe :=
  { p with st := st, buf := buf ++ p.wire.take n, wire := p.wire.drop n }

end Pipe

/-- A connection opened by `get_or_connect`: the endpoints that connected and accepted, as positions
in `StdNet.nodes`; the connecting side's own address `src`, which its handshake carries, and the
address `dst` it dialled, which its recver task has as `peer`; the accepting side's `peer`, read
from the handshake, `none` until the acceptor task has read it; and the two directions. -/
structure Conn (Addr : Type) where
  connector : ℕ
  acceptor : ℕ
  src : Addr
  dst : Addr
  peer : Option Addr
  up : Pipe
  down : Pipe
  deriving DecidableEq, Repr

/-- A bound tcp.rs `Endpoint`: its address, its `Mailbox` with the channels of its `recv` calls,
and `Inner.sender`, the connection direction the sender task for each peer address writes into,
as a list of entries looked up from the front. -/
structure Node (Addr : Type) where
  addr : Addr
  world : World Addr (List UInt8)
  sender : List (Addr × ℕ × Dir)
  deriving DecidableEq, Repr

/-- The endpoints bound so far and the connections between them. -/
structure StdNet (Addr : Type) where
  nodes : List (Node Addr)
  conns : List (Conn Addr)
  deriving DecidableEq, Repr

/-- What can happen in a std-mode run: `Endpoint::bind`; a `send_to_vectored` call on an endpoint,
named by its position, which returns once the sender task has written the message; one turn of
the task reading a direction of a connection, the socket read returning `n` more bytes if the codec
asks for them; and, on an endpoint's mailbox, the `Mailbox::recv` of a `recv_from` call or the drop
of a receiver. -/
inductive StdEvent (Addr : Type)
  | bind (addr : Addr)
  | sendTo (node : ℕ) (dst : Addr) (tag : UInt64) (bufs : List (List UInt8))
  | read (conn : ℕ) (dir : Dir) (n : ℕ)
  | recv (node : ℕ) (tag : UInt64)
  | drop (node : ℕ) (rx : RecvId)
  deriving DecidableEq, Repr

variable {Addr : Type}

namespace Conn

variable (conn : Conn Addr)

/-- Direction `d`. -/
def pipe : Dir → Pipe
  | .up => conn.up
  | .down => conn.down

/-- Direction `d` replaced. -/
def setPipe : Dir → Pipe → Conn Addr
  | .up, p => { conn with up := p }
  | .down, p => { conn with down := p }

/-- The endpoint whose sender task writes direction `d`. -/
def writer : Dir → ℕ
  | .up => conn.connector
  | .down => conn.acceptor

/-- The endpoint whose task reads direction `d`. -/
def reader : Dir → ℕ
  | .up => conn.acceptor
  | .down => conn.connector

/-- The address under which the writer of direction `d` registered its sender task. -/
def target : Dir → Option Addr
  | .up => some conn.dst
  | .down => conn.peer

/-- The `peer` of the task reading direction `d`; `none` while the acceptor has yet to read it. -/
def readerPeer : Dir → Option Addr
  | .up => conn.peer
  | .down => some conn.dst

@[simp] theorem pipe_setPipe (d : Dir) (p : Pipe) : (conn.setPipe d p).pipe d = p := by
  cases d <;> rfl

@[simp] theorem setPipe_pipe (d : Dir) : conn.setPipe d (conn.pipe d) = conn := by
  cases d <;> rfl

@[simp] theorem writer_setPipe (d d' : Dir) (p : Pipe) :
    (conn.setPipe d p).writer d' = conn.writer d' := by
  cases d <;> cases d' <;> rfl

@[simp] theorem reader_setPipe (d d' : Dir) (p : Pipe) :
    (conn.setPipe d p).reader d' = conn.reader d' := by
  cases d <;> cases d' <;> rfl

@[simp] theorem target_setPipe (d d' : Dir) (p : Pipe) :
    (conn.setPipe d p).target d' = conn.target d' := by
  cases d <;> cases d' <;> rfl

@[simp] theorem readerPeer_setPipe (d d' : Dir) (p : Pipe) :
    (conn.setPipe d p).readerPeer d' = conn.readerPeer d' := by
  cases d <;> cases d' <;> rfl

theorem pipe_setPipe_of_ne {d d' : Dir} (h : d ≠ d') (p : Pipe) :
    (conn.setPipe d p).pipe d' = conn.pipe d' := by
  cases d <;> cases d' <;> first | rfl | exact absurd rfl h

end Conn

/-- `recv_from(tag, buf)` once the receiver of its `Mailbox::recv` holds `msg`: the caller's buffer
with its first `len = buf.len().min(data.len())` bytes copied from the data, `len`, and the
sender's address. -/
def recvFrom (buf : List UInt8) (msg : Message Addr (List UInt8)) : List UInt8 × ℕ × Addr :=
  let len := min buf.length msg.data.length
  (msg.data.take len ++ buf.drop len, len, msg.fromAddr)

/-- `recv_from` writes nothing past the caller's buffer, and all of a message that fits. -/
theorem recvFrom_spec (buf : List UInt8) (msg : Message Addr (List UInt8)) :
    (recvFrom buf msg).1.length = buf.length ∧
      (recvFrom buf msg).1.take (recvFrom buf msg).2.1 = msg.data.take buf.length ∧
      (msg.data.length ≤ buf.length → (recvFrom buf msg).2.1 = msg.data.length) := by
  simp only [recvFrom, List.length_append, List.length_take, List.length_drop]
  refine ⟨by omega, ?_, fun h ↦ by omega⟩
  rw [List.take_append_of_le_length (by simp), List.take_take, List.take_eq_take]
  omega

/-! ### The steps -/

section Step

variable [DecidableEq Addr] (text : Addr → List UInt8) (parse : List UInt8 → Option Addr)
  (write : ℕ → List (List UInt8) → ℕ)

/-- `HashMap::insert(peer, entry)` on `Inner.sender`: the new entry replaces any entry for the
address. -/
def insertSender (sender : List (Addr × ℕ × Dir)) (peer : Addr) (entry : ℕ × Dir) :
    List (Addr × ℕ × Dir) :=
  (peer, entry) :: sender.filter (·.1 != peer)

theorem mem_insertSender {sender : List (Addr × ℕ × Dir)} {peer : Addr} {entry : ℕ × Dir}
    {x : Addr × ℕ × Dir} (h : x ∈ insertSender sender peer entry) : x = (peer, entry) ∨ x ∈ sender :=
  (List.mem_cons.1 h).imp id List.mem_of_mem_filter

namespace StdNet

/-- No endpoint and no connection. -/
def empty : StdNet Addr := ⟨[], []⟩

/-- `Endpoint::bind(addr)`: a new endpoint with an empty mailbox and no senders. Where an endpoint
has the address, `TcpListener::bind` fails and so does the call, changing nothing. -/
def bind (addr : Addr) (s : StdNet Addr) : StdNet Addr :=
  if s.nodes.any (·.addr == addr) then s
  else { s with nodes := s.nodes ++ [⟨addr, .empty, []⟩] }

/-- `get_or_connect(dst)` on endpoint `i`: the direction its sender task for `dst` writes into, or
else a new connection to the endpoint bound to `dst`, whose first bytes up are the handshake with
the address of `i`, its sender registered for `dst`. `none` where the code panics, at
`TcpStream::connect(addr).await.unwrap()` with no endpoint bound to `dst`, and on an endpoint that
does not exist. -/
def getOrConnect (i : ℕ) (dst : Addr) (s : StdNet Addr) : Option (StdNet Addr × ℕ × Dir) := do
  let node ← s.nodes[i]?
  match node.sender.lookup dst with
  | some p => pure (s, p)
  | none => do
    let j ← s.nodes.findIdx? (·.addr == dst)
    pure (⟨s.nodes.set i { node with sender := (dst, s.conns.length, .up) :: node.sender },
      s.conns ++ [⟨i, j, node.addr, dst, none, .fresh (handshake (text node.addr)), .fresh []⟩]⟩,
      s.conns.length, .up)

/-- `send_to_vectored(dst, tag, bufs)` on endpoint `i`: `get_or_connect(dst)`, then the sender task
writes the message into that direction (`sendMessage`) and completes `done`. -/
def sendTo (i : ℕ) (dst : Addr) (tag : UInt64) (bufs : List (List UInt8)) (s : StdNet Addr) :
    Option (StdNet Addr) := do
  let (s, c, d) ← s.getOrConnect text i dst
  let bytes ← sendMessage write tag bufs
  pure { s with conns :=
    (s.conns.modify (fun conn ↦ conn.setPipe d ((conn.pipe d).push bytes (tag, bufs))) c) }

/-- One turn of the task reading direction `d` of connection `c`. `decode` runs on the buffer. With
no frame, the socket read appends `n` more bytes of the wire. A frame read up before the handshake
is the peer's address, which the acceptor task's `setup_connection` parses, and the acceptor's
`Inner.sender` then maps it to this connection. Any other frame goes to the recver task, which
takes its tag with `get_u64` and delivers `RecvMsg { tag, data, from: peer }` to the reading
endpoint's mailbox. `none` where the code panics: a codec error (`frame.unwrap()`, or
`expect("failed to read peer address")`), an address that does not parse, or a frame shorter than
eight bytes; and on a connection that does not exist. -/
def read (c : ℕ) (d : Dir) (n : ℕ) (s : StdNet Addr) : Option (StdNet Addr) := do
  let conn ← s.conns[c]?
  let p := conn.pipe d
  match decode p.st p.buf with
  | .error _ => none
  | .ok (none, st, buf) =>
    pure { s with conns := s.conns.set c (conn.setPipe d (p.readMore st buf n)) }
  | .ok (some frame, st, buf) =>
    match conn.readerPeer d with
    | none => do
      let peer ← parse frame
      let node ← s.nodes[conn.acceptor]?
      pure ⟨s.nodes.set conn.acceptor
          { node with sender := insertSender node.sender peer (c, .down) },
        s.conns.set c { conn.setPipe d { p with st := st, buf := buf } with peer := some peer }⟩
    | some peer => do
      let (tag, data) ← getU64 frame
      let node ← s.nodes[conn.reader d]?
      let world ← Mailbox.deliver ⟨tag, data, peer⟩ node.world
      pure ⟨s.nodes.set (conn.reader d) { node with world := world },
        s.conns.set c
          (conn.setPipe d { p with st := st, buf := buf, delivered := p.delivered + 1 })⟩

/-- A call on endpoint `i`'s mailbox. -/
def mailbox (i : ℕ) (e : Event Addr (List UInt8)) (s : StdNet Addr) : Option (StdNet Addr) := do
  let node ← s.nodes[i]?
  let world ← Mailbox.step node.world e
  pure { s with nodes := s.nodes.set i { node with world := world } }

/-- One event; `none` where the code panics. -/
def step (s : StdNet Addr) : StdEvent Addr → Option (StdNet Addr)
  | .bind addr => some (s.bind addr)
  | .sendTo i dst tag bufs => s.sendTo text write i dst tag bufs
  | .read c d n => s.read parse c d n
  | .recv i tag => s.mailbox i (.recv tag)
  | .drop i rx => s.mailbox i (.drop rx)

/-- The events of a run applied in order from no endpoint. -/
def run (evs : List (StdEvent Addr)) : Option (StdNet Addr) :=
  evs.foldlM (step text parse write) empty

end StdNet

end Step

/-! ### What a direction carries -/

/-- What direction `p` still carries, `hs` being the frames ahead of its messages (the handshake,
up, until the acceptor reads it): no more messages have been delivered than written, and its
bytes, from the reader's codec state and buffer to the end of the wire, decode to those frames and
then to the frame of every message written and not delivered, in order, with nothing left over. -/
structure Pipe.Carries (p : Pipe) (hs : List (List UInt8)) : Prop where
  delivered_le : p.delivered ≤ p.sent.length
  decodes : decodeAll p.st (p.buf ++ p.wire) =
    (hs ++ (p.sent.drop p.delivered).map messageFrame, .ok (.head, []))

theorem decodeAll_encodeFrame {frame : List UInt8} (h : frame.length ≤ maxFrameLength) :
    decodeAll .head (encodeFrame frame) = ([frame], .ok (.head, [])) := by
  simpa using decodeAll_encodeFrames [frame] (by simpa using h)

namespace Pipe.Carries

variable {p : Pipe} {hs : List (List UInt8)}

/-- A new connection's direction up carries its handshake. -/
theorem fresh_handshake {x : List UInt8} (hx : x.length ≤ maxFrameLength) :
    (Pipe.fresh (handshake x)).Carries [x] :=
  ⟨le_rfl, by simpa [Pipe.fresh, handshake_eq_encodeFrame] using decodeAll_encodeFrame hx⟩

/-- A new connection's direction down carries nothing. -/
theorem fresh_nil : (Pipe.fresh []).Carries [] :=
  ⟨le_rfl, decodeAll_of_none rfl⟩

/-- Writing a message whose frame fits adds its frame to what the direction carries. -/
theorem push (h : p.Carries hs) (m : UInt64 × List (List UInt8))
    (hm : (messageFrame m).length ≤ maxFrameLength) :
    (p.push (encodeFrame (messageFrame m)) m).Carries hs := by
  refine ⟨by simp only [Pipe.push, List.length_append]; have := h.delivered_le; omega, ?_⟩
  show decodeAll p.st (p.buf ++ (p.wire ++ _)) =
    (hs ++ ((p.sent ++ [m]).drop p.delivered).map messageFrame, _)
  rw [← List.append_assoc, decodeAll_append, h.decodes]
  dsimp only
  rw [List.nil_append, decodeAll_encodeFrame hm, List.drop_append_of_le_length h.delivered_le]
  simp

/-- A socket read changes where the bytes are, not what they decode to. -/
theorem readMore (h : p.Carries hs) {st : DecodeState} {buf : List UInt8}
    (hd : decode p.st p.buf = .ok (none, st, buf)) (n : ℕ) :
    (p.readMore st buf n).Carries hs := by
  refine ⟨h.delivered_le, ?_⟩
  show decodeAll st ((buf ++ p.wire.take n) ++ p.wire.drop n) = _
  rw [List.append_assoc, List.take_append_drop,
    ← decodeAll_eq_of_decode_eq (decode_append_of_none p.wire hd)]
  exact h.decodes

/-- No decode fails on a direction that carries whole frames. -/
theorem decode_ne_error (h : p.Carries hs) (e : String) : decode p.st p.buf ≠ .error e := by
  intro hd
  have hall := h.decodes
  rw [decodeAll_of_error (decode_append_of_error p.wire hd)] at hall
  exact nomatch congrArg Prod.snd hall

/-- With nothing on the wire, a decode that finds no frame means nothing is left to carry. -/
theorem eq_nil_of_none (h : p.Carries hs) {st : DecodeState} {buf : List UInt8}
    (hd : decode p.st p.buf = .ok (none, st, buf)) (hw : p.wire = []) :
    hs = [] ∧ p.sent.length ≤ p.delivered := by
  have hall := h.decodes
  rw [hw, List.append_nil, decodeAll_of_none hd] at hall
  simpa using (congrArg Prod.fst hall).symm

/-- A frame read is the first of those the direction carries. -/
theorem frame (h : p.Carries hs) {frame : List UInt8} {st : DecodeState} {buf : List UInt8}
    (hd : decode p.st p.buf = .ok (some frame, st, buf)) :
    ∃ rest, hs ++ (p.sent.drop p.delivered).map messageFrame = frame :: rest ∧
      decodeAll st (buf ++ p.wire) = (rest, .ok (.head, [])) := by
  have hall := h.decodes
  rw [decodeAll_of_frame (decode_append_of_frame p.wire hd)] at hall
  have hstop : (decodeAll st (buf ++ p.wire)).2 = .ok (.head, []) := congrArg Prod.snd hall
  exact ⟨_, (congrArg Prod.fst hall).symm, by rw [← hstop]⟩

/-- A frame read before the handshake is the handshake, and then only messages are left. -/
theorem frame_handshake {x : List UInt8} (h : p.Carries [x]) {frame : List UInt8}
    {st : DecodeState} {buf : List UInt8} (hd : decode p.st p.buf = .ok (some frame, st, buf)) :
    frame = x ∧ ({ p with st := st, buf := buf } : Pipe).Carries [] := by
  obtain ⟨rest, hcons, hrest⟩ := h.frame hd
  obtain ⟨rfl, rfl⟩ := List.cons.inj hcons
  exact ⟨rfl, h.delivered_le, hrest⟩

/-- A frame read after the handshake is the frame of the next message written, which is then
delivered. -/
theorem frame_message (h : p.Carries []) {frame : List UInt8} {st : DecodeState}
    {buf : List UInt8} (hd : decode p.st p.buf = .ok (some frame, st, buf)) :
    ∃ m, p.sent[p.delivered]? = some m ∧ frame = messageFrame m ∧
      ({ p with st := st, buf := buf, delivered := p.delivered + 1 } : Pipe).Carries [] := by
  obtain ⟨rest, hcons, hrest⟩ := h.frame hd
  obtain ⟨m, tail, hdrop, rfl, rfl⟩ := List.map_eq_cons_iff.1 hcons
  have hlt : p.delivered < p.sent.length := by
    by_contra hle
    rw [List.drop_eq_nil_of_le (Nat.not_lt.1 hle)] at hdrop
    cases hdrop
  obtain ⟨hm, htail⟩ := List.cons.inj (hdrop.symm.trans (List.drop_eq_getElem_cons hlt))
  refine ⟨m, by rw [List.getElem?_eq_getElem hlt, hm], rfl, hlt, ?_⟩
  rw [htail] at hrest
  exact hrest

end Pipe.Carries

/-! ### Deliveries and writes -/

/-- A message as the recver task delivers it: the tag, the rest of the frame, and the task's
`peer`. -/
def recvMsg (peer : Addr) (m : UInt64 × List (List UInt8)) : Message Addr (List UInt8) :=
  ⟨m.1, m.2.flatten, peer⟩

/-- The messages a direction has delivered, in order, as the reading task with `peer` built
them. -/
def Pipe.arrived (peer : Option Addr) (p : Pipe) : List (Message Addr (List UInt8)) :=
  match peer with
  | none => []
  | some a => (p.sent.take p.delivered).map (recvMsg a)

namespace Pipe

variable (p : Pipe) (peer : Option Addr)

theorem arrived_push {bytes : List UInt8} {m : UInt64 × List (List UInt8)}
    (h : p.delivered ≤ p.sent.length) : (p.push bytes m).arrived peer = p.arrived peer := by
  cases peer <;> simp [arrived, push, List.take_append_of_le_length h]

@[simp] theorem arrived_readMore (st : DecodeState) (buf : List UInt8) (n : ℕ) :
    (p.readMore st buf n).arrived peer = p.arrived peer := by
  cases peer <;> rfl

theorem arrived_deliver {m : UInt64 × List (List UInt8)} (hm : p.sent[p.delivered]? = some m)
    (st : DecodeState) (buf : List UInt8) (a : Addr) :
    ({ p with st := st, buf := buf, delivered := p.delivered + 1 } : Pipe).arrived (some a) =
      p.arrived (some a) ++ [recvMsg a m] := by
  simp [arrived, List.take_succ, hm]

end Pipe

namespace Conn

variable (conn : Conn Addr)

/-- The messages direction `d` has delivered, in order. -/
def arrived (d : Dir) : List (Message Addr (List UInt8)) :=
  (conn.pipe d).arrived (conn.readerPeer d)

/-- What the connection has delivered to endpoint `i`. -/
def arrivedAt (i : ℕ) : List (Message Addr (List UInt8)) :=
  (if conn.reader .up = i then conn.arrived .up else []) ++
    (if conn.reader .down = i then conn.arrived .down else [])

/-- The messages written into direction `d`, each with the endpoint that wrote it and the address
it was sent to. -/
def written (d : Dir) : List (ℕ × Addr × UInt64 × List (List UInt8)) :=
  match conn.target d with
  | none => []
  | some a => (conn.pipe d).sent.map fun m ↦ (conn.writer d, a, m.1, m.2)

/-- A direction replaced by one that has delivered `extra` more changes what the connection
delivered to its reader by `extra`. -/
theorem arrivedAt_setPipe {d : Dir} {p : Pipe} {extra : List (Message Addr (List UInt8))}
    (h : p.arrived (conn.readerPeer d) = conn.arrived d ++ extra) (i : ℕ) :
    ((conn.setPipe d p).arrivedAt i).Perm
      (conn.arrivedAt i ++ if conn.reader d = i then extra else []) := by
  cases d with
  | up =>
    have h' : (conn.setPipe .up p).arrived .up = conn.arrived .up ++ extra := h
    simp only [arrivedAt, reader_setPipe, h',
      show (conn.setPipe .up p).arrived .down = conn.arrived .down from rfl]
    split_ifs <;> simp [List.perm_append_comm.append_left]
  | down =>
    have h' : (conn.setPipe .down p).arrived .down = conn.arrived .down ++ extra := h
    simp only [arrivedAt, reader_setPipe, h',
      show (conn.setPipe .down p).arrived .up = conn.arrived .up from rfl]
    split_ifs <;> simp

theorem arrivedAt_setPipe_of_eq {d : Dir} {p : Pipe}
    (h : p.arrived (conn.readerPeer d) = conn.arrived d) (i : ℕ) :
    (conn.setPipe d p).arrivedAt i = conn.arrivedAt i := by
  have h' : (conn.setPipe d p).arrived d = conn.arrived d := by cases d <;> exact h
  cases d <;> simp only [arrivedAt, reader_setPipe, h'] <;> rfl

end Conn

namespace StdNet

/-- Every message the connections have delivered to endpoint `i`. -/
def inbox (s : StdNet Addr) (i : ℕ) : List (Message Addr (List UInt8)) :=
  s.conns.flatMap (·.arrivedAt i)

/-- Every message written into a connection, with the endpoint that wrote it and the address it
was sent to. -/
def written (s : StdNet Addr) : List (ℕ × Addr × UInt64 × List (List UInt8)) :=
  s.conns.flatMap fun conn ↦ conn.written .up ++ conn.written .down

end StdNet

/-- The `send_to` calls of a run: the endpoint, the destination, the tag and the slices. -/
def sendCalls (evs : List (StdEvent Addr)) : List (ℕ × Addr × UInt64 × List (List UInt8)) :=
  evs.filterMap fun
    | .sendTo i dst tag bufs => some (i, dst, tag, bufs)
    | _ => none

theorem sendCalls_append (evs evs' : List (StdEvent Addr)) :
    sendCalls (evs ++ evs') = sendCalls evs ++ sendCalls evs' :=
  List.filterMap_append _ _ _

@[simp] theorem sendCalls_nil : sendCalls ([] : List (StdEvent Addr)) = [] := rfl

@[simp] theorem sendCalls_sendTo (i : ℕ) (dst : Addr) (tag : UInt64) (bufs : List (List UInt8)) :
    sendCalls [StdEvent.sendTo i dst tag bufs] = [(i, dst, tag, bufs)] := rfl

@[simp] theorem sendCalls_bind (addr : Addr) : sendCalls [StdEvent.bind addr] = [] := rfl

@[simp] theorem sendCalls_read (c : ℕ) (d : Dir) (n : ℕ) :
    sendCalls [(StdEvent.read c d n : StdEvent Addr)] = [] := rfl

@[simp] theorem sendCalls_recv (i : ℕ) (tag : UInt64) :
    sendCalls [(StdEvent.recv i tag : StdEvent Addr)] = [] := rfl

@[simp] theorem sendCalls_drop (i : ℕ) (rx : RecvId) :
    sendCalls [(StdEvent.drop i rx : StdEvent Addr)] = [] := rfl

/-! ### The invariant -/

section Inv

variable (text : Addr → List UInt8)

/-- The frames direction `d` carries ahead of its messages: up, the handshake with the connecting
side's address until the acceptor has read it. -/
def Conn.ahead (conn : Conn Addr) : Dir → List (List UInt8)
  | .up => if conn.peer.isNone then [text conn.src] else []
  | .down => []

@[simp] theorem Conn.ahead_setPipe (conn : Conn Addr) (d d' : Dir) (p : Pipe) :
    (conn.setPipe d p).ahead text d' = conn.ahead text d' := by
  cases d <;> cases d' <;> rfl

/-- How many frames direction `d` still carries: the handshake ahead, if unread, and each message
written and not delivered. -/
def Conn.pending (conn : Conn Addr) (d : Dir) : ℕ :=
  (conn.ahead text d).length + ((conn.pipe d).sent.length - (conn.pipe d).delivered)

/-- What one turn of the task reading direction `d` did to the connection, `conn` before and
`conn'` after: nothing was written into it; and either the codec had no frame and the socket read
took up to `n` bytes of the wire, which held bytes unless nothing was left to carry, or a frame
was taken and one fewer is left. -/
def ReadProgress (n : ℕ) (d : Dir) (conn conn' : Conn Addr) : Prop :=
  (conn'.pipe d).sent = (conn.pipe d).sent ∧
    (((conn'.pipe d).wire = (conn.pipe d).wire.drop n ∧
        conn'.pending text d = conn.pending text d ∧
        ((conn.pipe d).wire ≠ [] ∨ conn.pending text d = 0)) ∨
      ((conn'.pipe d).wire = (conn.pipe d).wire ∧ conn'.pending text d + 1 = conn.pending text d))

/-- What holds of a connection, `addrs` being the endpoints' addresses: its ends are bound at `src`
and `dst`; the acceptor's `peer`, once read, is `src`, and until then nothing has been delivered
up or written down; and each direction carries its frames ahead and then its messages. -/
structure ConnOk (addrs : List Addr) (conn : Conn Addr) : Prop where
  src : addrs[conn.connector]? = some conn.src
  dst : addrs[conn.acceptor]? = some conn.dst
  peer : ∀ a ∈ conn.peer, a = conn.src
  unread : conn.peer = none → conn.up.delivered = 0 ∧ conn.down.sent = []
  carries : ∀ d, (conn.pipe d).Carries (conn.ahead text d)

/-- What holds of endpoint `i`: its mailbox keeps `Inv`; each entry of its sender table names a
direction of a connection that the endpoint writes and registered under the entry's address; and
its mailbox holds, parked or accepted by a channel, exactly what the connections have delivered to
it, as a multiset. -/
structure NodeOk (conns : List (Conn Addr)) (i : ℕ) (node : Node Addr) : Prop where
  mailbox : Inv node.world
  sender : ∀ a c d, (a, c, d) ∈ node.sender →
    ∃ conn, conns[c]? = some conn ∧ conn.writer d = i ∧ conn.target d = some a
  inbox : (node.world.mailbox.msgs ++ accepted node.world.receivers).Perm
    (conns.flatMap (·.arrivedAt i))

/-- The invariant of a std-mode network: endpoints have distinct addresses, and every connection
and every endpoint is as `ConnOk` and `NodeOk` say. -/
structure StdInv (s : StdNet Addr) : Prop where
  addrs : (s.nodes.map Node.addr).Nodup
  conns : ∀ conn ∈ s.conns, ConnOk text (s.nodes.map Node.addr) conn
  nodes : ∀ i node, s.nodes[i]? = some node → NodeOk s.conns i node

variable {text}

namespace ConnOk

variable {addrs : List Addr} {conn : Conn Addr}

theorem append (h : ConnOk text addrs conn) (more : List Addr) : ConnOk text (addrs ++ more) conn :=
  { h with
    src := by rw [List.getElem?_append_left (List.getElem?_eq_some_iff.1 h.src).1]; exact h.src
    dst := by rw [List.getElem?_append_left (List.getElem?_eq_some_iff.1 h.dst).1]; exact h.dst }

/-- A connection delivers nothing to an endpoint bound after it. -/
theorem arrivedAt_eq_nil (h : ConnOk text addrs conn) {i : ℕ} (hi : addrs.length ≤ i) :
    conn.arrivedAt i = [] := by
  have h₁ := (List.getElem?_eq_some_iff.1 h.src).1
  have h₂ := (List.getElem?_eq_some_iff.1 h.dst).1
  rw [Conn.arrivedAt, if_neg (by simp only [Conn.reader]; omega),
    if_neg (by simp only [Conn.reader]; omega)]
  rfl

/-- A direction replaced by one that carries the same frames ahead keeps `ConnOk`, if it neither
delivers up nor is written down before the handshake is read. -/
theorem setPipe (h : ConnOk text addrs conn) {d : Dir} {p : Pipe}
    (hcar : p.Carries (conn.ahead text d))
    (hsame : conn.peer = none →
      (conn.setPipe d p).up.delivered = conn.up.delivered ∧
        (conn.setPipe d p).down.sent = conn.down.sent) :
    ConnOk text addrs (conn.setPipe d p) := by
  have hfields : (conn.setPipe d p).src = conn.src ∧ (conn.setPipe d p).dst = conn.dst ∧
      (conn.setPipe d p).peer = conn.peer ∧ (conn.setPipe d p).connector = conn.connector ∧
      (conn.setPipe d p).acceptor = conn.acceptor := by
    cases d <;> exact ⟨rfl, rfl, rfl, rfl, rfl⟩
  obtain ⟨hsrc, hdst, hpeer, hcon, hacc⟩ := hfields
  refine ⟨hcon ▸ hsrc ▸ h.src, hacc ▸ hdst ▸ h.dst, hpeer ▸ hsrc ▸ h.peer,
    fun hn ↦ ?_, fun d' ↦ ?_⟩
  · obtain ⟨hup, hdown⟩ := hsame (hpeer ▸ hn)
    rw [hup, hdown]
    exact h.unread (hpeer ▸ hn)
  · rw [Conn.ahead_setPipe]
    by_cases hd : d = d'
    · subst hd
      simpa using hcar
    · rw [Conn.pipe_setPipe_of_ne _ hd]
      exact h.carries d'

/-- What a direction has delivered: in order, the first of the messages written into it, each from
the address of the endpoint that writes it; and a sender table can register it only under the
address of the endpoint that reads it. -/
theorem direction (h : ConnOk text addrs conn) (d : Dir) :
    ∃ a b, addrs[conn.writer d]? = some a ∧ addrs[conn.reader d]? = some b ∧
      (∀ b', conn.target d = some b' → b' = b) ∧
      (conn.pipe d).delivered ≤ (conn.pipe d).sent.length ∧
      conn.arrived d = ((conn.pipe d).sent.take (conn.pipe d).delivered).map (recvMsg a) := by
  cases d with
  | up =>
    refine ⟨conn.src, conn.dst, h.src, h.dst, fun _ hb ↦ (Option.some.inj hb).symm,
      (h.carries .up).delivered_le, ?_⟩
    cases hp : conn.peer with
    | none => simp [Conn.arrived, Conn.readerPeer, Conn.pipe, hp, Pipe.arrived, (h.unread hp).1]
    | some p => simp [Conn.arrived, Conn.readerPeer, Conn.pipe, hp, Pipe.arrived, h.peer p hp]
  | down =>
    exact ⟨conn.dst, conn.src, h.dst, h.src, h.peer, (h.carries .down).delivered_le, rfl⟩

end ConnOk

theorem map_addr_set {nodes : List (Node Addr)} {k : ℕ} {node node' : Node Addr}
    (hk : nodes[k]? = some node) (haddr : node'.addr = node.addr) :
    (nodes.set k node').map Node.addr = nodes.map Node.addr := by
  rw [List.map_set, haddr]
  exact set_of_getElem?_eq_some (by simp [hk])

theorem exists_node_of_addr {nodes : List (Node Addr)} {i : ℕ} {a : Addr}
    (h : (nodes.map Node.addr)[i]? = some a) :
    ∃ node, nodes[i]? = some node ∧ node.addr = a := by
  simpa only [List.getElem?_map, Option.map_eq_some'] using h

/-- `conn'` keeps the routes of `conn`: each direction a sender table can name keeps its writer
and its address. -/
def Conn.KeepsRoutes (conn conn' : Conn Addr) : Prop :=
  ∀ d a, conn.target d = some a → conn'.writer d = conn.writer d ∧ conn'.target d = some a

theorem Conn.keepsRoutes_setPipe (conn : Conn Addr) (d : Dir) (p : Pipe) :
    conn.KeepsRoutes (conn.setPipe d p) :=
  fun _ _ h ↦ by simp [h]

theorem routes_set {conns : List (Conn Addr)} {c : ℕ} {conn conn' : Conn Addr}
    (hc : conns[c]? = some conn) (hkeep : conn.KeepsRoutes conn') {i : ℕ} {a : Addr} {c₀ : ℕ}
    {d : Dir} (h : ∃ x, conns[c₀]? = some x ∧ x.writer d = i ∧ x.target d = some a) :
    ∃ x, (conns.set c conn')[c₀]? = some x ∧ x.writer d = i ∧ x.target d = some a := by
  obtain ⟨x, hx, hw, ht⟩ := h
  by_cases hc₀ : c = c₀
  · subst hc₀
    obtain rfl := Option.some.inj (hc.symm.trans hx)
    obtain ⟨hw', ht'⟩ := hkeep d a ht
    exact ⟨conn', List.getElem?_set_self (List.getElem?_eq_some_iff.1 hc).1, hw'.trans hw, ht'⟩
  · exact ⟨x, by rw [List.getElem?_set_ne hc₀]; exact hx, hw, ht⟩

theorem routes_append {conns : List (Conn Addr)} (new : Conn Addr) {i : ℕ} {a : Addr} {c₀ : ℕ}
    {d : Dir} (h : ∃ x, conns[c₀]? = some x ∧ x.writer d = i ∧ x.target d = some a) :
    ∃ x, (conns ++ [new])[c₀]? = some x ∧ x.writer d = i ∧ x.target d = some a := by
  obtain ⟨x, hx, hw, ht⟩ := h
  refine ⟨x, ?_, hw, ht⟩
  rw [List.getElem?_append_left (List.getElem?_eq_some_iff.1 hx).1]
  exact hx

variable {s : StdNet Addr} {c k : ℕ} {conn conn' : Conn Addr} {node node' : Node Addr}

/-- Replacing connection `c` and endpoint `k` keeps the invariant when the endpoint keeps its
address, the connection its routes and `ConnOk`, the endpoint's mailbox keeps `Inv` and gains, as
a multiset, exactly what the connection newly delivered to it (`extra`), and each new entry of its
sender table names a direction of the new connection that it writes. -/
theorem StdInv.update (hinv : StdInv text s) (hc : s.conns[c]? = some conn)
    (hk : s.nodes[k]? = some node) (haddr : node'.addr = node.addr)
    (hconn : ConnOk text (s.nodes.map Node.addr) conn') (hkeep : conn.KeepsRoutes conn')
    (extra : List (Message Addr (List UInt8)))
    (harrived : ∀ j, (conn'.arrivedAt j).Perm (conn.arrivedAt j ++ if k = j then extra else []))
    (hmailbox : Inv node'.world)
    (hheld : (node'.world.mailbox.msgs ++ accepted node'.world.receivers).Perm
      (node.world.mailbox.msgs ++ accepted node.world.receivers ++ extra))
    (hsender : ∀ a c₀ d, (a, c₀, d) ∈ node'.sender →
      (a, c₀, d) ∈ node.sender ∨
        (c₀ = c ∧ conn'.writer d = k ∧ conn'.target d = some a)) :
    StdInv text ⟨s.nodes.set k node', s.conns.set c conn'⟩ := by
  have hmap := map_addr_set hk haddr
  refine ⟨hmap ▸ hinv.addrs, fun x hx ↦ hmap ▸ ?_, fun j x hx ↦ ?_⟩
  · rcases List.mem_or_eq_of_mem_set hx with hx | rfl
    · exact hinv.conns x hx
    · exact hconn
  · rcases getElem?_set_eq_some hx with ⟨rfl, rfl⟩ | ⟨hj, hx⟩
    · have hok := hinv.nodes j node hk
      refine ⟨hmailbox, fun a c₀ d he ↦ ?_, hheld.trans ?_⟩
      · rcases hsender a c₀ d he with he | ⟨rfl, hw, ht⟩
        · exact routes_set hc hkeep (hok.sender a c₀ d he)
        · exact ⟨conn', List.getElem?_set_self (List.getElem?_eq_some_iff.1 hc).1, hw, ht⟩
      · exact (hok.inbox.append_right extra).trans
          (perm_flatMap_set hc (by simpa using harrived j)).symm
    · have hok := hinv.nodes j x hx
      have hj' : (conn'.arrivedAt j).Perm (conn.arrivedAt j ++ []) := by
        simpa [Ne.symm hj] using harrived j
      refine ⟨hok.mailbox, fun a c₀ d he ↦ routes_set hc hkeep (hok.sender a c₀ d he),
        hok.inbox.trans ?_⟩
      simpa using (perm_flatMap_set (f := (·.arrivedAt j)) hc hj').symm

/-- Replacing connection `c` alone keeps the invariant when it keeps its routes, `ConnOk` and what
it delivered. -/
theorem StdInv.updateConn (hinv : StdInv text s) (hc : s.conns[c]? = some conn)
    (hconn : ConnOk text (s.nodes.map Node.addr) conn') (hkeep : conn.KeepsRoutes conn')
    (harrived : ∀ j, conn'.arrivedAt j = conn.arrivedAt j) :
    StdInv text { s with conns := s.conns.set c conn' } := by
  obtain ⟨node, hk, -⟩ := exists_node_of_addr (hinv.conns conn (List.getElem?_mem hc)).src
  have h := hinv.update hc hk rfl hconn hkeep [] (fun j ↦ by simp [harrived])
    (hinv.nodes _ _ hk).mailbox (by simp) (fun _ _ _ he ↦ .inl he)
  rwa [set_of_getElem?_eq_some hk] at h

/-- Replacing endpoint `k` alone keeps the invariant when it keeps its address and sender table,
and its mailbox keeps `Inv` and what it holds. -/
theorem StdInv.updateNode (hinv : StdInv text s) (hk : s.nodes[k]? = some node)
    (haddr : node'.addr = node.addr) (hsender : node'.sender = node.sender)
    (hmailbox : Inv node'.world)
    (hheld : (node'.world.mailbox.msgs ++ accepted node'.world.receivers).Perm
      (node.world.mailbox.msgs ++ accepted node.world.receivers)) :
    StdInv text { s with nodes := s.nodes.set k node' } := by
  have hmap := map_addr_set hk haddr
  refine ⟨hmap ▸ hinv.addrs, fun x hx ↦ hmap ▸ hinv.conns x hx, fun j x hx ↦ ?_⟩
  rcases getElem?_set_eq_some hx with ⟨rfl, rfl⟩ | ⟨-, hx⟩
  · have hok := hinv.nodes j node hk
    exact ⟨hmailbox, hsender ▸ hok.sender, hheld.trans hok.inbox⟩
  · exact hinv.nodes j x hx

end Inv

/-! ### What each step does -/

section Eval

variable {text : Addr → List UInt8} {parse : List UInt8 → Option Addr}
  {write : ℕ → List (List UInt8) → ℕ} {s : StdNet Addr} {i c : ℕ} {dst : Addr}
  {node : Node Addr} {conn : Conn Addr}

namespace StdNet

theorem mailbox_of_step {e : Event Addr (List UInt8)} {w : World Addr (List UInt8)}
    (hk : s.nodes[i]? = some node) (hw : Mailbox.step node.world e = some w) :
    s.mailbox i e = some { s with nodes := s.nodes.set i { node with world := w } } := by
  simp only [mailbox, hk, hw, Option.bind_eq_bind, Option.some_bind, Option.pure_def]

variable [DecidableEq Addr]

theorem read_of_none {d : Dir} {st : DecodeState} {buf : List UInt8} (n : ℕ)
    (hc : s.conns[c]? = some conn)
    (hd : decode (conn.pipe d).st (conn.pipe d).buf = .ok (none, st, buf)) :
    s.read parse c d n =
      some { s with conns :=
        (s.conns.set c (conn.setPipe d ((conn.pipe d).readMore st buf n))) } := by
  simp only [read, hc, hd, Option.bind_eq_bind, Option.some_bind, Option.pure_def]

theorem read_of_handshake {frame : List UInt8} {st : DecodeState} {buf : List UInt8} {a : Addr}
    (n : ℕ) (hc : s.conns[c]? = some conn)
    (hd : decode conn.up.st conn.up.buf = .ok (some frame, st, buf)) (hpeer : conn.peer = none)
    (hp : parse frame = some a) (hk : s.nodes[conn.acceptor]? = some node) :
    s.read parse c .up n =
      some ⟨s.nodes.set conn.acceptor { node with sender := insertSender node.sender a (c, .down) },
        s.conns.set c
          { (conn.setPipe .up { conn.up with st := st, buf := buf }) with peer := some a }⟩ := by
  simp only [read, hc, Conn.pipe, hd, Conn.readerPeer, hpeer, hp, hk, Option.bind_eq_bind,
    Option.some_bind, Option.pure_def, Conn.setPipe]

theorem read_of_deliver {d : Dir} {frame : List UInt8} {st : DecodeState} {buf : List UInt8}
    {a : Addr} {tag : UInt64} {data : List UInt8} {w : World Addr (List UInt8)} (n : ℕ)
    (hc : s.conns[c]? = some conn)
    (hd : decode (conn.pipe d).st (conn.pipe d).buf = .ok (some frame, st, buf))
    (hpeer : conn.readerPeer d = some a) (hg : getU64 frame = some (tag, data))
    (hk : s.nodes[conn.reader d]? = some node)
    (hw : Mailbox.deliver ⟨tag, data, a⟩ node.world = some w) :
    s.read parse c d n =
      some ⟨s.nodes.set (conn.reader d) { node with world := w },
        s.conns.set c (conn.setPipe d { conn.pipe d with
          st := st, buf := buf, delivered := (conn.pipe d).delivered + 1 })⟩ := by
  simp only [read, hc, hd, hpeer, hg, hk, hw, Option.bind_eq_bind, Option.some_bind,
    Option.pure_def]

theorem conns_bind (addr : Addr) : (s.bind addr).conns = s.conns := by
  unfold bind
  split_ifs <;> rfl

theorem getOrConnect_of_lookup {p : ℕ × Dir} (hk : s.nodes[i]? = some node)
    (hl : node.sender.lookup dst = some p) : s.getOrConnect text i dst = some (s, p) := by
  simp [getOrConnect, hk, hl]

theorem getOrConnect_of_connect {j : ℕ} (hk : s.nodes[i]? = some node)
    (hl : node.sender.lookup dst = none) (hj : s.nodes.findIdx? (·.addr == dst) = some j) :
    s.getOrConnect text i dst =
      some (⟨s.nodes.set i { node with sender := (dst, s.conns.length, .up) :: node.sender },
        s.conns ++
          [⟨i, j, node.addr, dst, none, .fresh (handshake (text node.addr)), .fresh []⟩]⟩,
        s.conns.length, .up) := by
  simp [getOrConnect, hk, hl, hj]

theorem sendTo_of_getOrConnect {s₁ : StdNet Addr} {d : Dir} {tag : UInt64}
    {bufs : List (List UInt8)} {bytes : List UInt8}
    (hg : s.getOrConnect text i dst = some (s₁, c, d))
    (hb : sendMessage write tag bufs = some bytes) :
    s.sendTo text write i dst tag bufs = some { s₁ with conns := (s₁.conns.modify
      (fun conn ↦ conn.setPipe d ((conn.pipe d).push bytes (tag, bufs))) c) } := by
  simp [sendTo, hg, hb]

end StdNet

end Eval

/-! ### Every admissible step keeps the invariant -/

/-- When a call can be made without a panic of the program's own making: the endpoint or
connection it names exists, and `send_to` goes to a bound address with a frame within
`max_frame_length`. -/
def Admissible (s : StdNet Addr) : StdEvent Addr → Prop
  | .bind _ => True
  | .sendTo i dst _ bufs => i < s.nodes.length ∧ dst ∈ s.nodes.map Node.addr ∧
      8 + (bufs.map List.length).sum ≤ maxFrameLength
  | .read c _ _ => c < s.conns.length
  | .recv i _ | .drop i _ => i < s.nodes.length

section Steps

variable {text : Addr → List UInt8} {parse : List UInt8 → Option Addr}
  {write : ℕ → List (List UInt8) → ℕ} {s : StdNet Addr}

theorem stdInv_empty : StdInv text (StdNet.empty : StdNet Addr) :=
  ⟨List.nodup_nil, fun _ h ↦ by simp [StdNet.empty] at h,
    fun _ _ h ↦ by simp [StdNet.empty] at h⟩

/-- A call on a mailbox that delivers nothing keeps the invariant and the connections. -/
theorem StdInv.mailbox (hinv : StdInv text s) {i : ℕ} (hi : i < s.nodes.length)
    {e : Event Addr (List UInt8)} (he : delivered [e] = []) :
    ∃ s', s.mailbox i e = some s' ∧ StdInv text s' ∧ s'.conns = s.conns := by
  obtain ⟨node, hk⟩ : ∃ node, s.nodes[i]? = some node := ⟨_, List.getElem?_eq_getElem hi⟩
  have hok := hinv.nodes i node hk
  obtain ⟨w, hw, hstep⟩ := hok.mailbox.mailbox_stepOk e
  refine ⟨_, StdNet.mailbox_of_step hk hw,
    hinv.updateNode hk rfl rfl (hok.mailbox.mailbox_step e hw) ?_, rfl⟩
  simpa [he] using hstep.conserve

/-- Pushing a message whose frame fits into a direction registered for `a` keeps the invariant. -/
theorem StdInv.push (hinv : StdInv text s) {c : ℕ} {conn : Conn Addr} {d : Dir} {a : Addr}
    (hc : s.conns[c]? = some conn) (ht : conn.target d = some a) (m : UInt64 × List (List UInt8))
    (hm : (messageFrame m).length ≤ maxFrameLength) :
    StdInv text { s with conns := (s.conns.set c
      (conn.setPipe d ((conn.pipe d).push (encodeFrame (messageFrame m)) m))) } := by
  have hok := hinv.conns conn (List.getElem?_mem hc)
  refine hinv.updateConn hc (hok.setPipe ((hok.carries d).push m hm) fun hn ↦ ?_)
    (conn.keepsRoutes_setPipe _ _)
    (conn.arrivedAt_setPipe_of_eq (Pipe.arrived_push _ _ (hok.carries d).delivered_le))
  cases d with
  | up => exact ⟨rfl, rfl⟩
  | down => simp [Conn.target, hn] at ht

/-- Pushing a message into a direction registered for `a` adds it to what was written. -/
theorem Conn.written_push (conn : Conn Addr) {d : Dir} {a : Addr} (ht : conn.target d = some a)
    (bytes : List UInt8) (m : UInt64 × List (List UInt8)) :
    ((conn.setPipe d ((conn.pipe d).push bytes m)).written .up ++
        (conn.setPipe d ((conn.pipe d).push bytes m)).written .down).Perm
      (conn.written .up ++ conn.written .down ++ [(conn.writer d, a, m.1, m.2)]) := by
  cases d with
  | up =>
    obtain rfl : conn.dst = a := Option.some.inj ht
    simp only [written, setPipe, pipe, target, writer, Pipe.push, List.map_append,
      List.map_singleton, List.append_assoc]
    exact List.perm_append_comm.append_left _
  | down =>
    simp only [target] at ht
    simp [written, setPipe, pipe, target, writer, Pipe.push, ht]

/-- What the connections wrote is unchanged by replacing one whose writes are unchanged. -/
theorem written_set {nodes : List (Node Addr)} {c : ℕ} {conn conn' : Conn Addr}
    (hc : s.conns[c]? = some conn)
    (h : conn'.written .up ++ conn'.written .down = conn.written .up ++ conn.written .down) :
    (StdNet.written ⟨nodes, s.conns.set c conn'⟩).Perm s.written := by
  have h' : (conn'.written .up ++ conn'.written .down).Perm
      (conn.written .up ++ conn.written .down ++ []) := .of_eq (by rw [h, List.append_nil])
  simpa using perm_flatMap_set (f := fun conn ↦ conn.written .up ++ conn.written .down) hc h'

variable [DecidableEq Addr]

/-- A turn that finds no whole frame in the buffer reads the socket: the wire moves on, and what
is pending stays, unless the wire was empty and nothing was pending. -/
theorem StdInv.read_more (hinv : StdInv text s) {c : ℕ} {conn : Conn Addr}
    (hconn : s.conns[c]? = some conn) {d : Dir} (n : ℕ) {st : DecodeState} {buf : List UInt8}
    (hd : decode (conn.pipe d).st (conn.pipe d).buf = .ok (none, st, buf)) :
    ∃ s' conn', s.read parse c d n = some s' ∧ StdInv text s' ∧ s'.written.Perm s.written ∧
      s'.conns[c]? = some conn' ∧ ReadProgress text n d conn conn' := by
  have hok := hinv.conns conn (List.getElem?_mem hconn)
  have hcar := hok.carries d
  refine ⟨_, _, StdNet.read_of_none n hconn hd,
    hinv.updateConn hconn (hok.setPipe (hcar.readMore hd n) fun _ ↦ ?_)
      (conn.keepsRoutes_setPipe _ _)
      (conn.arrivedAt_setPipe_of_eq (Pipe.arrived_readMore _ _ _ _ _)),
    written_set hconn ?_, List.getElem?_set_self (List.getElem?_eq_some_iff.1 hconn).1,
    by simp [Pipe.readMore], .inl ⟨by simp [Pipe.readMore], by simp [Conn.pending, Pipe.readMore], ?_⟩⟩
  · cases d <;> exact ⟨rfl, rfl⟩
  · cases d <;> rfl
  · by_cases hw : (conn.pipe d).wire = []
    · obtain ⟨hahead, hle⟩ := hcar.eq_nil_of_none hd hw
      simp only [Conn.pending, hahead, List.length_nil]
      omega
    · exact .inl hw

/-- The acceptor task reads the handshake of a connection: the accepting endpoint registers the
connecting one's address for the down direction, and the handshake is no longer pending. -/
theorem StdInv.read_handshake (hparse : ∀ a, parse (text a) = some a) (hinv : StdInv text s)
    {c : ℕ} {conn : Conn Addr} (hconn : s.conns[c]? = some conn) (n : ℕ) {frame : List UInt8}
    {st : DecodeState} {buf : List UInt8}
    (hd : decode conn.up.st conn.up.buf = .ok (some frame, st, buf)) (hpeer : conn.peer = none) :
    ∃ s' conn', s.read parse c .up n = some s' ∧ StdInv text s' ∧ s'.written.Perm s.written ∧
      s'.conns[c]? = some conn' ∧ ReadProgress text n .up conn conn' := by
  have hok := hinv.conns conn (List.getElem?_mem hconn)
  have hahead : conn.ahead text .up = [text conn.src] := by simp [Conn.ahead, hpeer]
  obtain ⟨rfl, hcar'⟩ := Pipe.Carries.frame_handshake (hahead ▸ hok.carries .up) hd
  obtain ⟨node, hk, -⟩ := exists_node_of_addr hok.dst
  have hnode := hinv.nodes _ node hk
  have hdown : conn.down.sent = [] := (hok.unread hpeer).2
  refine ⟨_, _, StdNet.read_of_handshake n hconn hd hpeer (hparse conn.src) hk,
    hinv.update hconn hk rfl ⟨hok.src, hok.dst, fun b hb ↦ (Option.some.inj hb).symm,
      fun h ↦ (nomatch h), fun d' ↦ ?_⟩ ?_ [] (fun j ↦ .of_eq ?_) hnode.mailbox (by simp)
      fun a c₀ d' he ↦ ?_, written_set hconn ?_,
    List.getElem?_set_self (List.getElem?_eq_some_iff.1 hconn).1, rfl, .inr ⟨rfl, ?_⟩⟩
  · cases d'
    exacts [hcar', hok.carries .down]
  · rintro (_ | _) b hb
    · exact ⟨rfl, hb⟩
    · simp [Conn.target, hpeer] at hb
  · simp [Conn.arrivedAt, Conn.arrived, Conn.readerPeer, Conn.reader, Conn.pipe, Conn.setPipe,
      Pipe.arrived, hpeer, (hok.unread hpeer).1]
  · rcases mem_insertSender he with he | he
    · obtain ⟨rfl, rfl, rfl⟩ : a = conn.src ∧ c₀ = c ∧ d' = .down := by simpa using he
      exact .inr ⟨rfl, rfl, rfl⟩
    · exact .inl he
  · simp [Conn.written, Conn.target, Conn.writer, Conn.setPipe, Conn.pipe, hpeer, hdown]
  · simp [Conn.pending, Conn.ahead, Conn.pipe, Conn.setPipe, hpeer]
    omega

/-- The recver task takes the next frame of a direction whose reader knows its peer: the message
goes to the reading endpoint's mailbox, from the peer, and is no longer pending. -/
theorem StdInv.read_deliver (hinv : StdInv text s) {c : ℕ} {conn : Conn Addr}
    (hconn : s.conns[c]? = some conn) {d : Dir} (n : ℕ) {frame : List UInt8} {st : DecodeState}
    {buf : List UInt8} (hd : decode (conn.pipe d).st (conn.pipe d).buf = .ok (some frame, st, buf))
    {a : Addr} (hpeer : conn.readerPeer d = some a) :
    ∃ s' conn', s.read parse c d n = some s' ∧ StdInv text s' ∧ s'.written.Perm s.written ∧
      s'.conns[c]? = some conn' ∧ ReadProgress text n d conn conn' := by
  have hok := hinv.conns conn (List.getElem?_mem hconn)
  have hahead : conn.ahead text d = [] := by
    cases d
    · simp only [Conn.readerPeer] at hpeer
      simp [Conn.ahead, hpeer]
    · rfl
  obtain ⟨m, hm, rfl, hcar'⟩ := Pipe.Carries.frame_message (hahead ▸ hok.carries d) hd
  obtain ⟨node, hk⟩ : ∃ node, s.nodes[conn.reader d]? = some node := by
    cases d
    exacts [(exists_node_of_addr hok.dst).imp fun _ h ↦ h.1,
      (exists_node_of_addr hok.src).imp fun _ h ↦ h.1]
  have hnode := hinv.nodes _ node hk
  obtain ⟨w, hw, hstep⟩ := hnode.mailbox.mailbox_stepOk (.deliver (recvMsg a m))
  have hlt := hcar'.delivered_le
  refine ⟨_, _, StdNet.read_of_deliver n hconn hd hpeer (getU64_messageFrame m) hk hw,
    hinv.update hconn hk rfl (hok.setPipe (hahead ▸ hcar') fun hn ↦ ?_)
      (conn.keepsRoutes_setPipe _ _) [recvMsg a m]
      (conn.arrivedAt_setPipe
        (by rw [Conn.arrived, hpeer]; exact Pipe.arrived_deliver _ hm st buf a))
      (hnode.mailbox.mailbox_step _ hw) (by simpa using hstep.conserve)
      fun _ _ _ he ↦ .inl he,
    written_set hconn ?_, List.getElem?_set_self (List.getElem?_eq_some_iff.1 hconn).1, by simp,
    .inr ⟨by simp, ?_⟩⟩
  · cases d
    · simp [Conn.readerPeer, hn] at hpeer
    · exact ⟨rfl, rfl⟩
  · cases d <;> rfl
  · simp only [Conn.pending, Conn.ahead_setPipe, Conn.pipe_setPipe, hahead] at hlt ⊢
    omega

/-- One turn of the task reading a direction of a connection: it does not panic, keeps the
invariant, writes nothing, and makes progress on the direction it reads. -/
theorem StdInv.read (hparse : ∀ a, parse (text a) = some a) (hinv : StdInv text s) {c : ℕ}
    {conn : Conn Addr} (hconn : s.conns[c]? = some conn) (d : Dir) (n : ℕ) :
    ∃ s' conn', s.read parse c d n = some s' ∧ StdInv text s' ∧ s'.written.Perm s.written ∧
      s'.conns[c]? = some conn' ∧ ReadProgress text n d conn conn' := by
  rcases hd : decode (conn.pipe d).st (conn.pipe d).buf with e | ⟨_ | frame, st, buf⟩
  · exact absurd hd (((hinv.conns conn (List.getElem?_mem hconn)).carries d).decode_ne_error e)
  · exact hinv.read_more hconn n hd
  · cases hpeer : conn.readerPeer d with
    | none =>
      cases d with
      | down => exact absurd hpeer (by simp [Conn.readerPeer])
      | up => exact hinv.read_handshake hparse hconn n hd hpeer
    | some a => exact hinv.read_deliver hconn n hd hpeer

theorem StdInv.bind (hinv : StdInv text s) (addr : Addr) : StdInv text (s.bind addr) := by
  unfold StdNet.bind
  split_ifs with h
  · exact hinv
  have hnew : addr ∉ s.nodes.map Node.addr := by simpa using h
  refine ⟨?_, fun x hx ↦ ?_, fun j x hx ↦ ?_⟩
  · rw [List.map_append]
    exact hinv.addrs.append (List.nodup_singleton _) (List.disjoint_singleton.2 hnew)
  · simpa using (hinv.conns x hx).append [addr]
  · rcases getElem?_append_singleton_eq_some hx with hx | ⟨rfl, rfl⟩
    · exact hinv.nodes j x hx
    · refine ⟨inv_empty, fun _ _ _ h ↦ (nomatch h), .of_eq ?_⟩
      rw [List.flatMap_eq_nil_iff.2 fun conn hc ↦
        (hinv.conns conn hc).arrivedAt_eq_nil (by simp)]
      rfl

/-- Opening a connection from endpoint `i` to the endpoint bound at `dst` keeps the invariant. -/
theorem StdInv.connect (htext : ∀ a, (text a).length ≤ maxFrameLength) (hinv : StdInv text s)
    {i j : ℕ} {dst : Addr} {node : Node Addr} (hk : s.nodes[i]? = some node)
    (hj : s.nodes.findIdx? (·.addr == dst) = some j) :
    StdInv text ⟨s.nodes.set i { node with sender := (dst, s.conns.length, .up) :: node.sender },
      s.conns ++
        [⟨i, j, node.addr, dst, none, .fresh (handshake (text node.addr)), .fresh []⟩]⟩ := by
  set new : Conn Addr :=
    ⟨i, j, node.addr, dst, none, .fresh (handshake (text node.addr)), .fresh []⟩
  have hmap := map_addr_set hk (show ({ node with sender := (dst, s.conns.length, .up) ::
    node.sender } : Node Addr).addr = node.addr from rfl)
  have hinbox : ∀ j',
      (s.conns ++ [new]).flatMap (·.arrivedAt j') = s.conns.flatMap (·.arrivedAt j') :=
    fun j' ↦ by simp [new, Conn.arrivedAt, Conn.arrived, Pipe.arrived, Pipe.fresh, Conn.pipe,
      Conn.readerPeer]
  obtain ⟨hlt, hp, -⟩ := List.findIdx?_eq_some_iff_getElem.1 hj
  refine ⟨hmap ▸ hinv.addrs, fun x hx ↦ hmap ▸ ?_, fun j' x hx ↦ ?_⟩
  · rcases List.mem_append.1 hx with hx | hx
    · exact hinv.conns x hx
    · rw [List.mem_singleton.1 hx]
      refine ⟨by simp [new, hk], by simp [new, hlt, beq_iff_eq.1 hp], fun _ h ↦ (nomatch h),
        fun _ ↦ ⟨rfl, rfl⟩, fun d ↦ ?_⟩
      cases d
      exacts [Pipe.Carries.fresh_handshake (htext _), Pipe.Carries.fresh_nil]
  · rcases getElem?_set_eq_some hx with ⟨rfl, rfl⟩ | ⟨-, hx⟩
    · have hok := hinv.nodes j' node hk
      refine ⟨hok.mailbox, fun a c₀ d he ↦ ?_, by rw [hinbox]; exact hok.inbox⟩
      rcases List.mem_cons.1 he with he | he
      · obtain ⟨rfl, rfl, rfl⟩ : a = dst ∧ c₀ = s.conns.length ∧ d = .up := by simpa using he
        exact ⟨new, by simp, rfl, rfl⟩
      · exact routes_append new (hok.sender a c₀ d he)
    · have hok := hinv.nodes j' x hx
      exact ⟨hok.mailbox, fun a c₀ d he ↦ routes_append new (hok.sender a c₀ d he),
        by rw [hinbox]; exact hok.inbox⟩

/-- `get_or_connect(dst)` on an endpoint, `dst` being bound: it does not panic, keeps the
invariant and what was written, and returns a direction the endpoint writes, registered for
`dst`. -/
theorem StdInv.getOrConnect (htext : ∀ a, (text a).length ≤ maxFrameLength)
    (hinv : StdInv text s) {i : ℕ} {dst : Addr} (hi : i < s.nodes.length)
    (hdst : dst ∈ s.nodes.map Node.addr) :
    ∃ s₁ c d conn, s.getOrConnect text i dst = some (s₁, c, d) ∧ StdInv text s₁ ∧
      s₁.written = s.written ∧ s₁.conns[c]? = some conn ∧ conn.writer d = i ∧
      conn.target d = some dst := by
  obtain ⟨node, hk⟩ : ∃ node, s.nodes[i]? = some node := ⟨_, List.getElem?_eq_getElem hi⟩
  cases hl : node.sender.lookup dst with
  | some p =>
    obtain ⟨c, d⟩ := p
    obtain ⟨conn, hc, hw, ht⟩ :=
      (hinv.nodes i node hk).sender dst c d (mem_of_lookup_eq_some hl)
    exact ⟨s, c, d, conn, StdNet.getOrConnect_of_lookup hk hl, hinv, rfl, hc, hw, ht⟩
  | none =>
    obtain ⟨j, hj⟩ : ∃ j, s.nodes.findIdx? (·.addr == dst) = some j :=
      Option.isSome_iff_exists.1 (by rw [List.findIdx?_isSome]; simpa using hdst)
    exact ⟨_, _, _, ⟨i, j, node.addr, dst, none, .fresh (handshake (text node.addr)), .fresh []⟩,
      StdNet.getOrConnect_of_connect hk hl hj, hinv.connect htext hk hj,
      by simp [StdNet.written, Conn.written, Conn.target, Conn.pipe, Pipe.fresh], by simp,
      rfl, rfl⟩

/-- `send_to` on an endpoint, to a bound address, with a frame that fits: it does not panic,
keeps the invariant, and adds the call's message to what was written. -/
theorem StdInv.sendTo (htext : ∀ a, (text a).length ≤ maxFrameLength)
    (hwrite : ∀ call bufs, WriteOk bufs (write call bufs)) (hinv : StdInv text s) {i : ℕ}
    {dst : Addr} {tag : UInt64} {bufs : List (List UInt8)} (hi : i < s.nodes.length)
    (hdst : dst ∈ s.nodes.map Node.addr)
    (hm : 8 + (bufs.map List.length).sum ≤ maxFrameLength) :
    ∃ s', s.sendTo text write i dst tag bufs = some s' ∧ StdInv text s' ∧
      s'.written.Perm (s.written ++ [(i, dst, tag, bufs)]) := by
  obtain ⟨s₁, c, d, conn, hg, hinv₁, hwritten, hc, rfl, ht⟩ :=
    hinv.getOrConnect htext hi hdst
  refine ⟨_, StdNet.sendTo_of_getOrConnect hg (sendMessage_spec write hwrite tag bufs), ?_, ?_⟩
  · rw [modify_eq_set_of_getElem? hc]
    exact hinv₁.push hc ht _ (length_messageFrame (tag, bufs) ▸ hm)
  · rw [modify_eq_set_of_getElem? hc, ← hwritten]
    exact perm_flatMap_set (f := fun conn ↦ conn.written .up ++ conn.written .down) hc
      (conn.written_push ht _ _)


/-- Every admissible event: no panic, the invariant kept, and what was written grows by exactly
the event's `send_to` call. -/
theorem StdInv.step (htext : ∀ a, (text a).length ≤ maxFrameLength)
    (hparse : ∀ a, parse (text a) = some a)
    (hwrite : ∀ call bufs, WriteOk bufs (write call bufs))
    (hinv : StdInv text s) {e : StdEvent Addr} (he : Admissible s e) :
    ∃ s', StdNet.step text parse write s e = some s' ∧ StdInv text s' ∧
      s'.written.Perm (s.written ++ sendCalls [e]) := by
  cases e with
  | bind addr =>
    exact ⟨_, rfl, hinv.bind addr,
      .of_eq (by simp [StdNet.written, StdNet.conns_bind])⟩
  | sendTo i dst tag bufs =>
    simpa [StdNet.step] using hinv.sendTo htext hwrite he.1 he.2.1 he.2.2
  | read c d n =>
    obtain ⟨s', -, h, hinv', hw, -⟩ := hinv.read hparse (List.getElem?_eq_getElem he) d n
    exact ⟨s', h, hinv', by simpa using hw⟩
  | recv i tag =>
    obtain ⟨s', h, hinv', hc⟩ := hinv.mailbox he (delivered_recv tag)
    exact ⟨s', h, hinv', .of_eq (by simp [StdNet.written, hc])⟩
  | drop i rx =>
    obtain ⟨s', h, hinv', hc⟩ := hinv.mailbox he (delivered_drop rx)
    exact ⟨s', h, hinv', .of_eq (by simp [StdNet.written, hc])⟩

/-- The run lemma: along every run whose events are admissible where they are taken, no step
panics, the invariant holds, and what was written is what the run's `send_to` calls sent. -/
theorem stdInv_run (htext : ∀ a, (text a).length ≤ maxFrameLength)
    (hparse : ∀ a, parse (text a) = some a)
    (hwrite : ∀ call bufs, WriteOk bufs (write call bufs))
    (evs : List (StdEvent Addr))
    (hadm : StepsMeet (StdNet.step text parse write) StdNet.empty Admissible evs) :
    ∃ s, StdNet.run text parse write evs = some s ∧ StdInv text s ∧
      s.written.Perm (sendCalls evs) :=
  run_total_of_stepsMeet (fun evs s ↦ StdInv text s ∧ s.written.Perm (sendCalls evs))
    ⟨stdInv_empty, by simp [StdNet.written, StdNet.empty]⟩
    (fun evs _ e ⟨hinv, hw⟩ he ↦ by
      obtain ⟨s', h, hinv', hw'⟩ := hinv.step htext hparse hwrite he
      exact ⟨s', h, hinv', by rw [sendCalls_append]; exact hw'.trans (hw.append_right _)⟩)
    evs hadm

/-- Assume the address text fits a frame and parses back to the address, and the writer's results
are allowed. Along every run whose events are admissible where they are taken, nothing panics,
and: endpoints have distinct addresses; the messages written into the connections are, as a
multiset, exactly those of the run's `send_to` calls, each with its endpoint and destination;
each direction of a connection is written by one endpoint and read by one, is registered only
under the reader's address, and has delivered, in order, the first of the messages written into
it, each from the writer's address; and each endpoint's mailbox holds, parked or accepted by a
channel, exactly the messages its connections delivered to it. -/
theorem std_run_safe (htext : ∀ a, (text a).length ≤ maxFrameLength)
    (hparse : ∀ a, parse (text a) = some a)
    (hwrite : ∀ call bufs, WriteOk bufs (write call bufs))
    (evs : List (StdEvent Addr))
    (hadm : StepsMeet (StdNet.step text parse write) StdNet.empty Admissible evs) :
    ∃ s, StdNet.run text parse write evs = some s ∧ (s.nodes.map Node.addr).Nodup ∧
      s.written.Perm (sendCalls evs) ∧
      (∀ conn ∈ s.conns, ∀ d, ∃ a b, (s.nodes.map Node.addr)[conn.writer d]? = some a ∧
        (s.nodes.map Node.addr)[conn.reader d]? = some b ∧
        (∀ b', conn.target d = some b' → b' = b) ∧
        (conn.pipe d).delivered ≤ (conn.pipe d).sent.length ∧
        conn.arrived d = ((conn.pipe d).sent.take (conn.pipe d).delivered).map (recvMsg a)) ∧
      ∀ i node, s.nodes[i]? = some node →
        (node.world.mailbox.msgs ++ accepted node.world.receivers).Perm (s.inbox i) := by
  obtain ⟨s, hrun, hinv, hw⟩ := stdInv_run htext hparse hwrite evs hadm
  exact ⟨s, hrun, hinv.addrs, hw, fun conn hc ↦ (hinv.conns conn hc).direction,
    fun i node hk ↦ (hinv.nodes i node hk).inbox⟩

/-- Endpoints `0` and `1` bound, one-byte addresses written as their byte, and `0` sending tag
`5` with the slices `[1]` and `[2]` to `1`: every call is admissible where it is made. -/
theorem admissible_bind_bind_sendTo :
    StepsMeet (StdNet.step (fun a : UInt8 ↦ [a]) List.head? fun _ bufs ↦ remaining bufs)
      StdNet.empty Admissible [.bind 0, .bind 1, .sendTo 0 1 5 [[1], [2]]] := by
  refine ((StepsMeet.nil.snoc ?_).snoc ?_).snoc ?_ <;> rintro _ ⟨⟩
  exacts [trivial, trivial, by unfold Admissible; decide]

theorem writeOk_remaining (bufs : List (List UInt8)) : WriteOk bufs (remaining bufs) := by
  unfold WriteOk
  split_ifs <;> omega

/-- `std_run_safe` on the run of `admissible_bind_bind_sendTo`. -/
theorem std_run_safe_one_send :
    ∃ s, StdNet.run (fun a : UInt8 ↦ [a]) List.head? (fun _ bufs ↦ remaining bufs)
        [.bind 0, .bind 1, .sendTo 0 1 5 [[1], [2]]] = some s ∧
      (s.nodes.map Node.addr).Nodup ∧
      s.written.Perm (sendCalls [.bind 0, .bind 1, .sendTo 0 1 5 [[1], [2]]]) ∧
      (∀ conn ∈ s.conns, ∀ d, ∃ a b, (s.nodes.map Node.addr)[conn.writer d]? = some a ∧
        (s.nodes.map Node.addr)[conn.reader d]? = some b ∧
        (∀ b', conn.target d = some b' → b' = b) ∧
        (conn.pipe d).delivered ≤ (conn.pipe d).sent.length ∧
        conn.arrived d = ((conn.pipe d).sent.take (conn.pipe d).delivered).map (recvMsg a)) ∧
      ∀ i node, s.nodes[i]? = some node →
        (node.world.mailbox.msgs ++ accepted node.world.receivers).Perm (s.inbox i) := by
  refine std_run_safe ?_ ?_ ?_ _ admissible_bind_bind_sendTo
  exacts [fun _ ↦ by simp [maxFrameLength], fun _ ↦ rfl, fun _ ↦ writeOk_remaining]

/-! ### Reading drains a direction -/

/-- Reading one direction again and again: from a state of the invariant whose wire holds at most
`n` bytes, `k` turns of the reading task, each reading up to `n` bytes, do not panic and leave
nothing to carry once `k` covers the frames left, and one read more while the wire holds bytes. -/
theorem StdInv.drain (hparse : ∀ a, parse (text a) = some a) {c : ℕ} {d : Dir} {n : ℕ} :
    ∀ (k : ℕ) {s : StdNet Addr} {conn : Conn Addr}, StdInv text s →
      s.conns[c]? = some conn → (conn.pipe d).wire.length ≤ n →
      conn.pending text d + (if (conn.pipe d).wire = [] then 0 else 1) ≤ k →
      ∃ s' conn', (List.replicate k (StdEvent.read c d n)).foldlM
          (StdNet.step text parse write) s = some s' ∧
        StdInv text s' ∧ s'.conns[c]? = some conn' ∧
        (conn'.pipe d).sent = (conn.pipe d).sent ∧ conn'.pending text d = 0
  | 0, s, conn, hinv, hc, _, hk => ⟨s, conn, rfl, hinv, hc, rfl, by split_ifs at hk <;> omega⟩
  | k + 1, s, conn, hinv, hc, hn, hk => by
    obtain ⟨s₁, conn₁, hread, hinv₁, -, hc₁, hsent, hprog⟩ := hinv.read hparse hc d n
    have hnext : (conn₁.pipe d).wire.length ≤ n ∧
        conn₁.pending text d + (if (conn₁.pipe d).wire = [] then 0 else 1) ≤ k := by
      rcases hprog with ⟨hw, hp, hne⟩ | ⟨hw, hp⟩
      · rw [hw, List.drop_eq_nil_of_le hn, hp]
        refine ⟨Nat.zero_le _, ?_⟩
        rcases hne with hne | hne
        · rw [if_neg hne] at hk
          simp only [if_true]
          omega
        · simp only [if_true]
          omega
      · rw [hw]
        refine ⟨hn, ?_⟩
        split_ifs at hk ⊢ <;> omega
    obtain ⟨s', conn', hrun, hinv', hc', hsent', hzero⟩ :=
      StdInv.drain hparse k hinv₁ hc₁ hnext.1 hnext.2
    exact ⟨s', conn', by simp [List.replicate_succ, StdNet.step, hread, hrun], hinv', hc',
      hsent'.trans hsent, hzero⟩

unseal Mailbox.deliverLoop in
/-- Endpoints `0` and `1`; `0` sends tag `5` with the slices `[1]` and `[2]` while `1` waits in
`recv_from(5)`; the acceptor's first read takes the whole stream, the second the handshake and the
third the message, which the waiting receiver accepts from `0`. -/
example : ((StdNet.run (fun n ↦ [UInt8.ofNat n])
    (fun b ↦ match b with | [x] => some x.toNat | _ => none) (fun _ bufs ↦ remaining bufs)
    [.bind 0, .bind 1, .sendTo 0 1 5 [[1], [2]], .recv 1 5, .read 0 .up 100, .read 0 .up 0,
      .read 0 .up 0]).bind (·.nodes[1]?)).map (·.world.receivers) =
    some [⟨5, some ⟨5, [1, 2], 0⟩, false⟩] := by
  decide

end Steps

end MadsimNet
