import Mathlib
import MadsimNet.Std.Slices

/-!
# The std-mode wire format: length-delimited frames

Every std-mode connection is a TCP stream. tcp.rs `setup_connection` wraps its read half in
`FramedRead::new(reader, LengthDelimitedCodec::new())`, and its sender task writes each message
`(tag, bufs)` as `write_u32(len as _)` with `len = 8 + Σ bufs[i].len()`, then `write_u64(tag)`, then
the slices through the `write_vectored` loop of `Slices`. A connecting side first writes its
address as a frame of its own (`handshake`), which the accepting side reads with
`reader.next()` before the recver task takes every later frame apart with `get_u64`.

`beBytes` and `beValue` are the big-endian integers of `bytes`, with `beValue_beBytes`.
`decode` is `LengthDelimitedCodec::decode` with the settings of `new()`, including its
`max_frame_length` of `8 * 1_024 * 1_024` (`maxFrameLength`) and the error it returns for a
longer length field. `decodeAll` calls it while it returns frames, and `readFrames` is
`FramedRead` over the reads of the socket, split anywhere. `decode_append_of_frame`,
`decode_append_of_none` and `decode_append_of_error` say that more bytes never change what
`decode` did on fewer; from them `decodeAll_append` and `readFrames_eq` show that the frames
read do not depend on how the stream is split into reads, which `readFrames_split_invariant` states
for two splits of one stream. `decodeAll_encodeFrames` decodes a
stream of well-formed frames, `sendMessage_spec` is what the sender task writes for one message,
and `frames_round_trip` assembles the two ends. `frame_too_long_is_lost` is a payload that
`send_to` accepts and the peer's codec refuses.

Scope. The end of the stream (`decode_eof`) is not modelled: the frames are those of the reads so
far. `usize` arithmetic is on `ℕ`; the cast `len as _` to `u32` is the truncation that
`beBytes 4` makes. The address string is its bytes; its parsing back is not modelled.
-/

set_option autoImplicit false
set_option relaxedAutoImplicit false

namespace MadsimNet

/-! ### Big-endian integers -/

/-- The `k` bytes of `n` modulo `256 ^ k`, most significant first: `write_u32` for `k = 4` and
`write_u64` for `k = 8`. -/
def beBytes : ℕ → ℕ → List UInt8
  | 0, _ => []
  | k + 1, n => UInt8.ofNat (n / 256 ^ k) :: beBytes k n

/-- The number that bytes spell most significant first: `Buf::get_uint`. -/
def beValue : List UInt8 → ℕ
  | [] => 0
  | b :: bytes => b.toNat * 256 ^ bytes.length + beValue bytes

@[simp] theorem length_beBytes : ∀ k n, (beBytes k n).length = k
  | 0, _ => rfl
  | k + 1, n => by simp [beBytes, length_beBytes k n]

theorem beValue_beBytes : ∀ k n, beValue (beBytes k n) = n % 256 ^ k
  | 0, n => by simp [beBytes, beValue, Nat.mod_one]
  | k + 1, n => by
    have hbyte : (UInt8.ofNat (n / 256 ^ k)).toNat = n / 256 ^ k % 256 := by
      simp [UInt8.ofNat, UInt8.toNat]
    rw [beBytes, beValue, length_beBytes, beValue_beBytes k n, hbyte, Nat.mod_pow_succ,
      Nat.add_comm, Nat.mul_comm]

theorem take_beBytes_append (k n : ℕ) (rest : List UInt8) :
    (beBytes k n ++ rest).take k = beBytes k n := by
  simp

theorem ofNat_beValue_beBytes (x : UInt64) : UInt64.ofNat (beValue (beBytes 8 x.toNat)) = x := by
  rw [beValue_beBytes, Nat.mod_eq_of_lt (show x.toNat < 256 ^ 8 from x.toNat_lt_size)]
  apply UInt64.eq_of_toBitVec_eq
  apply BitVec.eq_of_toNat_eq
  simp [UInt64.ofNat, UInt64.toNat, Nat.mod_eq_of_lt x.toBitVec.isLt]

/-! ### `LengthDelimitedCodec::new()` -/

/-- `max_frame_length` of `LengthDelimitedCodec::new()`. -/
def maxFrameLength : ℕ := 8 * 1024 * 1024

/-- The codec's `DecodeState`: before a length field, or inside a frame of `n` bytes. -/
inductive DecodeState
  | head
  | data (n : ℕ)
  deriving DecidableEq, Repr

/-- `decode_data(n, src)`: the frame and the bytes after it, once `n` bytes are buffered. -/
def decodeData (n : ℕ) (src : List UInt8) : Option (List UInt8 × List UInt8) :=
  if src.length < n then none else some (src.take n, src.drop n)

/-- The second half of `decode`, once the length `n` of the frame is known: `decode_data(n, src)`,
and the state back to `Head` with a frame, or `Data(n)` to wait for more bytes. -/
def decodeFrame (n : ℕ) (src : List UInt8) :
    Except String (Option (List UInt8) × DecodeState × List UInt8) :=
  match decodeData n src with
  | some (frame, rest) => .ok (some frame, .head, rest)
  | none => .ok (none, .data n, src)

/-- `LengthDelimitedCodec::decode` with the settings of `new()`: a four-byte big-endian length
field at offset zero, skipped, with no adjustment. From the state and the buffered bytes, either
the error of `decode_head` for a length above `max_frame_length`, or what `decode` returns (a
frame, or `None` to wait for more bytes) with the new state and buffer. -/
def decode : DecodeState → List UInt8 →
    Except String (Option (List UInt8) × DecodeState × List UInt8)
  | .head, src =>
    if src.length < 4 then .ok (none, .head, src)
    else
      let n := beValue (src.take 4)
      if n > maxFrameLength then .error "frame size too big" else decodeFrame n (src.drop 4)
  | .data n, src => decodeFrame n src

/-- Twice the buffered bytes, and one more inside a frame: every frame `decode` returns lowers
it. -/
def decodeMeasure : DecodeState → List UInt8 → ℕ
  | .head, src => 2 * src.length
  | .data _, src => 2 * src.length + 1

section Decode

variable {n : ℕ} {st st' : DecodeState} {src src' frame : List UInt8}

theorem decodeFrame_of_lt (h : src.length < n) : decodeFrame n src = .ok (none, .data n, src) := by
  simp [decodeFrame, decodeData, h]

theorem decodeFrame_of_le (h : n ≤ src.length) :
    decodeFrame n src = .ok (some (src.take n), .head, src.drop n) := by
  simp [decodeFrame, decodeData, Nat.not_lt.2 h]

theorem decodeFrame_eq_frame (h : decodeFrame n src = .ok (some frame, st', src')) :
    n ≤ src.length ∧ frame = src.take n ∧ st' = .head ∧ src' = src.drop n := by
  by_cases hn : src.length < n
  · rw [decodeFrame_of_lt hn] at h
    cases h
  · rw [decodeFrame_of_le (Nat.not_lt.1 hn)] at h
    cases h
    exact ⟨Nat.not_lt.1 hn, rfl, rfl, rfl⟩

theorem decodeFrame_ne_error {e : String} : decodeFrame n src ≠ .error e := by
  unfold decodeFrame
  split <;> exact fun h ↦ nomatch h

theorem decodeFrame_eq_none (h : decodeFrame n src = .ok (none, st', src')) :
    src.length < n ∧ st' = .data n ∧ src' = src := by
  by_cases hn : src.length < n
  · rw [decodeFrame_of_lt hn] at h
    cases h
    exact ⟨hn, rfl, rfl⟩
  · rw [decodeFrame_of_le (Nat.not_lt.1 hn)] at h
    cases h

theorem decode_head_of_lt (h : src.length < 4) : decode .head src = .ok (none, .head, src) := by
  simp [decode, h]

/-- With its length field buffered, `decode` from `Head` is the check of the length and the
second half on the bytes after the field, whatever follows them. -/
theorem decode_head_append (h : 4 ≤ src.length) (more : List UInt8) :
    decode .head (src ++ more) =
      if beValue (src.take 4) > maxFrameLength then .error "frame size too big"
      else decodeFrame (beValue (src.take 4)) (src.drop 4 ++ more) := by
  have hlen : ¬ (src ++ more).length < 4 := by simp only [List.length_append]; omega
  simp only [decode, hlen, if_false, List.take_append_of_le_length h,
    List.drop_append_of_le_length h]

theorem decode_head_of_le (h : 4 ≤ src.length) :
    decode .head src =
      if beValue (src.take 4) > maxFrameLength then .error "frame size too big"
      else decodeFrame (beValue (src.take 4)) (src.drop 4) := by
  simpa using decode_head_append h []

theorem decodeMeasure_lt (h : decode st src = .ok (some frame, st', src')) :
    decodeMeasure st' src' < decodeMeasure st src := by
  cases st with
  | head =>
    by_cases hlen : src.length < 4
    · rw [decode_head_of_lt hlen] at h
      cases h
    rw [decode_head_of_le (Nat.not_lt.1 hlen)] at h
    split_ifs at h
    obtain ⟨-, -, rfl, rfl⟩ := decodeFrame_eq_frame h
    simp only [decodeMeasure, List.length_drop]
    omega
  | data n =>
    obtain ⟨-, -, rfl, rfl⟩ := decodeFrame_eq_frame h
    simp only [decodeMeasure, List.length_drop]
    omega

end Decode

/-- `decode` called again and again while it returns frames, as `FramedRead` does after a read:
the frames, then the codec's error, or the state and buffer where `decode` returned `None`. -/
def decodeAll (st : DecodeState) (src : List UInt8) :
    List (List UInt8) × Except String (DecodeState × List UInt8) :=
  match h : decode st src with
  | .error e => ([], .error e)
  | .ok (none, st', src') => ([], .ok (st', src'))
  | .ok (some frame, st', src') =>
    have := decodeMeasure_lt h
    let rest := decodeAll st' src'
    (frame :: rest.1, rest.2)
termination_by decodeMeasure st src

theorem decodeAll_of_error {st : DecodeState} {src : List UInt8} {e : String}
    (h : decode st src = .error e) : decodeAll st src = ([], .error e) := by
  rw [decodeAll]
  split <;> simp_all

theorem decodeAll_of_none {st st' : DecodeState} {src src' : List UInt8}
    (h : decode st src = .ok (none, st', src')) : decodeAll st src = ([], .ok (st', src')) := by
  rw [decodeAll]
  split <;> simp_all

theorem decodeAll_of_frame {st st' : DecodeState} {src src' frame : List UInt8}
    (h : decode st src = .ok (some frame, st', src')) :
    decodeAll st src = (frame :: (decodeAll st' src').1, (decodeAll st' src').2) := by
  rw [decodeAll]
  split <;> simp_all

/-! ### More bytes never undo a decision -/

section Append

variable {n : ℕ} {st st' : DecodeState} {src src' frame : List UInt8} (more : List UInt8)

theorem decodeFrame_append_of_frame (h : decodeFrame n src = .ok (some frame, st', src')) :
    decodeFrame n (src ++ more) = .ok (some frame, st', src' ++ more) := by
  obtain ⟨hle, rfl, rfl, rfl⟩ := decodeFrame_eq_frame h
  rw [decodeFrame_of_le (by simp only [List.length_append]; omega),
    List.take_append_of_le_length hle, List.drop_append_of_le_length hle]

theorem decode_append_of_frame (h : decode st src = .ok (some frame, st', src')) :
    decode st (src ++ more) = .ok (some frame, st', src' ++ more) := by
  cases st with
  | head =>
    by_cases hlen : src.length < 4
    · rw [decode_head_of_lt hlen] at h
      cases h
    rw [decode_head_of_le (Nat.not_lt.1 hlen)] at h
    rw [decode_head_append (Nat.not_lt.1 hlen)]
    split_ifs at h ⊢
    exact decodeFrame_append_of_frame more h
  | data n => exact decodeFrame_append_of_frame more h

theorem decode_append_of_none (h : decode st src = .ok (none, st', src')) :
    decode st (src ++ more) = decode st' (src' ++ more) := by
  cases st with
  | head =>
    by_cases hlen : src.length < 4
    · rw [decode_head_of_lt hlen] at h
      cases h
      rfl
    rw [decode_head_of_le (Nat.not_lt.1 hlen)] at h
    rw [decode_head_append (Nat.not_lt.1 hlen)]
    split_ifs at h ⊢
    obtain ⟨-, rfl, rfl⟩ := decodeFrame_eq_none h
    rfl
  | data n =>
    obtain ⟨-, rfl, rfl⟩ := decodeFrame_eq_none h
    rfl

theorem decode_append_of_error {e : String} (h : decode st src = .error e) :
    decode st (src ++ more) = .error e := by
  cases st with
  | head =>
    by_cases hlen : src.length < 4
    · rw [decode_head_of_lt hlen] at h
      cases h
    rw [decode_head_of_le (Nat.not_lt.1 hlen)] at h
    rw [decode_head_append (Nat.not_lt.1 hlen)]
    split_ifs at h ⊢ with hbig
    · exact h
    · exact absurd h decodeFrame_ne_error
  | data n => exact absurd h decodeFrame_ne_error

/-- Where `decode` returned `None` it returns `None` again, with the same state and buffer. -/
theorem decode_of_none_stable (h : decode st src = .ok (none, st', src')) :
    decode st' src' = .ok (none, st', src') := by
  cases st with
  | head =>
    by_cases hlen : src.length < 4
    · rw [decode_head_of_lt hlen] at h
      cases h
      exact decode_head_of_lt hlen
    rw [decode_head_of_le (Nat.not_lt.1 hlen)] at h
    split_ifs at h
    obtain ⟨hlt, rfl, rfl⟩ := decodeFrame_eq_none h
    exact decodeFrame_of_lt hlt
  | data n =>
    obtain ⟨hlt, rfl, rfl⟩ := decodeFrame_eq_none h
    exact decodeFrame_of_lt hlt

end Append

/-- `decodeAll` sees only what `decode` returns. -/
theorem decodeAll_eq_of_decode_eq {st st' : DecodeState} {src src' : List UInt8}
    (h : decode st src = decode st' src') : decodeAll st src = decodeAll st' src' := by
  match h' : decode st' src' with
  | .error e => rw [decodeAll_of_error (h.trans h'), decodeAll_of_error h']
  | .ok (none, st'', src'') => rw [decodeAll_of_none (h.trans h'), decodeAll_of_none h']
  | .ok (some frame, st'', src'') => rw [decodeAll_of_frame (h.trans h'), decodeAll_of_frame h']

/-- Decoding more bytes gives the frames of the fewer bytes, and then what the state they stopped
in decodes of the rest. -/
theorem decodeAll_append (st : DecodeState) (src more : List UInt8) :
    decodeAll st (src ++ more) =
      match decodeAll st src with
      | (frames, .error e) => (frames, .error e)
      | (frames, .ok (st', src')) =>
        (frames ++ (decodeAll st' (src' ++ more)).1, (decodeAll st' (src' ++ more)).2) := by
  match h : decode st src with
  | .error e =>
    rw [decodeAll_of_error h, decodeAll_of_error (decode_append_of_error more h)]
  | .ok (none, st', src') =>
    rw [decodeAll_of_none h, decodeAll_eq_of_decode_eq (decode_append_of_none more h)]
    rfl
  | .ok (some frame, st', src') =>
    rw [decodeAll_of_frame h, decodeAll_of_frame (decode_append_of_frame more h),
      decodeAll_append st' src' more]
    split <;> simp_all
termination_by decodeMeasure st src
decreasing_by exact decodeMeasure_lt h

/-- Where `decodeAll` stops, `decode` returns `None` again. -/
theorem decodeAll_stop_stable {st st' : DecodeState} {src src' : List UInt8}
    {frames : List (List UInt8)} (h : decodeAll st src = (frames, .ok (st', src'))) :
    decode st' src' = .ok (none, st', src') := by
  match hd : decode st src with
  | .error e => simp [decodeAll_of_error hd] at h
  | .ok (none, st'', src'') =>
    rw [decodeAll_of_none hd] at h
    obtain ⟨-, rfl, rfl⟩ : frames = [] ∧ st'' = st' ∧ src'' = src' := by simpa using h
    exact decode_of_none_stable hd
  | .ok (some frame, st'', src'') =>
    rw [decodeAll_of_frame hd] at h
    have hrest : (decodeAll st'' src'').2 = .ok (st', src') := congrArg Prod.snd h
    exact decodeAll_stop_stable
      (Prod.ext rfl hrest : decodeAll st'' src'' = ((decodeAll st'' src'').1, .ok (st', src')))
termination_by decodeMeasure st src
decreasing_by exact decodeMeasure_lt hd

/-! ### `FramedRead` -/

/-- `FramedRead` over the reads of the socket, in order, from the codec's state and buffer: after
each read it yields every frame `decode` returns. At the codec's first error it yields the error,
and the task reading it panics at `frame.unwrap()`. Returns the frames yielded, and the error if
there was one. -/
def readFrames : DecodeState → List UInt8 → List (List UInt8) →
    List (List UInt8) × Option String
  | _, _, [] => ([], none)
  | st, buf, chunk :: chunks =>
    match decodeAll st (buf ++ chunk) with
    | (frames, .error e) => (frames, some e)
    | (frames, .ok (st', buf')) =>
      let more := readFrames st' buf' chunks
      (frames ++ more.1, more.2)

/-- From a state where `decode` waits, the reader yields the frames of all the bytes read, however
they are split into reads. -/
theorem readFrames_eq : ∀ (st : DecodeState) (buf : List UInt8) (chunks : List (List UInt8)),
    decode st buf = .ok (none, st, buf) →
      readFrames st buf chunks =
        ((decodeAll st (buf ++ chunks.flatten)).1,
          match (decodeAll st (buf ++ chunks.flatten)).2 with
          | .error e => some e
          | .ok _ => none)
  | st, buf, [], h => by simp [readFrames, decodeAll_of_none h]
  | st, buf, chunk :: chunks, h => by
    rw [List.flatten_cons, ← List.append_assoc, decodeAll_append, readFrames]
    rcases hd : decodeAll st (buf ++ chunk) with ⟨frames, e | ⟨st', buf'⟩⟩
    · rfl
    · dsimp only
      rw [readFrames_eq st' buf' chunks (decodeAll_stop_stable hd)]

/-- However the socket cuts one byte stream into reads, `FramedRead` yields the same frames and the
same error, from every state where `decode` waits. -/
theorem readFrames_split_invariant {st : DecodeState} {buf : List UInt8}
    (hwait : decode st buf = .ok (none, st, buf)) {chunks chunks' : List (List UInt8)}
    (hsplit : chunks.flatten = chunks'.flatten) :
    readFrames st buf chunks = readFrames st buf chunks' := by
  rw [readFrames_eq st buf chunks hwait, readFrames_eq st buf chunks' hwait, hsplit]

/-- A frame of the one byte `7`, read whole or a byte at a time. -/
theorem readFrames_split_invariant_bytewise :
    decode .head [] = .ok (none, .head, []) ∧
      [[0, 0, 0, 1, 7]].flatten = [[0], [0], [0], [1], [7]].flatten ∧
      readFrames .head [] [[0, 0, 0, 1, 7]] = readFrames .head [] [[0], [0], [0], [1], [7]] :=
  ⟨decode_head_of_lt (by decide), rfl,
    readFrames_split_invariant (decode_head_of_lt (by decide)) rfl⟩

/-! ### Well-formed streams -/

/-- A frame on the wire: its length, four bytes big-endian, then its bytes. -/
def encodeFrame (frame : List UInt8) : List UInt8 := beBytes 4 frame.length ++ frame

theorem decode_encodeFrame {frame : List UInt8} (h : frame.length ≤ maxFrameLength)
    (rest : List UInt8) :
    decode .head (encodeFrame frame ++ rest) = .ok (some frame, .head, rest) := by
  have hvalue : beValue ((encodeFrame frame ++ rest).take 4) = frame.length := by
    rw [encodeFrame, List.append_assoc, take_beBytes_append, beValue_beBytes,
      Nat.mod_eq_of_lt (by unfold maxFrameLength at h; omega)]
  have hdrop : (encodeFrame frame ++ rest).drop 4 = frame ++ rest := by
    simp [encodeFrame, List.drop_left' (length_beBytes 4 _)]
  rw [decode_head_of_le (by simp [encodeFrame]), hvalue, if_neg (Nat.not_lt.2 h), hdrop,
    decodeFrame_of_le (by simp)]
  simp

/-- A stream of frames no longer than the limit decodes to those frames, leaving nothing. -/
theorem decodeAll_encodeFrames : ∀ (frames : List (List UInt8)),
    (∀ frame ∈ frames, frame.length ≤ maxFrameLength) →
      decodeAll .head (frames.map encodeFrame).flatten = (frames, .ok (.head, []))
  | [], _ => decodeAll_of_none rfl
  | frame :: frames, h => by
    rw [List.map_cons, List.flatten_cons,
      decodeAll_of_frame (decode_encodeFrame (h frame (List.mem_cons_self _ _)) _),
      decodeAll_encodeFrames frames fun f hf ↦ h f (List.mem_cons_of_mem _ hf)]

/-- A length field above the limit is the codec's error. -/
theorem decode_of_too_long {n : ℕ} (hbig : maxFrameLength < n) (hn : n < 256 ^ 4)
    (rest : List UInt8) :
    decode .head (beBytes 4 n ++ rest) = .error "frame size too big" := by
  have hvalue : beValue ((beBytes 4 n ++ rest).take 4) = n := by
    rw [take_beBytes_append, beValue_beBytes, Nat.mod_eq_of_lt hn]
  rw [decode_head_of_le (by simp), hvalue, if_pos hbig]

/-! ### The two ends of a connection -/

theorem mapM_map_eq_some {α β γ : Type} {h : α → β} {f : β → Option γ} {g : α → γ} :
    ∀ l : List α, (∀ a ∈ l, f (h a) = some (g a)) → (l.map h).mapM f = some (l.map g)
  | [], _ => rfl
  | a :: l, hl => by
    rw [List.map_cons, List.mapM_cons, hl a (List.mem_cons_self _ _),
      mapM_map_eq_some l fun b hb ↦ hl b (List.mem_cons_of_mem _ hb)]
    rfl

/-- The sender task on one message: `write_u32(len as _)` with `len = 8 + Σ bufs[i].len()`, then
`write_u64(tag)`, then the `write_vectored` loop with the writer `write`. Returns the bytes
written, in order; `none` where it panics or the loop runs out of its fuel. -/
def sendMessage (write : ℕ → List (List UInt8) → ℕ) (tag : UInt64) (bufs : List (List UInt8)) :
    Option (List UInt8) := do
  let len := 8 + (bufs.map List.length).sum
  let (body, _) ← writeLoop write (remaining bufs + 1) 0 bufs
  pure (beBytes 4 len ++ beBytes 8 tag.toNat ++ body)

/-- The sender task on the messages it drains, in order. -/
def senderTask (write : ℕ → List (List UInt8) → ℕ) (msgs : List (UInt64 × List (List UInt8))) :
    Option (List UInt8) :=
  (msgs.mapM fun m ↦ sendMessage write m.1 m.2).map List.flatten

/-- What a connecting side writes before anything else: `write_u32(addr_str.len() as _)` and
`write_all(addr_str.as_bytes())`. -/
def handshake (addr : List UInt8) : List UInt8 := beBytes 4 addr.length ++ addr

/-- The handshake is a frame of its own. -/
theorem handshake_eq_encodeFrame (addr : List UInt8) : handshake addr = encodeFrame addr := rfl

/-- `frame.get_u64()` in the recver task: the tag from the first eight bytes, big-endian, and the
rest of the frame; `none` where it panics, on a frame shorter than eight bytes. -/
def getU64 (frame : List UInt8) : Option (UInt64 × List UInt8) :=
  if frame.length < 8 then none else some (UInt64.ofNat (beValue (frame.take 8)), frame.drop 8)

/-- The frame the sender task's bytes for a message make. -/
def messageFrame (m : UInt64 × List (List UInt8)) : List UInt8 := beBytes 8 m.1.toNat ++ m.2.flatten

theorem length_messageFrame (m : UInt64 × List (List UInt8)) :
    (messageFrame m).length = 8 + (m.2.map List.length).sum := by
  simp [messageFrame, List.length_flatten]

/-- Assumes: the writer's results are allowed. The sender task writes, for each message, its
frame on the wire. -/
theorem sendMessage_spec (write : ℕ → List (List UInt8) → ℕ)
    (hwrite : ∀ call bufs, WriteOk bufs (write call bufs)) (tag : UInt64)
    (bufs : List (List UInt8)) :
    sendMessage write tag bufs = some (encodeFrame (messageFrame (tag, bufs))) := by
  obtain ⟨calls, -, hloop⟩ := writeLoop_spec write hwrite (remaining bufs + 1) 0 bufs (by omega)
  simp [sendMessage, hloop, encodeFrame, length_messageFrame, messageFrame]

theorem getU64_messageFrame (m : UInt64 × List (List UInt8)) :
    getU64 (messageFrame m) = some (m.1, m.2.flatten) := by
  have h8 := length_beBytes 8 m.1.toNat
  simp [getU64, messageFrame, take_beBytes_append, ofNat_beValue_beBytes,
    List.drop_left' h8]

/-- Assume the writer's results are allowed, the address of a connecting side has at most
`max_frame_length` bytes, and so has the frame of every message, eight bytes of tag and its
payload. Then the sender task writes each message as its length, its tag and its bytes; and
however the stream the peer reads (the handshake, on a connecting side, then the sender task's
bytes) is split into reads, the peer's `FramedRead` yields without error exactly the address, on
the accepting side, then one frame per message, in order, from which `get_u64` takes the
message's tag and leaves its bytes. -/
theorem frames_round_trip (write : ℕ → List (List UInt8) → ℕ)
    (hwrite : ∀ call bufs, WriteOk bufs (write call bufs)) (addr : Option (List UInt8))
    (haddr : ∀ a ∈ addr, a.length ≤ maxFrameLength) (msgs : List (UInt64 × List (List UInt8)))
    (hmsgs : ∀ m ∈ msgs, 8 + (m.2.map List.length).sum ≤ maxFrameLength) :
    senderTask write msgs = some (msgs.map fun m ↦
      beBytes 4 (8 + (m.2.map List.length).sum) ++ beBytes 8 m.1.toNat ++ m.2.flatten).flatten ∧
    ∀ chunks : List (List UInt8),
      chunks.flatten = (addr.map handshake).getD [] ++
        (msgs.map fun m ↦ encodeFrame (messageFrame m)).flatten →
      readFrames .head [] chunks = (addr.toList ++ msgs.map messageFrame, none) ∧
        (msgs.map messageFrame).mapM getU64 = some (msgs.map fun m ↦ (m.1, m.2.flatten)) := by
  refine ⟨?_, fun chunks hchunks ↦ ⟨?_, ?_⟩⟩
  · have hmap := @mapM_map_eq_some _ _ _ id
      (fun m : UInt64 × List (List UInt8) ↦ sendMessage write m.1 m.2)
      (fun m ↦ encodeFrame (messageFrame m)) msgs fun m _ ↦ sendMessage_spec write hwrite m.1 m.2
    rw [List.map_id] at hmap
    have hframe : ∀ m : UInt64 × List (List UInt8), encodeFrame (messageFrame m) =
        beBytes 4 (8 + (m.2.map List.length).sum) ++ beBytes 8 m.1.toNat ++ m.2.flatten :=
      fun m ↦ by rw [encodeFrame, length_messageFrame, messageFrame, List.append_assoc]
    simp only [senderTask, hmap, Option.map_some', hframe]
  · have hstream : (addr.map handshake).getD [] ++
        (msgs.map fun m ↦ encodeFrame (messageFrame m)).flatten =
        ((addr.toList ++ msgs.map messageFrame).map encodeFrame).flatten := by
      cases addr <;> simp [Function.comp_def, handshake_eq_encodeFrame]
    have hall : ∀ frame ∈ addr.toList ++ msgs.map messageFrame, frame.length ≤ maxFrameLength := by
      intro frame hf
      rcases List.mem_append.1 hf with hf | hf
      · exact haddr frame (Option.mem_toList.1 hf)
      · obtain ⟨m, hm, rfl⟩ := List.mem_map.1 hf
        exact length_messageFrame m ▸ hmsgs m hm
    rw [readFrames_eq .head [] chunks rfl, List.nil_append, hchunks, hstream,
      decodeAll_encodeFrames _ hall]
  · exact mapM_map_eq_some msgs fun m _ ↦ getU64_messageFrame m

/-- The address `12` and one message of tag 5 and bytes 1, 2, 3, read in three pieces cut across
the frames. -/
theorem frames_round_trip_in_three_reads :
    (∀ (_ : ℕ) (bufs : List (List UInt8)), WriteOk bufs (remaining bufs)) ∧
    readFrames .head [] [[0, 0, 0, 2, 49], [50, 0, 0, 0, 11, 0, 0, 0], [0, 0, 0, 0, 5, 1, 2, 3]] =
      ([[49, 50], [0, 0, 0, 0, 0, 0, 0, 5, 1, 2, 3]], none) := by
  have hok : ∀ (_ : ℕ) (bufs : List (List UInt8)), WriteOk bufs (remaining bufs) := by
    intro _ bufs
    unfold WriteOk
    split <;> omega
  refine ⟨hok, ?_⟩
  have hread := ((frames_round_trip _ hok (some [49, 50]) (by simp [maxFrameLength])
    [(5, [[1, 2], [3]])] (by simp [maxFrameLength])).2
    [[0, 0, 0, 2, 49], [50, 0, 0, 0, 11, 0, 0, 0], [0, 0, 0, 0, 5, 1, 2, 3]] (by decide)).1
  exact hread.trans rfl

/-- `send_to` with a payload of `max_frame_length - 7` bytes: the sender task, writing all at
once, frames it with the length `max_frame_length + 1`, and the peer's reader yields the codec's
error instead of the frame, even with the whole stream in one read. -/
theorem frame_too_long_is_lost :
    let payload : List UInt8 := List.replicate (maxFrameLength - 7) 0
    senderTask (fun _ bufs ↦ remaining bufs) [(0, [payload])] =
      some (beBytes 4 (maxFrameLength + 1) ++ beBytes 8 0 ++ payload) ∧
    readFrames .head [] [beBytes 4 (maxFrameLength + 1) ++ beBytes 8 0 ++ payload] =
      ([], some "frame size too big") := by
  intro payload
  have hwrite : ∀ (call : ℕ) (bufs : List (List UInt8)), WriteOk bufs (remaining bufs) := by
    intro _ bufs
    unfold WriteOk
    split <;> omega
  have hframe : messageFrame (0, [payload]) = beBytes 8 0 ++ payload := by
    rw [messageFrame, List.flatten_singleton, UInt64.toNat_zero]
  have hlen : (messageFrame (0, [payload])).length = maxFrameLength + 1 := by
    rw [hframe, List.length_append, length_beBytes, List.length_replicate]
    unfold maxFrameLength
    omega
  have hmap := @mapM_map_eq_some _ _ _ id
    (fun m ↦ sendMessage (fun _ bufs ↦ remaining bufs) m.1 m.2)
    (fun m ↦ encodeFrame (messageFrame m)) [(0, [payload])]
    fun m _ ↦ sendMessage_spec _ hwrite m.1 m.2
  simp only [List.map_id, List.map_cons, List.map_nil, id_eq] at hmap
  have herr : decode .head (beBytes 4 (maxFrameLength + 1) ++ (beBytes 8 0 ++ payload)) =
      .error "frame size too big" :=
    decode_of_too_long (by omega) (by unfold maxFrameLength; decide) _
  refine ⟨?_, ?_⟩
  · rw [senderTask, hmap, Option.map_some', List.flatten_singleton, encodeFrame, hlen, hframe,
      List.append_assoc]
  · rw [readFrames, List.nil_append, List.append_assoc, decodeAll_of_error herr]

end MadsimNet
