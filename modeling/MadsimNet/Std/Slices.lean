import Mathlib.Data.List.Basic

/-!
# The sender task's vectored write loop

The sender task of a std-mode connection writes the slices of each message with
`while !bufs.is_empty() { n = write_vectored(bufs); advance_slices(&mut bufs, n) }`, where
tcp.rs copies `advance_slices` from std 1.60.0. `advanceSlices` states that function on lists of
bytes, with `none` where Rust panics: a range `[remove..]` past the end of the list, the
subtraction `n - accumulated_len` below zero, or a slice start past the end of the first buffer.
Its loop is `advanceCount`, and `advanceCount_spec` says what it counts: the longest prefix of
buffers that fits in `n` bytes. `advanceSlices_split` is what the call returns from there, and
`advanceSlices_spec` follows: the call never panics, the bytes left are the old ones with the
first `n` dropped, and no slice is left once `n` reaches the total. `advanceSlices_in_bounds`
adds the bounds of each slicing, on `remove` and on `n - accumulated_len`, and that the first
slice left is never empty.

`writeLoop` is the loop itself, with the writer as a function `write` from the number of the call
and the slices left to the result of `write_vectored`; a call that returns `n` writes the first
`n` bytes left. `write_loop_writes_all` states what it does: for every writer that writes at
least one byte and at most what is left while bytes are left, and none once none are, the loop
ends after at most the total length plus one calls and writes the concatenation of the slices, in
order.

Scope. `usize` arithmetic is on `ℕ`: the lengths are those of slices in memory, whose sum cannot
reach `usize::MAX`. What `write_vectored` does with the bytes past the writer is not modelled.
-/

set_option autoImplicit false
set_option relaxedAutoImplicit false

namespace MadsimNet

/-! ### `advance_slices` -/

/-- The `for` loop of `advance_slices`, from the counts so far: the number of leading buffers
that fit in `n` bytes (`remove`) and their total length (`accumulated_len`). -/
def advanceCount (n : ℕ) : List (List UInt8) → ℕ → ℕ → ℕ × ℕ
  | [], remove, accumulatedLen => (remove, accumulatedLen)
  | buf :: bufs, remove, accumulatedLen =>
    if accumulatedLen + buf.length > n then (remove, accumulatedLen)
    else advanceCount n bufs (remove + 1) (accumulatedLen + buf.length)

/-- `advance_slices(bufs, n)`: drop the buffers that fit in `n` bytes and advance the first
remaining one past the rest of the `n` bytes; `none` where Rust panics. -/
def advanceSlices (bufs : List (List UInt8)) (n : ℕ) : Option (List (List UInt8)) := do
  let (remove, accumulatedLen) := advanceCount n bufs 0 0
  guard (remove ≤ bufs.length)
  match bufs.drop remove with
  | [] => pure []
  | buf :: rest =>
    guard (accumulatedLen ≤ n)
    guard (n - accumulatedLen ≤ buf.length)
    pure (buf.drop (n - accumulatedLen) :: rest)

/-- The loop takes the longest prefix of buffers whose bytes fit in `n`. -/
theorem advanceCount_spec (n : ℕ) :
    ∀ (bufs : List (List UInt8)) (remove accumulatedLen : ℕ), accumulatedLen ≤ n →
      ∃ pre rest, bufs = pre ++ rest ∧
        advanceCount n bufs remove accumulatedLen =
          (remove + pre.length, accumulatedLen + pre.flatten.length) ∧
        accumulatedLen + pre.flatten.length ≤ n ∧
        ∀ buf ∈ rest.head?, n < accumulatedLen + pre.flatten.length + buf.length
  | [], remove, accumulatedLen, h =>
    ⟨[], [], rfl, by simp [advanceCount], by simpa using h, by simp⟩
  | buf :: bufs, remove, accumulatedLen, h => by
    by_cases hfit : accumulatedLen + buf.length > n
    · exact ⟨[], buf :: bufs, rfl, by simp [advanceCount, hfit], by simpa using h,
        by simpa using hfit⟩
    · obtain ⟨pre, rest, rfl, hcount, hle, hnext⟩ :=
        advanceCount_spec n bufs (remove + 1) (accumulatedLen + buf.length) (by omega)
      refine ⟨buf :: pre, rest, rfl, ?_, ?_, ?_⟩
      · simp only [advanceCount, hfit, if_false, hcount, List.length_cons, List.flatten_cons,
          List.length_append, Prod.mk.injEq]
        omega
      · simp only [List.flatten_cons, List.length_append]
        omega
      · intro b hb
        have := hnext b hb
        simp only [List.flatten_cons, List.length_append]
        omega

/-- `advance_slices` from the split of `advanceCount_spec`: the buffers that fit are dropped and the
first one left, if any, is advanced past the rest of the `n` bytes, which is short of its end. -/
theorem advanceSlices_split (bufs : List (List UInt8)) (n : ℕ) :
    ∃ pre rest, bufs = pre ++ rest ∧ advanceCount n bufs 0 0 = (pre.length, pre.flatten.length) ∧
      pre.flatten.length ≤ n ∧ (∀ buf ∈ rest.head?, n - pre.flatten.length < buf.length) ∧
      advanceSlices bufs n = some (rest.modifyHead (List.drop (n - pre.flatten.length))) := by
  obtain ⟨pre, rest, rfl, hcount, hle, hnext⟩ := advanceCount_spec n bufs 0 0 (Nat.zero_le n)
  simp only [Nat.zero_add] at hcount hle hnext
  have hlt : ∀ buf ∈ rest.head?, n - pre.flatten.length < buf.length := fun buf hbuf ↦ by
    have := hnext buf hbuf
    omega
  refine ⟨pre, rest, rfl, hcount, hle, hlt, ?_⟩
  cases rest with
  | nil =>
    simp only [List.append_nil] at hcount ⊢
    simp [advanceSlices, hcount]
  | cons buf rest =>
    have hfit : n ≤ buf.length + pre.flatten.length := by
      have := hlt buf rfl
      omega
    simp only [List.length_flatten] at hle hfit
    simp [advanceSlices, hcount, hle, hfit]

/-- The specification of `advance_slices`: it never panics, the bytes left are the old ones
without the first `n`, and nothing is left once `n` reaches the total. -/
theorem advanceSlices_spec (bufs : List (List UInt8)) (n : ℕ) :
    ∃ bufs', advanceSlices bufs n = some bufs' ∧ bufs'.flatten = bufs.flatten.drop n ∧
      (bufs.flatten.length ≤ n → bufs' = []) := by
  obtain ⟨pre, rest, rfl, -, hle, hlt, hadv⟩ := advanceSlices_split bufs n
  refine ⟨_, hadv, ?_, fun h ↦ ?_⟩
  · rw [List.flatten_append, List.drop_append_eq_append_drop, List.drop_eq_nil_of_le hle,
      List.nil_append]
    cases rest with
    | nil => simp
    | cons buf rest =>
      rw [List.modifyHead_cons, List.flatten_cons, List.flatten_cons,
        List.drop_append_of_le_length (hlt buf rfl).le]
  · cases rest with
    | nil => rfl
    | cons buf rest =>
      have := hlt buf rfl
      simp only [List.flatten_append, List.flatten_cons, List.length_append] at h
      omega

/-- For every list of slices and every `n`, `advance_slices` slices in bounds: `[remove..]` is
within the list and, where a buffer is left, `n - accumulated_len` does not go below zero and is
less than that buffer's length. The bytes left are the old ones without the first `n`, none once
`n` reaches the total, and the first slice left is not empty. -/
theorem advanceSlices_in_bounds (bufs : List (List UInt8)) (n : ℕ) :
    (advanceCount n bufs 0 0).1 ≤ bufs.length ∧
      (∀ buf ∈ (bufs.drop (advanceCount n bufs 0 0).1).head?,
        (advanceCount n bufs 0 0).2 ≤ n ∧ n - (advanceCount n bufs 0 0).2 < buf.length) ∧
      ∃ bufs', advanceSlices bufs n = some bufs' ∧ bufs'.flatten = bufs.flatten.drop n ∧
        (bufs.flatten.length ≤ n → bufs' = []) ∧ ∀ buf ∈ bufs'.head?, buf ≠ [] := by
  obtain ⟨bufs', hadv, hflat, hempty⟩ := advanceSlices_spec bufs n
  obtain ⟨pre, rest, rfl, hcount, hle, hlt, hadv'⟩ := advanceSlices_split bufs n
  rw [hadv', Option.some.injEq] at hadv
  subst hadv
  rw [hcount, List.drop_left]
  refine ⟨by simp, fun buf hbuf ↦ ⟨hle, hlt buf hbuf⟩, _, hadv', hflat, hempty, ?_⟩
  cases rest with
  | nil => simp
  | cons buf rest =>
    have := hlt buf rfl
    simp only [List.modifyHead_cons, List.head?_cons, Option.mem_def, Option.some.injEq]
    rintro _ rfl hnil
    have hlen := congrArg List.length hnil
    rw [List.length_drop, List.length_nil] at hlen
    omega

/-! ### The write loop -/

/-- The number of bytes the slices hold. -/
def remaining (bufs : List (List UInt8)) : ℕ := bufs.flatten.length

/-- A result `n` of `write_vectored(bufs)` that makes progress: at least one byte and at most
what is left while bytes are left, and none once none are. -/
def WriteOk (bufs : List (List UInt8)) (n : ℕ) : Prop :=
  if 0 < remaining bufs then 1 ≤ n ∧ n ≤ remaining bufs else n = 0

/-- The sender task's loop `while !bufs.is_empty() { n = write_vectored(bufs);
advance_slices(&mut bufs, n) }`, for at most `fuel` calls numbered from `call`: `write call bufs`
is the result of a call, which writes the first that many bytes left. Returns the bytes written,
in order, and the number of the next call; `none` where it panics or runs out of fuel. -/
def writeLoop (write : ℕ → List (List UInt8) → ℕ) :
    ℕ → ℕ → List (List UInt8) → Option (List UInt8 × ℕ)
  | _, call, [] => some ([], call)
  | 0, _, _ :: _ => none
  | fuel + 1, call, buf :: bufs => do
    let n := write call (buf :: bufs)
    let bufs' ← advanceSlices (buf :: bufs) n
    let (written, next) ← writeLoop write fuel (call + 1) bufs'
    pure ((buf :: bufs).flatten.take n ++ written, next)

/-- Assumes: every result of the writer is allowed. Then with more fuel than bytes the loop ends,
after at most one call more than there are bytes, having written all of them in order. -/
theorem writeLoop_spec (write : ℕ → List (List UInt8) → ℕ)
    (hwrite : ∀ call bufs, WriteOk bufs (write call bufs)) :
    ∀ (fuel call : ℕ) (bufs : List (List UInt8)), remaining bufs < fuel →
      ∃ calls ≤ remaining bufs + 1,
        writeLoop write fuel call bufs = some (bufs.flatten, call + calls)
  | _, call, [], _ => ⟨0, by omega, by simp [writeLoop]⟩
  | 0, _, _ :: _, h => absurd h (Nat.not_lt_zero _)
  | fuel + 1, call, buf :: bufs, h => by
    obtain ⟨bufs', hadv, hflat, hempty⟩ :=
      advanceSlices_spec (buf :: bufs) (write call (buf :: bufs))
    have hok := hwrite call (buf :: bufs)
    by_cases hpos : 0 < remaining (buf :: bufs)
    · rw [WriteOk, if_pos hpos] at hok
      have hrem : remaining bufs' + write call (buf :: bufs) = remaining (buf :: bufs) := by
        simp only [remaining, hflat, List.length_drop] at hok ⊢
        omega
      obtain ⟨calls, hcalls, hloop⟩ := writeLoop_spec write hwrite fuel (call + 1) bufs' (by omega)
      refine ⟨calls + 1, by omega, ?_⟩
      simp [writeLoop, hadv, hloop, hflat, Nat.add_assoc, Nat.add_comm 1]
    · rw [WriteOk, if_neg hpos] at hok
      have hzero : remaining (buf :: bufs) = 0 := by omega
      have hnil : bufs' = [] := hempty (by rw [hok]; exact hzero.le)
      rw [hok, hnil] at hadv
      refine ⟨1, by omega, ?_⟩
      simp [writeLoop, hadv, hok, List.eq_nil_of_length_eq_zero hzero]

/-- Every run of the sender task's write loop whose `write_vectored` results are allowed ends after
at most the total length plus one calls, and the bytes written, in order, are the concatenation of
the slices. -/
theorem write_loop_writes_all (write : ℕ → List (List UInt8) → ℕ)
    (hwrite : ∀ call bufs, WriteOk bufs (write call bufs)) (bufs : List (List UInt8)) :
    ∃ calls ≤ remaining bufs + 1,
      writeLoop write (remaining bufs + 1) 0 bufs = some (bufs.flatten, calls) := by
  simpa using writeLoop_spec write hwrite (remaining bufs + 1) 0 bufs (by omega)

/-- A writer that takes one byte per call is allowed; it writes two slices of three bytes in
all. -/
theorem write_loop_writes_all_byte_by_byte :
    (∀ (_ : ℕ) (bufs : List (List UInt8)), WriteOk bufs (min 1 (remaining bufs))) ∧
    ∃ calls ≤ remaining [[1, 2], [3]] + 1,
      writeLoop (fun _ bufs ↦ min 1 (remaining bufs)) (remaining [[1, 2], [3]] + 1) 0
        [[1, 2], [3]] = some ([[1, 2], [3]].flatten, calls) := by
  have hok : ∀ (_ : ℕ) (bufs : List (List UInt8)), WriteOk bufs (min 1 (remaining bufs)) := by
    intro _ bufs
    unfold WriteOk
    split <;> omega
  exact ⟨hok, write_loop_writes_all _ hok [[1, 2], [3]]⟩

end MadsimNet
