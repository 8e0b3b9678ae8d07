import TincQuic.Lib.CBuffer

/-!
# `buffer.c`

What arrives on a stream is collected in a buffer until it can be read in lines.  The buffer moves
its contents to the front only when it has to or when much of it was read, and forgets where it was
once it is empty.

* `MetaBuffer` is `buffer_t` with its array; every access to the array is checked, and the numbers
  are 32-bit numbers.
* `queueStep` is the same seen from outside, on a list of bytes.  No byte is lost or repeated:
  `queueRun_conserves`.
* `Queued` says that the part of the array between `offset` and `len` is the queue.  **Every
  operation keeps it and returns what the queue does**: `Queued.step`, `buffer_is_queue`.
-/

namespace Tinc

open CText CBuffer

/-! ## The queue -/

/-- The operations on a buffer. -/
inductive BufferOp where
  | add (bytes : List UInt8)
  | readline
  | read (size : ℕ)
  | compact (maxsize : ℕ)

/-- What an operation returns: nothing or NULL, a line without its newline, or bytes. -/
inductive BufferOut where
  | nothing
  | line (text : List UInt8)
  | bytes (data : List UInt8)
  deriving DecidableEq

/-- One operation on a queue; a line is what stands before the first newline. -/
def queueStep (queue : List UInt8) : BufferOp → List UInt8 × BufferOut
  | .add bytes => (queue ++ bytes, .nothing)
  | .readline =>
      if 10 ∈ queue then
        ((queue.dropWhile (· ≠ 10)).tail, .line (queue.takeWhile (· ≠ 10)))
      else (queue, .nothing)
  | .read size =>
      if queue.length < size then (queue, .nothing)
      else (queue.drop size, .bytes (queue.take size))
  | .compact _ => (queue, .nothing)

/-- A run of the queue, and what it returned. -/
def queueRun (queue : List UInt8) : List BufferOp → List UInt8 × List BufferOut
  | [] => (queue, [])
  | op :: ops =>
      let (queue', out) := queueStep queue op
      let (last, outs) := queueRun queue' ops
      (last, out :: outs)

/-- The bytes that were taken out, newlines included. -/
def BufferOut.taken : BufferOut → List UInt8
  | .nothing => []
  | .line text => text ++ [10]
  | .bytes data => data

/-- The bytes that are put in. -/
def BufferOp.added : BufferOp → List UInt8
  | .add bytes => bytes
  | _ => []

/-- The stream that a run puts in. -/
def arrivals (ops : List BufferOp) : List UInt8 := ops.flatMap BufferOp.added

/-- A line, its newline, and the rest. -/
lemma takeWhile_newline {queue : List UInt8} (h : 10 ∈ queue) :
    queue.takeWhile (· ≠ 10) ++ 10 :: (queue.dropWhile (· ≠ 10)).tail = queue := by
  induction queue with
  | nil => cases h
  | cons c queue ih =>
      by_cases hc : c = 10
      · simp [hc]
      · have hmem : 10 ∈ queue := (List.mem_cons.mp h).resolve_left (Ne.symm hc)
        rw [List.takeWhile_cons_of_pos (by simpa using hc),
          List.dropWhile_cons_of_pos (by simpa using hc), List.cons_append, ih hmem]

lemma queueStep_conserves (queue : List UInt8) (op : BufferOp) :
    (queueStep queue op).2.taken ++ (queueStep queue op).1 = queue ++ op.added := by
  cases op with
  | add bytes => rfl
  | readline =>
      rw [queueStep]
      split
      · rename_i h
        simp only [BufferOut.taken, BufferOp.added, List.append_assoc, List.singleton_append,
          takeWhile_newline h, List.append_nil]
      · simp [BufferOut.taken, BufferOp.added]
  | read size =>
      rw [queueStep]
      split
      · simp [BufferOut.taken, BufferOp.added]
      · simp [BufferOut.taken, BufferOp.added]
  | compact maxsize => simp [queueStep, BufferOut.taken, BufferOp.added]

/-- **No byte is lost or repeated**: what was taken out and what is left is what was put in. -/
lemma queueRun_conserves (queue : List UInt8) (ops : List BufferOp) :
    (queueRun queue ops).2.flatMap BufferOut.taken ++ (queueRun queue ops).1 =
      queue ++ arrivals ops := by
  induction ops generalizing queue with
  | nil => simp [queueRun, arrivals]
  | cons op ops ih =>
      have hstep := queueStep_conserves queue op
      simp only [queueRun, List.flatMap_cons, arrivals, List.append_assoc] at ih ⊢
      rw [ih, ← List.append_assoc, hstep, List.append_assoc]

/-- What is returned as a line is one line. -/
lemma queueRun_lines (queue : List UInt8) (ops : List BufferOp) (text : List UInt8)
    (h : .line text ∈ (queueRun queue ops).2) : 10 ∉ text := by
  induction ops generalizing queue with
  | nil => cases h
  | cons op ops ih =>
      rcases List.mem_cons.mp h with h | h
      · cases op with
        | readline =>
            dsimp only at h
            split at h
            · obtain rfl := BufferOut.line.inj h
              intro hmem
              simpa using List.mem_takeWhile_imp hmem
            · cases h
        | add bytes => cases h
        | compact maxsize => cases h
        | read size =>
            dsimp only at h
            split at h <;> cases h
      · exact ih _ h

/-! ## The buffer -/

/-- `buffer_t`; there is no array while `data` is NULL. -/
structure MetaBuffer where
  data : Option (List UInt8) := none
  maxlen : ℕ := 0
  len : ℕ := 0
  offset : ℕ := 0

/-- The sum of two `uint32_t`. -/
def add32 (a b : ℕ) : ℕ := (a + b) % 2 ^ 32

namespace MetaBuffer

variable (b : MetaBuffer)

/-- The contents are moved to the front.  Nothing is moved where there is no array. -/
def toFront : Option MetaBuffer :=
  match b.data with
  | none => some { b with len := b.len - b.offset, offset := 0 }
  | some data =>
      (memmove data 0 b.offset (b.len - b.offset)).map fun data =>
        { b with data := some data, len := b.len - b.offset, offset := 0 }

/-- `buffer_compact` -/
def compact (maxsize : ℕ) : Option MetaBuffer :=
  if maxsize ≤ b.len ∨ b.len / 8 < b.offset / 7 then b.toFront else some b

/-- `xrealloc`; what is new in the array is not read before it is written. -/
def realloc (data : List UInt8) (size : ℕ) : List UInt8 :=
  data.take size ++ List.replicate (size - data.length) 0

/-- The array is made larger if it has no room for so many bytes. -/
def grow (size : ℕ) : MetaBuffer :=
  if b.maxlen < add32 b.len size then
    { b with
      data := b.data.map (realloc · (add32 b.len size))
      maxlen := add32 b.len size }
  else b

/-- The contents are moved to the front if there is no room behind them. -/
def makeRoom (size : ℕ) : Option MetaBuffer :=
  if b.offset ≠ 0 ∧ b.maxlen < add32 b.len size then b.toFront else some b

/-- `buffer_prepare`: the buffer, and the position where the new bytes begin. -/
def prepare (size : ℕ) : Option (MetaBuffer × ℕ) :=
  match b.data with
  | none =>
      some ({ b with
        data := some (List.replicate size 0)
        maxlen := size
        len := add32 b.len size }, b.len)
  | some _ => do
      let b ← b.makeRoom size
      let b := b.grow size
      some ({ b with len := add32 b.len size }, b.len)

/-- `buffer_add` -/
def add (bytes : List UInt8) : Option MetaBuffer := do
  let (b, start) ← b.prepare bytes.length
  let data ← b.data
  let data ← store data start bytes
  some { b with data := some data }

/-- `buffer_consume`; the bytes begin at the old offset. -/
def consume (size : ℕ) : MetaBuffer :=
  if b.len ≤ add32 b.offset size then { b with offset := 0, len := 0 }
  else { b with offset := add32 b.offset size }

/-- `buffer_readline`: the line up to the null that replaces its newline.  `memchr` looks at no byte
of an empty buffer. -/
def readline : Option (MetaBuffer × BufferOut) :=
  match b.data with
  | none => some (b, .nothing)
  | some data => do
      let text ← load data b.offset (b.len - b.offset)
      if 10 ∈ text then
        let len := (text.takeWhile (· ≠ 10)).length + 1
        let data ← store data (b.offset + len - 1) [0]
        let line ← load data b.offset (len - 1)
        some (({ b with data := some data }).consume len, .line line)
      else some (b, .nothing)

/-- `buffer_read`; where there is no array, the pointer returned is NULL. -/
def read (size : ℕ) : Option (MetaBuffer × BufferOut) :=
  if b.len - b.offset < size then some (b, .nothing)
  else
    match b.data with
    | none => some (b.consume size, .nothing)
    | some data => do
        let bytes ← load data b.offset size
        some (b.consume size, .bytes bytes)

/-- One operation. -/
def step : BufferOp → Option (MetaBuffer × BufferOut)
  | .add bytes => (b.add bytes).map (·, .nothing)
  | .readline => b.readline
  | .read size => b.read size
  | .compact maxsize => (b.compact maxsize).map (·, .nothing)

/-- A run of the buffer, and what it returned. -/
def run (b : MetaBuffer) : List BufferOp → Option (MetaBuffer × List BufferOut)
  | [] => some (b, [])
  | op :: ops => do
      let (b, out) ← b.step op
      let (b, outs) ← b.run ops
      some (b, out :: outs)

end MetaBuffer

/-! ## The buffer is the queue -/

/-- The queue is what stands between the offset and the length. -/
structure Queued (b : MetaBuffer) (queue : List UInt8) : Prop where
  len : b.len = b.offset + queue.length
  maxlen : (b.data.getD []).length = b.maxlen
  data : ∃ front rest, b.data.getD [] = front ++ queue ++ rest ∧ front.length = b.offset

variable {b b' : MetaBuffer} {queue : List UInt8} {size total : ℕ}

lemma add32_of_lt {a b : ℕ} (h : a + b < 2 ^ 32) : add32 a b = a + b := Nat.mod_eq_of_lt h

lemma Queued.bounds (h : Queued b queue) : b.offset ≤ b.len ∧ b.len ≤ b.maxlen := by
  obtain ⟨front, rest, hdata, hfront⟩ := h.data
  have hlen := h.len
  rw [← h.maxlen, hdata]
  simp only [List.length_append]
  omega

/-- Without an array there is nothing in the queue. -/
lemma Queued.of_none (h : Queued b queue) (hdata : b.data = none) :
    queue = [] ∧ b.offset = 0 ∧ b.len = 0 ∧ b.maxlen = 0 := by
  have hmax := h.maxlen
  have hbounds := h.bounds
  have hlen := h.len
  rw [hdata, Option.getD_none, List.length_nil] at hmax
  exact ⟨List.length_eq_zero_iff.mp (by omega), by omega, by omega, by omega⟩

/-- The array, and what is in it. -/
lemma Queued.of_some (h : Queued b queue) {data : List UInt8} (hdata : b.data = some data) :
    ∃ front rest, data = front ++ queue ++ rest ∧ front.length = b.offset := by
  simpa [hdata] using h.data

/-- After a move to the front, the queue begins at the beginning. -/
lemma Queued.toFront (h : Queued b queue) : ∃ b', b.toFront = some b' ∧ Queued b' queue ∧
    b'.offset = 0 ∧ b'.maxlen = b.maxlen ∧ (b'.data = none ↔ b.data = none) := by
  have hlen := h.len
  have hmax := h.maxlen
  unfold MetaBuffer.toFront
  cases hdata : b.data with
  | none =>
      obtain ⟨rfl, h1, h2, h3⟩ := h.of_none hdata
      refine ⟨_, rfl, ⟨?_, ?_, [], [], rfl, rfl⟩, rfl, rfl, Iff.rfl⟩
      · simp [h1, h2]
      · simp [h3]
  | some data =>
      obtain ⟨front, rest, rfl, hfront⟩ := h.of_some hdata
      have hload : load (front ++ queue ++ rest) b.offset (b.len - b.offset) = some queue := by
        rw [← hfront, hlen, hfront, Nat.add_sub_cancel_left, ← hfront]
        exact load_append front queue rest
      have hfits : 0 + queue.length ≤ (front ++ queue ++ rest).length := by
        simp only [List.length_append]
        omega
      have hmove : memmove (front ++ queue ++ rest) 0 b.offset (b.len - b.offset) =
          some (queue ++ (front ++ queue ++ rest).drop queue.length) := by
        rw [memmove, hload, Option.bind_some, store_of_le hfits, Nat.zero_add, List.take_zero,
          List.nil_append]
      rw [hdata, Option.getD_some] at hmax
      dsimp only
      rw [hmove]
      refine ⟨_, rfl, ⟨?_, ?_, [], _, rfl, rfl⟩, rfl, rfl, by simp⟩
      · dsimp only
        omega
      · simp only [Option.getD_some, List.length_append, List.length_drop] at hmax ⊢
        omega

/-- A larger array holds the same, and has room for what comes. -/
lemma Queued.grow (h : Queued b queue) (hroom : b.len + size < 2 ^ 32) (hdata : b.data ≠ none) :
    Queued (b.grow size) queue ∧ (b.grow size).data ≠ none ∧ (b.grow size).len = b.len ∧
      (b.grow size).offset = b.offset ∧ b.len + size ≤ (b.grow size).maxlen := by
  obtain ⟨data, hdata⟩ := Option.ne_none_iff_exists'.mp hdata
  obtain ⟨front, rest, rfl, hfront⟩ := h.of_some hdata
  have hlen := h.len
  have hmax := h.maxlen
  have hbounds := h.bounds
  rw [hdata, Option.getD_some] at hmax
  unfold MetaBuffer.grow
  rw [add32_of_lt hroom]
  split
  · rename_i hsmall
    have hgrown : MetaBuffer.realloc (front ++ queue ++ rest) (b.len + size) =
        front ++ queue ++ (rest ++ List.replicate (b.len + size - b.maxlen) 0) := by
      rw [MetaBuffer.realloc, List.take_of_length_le (by omega), hmax, List.append_assoc]
    refine ⟨⟨hlen, ?_, front, rest ++ List.replicate (b.len + size - b.maxlen) 0, ?_, hfront⟩,
      by simp [hdata], rfl, rfl, le_rfl⟩
    · simp only [hdata, Option.map_some, Option.getD_some, hgrown]
      simp only [List.length_append, List.length_replicate] at hmax ⊢
      omega
    · simp only [hdata, Option.map_some, Option.getD_some, hgrown]
  · rename_i hlarge
    exact ⟨h, by simp [hdata], rfl, rfl, by omega⟩

/-- Bytes are stored behind the queue, where there is room for them. -/
lemma Queued.store (h : Queued b queue) {data bytes : List UInt8} (hdata : b.data = some data)
    (hroom : b.len + bytes.length ≤ b.maxlen) :
    ∃ data', store data b.len bytes = some data' ∧
      Queued { b with data := some data', len := b.len + bytes.length } (queue ++ bytes) := by
  obtain ⟨front, rest, rfl, hfront⟩ := h.of_some hdata
  have hlen := h.len
  have hmax := h.maxlen
  rw [hdata, Option.getD_some] at hmax
  have hplace : b.len = (front ++ queue).length := by
    rw [List.length_append]
    omega
  have hshort : bytes.length ≤ rest.length := by
    rw [List.length_append, ← hplace] at hmax
    omega
  have hsplit : front ++ queue ++ rest =
      front ++ queue ++ rest.take bytes.length ++ rest.drop bytes.length := by
    rw [List.append_assoc (front ++ queue), List.take_append_drop]
  have hstore : CBuffer.store (front ++ queue ++ rest) b.len bytes =
      some (front ++ queue ++ bytes ++ rest.drop bytes.length) := by
    rw [hsplit, hplace]
    refine store_append _ _ _ ?_
    rw [List.length_take]
    omega
  refine ⟨_, hstore, ?_, ?_, front, rest.drop bytes.length, ?_, hfront⟩
  · rw [List.length_append]
    dsimp only
    omega
  · dsimp only
    rw [Option.getD_some, length_store hstore, hmax]
  · dsimp only
    rw [Option.getD_some, List.append_assoc front queue]

/-- The contents may be moved. -/
lemma Queued.makeRoom (h : Queued b queue) (size : ℕ) (hdata : b.data ≠ none) :
    ∃ b', b.makeRoom size = some b' ∧ Queued b' queue ∧ b'.len ≤ b.len ∧ b'.data ≠ none := by
  unfold MetaBuffer.makeRoom
  split
  · obtain ⟨b', hfront, hq, hoff, -, hnone⟩ := h.toFront
    refine ⟨b', hfront, hq, ?_, fun hn => hdata (hnone.mp hn)⟩
    rw [hq.len, h.len]
    omega
  · exact ⟨b, rfl, h, le_rfl, hdata⟩

/-- `buffer_add` appends. -/
lemma Queued.add (h : Queued b queue) (bytes : List UInt8) (hroom : b.len + bytes.length < 2 ^ 32) :
    ∃ b', b.add bytes = some b' ∧ Queued b' (queue ++ bytes) ∧ b'.len ≤ b.len + bytes.length := by
  unfold MetaBuffer.add MetaBuffer.prepare
  cases hdata : b.data with
  | none =>
      obtain ⟨rfl, h1, h2, h3⟩ := h.of_none hdata
      have hstore : CBuffer.store (List.replicate bytes.length 0) 0 bytes = some bytes := by
        have hall := store_append [] (List.replicate bytes.length 0) []
          (List.length_replicate (n := bytes.length) (a := (0 : UInt8))).symm
        simpa using hall
      simp only [h2, add32_of_lt (show 0 + bytes.length < 2 ^ 32 by omega), Option.bind_eq_bind,
        Option.bind_some, hstore]
      refine ⟨_, rfl, ⟨?_, rfl, [], [], by simp, h1.symm⟩, le_rfl⟩
      simp [h1]
  | some data =>
      obtain ⟨b₁, hb₁, hq₁, hlen₁, hdata₁⟩ := h.makeRoom bytes.length (by simp [hdata])
      obtain ⟨hq₂, hdata₂, hlen₂, hoff₂, hroom₂⟩ :=
        hq₁.grow (show b₁.len + bytes.length < 2 ^ 32 by omega) hdata₁
      obtain ⟨data₂, hdata₂⟩ := Option.ne_none_iff_exists'.mp hdata₂
      obtain ⟨data₃, hstore, hq₃⟩ := hq₂.store hdata₂ (by rw [hlen₂]; exact hroom₂)
      simp only [Option.bind_eq_bind, hb₁, Option.bind_some, hdata₂, hstore,
        add32_of_lt (show (b₁.grow bytes.length).len + bytes.length < 2 ^ 32 by omega)]
      exact ⟨_, rfl, hq₃, by dsimp only; omega⟩

/-- `buffer_consume` takes bytes from the front. -/
lemma Queued.consume (h : Queued b queue) (hsize : size ≤ queue.length) (hlt : b.len < 2 ^ 32) :
    Queued (b.consume size) (queue.drop size) ∧ (b.consume size).len ≤ b.len := by
  have hlen := h.len
  unfold MetaBuffer.consume
  rw [add32_of_lt (by omega)]
  split
  · rename_i hall
    have hnil : queue.drop size = [] := List.drop_eq_nil_iff.mpr (by omega)
    rw [hnil]
    exact ⟨⟨rfl, h.maxlen, [], _, rfl, rfl⟩, Nat.zero_le _⟩
  · rename_i hleft
    obtain ⟨front, rest, hdata, hfront⟩ := h.data
    refine ⟨⟨?_, h.maxlen, front ++ queue.take size, rest, ?_, ?_⟩, le_rfl⟩
    · rw [List.length_drop]
      dsimp only
      omega
    · rw [List.append_assoc front, List.take_append_drop]
      exact hdata
    · rw [List.length_append, List.length_take, hfront]
      dsimp only
      omega

/-- What an operation of the buffer returns is what the queue returns, but for a read of no bytes
before there is an array, which returns NULL. -/
def BufferOut.Matches (out out' : BufferOut) : Prop :=
  out = out' ∨ out = .nothing ∧ out' = .bytes []

/-- `buffer_readline` takes the first line. -/
lemma Queued.readline (h : Queued b queue) (hlt : b.len < 2 ^ 32) :
    ∃ b' out, b.readline = some (b', out) ∧ Queued b' (queueStep queue .readline).1 ∧
      out = (queueStep queue .readline).2 ∧ b'.len ≤ b.len := by
  unfold MetaBuffer.readline queueStep
  cases hdata : b.data with
  | none =>
      obtain ⟨rfl, -⟩ := h.of_none hdata
      exact ⟨b, _, rfl, h, rfl, le_rfl⟩
  | some data =>
      obtain ⟨front, rest, rfl, hfront⟩ := h.of_some hdata
      have hlen := h.len
      have hload : load (front ++ queue ++ rest) b.offset (b.len - b.offset) = some queue := by
        rw [hlen, Nat.add_sub_cancel_left, ← hfront]
        exact load_append front queue rest
      dsimp only
      rw [hload, Option.bind_eq_bind, Option.bind_some]
      by_cases hnl : 10 ∈ queue
      · rw [if_pos hnl, if_pos hnl]
        have hqueue := takeWhile_newline hnl
        generalize queue.takeWhile (· ≠ 10) = text at *
        generalize (queue.dropWhile (· ≠ 10)).tail = left at *
        subst hqueue
        -- the newline is overwritten in place, behind the line
        have hstore : CBuffer.store (front ++ (text ++ 10 :: left) ++ rest)
            (b.offset + (text.length + 1) - 1) [0] =
              some (front ++ text ++ [0] ++ (left ++ rest)) := by
          have hplace : b.offset + (text.length + 1) - 1 = (front ++ text).length := by
            rw [List.length_append]
            omega
          rw [hplace]
          have hall := store_append (front ++ text) [10] (left ++ rest)
            (show [0].length = 1 from rfl)
          simpa using hall
        have hline : load (front ++ text ++ [0] ++ (left ++ rest)) b.offset (text.length + 1 - 1) =
            some text := by
          have hall := load_append front text ([0] ++ (left ++ rest))
          rw [Nat.add_sub_cancel, ← hfront]
          simpa using hall
        have hq : Queued { b with data := some (front ++ text ++ [0] ++ (left ++ rest)) }
            (text ++ 0 :: left) := by
          refine ⟨?_, ?_, front, rest, by simp, hfront⟩
          · rw [hlen]
            simp
          · rw [← h.maxlen, hdata]
            simp
        have hconsume := hq.consume (show text.length + 1 ≤ _ by simp) hlt
        rw [hstore, Option.bind_some, hline, Option.bind_some]
        refine ⟨_, _, rfl, ?_, rfl, hconsume.2⟩
        have hdrop : (text ++ 0 :: left).drop (text.length + 1) = left := by
          rw [← List.drop_drop, List.drop_left]
          rfl
        rw [hdrop] at hconsume
        exact hconsume.1
      · rw [if_neg hnl, if_neg hnl]
        exact ⟨b, _, rfl, h, rfl, le_rfl⟩

/-- `buffer_read` takes so many bytes, if there are so many. -/
lemma Queued.read (h : Queued b queue) (hlt : b.len < 2 ^ 32) (size : ℕ) :
    ∃ b' out, b.read size = some (b', out) ∧ Queued b' (queueStep queue (.read size)).1 ∧
      out.Matches (queueStep queue (.read size)).2 ∧ b'.len ≤ b.len := by
  have hlen := h.len
  unfold MetaBuffer.read queueStep
  dsimp only
  rw [hlen, Nat.add_sub_cancel_left, ← hlen]
  by_cases hshort : queue.length < size
  · rw [if_pos hshort, if_pos hshort]
    exact ⟨b, _, rfl, h, .inl rfl, le_rfl⟩
  · rw [if_neg hshort, if_neg hshort]
    have hconsume := h.consume (not_lt.mp hshort) hlt
    cases hdata : b.data with
    | none =>
        obtain ⟨rfl, -⟩ := h.of_none hdata
        exact ⟨_, _, rfl, hconsume.1, .inr ⟨rfl, by simp⟩, hconsume.2⟩
    | some data =>
        obtain ⟨front, rest, rfl, hfront⟩ := h.of_some hdata
        have hload : load (front ++ queue ++ rest) b.offset size = some (queue.take size) := by
          have hall := load_append front (queue.take size) (queue.drop size ++ rest)
          rw [List.length_take, min_eq_left (not_lt.mp hshort), hfront] at hall
          rw [← hall]
          congr 1
          rw [List.append_assoc, List.append_assoc, ← List.append_assoc (queue.take size),
            List.take_append_drop]
        dsimp only
        rw [hload, Option.bind_eq_bind, Option.bind_some]
        exact ⟨_, _, rfl, hconsume.1, .inl rfl, hconsume.2⟩

/-- **One operation.**  The buffer grows by no more than is put in. -/
lemma Queued.step (h : Queued b queue) (op : BufferOp)
    (hroom : b.len + op.added.length < 2 ^ 32) :
    ∃ b' out, b.step op = some (b', out) ∧ Queued b' (queueStep queue op).1 ∧
      out.Matches (queueStep queue op).2 ∧ b'.len ≤ b.len + op.added.length := by
  cases op with
  | add bytes =>
      obtain ⟨b', hadd, hq, hlen⟩ := h.add bytes hroom
      exact ⟨b', .nothing, by simp [MetaBuffer.step, hadd], hq, .inl rfl, hlen⟩
  | readline =>
      obtain ⟨b', out, hread, hq, hout, hlen⟩ := h.readline (by omega)
      exact ⟨b', out, hread, hq, .inl hout, by omega⟩
  | read size =>
      obtain ⟨b', out, hread, hq, hout, hlen⟩ := h.read (by omega) size
      exact ⟨b', out, hread, hq, hout, by omega⟩
  | compact maxsize =>
      unfold MetaBuffer.step MetaBuffer.compact
      dsimp only
      split
      · obtain ⟨b', hfront, hq, hoff, -⟩ := h.toFront
        refine ⟨b', .nothing, by rw [hfront, Option.map_some], hq, .inl rfl, ?_⟩
        rw [hq.len, h.len]
        omega
      · exact ⟨b, .nothing, rfl, h, .inl rfl, by omega⟩

/-- A run. -/
lemma Queued.run (h : Queued b queue) (ops : List BufferOp)
    (hroom : b.len + (arrivals ops).length < 2 ^ 32) :
    ∃ b' outs, b.run ops = some (b', outs) ∧ Queued b' (queueRun queue ops).1 ∧
      List.Forall₂ BufferOut.Matches outs (queueRun queue ops).2 := by
  induction ops generalizing b queue with
  | nil => exact ⟨b, [], rfl, h, .nil⟩
  | cons op ops ih =>
      have harrive : (arrivals (op :: ops)).length = op.added.length + (arrivals ops).length := by
        simp [arrivals]
      obtain ⟨b₁, out, hstep, hq₁, hout, hlen⟩ := h.step op (by omega)
      obtain ⟨b₂, outs, hrun, hq₂, houts⟩ := ih hq₁ (by omega)
      refine ⟨b₂, out :: outs, ?_, hq₂, .cons hout houts⟩
      rw [MetaBuffer.run, hstep, Option.bind_eq_bind, Option.bind_some]
      dsimp only
      rw [hrun, Option.bind_eq_bind, Option.bind_some]

/-- A buffer in which nothing was put. -/
lemma queued_empty : Queued {} [] := ⟨rfl, rfl, [], [], rfl, rfl⟩

/-- **The buffer is a queue.**  However a stream of less than `2 ^ 32` bytes is cut into pieces, and
whatever is done in between: no access is outside of the array, `offset <= len <= maxlen` holds
after every operation, and what is returned and what is left is what a queue of bytes returns and
has left.  So what was taken out, lines with their newlines, followed by what is left is the stream,
and what is returned as a line is one line. -/
theorem buffer_is_queue (ops : List BufferOp) (h : (arrivals ops).length < 2 ^ 32) :
    (∀ n, ∃ b outs, MetaBuffer.run {} (ops.take n) = some (b, outs) ∧
      b.offset ≤ b.len ∧ b.len ≤ b.maxlen ∧
      load (b.data.getD []) b.offset (b.len - b.offset) = some (queueRun [] (ops.take n)).1 ∧
      List.Forall₂ BufferOut.Matches outs (queueRun [] (ops.take n)).2) ∧
    (queueRun [] ops).2.flatMap BufferOut.taken ++ (queueRun [] ops).1 = arrivals ops ∧
    ∀ text, .line text ∈ (queueRun [] ops).2 → 10 ∉ text := by
  refine ⟨fun n => ?_, ?_, queueRun_lines [] ops⟩
  · have hpart : (arrivals (ops.take n)).length ≤ (arrivals ops).length := by
      have hsplit : arrivals ops = arrivals (ops.take n) ++ arrivals (ops.drop n) := by
        rw [arrivals, arrivals, arrivals, ← List.flatMap_append, List.take_append_drop]
      rw [hsplit, List.length_append]
      omega
    obtain ⟨b, outs, hrun, hq, houts⟩ := queued_empty.run (ops.take n) (by dsimp only; omega)
    refine ⟨b, outs, hrun, hq.bounds.1, hq.bounds.2, ?_, houts⟩
    obtain ⟨front, rest, hdata, hfront⟩ := hq.data
    rw [hdata, hq.len, Nat.add_sub_cancel_left, ← hfront]
    exact load_append front _ rest
  · simpa using queueRun_conserves [] ops

/-- Two lines that arrive in three pieces. -/
theorem buffer_is_queue_pieces :
    let ops : List BufferOp := [.add [65], .readline, .add [10, 66], .readline, .compact 0,
      .add [67, 10], .readline]
    (queueRun [] ops).2 = [.nothing, .nothing, .nothing, .line [65], .nothing, .nothing,
      .line [66, 67]] ∧
    (queueRun [] ops).2.flatMap BufferOut.taken ++ (queueRun [] ops).1 =
      [65, 10, 66, 67, 10] := by
  intro ops
  exact ⟨by decide, (buffer_is_queue ops (by decide)).2.1⟩

end Tinc
