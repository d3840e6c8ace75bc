import Etp.Frame
import Etp.Lib.Octets
import Etp.Lib.Reader

/-!
# Frames on a stream

`StreamTransport` puts frames on a stream of bytes, each behind its length in four bytes. The
stream takes what is written in pieces of its own choice (`Sink`), and delivers it in others
(`Reader.Source`).

There are two copies of the code that reads a frame: `ReadFrameInto` reads it into a buffer of
the caller, and `ReadFrameLease` into one of a pool. They do the same on every stream
(`readFrameBuffer_eq`), and what `SendFrame` has written comes back frame by frame, in whatever
mixture the two are called (`framing_lossless`).
-/

namespace Etp.Framing

open Octets Reader List

/-! ## Writing -/

/-- A stream that is written to: what it has taken, and what the next calls answer (how much they
    take at most, and the error); the calls after those take all they are given. -/
structure Sink where
  written : Bytes := []
  answers : List (ℕ × Option Err) := []

/-- `Write` of the stream. -/
def write (w : Sink) (data : Bytes) : ℕ × Option Err × Sink :=
  match w.answers with
  | [] => (data.length, none, { w with written := w.written ++ data })
  | (size, err) :: answers =>
    (min size data.length, err, { written := w.written ++ data.take size, answers := answers })

def errShortWrite : Err := "short write"

def writeFull (w : Sink) (data : Bytes) : Option Err × Sink :=
  if data = [] then (none, w)
  else
    match write w data with
    | (_, some err, w) => (some err, w)
    | (0, none, w) => (some errShortWrite, w)
    | (n + 1, none, w) => writeFull w (data.drop (n + 1))
termination_by data.length
decreasing_by
  have hpos := length_pos_iff.mpr ‹data ≠ []›
  rw [length_drop]
  omega

/-- `SendFrame`. -/
def sendFrame (w : Sink) (frame : Bytes) : Option Err × Sink :=
  if frame.length > maxFrameBytes then (some "frame exceeds max size", w)
  else
    match writeFull w (be 4 frame.length) with
    | (some err, w) => (some err, w)
    | (none, w) => writeFull w frame

/-- Calls of `SendFrame` one after another, and whether all succeed. -/
def sendFrames (w : Sink) : List Bytes → Bool × Sink
  | [] => (true, w)
  | frame :: frames =>
    match sendFrame w frame with
    | (some _, w) => (false, w)
    | (none, w) => sendFrames w frames

/-! ## Reading -/

/-- The errors of a stream. -/
inductive ReadError
  | eof
  | unexpectedEOF
  | timeout (text : Err)
  | other (text : Err)
  deriving DecidableEq, Repr

def ReadError.text : ReadError → Err
  | .eof => "EOF"
  | .unexpectedEOF => "unexpected EOF"
  | .timeout text | .other text => text

/-- A stream that is read. -/
abbrev Conn := Source UInt8 ReadError

/-- `io.ReadFull`: the buffer after it, the error and the stream after it. -/
def ioReadFull (r : Conn) (buf : Bytes) : Bytes × Option ReadError × Conn :=
  match readFull r buf.length with
  | (got, none, r) => (got ++ buf.drop got.length, none, r)
  | (got, some err, r) =>
    (got ++ buf.drop got.length,
      some (if err = .eof ∧ got ≠ [] then .unexpectedEOF else err), r)

/-- What a call of a read method meets besides the bytes: the limit it loads, and what
    `SetReadDeadline` of the stream answers it, before the length, within it and before the body. -/
structure Circumstances where
  maxFrame : ℕ
  clear : Option ReadError := none
  length : Option ReadError := none
  body : Option ReadError := none

/-- The transport is used with deadlines or without. -/
def deadline (deadlines : Bool) (answer : Option ReadError) : Option ReadError :=
  if deadlines then answer else none

/-- `readFrameLength`: the four bytes, the first on its own. -/
def readFrameLength (deadlines : Bool) (env : Circumstances) (r : Conn) :
    Except ReadError Bytes × Conn :=
  match deadline deadlines env.clear with
  | some err => (.error err, r)
  | none =>
    match ioReadFull r (List.replicate 1 0) with
    | (_, some err, r) => (.error err, r)
    | (first, none, r) =>
      match deadline deadlines env.length with
      | some err => (.error err, r)
      | none =>
        match ioReadFull r (List.replicate 3 0) with
        | (_, some err, r) => (.error err, r)
        | (rest, none, r) => (.ok (first ++ rest), r)

def classifyReadError (op : String) : ReadError → Err
  | .timeout _ => "slowloris detected: " ++ op ++ " timeout"
  | err => err.text

/-- `ReadFrameInto`; the buffer is `dst` up to its capacity. -/
def readFrameInto (deadlines : Bool) (env : Circumstances) (dst : Bytes) (r : Conn) :
    Except Err Bytes × Conn :=
  match readFrameLength deadlines env r with
  | (.error err, r) => (.error (classifyReadError "read frame length" err), r)
  | (.ok readLen, r) =>
    let n := ofBe readLen
    if n < headerSize then
      (.error ("invalid etp frame: incoming frame is smaller than header: " ++ toString n), r)
    else if n > env.maxFrame then
      (.error ("invalid etp frame: incoming frame exceeds max size: " ++ toString n ++ " > " ++
        toString env.maxFrame), r)
    else
      match deadline deadlines env.body with
      | some err => (.error err.text, r)
      | none =>
        match ioReadFull r (buffer dst n) with
        | (_, some err, r) => (.error (classifyReadError "read frame body" err), r)
        | (frame, none, r) => (.ok frame, r)

/-- `getFrameBuffer`, where the pool gives out the memory `pooled`: the bytes that are asked for. -/
def getFrameBuffer (size : ℕ) (pooled : Bytes) : Bytes :=
  buffer pooled size

/-- `readFrameBuffer`, which `ReadFrameLease` calls. -/
def readFrameBuffer (deadlines : Bool) (env : Circumstances) (pooled : Bytes) (r : Conn) :
    Except Err Bytes × Conn :=
  match readFrameLength deadlines env r with
  | (.error err, r) => (.error (classifyReadError "read frame length" err), r)
  | (.ok readLen, r) =>
    let n := ofBe readLen
    if n < headerSize then
      (.error ("invalid etp frame: incoming frame is smaller than header: " ++ toString n), r)
    else if n > env.maxFrame then
      (.error ("invalid etp frame: incoming frame exceeds max size: " ++ toString n ++ " > " ++
        toString env.maxFrame), r)
    else
      match deadline deadlines env.body with
      | some err => (.error err.text, r)
      | none =>
        match ioReadFull r (getFrameBuffer n pooled) with
        | (_, some err, r) => (.error (classifyReadError "read frame body" err), r)
        | (frame, none, r) => (.ok frame, r)

/-- A call of one of the two read methods, with the buffer it uses. -/
inductive Call
  | into (env : Circumstances) (dst : Bytes)
  | lease (env : Circumstances) (pooled : Bytes)

def Call.env : Call → Circumstances
  | .into env _ | .lease env _ => env

def readCall (deadlines : Bool) (r : Conn) : Call → Except Err Bytes × Conn
  | .into env dst => readFrameInto deadlines env dst r
  | .lease env pooled => readFrameBuffer deadlines env pooled r

/-- Calls one after another, and what they return. -/
def readCalls (deadlines : Bool) (r : Conn) : List Call → List (Except Err Bytes) × Conn
  | [] => ([], r)
  | call :: calls =>
    let (result, r) := readCall deadlines r call
    let (results, r) := readCalls deadlines r calls
    (result :: results, r)

/-! ## What is written -/

/-- A frame on the stream. -/
def framed (frame : Bytes) : Bytes := be 4 frame.length ++ frame

theorem write_written (w : Sink) (data : Bytes) :
    (write w data).2.2.written = w.written ++ data.take (write w data).1 := by
  unfold write
  split
  · rw [take_length]
  · rw [← take_eq_take_min]

theorem writeFull_written {w w' : Sink} {data : Bytes} (h : writeFull w data = (none, w')) :
    w'.written = w.written ++ data := by
  -- along the calls of `Write`: each takes a part from the front
  induction w, data using writeFull.induct with
  | case1 w =>
    rw [writeFull, if_pos rfl] at h
    cases h
    rw [append_nil]
  | case2 w data hne n err w₁ hwrite =>
    rw [writeFull, if_neg hne, hwrite] at h
    cases h
  | case3 w data hne w₁ hwrite =>
    rw [writeFull, if_neg hne, hwrite] at h
    cases h
  | case4 w data hne n w₁ hwrite ih =>
    rw [writeFull, if_neg hne, hwrite] at h
    have htaken := write_written w data
    rw [hwrite] at htaken
    dsimp only at htaken
    rw [ih h, htaken, append_assoc, take_append_drop]

theorem sendFrame_written {w w' : Sink} {frame : Bytes} (h : sendFrame w frame = (none, w')) :
    frame.length ≤ maxFrameBytes ∧ w'.written = w.written ++ framed frame := by
  unfold sendFrame at h
  split at h
  · cases h
  · rename_i hsize
    refine ⟨not_lt.mp hsize, ?_⟩
    split at h
    · cases h
    · rename_i w₁ hlen
      rw [writeFull_written h, writeFull_written hlen, framed, append_assoc]

theorem sendFrames_written {w w' : Sink} {frames : List Bytes}
    (h : sendFrames w frames = (true, w')) :
    (∀ f ∈ frames, f.length ≤ maxFrameBytes) ∧
      w'.written = w.written ++ frames.flatMap framed := by
  induction frames generalizing w with
  | nil =>
    cases h
    exact ⟨forall_mem_nil _, (append_nil _).symm⟩
  | cons frame frames ih =>
    rw [sendFrames] at h
    split at h
    · cases h
    · rename_i w₁ hsend
      obtain ⟨hsize, hframe⟩ := sendFrame_written hsend
      obtain ⟨hsizes, hframes⟩ := ih h
      refine ⟨forall_mem_cons.mpr ⟨hsize, hsizes⟩, ?_⟩
      rw [hframes, hframe, flatMap_cons, append_assoc]

/-! ## What is read -/

variable {r : Conn}

theorem ioReadFull_ok {x more : Bytes} (buf : Bytes) (hrest : r.rest = x ++ more)
    (hlen : buf.length = x.length) : ∃ r', ioReadFull r buf = (x, none, r') ∧ r'.rest = more := by
  have henough : buf.length ≤ r.rest.length := by
    rw [hrest, length_append]
    omega
  obtain ⟨r', hread, hr'⟩ := readFull_ok henough
  rw [hrest, hlen, take_left] at hread
  rw [hrest, hlen, drop_left] at hr'
  refine ⟨r', ?_, hr'⟩
  rw [ioReadFull, hlen, hread]
  simp only [drop_eq_nil_of_le hlen.le, append_nil]

/-- What is read into a buffer does not depend on what it held. -/
theorem ioReadFull_buffer (r : Conn) {buf buf' : Bytes} (hlen : buf.length = buf'.length) :
    (∃ x r', ioReadFull r buf = (x, none, r') ∧ ioReadFull r buf' = (x, none, r')) ∨
      ∃ x x' err r', ioReadFull r buf = (x, some err, r') ∧
        ioReadFull r buf' = (x', some err, r') := by
  rcases Nat.lt_or_ge r.rest.length buf.length with hfew | henough
  · obtain ⟨r', hread⟩ := readFull_error hfew
    refine .inr ⟨r.rest ++ buf.drop r.rest.length, r.rest ++ buf'.drop r.rest.length,
      if r.stop = .eof ∧ r.rest ≠ [] then .unexpectedEOF else r.stop, r', ?_, ?_⟩
    · rw [ioReadFull, hread]
    · rw [ioReadFull, ← hlen, hread]
  · obtain ⟨r', hread, -⟩ := readFull_ok henough
    have htake : (r.rest.take buf.length).length = buf.length := by
      rw [length_take, Nat.min_eq_left henough]
    refine .inl ⟨r.rest.take buf.length, r', ?_, ?_⟩
    · simp only [ioReadFull, hread, htake, drop_length, append_nil]
    · simp only [ioReadFull, ← hlen, hread, htake, drop_eq_nil_of_le hlen.ge,
        append_nil]

/-- Both read methods read the same frame or the same error, and leave the same of the stream. -/
theorem readFrameBuffer_eq (deadlines : Bool) (env : Circumstances) (dst pooled : Bytes)
    (r : Conn) :
    readFrameBuffer deadlines env pooled r = readFrameInto deadlines env dst r := by
  unfold readFrameBuffer readFrameInto
  split
  · rfl
  · rename_i readLen r₁ _
    have hlen : (getFrameBuffer (ofBe readLen) pooled).length =
        (buffer dst (ofBe readLen)).length :=
      (length_buffer ..).trans (length_buffer ..).symm
    -- up to the body the code is the same
    rcases ioReadFull_buffer r₁ hlen with ⟨x, r', hp, hd⟩ | ⟨x, x', err, r', hp, hd⟩
    · simp only [hp, hd]
    · simp only [hp, hd]

theorem readCall_eq (deadlines : Bool) (r : Conn) (call : Call) (dst : Bytes) :
    readCall deadlines r call = readFrameInto deadlines call.env dst r := by
  cases call with
  | into env dst' =>
    exact (readFrameBuffer_eq deadlines env dst' [] r).symm.trans
      (readFrameBuffer_eq deadlines env dst [] r)
  | lease env pooled => exact readFrameBuffer_eq deadlines env dst pooled r

variable {deadlines : Bool}

/-- What a sequence of calls returns does not depend on the methods and on their buffers. -/
theorem readCalls_eq {calls calls' : List Call} (r : Conn)
    (h : calls.map Call.env = calls'.map Call.env) :
    readCalls deadlines r calls = readCalls deadlines r calls' := by
  induction calls generalizing calls' r with
  | nil => rw [map_eq_nil_iff.mp h.symm]
  | cons call calls ih =>
    obtain ⟨call', calls', rfl, henv, henvs⟩ := map_eq_cons_iff.mp h.symm
    rw [readCalls, readCalls, readCall_eq deadlines r call [], readCall_eq deadlines r call' [],
      henv]
    simp only [ih _ henvs.symm]

/-! ## Both together -/

/-- The stream accepts the deadlines. -/
structure Circumstances.Calm (deadlines : Bool) (env : Circumstances) : Prop where
  clear : deadline deadlines env.clear = none
  length : deadline deadlines env.length = none
  body : deadline deadlines env.body = none

/-- The frame is one for a call: not too small, and within the limit. -/
structure Call.Takes (deadlines : Bool) (frame : Bytes) (call : Call) : Prop where
  header : headerSize ≤ frame.length
  limit : frame.length ≤ call.env.maxFrame
  calm : call.env.Calm deadlines

variable {more : Bytes}

theorem readFrameLength_ok {env : Circumstances} (henv : env.Calm deadlines) {n : ℕ}
    (hrest : r.rest = be 4 n ++ more) :
    ∃ r', readFrameLength deadlines env r = (.ok (be 4 n), r') ∧ r'.rest = more := by
  have hsplit : be 4 n = (be 4 n).take 1 ++ (be 4 n).drop 1 := (take_append_drop 1 _).symm
  rw [hsplit, append_assoc] at hrest
  obtain ⟨r₁, hfirst, hr₁⟩ := ioReadFull_ok (List.replicate 1 0) hrest (by simp)
  obtain ⟨r₂, hlast, hr₂⟩ := ioReadFull_ok (List.replicate 3 0) hr₁ (by simp)
  refine ⟨r₂, ?_, hr₂⟩
  simp only [readFrameLength, henv.clear, hfirst, henv.length, hlast]
  rw [← hsplit]

theorem readCall_framed {frame : Bytes} {call : Call} (h : call.Takes deadlines frame)
    (hsize : frame.length ≤ maxFrameBytes) (hrest : r.rest = framed frame ++ more) :
    ∃ r', readCall deadlines r call = (.ok frame, r') ∧ r'.rest = more := by
  rw [framed, append_assoc] at hrest
  obtain ⟨r₁, hlength, hr₁⟩ := readFrameLength_ok h.calm hrest
  have hn : ofBe (be 4 frame.length) = frame.length := by
    refine ofBe_be (hsize.trans_lt ?_)
    decide
  obtain ⟨r₂, hbody, hr₂⟩ := ioReadFull_ok (buffer [] frame.length) hr₁ (length_buffer ..)
  refine ⟨r₂, ?_, hr₂⟩
  rw [readCall_eq deadlines r call [], readFrameInto, hlength]
  simp only [hn, if_neg (not_lt.mpr h.header), if_neg (not_lt.mpr h.limit), h.calm.body, hbody]

theorem readCalls_framed {frames : List Bytes} {calls : List Call}
    (h : List.Forall₂ (Call.Takes deadlines) frames calls)
    (hsize : ∀ f ∈ frames, f.length ≤ maxFrameBytes)
    (hrest : r.rest = frames.flatMap framed ++ more) :
    ∃ r', readCalls deadlines r calls = (frames.map .ok, r') ∧ r'.rest = more := by
  induction h generalizing r with
  | nil => exact ⟨r, rfl, hrest⟩
  | @cons frame call frames calls htakes _ ih =>
    obtain ⟨hframe, hframes⟩ := forall_mem_cons.mp hsize
    rw [flatMap_cons, append_assoc] at hrest
    obtain ⟨r₁, hcall, hr₁⟩ := readCall_framed htakes hframe hrest
    obtain ⟨r₂, hcalls, hr₂⟩ := ih hframes hr₁
    refine ⟨r₂, ?_, hr₂⟩
    simp only [readCalls, hcall, hcalls, map_cons]

/-- Framing loses nothing. Where all calls of `SendFrame` succeed on a stream that has delivered all
    before them, calls of the two read methods in any mixture return these frames, each within the
    limit its call loads, and leave what follows them; and on every stream, under whatever
    circumstances, the methods and the buffers they use make no difference. -/
theorem framing_lossless (deadlines : Bool) (r : Conn) :
    (∀ (w w' : Sink) (frames : List Bytes) (more : Bytes) (calls : List Call),
      sendFrames w frames = (true, w') → w.written ++ r.rest = w'.written ++ more →
      List.Forall₂ (Call.Takes deadlines) frames calls →
      ∃ r', readCalls deadlines r calls = (frames.map .ok, r') ∧ r'.rest = more) ∧
    ∀ calls calls' : List Call, calls.map Call.env = calls'.map Call.env →
      readCalls deadlines r calls = readCalls deadlines r calls' := by
  refine ⟨fun w w' frames more calls hsend hrest hcalls => ?_,
    fun calls calls' henv => readCalls_eq r henv⟩
  obtain ⟨hsize, hwritten⟩ := sendFrames_written hsend
  rw [hwritten, append_assoc] at hrest
  exact readCalls_framed hcalls hsize (append_cancel_left hrest)

/-- A frame that is written and read in pieces, into a buffer that held another. -/
theorem framing_lossless_pieces :
    ∃ r', readCalls true { rest := framed (List.replicate 40 7), splits := [1, 2], stop := .eof }
      [.lease { maxFrame := 64 } (List.replicate 50 9)] = ([.ok (List.replicate 40 7)], r') ∧
      r'.rest = [] := by
  refine (framing_lossless true _).1 { answers := [(3, none), (1, none), (30, none)] }
    ⟨framed (List.replicate 40 7), []⟩ [List.replicate 40 7] [] _ ?_ (by simp) ?_
  · simp [sendFrames, sendFrame, writeFull, write, framed, be, maxFrameBytes]
  · exact .cons ⟨by decide, by decide, ⟨rfl, rfl, rfl⟩⟩ .nil

end Etp.Framing
