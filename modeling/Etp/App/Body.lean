import Etp.Wire.Message

/-!
# Bodies and their writers

What an application sees of a message: a context with the event, the request, the
fields and a body, and the routed handler that is called with it (`App.emit`).

The body of a message in one frame is its data (`dispatchEvent`). The body of a
transfer is written by the session, chunk by chunk, to a writer that keeps it in
memory up to a limit and moves it to a temporary file beyond that
(`SpooledBodyWriter`); closing the writer emits the message. The operations on
files may fail at any time (`Disk`), and a file returns what was written to it.

Whatever the limit is, a writer whose calls have all taken what they were given
holds the concatenation of what it was given (`holds_write`), in memory or in its
file, and closing it calls the handler with that body (`close_emits`).
-/

namespace Etp.Application

open Wire

/-- A body: in memory, or in a file with its contents. -/
inductive Body
  | inline (data : Bytes)
  | file (contents : Bytes) (size : ℕ)
  deriving DecidableEq, Repr

/-- What is read from the body after `Open`. -/
def Body.read : Body → Bytes
  | .inline data => data
  | .file contents _ => contents

/-- `Size`. -/
def Body.size : Body → ℕ
  | .inline data => data.length
  | .file _ size => size

/-- The context of a call of a handler, up to what belongs to the connection. -/
structure Context where
  event : Bytes
  requestID : UInt64
  transferID : UInt64 := 0
  fields : List TransferField
  body : Body
  deriving DecidableEq, Repr

def errRouteNotFound : Err := "transport: route not found"
def errBodyWriterClosed : Err := "transport: body writer is closed"

/-- The handlers of an application: the compiled routes by their events, the one for events without
    a route, whether errors are reported, and the limit of bodies in memory. `isRouteNotFound` is
    `errors.Is` of an error and `ErrRouteNotFound`: a handler may return it, too, or an error that
    wraps it. -/
structure App where
  compiled : Bytes → Option (Context → Option Err)
  onNotFound : Option (Context → Option Err)
  onError : Bool := false
  maxMemoryBody : ℕ
  isRouteNotFound : Err → Bool := (· == errRouteNotFound)

/-- A call of a handler: of the route of the event, of the one for events without a route, or of the
    one for errors. -/
inductive Call
  | routed (ctx : Context)
  | notFound (ctx : Context)
  | error (ctx : Context) (err : Err)
  deriving DecidableEq, Repr

/-- `Emit` of the compiled router: the calls of handlers, and the error. -/
def App.route (a : App) (ctx : Context) : List Call × Option Err :=
  match a.compiled ctx.event with
  | some handler => ([.routed ctx], handler ctx)
  | none => ([], some errRouteNotFound)

/-- The error that `emit` takes for an event without a route. -/
def App.missing (a : App) (err : Option Err) : Bool :=
  err.any a.isRouteNotFound

/-- `emit`: the calls of handlers, and the error. -/
def App.emit (a : App) (ctx : Context) : List Call × Option Err :=
  let (calls, err) := a.route ctx
  let (calls, err) := match a.onNotFound, a.missing err with
    | some handler, true => (calls ++ [Call.notFound ctx], handler ctx)
    | _, _ => (calls, err)
  match err, a.onError with
  | some e, true => (calls ++ [Call.error ctx e], err)
  | _, _ => (calls, err)

/-- `dispatchEvent`. -/
def App.dispatchEvent (a : App) (requestID : UInt64) (m : EventMessage) :
    List Call × Option Err :=
  a.emit { event := m.event, requestID := requestID, fields := m.fields, body := .inline m.data }

/-! ## The writer of a transfer's body -/

/-- What the operations on files come to during one call: creating a file, writing to it what was in
    memory, writing the chunk (how many bytes, and the error), and closing it. -/
structure Disk where
  create : Option Err := none
  flush : ℕ × Option Err := (0, none)
  write : ℕ × Option Err := (0, none)
  close : Option Err := none

/-- `spooledBodyWriter`; `file` is the temporary file with its contents. Of the context it holds all
    but the body. -/
structure SpooledBodyWriter where
  maxMemory : ℕ
  size : ℕ := 0
  memory : Bytes := []
  file : Option Bytes := none
  released : Bool := false
  event : Bytes
  requestID : UInt64
  transferID : UInt64
  fields : List TransferField
  deriving DecidableEq, Repr

/-- `acquireBodyWriter`: a writer of the pool carries nothing over from its last use. -/
def App.acquireBodyWriter (a : App) (event : Bytes) (requestID transferID : UInt64)
    (v : TransferBegin) : SpooledBodyWriter where
  maxMemory := a.maxMemoryBody
  event := event
  requestID := requestID
  transferID := transferID
  fields := v.fields

/-- `handleTransfer`. -/
def App.handleTransfer (a : App) (requestID transferID : UInt64) (v : TransferBegin) :
    SpooledBodyWriter :=
  a.acquireBodyWriter (if v.event = [] then v.name else v.event) requestID transferID v

namespace SpooledBodyWriter

variable (w : SpooledBodyWriter) (d : Disk) (p : Bytes)

/-- The chunk is appended to the file. -/
def writeFile (contents : Bytes) : SpooledBodyWriter × ℕ × Option Err :=
  ({ w with file := some (contents ++ p.take d.write.1), size := w.size + d.write.1 },
    d.write.1, d.write.2)

/-- `Write`: how many bytes were taken, and the error. -/
def write : SpooledBodyWriter × ℕ × Option Err :=
  if w.released then (w, 0, some errBodyWriterClosed)
  else match w.file with
    | some contents => w.writeFile d p contents
    | none =>
      if w.memory.length + p.length ≤ w.maxMemory then
        ({ w with memory := w.memory ++ p, size := w.size + p.length }, p.length, none)
      else match d.create with
        | some err => (w, 0, some err)
        | none =>
          if w.memory = [] then w.writeFile d p []
          else match d.flush.2 with
            | some err => ({ w with file := some (w.memory.take d.flush.1) }, 0, some err)
            | none => { w with memory := [] }.writeFile d p w.memory

/-- The context that `Close` emits. -/
def context (body : Body) : Context where
  event := w.event
  requestID := w.requestID
  transferID := w.transferID
  fields := w.fields
  body := body

/-- The writer after `release`, which keeps nothing of it. -/
def release : SpooledBodyWriter where
  maxMemory := 0
  released := true
  event := []
  requestID := 0
  transferID := 0
  fields := []

/-- `Close`: the writer after it, the calls of handlers, and the error. -/
def close (a : App) : SpooledBodyWriter × List Call × Option Err :=
  if w.released then (w, [], some errBodyWriterClosed)
  else match w.file with
    | some contents =>
      match d.close with
      | some err => (release, [], some err)
      | none => (release, a.emit (w.context (.file contents w.size)))
    | none => (release, a.emit (w.context (.inline w.memory)))

/-! ## What it holds -/

/-- The writer is in use and holds the bytes `x`, in memory or in its file. -/
structure Holds (x : Bytes) : Prop where
  inUse : w.released = false
  bytes : match w.file with
    | some contents => contents = x ∧ w.memory = []
    | none => w.memory = x
  size : w.size = x.length

variable {w} {d} {p} {x : Bytes} {a : App} {w' : SpooledBodyWriter}

theorem holds_writeFile {contents : Bytes} (hin : w.released = false) (hmem : w.memory = [])
    (hsize : w.size = contents.length) (hw : w.writeFile d p contents = (w', p.length, none)) :
    w'.Holds (contents ++ p) := by
  have hn : d.write.1 = p.length := congrArg (·.2.1) hw
  obtain rfl : (w.writeFile d p contents).1 = w' := congrArg (·.1) hw
  have htake : p.take d.write.1 = p := by rw [hn, List.take_length]
  refine ⟨hin, ⟨?_, hmem⟩, ?_⟩
  · rw [htake]
  · show w.size + d.write.1 = _
    rw [hsize, hn, List.length_append]

/-- A call that takes all it is given adds it to what the writer holds. -/
theorem holds_write (h : w.Holds x) (hw : w.write d p = (w', p.length, none)) :
    w'.Holds (x ++ p) := by
  obtain ⟨maxMemory, size, memory, file, released, event, requestID, transferID, fields⟩ := w
  obtain ⟨rfl, hbytes, hsize⟩ := h
  simp only [write, Bool.false_eq_true, if_false] at hw
  -- in its file, in memory, or moving from one to the other
  cases file with
  | some contents =>
    obtain ⟨rfl, hmem⟩ := hbytes
    exact holds_writeFile rfl hmem hsize hw
  | none =>
    obtain rfl : memory = x := hbytes
    simp only at hw
    split at hw
    · cases hw
      refine ⟨rfl, rfl, ?_⟩
      show size + p.length = _
      rw [List.length_append, ← hsize]
    · split at hw
      · exact absurd (congrArg (·.2.2) hw) (by simp)
      · split at hw
        · rename_i hnil
          subst hnil
          exact holds_writeFile rfl rfl hsize hw
        · split at hw
          · exact absurd (congrArg (·.2.2) hw) (by simp)
          · refine holds_writeFile ?_ ?_ ?_ hw
            · rfl
            · rfl
            · exact hsize

/-- A write changes nothing about the message. -/
theorem context_write (body : Body) : (w.write d p).1.context body = w.context body := by
  simp only [write, writeFile]
  repeat' split
  all_goals rfl

theorem holds_handleTransfer (requestID transferID : UInt64) (v : TransferBegin) :
    (a.handleTransfer requestID transferID v).Holds [] :=
  ⟨rfl, rfl, rfl⟩

/-- Closing a writer without an error emits the message with what it holds. -/
theorem close_emits (h : w.Holds x) {calls : List Call} (hc : w.close d a = (w', calls, none)) :
    ∃ body, body.read = x ∧ body.size = x.length ∧ calls = (a.emit (w.context body)).1 := by
  obtain ⟨hin, hbytes, hsize⟩ := h
  rw [close, hin, if_neg Bool.false_ne_true] at hc
  cases hfile : w.file with
  | some contents =>
    rw [hfile] at hbytes
    simp only [hfile] at hc
    cases hd : d.close with
    | some err =>
      -- the file did not close: the error is returned, and nothing emitted
      simp [hd] at hc
    | none =>
      simp only [hd] at hc
      exact ⟨.file contents w.size, hbytes.1, hsize, congrArg (·.2.1) hc.symm⟩
  | none =>
    rw [hfile] at hbytes
    simp only [hfile] at hc
    have hmem : w.memory = x := hbytes
    exact ⟨.inline w.memory, hmem, by rw [← hmem]; rfl, congrArg (·.2.1) hc.symm⟩

end SpooledBodyWriter

end Etp.Application
