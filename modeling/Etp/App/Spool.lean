import Etp.App.Body

/-!
# Writers of bodies in their pool

The writers of the bodies of transfers are pooled (`bodyWriters`): closing or aborting one
resets its fields by hand and puts it back, and the next transfer acquires it. Here a writer
has all its fields, and its temporary file is one of the file system (`Files`), by its name;
a name is not given twice.

* A writer in the pool, with the file system, does what the writer of `Etp.App.Body` does
  (`view_write`);
* `spooled_faithful`: whatever an object was used for before, the body of the transfer that
  has it now is the concatenation of its chunks, in memory exactly if the limit allows it, and
  neither the files nor the object keep anything of it.
-/

namespace Etp.Application.Spool

open Wire Function

/-- The file system: the contents of the files by their names, and the next name. -/
structure Files where
  contents : ℕ → Option Bytes := fun _ => none
  next : ℕ := 0

/-- `os.CreateTemp`. -/
def Files.create (f : Files) : Files where
  contents := update f.contents f.next (some [])
  next := f.next + 1

/-- What is read from a file. -/
def Files.read (f : Files) (n : ℕ) : Bytes := (f.contents n).getD []

/-- A write to a file. -/
def Files.append (f : Files) (n : ℕ) (x : Bytes) : Files :=
  { f with contents := update f.contents n (some (f.read n ++ x)) }

/-- `os.Remove`. -/
def Files.remove (f : Files) (n : ℕ) : Files :=
  { f with contents := update f.contents n none }

/-- No name is in use that is still to be given. -/
def Files.Sound (f : Files) : Prop := ∀ n, f.next ≤ n → f.contents n = none

/-- `spooledBodyWriter`: `file` is the open file, `path` the name of the temporary file; of the
    context it has all but the body. A new one has the zero values. -/
structure Pooled where
  maxMemory : ℕ := 0
  size : ℕ := 0
  memory : Bytes := []
  file : Option ℕ := none
  path : Option ℕ := none
  released : Bool := false
  event : Bytes := []
  requestID : UInt64 := 0
  transferID : UInt64 := 0
  fields : List TransferField := []
  deriving DecidableEq

/-- What `handleTransfer` knows of a transfer. -/
structure Info where
  event : Bytes := []
  requestID : UInt64 := 0
  transferID : UInt64 := 0
  fields : List TransferField := []

namespace Pooled

variable (a : App) (f : Files) (w : Pooled) (d : Disk) (p : Bytes)

/-- `acquireBodyWriter`, of an object of the pool. -/
def acquire (i : Info) : Pooled :=
  { w with
    maxMemory := a.maxMemoryBody
    released := false
    event := i.event
    requestID := i.requestID
    transferID := i.transferID
    fields := i.fields }

/-- The chunk is written to the file `n`. -/
def writeFile (n : ℕ) : (Files × Pooled) × ℕ × Option Err :=
  ((f.append n (p.take d.write.1), { w with size := w.size + d.write.1 }), d.write.1, d.write.2)

/-- `Write`. -/
def write : (Files × Pooled) × ℕ × Option Err :=
  if w.released then ((f, w), 0, some errBodyWriterClosed)
  else match w.file with
    | some n => writeFile f w d p n
    | none =>
      if w.memory.length + p.length ≤ w.maxMemory then
        ((f, { w with memory := w.memory ++ p, size := w.size + p.length }), p.length, none)
      else match d.create with
        | some err => ((f, w), 0, some err)
        | none =>
          let n := f.next
          let w := { w with file := some n, path := some n }
          if w.memory = [] then writeFile f.create w d p n
          else match d.flush.2 with
            | some err => ((f.create.append n (w.memory.take d.flush.1), w), 0, some err)
            | none => writeFile (f.create.append n w.memory) { w with memory := [] } d p n

/-- `release`, up to putting the object into the pool. -/
def release : Files × Pooled :=
  (match w.path with
    | some n => f.remove n
    | none => f,
  { released := true })

/-- What `Close` does before it emits: the body, or the error of closing the file. -/
def prepare : Pooled × Except Err Body :=
  match w.file with
  | some _ =>
    match d.close with
    | some err => (w, .error err)
    | none => ({ w with file := none }, .ok (.file ((w.path.map f.read).getD []) w.size))
  | none => (w, .ok (.inline w.memory))

/-- The context that is emitted. -/
def context (body : Body) : Context where
  event := w.event
  requestID := w.requestID
  transferID := w.transferID
  fields := w.fields
  body := body

/-- `Close`. -/
def close : (Files × Pooled) × List Call × Option Err :=
  if w.released then ((f, w), [], some errBodyWriterClosed)
  else match w.prepare f d with
    | (w, .ok body) => (w.release f, a.emit (w.context body))
    | (w, .error err) => (w.release f, [], some err)

/-- `Abort`: the file is removed, and once more by `release`. -/
def abort : (Files × Pooled) × Option Err :=
  if w.released then ((f, w), some errBodyWriterClosed)
  else match w.path with
    | some n => ({ w with file := none }.release (f.remove n), none)
    | none => ({ w with file := none }.release f, none)

/-- The writer, as one that has its file with its contents. -/
def view : SpooledBodyWriter where
  maxMemory := w.maxMemory
  size := w.size
  memory := w.memory
  file := w.file.map f.read
  released := w.released
  event := w.event
  requestID := w.requestID
  transferID := w.transferID
  fields := w.fields

end Pooled

/-! ## The file of a writer -/

section Files

variable {f : Files} {n : ℕ} {x : Bytes}

@[simp] theorem read_create : f.create.read f.next = [] := by simp [Files.read, Files.create]

@[simp] theorem read_append : (f.append n x).read n = f.read n ++ x := by
  simp [Files.read, Files.append]

end Files

namespace Pooled

variable {a : App} {f f₀ : Files} {w w' : Pooled} {d : Disk} {p x : Bytes} {n : ℕ}

theorem view_writeFile (hn : w.file = some n) :
    ((w.view f).writeFile d p (f.read n)) =
      ((writeFile f w d p n).1.2.view (writeFile f w d p n).1.1, (writeFile f w d p n).2) := by
  simp [SpooledBodyWriter.writeFile, writeFile, view, hn]

/-- The writer of the pool does what the writer with its file does. -/
theorem view_write : (w.view f).write d p =
    ((w.write f d p).1.2.view (w.write f d p).1.1, (w.write f d p).2) := by
  have hfile : (w.view f).file = w.file.map f.read := rfl
  unfold write SpooledBodyWriter.write
  cases hr : w.released
  · cases hn : w.file with
    | some n => simpa [hr, hn, hfile, view] using view_writeFile (f := f) (d := d) (p := p) hn
    | none =>
      simp only [hfile, hn, Option.map_none]
      by_cases hroom : w.memory.length + p.length ≤ w.maxMemory
      · simp [view, hr, hn, hroom]
      · cases hc : d.create with
        | some err => simp [view, hr, hn, hroom]
        | none =>
          by_cases hm : w.memory = []
          · have hlen : ¬p.length ≤ w.maxMemory := by simpa [hm] using hroom
            simp [view, hr, hlen, hm, SpooledBodyWriter.writeFile, writeFile]
          · cases hfl : d.flush.2 with
            | some err => simp [view, hr, hroom, hm]
            | none => simp [view, hr, hroom, hm, SpooledBodyWriter.writeFile, writeFile]
  · simp [view, hr]

/-- A write keeps what the writer was acquired with. -/
theorem write_keeps : (w.write f d p).1.2.maxMemory = w.maxMemory ∧
    (w.write f d p).1.2.released = w.released ∧
    ∀ body, (w.write f d p).1.2.context body = w.context body := by
  simp only [write, writeFile]
  repeat' split
  all_goals exact ⟨rfl, rfl, fun _ => rfl⟩

/-- The writer is in memory as long as the limit allows it. -/
theorem write_file (hw : (w.write f d p).2 = (p.length, none)) (h : (w.view f).Holds x)
    (hx : w.file = none ↔ x.length ≤ w.maxMemory) :
    (w.write f d p).1.2.file = none ↔ (x ++ p).length ≤ w.maxMemory := by
  obtain ⟨hin, hbytes, -⟩ := h
  have hr : w.released = false := hin
  have hfile : (w.view f).file = w.file.map f.read := rfl
  rw [hfile] at hbytes
  simp only [write, hr, Bool.false_eq_true, if_false, List.length_append] at hw ⊢
  cases hn : w.file with
  | some n =>
    have : ¬x.length ≤ w.maxMemory := fun hle => by simp [hx.2 hle] at hn
    simp only [writeFile, hn, reduceCtorEq, false_iff]
    omega
  | none =>
    obtain rfl : w.memory = x := by simpa [hn, view] using hbytes
    by_cases hroom : w.memory.length + p.length ≤ w.maxMemory
    · simp [hroom]
    · simp only [hn, hroom, if_false, iff_false] at hw ⊢
      -- the file was created, for the call has taken the chunk
      cases hc : d.create with
      | some err => simp [hc] at hw
      | none =>
        simp only [hc] at hw ⊢
        split
        · simp [writeFile]
        · split <;> simp [writeFile]

/-! ## The files -/

/-- The files are those of `f₀`, and the temporary file of the writer if it has one. -/
structure Scratch (f₀ f : Files) (w : Pooled) : Prop where
  next : f₀.next ≤ f.next
  files : match w.path with
    | none => f.contents = f₀.contents
    | some n => f₀.next ≤ n ∧ ∃ x, f.contents = update f₀.contents n (some x)

theorem Scratch.writeFile (h : Scratch f₀ f w) (hn : w.path = some n) :
    Scratch f₀ (writeFile f w d p n).1.1 (writeFile f w d p n).1.2 := by
  refine ⟨h.next, ?_⟩
  have hfiles := h.files
  simp only [hn] at hfiles
  obtain ⟨hle, x, hx⟩ := hfiles
  simp only [Pooled.writeFile, hn, Files.append]
  exact ⟨hle, _, by rw [hx, update_idem]⟩

theorem Scratch.create (h : Scratch f₀ f w) (hn : w.path = none) (x : Bytes) (w' : Pooled)
    (hp : w'.path = some f.next) :
    Scratch f₀ f.create w' ∧ Scratch f₀ (f.create.append f.next x) w' := by
  have hfiles := h.files
  simp only [hn] at hfiles
  constructor
  · refine ⟨h.next.trans (Nat.le_succ _), ?_⟩
    simp only [hp, Files.create]
    exact ⟨h.next, [], by rw [hfiles]⟩
  · refine ⟨h.next.trans (Nat.le_succ _), ?_⟩
    simp only [hp, Files.append, Files.create]
    exact ⟨h.next, _, by rw [hfiles, update_idem]⟩

/-- A write only touches the file of the writer. -/
theorem Scratch.write (h : Scratch f₀ f w) (hw : w.file = w.path) :
    Scratch f₀ (w.write f d p).1.1 (w.write f d p).1.2 ∧
      (w.write f d p).1.2.file = (w.write f d p).1.2.path := by
  unfold Pooled.write
  split
  · exact ⟨h, hw⟩
  split
  · rename_i n hn
    exact ⟨h.writeFile (hw ▸ hn), hw⟩
  · rename_i hn
    have hpath : w.path = none := hw ▸ hn
    split
    · exact ⟨⟨h.next, h.files⟩, hw⟩
    split
    · exact ⟨h, hw⟩
    · simp only
      split
      · exact ⟨(h.create hpath [] _ rfl).1.writeFile rfl, rfl⟩
      · split
        · exact ⟨(h.create hpath _ _ rfl).2, rfl⟩
        · exact ⟨(h.create hpath _ _ rfl).2.writeFile rfl, rfl⟩

/-- `release` leaves the files that were there before. -/
theorem Scratch.release (h : Scratch f₀ f w) (hf : f₀.Sound) :
    (w.release f).1.contents = f₀.contents ∧ (w.release f).1.Sound := by
  have hsame : (w.release f).1.contents = f₀.contents ∧ (w.release f).1.next = f.next := by
    have hfiles := h.files
    cases hp : w.path with
    | none =>
      simp only [hp] at hfiles
      simp [Pooled.release, hp, hfiles]
    | some n =>
      simp only [hp] at hfiles
      obtain ⟨hle, x, hx⟩ := hfiles
      simp only [Pooled.release, hp, Files.remove, hx, update_idem, and_true]
      rw [← hf n hle, update_eq_self]
  refine ⟨hsame.1, fun m hm => ?_⟩
  rw [hsame.2] at hm
  rw [hsame.1]
  exact hf m (h.next.trans hm)

/-- Closing a writer that is in use, whatever the file says, releases it. -/
theorem close_fst (hr : w.released = false) :
    (w.close a f d).1 = (w.prepare f d).1.release f := by
  unfold Pooled.close
  rw [hr, if_neg Bool.false_ne_true]
  split <;> (rename_i h; rw [h])

theorem Scratch.prepare (h : Scratch f₀ f w) : Scratch f₀ f (w.prepare f d).1 := by
  unfold Pooled.prepare
  split
  · split
    · exact h
    · exact ⟨h.next, h.files⟩
  · exact h

theorem Scratch.close (h : Scratch f₀ f w) (hf : f₀.Sound) (hr : w.released = false) :
    (w.close a f d).1.1.contents = f₀.contents ∧ (w.close a f d).1.1.Sound ∧
      (w.close a f d).1.2 = { released := true } := by
  rw [close_fst hr]
  exact ⟨(h.prepare.release hf).1, (h.prepare.release hf).2, rfl⟩

theorem Scratch.abort (h : Scratch f₀ f w) (hf : f₀.Sound) (hr : w.released = false) :
    (w.abort f).1.1.contents = f₀.contents ∧ (w.abort f).1.1.Sound ∧
      (w.abort f).1.2 = { released := true } := by
  have hrel := h.release hf
  unfold Pooled.abort
  rw [hr, if_neg Bool.false_ne_true]
  cases hp : w.path with
  | none =>
    simp only [Pooled.release, hp] at hrel ⊢
    exact ⟨hrel.1, hrel.2, trivial⟩
  | some n =>
    simp only [Pooled.release, hp] at hrel ⊢
    have htwice : (f.remove n).remove n = f.remove n := by simp [Files.remove]
    rw [htwice]
    exact ⟨hrel.1, hrel.2, trivial⟩

end Pooled

/-! ## A transfer, and those before it -/

/-- Calls of `Write` one after the other, and whether all have taken what they were given
    without an error. -/
def writes : Files × Pooled → List (Disk × Bytes) → (Files × Pooled) × Bool
  | s, [] => (s, true)
  | s, (d, p) :: l =>
    let r := s.2.write s.1 d p
    let t := writes r.1 l
    (t.1, r.2 = (p.length, none) && t.2)

/-- A use of an object: the chunks that are written, and `Close`, with what closing the file
    comes to, or `Abort`. -/
structure Use where
  info : Info
  chunks : List (Disk × Bytes)
  ending : Option Disk

/-- An object is acquired, used and put back. -/
def Use.run (a : App) (s : Files × Pooled) (u : Use) : Files × Pooled :=
  let t := (writes (s.1, s.2.acquire a u.info) u.chunks).1
  match u.ending with
  | some d => (t.2.close a t.1 d).1
  | none => (t.2.abort t.1).1

/-- `IsInline`. -/
def isInline : Body → Bool
  | .inline _ => true
  | .file _ _ => false

/-- An object that is new or was put back. -/
def Blank (w : Pooled) : Prop := w = {} ∨ w = { released := true }

section Use

variable {a : App} {f f₀ : Files} {w : Pooled} {i : Info} {x : Bytes} {l : List (Disk × Bytes)}

theorem acquire_blank (h : Blank w) : w.acquire a i =
    { maxMemory := a.maxMemoryBody, event := i.event, requestID := i.requestID,
      transferID := i.transferID, fields := i.fields } := by
  rcases h with rfl | rfl <;> rfl

/-- What a writer is while chunks are written to it: it is in use, and the only file it has
    made is its own. -/
structure InUse (f₀ : Files) (s : Files × Pooled) : Prop where
  scratch : s.2.Scratch f₀ s.1
  file : s.2.file = s.2.path
  released : s.2.released = false

theorem inUse_acquire (h : Blank w) : InUse f (f, w.acquire a i) := by
  rw [acquire_blank h]
  exact ⟨⟨le_rfl, rfl⟩, rfl, rfl⟩

variable {s : Files × Pooled}

theorem InUse.writes (h : InUse f₀ s) : InUse f₀ (writes s l).1 := by
  induction l generalizing s with
  | nil => exact h
  | cons c l ih =>
    obtain ⟨hs, hfile⟩ := h.scratch.write (d := c.1) (p := c.2) h.file
    exact ih ⟨hs, hfile, Pooled.write_keeps.2.1.trans h.released⟩

/-- A use leaves the files as they were, and an object as if it were new. -/
theorem use_run (u : Use) (hf : f.Sound) (hw : Blank w) :
    (u.run a (f, w)).1.contents = f.contents ∧ (u.run a (f, w)).1.Sound ∧
      Blank (u.run a (f, w)).2 := by
  have h := (inUse_acquire (a := a) (i := u.info) (f := f) hw).writes (l := u.chunks)
  unfold Use.run
  cases u.ending with
  | some d =>
    obtain ⟨hc, hs, hb⟩ := h.scratch.close (a := a) (d := d) hf h.released
    exact ⟨hc, hs, .inr hb⟩
  | none =>
    obtain ⟨hc, hs, hb⟩ := h.scratch.abort hf h.released
    exact ⟨hc, hs, .inr hb⟩

theorem uses_run (history : List Use) (hf : f.Sound) (hw : Blank w) :
    (history.foldl (Use.run a) (f, w)).1.contents = f.contents ∧
      (history.foldl (Use.run a) (f, w)).1.Sound ∧
      Blank (history.foldl (Use.run a) (f, w)).2 := by
  induction history generalizing f w with
  | nil => exact ⟨rfl, hf, hw⟩
  | cons u history ih =>
    obtain ⟨hc, hs, hb⟩ := use_run (a := a) u hf hw
    obtain ⟨hc', hrest⟩ := ih hs hb
    exact ⟨hc'.trans hc, hrest⟩

/-- The writer holds `x`, for the message it was acquired for, in memory if the limit allows it. -/
structure Carries (a : App) (i : Info) (s : Files × Pooled) (x : Bytes) : Prop where
  holds : (s.2.view s.1).Holds x
  maxMemory : s.2.maxMemory = a.maxMemoryBody
  inMemory : s.2.file = none ↔ x.length ≤ a.maxMemoryBody
  context : ∀ body, s.2.context body = { i with body := body }

theorem carries_acquire (h : Blank w) : Carries a i (f, w.acquire a i) [] := by
  rw [acquire_blank h]
  exact ⟨⟨rfl, rfl, rfl⟩, rfl, by simp, fun _ => rfl⟩

theorem Carries.writes (h : Carries a i s x) (hok : (writes s l).2 = true) :
    Carries a i (writes s l).1 (x ++ (l.map Prod.snd).flatten) := by
  induction l generalizing s x with
  | nil => simpa [Spool.writes] using h
  | cons c l ih =>
    simp only [Spool.writes, Bool.and_eq_true, decide_eq_true_eq] at hok
    have hview := Pooled.view_write (f := s.1) (w := s.2) (d := c.1) (p := c.2)
    rw [hok.1] at hview
    obtain ⟨hmax, -, hctx⟩ := Pooled.write_keeps (f := s.1) (w := s.2) (d := c.1) (p := c.2)
    have hnext : Carries a i (s.2.write s.1 c.1 c.2).1 (x ++ c.2) := by
      refine ⟨SpooledBodyWriter.holds_write h.holds hview, hmax.trans h.maxMemory, ?_,
        fun body => (hctx body).trans (h.context body)⟩
      rw [← h.maxMemory]
      exact Pooled.write_file hok.1 h.holds (h.maxMemory ▸ h.inMemory)
    simpa [Spool.writes] using ih hnext hok.2

/-- What is emitted: the body that the writer holds. -/
theorem Carries.prepare (h : Carries a i s x) (hp : s.2.file = s.2.path) {d : Disk}
    (hd : d.close = none) :
    ∃ body w, s.2.prepare s.1 d = (w, .ok body) ∧ body.read = x ∧ body.size = x.length ∧
      (isInline body ↔ x.length ≤ a.maxMemoryBody) ∧ ∀ b, w.context b = s.2.context b := by
  obtain ⟨-, hbytes, hsize⟩ := h.holds
  have hfile : (s.2.view s.1).file = s.2.file.map s.1.read := rfl
  rw [hfile] at hbytes
  cases hn : s.2.file with
  | some n =>
    have hread : s.1.read n = x := by
      simp only [hn, Option.map_some] at hbytes
      exact hbytes.1
    have hlong : ¬x.length ≤ a.maxMemoryBody := fun hle => by simp [h.inMemory.2 hle] at hn
    exact ⟨.file x s.2.size, { s.2 with file := none },
      by simp [Pooled.prepare, hn, hd, ← hp, hread], rfl, hsize, by simp [isInline, hlong],
      fun _ => rfl⟩
  | none =>
    have hmem : s.2.memory = x := by simpa [hn, Pooled.view] using hbytes
    exact ⟨.inline x, s.2, by simp [Pooled.prepare, hn, hmem], rfl, rfl,
      by simp [isInline, h.inMemory.1 hn], fun _ => rfl⟩

end Use

/-- For any earlier uses of an object, closed or aborted, in memory or with a file, and any
    chunks that are then written without an error: `Close` emits the message that the writer
    was acquired for with a body that reads back the concatenation of the chunks, has its size,
    and is in memory exactly if it is within the limit; and after `Close` as after `Abort` the
    file system has the files it had before all this, and the object is blank. -/
theorem spooled_faithful (a : App) (f : Files) (hf : f.Sound) (history : List Use) (i : Info)
    (chunks : List (Disk × Bytes)) :
    let s := history.foldl (Use.run a) (f, {})
    let r := writes (s.1, s.2.acquire a i) chunks
    let t := r.1
    let x := (chunks.map Prod.snd).flatten
    r.2 = true →
      (∀ d, d.close = none → ∃ body, (t.2.close a t.1 d).2 =
          a.emit { i with body := body } ∧
        body.read = x ∧ body.size = x.length ∧ (isInline body ↔ x.length ≤ a.maxMemoryBody)) ∧
      (∀ d, (t.2.close a t.1 d).1.1.contents = f.contents ∧
        (t.2.close a t.1 d).1.2 = { released := true }) ∧
      (t.2.abort t.1).1.1.contents = f.contents ∧ (t.2.abort t.1).1.2 = { released := true } := by
  intro s r t x hok
  obtain ⟨hsame, hsound, hblank⟩ := uses_run (a := a) history hf (.inl rfl : Blank {})
  have huse : InUse s.1 t := (inUse_acquire hblank).writes
  have hcarries : Carries a i t x := by
    simpa using (carries_acquire (a := a) (i := i) (f := s.1) hblank).writes hok
  refine ⟨fun d hd => ?_, fun d => ?_, ?_⟩
  · obtain ⟨body, w, hprep, hread, hsize, hinline, hctx⟩ := hcarries.prepare huse.file hd
    refine ⟨body, ?_, hread, hsize, hinline⟩
    simp only [Pooled.close, huse.released, Bool.false_eq_true, if_false, hprep]
    rw [hctx, hcarries.context]
  · obtain ⟨hc, -, hb⟩ := huse.scratch.close (a := a) (d := d) hsound huse.released
    exact ⟨hc.trans hsame, hb⟩
  · obtain ⟨hc, -, hb⟩ := huse.scratch.abort hsound huse.released
    exact ⟨hc.trans hsame, hb⟩

/-- An object that was used for a longer body before: two chunks within the limit of four bytes
    stay in memory. -/
theorem spooled_faithful_reused :
    let a : App :=
      { compiled := fun _ => some fun _ => none, onNotFound := none, maxMemoryBody := 4 }
    let before : Use :=
      ⟨{}, [({}, [1, 2, 3]), ({ flush := (3, none), write := (2, none) }, [4, 5])], some {}⟩
    let chunks : List (Disk × Bytes) := [({}, [6, 7]), ({}, [8])]
    let s := [before].foldl (Use.run a) ({}, {})
    let t := (writes (s.1, s.2.acquire a {}) chunks).1
    (writes ({}, ({} : Pooled).acquire a {}) before.chunks).1.2.file = some 0 ∧
    ∃ body, (t.2.close a t.1 {}).2 = a.emit ⟨[], 0, 0, [], body⟩ ∧ body.read = [6, 7, 8] ∧
      isInline body := by
  intro a before chunks s t
  refine ⟨rfl, ?_⟩
  obtain ⟨body, hemit, hread, -, hinline⟩ :=
    (spooled_faithful a {} (fun _ _ => rfl) [before] {} chunks (by decide)).1 {} rfl
  dsimp only [t, s]
  exact ⟨body, hemit, hread, hinline.2 (by decide)⟩

end Etp.Application.Spool
