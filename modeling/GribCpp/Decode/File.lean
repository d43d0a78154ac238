/-
# Handles and files

The model of `GribHandle::from_bytes` and of `GribFile` in `src/decode/handle.cpp`.  The
creation of a handle by ecCodes is a parameter: on the bytes of a message it gives a handle
or fails.  Every call records the slice of its buffer that it hands to ecCodes.
-/
import GribCpp.Decode.Message
import GribCpp.Lib.Machine

namespace GribCpp.Decode

open Framing Search Machine

/-- `GribHandle`: the ecCodes handle it owns, and its cached grid search. -/
structure GribHandle (H N : Type*) where
  h : Option H
  nearest : Option N
deriving DecidableEq, Repr

/-- What a call hands to ecCodes, and what it returns. -/
structure Decoded (α : Type*) where
  passed : Option Slice
  result : Result α

/-- `GribFile`. -/
structure GribFile where
  buf : Bytes
  pos : ℕ
deriving DecidableEq, Repr

section Calls

variable {H N : Type}

/-- A handle made of a slice of a buffer, or the error of a creation that failed. -/
def makeHandle (create : Bytes → Option H) (buf : Bytes) (slice : Slice) :
    Result (GribHandle H N) :=
  match create (slice.of buf) with
  | none => .error (.decode (ascii "codes_handle_new_from_message_copy failed"))
  | some h => .ok ⟨some h, none⟩

/-- `GribHandle::from_bytes`. -/
def GribHandle.fromBytes (create : Bytes → Option H) (bytes : Bytes) :
    Decoded (GribHandle H N) :=
  if bytes = [] then ⟨none, .error (.decode (ascii "Empty GRIB buffer"))⟩
  else
    match findMessage bytes 0 with
    | .found start len => ⟨some ⟨start, len⟩, makeHandle create bytes ⟨start, len⟩⟩
    | .atEnd | .invalid => ⟨none, .error (.decode (ascii "no complete GRIB message in buffer"))⟩

namespace GribFile

/-- A file that has not been read from. -/
def opened (bytes : Bytes) : GribFile := ⟨bytes, 0⟩

/-- `GribFile::open`. -/
def openBytes (bytes : Bytes) : Result GribFile := .ok (opened bytes)

/-- The error of a message that is announced but not there. -/
def incomplete : Error := .decode (ascii "Incomplete or invalid GRIB message")

/-- `GribFile::next`. -/
def next (f : GribFile) (create : Bytes → Option H) :
    Decoded (Option (GribHandle H N)) × GribFile :=
  match findMessage f.buf f.pos with
  | .invalid => (⟨none, .error incomplete⟩, f)
  | .atEnd => (⟨none, .ok none⟩, f)
  | .found start len =>
    -- the position moves on even when the creation fails
    (⟨some ⟨start, len⟩, (makeHandle create f.buf ⟨start, len⟩).map some⟩,
      { f with pos := start + len })

/-- The move constructor: the new file, and what is left of the old one. -/
def move (o : GribFile) : GribFile × GribFile := (⟨o.buf, o.pos⟩, ⟨[], 0⟩)

/-- The move assignment to another file: the file assigned to, and what is left of the old one. -/
def moveAssign (_self o : GribFile) : GribFile × GribFile := (⟨o.buf, o.pos⟩, ⟨[], 0⟩)

end GribFile

end Calls

/-! ## What one call does -/

section Next

variable {H N : Type} {f : GribFile} (create : Bytes → Option H)

lemma next_of_found {start len : ℕ}
    (h : scan messages (f.buf.drop f.pos) f.pos = .found start len) :
    f.next (N := N) create
      = (⟨some ⟨start, len⟩, (makeHandle create f.buf ⟨start, len⟩).map some⟩,
          { f with pos := start + len }) := by
  rw [GribFile.next, findMessage_eq, h]

lemma next_of_atEnd (h : scan messages (f.buf.drop f.pos) f.pos = .atEnd) :
    f.next (N := N) create = (⟨none, .ok none⟩, f) := by
  rw [GribFile.next, findMessage_eq, h]

lemma next_of_invalid (h : scan messages (f.buf.drop f.pos) f.pos = .invalid) :
    f.next (N := N) create = (⟨none, .error GribFile.incomplete⟩, f) := by
  rw [GribFile.next, findMessage_eq, h]

/-- A call that returns the end of the buffer or an invalid message. -/
def Settled (d : Decoded (Option (GribHandle H N))) : Prop :=
  d.result = .ok none ∨ d.result = .error GribFile.incomplete

/-- A handle that ecCodes could not create is reported by an error of its own. -/
lemma not_settled_makeHandle (slice : Slice) (passed : Option Slice) :
    ¬ Settled (N := N) ⟨passed, (makeHandle create f.buf slice).map some⟩ := by
  rw [makeHandle]
  cases create (slice.of f.buf) with
  | none =>
    rintro (h | h)
    · exact absurd h (by simp [Except.map])
    · -- the two messages differ
      simp only [Except.map, Except.error.injEq, GribFile.incomplete, Error.decode,
        Error.mk.injEq] at h
      exact absurd h.2.1 (by decide)
  | some h' =>
    rintro (h | h) <;> exact absurd h (by simp [Except.map])

/-- **One call.**  Either it finds a message, hands it to ecCodes and moves behind it, or it
returns the end or an invalid message, changes nothing, and does not depend on ecCodes. -/
theorem next_cases :
    (∃ start len, scan messages (f.buf.drop f.pos) f.pos = .found start len ∧
      (f.next (N := N) create).1.passed = some ⟨start, len⟩ ∧
      (f.next (N := N) create).2 = { f with pos := start + len } ∧
      ¬ Settled (f.next (N := N) create).1) ∨
    (Settled (f.next (N := N) create).1 ∧ (f.next (N := N) create).1.passed = none ∧
      (f.next (N := N) create).2 = f ∧
      ∀ create' : Bytes → Option H, f.next (N := N) create' = f.next create) := by
  cases hscan : scan messages (f.buf.drop f.pos) f.pos with
  | found start len =>
    left
    rw [next_of_found create hscan]
    exact ⟨start, len, rfl, rfl, rfl, not_settled_makeHandle create _ _⟩
  | atEnd =>
    right
    rw [next_of_atEnd create hscan]
    exact ⟨Or.inl rfl, rfl, rfl, fun create' => next_of_atEnd create' hscan⟩
  | invalid =>
    right
    rw [next_of_invalid create hscan]
    exact ⟨Or.inr rfl, rfl, rfl, fun create' => next_of_invalid create' hscan⟩

variable {create}

/-- A call that returns the end or an invalid message changes nothing. -/
lemma state_of_settled (h : Settled (f.next (N := N) create).1) :
    (f.next (N := N) create).2 = f := by
  rcases next_cases (N := N) (f := f) create with ⟨-, -, -, -, -, hno⟩ | ⟨-, -, hstate, -⟩
  · exact absurd h hno
  · exact hstate

/-- A call that reaches ecCodes moves on by the least length of a message. -/
lemma pos_add_le_of_passed (h : (f.next (N := N) create).1.passed.isSome) :
    f.pos + 12 ≤ (f.next (N := N) create).2.pos := by
  rcases next_cases (N := N) (f := f) create with
    ⟨start, len, hscan, -, hstate, -⟩ | ⟨-, hnone, -, -⟩
  · obtain ⟨hle, hhead, -, -⟩ := scan_drop_eq_found hscan
    have hmin : 12 ≤ len := (messages.bounds hhead).1
    rw [hstate]
    simp only
    omega
  · rw [hnone] at h
    exact absurd h (by simp)

/-- A call that returns a handle leaves less of the buffer to be searched. -/
lemma remaining_lt_of_ok {g : GribHandle H N} (h : (f.next create).1.result = .ok (some g)) :
    (f.next (N := N) create).2.buf.length - (f.next (N := N) create).2.pos
      < f.buf.length - f.pos := by
  rcases next_cases (N := N) (f := f) create with
    ⟨start, len, hscan, -, hstate, -⟩ | ⟨hsettled, -, -, -⟩
  · obtain ⟨hle, hhead, hstop, -⟩ := scan_drop_eq_found hscan
    have hmin : 12 ≤ len := (messages.bounds hhead).1
    rw [hstate]
    simp only
    omega
  · rw [Settled, h] at hsettled
    exact absurd hsettled (by simp)

/-- Where the end is returned, no magic that is left belongs to a message of edition 1 or 2. -/
lemma foreign_of_end (h : (f.next (N := N) create).1.result = .ok none) {j : ℕ} (hj : f.pos ≤ j)
    (hocc : OccursAt (ascii "GRIB") f.buf j) : Foreign (f.buf.drop j) := by
  cases hscan : scan messages (f.buf.drop f.pos) f.pos with
  | found start len =>
    rw [next_of_found create hscan] at h
    exact absurd (Or.inl h) (not_settled_makeHandle create _ none)
  | atEnd =>
    have hlt : j < f.buf.length := by
      have hle := hocc.add_le (by decide)
      have h4 : (ascii "GRIB").length = 4 := rfl
      omega
    exact head_eq_skip_iff.mp (scan_drop_eq_atEnd hscan hj hlt) hocc
  | invalid =>
    rw [next_of_invalid create hscan] at h
    exact absurd h (by simp)

end Next

/-! ## Runs -/

section Run

variable {H N : Type}

/-- A step of a run: a call, whose creation of a handle may turn out in any way, or a move
of the file to a fresh object. -/
inductive Op (H : Type*) where
  | next (create : Bytes → Option H)
  | move
  | moveAssign (target : GribFile)

/-- One step; a move has no answer. -/
def step (f : GribFile) : Op H → Option (Decoded (Option (GribHandle H N))) × GribFile
  | .next create => (some (f.next create).1, (f.next (N := N) create).2)
  | .move => (none, f.move.1)
  | .moveAssign target => (none, (GribFile.moveAssign target f).1)

/-- The slices that a run has handed to ecCodes, from its answers. -/
def passed (as : List (Option (Decoded (Option (GribHandle H N))))) : List Slice :=
  as.filterMap fun a => a.bind (·.passed)

lemma passed_cons (a : Option (Decoded (Option (GribHandle H N))))
    (as : List (Option (Decoded (Option (GribHandle H N))))) :
    passed (a :: as) = passed [a] ++ passed as := by
  rw [← List.singleton_append, passed, List.filterMap_append]
  rfl

variable {f : GribFile} {fs : List Slice}

/-- One step extends the traversal by the slice that it hands to ecCodes. -/
lemma step_traversed (hT : Traversed messages f.buf fs f.pos) (op : Op H) :
    (step (N := N) f op).2.buf = f.buf ∧
      Traversed messages f.buf (fs ++ passed [(step (N := N) f op).1])
        (step (N := N) f op).2.pos := by
  cases op with
  | next create =>
    rcases next_cases (N := N) (f := f) create with
      ⟨start, len, hscan, hpassed, hstate, -⟩ | ⟨-, hpassed, hstate, -⟩
    · simp only [step, passed, hpassed, hstate, List.filterMap_cons, Option.bind_some,
        List.filterMap_nil, true_and]
      exact hT.found hscan
    · simp only [step, passed, hpassed, hstate, List.filterMap_cons, Option.bind_some,
        List.filterMap_nil, List.append_nil, true_and]
      exact hT
  | move => exact ⟨rfl, by simpa [step, passed, GribFile.move] using hT⟩
  | moveAssign target => exact ⟨rfl, by simpa [step, passed, GribFile.moveAssign] using hT⟩

/-- A run extends the traversal by the slices that it hands to ecCodes. -/
lemma run_traversed (hT : Traversed messages f.buf fs f.pos) (ops : List (Op H)) :
    (final (step (N := N)) f ops).buf = f.buf ∧
      Traversed messages f.buf (fs ++ passed (answers (step (N := N)) f ops))
        (final (step (N := N)) f ops).pos := by
  induction ops generalizing f fs with
  | nil => exact ⟨rfl, by simpa [passed] using hT⟩
  | cons op ops ih =>
    obtain ⟨hbuf, hT'⟩ := step_traversed (N := N) hT op
    rw [← hbuf] at hT'
    obtain ⟨hbuf', hT''⟩ := ih hT'
    refine ⟨hbuf'.trans hbuf, ?_⟩
    rwa [hbuf, List.append_assoc, ← passed_cons] at hT''

/-- A settled call leaves every later call of the run with the same answer. -/
lemma run_settled {create : Bytes → Option H} (h : Settled (f.next (N := N) create).1)
    (ops : List (Op H)) :
    ∀ d, some d ∈ answers (step (N := N)) f ops → d = (f.next create).1 := by
  have hstate := state_of_settled h
  have hsame : ∀ create' : Bytes → Option H, f.next (N := N) create' = f.next create := by
    rcases next_cases (N := N) (f := f) create with ⟨-, -, -, -, -, hno⟩ | ⟨-, -, -, hsame⟩
    · exact absurd h hno
    · exact hsame
  -- the invariant is that the file is the one of the settled call
  have hstep : ∀ g (op : Op H), g = f → (step (N := N) g op).2 = f := by
    rintro g op rfl
    cases op with
    | next create' => exact (congrArg Prod.snd (hsame create')).trans hstate
    | move | moveAssign => rfl
  have hanswer : ∀ g (op : Op H), g = f →
      ∀ d, (step (N := N) g op).1 = some d → d = (f.next create).1 := by
    rintro g op rfl d hd
    cases op with
    | next create' => exact (Option.some.inj hd).symm.trans (congrArg Prod.fst (hsame create'))
    | move => exact absurd hd (by simp [step])
    | moveAssign => exact absurd hd (by simp [step])
  intro d hd
  exact forall_answers (I := (· = f)) (P := fun a => ∀ d, a = some d → d = (f.next create).1)
    hstep hanswer rfl ops _ hd d rfl

/-- What a move leaves behind is at its end for ever. -/
lemma run_moved {f : GribFile} (ops : List (Op H)) (d : Decoded (Option (GribHandle H N)))
    (hd : some d ∈ answers (step (N := N)) f.move.2 ops) : d = ⟨none, .ok none⟩ := by
  have hscan : scan messages (f.move.2.buf.drop f.move.2.pos) f.move.2.pos = .atEnd := by
    rw [GribFile.move, List.drop_nil]
    rfl
  have hnext := next_of_atEnd (N := N) (fun _ => (none : Option H)) hscan
  have hsettled : Settled (f.move.2.next (N := N) fun _ => (none : Option H)).1 := by
    rw [hnext]
    exact Or.inl rfl
  rw [run_settled hsettled ops d hd, hnext]

/-- **Iteration over arbitrary bytes.**  Whatever the bytes, the outcomes of ecCodes and the
moves in between: the position stays in the buffer and the search never reads outside of it;
the slices handed to ecCodes follow one another and are messages; a magic in a gap, and any
magic behind the position where the end is returned, belongs to no message of edition 1 or 2;
a call that reaches ecCodes moves on by at least 12 bytes, and a call that returns the end
or an invalid message settles all later calls; and a file that has been moved from is at its end,
with every later call. -/
theorem iterate_any_bytes (bytes : Bytes) (ops : List (Op H)) :
    let f := final (step (N := N)) (GribFile.opened bytes) ops
    let fs := passed (answers (step (N := N)) (GribFile.opened bytes) ops)
    (f.buf = bytes ∧ f.pos ≤ bytes.length ∧ (findMessage? f.buf f.pos).isSome) ∧
    (fs.Pairwise (fun a b => a.stop ≤ b.start) ∧
      ∀ a ∈ fs, a.stop ≤ bytes.length ∧ IsMessage (a.of bytes)) ∧
    (∀ j < f.pos, OccursAt (ascii "GRIB") bytes j → (∀ a ∈ fs, ¬ a.Covers j) →
      Foreign (bytes.drop j)) ∧
    (∀ create : Bytes → Option H, (f.next (N := N) create).1.result = .ok none →
      ∀ j, f.pos ≤ j → OccursAt (ascii "GRIB") bytes j → Foreign (bytes.drop j)) ∧
    (∀ create : Bytes → Option H, (f.next (N := N) create).1.passed.isSome →
      f.pos + 12 ≤ (f.next (N := N) create).2.pos) ∧
    (∀ create : Bytes → Option H, Settled (f.next (N := N) create).1 →
      (f.next (N := N) create).2 = f ∧
        ∀ later : List (Op H), ∀ d, some d ∈ answers (step (N := N)) f later →
          d = (f.next create).1) ∧
    fs.length ≤ bytes.length / 12 ∧
    ∀ old, (old = f.move.2 ∨ ∃ target, old = (GribFile.moveAssign target f).2) →
      ∀ later : List (Op H), ∀ d, some d ∈ answers (step (N := N)) old later →
        d = ⟨none, .ok none⟩ := by
  intro f fs
  obtain ⟨hbuf, hT⟩ := run_traversed (N := N) (f := GribFile.opened bytes)
    (Traversed.nil (S := messages) bytes) ops
  rw [List.nil_append] at hT
  change f.buf = bytes at hbuf
  change Traversed messages bytes fs f.pos at hT
  refine ⟨⟨hbuf, hT.le_length, isSome_findMessage? _ _⟩, ⟨hT.increasing, ?_⟩, ?_, ?_, ?_, ?_, ?_,
    ?_⟩
  · intro a ha
    obtain ⟨hlen, hmsg⟩ := head_eq_found_iff.mp (hT.frames a ha)
    exact ⟨(hT.stop_le a ha).trans hT.le_length, hmsg⟩
  · intro j hj hocc hout
    exact head_eq_skip_iff.mp (hT.gaps j hj hout) hocc
  · intro create hend j hj hocc
    rw [← hbuf] at hocc ⊢
    exact foreign_of_end hend hj hocc
  · exact fun create hpassed => pos_add_le_of_passed hpassed
  · exact fun create hsettled => ⟨state_of_settled hsettled, run_settled hsettled⟩
  · have hcount : fs.length * 12 ≤ f.pos := hT.count
    have hle := hT.le_length
    omega
  · rintro old (rfl | ⟨target, rfl⟩) <;> exact run_moved (f := f)

end Run

end GribCpp.Decode
