/-
# Handles as values

Any number of `GribHandle` objects are decoded from blobs or come out of files, are moved, assigned,
read and destroyed, in any order.  A handle owns what ecCodes has created, which goes from one
object to another, and it keeps a nearest object from its first search on.  None of this can be
seen: an object answers as if it held its bytes, and every read decoded them anew.
-/
import GribCpp.Api.Accessors
import GribCpp.Api.Points
import GribCpp.Lib.Machine

namespace GribCpp.Api

open Decode Framing Machine Sidecar

/-! ## Reads -/

/-- The member functions that read from a handle. -/
inductive Read where
  | getDouble (key : Bytes)
  | getLong (key : Bytes)
  | getString (key : Bytes)
  | values
  | nearest (lat lon : Double)

/-- What an operation returns, if anything. -/
inductive Answer where
  | nothing
  | opened (r : Result Unit)
  | next (r : Result (Option Unit))
  | double (r : Result Double)
  | long (r : Result ℤ)
  | string (r : Result Bytes)
  | doubles (r : Result (List Double))

section Reads

variable {H N : Type} (lib : Library H N)

/-- What a read of a handle returns. -/
def readHandle (g : GribHandle H N) : Read → Answer
  | .getDouble key => .double (getDouble lib g key)
  | .getLong key => .long (getLong lib.toEcCodes g key)
  | .getString key => .string (getString lib g key)
  | .values => .doubles (values lib g)
  | .nearest lat lon => .double (g.nearestValue lib.toNearestApi lat lon).result

/-- What a read leaves behind. -/
def afterRead (g : GribHandle H N) : Read → GribHandle H N
  | .nearest lat lon => (g.nearestValue lib.toNearestApi lat lon).handle
  | _ => g

/-- A read of a blob decodes it first. -/
def readBlob (blob : Bytes) : Read → Answer
  | .getDouble key =>
    .double ((GribHandle.fromBytes lib.create blob).result.bind fun g => getDouble lib g key)
  | .getLong key =>
    .long ((GribHandle.fromBytes lib.create blob).result.bind fun g => getLong lib.toEcCodes g key)
  | .getString key =>
    .string ((GribHandle.fromBytes lib.create blob).result.bind fun g => getString lib g key)
  | .values =>
    .doubles ((GribHandle.fromBytes lib.create blob).result.bind fun g => values lib g)
  | .nearest lat lon => .double (extractPoint lib.toEcCodes blob lat lon)

end Reads

/-! ## The two machines -/

/-- The operations on objects; an object is named when it is constructed, and its name is free
again when it is destroyed. -/
inductive HandleOp (κ : Type) where
  | fromBytes (k : κ) (blob : Bytes)
  | next (k : κ) (f : GribFile)
  | moveConstruct (k o : κ)
  | moveAssign (k o : κ)
  | destroy (k : κ)
  | read (k : κ) (r : Read)

section Machines

variable {κ : Type} [DecidableEq κ]

/-- What the operations without an answer do to objects, of which `move` makes the new object and
what is left of the old one.  An assignment to the object itself does nothing. -/
def transfer {γ : Type} (move : γ → γ × γ) (objects : κ → Option γ) : HandleOp κ → κ → Option γ
  | .moveConstruct k o =>
    match objects k, objects o with
    | none, some g =>
      Function.update (Function.update objects k (some (move g).1)) o (some (move g).2)
    | _, _ => objects
  | .moveAssign k o =>
    match objects k, objects o with
    | some _, some g =>
      if k = o then objects
      else Function.update (Function.update objects k (some (move g).1)) o (some (move g).2)
    | _, _ => objects
  | .destroy k => Function.update objects k none
  | _ => objects

variable {H N : Type}

/-- The objects, and the number of operations so far. -/
structure Handles (κ H N : Type) where
  objects : κ → Option (GribHandle H N)
  clock : ℕ

/-- An operation on the objects of the library; `lib i` is ecCodes as the operation finds it.  A
handle comes out of a file that has been read up to any place.  An operation that names no object
of the right kind does nothing. -/
def handleStep (lib : ℕ → Library H N) (s : Handles κ H N) (op : HandleOp κ) :
    Answer × Handles κ H N :=
  match op with
  | .fromBytes k blob =>
    match s.objects k with
    | some _ => (.nothing, ⟨s.objects, s.clock + 1⟩)
    | none =>
      match (GribHandle.fromBytes (N := N) (lib s.clock).create blob).result with
      | .error e => (.opened (.error e), ⟨s.objects, s.clock + 1⟩)
      | .ok g => (.opened (.ok ()), ⟨Function.update s.objects k (some g), s.clock + 1⟩)
  | .next k f =>
    match s.objects k with
    | some _ => (.nothing, ⟨s.objects, s.clock + 1⟩)
    | none =>
      match (f.next (N := N) (lib s.clock).create).1.result with
      | .error e => (.next (.error e), ⟨s.objects, s.clock + 1⟩)
      | .ok none => (.next (.ok none), ⟨s.objects, s.clock + 1⟩)
      | .ok (some g) =>
        (.next (.ok (some ())), ⟨Function.update s.objects k (some g), s.clock + 1⟩)
  | .read k r =>
    match s.objects k with
    | none => (.nothing, ⟨s.objects, s.clock + 1⟩)
    | some g =>
      (readHandle (lib s.clock) g r,
        ⟨Function.update s.objects k (some (afterRead (lib s.clock) g r)), s.clock + 1⟩)
  | op => (.nothing, ⟨transfer GribHandle.move s.objects op, s.clock + 1⟩)

/-- The bytes of the next message of a file. -/
def nextMessage (f : GribFile) : Bytes :=
  match findMessage f.buf f.pos with
  | .found start len => Slice.of ⟨start, len⟩ f.buf
  | .atEnd | .invalid => []

/-- The same operation on objects that hold a blob each, or nothing. -/
def blobStep (lib : Library H N) (blobs : κ → Option (Option Bytes)) (op : HandleOp κ) :
    Answer × (κ → Option (Option Bytes)) :=
  match op with
  | .fromBytes k blob =>
    match blobs k with
    | some _ => (.nothing, blobs)
    | none =>
      match (GribHandle.fromBytes (N := N) lib.create blob).result with
      | .error e => (.opened (.error e), blobs)
      | .ok _ => (.opened (.ok ()), Function.update blobs k (some (some blob)))
  | .next k f =>
    match blobs k with
    | some _ => (.nothing, blobs)
    | none =>
      match (f.next (N := N) lib.create).1.result with
      | .error e => (.next (.error e), blobs)
      | .ok none => (.next (.ok none), blobs)
      | .ok (some _) =>
        (.next (.ok (some ())), Function.update blobs k (some (some (nextMessage f))))
  | .read k r =>
    match blobs k with
    | none => (.nothing, blobs)
    | some none => (readHandle lib .empty r, blobs)
    | some (some blob) => (readBlob lib blob r, blobs)
  | op => (.nothing, transfer (fun blob => (blob, none)) blobs op)

end Machines

/-! ## What is assumed of ecCodes -/

variable {H N : Type}

/-- The states of ecCodes answer alike: as for the searches of `extract_points`, and the lookups
of keys do on handles of the same message. -/
structure Uniform (lib : ℕ → Library H N) (message : H → Bytes) : Prop extends
    Behaves (fun i => (lib i).toEcCodes) message where
  getLong : ∀ i j h h', message h = message h' → (lib i).getLong h = (lib j).getLong h'
  getDouble : ∀ i j h h', message h = message h' → (lib i).getDouble h = (lib j).getDouble h'
  getLength : ∀ i j h h', message h = message h' → (lib i).getLength h = (lib j).getLength h'
  getString : ∀ i j h h', message h = message h' → (lib i).getString h = (lib j).getString h'
  getSize : ∀ i j h h', message h = message h' → (lib i).getSize h = (lib j).getSize h'
  getDoubleArray : ∀ i j h h', message h = message h' →
    (lib i).getDoubleArray h = (lib j).getDoubleArray h'

section Refinement

variable {lib : ℕ → Library H N} {message : H → Bytes} {h h' : H} {g g' : GribHandle H N}
  {blob : Bytes}

/-- The states of ecCodes, without the accessors. -/
abbrev states (lib : ℕ → Library H N) (i : ℕ) : EcCodes H N := (lib i).toEcCodes

/-- **Handles of one message read the same.** -/
lemma readHandle_eq (hlib : Uniform lib message) (hg : Opened (states lib) h g)
    (hg' : Opened (states lib) h' g') (hm : message h = message h') (i j : ℕ) (r : Read) :
    readHandle (lib i) g r = readHandle (lib j) g' r := by
  have herr : (lib i).errorMessage = (lib j).errorMessage := hlib.errorMessage i j
  cases r with
  | getDouble key =>
    simp only [readHandle, getDouble, hg.h_eq, hg'.h_eq, hlib.getDouble i j h h' hm, herr]
  | getLong key =>
    simp only [readHandle, getLong, hg.h_eq, hg'.h_eq, hlib.getLong i j h h' hm, herr]
  | getString key =>
    simp only [readHandle, getString, hg.h_eq, hg'.h_eq, hlib.getLength i j h h' hm,
      hlib.getString i j h h' hm, herr]
  | values =>
    simp only [readHandle, values, hg.h_eq, hg'.h_eq, hlib.getSize i j h h' hm,
      hlib.getDoubleArray i j h h' hm, herr]
  | nearest lat lon =>
    exact congrArg Answer.double (nearestValue_eq hlib.toBehaves hg hg' hm i j lat lon)

/-- A read keeps the handle. -/
lemma Opened.afterRead (hg : Opened (states lib) h g) (i : ℕ) (r : Read) :
    Opened (states lib) h (afterRead (lib i) g r) := by
  cases r with
  | nearest lat lon => exact Opened.nearestValue hg i lat lon
  | getDouble | getLong | getString | values => exact hg

/-- A read of a blob is a read of the handle that it is decoded to. -/
lemma readBlob_eq {j : ℕ}
    (hopen : (GribHandle.fromBytes (N := N) (lib j).create blob).result = .ok g) (r : Read) :
    readBlob (lib j) blob r = readHandle (lib j) g r := by
  cases r with
  | nearest lat lon => simp only [readBlob, readHandle, extractPoint, hopen]
  | getDouble | getLong | getString | values =>
    simp only [readBlob, readHandle, hopen, Except.bind]

/-- The next call of a file fails alike in every state, comes to the end, or gives handles of the
next message, which are those of its bytes alone. -/
lemma next_cases_uniform (hlib : Uniform lib message) (f : GribFile) (i j : ℕ) :
    (∃ e, (f.next (N := N) (lib i).create).1.result = .error e ∧
        (f.next (N := N) (lib j).create).1.result = .error e) ∨
      ((f.next (N := N) (lib i).create).1.result = .ok none ∧
        (f.next (N := N) (lib j).create).1.result = .ok none) ∨
      ∃ h h', (f.next (N := N) (lib i).create).1.result = .ok (some (.ofHandle h)) ∧
        (f.next (N := N) (lib j).create).1.result = .ok (some (.ofHandle h')) ∧
        (GribHandle.fromBytes (N := N) (lib i).create (nextMessage f)).result
          = .ok (.ofHandle h) := by
  cases hscan : scan messages (f.buf.drop f.pos) f.pos with
  | atEnd =>
    rw [next_of_atEnd _ hscan, next_of_atEnd _ hscan]
    exact .inr (.inl ⟨rfl, rfl⟩)
  | invalid =>
    rw [next_of_invalid _ hscan, next_of_invalid _ hscan]
    exact .inl ⟨_, rfl, rfl⟩
  | found start len =>
    rw [next_of_found _ hscan, next_of_found _ hscan]
    obtain ⟨-, hhead, -, -⟩ := scan_drop_eq_found hscan
    obtain ⟨hlen, hm⟩ := head_eq_found_iff.mp hhead
    have hbytes : nextMessage f = Slice.of ⟨start, len⟩ f.buf := by
      rw [nextMessage, findMessage_eq, hscan]
    have hmessage : IsMessage (Slice.of ⟨start, len⟩ f.buf) := hm
    rw [hbytes, fromBytes_message hmessage]
    have hwhole : Slice.of ⟨0, (Slice.of ⟨start, len⟩ f.buf).length⟩ (Slice.of ⟨start, len⟩ f.buf)
        = Slice.of ⟨start, len⟩ f.buf := by
      rw [Slice.of, List.drop_zero, List.take_length]
    simp only [makeHandle, hwhole]
    have hsome := hlib.create_isSome i j (Slice.of ⟨start, len⟩ f.buf)
    cases hi : (lib i).create (Slice.of ⟨start, len⟩ f.buf) <;>
      cases hj : (lib j).create (Slice.of ⟨start, len⟩ f.buf) <;> simp only [hi, hj] at hsome
    · exact .inl ⟨_, rfl, rfl⟩
    · cases hsome
    · cases hsome
    · exact .inr (.inr ⟨_, _, rfl, rfl, rfl⟩)

/-- An object that holds nothing, or what has been decoded from a blob. -/
inductive Holds (lib : ℕ → Library H N) : GribHandle H N → Option Bytes → Prop
  | nothing : Holds lib .empty none
  | blob {g : GribHandle H N} {h : H} {blob : Bytes} (i : ℕ)
      (hopen : (GribHandle.fromBytes (N := N) (lib i).create blob).result = .ok (.ofHandle h))
      (hg : Opened (states lib) h g) : Holds lib g (some blob)

/-- **One read**: the object answers as its blob does, and goes on holding it. -/
lemma Holds.read (hlib : Uniform lib message) (hg : Holds lib g (some blob)) (i j : ℕ) (r : Read) :
    readHandle (lib i) g r = readBlob (lib j) blob r ∧
      Holds lib (afterRead (lib i) g r) (some blob) := by
  cases hg with
  | @blob _ h _ i' hopen hg =>
    refine ⟨?_, .blob i' hopen (hg.afterRead i r)⟩
    rcases fromBytes_cases hlib.toBehaves blob i' j with ⟨e, he, -⟩ | ⟨h₁, h', hm, hok, hok'⟩
    · cases he.symm.trans hopen
    · obtain rfl : h₁ = h := by
        have heq := Except.ok.inj (hok.symm.trans hopen)
        exact Option.some.inj (congrArg GribHandle.h heq)
      rw [readBlob_eq hok' r]
      exact readHandle_eq hlib hg (opened_ofHandle _ h') hm i j r

variable {κ : Type}

/-- The objects hold the blobs. -/
def Represents (lib : ℕ → Library H N) (objects : κ → Option (GribHandle H N))
    (blobs : κ → Option (Option Bytes)) : Prop :=
  ∀ k, Option.Rel (Holds lib) (objects k) (blobs k)

variable {objects : κ → Option (GribHandle H N)} {blobs : κ → Option (Option Bytes)}

/-- An object is alive together with what it holds. -/
lemma Represents.alive (hs : Represents lib objects blobs) (k : κ) :
    objects k = none ∧ blobs k = none ∨
      ∃ g b, objects k = some g ∧ blobs k = some b ∧ Holds lib g b := by
  have hk := hs k
  cases hobject : objects k <;> cases hblob : blobs k <;> rw [hobject, hblob] at hk <;> cases hk
  · exact .inl ⟨rfl, rfl⟩
  · exact .inr ⟨_, _, rfl, rfl, ‹_›⟩

variable [DecidableEq κ]

lemma Represents.update (hs : Represents lib objects blobs) (k : κ) {x : Option (GribHandle H N)}
    {y : Option (Option Bytes)} (hxy : Option.Rel (Holds lib) x y) :
    Represents lib (Function.update objects k x) (Function.update blobs k y) := by
  intro j
  by_cases hj : j = k
  · subst hj
    rw [Function.update_self, Function.update_self]
    exact hxy
  · rw [Function.update_of_ne hj, Function.update_of_ne hj]
    exact hs j

/-- A move takes along what the object holds. -/
lemma Represents.move (hs : Represents lib objects blobs) (k o : κ) {b : Option Bytes}
    (hg : Holds lib g b) :
    Represents lib
      (Function.update (Function.update objects k (some g.move.1)) o (some g.move.2))
      (Function.update (Function.update blobs k (some b)) o (some none)) :=
  (hs.update k (.some hg)).update o (.some .nothing)

lemma Represents.transfer (hs : Represents lib objects blobs) (op : HandleOp κ) :
    Represents lib (transfer GribHandle.move objects op)
      (transfer (fun blob => (blob, none)) blobs op) := by
  cases op with
  | fromBytes | next | read => exact hs
  | destroy k => exact hs.update k .none
  | moveConstruct k o =>
    simp only [Api.transfer]
    rcases hs.alive k with ⟨hk, hk'⟩ | ⟨self, b', hk, hk', -⟩
    · rcases hs.alive o with ⟨ho, ho'⟩ | ⟨g, b, ho, ho', hg⟩
      · simpa only [hk, hk', ho, ho'] using hs
      · simpa only [hk, hk', ho, ho'] using hs.move k o hg
    · simpa only [hk, hk'] using hs
  | moveAssign k o =>
    simp only [Api.transfer]
    rcases hs.alive k with ⟨hk, hk'⟩ | ⟨self, b', hk, hk', -⟩
    · simpa only [hk, hk'] using hs
    · rcases hs.alive o with ⟨ho, ho'⟩ | ⟨g, b, ho, ho', hg⟩
      · simpa only [hk, hk', ho, ho'] using hs
      · simp only [hk, hk', ho, ho']
        split_ifs
        · exact hs
        · exact hs.move k o hg

/-- **One operation**: the answers agree, and the objects go on holding the blobs. -/
theorem handleStep_simulates (hlib : Uniform lib message) (j : ℕ) {s : Handles κ H N}
    (hs : Represents lib s.objects blobs) (op : HandleOp κ) :
    (handleStep lib s op).1 = (blobStep (lib j) blobs op).1 ∧
      Represents lib (handleStep lib s op).2.objects (blobStep (lib j) blobs op).2 := by
  cases op with
  | moveConstruct k o => exact ⟨rfl, hs.transfer (.moveConstruct k o)⟩
  | moveAssign k o => exact ⟨rfl, hs.transfer (.moveAssign k o)⟩
  | destroy k => exact ⟨rfl, hs.transfer (.destroy k)⟩
  | fromBytes k blob =>
    simp only [handleStep, blobStep]
    rcases hs.alive k with ⟨hk, hk'⟩ | ⟨g, b, hk, hk', -⟩
    · simp only [hk, hk']
      rcases fromBytes_cases hlib.toBehaves blob s.clock j with
        ⟨e, he, he'⟩ | ⟨h, h', -, hok, hok'⟩
      · simp only [he, he']
        exact ⟨trivial, hs⟩
      · simp only [hok, hok']
        exact ⟨trivial, hs.update k (.some (.blob s.clock hok (opened_ofHandle _ h)))⟩
    · simpa only [hk, hk', true_and] using hs
  | next k f =>
    simp only [handleStep, blobStep]
    rcases hs.alive k with ⟨hk, hk'⟩ | ⟨g, b, hk, hk', -⟩
    · simp only [hk, hk']
      rcases next_cases_uniform hlib f s.clock j with
        ⟨e, he, he'⟩ | ⟨hend, hend'⟩ | ⟨h, h', hok, hok', hopen⟩
      · simp only [he, he']
        exact ⟨trivial, hs⟩
      · simp only [hend, hend']
        exact ⟨trivial, hs⟩
      · simp only [hok, hok']
        exact ⟨trivial, hs.update k (.some (.blob s.clock hopen (opened_ofHandle _ h)))⟩
    · simpa only [hk, hk', true_and] using hs
  | read k r =>
    simp only [handleStep, blobStep]
    rcases hs.alive k with ⟨hk, hk'⟩ | ⟨g, b, hk, hk', hg⟩
    · simpa only [hk, hk', true_and] using hs
    · cases b with
      | none =>
        -- an object that has been moved from refuses every read, and stays so
        cases hg with
        | nothing =>
          simp only [hk, hk']
          have hread : readHandle (lib s.clock) .empty r = readHandle (lib j) .empty r := by
            cases r <;> rfl
          have hafter : afterRead (lib s.clock) .empty r = .empty := by
            cases r <;> rfl
          refine ⟨hread, ?_⟩
          rw [hafter, ← hk, Function.update_eq_self]
          exact hs
      | some blob =>
        obtain ⟨hread, hafter⟩ := hg.read hlib s.clock j r
        simp only [hk, hk']
        refine ⟨hread, ?_⟩
        have hupdate := hs.update k (.some hafter)
        rwa [← hk', Function.update_eq_self] at hupdate

/-- **A handle is a value**: in every run of decoding blobs and going through files, of moving,
assigning, reading and destroying any number of handles, whatever has been read before, every
operation returns what it returns on objects that hold their bytes and decode them anew for every
read, at whatever time. -/
theorem handles_are_blobs (hlib : Uniform lib message) (j : ℕ) (ops : List (HandleOp κ)) :
    answers (handleStep lib) ⟨fun _ => none, 0⟩ ops
      = answers (blobStep (lib j)) (fun _ => none) ops := by
  have hstep : ∀ (s : Handles κ H N) (blobs : κ → Option (Option Bytes)) (op : HandleOp κ),
      Represents lib s.objects blobs → True →
        (handleStep lib s op).1 = (blobStep (lib j) blobs op).1 ∧
          Represents lib (handleStep lib s op).2.objects (blobStep (lib j) blobs op).2 :=
    fun s blobs op hs _ => handleStep_simulates hlib j hs op
  have hinit : Represents lib (fun _ : κ => none) (fun _ => none) := fun _ => .none
  exact (simulates hstep hinit (admissible_true _ ops)).1

/-- A library that answers alike in every state. -/
lemma uniform_storing (text : Bytes) : Uniform (fun _ => storing text) id := by
  refine ⟨⟨fun _ _ _ => rfl, fun _ m h hm => ?_, fun _ _ _ _ _ => rfl, ?_, fun _ _ => rfl⟩,
    ?_, ?_, ?_, ?_, ?_, ?_⟩
  · exact (Option.some.inj hm).symm
  · exact fun _ _ _ _ _ _ _ _ _ _ _ _ _ => rfl
  · rintro _ _ h _ rfl
    rfl
  all_goals exact fun _ _ _ _ _ => rfl

/-- A handle that has searched is moved, and both objects are read. -/
theorem handles_are_blobs_moved :
    answers (handleStep fun _ => storing (ascii "tp")) ⟨fun _ => none, 0⟩
        [.fromBytes false shortest, .read false (.nearest .negZero .negZero),
          .moveConstruct true false, .read true (.getString (ascii "shortName")),
          .read false .values]
      = answers (blobStep (storing (ascii "tp"))) (fun _ => none)
        [.fromBytes false shortest, .read false (.nearest .negZero .negZero),
          .moveConstruct true false, .read true (.getString (ascii "shortName")),
          .read false .values] :=
  handles_are_blobs (uniform_storing _) 0 _

end Refinement

end GribCpp.Api
