/-
# Draining a file of framed messages

A file of well-formed messages between gaps that contain no magic is read message by
message, each handed to ecCodes byte for byte, and ends after the last one.  A file that
is cut off inside its last message ends with an error, provided that the cut leaves the
magic: of a shorter piece the search takes no notice.
-/
import GribCpp.Decode.File

namespace GribCpp.Decode

open Framing Search Machine

variable {H N : Type}

/-! ## The replies of a file -/

/-- What a caller of `GribFile::next` sees: the bytes handed to ecCodes, and the result. -/
structure Reply (H N : Type) where
  passed : Option Bytes
  result : Result (Option (GribHandle H N))

/-- A call whose creation of a handle succeeds. -/
def call (f : GribFile) (create : Bytes → H) : Reply H N × GribFile :=
  let (d, f') := f.next (N := N) fun m => some (create m)
  (⟨d.passed.map (·.of f.buf), d.result⟩, f')

/-- The replies of a file to a number of calls. -/
abbrev replies (f : GribFile) (creates : List (Bytes → H)) : List (Reply H N) :=
  answers call f creates

/-- The replies that hand out the messages `ms` one by one, and then stay the same. -/
def handOut (last : Reply H N) : List Bytes → List (Bytes → H) → List (Reply H N)
  | _, [] => []
  | [], _ :: creates => last :: handOut last [] creates
  | m :: ms, create :: creates =>
    ⟨some m, .ok (some ⟨some (create m), none⟩)⟩ :: handOut last ms creates

/-- The reply at the end of the buffer. -/
def endReply : Reply H N := ⟨none, .ok none⟩

/-- The reply to a message that is announced but not there. -/
def incompleteReply : Reply H N := ⟨none, .error GribFile.incomplete⟩

/-! ## Messages between gaps -/

lemma unbordered_magic : Unbordered (ascii "GRIB") := by
  intro k hk hlt
  have hlen : (ascii "GRIB").length = 4 := rfl
  rw [hlen] at hlt
  interval_cases k <;> decide

/-- A gap, a message and a rest: the scan finds the message. -/
lemma scan_message {g m : Bytes} (hg : ¬ ascii "GRIB" <:+: g) (hm : IsMessage m) (r : Bytes)
    (i : ℕ) : scan messages (g ++ (m ++ r)) i = .found (i + g.length) m.length := by
  refine scan_gap ?_ (head_append hm r)
  intro j hj
  refine head_eq_skip_iff.mpr fun hmagic => ?_
  -- a magic in the gap would have to run into the one of the message
  obtain ⟨t, rfl⟩ := hm.magic
  rw [List.append_assoc] at hmagic
  exact absurd hmagic (unbordered_magic.not_occursAt_append hg (t ++ r) hj)

/-- **`from_bytes` takes the first message**, and ecCodes gets exactly its bytes. -/
lemma fromBytes_behind {g m : Bytes} (hg : ¬ ascii "GRIB" <:+: g) (hm : IsMessage m) (r : Bytes)
    (create : Bytes → Option H) :
    (GribHandle.fromBytes (N := N) create (g ++ (m ++ r))).passed.map (·.of (g ++ (m ++ r)))
        = some m ∧
      (GribHandle.fromBytes (N := N) create (g ++ (m ++ r))).result
        = makeHandle create m ⟨0, m.length⟩ := by
  have hfind : findMessage (g ++ (m ++ r)) 0 = .found g.length m.length := by
    rw [findMessage_eq, List.drop_zero, scan_message hg hm r 0, Nat.zero_add]
  have hne : g ++ (m ++ r) ≠ [] := by
    intro hnil
    have hlen := hm.le_length
    rw [(List.append_eq_nil_iff.mp (List.append_eq_nil_iff.mp hnil).2).1] at hlen
    exact absurd hlen (by simp)
  have hslice : Slice.of ⟨g.length, m.length⟩ (g ++ (m ++ r)) = m := by
    rw [Slice.of, List.drop_left, List.take_left]
  have hwhole : Slice.of ⟨0, m.length⟩ m = m := by
    rw [Slice.of, List.drop_zero, List.take_length]
  rw [GribHandle.fromBytes, if_neg hne, hfind]
  exact ⟨congrArg some hslice, by simp only [makeHandle, hslice, hwhole]⟩

/-- The handle of a message at the front of some bytes. -/
lemma fromBytes_front {m : Bytes} (hm : IsMessage m) (r : Bytes) (create : Bytes → Option H) :
    (GribHandle.fromBytes (N := N) create (m ++ r)).result = makeHandle create m ⟨0, m.length⟩ := by
  have hgap : ¬ ascii "GRIB" <:+: ([] : Bytes) := by decide
  exact (fromBytes_behind hgap hm r create).2

/-- The handle of a message by itself. -/
lemma fromBytes_message {m : Bytes} (hm : IsMessage m) (create : Bytes → Option H) :
    (GribHandle.fromBytes (N := N) create m).result = makeHandle create m ⟨0, m.length⟩ := by
  have h := fromBytes_front (N := N) hm [] create
  rwa [List.append_nil] at h

/-- A gap at the end. -/
lemma scan_end {g : Bytes} (hg : ¬ ascii "GRIB" <:+: g) (i : ℕ) :
    scan messages g i = .atEnd := by
  refine scan_eq_atEnd_iff.mpr fun j _ => head_eq_skip_iff.mpr fun hmagic => ?_
  exact absurd (OccursAt.isInfix hmagic) hg

/-- A call of `GribFile::next` that finds the next message behind a gap, and what it hands to
ecCodes. -/
lemma next_message {f : GribFile} {g m r : Bytes} (hbuf : f.buf.drop f.pos = g ++ (m ++ r))
    (hg : ¬ ascii "GRIB" <:+: g) (hm : IsMessage m) (create : Bytes → Option H) :
    f.next (N := N) create
        = (⟨some ⟨f.pos + g.length, m.length⟩,
              (makeHandle create f.buf ⟨f.pos + g.length, m.length⟩).map some⟩,
            { f with pos := f.pos + g.length + m.length }) ∧
      Slice.of ⟨f.pos + g.length, m.length⟩ f.buf = m := by
  constructor
  · refine next_of_found create ?_
    rw [hbuf]
    exact scan_message hg hm r f.pos
  · rw [Slice.of, ← List.drop_drop, hbuf, List.drop_left, List.take_left]

/-- The same with a creation that succeeds. -/
lemma call_message {f : GribFile} {g m r : Bytes} (hbuf : f.buf.drop f.pos = g ++ (m ++ r))
    (hg : ¬ ascii "GRIB" <:+: g) (hm : IsMessage m) (create : Bytes → H) :
    call (N := N) f create = (⟨some m, .ok (some ⟨some (create m), none⟩)⟩,
      { f with pos := f.pos + g.length + m.length }) := by
  obtain ⟨hnext, hslice⟩ := next_message (N := N) hbuf hg hm fun m => some (create m)
  rw [call, hnext]
  simp only [makeHandle, Option.map_some, hslice]
  rfl

/-- A file in which every call gives one reply and changes nothing. -/
lemma replies_constant {f : GribFile} {last : Reply H N}
    (h : ∀ create, call f create = (last, f)) (creates : List (Bytes → H)) :
    replies f creates = handOut last [] creates := by
  induction creates with
  | nil => rfl
  | cons create creates ih => rw [replies, answers_cons, h create, handOut, ← ih]

/-- **Messages between gaps are handed out in order**; then come the replies to the rest. -/
theorem replies_framed (rest : Bytes) (last : Reply H N)
    (hrest : ∀ f : GribFile, f.buf.drop f.pos = rest → ∀ create, call f create = (last, f))
    (frames : List (Bytes × Bytes))
    (hframes : ∀ p ∈ frames, ¬ ascii "GRIB" <:+: p.1 ∧ IsMessage p.2) {f : GribFile}
    (hbuf : f.buf.drop f.pos = frames.flatMap (fun p => p.1 ++ p.2) ++ rest)
    (creates : List (Bytes → H)) :
    replies f creates = handOut last (frames.map Prod.snd) creates := by
  induction frames generalizing f creates with
  | nil => exact replies_constant (hrest f hbuf) creates
  | cons p frames ih =>
    cases creates with
    | nil => rfl
    | cons create creates =>
      -- the call takes the gap and the message, and leaves the rest to the later calls
      obtain ⟨hg, hm⟩ := hframes p (by simp)
      rw [List.flatMap_cons, List.append_assoc, List.append_assoc] at hbuf
      have hnext : (GribFile.mk f.buf (f.pos + p.1.length + p.2.length)).buf.drop
          (GribFile.mk f.buf (f.pos + p.1.length + p.2.length)).pos
            = frames.flatMap (fun p => p.1 ++ p.2) ++ rest := by
        rw [← List.drop_drop, ← List.drop_drop, hbuf, List.drop_left, List.drop_left]
      rw [replies, answers_cons, call_message hbuf hg hm create, List.map_cons, handOut,
        ← ih (fun q hq => hframes q (by simp [hq])) hnext creates]

/-- **Complete iteration.**  A file of messages between gaps without a magic hands out
exactly the messages, in order, and then the end of the buffer for ever. -/
theorem iterate_framed (frames : List (Bytes × Bytes)) (gap : Bytes)
    (hframes : ∀ p ∈ frames, ¬ ascii "GRIB" <:+: p.1 ∧ IsMessage p.2)
    (hgap : ¬ ascii "GRIB" <:+: gap) (creates : List (Bytes → H)) :
    replies (N := N) (GribFile.opened (frames.flatMap (fun p => p.1 ++ p.2) ++ gap)) creates
      = handOut endReply (frames.map Prod.snd) creates := by
  refine replies_framed gap endReply ?_ frames hframes rfl creates
  intro f hbuf create
  have hscan : scan messages (f.buf.drop f.pos) f.pos = .atEnd := by
    rw [hbuf]
    exact scan_end hgap f.pos
  rw [call, next_of_atEnd _ hscan]
  rfl

/-- The shortest message: of edition 1, and without any section. -/
def shortest : Bytes := ascii "GRIB" ++ [0, 0, 12, 1] ++ ascii "7777"

lemma isMessage_shortest : IsMessage shortest := by decide

/-- Two messages behind an incomplete magic and before a stray trailer, in four calls. -/
theorem iterate_framed_two :
    replies (N := ℕ) (GribFile.opened
        ([(ascii "GRI", shortest), ([], shortest)].flatMap (fun p => p.1 ++ p.2) ++ ascii "7777"))
        [List.length, List.length, List.length, List.length]
      = [⟨some shortest, .ok (some ⟨some 12, none⟩)⟩, ⟨some shortest, .ok (some ⟨some 12, none⟩)⟩,
          endReply, endReply] :=
  iterate_framed [(ascii "GRI", shortest), ([], shortest)] (ascii "7777") (by decide) (by decide)
    [List.length, List.length, List.length, List.length]

/-! ## Files that are cut off -/

/-- The scan of a message that is cut off. -/
lemma scan_cut {m : Bytes} (hm : IsMessage m) {cut : ℕ} (hlt : cut < m.length) (i : ℕ) :
    scan messages (m.take cut) i = if 4 ≤ cut then .invalid else .atEnd := by
  have hlen : (m.take cut).length = cut := by rw [List.length_take]; omega
  split
  · rename_i h4
    have hcut : messages.head (m.take cut) = .invalid :=
      head_cut hm (List.take_prefix _ _) (by omega) (by omega)
    rw [scan_of_head (by omega) (by rw [hcut]; simp), hcut]
    rfl
  · refine scan_eq_atEnd_iff.mpr fun j _ => head_of_length_lt ?_
    rw [List.length_drop]
    omega

/-- A file of messages that is cut off inside the last one. -/
def cutFile (ms : List Bytes) (m : Bytes) (cut : ℕ) : GribFile :=
  GribFile.opened (ms.flatten ++ m.take cut)

/-- The replies of a file that is cut off: the whole messages, then an error or the end. -/
lemma replies_cutFile {ms : List Bytes} {m : Bytes} (hms : ∀ x ∈ ms, IsMessage x)
    (hm : IsMessage m) {cut : ℕ} (hlt : cut < m.length) (creates : List (Bytes → H)) :
    replies (N := N) (cutFile ms m cut) creates
      = handOut (if 4 ≤ cut then incompleteReply else endReply) ms creates := by
  have hmap : (ms.map fun x => (([] : Bytes), x)).map Prod.snd = ms := by simp
  have hflat : (ms.map fun x => (([] : Bytes), x)).flatMap (fun p => p.1 ++ p.2) = ms.flatten := by
    simp [List.flatMap_map, List.flatMap_id']
  have h := replies_framed (N := N) (m.take cut)
    (if 4 ≤ cut then incompleteReply else endReply) ?_ (ms.map fun x => (([] : Bytes), x)) ?_
    (f := cutFile ms m cut) ?_ creates
  · rwa [hmap] at h
  · intro f hbuf create
    have hscan := scan_cut hm hlt f.pos
    rw [← hbuf] at hscan
    split at hscan
    · rename_i h4
      rw [call, next_of_invalid _ hscan, if_pos h4]
      rfl
    · rename_i h4
      rw [call, next_of_atEnd _ hscan, if_neg h4]
      rfl
  · intro p hp
    obtain ⟨x, hx, rfl⟩ := List.mem_map.mp hp
    have hnil : ¬ ascii "GRIB" <:+: [] := by decide
    exact ⟨hnil, hms x hx⟩
  · rw [hflat]
    rfl

/-- Enough calls show the last reply. -/
lemma handOut_inj {last last' : Reply H N} {ms : List Bytes} {creates : List (Bytes → H)}
    (hlen : ms.length < creates.length) (h : handOut last ms creates = handOut last' ms creates) :
    last = last' := by
  induction ms generalizing creates with
  | nil =>
    cases creates with
    | nil => exact absurd hlen (by simp)
    | cons create creates => exact (List.cons.inj h).1
  | cons m ms ih =>
    cases creates with
    | nil => exact absurd hlen (by simp)
    | cons create creates => exact ih (by simpa using hlen) (List.cons.inj h).2

/-- **A file that is cut off inside its last message hands out the whole messages and then
an error, if and only if the cut leaves the magic of the last one.** -/
theorem cut_reported_iff [Inhabited H] (ms : List Bytes) (m : Bytes)
    (hms : ∀ x ∈ ms, IsMessage x) (hm : IsMessage m) (cut : ℕ) (hlt : cut < m.length) :
    (∃ e, ∀ creates : List (Bytes → H),
        replies (N := N) (cutFile ms m cut) creates = handOut ⟨none, .error e⟩ ms creates)
      ↔ 4 ≤ cut := by
  constructor
  · rintro ⟨e, he⟩
    by_contra h4
    -- one call more than there are messages shows the last reply
    have hcalls := he (List.replicate (ms.length + 1) fun _ => default)
    rw [replies_cutFile hms hm hlt, if_neg h4] at hcalls
    have hlast := congrArg Reply.result (handOut_inj (by simp) hcalls)
    exact absurd hlast (by simp [endReply])
  · intro h4
    refine ⟨GribFile.incomplete, fun creates => ?_⟩
    rw [replies_cutFile hms hm hlt, if_pos h4]
    rfl

theorem cut_reported_iff_shortest :
    (∃ e, ∀ creates : List (Bytes → ℕ), replies (N := ℕ) (cutFile [shortest] shortest 7) creates
        = handOut ⟨none, .error e⟩ [shortest] creates) ↔ 4 ≤ 7 :=
  cut_reported_iff [shortest] shortest (by decide) (by decide) 7 (by decide)

/-- One byte of a message is taken for the end of the buffer. -/
theorem cut_not_reported :
    IsMessage shortest ∧ 0 < 1 ∧ 1 < shortest.length ∧
      ¬ ∃ e, ∀ creates : List (Bytes → ℕ), replies (N := ℕ) (cutFile [] shortest 1) creates
        = handOut ⟨none, .error e⟩ [] creates := by
  refine ⟨isMessage_shortest, by decide, by decide, ?_⟩
  rintro ⟨e, he⟩
  have hcall := he [fun _ => 0]
  rw [replies_cutFile (by simp) isMessage_shortest (by decide)] at hcall
  exact absurd (congrArg Reply.result (handOut_inj (by simp) hcall)) (by simp [endReply])

end GribCpp.Decode
