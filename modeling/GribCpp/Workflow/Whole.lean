/-
# Record by record, or as a whole

The two ways to the messages of a file: to download the records of its inventory one by one and to
decode each answer by itself, or to download the file and to go through it with `GribFile::next`.
They come to the same bytes and to the same handles.
-/
import GribCpp.Lib.Traverse
import GribCpp.Workflow.Sites

namespace GribCpp.Workflow

open Sidecar Http Decode Framing Machine

variable {H N : Type} {create : Bytes → Option H} {pieces : List (Bytes × Bytes)}

/-- A call of `GribFile::next`, as its caller sees it. -/
def nextResult (create : Bytes → Option H) (f : GribFile) :
    Unit → Result (Option (GribHandle H N)) × GribFile :=
  fun _ => ((f.next (N := N) create).1.result, (f.next (N := N) create).2)

/-- **A file is drained message by message**, and then comes to its end. -/
lemma drain_file (hm : ∀ x ∈ pieces, IsMessage x.1)
    (hpad : ∀ x ∈ pieces, ¬ ascii "GRIB" <:+: x.2) {f : GribFile} {gap : Bytes}
    (hgap : ¬ ascii "GRIB" <:+: gap) (hbuf : f.buf.drop f.pos = gap ++ file pieces) :
    answers (nextResult (N := N) create) f (List.replicate (pieces.length + 1) ())
      = pieces.map (fun x => (makeHandle create x.1 ⟨0, x.1.length⟩).map some) ++ [.ok none] := by
  induction pieces generalizing f gap with
  | nil =>
    have hscan : scan messages (f.buf.drop f.pos) f.pos = .atEnd := by
      rw [hbuf, file, List.flatMap_nil, List.append_nil]
      exact scan_end hgap f.pos
    simp [nextResult, next_of_atEnd create hscan]
  | cons x pieces ih =>
    have hsplit : f.buf.drop f.pos = gap ++ (x.1 ++ (x.2 ++ file pieces)) := by
      rw [hbuf, file, List.flatMap_cons, file, List.append_assoc]
    obtain ⟨hnext, hslice⟩ := next_message (N := N) hsplit hgap (hm x (by simp)) create
    -- the padding is the gap in front of the next message
    have hrest : (GribFile.mk f.buf (f.pos + gap.length + x.1.length)).buf.drop
        (GribFile.mk f.buf (f.pos + gap.length + x.1.length)).pos = x.2 ++ file pieces := by
      rw [← List.drop_drop, ← List.drop_drop, hsplit, List.drop_left, List.drop_left]
    have hmake : makeHandle (N := N) create f.buf ⟨f.pos + gap.length, x.1.length⟩
        = makeHandle create x.1 ⟨0, x.1.length⟩ := by
      simp only [makeHandle, hslice]
      simp [Slice.of]
    rw [List.length_cons, List.replicate_succ, answers_cons, List.map_cons, List.cons_append,
      ← ih (fun y hy => hm y (by simp [hy])) (fun y hy => hpad y (by simp [hy]))
        (hpad x (by simp)) hrest]
    simp only [nextResult, hnext, hmake]

/-- A message and its padding are a part of the file. -/
lemma length_piece_le {i : ℕ} {x : Bytes × Bytes} (hx : pieces[i]? = some x) :
    x.1.length + x.2.length ≤ (file pieces).length := by
  have hlen := congrArg List.length (drop_file hx)
  rw [List.length_drop, List.length_append, List.length_append] at hlen
  omega

/-- Every entry of an inventory is answered by its message and the padding behind it. -/
lemma exists_part {rs : List Record} {client : HttpClient} {path : Bytes}
    {config : HttpClientConfig} {curl : Curl} (hm : ∀ x ∈ pieces, IsMessage x.1)
    (hF : (file pieces).length < 2 ^ 64) (hT : Describes rs pieces)
    (hserved : ServedBy (file pieces) client path config curl) {i : ℕ} {e : GribIndexEntry}
    {x : Bytes × Bytes} (he : (entries rs)[i]? = some e) (hx : pieces[i]? = some x)
    (hlimit : config.maxResponseBytes = 0 ∨
      x.1.length + x.2.length ≤ config.maxResponseBytes.toNat) :
    ∃ part, (client.getRange path e.offset e.length).result = .ok part ∧
      part.body = x.1 ++ x.2 := by
  obtain ⟨hguard, hoffset, hbytes⟩ := hT.entry hm hF hx he
  rw [← List.length_append] at hlimit
  exact getRange_served hF hserved hguard hoffset hbytes hlimit

/-- The inventory of a file of messages is read. -/
lemma parseNomadsIdx_described {lines : List (Line × Eol)} {last : Option Line}
    (hm : ∀ x ∈ pieces, IsMessage x.1) (hT : Describes (records lines last) pieces) :
    parseNomadsIdx (inventory lines last) = .ok (entries (records lines last)) := by
  rw [parseNomadsIdx, collect_inventory]
  exact setLengths_records (hT.increasing hm)

/-- **Record by record is as good as the whole.**  For every file of messages whose padding contains
no magic, every inventory of it and every server that gives both the file and its ranges: the
answers for the entries of the inventory, put together, are the file; and the handles that
`GribHandle::from_bytes` makes of the answers, one by one, are those that `GribFile::next` makes of
the file, in order and with the failures of ecCodes at the same places, until it comes to the
end. -/
theorem recordwise_eq_whole (pieces : List (Bytes × Bytes)) (hm : ∀ x ∈ pieces, IsMessage x.1)
    (hpad : ∀ x ∈ pieces, ¬ ascii "GRIB" <:+: x.2) (hF : (file pieces).length < 2 ^ 64)
    (lines : List (Line × Eol)) (last : Option Line) (hT : Describes (records lines last) pieces)
    (client : HttpClient) (path : Bytes) (config : HttpClientConfig) (curl : Curl)
    (hserved : ServedBy (file pieces) client path config curl)
    (hsend : client.CanSend path none config curl)
    (hwhole : AnswersWhole (file pieces) (curl.easyPerform (requestOptions config path none)))
    (hlimit : config.maxResponseBytes = 0 ∨
      (file pieces).length ≤ config.maxResponseBytes.toNat) :
    ∃ es parts whole, parseNomadsIdx (inventory lines last) = .ok es ∧
      List.Forall₂ (fun e part => (client.getRange path e.offset e.length).result = .ok part)
        es parts ∧
      (client.get path).result = .ok whole ∧
      parts.flatMap (fun part : HttpResponse => part.body) = whole.body ∧
      ∀ {H N : Type} (create : Bytes → Option H),
        answers (nextResult (N := N) create) (.opened whole.body)
            (List.replicate (parts.length + 1) ())
          = parts.map (fun part : HttpResponse =>
              (GribHandle.fromBytes (N := N) create part.body).result.map some) ++ [.ok none] := by
  obtain ⟨whole, hget, -, hbody⟩ := get_answered hF hsend hwhole hlimit
  obtain ⟨parts, hparts, hbodies⟩ : ∃ parts : List HttpResponse,
      List.Forall₂ (fun e part => (client.getRange path e.offset e.length).result = .ok part)
        (entries (records lines last)) parts ∧
      parts.map (fun part => part.body) = pieces.map fun x => x.1 ++ x.2 := by
    have hlen : (entries (records lines last)).length = pieces.length := by
      rw [length_entries, hT.length]
    have hall : List.Forall₂ (fun e x => ∃ part : HttpResponse,
        (client.getRange path e.offset e.length).result = .ok part ∧ part.body = x.1 ++ x.2)
        (entries (records lines last)) pieces := by
      refine List.forall₂_iff_get.mpr ⟨hlen, fun i hi hi' => ?_⟩
      have hx := List.getElem?_eq_getElem hi'
      exact exists_part hm hF hT hserved (List.getElem?_eq_getElem hi) hx
        (hlimit.imp_right (length_piece_le hx).trans)
    obtain ⟨parts, hparts, hbodies⟩ := Traverse.exists_forall₂ hall
    refine ⟨parts, hparts, ?_⟩
    rw [← List.forall₂_eq_eq_eq, List.forall₂_map_left_iff, List.forall₂_map_right_iff]
    exact hbodies.flip
  refine ⟨_, parts, whole, parseNomadsIdx_described hm hT, hparts, congrArg Exchange.result hget,
    ?_, ?_⟩
  · rw [List.flatMap_def, hbodies, hbody, file, List.flatMap_def]
  · intro H N create
    have hlen : parts.length = pieces.length := by
      have h := congrArg List.length hbodies
      rwa [List.length_map, List.length_map] at h
    have hgap : ¬ ascii "GRIB" <:+: ([] : Bytes) := by decide
    have hmap : parts.map (fun part : HttpResponse =>
        (GribHandle.fromBytes (N := N) create part.body).result.map some)
          = (parts.map fun part => part.body).map fun bytes =>
            (GribHandle.fromBytes (N := N) create bytes).result.map some := by
      rw [List.map_map]
      rfl
    rw [hlen, hbody, drain_file hm hpad hgap rfl, hmap, hbodies, List.map_map]
    congr 1
    refine List.map_congr_left fun x hx => ?_
    rw [Function.comp_apply, fromBytes_front (hm x hx)]

/-- Two messages, of which ecCodes makes their lengths. -/
theorem recordwise_eq_whole_two :
    ∃ (es : List GribIndexEntry) (parts : List HttpResponse) (whole : HttpResponse),
      parseNomadsIdx (inventory twoLines none) = .ok es ∧
      List.Forall₂ (fun e part =>
        ((programClient (some (siteCurl (file twoPieces) (file twoPieces)))).getRange
          (ascii "/file") e.offset e.length).result = .ok part) es parts ∧
      parts.flatMap (fun part : HttpResponse => part.body) = whole.body ∧
      answers (nextResult (N := Unit) fun m => some m.length) (.opened whole.body)
          (List.replicate (parts.length + 1) ())
        = parts.map (fun part : HttpResponse =>
            (GribHandle.fromBytes (N := Unit) (fun m => some m.length) part.body).result.map some)
          ++ [.ok none] := by
  have hF : (file twoPieces).length < 2 ^ 64 := by decide
  obtain ⟨es, parts, whole, hes, hparts, -, hbody, hdrain⟩ := recordwise_eq_whole twoPieces
    (by decide) (by decide) hF twoLines none describes_two _ (ascii "/file") {} _
    (servedBy_siteCurl (file twoPieces) hF (by decide))
    ⟨rfl, by decide, by decide, by decide, rfl, rfl⟩ (answersWhole_siteCurl _ _ hF)
    (Or.inr (by decide))
  exact ⟨es, parts, whole, hes, hparts, hbody, hdrain _⟩

end GribCpp.Workflow
