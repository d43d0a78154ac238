/-
# One file, two formats of an index

A file may have a NOMADS inventory and an ECMWF index.  The two parsers have nothing in common but
the shape of an entry, and the ranges differ: that of an inventory reaches to the next record, with
the padding in between, and that of an index states the length of the message.  Nevertheless the
entries for a message lead to the same handle and to the same values.
-/
import GribCpp.Api.CutBlobs
import GribCpp.Models.Locators
import GribCpp.Workflow.Whole

namespace GribCpp.Workflow

open Api Sidecar Http Decode Framing

/-! ## What an index addresses -/

/-- An entry that asks for a message of the file, and no more. -/
structure Addresses (pieces : List (Bytes × Bytes)) (i : ℕ) (x : Bytes × Bytes)
    (offset length : UInt64) : Prop where
  piece : pieces[i]? = some x
  offset_eq : offset.toNat = (file (pieces.take i)).length
  length_eq : length.toNat = x.1.length

/-- An ECMWF index of the file: every line says where a message is, in whatever order. -/
def IndexOf (read : Bytes → Option Generic) (index : Bytes) (pieces : List (Bytes × Bytes)) :
    Prop :=
  ∀ line ∈ indexLines index, ∃ i x offset length,
    Locates read line offset length ∧ Addresses pieces i x offset length

section Index

variable {read : Bytes → Option Generic} {index : Bytes} {pieces : List (Bytes × Bytes)}

/-- **An index of the file is read**, and each of its entries addresses a message. -/
lemma parseEcmwfIndex_indexOf (toChars : Double → Bytes) (hindex : IndexOf read index pieces) :
    ∃ es, parseEcmwfIndex read toChars index = .ok es ∧
      ∀ e ∈ es, ¬ RangeOverflows e.offset e.length ∧
        ∃ i x, Addresses pieces i x e.offset e.length := by
  obtain ⟨es, hes⟩ := accepted_of_locates toChars fun line hline => by
    obtain ⟨i, x, offset, length, hlocates, -⟩ := hindex line hline
    exact ⟨offset, length, hlocates⟩
  refine ⟨es, hes, ?_⟩
  have hboth : List.Forall₂ (fun line e => line ∈ indexLines index ∧
      Locates read line e.offset e.length) (indexLines index) es :=
    (List.forall₂_and_left _ _).mpr ⟨fun _ h => h, locates_of_accepted hes⟩
  refine forall_mem_of_forall₂ hboth.flip fun e line h => ?_
  obtain ⟨hline, hentry⟩ := h
  obtain ⟨i, x, offset, length, hlocates, haddresses⟩ := hindex line hline
  -- the locators of a line are unique
  obtain rfl := Option.some.inj (hlocates.offset_eq.symm.trans hentry.offset_eq)
  obtain rfl := Option.some.inj (hlocates.length_eq.symm.trans hentry.length_eq)
  exact ⟨hentry.fits, i, x, haddresses⟩

/-- Such an entry is answered by its message. -/
lemma exists_message {client : HttpClient} {path : Bytes} {config : HttpClientConfig} {curl : Curl}
    (hm : ∀ x ∈ pieces, IsMessage x.1) (hF : (file pieces).length < 2 ^ 64)
    (hserved : ServedBy (file pieces) client path config curl) {e : GribIndexEntry} {i : ℕ}
    {x : Bytes × Bytes} (hguard : ¬ RangeOverflows e.offset e.length)
    (he : Addresses pieces i x e.offset e.length)
    (hlimit : config.maxResponseBytes = 0 ∨ x.1.length ≤ config.maxResponseBytes.toNat) :
    ∃ part, (client.getRange path e.offset e.length).result = .ok part ∧ part.body = x.1 := by
  have hlen : 12 ≤ x.1.length := (hm _ (List.mem_of_getElem? he.piece)).le_length
  have hdrop : (file pieces).drop e.offset.toNat = x.1 ++ x.2 ++ file (pieces.drop (i + 1)) := by
    rw [he.offset_eq]
    exact drop_file he.piece
  have hdroplen := congrArg List.length hdrop
  rw [List.length_drop, List.length_append, List.length_append] at hdroplen
  have hbytes : x.1 = ((file pieces).drop e.offset.toNat).take
      (if e.length.toNat = 0 then (file pieces).length - e.offset.toNat else e.length.toNat) := by
    rw [he.length_eq, if_neg (by omega), hdrop, List.append_assoc, List.take_left]
  exact getRange_served hF hserved hguard (by omega) hbytes hlimit

end Index

/-! ## What the two answers come to -/

section Answers

variable {H N : Type} {m p : Bytes}

/-- A member is looked for in the message at the front, and then there is no other. -/
lemma extractPointMember_front (lib : EcCodes H N) (hm : IsMessage m)
    (hpad : ¬ ascii "GRIB" <:+: p) (lat lon : Double) (member : ℤ) :
    extractPointMember lib (m ++ p) lat lon member
      = match makeHandle (N := N) lib.create m ⟨0, m.length⟩ with
        | .error e => .error e
        | .ok h =>
          if memberOf lib h = member then (h.nearestValue lib.toNearestApi lat lon).result
          else .error (noMember member) := by
  have hgap : ¬ ascii "GRIB" <:+: ([] : Bytes) := by decide
  obtain ⟨hnext, -⟩ := next_message (N := N) (drop_opened (m ++ p)) hgap hm lib.create
  have hmake : makeHandle (N := N) lib.create (m ++ p) ⟨0, m.length⟩
      = makeHandle lib.create m ⟨0, m.length⟩ := makeHandle_append (by simp)
  -- behind the message there is only the padding
  have hrest : extractLoop lib lat lon member ⟨m ++ p, m.length⟩ = .error (noMember member) :=
    extractLoop_gap (by simpa using hpad) lat lon member
  change extractLoop lib lat lon member (GribFile.opened (m ++ p)) = _
  rw [extractLoop_eq, hnext]
  simp only [GribFile.opened, List.length_nil, Nat.add_zero, Nat.zero_add, hmake, hrest]
  cases makeHandle (N := N) lib.create m ⟨0, m.length⟩ with
  | error e => rfl
  | ok h => rfl

/-- **The padding does not matter**: a message with padding behind it comes to the same as the
message alone. -/
lemma front_agrees (lib : EcCodes H N) (libs : ℕ → EcCodes H N) (hm : IsMessage m)
    (hpad : ¬ ascii "GRIB" <:+: p) :
    (∀ create : Bytes → Option H, (GribHandle.fromBytes (N := N) create (m ++ p)).result
      = (GribHandle.fromBytes create m).result) ∧
    (∀ lat lon, extractPoint lib (m ++ p) lat lon = extractPoint lib m lat lon) ∧
    (∀ stations, extractPoints libs (m ++ p) stations = extractPoints libs m stations) ∧
    ∀ lat lon member, extractPointMember lib (m ++ p) lat lon member
      = extractPointMember lib m lat lon member := by
  have hfront : ∀ create : Bytes → Option H,
      (GribHandle.fromBytes (N := N) create (m ++ p)).result
        = (GribHandle.fromBytes create m).result := by
    intro create
    rw [fromBytes_front hm, fromBytes_message hm]
  refine ⟨hfront, fun lat lon => ?_, fun stations => ?_, fun lat lon member => ?_⟩
  · rw [extractPoint, extractPoint, hfront]
  · rw [extractPoints, extractPoints, hfront]
  · have hgap : ¬ ascii "GRIB" <:+: ([] : Bytes) := by decide
    have halone := extractPointMember_front lib hm hgap lat lon member
    rw [List.append_nil] at halone
    rw [extractPointMember_front lib hm hpad, halone]

end Answers

/-! ## The main result -/

/-- The records of an inventory begin at different places. -/
lemma offset_injective {rs : List Record} {pieces : List (Bytes × Bytes)}
    (hm : ∀ x ∈ pieces, IsMessage x.1) (hT : Describes rs pieces) {i j : ℕ}
    {e f : GribIndexEntry} (he : (entries rs)[i]? = some e) (hf : (entries rs)[j]? = some f)
    (heq : e.offset = f.offset) : i = j := by
  rw [getElem?_entries, Option.map_eq_some_iff] at he hf
  obtain ⟨r, hr, rfl⟩ := he
  obtain ⟨s, hs, rfl⟩ := hf
  obtain ⟨hi, rfl⟩ := List.getElem?_eq_some_iff.mp hr
  obtain ⟨hj, rfl⟩ := List.getElem?_eq_some_iff.mp hs
  have hoffset : rs[i].offset = rs[j].offset := by
    have h := congrArg UInt64.toNat heq
    rwa [Record.entry, Record.entry, UInt64.toNat_ofNat_of_lt' rs[i].offset_lt,
      UInt64.toNat_ofNat_of_lt' rs[j].offset_lt] at h
  have hnodup : (rs.map (·.offset)).Nodup := (hT.increasing hm).imp fun h => h.ne
  have hi' : i < (rs.map (·.offset)).length := by rwa [List.length_map]
  have hj' : j < (rs.map (·.offset)).length := by rwa [List.length_map]
  have hiff : (rs.map (·.offset))[i] = (rs.map (·.offset))[j] ↔ i = j := hnodup.getElem_inj_iff
  rw [← hiff, List.getElem_map, List.getElem_map, hoffset]

/-- The entry of the message that an index addresses. -/
lemma exists_entry {rs : List Record} {pieces : List (Bytes × Bytes)} (hT : Describes rs pieces)
    {i : ℕ} {x : Bytes × Bytes} {offset length : UInt64}
    (h : Addresses pieces i x offset length) :
    ∃ e, (entries rs)[i]? = some e ∧ e.offset = offset := by
  have hi : i < rs.length := by
    rw [hT.length]
    exact (List.getElem?_eq_some_iff.mp h.piece).1
  refine ⟨_, by rw [getElem?_entries, List.getElem?_eq_getElem hi, Option.map_some], ?_⟩
  rw [← UInt64.toNat_inj, Record.entry, UInt64.toNat_ofNat_of_lt' rs[i].offset_lt, hT.offset,
    h.offset_eq]

/-- **The two formats agree.**  For every file of messages whose padding contains no magic, every
inventory and every ECMWF index of it, in whatever order and of however many of the messages, and
every server that gives its ranges: both are read, and each entry of the index addresses a message,
for which there is exactly one entry of the inventory.  If the message and its padding are within
the limit of the client, the ranges of both entries are answered, the one with the message alone and
the other one with the padding behind it; and whatever ecCodes does, `GribHandle::from_bytes`,
`extract_point`, `extract_points` and `extract_point_member` come to the same with either. -/
theorem formats_agree (pieces : List (Bytes × Bytes)) (hm : ∀ x ∈ pieces, IsMessage x.1)
    (hpad : ∀ x ∈ pieces, ¬ ascii "GRIB" <:+: x.2) (hF : (file pieces).length < 2 ^ 64)
    (lines : List (Line × Eol)) (last : Option Line) (hT : Describes (records lines last) pieces)
    (read : Bytes → Option Generic) (toChars : Double → Bytes) (index : Bytes)
    (hindex : IndexOf read index pieces) (client : HttpClient) (path : Bytes)
    (config : HttpClientConfig) (curl : Curl)
    (hserved : ServedBy (file pieces) client path config curl) :
    ∃ es es', parseNomadsIdx (inventory lines last) = .ok es ∧
      parseEcmwfIndex read toChars index = .ok es' ∧
      ∀ e' ∈ es', ∃ i x, Addresses pieces i x e'.offset e'.length ∧
        (∃! k : ℕ, es[k]?.map (·.offset) = some e'.offset) ∧
        ∀ e ∈ es, e.offset = e'.offset →
          (config.maxResponseBytes = 0 ∨
            x.1.length + x.2.length ≤ config.maxResponseBytes.toNat) →
          ∃ part part', (client.getRange path e.offset e.length).result = .ok part ∧
            (client.getRange path e'.offset e'.length).result = .ok part' ∧
            part'.body = x.1 ∧ part.body = x.1 ++ x.2 ∧
            ∀ {H N : Type} (lib : EcCodes H N) (libs : ℕ → EcCodes H N),
              (GribHandle.fromBytes (N := N) lib.create part.body).result
                = (GribHandle.fromBytes lib.create part'.body).result ∧
              (∀ lat lon, extractPoint lib part.body lat lon
                = extractPoint lib part'.body lat lon) ∧
              (∀ stations, extractPoints libs part.body stations
                = extractPoints libs part'.body stations) ∧
              ∀ lat lon member, extractPointMember lib part.body lat lon member
                = extractPointMember lib part'.body lat lon member := by
  obtain ⟨es', hes', hall⟩ := parseEcmwfIndex_indexOf toChars hindex
  refine ⟨_, es', parseNomadsIdx_described hm hT, hes', fun e' he' => ?_⟩
  obtain ⟨hguard, i, x, haddresses⟩ := hall e' he'
  obtain ⟨e, he, hoffset⟩ := exists_entry hT haddresses
  refine ⟨i, x, haddresses, ⟨i, ?_, fun j hj => ?_⟩, fun f hf hsame hlimit => ?_⟩
  · simp only [he, Option.map_some, hoffset]
  · obtain ⟨f, hf, hsame⟩ := Option.map_eq_some_iff.mp hj
    exact offset_injective hm hT hf he (hsame.trans hoffset.symm)
  · -- it is the entry of the same message
    obtain ⟨j, hj⟩ := List.getElem?_of_mem hf
    obtain rfl := offset_injective hm hT hj he (hsame.trans hoffset.symm)
    have hx := List.mem_of_getElem? haddresses.piece
    obtain ⟨part, hpart, hbody⟩ := exists_part hm hF hT hserved hj haddresses.piece hlimit
    obtain ⟨part', hpart', hbody'⟩ := exists_message hm hF hserved hguard haddresses
      (hlimit.imp_right (Nat.le_add_right _ _).trans)
    refine ⟨part, part', hpart, hpart', hbody', hbody, fun lib libs => ?_⟩
    rw [hbody, hbody']
    obtain ⟨hhandle, hpoint, hpoints, hmember⟩ := front_agrees lib libs (hm x hx) (hpad x hx)
    exact ⟨hhandle lib.create, hpoint, hpoints, hmember⟩

/-! ## Two messages in both formats -/

/-- The line of the second of the two messages. -/
def secondLine : Bytes := ascii "\x7b\"_offset\":14,\"_length\":12\x7d"

/-- The line of the first one. -/
def firstLine : Bytes := ascii "\x7b\"_offset\":0,\"_length\":12\x7d"

/-- An index that names the second message before the first. -/
def reversedIndex : Bytes := secondLine ++ 10 :: firstLine

/-- A reader of the two lines. -/
def readReversed (line : Bytes) : Option Generic :=
  if line = secondLine then
    some (.object [(ascii "_offset", .u64 14), (ascii "_length", .u64 12)])
  else if line = firstLine then
    some (.object [(ascii "_offset", .u64 0), (ascii "_length", .u64 12)])
  else none

lemma indexLines_reversed : indexLines reversedIndex = [secondLine, firstLine] := by
  rw [indexLines, split_eq]
  rfl

lemma indexOf_reversed : IndexOf readReversed reversedIndex twoPieces := by
  intro line hline
  rw [indexLines_reversed, List.mem_cons, List.mem_singleton] at hline
  rcases hline with rfl | rfl
  · exact ⟨1, (shortest, []), 14, 12, ⟨rfl, rfl, by decide⟩, ⟨rfl, by decide, by decide⟩⟩
  · exact ⟨0, (shortest, [0, 0]), 0, 12, ⟨rfl, rfl, by decide⟩, ⟨rfl, by decide, by decide⟩⟩

/-- The first message has padding in one of the formats. -/
theorem formats_agree_reversed :
    let client := programClient (some (siteCurl [] (file twoPieces)))
    ∃ es, parseNomadsIdx (inventory twoLines none) = .ok es ∧
      parseEcmwfIndex readReversed (fun _ => []) reversedIndex
        = .ok [{ raw := secondLine, offset := 14, length := 12 },
            { raw := firstLine, offset := 0, length := 12 }] ∧
      (∃! k : ℕ, es[k]?.map (·.offset) = some 0) ∧
      ∀ e ∈ es, e.offset = 0 → ∃ part part' : HttpResponse,
        (client.getRange (ascii "/file") e.offset e.length).result = .ok part ∧
        (client.getRange (ascii "/file") 0 12).result = .ok part' ∧
        part'.body = shortest ∧ part.body = shortest ++ [0, 0] ∧
        extractPoint lengthAsNumber part.body .negZero .negZero
          = extractPoint lengthAsNumber part'.body .negZero .negZero := by
  intro client
  have hF : (file twoPieces).length < 2 ^ 64 := by decide
  have hindex : parseEcmwfIndex readReversed (fun _ => []) reversedIndex
      = .ok [{ raw := secondLine, offset := 14, length := 12 },
          { raw := firstLine, offset := 0, length := 12 }] := by
    rw [parseEcmwfIndex_eq_ok_iff, indexLines_reversed]
    exact List.Forall₂.cons rfl (List.Forall₂.cons rfl List.Forall₂.nil)
  obtain ⟨es, es', hes, hes', hall⟩ := formats_agree twoPieces (by decide) (by decide) hF twoLines
    none describes_two readReversed (fun _ => []) reversedIndex indexOf_reversed client
    (ascii "/file") {} _ (servedBy_siteCurl [] hF (by decide))
  obtain rfl := Except.ok.inj (hindex.symm.trans hes')
  obtain ⟨i, x, haddresses, hunique, hagree⟩ :=
    hall { raw := firstLine, offset := 0, length := 12 } (by simp)
  -- it addresses the first message
  obtain rfl : x = (shortest, [0, 0]) := by
    have hi : i < 2 := (List.getElem?_eq_some_iff.mp haddresses.piece).1
    interval_cases i
    · exact (Option.some.inj haddresses.piece).symm
    · exact absurd haddresses.offset_eq (by decide)
  refine ⟨es, hes, hindex, hunique, fun e he hsame => ?_⟩
  obtain ⟨part, part', hpart, hpart', hbody', hbody, hvalues⟩ :=
    hagree e he hsame (Or.inr (by decide))
  exact ⟨part, part', hpart, hpart', hbody', hbody,
    (hvalues lengthAsNumber fun _ => lengthAsNumber).2.1 .negZero .negZero⟩

end GribCpp.Workflow
