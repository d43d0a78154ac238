/-
# From an inventory to the messages

The whole way from a NOMADS inventory to ecCodes: the inventory of a file of messages is
read, the entry of a message becomes a range request, an honest server answers it with the
message and the padding behind it, and the message is found at the front of the answer.
-/
import GribCpp.Decode.Drain
import GribCpp.Http.Transfer
import GribCpp.Models.Inventory

namespace GribCpp.Workflow

open Sidecar Http Decode Framing

/-! ## Files and their inventories -/

/-- A file of messages, each followed by its padding. -/
def file (pieces : List (Bytes × Bytes)) : Bytes := pieces.flatMap fun x => x.1 ++ x.2

/-- The records of an inventory of the file: they are numbered from one on, and say where
the messages begin. -/
structure Describes (rs : List Record) (pieces : List (Bytes × Bytes)) : Prop where
  length : rs.length = pieces.length
  number : ∀ (i : ℕ) (h : i < rs.length), rs[i].number = i + 1
  offset : ∀ (i : ℕ) (h : i < rs.length), rs[i].offset = (file (pieces.take i)).length

section File

variable {pieces : List (Bytes × Bytes)} {i : ℕ} {m p : Bytes}

lemma file_take_succ (h : pieces[i]? = some (m, p)) :
    file (pieces.take (i + 1)) = file (pieces.take i) ++ (m ++ p) := by
  rw [List.take_add_one, h, file, List.flatMap_append]
  simp [file]

/-- The file from the beginning of a message on. -/
lemma drop_file (h : pieces[i]? = some (m, p)) :
    (file pieces).drop (file (pieces.take i)).length = m ++ p ++ file (pieces.drop (i + 1)) := by
  have hsplit : file pieces = file (pieces.take i) ++ (m ++ p ++ file (pieces.drop (i + 1))) := by
    rw [← List.append_assoc, ← file_take_succ h, file, file, file, ← List.flatMap_append,
      List.take_append_drop]
  rw [hsplit, List.drop_left]

end File

/-- The entry of a record reaches to the next record, or is open. -/
lemma getElem?_entries {rs : List Record} {i : ℕ} :
    (entries rs)[i]? = rs[i]?.map fun r =>
      r.entry (rs[i + 1]?.elim 0 fun next => next.offset - r.offset) := by
  induction rs generalizing i with
  | nil => simp [entries]
  | cons r rs ih =>
    cases rs with
    | nil => cases i <;> simp [entries]
    | cons next rs =>
      cases i with
      | zero => simp [entries]
      | succ i => simpa [entries] using ih

lemma length_entries (rs : List Record) : (entries rs).length = rs.length := by
  induction rs with
  | nil => rfl
  | cons r rs ih =>
    cases rs with
    | nil => rfl
    | cons next rs => simpa [entries] using ih

section Describes

variable {rs : List Record} {pieces : List (Bytes × Bytes)}

/-- The offsets of an inventory of messages increase. -/
lemma Describes.increasing (h : Describes rs pieces) (hm : ∀ x ∈ pieces, IsMessage x.1) :
    (rs.map (·.offset)).Pairwise (· < ·) := by
  rw [← List.isChain_iff_pairwise, List.isChain_iff_getElem]
  intro i hi
  rw [List.length_map] at hi
  -- two neighbours are a message and its padding apart
  obtain ⟨m, p, hmp⟩ : ∃ m p, pieces[i]? = some (m, p) :=
    ⟨_, _, List.getElem?_eq_getElem (by rw [← h.length]; omega)⟩
  have hlen : 12 ≤ m.length := (hm _ (List.mem_of_getElem? hmp)).le_length
  rw [List.getElem_map, List.getElem_map, h.offset, h.offset, file_take_succ hmp,
    List.length_append, List.length_append]
  omega

/-- A record reaches over its message and the padding, the last one is open. -/
lemma Describes.span (h : Describes rs pieces) {i : ℕ} (hi : i < rs.length) {m p : Bytes}
    (hmp : pieces[i]? = some (m, p)) :
    (rs[i + 1]?.elim 0 fun next => next.offset - rs[i].offset)
      = if i + 1 < pieces.length then m.length + p.length else 0 := by
  rw [← h.length]
  by_cases hnext : i + 1 < rs.length
  · rw [List.getElem?_eq_getElem hnext, Option.elim_some, h.offset, h.offset, file_take_succ hmp,
      List.length_append, List.length_append, if_pos hnext]
    omega
  · rw [List.getElem?_eq_none (by omega), Option.elim_none, if_neg hnext]

/-- What the entry of a message asks for. -/
lemma Describes.entry (h : Describes rs pieces) (hm : ∀ x ∈ pieces, IsMessage x.1)
    (hF : (file pieces).length < 2 ^ 64) {i : ℕ} {m p : Bytes} (hmp : pieces[i]? = some (m, p))
    {e : GribIndexEntry} (he : (entries rs)[i]? = some e) :
    ¬ RangeOverflows e.offset e.length ∧ e.offset.toNat < (file pieces).length ∧
      m ++ p = ((file pieces).drop e.offset.toNat).take
        (if e.length.toNat = 0 then (file pieces).length - e.offset.toNat else e.length.toNat) := by
  have hlen : 12 ≤ m.length := (hm _ (List.mem_of_getElem? hmp)).le_length
  have hi : i < rs.length := by
    rw [h.length]
    exact (List.getElem?_eq_some_iff.mp hmp).1
  have hdrop := drop_file hmp
  have hdroplen := congrArg List.length hdrop
  rw [List.length_drop, List.length_append, List.length_append] at hdroplen
  rw [getElem?_entries, List.getElem?_eq_getElem hi, Option.map_some, Option.some.injEq,
    h.span hi hmp] at he
  have hoffset : e.offset.toNat = (file (pieces.take i)).length := by
    rw [← he, Record.entry, UInt64.toNat_ofNat_of_lt' rs[i].offset_lt, h.offset i hi]
  have hlength : e.length.toNat = if i + 1 < pieces.length then m.length + p.length else 0 := by
    rw [← he, Record.entry]
    split
    · refine UInt64.toNat_ofNat_of_lt' (lt_of_le_of_lt ?_ hF)
      omega
    · rfl
  rw [rangeOverflows_iff, hoffset, hlength, hdrop]
  split
  · -- up to the next message
    rw [if_neg (by omega), List.append_assoc, ← List.append_assoc m p, ← List.length_append,
      List.take_left, List.length_append]
    exact ⟨by omega, by omega, rfl⟩
  · -- up to the end of the file
    have hrest : file (pieces.drop (i + 1)) = [] := by
      rw [List.drop_eq_nil_of_le (by omega)]
      rfl
    rw [hrest, List.length_nil] at hdroplen
    have htake : (m ++ p).take ((file pieces).length - (file (pieces.take i)).length) = m ++ p :=
      List.take_of_length_le (by rw [List.length_append]; omega)
    rw [if_pos rfl, hrest, List.append_nil, htake]
    exact ⟨by omega, by omega, rfl⟩

end Describes

/-- The message is found at the front of the answer, and is what ecCodes gets. -/
lemma decode_front {m : Bytes} (hm : IsMessage m) (p : Bytes) :
    findMessage (m ++ p) 0 = .found 0 m.length ∧
      ∀ {H N : Type} (create : Bytes → Option H),
        (GribHandle.fromBytes (N := N) create (m ++ p)).passed.map (·.of (m ++ p)) = some m := by
  have hgap : ¬ ascii "GRIB" <:+: ([] : Bytes) := by decide
  have hfind : findMessage (m ++ p) 0 = .found 0 m.length := by
    rw [findMessage_eq]
    exact scan_message hgap hm p 0
  exact ⟨hfind, fun create => (fromBytes_behind hgap hm p create).1⟩

/-- **The way from an inventory to the messages.**  For every file of messages with padding
and every inventory of it: the inventory is read, it has an entry for each message, and
whatever entry is requested from a server that serves the file, the answer is accepted and
consists of the message and its padding; the message is found at its front, and ecCodes is
given exactly the bytes of the message. -/
theorem inventory_to_messages (pieces : List (Bytes × Bytes))
    (hm : ∀ x ∈ pieces, IsMessage x.1) (hF : (file pieces).length < 2 ^ 64)
    (lines : List (Line × Eol)) (last : Option Line)
    (hT : Describes (records lines last) pieces) :
    ∃ es, parseNomadsIdx (inventory lines last) = .ok es ∧ es.length = pieces.length ∧
      ∀ (i : ℕ) (m p : Bytes) (e : GribIndexEntry), pieces[i]? = some (m, p) → es[i]? = some e →
        ∀ (client : HttpClient) (path : Bytes) (config : HttpClientConfig) (curl : Curl),
          ServedBy (file pieces) client path config curl →
          (config.maxResponseBytes = 0 ∨ (m ++ p).length ≤ config.maxResponseBytes.toNat) →
          ∃ response, (client.getRange path e.offset e.length).result = .ok response ∧
            response.body = m ++ p ∧ findMessage response.body 0 = .found 0 m.length ∧
            ∀ (H N : Type) (create : Bytes → Option H),
              (GribHandle.fromBytes (N := N) create response.body).passed.map
                (·.of response.body) = some m := by
  refine ⟨entries (records lines last), ?_, by rw [length_entries, hT.length], ?_⟩
  · rw [parseNomadsIdx, collect_inventory]
    exact setLengths_records (hT.increasing hm)
  · intro i m p e hmp he client path config curl hserved hlimit
    obtain ⟨hguard, hoffset, hbody⟩ := hT.entry hm hF hmp he
    obtain ⟨response, hresult, hresponse⟩ :=
      getRange_served hF hserved hguard hoffset hbody hlimit
    obtain ⟨hfind, hpassed⟩ := decode_front (hm _ (List.mem_of_getElem? hmp)) p
    refine ⟨response, hresult, hresponse, ?_⟩
    rw [hresponse]
    exact ⟨hfind, fun H N => hpassed⟩

/-! ## A file of two messages -/

/-- Two messages, the first one padded. -/
def twoPieces : List (Bytes × Bytes) := [(shortest, [0, 0]), (shortest, [])]

/-- The record of each of them. -/
def twoRecord (i : Fin 2) : Record :=
  temperature (i + 1) (14 * i) ⟨by omega, by omega⟩ (by omega) none

/-- Their inventory. -/
def twoLines : List (Line × Eol) := [(.record (twoRecord 0), .lf), (.record (twoRecord 1), .lf)]

/-- A client of a server that serves the two messages. -/
def twoClient : HttpClient where
  impl := some ⟨{}, some (honestCurl (file twoPieces))⟩

lemma describes_two : Describes (records twoLines none) twoPieces := by
  refine ⟨rfl, ?_, ?_⟩
  · intro i h
    have hi : i < 2 := h
    interval_cases i <;> rfl
  · intro i h
    have hi : i < 2 := h
    interval_cases i <;> rfl

lemma twoClient_served : ServedBy (file twoPieces) twoClient (ascii "/file") {}
    (honestCurl (file twoPieces)) :=
  servedBy_honestCurl (by decide) fun _ => ⟨rfl, by decide, by decide, by decide, rfl, rfl⟩

theorem inventory_to_messages_two :
    ∃ es, parseNomadsIdx (inventory twoLines none) = .ok es ∧ es.length = 2 ∧
      ∀ (i : ℕ) (m p : Bytes) (e : GribIndexEntry), twoPieces[i]? = some (m, p) →
        es[i]? = some e → (m ++ p).length ≤ 2 ^ 26 →
          ∃ response, (twoClient.getRange (ascii "/file") e.offset e.length).result = .ok response ∧
            response.body = m ++ p ∧ findMessage response.body 0 = .found 0 m.length ∧
            ∀ (H N : Type) (create : Bytes → Option H),
              (GribHandle.fromBytes (N := N) create response.body).passed.map
                (·.of response.body) = some m := by
  obtain ⟨es, hes, hlen, hall⟩ := inventory_to_messages twoPieces (by decide) (by decide) twoLines
    none describes_two
  exact ⟨es, hes, hlen, fun i m p e hmp he hle =>
    hall i m p e hmp he twoClient (ascii "/file") {} _ twoClient_served (Or.inr hle)⟩

end GribCpp.Workflow
