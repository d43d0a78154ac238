/-
# The ranges of ECMWF entries

An ECMWF index states the offset and the length of a record; a range request takes a
length of zero for "up to the end".  The range that is asked for is therefore the one that
the index states, except for a record of length zero.
-/
import GribCpp.Http.Range
import GribCpp.Models.Locators

namespace GribCpp.Workflow

open Sidecar Http

/-- No request is sent, or one whose range selects exactly the bytes `o` to `o + l - 1`. -/
def AsksExactly (x : Exchange) (o l : ℤ) : Prop :=
  ∀ opts, x.sent = some opts →
    ∃ range, opts.range = some range ∧ ∀ b : ℕ, Selects range b ↔ o ≤ b ∧ (b : ℤ) < o + l

section Sent

variable {client : HttpClient} {path : Bytes} {offset length : UInt64}

/-- A range request asks for exactly the bytes of a record, unless the record is empty. -/
lemma asksExactly_getRange_iff (hguard : ¬ RangeOverflows offset length) :
    AsksExactly (client.getRange path offset length) offset.toNat length.toNat ↔
      0 < length.toNat ∨
        ¬ ∃ config curl, client.CanSend path (some (rangeText offset length)) config curl := by
  constructor
  · intro hasks
    by_contra hno
    rw [not_or, not_not, not_lt, Nat.le_zero] at hno
    obtain ⟨hl, config, curl, hsend⟩ := hno
    obtain ⟨range, hrange, hsel⟩ :=
      hasks _ ((sent_getRange_iff hguard).mpr ⟨config, curl, hsend, rfl⟩)
    obtain rfl := Option.some.inj hrange
    -- the open range selects its first byte, which the empty record does not have
    have hfirst := (hsel offset.toNat).mp
      ((selects_rangeText_iff hguard).mpr ⟨le_refl _, fun hpos => by omega⟩)
    omega
  · intro h opts hsent
    obtain ⟨config, curl, hsend, rfl⟩ := (sent_getRange_iff hguard).mp hsent
    have hl : 0 < length.toNat := h.resolve_right fun hno => hno ⟨config, curl, hsend⟩
    refine ⟨rangeText offset length, rfl, fun b => ?_⟩
    rw [selects_rangeText_iff hguard]
    omega

end Sent

section Entries

variable {G : Glaze} {toChars : Double → Bytes} {text : Bytes} {es : List GribIndexEntry}

/-- The integers that the text states are the offset and the length of the entry. -/
lemma stored_of_integers (hes : parseEcmwfIndex G.read toChars text = .ok es) {line : Bytes}
    {e : GribIndexEntry} (hmem : (line, e) ∈ (indexLines text).zip es) {off len : Literal}
    (hoff : G.literal line (ascii "_offset") = some off)
    (hlen : G.literal line (ascii "_length") = some len) {o l : ℤ} (ho : off.value = o)
    (hl : len.value = l) :
    o = e.offset.toNat ∧ l = e.length.toNat ∧ ¬ RangeOverflows e.offset e.length := by
  have hloc : Locates G.read line e.offset e.length :=
    (List.forall₂_iff_zip.mp (locates_of_accepted hes)).2 hmem
  obtain ⟨off', go, hoff', -, hdo, hno⟩ := Glaze.exists_literal hloc.offset_eq
  obtain ⟨len', gl, hlen', -, hdl, hnl⟩ := Glaze.exists_literal hloc.length_eq
  obtain rfl := Option.some.inj (hoff'.symm.trans hoff)
  obtain rfl := Option.some.inj (hlen'.symm.trans hlen)
  -- an integer is stored as it is
  have ho' := (exact_iff_isInteger hdo hno).mpr ⟨o, ho⟩
  have hl' := (exact_iff_isInteger hdl hnl).mpr ⟨l, hl⟩
  rw [ho] at ho'
  rw [hl] at hl'
  exact ⟨by exact_mod_cast ho', by exact_mod_cast hl', hloc.fits⟩

end Entries

/-- **An ECMWF entry addresses exactly its stated bytes if and only if it states any**, or no
request can be sent for it.  Its range never overflows. -/
theorem ecmwf_asksExactly_iff (G : Glaze) (toChars : Double → Bytes) (text : Bytes)
    (es : List GribIndexEntry) (hes : parseEcmwfIndex G.read toChars text = .ok es)
    (line : Bytes) (e : GribIndexEntry) (hmem : (line, e) ∈ (indexLines text).zip es)
    (off len : Literal) (hoff : G.literal line (ascii "_offset") = some off)
    (hlen : G.literal line (ascii "_length") = some len) (o l : ℤ) (ho : off.value = o)
    (hl : len.value = l) (client : HttpClient) (path : Bytes) :
    ¬ RangeOverflows e.offset e.length ∧
      (AsksExactly (client.getRange path e.offset e.length) o l ↔
        0 < l ∨ ¬ ∃ config curl,
          client.CanSend path (some (rangeText e.offset e.length)) config curl) := by
  obtain ⟨rfl, rfl, hguard⟩ := stored_of_integers hes hmem hoff hlen ho hl
  refine ⟨hguard, ?_⟩
  rw [asksExactly_getRange_iff hguard, Nat.cast_pos]

/-! ## An empty record -/

/-- A line that states a length of zero. -/
def emptyLine : Bytes := ascii "\x7b\"_offset\":5,\"_length\":0\x7d"

/-- Glaze on that line. -/
def emptyGlaze : Glaze :=
  Glaze.ofLine emptyLine (.ofNat 5) (.ofNat 0) _ _ (by decide) (by decide)
    (Literal.delivered_ofNat (by decide)) (Literal.delivered_ofNat (by decide))

/-- The entry of that line. -/
def emptyEntry : GribIndexEntry := { raw := emptyLine, offset := 5, length := 0 }

/-- A client whose libcurl takes every option. -/
def sendingClient : HttpClient where
  impl := some
    { config := {}
      curl := some
        { slistAppend := true
          setopt := fun _ => true
          easyPerform := fun _ => { events := [], code := curleOk, status := some 206 }
          strerror := fun _ => [] } }

lemma indexLines_emptyLine : indexLines emptyLine = [emptyLine] := by
  rw [indexLines, split_eq, List.splitOn_eq_singleton (by decide)]
  decide

lemma parse_emptyLine :
    parseEcmwfIndex emptyGlaze.read (fun _ => []) emptyLine = .ok [emptyEntry] := by
  rw [parseEcmwfIndex_eq_ok_iff, indexLines_emptyLine]
  refine List.Forall₂.cons ((ecmwfLine_eq_ok_iff (by decide)).mpr ?_) List.Forall₂.nil
  refine ⟨_, 5, 0, rfl, ⟨?_, ?_, by decide⟩, rfl⟩
  · rw [emptyGlaze, Glaze.locator_offset]
    rfl
  · rw [emptyGlaze, Glaze.locator_length]
    rfl

theorem ecmwf_asksExactly_emptyLine :
    ¬ RangeOverflows emptyEntry.offset emptyEntry.length ∧
      (AsksExactly (sendingClient.getRange (ascii "/file") emptyEntry.offset
          emptyEntry.length) 5 0 ↔
        0 < (0 : ℤ) ∨ ¬ ∃ config curl, sendingClient.CanSend (ascii "/file")
          (some (rangeText emptyEntry.offset emptyEntry.length)) config curl) :=
  ecmwf_asksExactly_iff emptyGlaze (fun _ => []) emptyLine [emptyEntry] parse_emptyLine emptyLine
    emptyEntry (by rw [indexLines_emptyLine]; simp) (.ofNat 5) (.ofNat 0) rfl rfl 5 0 (by simp)
    (by simp) sendingClient _

/-- For an empty record the rest of the file is asked for. -/
theorem emptyLine_asks_for_rest :
    parseEcmwfIndex emptyGlaze.read (fun _ => []) emptyLine = .ok [emptyEntry] ∧
      ¬ AsksExactly (sendingClient.getRange (ascii "/file") emptyEntry.offset
        emptyEntry.length) 5 0 := by
  refine ⟨parse_emptyLine, fun hasks => ?_⟩
  have hguard : ¬ RangeOverflows emptyEntry.offset emptyEntry.length := by decide
  have h := (asksExactly_getRange_iff hguard).mp hasks
  rcases h with h | h
  · exact absurd h (by decide)
  · exact h ⟨_, _, rfl, by decide, by decide, by decide, rfl, rfl⟩

end GribCpp.Workflow
