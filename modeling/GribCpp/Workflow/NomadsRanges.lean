/-
# The ranges of a NOMADS inventory

The entries of an accepted inventory cut a file into pieces: whatever the text is, the ranges
that are requested for them cover the file from the first offset on, and no byte twice.  An
entry reaches up to the next one, and the last entry asks for everything up to the end of
the file.
-/
import GribCpp.Http.Range
import GribCpp.Lib.Tiling
import GribCpp.Models.Inventory

namespace GribCpp.Workflow

open Sidecar Http Tiling

/-- The bytes of a file that the range for an entry selects. -/
def requested (e : GribIndexEntry) (size : ℕ) : Set ℕ :=
  {x | x < size ∧ Selects (rangeText e.offset e.length) x}

lemma mem_requested {e : GribIndexEntry} {size x : ℕ} :
    x ∈ requested e size ↔ x < size ∧ Selects (rangeText e.offset e.length) x := Iff.rfl

/-- The entry is not empty and reaches up to the next one. -/
def Reaches (e next : GribIndexEntry) : Prop :=
  0 < e.length.toNat ∧ e.offset.toNat + e.length.toNat = next.offset.toNat

/-- Every entry reaches up to the next one, and the last one is open. -/
structure Tiled (es : List GribIndexEntry) : Prop where
  isChain : es.IsChain Reaches
  open_end : ∀ e, es.getLast? = some e → e.length = 0

/-! ## Inventories -/

/-- The last loop turns increasing offsets into lengths. -/
lemma tiled_of_setLengths {es es' : List GribIndexEntry} (h : setLengths es = .ok es')
    (hzero : ∀ e ∈ es, e.length = 0) : Tiled es' := by
  induction es generalizing es' with
  | nil =>
    obtain rfl := Except.ok.inj h
    exact ⟨List.IsChain.nil, by simp⟩
  | cons e es ih =>
    cases es with
    | nil =>
      obtain rfl := Except.ok.inj h
      exact ⟨List.IsChain.singleton _, by simpa using hzero e (by simp)⟩
    | cons next es =>
      obtain ⟨hlt, rest, hrest, rfl⟩ := setLengths_cons_cons_eq_ok_iff.mp h
      obtain ⟨hchain, hlast⟩ := ih hrest fun e' he' => hzero e' (by simp [he'])
      -- the next entry keeps its offset
      cases setLengths_forall₂ hrest with
      | @cons _ next' _ rest hnext _ =>
        have hoffset : next'.offset = next.offset := by rw [hnext]
        rw [UInt64.lt_iff_toNat_lt] at hlt
        have hsub := UInt64.toNat_sub_of_le _ _ (UInt64.le_iff_toNat_le.mpr hlt.le)
        refine ⟨List.isChain_cons_cons.mpr ⟨⟨?_, ?_⟩, hchain⟩, ?_⟩
        · simp only [hsub]
          omega
        · simp only [hsub, hoffset]
          omega
        · intro e' he'
          exact hlast e' (by simpa using he')

lemma tiled_of_accepted {text : Bytes} {es : List GribIndexEntry}
    (h : parseNomadsIdx text = .ok es) : Tiled es := by
  obtain ⟨es₀, hcollect, hset⟩ := parseNomadsIdx_eq_ok.mp h
  refine tiled_of_setLengths hset (forall_mem_of_collect ?_ hcollect)
  intro line e he
  obtain ⟨_, _, _, _, _, _, _, _, _, _, _, _, _, _, rfl⟩ := nomadsLine_eq_some he
  rfl

namespace Tiled

variable {es : List GribIndexEntry} {i : ℕ} {e next : GribIndexEntry}

lemma reaches (h : Tiled es) (he : es[i]? = some e) (hnext : es[i + 1]? = some next) :
    Reaches e next := by
  obtain ⟨hi, rfl⟩ := List.getElem?_eq_some_iff.mp he
  obtain ⟨hi', rfl⟩ := List.getElem?_eq_some_iff.mp hnext
  exact List.isChain_iff_getElem.mp h.isChain i hi'

lemma length_eq_zero (h : Tiled es) (he : es[i]? = some e) (hnext : es[i + 1]? = none) :
    e.length = 0 := by
  refine h.open_end e ?_
  obtain ⟨hi, -⟩ := List.getElem?_eq_some_iff.mp he
  rw [List.getElem?_eq_none_iff] at hnext
  rw [List.getLast?_eq_getElem?, show es.length - 1 = i by omega, he]

/-- An entry ends below `2 ^ 64`: at the next one, if there is one. -/
lemma end_lt (h : Tiled es) (he : es[i]? = some e) :
    e.offset.toNat + e.length.toNat < 2 ^ 64 := by
  cases hnext : es[i + 1]? with
  | none =>
    rw [h.length_eq_zero he hnext]
    exact e.offset.toNat_lt
  | some next =>
    rw [(h.reaches he hnext).2]
    exact next.offset.toNat_lt

lemma not_rangeOverflows (h : Tiled es) (he : es[i]? = some e) :
    ¬ RangeOverflows e.offset e.length := by
  have hlt := h.end_lt he
  rw [rangeOverflows_iff]
  omega

/-- The starting points of the pieces. -/
lemma pairwise_offsets (h : Tiled es) : (es.map (·.offset.toNat)).Pairwise (· < ·) := by
  rw [← List.isChain_iff_pairwise, List.isChain_map]
  refine h.isChain.imp fun e next hreach => ?_
  have hpos := hreach.1
  have heq := hreach.2
  omega

/-- The range for an entry selects the piece that begins at its offset. -/
lemma selects_iff_inPiece (h : Tiled es) (he : es[i]? = some e) {x : ℕ} :
    Selects (rangeText e.offset e.length) x ↔ InPiece (es.map (·.offset.toNat)) i x := by
  rw [selects_rangeText_iff (h.not_rangeOverflows he), InPiece, List.getElem?_map,
    List.getElem?_map, he]
  cases hnext : es[i + 1]? with
  | none => simp [h.length_eq_zero he hnext]
  | some next =>
    obtain ⟨hpos, hend⟩ := h.reaches he hnext
    simp [hpos, hend]

/-- The offsets of all entries lie in the file if that of the last one does. -/
lemma offset_lt (h : Tiled es) {size : ℕ}
    (hsize : ∀ last, es.getLast? = some last → last.offset.toNat < size) (he : e ∈ es) :
    e.offset.toNat < size := by
  have hne : es ≠ [] := List.ne_nil_of_mem he
  have hlast := hsize _ (List.getLast?_eq_some_getLast hne)
  rw [← List.dropLast_append_getLast hne] at he
  rcases List.mem_append.mp he with hmem | hmem
  · have hpair := h.pairwise_offsets
    rw [← List.dropLast_append_getLast hne, List.map_append, List.pairwise_append] at hpair
    exact (hpair.2.2 _ (List.mem_map_of_mem hmem) _ (by simp)).trans hlast
  · rw [List.mem_singleton.mp hmem]
    exact hlast

/-- The bytes that are requested, clamped to the end of the file. -/
lemma requested_eq (h : Tiled es) (he : es[i]? = some e) {size : ℕ}
    (hsize : e.offset.toNat < size) :
    requested e size = Set.Icc e.offset.toNat
      (if e.length = 0 then size - 1
        else min (e.offset.toNat + e.length.toNat - 1) (size - 1)) := by
  ext x
  rw [mem_requested, selects_rangeText_iff (h.not_rangeOverflows he), Set.mem_Icc]
  by_cases hzero : e.length = 0
  · have hzero' : e.length.toNat = 0 := by rw [hzero]; rfl
    rw [if_pos hzero]
    omega
  · have hpos : 0 < e.length.toNat :=
      UInt64.lt_iff_toNat_lt.mp (UInt64.pos_iff_ne_zero.mpr hzero)
    rw [if_neg hzero]
    omega

lemma length_eq_zero_iff (h : Tiled es) (he : es[i]? = some e) :
    e.length = 0 ↔ i + 1 = es.length := by
  obtain ⟨hi, -⟩ := List.getElem?_eq_some_iff.mp he
  constructor
  · intro hzero
    by_contra hne
    have hnext := List.getElem?_eq_getElem (l := es) (i := i + 1) (by omega)
    have hpos := (h.reaches he hnext).1
    rw [hzero] at hpos
    exact absurd hpos (by decide)
  · intro hlast
    exact h.length_eq_zero he (List.getElem?_eq_none_iff.mpr hlast.ge)

end Tiled

/-- **The ranges of an inventory tile the file.**  For every text that the reader accepts and
every file that reaches beyond the last offset: only the last entry is open; no range
overflows, and its end is computed without wrapping around; every range selects some bytes of
the file; and every byte of the file from the first offset on is selected by exactly one. -/
theorem nomads_ranges_tile (text : Bytes) (es : List GribIndexEntry)
    (h : parseNomadsIdx text = .ok es) (size : ℕ)
    (hsize : ∀ last, es.getLast? = some last → last.offset.toNat < size) :
    (∀ (i : ℕ) (e : GribIndexEntry), es[i]? = some e →
      (e.length = 0 ↔ i + 1 = es.length) ∧
      ¬ RangeOverflows e.offset e.length ∧
      (0 < e.length.toNat → e.offset.toNat + e.length.toNat < 2 ^ 64 ∧
        (e.offset + e.length - 1).toNat = e.offset.toNat + e.length.toNat - 1) ∧
      (∀ (client : HttpClient) (path : Bytes) (opts : Options),
        (client.getRange path e.offset e.length).sent = some opts →
          opts.range = some (rangeText e.offset e.length)) ∧
      (requested e size).Nonempty ∧
      requested e size = Set.Icc e.offset.toNat
        (if e.length = 0 then size - 1
          else min (e.offset.toNat + e.length.toNat - 1) (size - 1))) ∧
    ∀ first, es.head? = some first → ∀ x, first.offset.toNat ≤ x → x < size →
      ∃! i : ℕ, ∃ e, es[i]? = some e ∧ x ∈ requested e size := by
  have htiled := tiled_of_accepted h
  refine ⟨?_, ?_⟩
  · intro i e he
    have hguard := htiled.not_rangeOverflows he
    have hend := htiled.end_lt he
    have hlt := htiled.offset_lt hsize (List.mem_of_getElem? he)
    have hrequested := htiled.requested_eq he hlt
    refine ⟨htiled.length_eq_zero_iff he, hguard, fun hpos => ⟨hend, ?_⟩, ?_, ?_, hrequested⟩
    · exact toNat_range_end _ hpos (by omega)
    · intro client path opts hsent
      obtain ⟨config, curl, -, rfl⟩ := (sent_getRange_iff hguard).mp hsent
      rfl
    · -- the byte at the offset
      refine ⟨e.offset.toNat, hlt, (selects_rangeText_iff hguard).mpr ⟨le_refl _, ?_⟩⟩
      intro hpos
      omega
  · intro first hfirst x hle hlt
    obtain ⟨rest, rfl⟩ := List.head?_eq_some_iff.mp hfirst
    have hmem : ∀ i, (∃ e, (first :: rest)[i]? = some e ∧ x ∈ requested e size) ↔
        InPiece ((first :: rest).map (·.offset.toNat)) i x := by
      intro i
      constructor
      · rintro ⟨e, he, -, hsel⟩
        exact (htiled.selects_iff_inPiece he).mp hsel
      · intro hpiece
        have ⟨a, ha, _⟩ := hpiece
        rw [List.getElem?_map] at ha
        obtain ⟨e, he, -⟩ := Option.map_eq_some_iff.mp ha
        exact ⟨e, he, hlt, (htiled.selects_iff_inPiece he).mpr hpiece⟩
    simp only [hmem]
    exact existsUnique_inPiece htiled.pairwise_offsets hle

/-- Three records in a file of 1000 bytes. -/
theorem nomads_ranges_tile_ensemble :
    ∃ es, parseNomadsIdx (inventory ensembleLines ensembleLast) = .ok es ∧
      es.map (fun e => (e.offset, e.length)) = [(0, 500), (500, 400), (900, 0)] ∧
      ∀ x < 1000, ∃! i : ℕ, ∃ e, es[i]? = some e ∧ x ∈ requested e 1000 := by
  have hoffsets : (records ensembleLines ensembleLast).map (·.offset) = [0, 500, 900] := rfl
  have hread : parseNomadsIdx (inventory ensembleLines ensembleLast)
      = .ok (entries (records ensembleLines ensembleLast)) := by
    rw [parseNomadsIdx, collect_inventory]
    exact setLengths_records (by rw [hoffsets]; decide)
  have hlast : ∀ last, (entries (records ensembleLines ensembleLast)).getLast? = some last →
      last.offset.toNat < 1000 := by
    intro last hlast
    obtain rfl := Option.some.inj hlast
    decide
  obtain ⟨-, htile⟩ := nomads_ranges_tile _ _ hread 1000 hlast
  exact ⟨_, hread, rfl, fun x hx => htile _ rfl x (Nat.zero_le x) hx⟩

end GribCpp.Workflow
