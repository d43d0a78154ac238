/-
# The ranges of a selection

What is downloaded when the selected entries of an inventory are requested one after the other:
no byte twice, in the order of the file, and a byte of the file if and only if the entry to which
it belongs meets the criteria.
-/
import GribCpp.Models.Selector
import GribCpp.Workflow.NomadsRanges

namespace GribCpp.Workflow

open Sidecar Http Tiling

namespace Tiled

variable {es : List GribIndexEntry}

/-- An entry asks for nothing that lies at the offset of a later entry or behind it. -/
lemma pairwise_before (h : Tiled es) :
    es.Pairwise fun e e' => e.offset.toNat < e'.offset.toNat ∧
      ∀ x, Selects (rangeText e.offset e.length) x → x < e'.offset.toNat := by
  have hoffsets := h.pairwise_offsets
  rw [List.pairwise_map] at hoffsets
  rw [List.pairwise_iff_getElem] at hoffsets ⊢
  intro i j hi hj hij
  refine ⟨hoffsets i j hi hj hij, fun x hx => ?_⟩
  -- the range ends where the next entry begins
  have hnext : i + 1 < es.length := by omega
  have he : es[i]? = some es[i] := List.getElem?_eq_getElem hi
  obtain ⟨hpos, hend⟩ := h.reaches he (List.getElem?_eq_getElem hnext)
  have hlt := ((selects_rangeText_iff (h.not_rangeOverflows he)).mp hx).2 hpos
  have hle : es[i + 1].offset.toNat ≤ es[j].offset.toNat := by
    rcases Nat.eq_or_lt_of_le (Nat.succ_le_of_lt hij) with rfl | hlt'
    · exact le_refl _
    · exact (hoffsets (i + 1) j hnext hj hlt').le
  omega

/-- Every byte from the first offset on is asked for by some entry. -/
lemma exists_requested (h : Tiled es) {first : GribIndexEntry} (hfirst : es.head? = some first)
    {size x : ℕ} (hle : first.offset.toNat ≤ x) (hlt : x < size) :
    ∃ e ∈ es, x ∈ requested e size := by
  obtain ⟨rest, rfl⟩ := List.head?_eq_some_iff.mp hfirst
  obtain ⟨i, hi, -⟩ := existsUnique_inPiece h.pairwise_offsets hle
  change InPiece ((first :: rest).map fun e : GribIndexEntry => e.offset.toNat) i x at hi
  have ⟨a, ha, _⟩ := hi
  rw [List.getElem?_map] at ha
  obtain ⟨e, he, -⟩ := Option.map_eq_some_iff.mp ha
  exact ⟨e, List.mem_of_getElem? he, hlt, (h.selects_iff_inPiece he).mpr hi⟩

end Tiled

/-- **What a selection downloads.**  For every text that the reader accepts, every selector and
every file that reaches beyond the last offset: the selected entries are those that meet the
criteria, in the order of the inventory, all of them if there are no criteria, and a selection
from a selection asks for both; the ranges of two selected entries follow each other in the file
and have no byte in common, and each of them has some bytes; and a byte of the file from the first
offset on is not downloaded if and only if it belongs to an entry that does not meet the
criteria. -/
theorem selection_ranges (text : Bytes) (es : List GribIndexEntry)
    (h : parseNomadsIdx text = .ok es) (sel : GribSelector) (size : ℕ)
    (hsize : ∀ last, es.getLast? = some last → last.offset.toNat < size) :
    ((select es sel).Sublist es ∧ (∀ e, e ∈ select es sel ↔ e ∈ es ∧ Meets sel e) ∧
      select es {} = es ∧ ∀ sel', select (select es sel) sel'
        = es.filter fun e => Meets sel e ∧ Meets sel' e) ∧
    (select es sel).Pairwise (fun e e' => e.offset.toNat < e'.offset.toNat ∧
      Disjoint (requested e size) (requested e' size)) ∧
    (∀ e ∈ select es sel, ¬ RangeOverflows e.offset e.length ∧ (requested e size).Nonempty) ∧
    ∀ first, es.head? = some first → ∀ x, first.offset.toNat ≤ x → x < size →
      ((¬ ∃ e ∈ select es sel, x ∈ requested e size) ↔
        ∃ e ∈ es, ¬ Meets sel e ∧ x ∈ requested e size) := by
  have htiled := tiled_of_accepted h
  have hguard : ∀ e ∈ es, ¬ RangeOverflows e.offset e.length := by
    intro e he
    obtain ⟨i, hi⟩ := List.getElem?_of_mem he
    exact htiled.not_rangeOverflows hi
  -- what follows an entry begins behind its range
  have hdisjoint : es.Pairwise fun e e' => e.offset.toNat < e'.offset.toNat ∧
      Disjoint (requested e size) (requested e' size) := by
    refine htiled.pairwise_before.imp_of_mem fun {e e'} _ he' hbefore => ⟨hbefore.1, ?_⟩
    rw [Set.disjoint_left]
    intro x hx hx'
    have hlt := hbefore.2 x hx.2
    have hge := ((selects_rangeText_iff (hguard e' he')).mp hx'.2).1
    omega
  refine ⟨⟨select_sublist es sel, fun e => mem_select, select_empty es, select_select es sel⟩,
    hdisjoint.sublist (select_sublist es sel), fun e he => ?_, fun first hfirst x hle hlt => ?_⟩
  · have hmem := (mem_select.mp he).1
    refine ⟨hguard e hmem, e.offset.toNat, htiled.offset_lt hsize hmem, ?_⟩
    exact (selects_rangeText_iff (hguard e hmem)).mpr ⟨le_refl _, fun hpos => by omega⟩
  · obtain ⟨e, he, hx⟩ := htiled.exists_requested hfirst hle hlt
    constructor
    · intro hno
      exact ⟨e, he, fun hmeets => hno ⟨e, mem_select.mpr ⟨he, hmeets⟩, hx⟩, hx⟩
    · rintro ⟨e₁, he₁, hnot, hx₁⟩ ⟨e₂, he₂, hx₂⟩
      obtain ⟨hmem₂, hmeets₂⟩ := mem_select.mp he₂
      -- the byte belongs to one entry only
      obtain ⟨i, hi, rfl⟩ := List.getElem_of_mem he₁
      obtain ⟨j, hj, rfl⟩ := List.getElem_of_mem hmem₂
      have hpair := List.pairwise_iff_getElem.mp hdisjoint
      rcases lt_trichotomy i j with hij | rfl | hij
      · exact Set.disjoint_left.mp (hpair i j hi hj hij).2 hx₁ hx₂
      · exact hnot hmeets₂
      · exact Set.disjoint_left.mp (hpair j i hj hi hij).2 hx₂ hx₁

/-- The member 5 among three records. -/
theorem selection_ranges_ensemble :
    ∃ es, parseNomadsIdx (inventory ensembleLines ensembleLast) = .ok es ∧
      (select es { member := some 5 }).map (·.offset) = [500] ∧
      ∀ e ∈ select es { member := some 5 }, (requested e 1000).Nonempty := by
  have hoffsets : (records ensembleLines ensembleLast).map (·.offset) = [0, 500, 900] := rfl
  have hread : parseNomadsIdx (inventory ensembleLines ensembleLast)
      = .ok (entries (records ensembleLines ensembleLast)) := by
    rw [parseNomadsIdx, collect_inventory]
    exact setLengths_records (by rw [hoffsets]; decide)
  have hlaw := selection_ranges _ _ hread { member := some 5 } 1000 (by
    intro last hlast
    obtain rfl := Option.some.inj hlast
    decide)
  exact ⟨_, hread, rfl, fun e he => (hlaw.2.2.1 e he).2⟩

end GribCpp.Workflow
