/-
# Inventories and their texts

What a NOMADS inventory says, and how it is written: records with strictly increasing
offsets, one to a line, among lines that are no records, with line ends of either kind.
The reader of `GribCpp.Models.Sidecar` finds exactly the records, and gives each of them
the length up to the next one.
-/
import GribCpp.Models.Sidecar

namespace GribCpp.Sidecar

open Decimal Search

/-! ## Records -/

/-- A field of a line. -/
structure Field where
  bytes : Bytes
  no_colon : 58 ∉ bytes
  no_newline : 10 ∉ bytes

/-- A trailing field that is no ensemble tag and contains none. -/
structure TrailingField extends Field where
  no_tag : ¬ ascii "ENS=" <:+: bytes

/-- An ensemble tag. -/
inductive Tag where
  | lowRes
  | hiRes
  | member (n : ℕ) (lt : n < 2 ^ 31)

namespace Tag

/-- What stands behind `ENS=`. -/
def bytes : Tag → Bytes
  | .lowRes => ascii "low-res ctl"
  | .hiRes => ascii "hi-res ctl"
  | .member n _ => ascii "+" ++ numeral n

/-- The member that the tag names. -/
def number : Tag → ℕ
  | .lowRes | .hiRes => 0
  | .member n _ => n

end Tag

/-- A record of an inventory. -/
structure Record where
  number : ℕ
  number_pos : 0 < number
  number_lt : number < 2 ^ 32
  offset : ℕ
  offset_lt : offset < 2 ^ 64
  date : Field
  var : Field
  level : Field
  step : Field
  before : List TrailingField := []
  tag : Option Tag := none
  after : List TrailingField := []

namespace Record

/-- The fields behind the sixth one. -/
def trailing (r : Record) : List Bytes :=
  r.before.map (·.bytes) ++
    (r.tag.toList.map (fun t => ascii "ENS=" ++ t.bytes) ++ r.after.map (·.bytes))

/-- The fields of the record. -/
def fields (r : Record) : List Bytes :=
  numeral r.number :: numeral r.offset :: (ascii "d=" ++ r.date.bytes) :: r.var.bytes ::
    r.level.bytes :: r.step.bytes :: r.trailing

/-- The line of the record, without terminator. -/
def line (r : Record) : Bytes := r.fields.flatMap (· ++ [58])

/-- The ensemble member: `-1` for a record without tag. -/
def member (r : Record) : ℤ := r.tag.elim (-1) fun t => t.number

/-- The entry of the record, given its length. -/
def entry (r : Record) (length : ℕ) : GribIndexEntry where
  param := r.var.bytes
  level := r.level.bytes
  step := r.step.bytes
  raw := r.line
  offset := UInt64.ofNat r.offset
  length := UInt64.ofNat length
  record := UInt32.ofNat r.number
  member := r.member

lemma notMem_numeral {n : ℕ} {c : UInt8} (hc : isDigit c = false) : c ∉ numeral n :=
  (isNumeral_numeral n).notMem hc

/-- No field contains a colon or a newline. -/
lemma notMem_fields {r : Record} {c : UInt8} (hc : c = 58 ∨ c = 10) : ∀ f ∈ r.fields, c ∉ f := by
  have hdigit : isDigit c = false := by rcases hc with rfl | rfl <;> rfl
  have hfield : ∀ f : Field, c ∉ f.bytes := by
    rintro ⟨f, h58, h10⟩
    rcases hc with rfl | rfl
    exacts [h58, h10]
  have htag : ∀ t : Tag, c ∉ ascii "ENS=" ++ t.bytes := by
    intro t
    rw [List.mem_append, not_or]
    refine ⟨by rcases hc with rfl | rfl <;> decide, ?_⟩
    cases t with
    | lowRes | hiRes => rcases hc with rfl | rfl <;> decide
    | member n lt =>
      rw [Tag.bytes, List.mem_append, not_or]
      exact ⟨by rcases hc with rfl | rfl <;> decide, notMem_numeral hdigit⟩
  have hdate : c ∉ ascii "d=" ++ r.date.bytes := by
    rw [List.mem_append, not_or]
    exact ⟨by rcases hc with rfl | rfl <;> decide, hfield _⟩
  intro f hf
  simp only [fields, trailing, List.mem_cons, List.mem_append, List.mem_map,
    Option.mem_toList] at hf
  rcases hf with rfl | rfl | rfl | rfl | rfl | rfl | ⟨x, -, rfl⟩ | ⟨t, -, rfl⟩ | ⟨x, -, rfl⟩
  · exact notMem_numeral hdigit
  · exact notMem_numeral hdigit
  · exact hdate
  · exact hfield _
  · exact hfield _
  · exact hfield _
  · exact hfield _
  · exact htag t
  · exact hfield _

lemma newline_notMem_line (r : Record) : 10 ∉ r.line := by
  intro h
  obtain ⟨f, hf, h10⟩ := List.mem_flatMap.mp h
  rw [List.mem_append, List.mem_singleton] at h10
  rcases h10 with h10 | h10
  · exact notMem_fields (Or.inr rfl) f hf h10
  · exact absurd h10 (by decide)

lemma split_line (r : Record) : split r.line 58 = r.fields ++ [[]] := by
  have h := splitOn_flatMap_append (58 : UInt8) r.fields (notMem_fields (Or.inl rfl)) []
  rwa [List.append_nil, List.splitOn_nil, ← line, ← split_eq] at h

/-- A line of a record ends with a colon. -/
lemma getLast?_line (r : Record) : r.line.getLast? = some 58 := by
  have h : r.fields ≠ [] := by simp [fields]
  rw [line, ← List.dropLast_append_getLast h, List.flatMap_append]
  simp

lemma not_infix_trailing (fs : List TrailingField) :
    ¬ ascii "ENS=" <:+: (fs.map (·.bytes)).flatMap (· ++ [(58 : UInt8)]) := by
  rw [infix_flatMap_iff (by decide) (by decide)]
  rintro ⟨f, hf, hens⟩
  obtain ⟨x, -, rfl⟩ := List.mem_map.mp hf
  exact x.no_tag hens

/-- The tag is found among the trailing fields. -/
lemma parseNomadsMember_trailing (r : Record) :
    parseNomadsMember ((r.trailing ++ [[]]).flatMap (· ++ [58])) = r.member := by
  cases htag : r.tag with
  | none =>
    -- no field behind the sixth one contains a tag
    rw [member, htag]
    refine parseNomadsMember_eq_neg_one ?_
    rw [infix_flatMap_iff (by decide) (by decide)]
    rintro ⟨f, hf, hens⟩
    simp only [trailing, htag, Option.toList_none, List.map_nil, List.nil_append, List.mem_append,
      List.mem_map, List.mem_singleton] at hf
    rcases hf with (⟨x, -, rfl⟩ | ⟨x, -, rfl⟩) | rfl
    · exact x.no_tag hens
    · exact x.no_tag hens
    · exact absurd hens (by decide)
  | some t =>
    have hrest : (r.trailing ++ [[]]).flatMap (· ++ [(58 : UInt8)])
        = (r.before.map (·.bytes)).flatMap (· ++ [58]) ++
          (ascii "ENS=" ++ (t.bytes ++ (58 ::
            (r.after.map (fun f : TrailingField => f.bytes) ++ [[]]).flatMap (· ++ [58])))) := by
      simp [trailing, htag]
    rw [hrest, member, htag]
    have hbefore := not_infix_trailing r.before
    cases t with
    | lowRes => exact parseNomadsMember_ctl hbefore (Or.inl (List.prefix_append _ _))
    | hiRes => exact parseNomadsMember_ctl hbefore (Or.inr (Or.inl (List.prefix_append _ _)))
    | member n lt =>
      exact parseNomadsMember_plus hbefore lt (by rw [noDigit_cons]; rfl)

/-- The reader makes of a record its entry. -/
lemma nomadsLine_line (r : Record) : nomadsLine r.line = .ok (some (r.entry 0)) := by
  have hne : r.line ≠ [] := fun h => by
    have hlast := getLast?_line r
    rw [h] at hlast
    exact absurd hlast (by simp)
  have hlt := r.number_lt
  have hnum : toU64 (numeral r.number) = some (UInt64.ofNat r.number) := toU64_numeral (by omega)
  have hnat : (UInt64.ofNat r.number).toNat = r.number :=
    UInt64.toNat_ofNat_of_lt' (hlt.trans (by decide))
  have hrange : ¬ (UInt64.ofNat r.number = 0 ∨ 2 ^ 32 - 1 < (UInt64.ofNat r.number).toNat) := by
    have hpos := r.number_pos
    rintro (h | h)
    · have h' := congrArg UInt64.toNat h
      rw [hnat] at h'
      exact absurd h' (by simpa using hpos.ne')
    · omega
  rw [nomadsLine, if_neg hne, split_line, fields]
  simp only [List.cons_append, nomadsRecord, hnum, if_neg hrange, toU64_numeral r.offset_lt,
    parseNomadsMember_trailing]
  simp [entry, Except.map, UInt64.toUInt32_ofNat']

end Record

/-! ## Texts -/

/-- A line of an inventory: a record, or a line of fewer than six fields, possibly empty. -/
inductive Line where
  | record (r : Record)
  | other (s : Bytes) (fields : s.count 58 < 5) (no_newline : 10 ∉ s)

namespace Line

/-- The line without terminator. -/
def bytes : Line → Bytes
  | .record r => r.line
  | .other s _ _ => s

/-- The record that the line holds. -/
def record? : Line → Option Record
  | .record r => some r
  | .other _ _ _ => none

lemma newline_notMem (l : Line) : 10 ∉ l.bytes := by
  cases l with
  | record r => exact r.newline_notMem_line
  | other s _ h => exact h

/-- A line of fewer than six fields is skipped. -/
lemma nomadsLine_other {s : Bytes} (h : s.count 58 < 5) : nomadsLine s = .ok none := by
  rw [nomadsLine]
  split
  · rfl
  · have hlen := length_splitOn (58 : UInt8) s
    rw [split_eq]
    split
    · rename_i heq
      rw [heq] at hlen
      simp only [List.length_cons] at hlen
      omega
    · rfl

end Line

/-- A line end. -/
inductive Eol where
  | lf
  | crlf
deriving DecidableEq, Repr

/-- The carriage return of a line end. -/
def Eol.cr : Eol → Bytes
  | .lf => []
  | .crlf => [13]

/-- The bytes of a line end. -/
def Eol.bytes (eol : Eol) : Bytes := eol.cr ++ [10]

/-- The text of an inventory: lines with their ends, and possibly a last line without. -/
def inventory (lines : List (Line × Eol)) (last : Option Line) : Bytes :=
  lines.flatMap (fun l => l.1.bytes ++ l.2.bytes) ++ last.elim [] Line.bytes

/-- The records of an inventory. -/
def records (lines : List (Line × Eol)) (last : Option Line) : List Record :=
  (lines.map Prod.fst ++ last.toList).filterMap Line.record?

/-- The entries of a list of records: each reaches to the next one, the last is open. -/
def entries : List Record → List GribIndexEntry
  | r :: next :: rs => r.entry (next.offset - r.offset) :: entries (next :: rs)
  | [r] => [r.entry 0]
  | [] => []

/-- A line of the text, as the loop over the lines sees it. -/
lemma nomadsLine_stripCr (l : Line) (eol : Eol) :
    nomadsLine (stripCr (l.bytes ++ eol.cr)) = .ok (l.record?.map (·.entry 0)) := by
  cases l with
  | record r =>
    have hline : stripCr (r.line ++ eol.cr) = r.line := by
      cases eol with
      | lf =>
        rw [Eol.cr, List.append_nil]
        refine stripCr_of_getLast? ?_
        rw [r.getLast?_line]
        decide
      | crlf => exact stripCr_append_cr _
    rw [Line.bytes, hline, r.nomadsLine_line]
    rfl
  | other s h _ =>
    -- losing a carriage return does not add fields
    have hcount : (stripCr (s ++ eol.cr)).count 58 < 5 := by
      have hle : (stripCr (s ++ eol.cr)).count 58 ≤ (s ++ eol.cr).count 58 := by
        rw [stripCr]
        split
        · exact (List.dropLast_sublist _).count_le _
        · exact le_refl _
      have hcr : eol.cr.count 58 = 0 := by cases eol <;> rfl
      rw [List.count_append, hcr] at hle
      omega
    exact Line.nomadsLine_other hcount

lemma split_inventory (lines : List (Line × Eol)) (last : Option Line) :
    split (inventory lines last) 10
      = lines.map (fun l => l.1.bytes ++ l.2.cr) ++ [last.elim [] Line.bytes] := by
  have hlast : 10 ∉ last.elim [] Line.bytes := by
    cases last with
    | none => exact List.not_mem_nil
    | some l => exact l.newline_notMem
  have hpieces : ∀ p ∈ lines.map (fun l => l.1.bytes ++ l.2.cr), (10 : UInt8) ∉ p := by
    intro p hp
    obtain ⟨⟨l, eol⟩, -, rfl⟩ := List.mem_map.mp hp
    have heol : (10 : UInt8) ∉ eol.cr := by cases eol <;> decide
    rw [List.mem_append, not_or]
    exact ⟨l.newline_notMem, heol⟩
  have h := splitOn_flatMap_append (10 : UInt8) _ hpieces (last.elim [] Line.bytes)
  rw [List.splitOn_eq_singleton hlast, List.flatMap_map] at h
  rw [split_eq, ← h, inventory]
  simp [Eol.bytes]

/-- The loop over the lines finds the records. -/
lemma collect_inventory (lines : List (Line × Eol)) (last : Option Line) :
    collect nomadsLine (split (inventory lines last) 10)
      = .ok ((records lines last).map (·.entry 0)) := by
  rw [split_inventory]
  induction lines with
  | nil =>
    cases last with
    | none => rfl
    | some l =>
      have hl := nomadsLine_stripCr l .lf
      rw [Eol.cr, List.append_nil] at hl
      rw [List.map_nil, List.nil_append, Option.elim_some, collect_cons_ok hl]
      cases hr : l.record? <;> simp [records, Except.map, hr]
  | cons l lines ih =>
    rw [List.map_cons, List.cons_append, collect_cons_ok (nomadsLine_stripCr l.1 l.2), ih]
    cases hr : l.1.record? <;> simp [records, Except.map, hr]

/-- The last loop turns the offsets into lengths. -/
lemma setLengths_records {rs : List Record} (h : (rs.map (·.offset)).Pairwise (· < ·)) :
    setLengths (rs.map (·.entry 0)) = .ok (entries rs) := by
  induction rs with
  | nil => rfl
  | cons r rs ih =>
    cases rs with
    | nil => rfl
    | cons next rs =>
      rw [List.map_cons, List.pairwise_cons] at h
      have hlt : r.offset < next.offset := h.1 _ (by simp)
      have ho := r.offset_lt
      have hn := next.offset_lt
      have hr64 : (UInt64.ofNat r.offset).toNat = r.offset := UInt64.toNat_ofNat_of_lt' ho
      have hn64 : (UInt64.ofNat next.offset).toNat = next.offset := UInt64.toNat_ofNat_of_lt' hn
      have hle : ¬ (next.entry 0).offset ≤ (r.entry 0).offset := by
        rw [UInt64.le_iff_toNat_le]
        simp only [Record.entry, hr64, hn64]
        omega
      -- the difference to the next offset does not wrap around
      have hsub : (next.entry 0).offset - (r.entry 0).offset
          = UInt64.ofNat (next.offset - r.offset) := by
        have hle' : UInt64.ofNat r.offset ≤ UInt64.ofNat next.offset := by
          rw [UInt64.le_iff_toNat_le, hr64, hn64]
          omega
        apply UInt64.toNat_inj.mp
        simp only [Record.entry]
        rw [UInt64.toNat_sub_of_le _ _ hle', hr64, hn64,
          UInt64.toNat_ofNat_of_lt' ((Nat.sub_le _ _).trans_lt hn)]
      have hrest := ih h.2
      rw [List.map_cons] at hrest
      rw [List.map_cons, List.map_cons, setLengths, if_neg hle, hrest, hsub]
      rfl

/-- **An inventory is read back.**  Whatever lines of fewer than six fields stand between
the records, and however the lines end, the reader returns the records in order, each of
them with the length up to the next one. -/
theorem parseNomadsIdx_inventory (lines : List (Line × Eol)) (last : Option Line)
    (h : ((records lines last).map (·.offset)).Pairwise (· < ·)) :
    parseNomadsIdx (inventory lines last) = .ok (entries (records lines last)) := by
  rw [parseNomadsIdx, collect_inventory]
  exact setLengths_records h

/-- A temperature record of an ensemble run. -/
def temperature (number offset : ℕ) (hn : 0 < number ∧ number < 2 ^ 32) (ho : offset < 2 ^ 64)
    (tag : Option Tag) : Record where
  number := number
  number_pos := hn.1
  number_lt := hn.2
  offset := offset
  offset_lt := ho
  date := ⟨ascii "2026051700", by decide, by decide⟩
  var := ⟨ascii "TMP", by decide, by decide⟩
  level := ⟨ascii "2 m above ground", by decide, by decide⟩
  step := ⟨ascii "6 hour fcst", by decide, by decide⟩
  tag := tag

/-- Two members and a deterministic record, with an empty line and a remark between them. -/
def ensembleLines : List (Line × Eol) :=
  [(.record (temperature 1 0 (by decide) (by decide) (some .lowRes)), .crlf),
    (.other [] (by decide) (by decide), .lf),
    (.record (temperature 2 500 (by decide) (by decide) (some (.member 5 (by decide)))), .lf),
    (.other (ascii "remark: none") (by decide) (by decide), .crlf)]

/-- The last record of the sample, without a line end. -/
def ensembleLast : Option Line := some (.record (temperature 3 900 (by decide) (by decide) none))

theorem parseNomadsIdx_inventory_ensemble :
    (records ensembleLines ensembleLast).map (·.offset) = [0, 500, 900] ∧
      parseNomadsIdx (inventory ensembleLines ensembleLast)
        = .ok (entries (records ensembleLines ensembleLast)) :=
  ⟨rfl, parseNomadsIdx_inventory _ _ (by
    have h : (records ensembleLines ensembleLast).map (·.offset) = [0, 500, 900] := rfl
    rw [h]
    decide)⟩

end GribCpp.Sidecar
