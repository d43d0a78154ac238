/-
# Sidecar entries and the NOMADS reader

The model of `include/grib/sidecar.hpp` and of the first half of
`src/models/sidecar.cpp`: the entry that both index formats share, the splitting of a
text into pieces, the loop over the lines of an index, and the reader of a NOMADS `.idx`
inventory.  Neither format skips blanks, and a line is taken as it stands between two
newlines, less one carriage return at its end.
-/
import GribCpp.Core.Error
import GribCpp.Lib.Search

namespace GribCpp.Sidecar

open Decimal Search

/-- `GribIndexEntry`. -/
structure GribIndexEntry where
  param : Bytes := []
  level : Bytes := []
  step : Bytes := []
  raw : Bytes := []
  offset : UInt64 := 0
  length : UInt64 := 0
  record : UInt32 := 0
  member : ℤ := -1
deriving DecidableEq, Repr

/-! ## Splitting -/

/-- `std::string_view::find` of a character from a position on. -/
def find (s : Bytes) (delim : UInt8) (start : ℕ) : Option ℕ :=
  ((s.drop start).idxOf? delim).map (start + ·)

lemma find_lt {s : Bytes} {delim : UInt8} {start pos : ℕ} (h : find s delim start = some pos) :
    start ≤ pos ∧ pos < s.length := by
  obtain ⟨k, hk, rfl⟩ := Option.map_eq_some_iff.mp h
  obtain ⟨hlt, -⟩ := List.idxOf?_eq_some_iff.mp hk
  rw [List.length_drop] at hlt
  omega

/-- The loop of `split`. -/
def splitFrom (s : Bytes) (delim : UInt8) (start : ℕ) : List Bytes :=
  if start ≤ s.length then
    match h : find s delim start with
    | none => [s.drop start]
    | some pos => (s.drop start).take (pos - start) :: splitFrom s delim (pos + 1)
  else []
termination_by s.length + 1 - start
decreasing_by
  have := find_lt h
  omega

/-- `split`. -/
def split (s : Bytes) (delim : UInt8) : List Bytes := splitFrom s delim 0

lemma splitFrom_eq (s : Bytes) (delim : UInt8) (start : ℕ) (hstart : start ≤ s.length) :
    splitFrom s delim start = (s.drop start).splitOn delim := by
  fun_induction splitFrom s delim start with
  | case1 start _ hfind =>
    -- no delimiter is left
    have hnone : (s.drop start).idxOf? delim = none := by
      simpa only [find, Option.map_eq_none_iff] using hfind
    rw [List.splitOn_eq_singleton (List.idxOf?_eq_none_iff.mp hnone)]
  | case2 start _ pos hfind ih =>
    obtain ⟨-, hlt⟩ := find_lt hfind
    rw [ih (by omega)]
    obtain ⟨k, hk, rfl⟩ := Option.map_eq_some_iff.mp hfind
    obtain ⟨hlen, hget, hfirst⟩ := List.idxOf?_eq_some_iff.mp hk
    -- the piece up to the delimiter, and what is behind it
    have hsplit : s.drop start
        = (s.drop start).take k ++ delim :: s.drop (start + k + 1) := by
      conv_lhs => rw [← List.take_append_drop k (s.drop start)]
      rw [List.drop_eq_getElem_cons hlen, hget, List.drop_drop, Nat.add_assoc]
    have hnot : delim ∉ (s.drop start).take k := by
      intro hmem
      obtain ⟨j, hj, hje⟩ := List.mem_take_iff_getElem.mp hmem
      exact hfirst j (by omega) hje
    rw [Nat.add_sub_cancel_left]
    conv_rhs => rw [hsplit]
    rw [List.splitOn_append_cons_self_of_not_mem hnot]
  | case3 start h => exact absurd hstart h

/-- The loop of `split` computes the pieces between the delimiters. -/
theorem split_eq (s : Bytes) (delim : UInt8) : split s delim = s.splitOn delim :=
  splitFrom_eq s delim 0 (Nat.zero_le _)

/-- **`split` is the inverse of joining.**  It returns one piece more than there are delimiters,
none of which contains one, and joining them gives the text back; the pieces of joined pieces
are these; and the pieces on the sides of a delimiter are those of the sides. -/
theorem split_inverse (delim : UInt8) :
    (∀ s : Bytes, (split s delim).length = s.count delim + 1 ∧
      (∀ p ∈ split s delim, delim ∉ p) ∧ [delim].intercalate (split s delim) = s) ∧
    (∀ ps : List Bytes, ps ≠ [] → (∀ p ∈ ps, delim ∉ p) →
      split ([delim].intercalate ps) delim = ps) ∧
    ∀ a b : Bytes, split (a ++ delim :: b) delim = split a delim ++ split b delim := by
  simp only [split_eq]
  refine ⟨fun s => ⟨length_splitOn delim s, fun p hp => notMem_of_mem_splitOn hp, ?_⟩, ?_, ?_⟩
  · exact List.intercalate_splitOn delim
  · exact fun ps hne hps => List.splitOn_intercalate delim hps hne
  · exact fun a b => List.splitOn_append_cons_self a b

/-! ## The lines of an index -/

/-- A line without the carriage return at its end. -/
def stripCr (line : Bytes) : Bytes := if line.getLast? = some 13 then line.dropLast else line

@[simp] lemma stripCr_append_cr (s : Bytes) : stripCr (s ++ [13]) = s := by simp [stripCr]

lemma stripCr_of_getLast? {s : Bytes} (h : s.getLast? ≠ some 13) : stripCr s = s := by
  simp [stripCr, h]

/-- The loop of both parsers over the lines: `entry` makes of a line without carriage
return an entry, nothing, or the error that ends the loop. -/
def collect (entry : Bytes → Result (Option GribIndexEntry)) :
    List Bytes → Result (List GribIndexEntry)
  | [] => .ok []
  | line :: lines => do
    let e ← entry (stripCr line)
    let es ← collect entry lines
    return e.toList ++ es

section Collect

variable {entry : Bytes → Result (Option GribIndexEntry)}

@[simp] lemma collect_nil : collect entry [] = .ok [] := rfl

lemma collect_cons_ok {line : Bytes} {lines : List Bytes} {e : Option GribIndexEntry}
    (h : entry (stripCr line) = .ok e) :
    collect entry (line :: lines) = (collect entry lines).map (e.toList ++ ·) := by
  rw [collect, h]
  cases collect entry lines <;> rfl

lemma collect_cons_eq_ok_iff {line : Bytes} {lines : List Bytes} {es : List GribIndexEntry} :
    collect entry (line :: lines) = .ok es ↔
      ∃ e rest, entry (stripCr line) = .ok e ∧ collect entry lines = .ok rest ∧
        es = e.toList ++ rest := by
  cases hentry : entry (stripCr line) with
  | error err => simp [collect, hentry, bind, Except.bind]
  | ok e =>
    rw [collect_cons_ok hentry]
    cases collect entry lines <;> simp [Except.map, eq_comm]

/-- What holds of the entry of every line holds of all entries. -/
lemma forall_mem_of_collect {P : GribIndexEntry → Prop}
    (hP : ∀ line e, entry line = .ok (some e) → P e) {lines : List Bytes}
    {es : List GribIndexEntry} (h : collect entry lines = .ok es) : ∀ e ∈ es, P e := by
  induction lines generalizing es with
  | nil =>
    obtain rfl := Except.ok.inj h
    simp
  | cons line lines ih =>
    obtain ⟨o, rest, hentry, hrest, rfl⟩ := collect_cons_eq_ok_iff.mp h
    intro e he
    rcases List.mem_append.mp he with he | he
    · obtain rfl := Option.mem_toList.mp he
      exact hP _ e hentry
    · exact ih hrest e he

end Collect

/-! ## The NOMADS reader -/

/-- `to_u64`: the whole text is a number. -/
def toU64 (s : Bytes) : Option UInt64 :=
  match fromCharsU64 s with
  | some (n, []) => some n
  | _ => none

/-- `parse_nomads_member`: the ensemble tag in the trailing fields. -/
def parseNomadsMember (rest : Bytes) : ℤ :=
  match indexOf? (ascii "ENS=") rest with
  | none => -1
  | some p =>
    let tok := rest.drop (p + 4)
    if ascii "low-res ctl" <+: tok ∨ ascii "hi-res ctl" <+: tok ∨ ascii "ctl" <+: tok then 0
    else
      -- either sign is skipped; a minus is refused only after the number has been read
      let i := if tok.head? = some 43 ∨ tok.head? = some 45 then 1 else 0
      let digits := (tok.drop i).takeWhile isDigit
      if digits = [] then -1
      else
        match fromCharsInt digits with
        | some (n, _) => if ascii "-" <+: tok then -1 else n
        | none => -1

/-- The fields of a record line, from the pieces of the line. -/
def nomadsRecord (line f0 f1 f3 f4 f5 : Bytes) (trailing : List Bytes) : Result GribIndexEntry :=
  match toU64 f0 with
  | none => .error (.parse (ascii "nomads .idx: invalid or unsupported submessage record"))
  | some rec =>
    if rec = 0 ∨ 2 ^ 32 - 1 < rec.toNat then
      .error (.parse (ascii "nomads .idx: invalid or unsupported submessage record"))
    else
      match toU64 f1 with
      | none => .error (.parse (ascii "nomads .idx: bad byte offset in: " ++ line))
      | some offset =>
        .ok
          { raw := line
            record := rec.toUInt32
            offset := offset
            param := f3
            level := f4
            step := f5
            member := parseNomadsMember (trailing.flatMap (· ++ [58])) }

/-- One line of a NOMADS inventory; a line of fewer than six fields is no inventory line. -/
def nomadsLine (line : Bytes) : Result (Option GribIndexEntry) :=
  if line = [] then .ok none
  else
    match split line 58 with
    | f0 :: f1 :: _ :: f3 :: f4 :: f5 :: trailing =>
      (nomadsRecord line f0 f1 f3 f4 f5 trailing).map some
    | _ => .ok none

/-- The last loop of `parse_nomads_idx`: a record reaches to the offset of the next one,
and the length of the last record stays `0`. -/
def setLengths : List GribIndexEntry → Result (List GribIndexEntry)
  | e :: next :: es =>
    if next.offset ≤ e.offset then
      .error (.parse (ascii "nomads .idx: offsets must increase"))
    else do
      let rest ← setLengths (next :: es)
      return { e with length := next.offset - e.offset } :: rest
  | es => .ok es

/-- `parse_nomads_idx`. -/
def parseNomadsIdx (text : Bytes) : Result (List GribIndexEntry) := do
  let entries ← collect nomadsLine (split text 10)
  setLengths entries

/-! ## What the reader makes of a number and of a tag -/

lemma toU64_eq_some_iff {s : Bytes} {n : UInt64} :
    toU64 s = some n ↔ IsNumeral s ∧ value s = n.toNat := by
  rw [← fromCharsU64_all_iff, toU64]
  split
  · rename_i m hm
    simp [hm]
  · rename_i hno
    exact iff_of_false (by simp) (hno n)

lemma toU64_numeral {n : ℕ} (hn : n < 2 ^ 64) : toU64 (numeral n) = some (UInt64.ofNat n) := by
  rw [toU64_eq_some_iff, UInt64.toNat_ofNat_of_lt' hn]
  exact ⟨isNumeral_numeral n, value_numeral n⟩

/-- The tag is looked for in the trailing fields from the left. -/
lemma parseNomadsMember_eq_neg_one {rest : Bytes} (h : ¬ ascii "ENS=" <:+: rest) :
    parseNomadsMember rest = -1 := by
  rw [parseNomadsMember, indexOf?_eq_none_iff.mpr h]

lemma unbordered_ens : Unbordered (ascii "ENS=") := by
  intro k hk hlt
  have hlen : (ascii "ENS=").length = 4 := rfl
  rw [hlen] at hlt
  interval_cases k <;> decide

/-- The first tag stands behind fields that contain none. -/
lemma indexOf?_ens {before : Bytes} (h : ¬ ascii "ENS=" <:+: before) (tok : Bytes) :
    indexOf? (ascii "ENS=") (before ++ (ascii "ENS=" ++ tok)) = some before.length :=
  indexOf?_append (List.prefix_append _ _)
    (fun _ hj => unbordered_ens.not_occursAt_append h tok hj)

lemma drop_ens (before tok : Bytes) :
    (before ++ (ascii "ENS=" ++ tok)).drop (before.length + 4) = tok := by
  have h : (before ++ ascii "ENS=").length = before.length + 4 := by simp [ascii]
  rw [← h, ← List.append_assoc, List.drop_left]

/-- The control member of either resolution. -/
lemma parseNomadsMember_ctl {before tok : Bytes} (h : ¬ ascii "ENS=" <:+: before)
    (hctl : ascii "low-res ctl" <+: tok ∨ ascii "hi-res ctl" <+: tok ∨ ascii "ctl" <+: tok) :
    parseNomadsMember (before ++ (ascii "ENS=" ++ tok)) = 0 := by
  rw [parseNomadsMember, indexOf?_ens h tok]
  simp only [drop_ens, if_pos hctl]

/-- A perturbed member. -/
lemma parseNomadsMember_plus {before after : Bytes} (h : ¬ ascii "ENS=" <:+: before) {n : ℕ}
    (hn : n < 2 ^ 31) (hafter : NoDigit after) :
    parseNomadsMember (before ++ (ascii "ENS=" ++ (43 :: (numeral n ++ after)))) = n := by
  have hd := isNumeral_numeral n
  have hctl : ¬ (ascii "low-res ctl" <+: 43 :: (numeral n ++ after) ∨
      ascii "hi-res ctl" <+: 43 :: (numeral n ++ after) ∨
      ascii "ctl" <+: 43 :: (numeral n ++ after)) := by
    rintro (h | h | h) <;> exact absurd (List.cons_prefix_cons.mp h).1 (by decide)
  have hminus : ¬ ascii "-" <+: 43 :: (numeral n ++ after) := fun h =>
    absurd (List.cons_prefix_cons.mp h).1 (by decide)
  have hdigits : (numeral n ++ after).takeWhile isDigit = numeral n :=
    (takeWhile_append_noDigit hd.digits hafter).1
  have hread : fromCharsInt (numeral n) = some ((n : ℤ), []) := by
    simpa using fromCharsInt_numeral hn noDigit_nil
  rw [parseNomadsMember, indexOf?_ens h]
  simp only [drop_ens, if_neg hctl, List.head?_cons, true_or, if_true, List.drop_succ_cons,
    List.drop_zero, hdigits, hd.ne_nil, if_false, hread, if_neg hminus]

/-! ## What the reader accepts -/

/-- The lines are read first, and then the lengths are set. -/
lemma parseNomadsIdx_eq_ok {text : Bytes} {es : List GribIndexEntry} :
    parseNomadsIdx text = .ok es ↔
      ∃ es₀, collect nomadsLine (split text 10) = .ok es₀ ∧ setLengths es₀ = .ok es := by
  rw [parseNomadsIdx]
  cases collect nomadsLine (split text 10) <;> simp [bind, Except.bind]

/-- An entry comes from six fields, of which the first two are numbers. -/
lemma nomadsLine_eq_some {line : Bytes} {e : GribIndexEntry}
    (h : nomadsLine line = .ok (some e)) :
    ∃ f0 f1 f2 f3 f4 f5 trailing rec offset,
      split line 58 = f0 :: f1 :: f2 :: f3 :: f4 :: f5 :: trailing ∧
      toU64 f0 = some rec ∧ rec ≠ 0 ∧ rec.toNat < 2 ^ 32 ∧ toU64 f1 = some offset ∧
      e =
        { raw := line
          record := rec.toUInt32
          offset := offset
          param := f3
          level := f4
          step := f5
          member := parseNomadsMember (trailing.flatMap (· ++ [58])) } := by
  rw [nomadsLine] at h
  split at h
  · exact absurd h (by simp)
  · split at h
    · rename_i f0 f1 f2 f3 f4 f5 trailing hsplit
      rw [nomadsRecord] at h
      split at h
      · exact absurd h (by simp [Except.map])
      · rename_i rec hrec
        split at h
        · exact absurd h (by simp [Except.map])
        · rename_i hrange
          split at h
          · exact absurd h (by simp [Except.map])
          · rename_i offset hoffset
            rw [not_or] at hrange
            have he := Option.some.inj (Except.ok.inj h)
            exact ⟨f0, f1, f2, f3, f4, f5, trailing, rec, offset, hsplit, hrec, hrange.1,
              by omega, hoffset, he.symm⟩
    · exact absurd h (by simp)

lemma setLengths_cons_cons_eq_ok_iff {e next : GribIndexEntry} {es es' : List GribIndexEntry} :
    setLengths (e :: next :: es) = .ok es' ↔
      e.offset < next.offset ∧ ∃ rest, setLengths (next :: es) = .ok rest ∧
        es' = { e with length := next.offset - e.offset } :: rest := by
  rw [setLengths]
  by_cases hle : next.offset ≤ e.offset
  · simp [hle, UInt64.not_lt.mpr hle]
  · rw [if_neg hle]
    cases setLengths (next :: es) <;>
      simp [bind, Except.bind, pure, Except.pure, UInt64.not_le.mp hle, eq_comm]

/-- Nothing but the lengths is set. -/
lemma setLengths_forall₂ {es es' : List GribIndexEntry} (h : setLengths es = .ok es') :
    List.Forall₂ (fun e e' => e' = { e with length := e'.length }) es es' := by
  induction es generalizing es' with
  | nil =>
    obtain rfl := Except.ok.inj h
    exact List.Forall₂.nil
  | cons e es ih =>
    cases es with
    | nil =>
      obtain rfl := Except.ok.inj h
      exact List.Forall₂.cons rfl List.Forall₂.nil
    | cons next es =>
      obtain ⟨-, rest, hrest, rfl⟩ := setLengths_cons_cons_eq_ok_iff.mp h
      exact List.Forall₂.cons rfl (ih hrest)

end GribCpp.Sidecar
