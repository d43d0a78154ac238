/-
# Range requests

The model of `HttpClient::get_range`: the text of the range, and the checks on the
`Content-Range` of a partial response.  The checks are made on 64-bit words; `Confirms`
states over the natural numbers what they let pass, and the two agree, so that no
subtraction or addition of the checks wraps around with any effect.
-/
import GribCpp.Http.Client

namespace GribCpp.Http

open Decimal

/-! ## The request -/

/-- The end of the range is no 64-bit number. -/
def RangeOverflows (offset length : UInt64) : Prop :=
  0 < length ∧ UInt64.ofNat (2 ^ 64 - 1) - offset < length - 1

instance (offset length : UInt64) : Decidable (RangeOverflows offset length) :=
  inferInstanceAs (Decidable (_ ∧ _))

/-- The range that is asked for. -/
def rangeText (offset length : UInt64) : Bytes :=
  toStringU64 offset ++ ascii "-" ++
    if 0 < length then toStringU64 (offset + length - 1) else []

/-! ## What a range selects -/

/-- The first and the last byte of a range; the last one is missing in an open range. -/
def parseRange (range : Bytes) : Option (ℕ × Option ℕ) :=
  match readNumeral (2 ^ 64) range with
  | some (first, [45]) => some (first, none)
  | some (first, 45 :: rest) =>
    match readNumeral (2 ^ 64) rest with
    | some (last, []) => some (first, some last)
    | _ => none
  | _ => none

/-- The range selects byte `x` of a file that is long enough. -/
def Selects (range : Bytes) (x : ℕ) : Prop :=
  ∃ first last, parseRange range = some (first, last) ∧ first ≤ x ∧ ∀ l ∈ last, x ≤ l

/-! ## The checks on the response -/

/-- A letter in lower case. -/
def toLower (c : UInt8) : UInt8 := if 65 ≤ c ∧ c ≤ 90 then c + 32 else c

/-- The value of the last header of a name, up to case; empty when there is none. -/
def lastHeader (name : Bytes) (headers : List (Bytes × Bytes)) : Bytes :=
  headers.foldl (fun value h => if h.1.map toLower = name then h.2 else value) []

/-- The error of a response whose `Content-Range` does not fit. -/
def invalidRange : Error := .network (ascii "Invalid Content-Range response")

/-- The last byte of the range in a file of a known size. -/
def lastOf (offset length size : UInt64) : UInt64 :=
  if length = 0 then size - 1 else min (offset + length - 1) (size - 1)

/-- The checks on what stands behind the slash. -/
def checkTotal (offset length last : UInt64) (response : HttpResponse) (total : Bytes) :
    Result HttpResponse :=
  if total = ascii "*" ∧ (length = 0 ∨ response.bodySize ≠ length) then .error invalidRange
  else if total ≠ ascii "*" then
    match fromCharsU64 total with
    | some (size, []) =>
      if size ≤ last then .error invalidRange
      else if last ≠ lastOf offset length size then .error invalidRange
      else .ok response
    | _ => .error invalidRange
  else .ok response

/-- The checks on the `Content-Range` of a partial response. -/
def checkContentRange (offset length : UInt64) (response : HttpResponse) : Result HttpResponse :=
  let contentRange := lastHeader (ascii "content-range") response.headers
  if ¬ ascii "bytes " <+: contentRange ∨ response.body = [] then .error invalidRange
  else
    -- a number and a dash, then a number and a slash
    match fromCharsU64 (contentRange.drop 6) with
    | some (first, 45 :: rest) =>
      match fromCharsU64 rest with
      | some (last, 47 :: total) =>
        if first ≠ offset ∨ last < first ∨ last - first ≠ response.bodySize - 1 ∨
            (0 < length ∧ length < response.bodySize) then
          .error invalidRange
        else checkTotal offset length last response total
      | _ => .error invalidRange
    | _ => .error invalidRange

/-- The part of `HttpClient::get_range` behind the request. -/
def checkResponse (offset length : UInt64) (response : HttpResponse) : Result HttpResponse :=
  if 200 ≤ response.statusCode ∧ response.statusCode < 300 ∧ response.statusCode ≠ 206 then
    .error (.network (ascii "Server ignored the requested byte range"))
  else if response.statusCode = 206 then checkContentRange offset length response
  else .ok response

/-- `HttpClient::get_range`, given what performs a request with a range. -/
def getRangeWith (perform : Bytes → Exchange) (offset length : UInt64) : Exchange :=
  if RangeOverflows offset length then
    ⟨none, .error (.invalidRequest (ascii "Byte range overflow"))⟩
  else
    ⟨(perform (rangeText offset length)).sent,
      (perform (rangeText offset length)).result >>= checkResponse offset length⟩

/-- `HttpClient::get_range`. -/
def HttpClient.getRange (client : HttpClient) (path : Bytes) (offset length : UInt64) :
    Exchange :=
  getRangeWith (fun range => client.perform path (some range)) offset length

/-! ## The checks over the natural numbers -/

/-- `value` is the value of the last header of the name. -/
def IsLastHeader (name : Bytes) (headers : List (Bytes × Bytes)) (value : Bytes) : Prop :=
  ∃ before key after, headers = before ++ (key, value) :: after ∧ key.map toLower = name ∧
    ∀ h ∈ after, h.1.map toLower ≠ name

/-- The text `bytes F-L/T`. -/
def IsContentRange (value : Bytes) (first last : ℕ) (total : Bytes) : Prop :=
  ∃ f l, IsNumeral f ∧ IsNumeral l ∧ Decimal.value f = first ∧ Decimal.value l = last ∧
    value = ascii "bytes " ++ (f ++ (ascii "-" ++ (l ++ (ascii "/" ++ total))))

/-- The total length of a `Content-Range`, and where the range ends with respect to it. -/
structure TotalFits (offset length last body : ℕ) (total : Bytes) : Prop where
  form : total = ascii "*" ∨ (IsNumeral total ∧ Decimal.value total < 2 ^ 64)
  unknown : total = ascii "*" → 0 < length ∧ body = length
  gt : IsNumeral total → last < Decimal.value total
  open_end : IsNumeral total → length = 0 → last = Decimal.value total - 1
  closed_end : IsNumeral total → 0 < length →
    last = min (offset + length - 1) (Decimal.value total - 1)

/-- A `Content-Range` confirms that a body is what was asked for. -/
structure Confirms (offset length : ℕ) (body : Bytes) (first last : ℕ) (total : Bytes) :
    Prop where
  first_eq : first = offset
  first_le : first ≤ last
  body_eq : body.length = last - first + 1
  body_le : 0 < length → body.length ≤ length
  total_fits : TotalFits offset length last body.length total

/-- A partial response that is what was asked for. -/
def IsRequested (offset length : ℕ) (response : HttpResponse) : Prop :=
  ∃ value first last total, IsLastHeader (ascii "content-range") response.headers value ∧
    IsContentRange value first last total ∧ Confirms offset length response.body first last total

/-! ### The last header -/

section LastHeader

variable {name value : Bytes} {headers : List (Bytes × Bytes)}

lemma lastHeader_append_singleton (h : Bytes × Bytes) :
    lastHeader name (headers ++ [h])
      = if h.1.map toLower = name then h.2 else lastHeader name headers := by
  simp [lastHeader]

lemma lastHeader_eq (h : IsLastHeader name headers value) : lastHeader name headers = value := by
  obtain ⟨before, key, after, rfl, hkey, hafter⟩ := h
  -- the headers behind it do not have the name
  induction after using List.reverseRecOn with
  | nil => rw [lastHeader_append_singleton, if_pos hkey]
  | append_singleton after h ih =>
    rw [← List.cons_append, ← List.append_assoc, lastHeader_append_singleton,
      if_neg (hafter h (by simp)), ih fun h' hh' => hafter h' (by simp [hh'])]

/-- A last header that is not empty is one that was sent. -/
lemma isLastHeader_lastHeader (h : lastHeader name headers ≠ []) :
    IsLastHeader name headers (lastHeader name headers) := by
  induction headers using List.reverseRecOn with
  | nil => exact absurd rfl h
  | append_singleton headers x ih =>
    rw [lastHeader_append_singleton] at h ⊢
    split at h
    · rename_i hname
      rw [if_pos hname]
      exact ⟨headers, x.1, [], rfl, hname, by simp⟩
    · rename_i hname
      obtain ⟨before, key, after, heq, hkey, hafter⟩ := ih h
      rw [if_neg hname]
      refine ⟨before, key, after ++ [x], ?_, hkey, ?_⟩
      · rw [← List.cons_append, ← List.append_assoc, ← heq]
      · intro y hy
        rcases List.mem_append.mp hy with hy | hy
        · exact hafter y hy
        · rw [List.mem_singleton.mp hy]
          exact hname

end LastHeader

/-! ### The text of a content range -/

lemma isContentRange_iff {value total : Bytes} {first last : UInt64} :
    IsContentRange value first.toNat last.toNat total ↔
      ascii "bytes " <+: value ∧ ∃ rest,
        fromCharsU64 (value.drop 6) = some (first, 45 :: rest) ∧
          fromCharsU64 rest = some (last, 47 :: total) := by
  have hdash : ∀ s : Bytes, NoDigit (45 :: s) := fun s => by rw [noDigit_cons]; rfl
  have hslash : ∀ s : Bytes, NoDigit (47 :: s) := fun s => by rw [noDigit_cons]; rfl
  constructor
  · rintro ⟨f, l, hf, hl, hfv, hlv, rfl⟩
    refine ⟨List.prefix_append _ _, l ++ (ascii "/" ++ total), ?_, ?_⟩
    · exact fromCharsU64_eq_some_iff.mpr ⟨f, hf, rfl, hdash _, hfv⟩
    · exact fromCharsU64_eq_some_iff.mpr ⟨l, hl, rfl, hslash _, hlv⟩
  · rintro ⟨⟨s, rfl⟩, rest, hfirst, hlast⟩
    obtain ⟨f, hf, hs, -, hfv⟩ := fromCharsU64_eq_some_iff.mp hfirst
    obtain ⟨l, hl, hrest, -, hlv⟩ := fromCharsU64_eq_some_iff.mp hlast
    refine ⟨f, l, hf, hl, hfv, hlv, ?_⟩
    have hdrop : (ascii "bytes " ++ s).drop 6 = s := rfl
    rw [hdrop] at hs
    rw [hs, hrest]
    rfl

/-! ### From words to numbers -/

section Words

variable {offset length last : UInt64} {response r : HttpResponse} {total : Bytes}

lemma toNat_sub_one {n : UInt64} (h : 0 < n.toNat) : (n - 1).toNat = n.toNat - 1 := by
  refine UInt64.toNat_sub_of_le _ _ ?_
  rw [UInt64.le_iff_toNat_le]
  exact h

lemma rangeOverflows_iff :
    RangeOverflows offset length ↔
      0 < length.toNat ∧ 2 ^ 64 ≤ offset.toNat + length.toNat - 1 := by
  have ho := offset.toNat_lt
  have hl := length.toNat_lt
  have hmax : (UInt64.ofNat (2 ^ 64 - 1)).toNat = 2 ^ 64 - 1 := rfl
  have hle : offset ≤ UInt64.ofNat (2 ^ 64 - 1) := by
    rw [UInt64.le_iff_toNat_le, hmax]
    omega
  rw [RangeOverflows, UInt64.lt_iff_toNat_lt, UInt64.lt_iff_toNat_lt,
    UInt64.toNat_sub_of_le _ _ hle, hmax]
  refine and_congr_right fun hpos => ?_
  -- the length is positive, so that the second subtraction does not wrap around either
  have hpos' : 0 < length.toNat := hpos
  rw [toNat_sub_one hpos']
  omega

/-- The last byte of a range that does not overflow; the sum itself may wrap around. -/
lemma toNat_range_end (offset : UInt64) (hpos : 0 < length.toNat)
    (hlt : offset.toNat + length.toNat - 1 < 2 ^ 64) :
    (offset + length - 1).toNat = offset.toNat + length.toNat - 1 := by
  have ho := offset.toNat_lt
  have hone : (1 : UInt64).toNat = 1 := rfl
  rw [UInt64.toNat_sub, UInt64.toNat_add, hone]
  omega

/-- The range that is asked for is the one meant, as long as its end is a 64-bit number. -/
lemma parseRange_rangeText (hguard : ¬ RangeOverflows offset length) :
    parseRange (rangeText offset length)
      = some (offset.toNat,
          if length.toNat = 0 then none else some (offset.toNat + length.toNat - 1)) := by
  have hdash : ∀ s : Bytes, NoDigit (45 :: s) := fun s => by rw [noDigit_cons]; rfl
  rw [rangeOverflows_iff] at hguard
  rcases Nat.eq_zero_or_pos length.toNat with hl | hl
  · have hnot : ¬ 0 < length := by
      rw [UInt64.lt_iff_toNat_lt]
      exact not_lt.mpr hl.le
    rw [rangeText, if_neg hnot, List.append_nil, if_pos hl, parseRange]
    have hread := readNumeral_numeral (hdash []) offset.toNat_lt
    rw [toStringU64, show ascii "-" = [45] from rfl, hread]
    rfl
  · have hpos : 0 < length := by
      rw [UInt64.lt_iff_toNat_lt]
      exact hl
    have hend := toNat_range_end offset hl (by omega)
    have hlast : readNumeral (2 ^ 64) (numeral (offset.toNat + length.toNat - 1) ++ [])
        = some (offset.toNat + length.toNat - 1, []) :=
      readNumeral_numeral noDigit_nil (by omega)
    have hne := (isNumeral_numeral (offset.toNat + length.toNat - 1)).ne_nil
    have hread := readNumeral_numeral (hdash (numeral (offset.toNat + length.toNat - 1)))
      offset.toNat_lt
    rw [List.append_nil] at hlast
    rw [rangeText, if_pos hpos, if_neg hl.ne', parseRange, toStringU64, toStringU64, hend,
      List.append_assoc, show ascii "-" = [45] from rfl, List.singleton_append, hread]
    cases hnum : numeral (offset.toNat + length.toNat - 1) with
    | nil => exact absurd hnum hne
    | cons c s =>
      rw [hnum] at hlast
      simp only [hlast]

lemma not_isNumeral_star : ¬ IsNumeral (ascii "*") := by decide

/-- The comparison of the last byte with the end of the range and of the file. -/
lemma last_fits_iff (hguard : ¬ RangeOverflows offset length) {size : UInt64}
    (hsize : last < size) :
    last = lastOf offset length size ↔
      (length.toNat = 0 → last.toNat = size.toNat - 1) ∧
        (0 < length.toNat →
          last.toNat = min (offset.toNat + length.toNat - 1) (size.toNat - 1)) := by
  rw [rangeOverflows_iff] at hguard
  have hlt := UInt64.lt_iff_toNat_lt.mp hsize
  have hsub := toNat_sub_one (n := size) (by omega)
  rw [← UInt64.toNat_inj, lastOf]
  by_cases hl : length = 0
  · have hl' : length.toNat = 0 := by rw [hl]; rfl
    rw [if_pos hl, hsub]
    constructor
    · intro h
      exact ⟨fun _ => h, fun hpos => by omega⟩
    · rintro ⟨h, -⟩
      exact h hl'
  · have hl' : 0 < length.toNat := UInt64.lt_iff_toNat_lt.mp (UInt64.pos_iff_ne_zero.mpr hl)
    have hend := toNat_range_end offset hl' (by omega)
    have hmin : (min (offset + length - 1) (size - 1)).toNat
        = min (offset.toNat + length.toNat - 1) (size.toNat - 1) := by
      rw [UInt64.toNat_min, hend, hsub]
    rw [if_neg hl, hmin]
    constructor
    · intro h
      exact ⟨fun h0 => by omega, fun _ => h⟩
    · rintro ⟨-, h⟩
      exact h hl'

/-- An unknown total length. -/
lemma totalFits_star_iff {offset length last body : ℕ} :
    TotalFits offset length last body (ascii "*") ↔ 0 < length ∧ body = length := by
  constructor
  · intro h
    exact h.unknown rfl
  · intro h
    exact ⟨Or.inl rfl, fun _ => h, fun hnum => absurd hnum not_isNumeral_star,
      fun hnum => absurd hnum not_isNumeral_star, fun hnum => absurd hnum not_isNumeral_star⟩

/-- A total length that is a number. -/
lemma totalFits_size_iff (hguard : ¬ RangeOverflows offset length) {body : ℕ}
    (hstar : total ≠ ascii "*") :
    TotalFits offset.toNat length.toNat last.toNat body total ↔
      ∃ size, fromCharsU64 total = some (size, []) ∧ last < size ∧
        last = lastOf offset length size := by
  constructor
  · intro hfits
    obtain ⟨hnum, hlt⟩ := hfits.form.resolve_left hstar
    have hnat : (UInt64.ofNat (Decimal.value total)).toNat = Decimal.value total :=
      UInt64.toNat_ofNat_of_lt' hlt
    have hlast : last < UInt64.ofNat (Decimal.value total) := by
      rw [UInt64.lt_iff_toNat_lt, hnat]
      exact hfits.gt hnum
    refine ⟨_, fromCharsU64_all_iff.mpr ⟨hnum, hnat.symm⟩, hlast, ?_⟩
    rw [last_fits_iff hguard hlast, hnat]
    exact ⟨hfits.open_end hnum, hfits.closed_end hnum⟩
  · rintro ⟨size, hread, hlast, hend⟩
    obtain ⟨hnum, hval⟩ := fromCharsU64_all_iff.mp hread
    obtain ⟨hopen, hclosed⟩ := (last_fits_iff hguard hlast).mp hend
    rw [UInt64.lt_iff_toNat_lt] at hlast
    rw [← hval] at hlast hopen hclosed
    exact ⟨Or.inr ⟨hnum, hval ▸ size.toNat_lt⟩, fun h => absurd h hstar, fun _ => hlast,
      fun _ => hopen, fun _ => hclosed⟩

lemma checkTotal_eq_ok_iff (hguard : ¬ RangeOverflows offset length) :
    checkTotal offset length last response total = .ok r ↔
      r = response ∧
        TotalFits offset.toNat length.toNat last.toNat response.body.length total := by
  rw [checkTotal]
  by_cases hstar : total = ascii "*"
  · subst hstar
    have hunknown : 0 < length.toNat ∧ response.body.length = length.toNat ↔
        ¬ (length = 0 ∨ response.bodySize ≠ length) := by
      have hzero : (0 : UInt64).toNat = 0 := rfl
      rw [not_or, not_not, ← UInt64.toNat_inj, ← UInt64.toNat_inj, HttpResponse.toNat_bodySize,
        hzero, Nat.pos_iff_ne_zero]
    rw [totalFits_star_iff, hunknown]
    by_cases h : length = 0 ∨ response.bodySize ≠ length
    · rw [if_pos ⟨rfl, h⟩]
      simp [h]
    · rw [if_neg (fun h' => h h'.2), if_neg (not_not_intro rfl)]
      constructor
      · intro h'
        exact ⟨(Except.ok.inj h').symm, h⟩
      · rintro ⟨rfl, -⟩
        rfl
  · rw [if_neg (fun h => hstar h.1), if_pos hstar, totalFits_size_iff hguard hstar]
    constructor
    · intro h
      split at h
      · rename_i size hsize
        split at h
        · exact absurd h (by simp)
        · rename_i hle
          split at h
          · exact absurd h (by simp)
          · rename_i hne
            exact ⟨(Except.ok.inj h).symm, size, hsize, UInt64.not_le.mp hle, not_not.mp hne⟩
      · exact absurd h (by simp)
    · rintro ⟨rfl, size, hread, hlast, hend⟩
      rw [hread]
      simp only [if_neg (UInt64.not_le.mpr hlast), if_neg (not_not_intro hend)]

/-- The comparison of the range with the size of the body. -/
lemma body_fits_iff {first : UInt64} (hne : response.body ≠ []) :
    ¬ (first ≠ offset ∨ last < first ∨ last - first ≠ response.bodySize - 1 ∨
        (0 < length ∧ length < response.bodySize)) ↔
      first.toNat = offset.toNat ∧ first.toNat ≤ last.toNat ∧
        response.body.length = last.toNat - first.toNat + 1 ∧
        (0 < length.toNat → response.body.length ≤ length.toNat) := by
  have hpos : 0 < response.body.length := List.length_pos_iff.mpr hne
  have hsize := response.toNat_bodySize
  have hsub := toNat_sub_one (n := response.bodySize) (by omega)
  rw [hsize] at hsub
  simp only [not_or, not_not, not_and, UInt64.not_lt]
  rw [← UInt64.toNat_inj, UInt64.le_iff_toNat_le, UInt64.le_iff_toNat_le,
    UInt64.lt_iff_toNat_lt, hsize]
  have hzero : (0 : UInt64).toNat = 0 := rfl
  constructor
  · rintro ⟨hfirst, hle, hlen, hmax⟩
    have hlen' := congrArg UInt64.toNat hlen
    rw [hsub, UInt64.toNat_sub_of_le _ _ (UInt64.le_iff_toNat_le.mpr hle)] at hlen'
    exact ⟨hfirst, hle, by omega, hmax⟩
  · rintro ⟨hfirst, hle, hlen, hmax⟩
    refine ⟨hfirst, hle, ?_, hmax⟩
    rw [← UInt64.toNat_inj, hsub, UInt64.toNat_sub_of_le _ _ (UInt64.le_iff_toNat_le.mpr hle)]
    omega

/-- Both ends of a confirmed range are 64-bit numbers. -/
lemma Confirms.last_lt (hguard : ¬ RangeOverflows offset length) {first last : ℕ} {body : Bytes}
    (h : Confirms offset.toNat length.toNat body first last total) : last < 2 ^ 64 := by
  rw [rangeOverflows_iff] at hguard
  have hfirst := h.first_eq
  have hle := h.first_le
  have hbody := h.body_eq
  rcases h.total_fits.form with hstar | ⟨hnum, hlt⟩
  · obtain ⟨hpos, hlen⟩ := h.total_fits.unknown hstar
    omega
  · exact (h.total_fits.gt hnum).trans hlt

/-- The checks on a partial response let pass what was asked for, and nothing else. -/
lemma checkContentRange_eq_ok_iff (hguard : ¬ RangeOverflows offset length) :
    checkContentRange offset length response = .ok r ↔
      r = response ∧ IsRequested offset.toNat length.toNat response := by
  constructor
  · intro h
    rw [checkContentRange] at h
    split at h
    · exact absurd h (by simp)
    · rename_i hstart
      push Not at hstart
      obtain ⟨hbytes, hne⟩ := hstart
      split at h
      · rename_i first rest hfirst
        split at h
        · rename_i last total hlast
          split at h
          · exact absurd h (by simp)
          · rename_i hfits
            obtain ⟨hf, hle, hbody, hmax⟩ := (body_fits_iff hne).mp hfits
            obtain ⟨hr, htotal⟩ := (checkTotal_eq_ok_iff hguard).mp h
            have hvalue : lastHeader (ascii "content-range") response.headers ≠ [] := by
              intro hnil
              rw [hnil] at hbytes
              exact absurd hbytes (by decide)
            exact ⟨hr, _, first.toNat, last.toNat, total, isLastHeader_lastHeader hvalue,
              isContentRange_iff.mpr ⟨hbytes, rest, hfirst, hlast⟩, hf, hle, hbody, hmax, htotal⟩
        · exact absurd h (by simp)
      · exact absurd h (by simp)
  · rintro ⟨rfl, value, first, last, total, hheader, htext, hconf⟩
    have hne : r.body ≠ [] := by
      intro hnil
      have hbody := hconf.body_eq
      rw [hnil] at hbody
      simp at hbody
    have hlast64 := hconf.last_lt hguard
    have hfirst64 : first < 2 ^ 64 := hconf.first_le.trans_lt hlast64
    obtain ⟨f, rfl⟩ : ∃ f : UInt64, first = f.toNat :=
      ⟨UInt64.ofNat first, (UInt64.toNat_ofNat_of_lt' hfirst64).symm⟩
    obtain ⟨l, rfl⟩ : ∃ l : UInt64, last = l.toNat :=
      ⟨UInt64.ofNat last, (UInt64.toNat_ofNat_of_lt' hlast64).symm⟩
    obtain ⟨hbytes, rest, hfirst, hlast⟩ := isContentRange_iff.mp htext
    have hfits := (body_fits_iff hne).mpr
      ⟨hconf.first_eq, hconf.first_le, hconf.body_eq, hconf.body_le⟩
    have htotal := (checkTotal_eq_ok_iff (r := r) hguard).mpr ⟨rfl, hconf.total_fits⟩
    rw [checkContentRange, lastHeader_eq hheader, if_neg (by simp [hbytes, hne]), hfirst]
    simp only [hlast, if_neg hfits, htotal]

/-- The checks on a response. -/
lemma checkResponse_eq_ok_iff (hguard : ¬ RangeOverflows offset length) :
    checkResponse offset length response = .ok r ↔
      r = response ∧ (response.statusCode < 200 ∨ 300 ≤ response.statusCode ∨
        (response.statusCode = 206 ∧ IsRequested offset.toNat length.toNat response)) := by
  rw [checkResponse]
  by_cases h206 : response.statusCode = 206
  · have h200 : ¬ (206 : Int16) < 200 := by decide
    have h300 : ¬ (300 : Int16) ≤ 206 := by decide
    rw [if_neg (fun h => h.2.2 h206), if_pos h206, checkContentRange_eq_ok_iff hguard, h206]
    simp [h200, h300]
  · by_cases hout : response.statusCode < 200 ∨ 300 ≤ response.statusCode
    · have hno : ¬ (200 ≤ response.statusCode ∧ response.statusCode < 300 ∧
          response.statusCode ≠ 206) := by
        rintro ⟨hge, hlt, -⟩
        rcases hout with hlt' | hge'
        · exact Int16.not_lt.mpr hge hlt'
        · exact Int16.not_lt.mpr hge' hlt
      rw [if_neg hno, if_neg h206]
      constructor
      · intro h
        exact ⟨(Except.ok.inj h).symm, or_assoc.mp (Or.inl hout)⟩
      · rintro ⟨rfl, -⟩
        rfl
    · rw [not_or, Int16.not_lt, Int16.not_le] at hout
      rw [if_pos ⟨hout.1, hout.2, h206⟩]
      constructor
      · intro h
        exact absurd h (by simp)
      · rintro ⟨-, h | h | h⟩
        · exact absurd h (Int16.not_lt.mpr hout.1)
        · exact absurd hout.2 (Int16.not_lt.mpr h)
        · exact absurd h.1 h206

/-- The bytes that the range asked for selects. -/
lemma selects_rangeText_iff (hguard : ¬ RangeOverflows offset length) {x : ℕ} :
    Selects (rangeText offset length) x ↔
      offset.toNat ≤ x ∧ (0 < length.toNat → x < offset.toNat + length.toNat) := by
  rw [Selects, parseRange_rangeText hguard]
  rcases Nat.eq_zero_or_pos length.toNat with hl | hl
  · simp [hl]
  · rw [if_neg hl.ne']
    constructor
    · rintro ⟨first, last, heq, hle, hlast⟩
      simp only [Option.some.injEq, Prod.mk.injEq] at heq
      obtain ⟨rfl, rfl⟩ := heq
      have := hlast _ rfl
      exact ⟨hle, fun _ => by omega⟩
    · rintro ⟨hle, hlt⟩
      refine ⟨_, _, rfl, hle, ?_⟩
      intro l hmem
      obtain rfl := Option.some.inj hmem
      have := hlt hl
      omega

/-- A range request asks for the range, if the client can send it. -/
lemma sent_getRange_iff (hguard : ¬ RangeOverflows offset length) {client : HttpClient}
    {path : Bytes} {opts : Options} :
    (client.getRange path offset length).sent = some opts ↔
      ∃ config curl, client.CanSend path (some (rangeText offset length)) config curl ∧
        opts = requestOptions config path (some (rangeText offset length)) := by
  rw [HttpClient.getRange, getRangeWith, if_neg hguard]
  exact sent_perform_iff

end Words

/-! ## Soundness -/

/-- **A range request returns what was asked for.**  Whatever response a request may have:
the call returns one if and only if the range ends below `2 ^ 64`, and the response has a
status outside of 200 to 299, or it has status 206 and its last `Content-Range` confirms
over the natural numbers that the body is the range asked for. -/
theorem getRange_eq_ok_iff (perform : Bytes → Exchange) (offset length : UInt64)
    (response : HttpResponse) :
    (getRangeWith perform offset length).result = .ok response ↔
      (length.toNat = 0 ∨ offset.toNat + length.toNat - 1 < 2 ^ 64) ∧
      (perform (rangeText offset length)).result = .ok response ∧
      (response.statusCode < 200 ∨ 300 ≤ response.statusCode ∨
        (response.statusCode = 206 ∧ IsRequested offset.toNat length.toNat response)) := by
  have hguard : ¬ RangeOverflows offset length ↔
      length.toNat = 0 ∨ offset.toNat + length.toNat - 1 < 2 ^ 64 := by
    rw [rangeOverflows_iff]
    omega
  rw [getRangeWith, ← hguard]
  by_cases hover : RangeOverflows offset length
  · simp [hover]
  · rw [if_neg hover]
    simp only
    cases (perform (rangeText offset length)).result with
    | error e =>
      constructor
      · intro h
        exact absurd h (by simp [bind, Except.bind])
      · rintro ⟨-, h, -⟩
        exact absurd h (by simp)
    | ok received =>
      have hcheck := @checkResponse_eq_ok_iff offset length received response hover
      constructor
      · intro h
        obtain ⟨rfl, hstatus⟩ := hcheck.mp h
        exact ⟨hover, rfl, hstatus⟩
      · rintro ⟨-, h, hstatus⟩
        obtain rfl := Except.ok.inj h
        exact hcheck.mpr ⟨rfl, hstatus⟩

end GribCpp.Http
