/-
# GRIB messages in a buffer

The model of `find_message` in `src/decode/handle.cpp`, with every access to the buffer
checked.  A message begins with `GRIB`, names its edition in byte 7, states its own length
in a field whose place depends on the edition, and ends with `7777`; so no message is a
proper prefix of another one.  The search of the source is the scan for the first position
at which such a message stands, or at which one was announced and does not stand.
-/
import GribCpp.Core.Error
import GribCpp.Lib.BigEndian
import GribCpp.Lib.Framing
import GribCpp.Lib.Search

namespace GribCpp.Decode

open Framing Search

/-! ## Messages -/

/-- Where an edition keeps the length of a message, and the least length it allows. -/
structure Layout where
  edition : UInt8
  base : ℕ
  width : ℕ
  minLen : ℕ
  width_le : width ≤ 8
  field_le : base + width ≤ minLen
  header_le : 12 ≤ minLen

/-- Edition 1: 24 bits at bytes 4 to 6. -/
def edition1 : Layout := ⟨1, 4, 3, 12, by decide, by decide, by decide⟩

/-- Edition 2: 64 bits at bytes 8 to 15. -/
def edition2 : Layout := ⟨2, 8, 8, 20, by decide, by decide, by decide⟩

/-- The length that the field of a layout holds. -/
def Layout.declared (L : Layout) (s : Bytes) : ℕ :=
  BigEndian.value ((s.drop L.base).take L.width)

/-- The header of an edition, with the length of the whole message in it. -/
structure HasLayout (L : Layout) (m : Bytes) : Prop where
  edition : m[7]? = some L.edition
  length : L.declared m = m.length
  size : L.minLen ≤ m.length

instance (L : Layout) (m : Bytes) : Decidable (HasLayout L m) :=
  decidable_of_iff (m[7]? = some L.edition ∧ L.declared m = m.length ∧ L.minLen ≤ m.length)
    ⟨fun h => ⟨h.1, h.2.1, h.2.2⟩, fun h => ⟨h.edition, h.length, h.size⟩⟩

/-- A well-formed GRIB message of edition 1 or 2. -/
structure IsMessage (m : Bytes) : Prop where
  magic : ascii "GRIB" <+: m
  layout : HasLayout edition1 m ∨ HasLayout edition2 m
  trailer : ascii "7777" <:+ m

instance (m : Bytes) : Decidable (IsMessage m) :=
  decidable_of_iff (ascii "GRIB" <+: m ∧ (HasLayout edition1 m ∨ HasLayout edition2 m) ∧
      ascii "7777" <:+ m)
    ⟨fun h => ⟨h.1, h.2.1, h.2.2⟩, fun h => ⟨h.magic, h.layout, h.trailer⟩⟩

lemma IsMessage.le_length {m : Bytes} (h : IsMessage m) : 12 ≤ m.length := by
  rcases h.layout with hL | hL
  · exact hL.size
  · exact le_trans (by decide) hL.size

/-- The layout of a message begins inside any piece that holds its header. -/
lemma hasLayout_take_iff {L : Layout} {s : Bytes} {len : ℕ} (hlen : len ≤ s.length) :
    HasLayout L (s.take len) ↔ s[7]? = some L.edition ∧ L.declared s = len ∧ L.minLen ≤ len := by
  have hl : (s.take len).length = len := by rw [List.length_take]; omega
  have hfield : L.minLen ≤ len → L.declared (s.take len) = L.declared s := by
    intro hmin
    have hle := L.field_le
    rw [Layout.declared, Layout.declared, List.drop_take, List.take_take]
    congr 2
    omega
  have hget : L.minLen ≤ len → (s.take len)[7]? = s[7]? := by
    intro hmin
    have := L.header_le
    rw [List.getElem?_take_of_lt (by omega)]
  constructor
  · rintro ⟨hed, hlength, hsize⟩
    rw [hl] at hlength hsize
    exact ⟨hget hsize ▸ hed, hfield hsize ▸ hlength, hsize⟩
  · rintro ⟨hed, hlength, hsize⟩
    exact ⟨by rw [hget hsize, hed], by rw [hfield hsize, hl, hlength], by rw [hl]; exact hsize⟩

/-! ## What stands at the front of a list of bytes -/

/-- The magic of a list that is no header of edition 1 or 2. -/
structure Foreign (s : Bytes) : Prop where
  length : 8 ≤ s.length
  not_one : s[7]? ≠ some 1
  not_two : s[7]? ≠ some 2

instance (s : Bytes) : Decidable (Foreign s) :=
  decidable_of_iff (8 ≤ s.length ∧ s[7]? ≠ some 1 ∧ s[7]? ≠ some 2)
    ⟨fun h => ⟨h.1, h.2.1, h.2.2⟩, fun h => ⟨h.length, h.not_one, h.not_two⟩⟩

/-- The layout that byte 7 chooses. -/
def layoutOf (s : Bytes) : Layout := if s[7]? = some 2 then edition2 else edition1

/-- What stands at the front: nothing when there is no magic or the magic is followed by
some other edition, else a message or something that should have been one. -/
def head (s : Bytes) : Head :=
  if ¬ ascii "GRIB" <+: s ∨ Foreign s then .skip
  else if (layoutOf s).declared s ≤ s.length ∧ IsMessage (s.take ((layoutOf s).declared s)) then
    .found ((layoutOf s).declared s)
  else .invalid

variable {s m : Bytes} {len : ℕ}

/-- A header of an edition has its layout. -/
lemma layoutOf_eq {L : Layout} (hL : L = edition1 ∨ L = edition2) (hed : s[7]? = some L.edition) :
    layoutOf s = L := by
  rcases hL with rfl | rfl
  · rw [layoutOf, hed]
    rfl
  · rw [layoutOf, hed]
    rfl

lemma not_foreign {L : Layout} (hL : L = edition1 ∨ L = edition2) (hed : s[7]? = some L.edition) :
    ¬ Foreign s := by
  rintro ⟨-, hone, htwo⟩
  rcases hL with rfl | rfl
  · exact hone hed
  · exact htwo hed

/-- The layout of a message at the front of a list is the one that byte 7 of the list chooses. -/
lemma IsMessage.hasLayout (hlen : len ≤ s.length) (h : IsMessage (s.take len)) :
    (layoutOf s = edition1 ∨ layoutOf s = edition2) ∧ HasLayout (layoutOf s) (s.take len) := by
  -- byte 7 of the list is the one of the message
  rcases h.layout with hL | hL
  · rw [layoutOf_eq (Or.inl rfl) ((hasLayout_take_iff hlen).mp hL).1]
    exact ⟨Or.inl rfl, hL⟩
  · rw [layoutOf_eq (Or.inr rfl) ((hasLayout_take_iff hlen).mp hL).1]
    exact ⟨Or.inr rfl, hL⟩

/-- A message at the front of a list is of the edition and the length that the list says. -/
lemma IsMessage.of_take (hlen : len ≤ s.length) (h : IsMessage (s.take len)) :
    ascii "GRIB" <+: s ∧ ¬ Foreign s ∧ (layoutOf s).declared s = len ∧
      (layoutOf s).minLen ≤ len := by
  obtain ⟨hL, hlay⟩ := h.hasLayout hlen
  obtain ⟨hed, hlength, hsize⟩ := (hasLayout_take_iff hlen).mp hlay
  exact ⟨h.magic.trans (List.take_prefix _ _), not_foreign hL hed, hlength, hsize⟩

lemma head_eq_found_iff : head s = .found len ↔ len ≤ s.length ∧ IsMessage (s.take len) := by
  rw [head]
  constructor
  · intro h
    split at h
    · exact absurd h (by simp)
    · split at h
      · rename_i hmsg
        obtain rfl := Head.found.inj h
        exact hmsg
      · exact absurd h (by simp)
  · rintro ⟨hlen, hmsg⟩
    obtain ⟨hmagic, hforeign, hdecl, -⟩ := hmsg.of_take hlen
    rw [if_neg (by rintro (h | h); exacts [h hmagic, hforeign h])]
    simp only [hdecl, if_pos (And.intro hlen hmsg)]

lemma head_eq_skip_iff : head s = .skip ↔ (ascii "GRIB" <+: s → Foreign s) := by
  rw [head]
  constructor
  · intro h hmagic
    split at h
    · rename_i hskip
      exact hskip.resolve_left (not_not_intro hmagic)
    · split at h <;> exact absurd h (by simp)
  · intro h
    by_cases hmagic : ascii "GRIB" <+: s
    · rw [if_pos (Or.inr (h hmagic))]
    · rw [if_pos (Or.inl hmagic)]

/-- A header behind which less is left than its edition requires. -/
lemma head_of_short (hmagic : ascii "GRIB" <+: s) (hforeign : ¬ Foreign s)
    (hlt : s.length < (layoutOf s).minLen) : head s = .invalid := by
  cases hhead : head s with
  | skip => exact absurd (head_eq_skip_iff.mp hhead hmagic) hforeign
  | found len =>
    obtain ⟨hle, hmsg⟩ := head_eq_found_iff.mp hhead
    have hsize := (hmsg.of_take hle).2.2.2
    omega
  | invalid => rfl

lemma head_append (h : IsMessage m) (r : Bytes) : head (m ++ r) = .found m.length := by
  rw [head_eq_found_iff, List.take_left]
  exact ⟨by simp, h⟩

/-- **Messages are a prefix code.** -/
theorem IsMessage.eq_of_prefix {m m' : Bytes} (h : IsMessage m) (h' : IsMessage m')
    (hp : m <+: m') : m = m' := by
  obtain ⟨r, rfl⟩ := hp
  have hfound := head_append h r
  have hfound' := head_append h' []
  rw [List.append_nil, hfound] at hfound'
  have hlen := Head.found.inj hfound'
  rw [List.length_append] at hlen
  have hr : r = [] := List.eq_nil_of_length_eq_zero (by omega)
  rw [hr, List.append_nil]

/-- A message that is cut off behind its magic. -/
lemma head_cut (h : IsMessage m) {p : Bytes} (hp : p <+: m) (hlt : p.length < m.length)
    (hmagic : 4 ≤ p.length) : head p = .invalid := by
  have hm : ascii "GRIB" <+: p := List.prefix_of_prefix_length_le h.magic hp (by simpa [ascii])
  cases hhead : head p with
  | skip =>
    -- the piece reaches to the edition, which is the one of the message
    obtain ⟨hlen, hone, htwo⟩ := head_eq_skip_iff.mp hhead hm
    have hget : p[7]? = m[7]? := by
      rw [List.prefix_iff_eq_take] at hp
      rw [hp, List.getElem?_take_of_lt (by omega)]
    rw [hget] at hone htwo
    rcases h.layout with hL | hL
    · exact absurd hL.edition hone
    · exact absurd hL.edition htwo
  | found len =>
    -- a whole message in the piece would be a proper prefix of the message
    obtain ⟨hlen, hmsg⟩ := head_eq_found_iff.mp hhead
    have heq := hmsg.eq_of_prefix h ((List.take_prefix _ _).trans hp)
    have hle := congrArg List.length heq
    rw [List.length_take] at hle
    omega
  | invalid => rfl

/-- Nothing stands in a list that is too short for the magic. -/
lemma head_of_length_lt (h : s.length < 4) : head s = .skip := by
  rw [head_eq_skip_iff]
  intro hmagic
  have hle := hmagic.length_le
  simp only [ascii, List.length_map, String.length_toList] at hle
  exact absurd (h.trans_le' hle) (by decide)

/-- The search for messages as a scan. -/
def messages : Scanner UInt8 where
  head := head
  minLen := 12
  minLen_pos := by decide
  bounds := by
    intro s len h
    obtain ⟨hlen, hmsg⟩ := head_eq_found_iff.mp h
    have hmin := hmsg.le_length
    rw [List.length_take] at hmin
    omega

/-! ## The search of the source -/

/-- `ScanResult`, with the position and the length that `find_message` stores. -/
abbrev ScanResult : Type := Framing.Outcome

/-- The comparison of the bytes of a buffer from a position on with a text, up to the
first difference; `none` when it reads outside of the buffer. -/
def equals? (buf : Bytes) : Bytes → ℕ → Option Bool
  | [], _ => some true
  | c :: text, i =>
    match buf[i]? with
    | none => none
    | some b => if b = c then equals? buf text (i + 1) else some false

/-- `std::string_view::compare` of a piece of the buffer with a text, for equality; `none`
when the piece begins outside of the buffer. -/
def compare? (buf : Bytes) (pos n : ℕ) (text : Bytes) : Option Bool :=
  if pos ≤ buf.length then some (decide ((buf.drop pos).take n = text)) else none

/-- The checks of `find_message` on the length that a message states. -/
def checkLength? (buf : Bytes) (i minLen : ℕ) (len : UInt64) : Option Head :=
  if len.toNat < minLen ∨ buf.length - i < len.toNat then some .invalid
  else
    match compare? buf (i + len.toNat - 4) 4 (ascii "7777") with
    | none => none
    | some false => some .invalid
    | some true => some (.found len.toNat)

/-- The body of the loop of `find_message`; `none` when it reads outside of the buffer. -/
def examine? (buf : Bytes) (i : ℕ) : Option Head :=
  match equals? buf (ascii "GRIB") i with
  | none => none
  | some false => some .skip
  | some true =>
    if buf.length - i < 8 then some .invalid
    else
      match buf[i + 7]? with
      | none => none
      | some edition =>
        if edition = 2 then
          if buf.length - i < 16 then some .invalid
          else (BigEndian.read? buf (i + 8) 8).bind (checkLength? buf i 20)
        else if edition = 1 then
          (BigEndian.read? buf (i + 4) 3).bind (checkLength? buf i 12)
        -- some other edition: the loop goes on with the next position
        else some .skip

/-- `find_message`; `none` when it reads outside of the buffer. -/
def findMessage? (buf : Bytes) (i : ℕ) : Option ScanResult :=
  if i < buf.length ∧ 4 ≤ buf.length - i then
    match examine? buf i with
    | none => none
    | some .skip => findMessage? buf (i + 1)
    | some (.found len) => some (.found i len)
    | some .invalid => some .invalid
  else some .atEnd
termination_by buf.length - i

variable {buf : Bytes} {i : ℕ}

lemma equals?_eq {text : Bytes} (h : i + text.length ≤ buf.length) :
    equals? buf text i = some (decide (text <+: buf.drop i)) := by
  induction text generalizing i with
  | nil => simp [equals?]
  | cons c text ih =>
    rw [List.length_cons] at h
    have hi : i < buf.length := by omega
    rw [equals?, List.getElem?_eq_getElem hi]
    by_cases hc : buf[i] = c
    · simp only [hc, if_true, ih (show i + 1 + text.length ≤ buf.length by omega)]
      rw [List.drop_eq_getElem_cons hi, hc]
      simp
    · have hnot : ¬ c :: text <+: buf.drop i := by
        rw [List.drop_eq_getElem_cons hi, List.cons_prefix_cons]
        exact fun hp => hc hp.1.symm
      simp only [if_neg hc, hnot, decide_false]

/-- A header and a length that fits leave the trailer to be checked. -/
lemma isMessage_take_iff {L : Layout} (hL : L = edition1 ∨ L = edition2)
    (hmagic : ascii "GRIB" <+: s) (hed : s[7]? = some L.edition) (hdecl : L.declared s = len)
    (hmin : L.minLen ≤ len) (hle : len ≤ s.length) :
    IsMessage (s.take len) ↔ (s.drop (len - 4)).take 4 = ascii "7777" := by
  have h12 := L.header_le
  have hlen : (s.take len).length = len := by rw [List.length_take]; omega
  have htrailer : ascii "7777" <:+ s.take len ↔ (s.drop (len - 4)).take 4 = ascii "7777" := by
    have h4 : (ascii "7777").length = 4 := rfl
    rw [List.suffix_iff_eq_drop, hlen, List.drop_take, h4, Nat.sub_sub_self (by omega), eq_comm]
  rw [← htrailer]
  constructor
  · exact IsMessage.trailer
  · intro ht
    have hlay : HasLayout L (s.take len) := (hasLayout_take_iff hle).mpr ⟨hed, hdecl, hmin⟩
    refine ⟨?_, ?_, ht⟩
    · refine List.prefix_of_prefix_length_le hmagic (List.take_prefix _ _) ?_
      have h4 : (ascii "GRIB").length = 4 := rfl
      omega
    · rcases hL with rfl | rfl
      · exact Or.inl hlay
      · exact Or.inr hlay

/-- The checks on the stated length decide whether a message stands there. -/
lemma checkLength?_eq {L : Layout} (hL : L = edition1 ∨ L = edition2)
    (hmagic : ascii "GRIB" <+: buf.drop i) (hed : (buf.drop i)[7]? = some L.edition)
    {len : UInt64} (hdecl : L.declared (buf.drop i) = len.toNat) :
    checkLength? buf i L.minLen len = some (head (buf.drop i)) := by
  have hsuffix : (buf.drop i).length = buf.length - i := List.length_drop
  have hhead : head (buf.drop i)
      = if len.toNat ≤ (buf.drop i).length ∧ IsMessage ((buf.drop i).take len.toNat)
        then .found len.toNat else .invalid := by
    rw [head, layoutOf_eq hL hed, hdecl, if_neg]
    rintro (h | h)
    · exact h hmagic
    · exact not_foreign hL hed h
  rw [checkLength?, hhead]
  by_cases hsize : len.toNat < L.minLen ∨ buf.length - i < len.toNat
  · -- too short for its edition, or longer than what is left
    rw [if_pos hsize, if_neg]
    rintro ⟨hle, hmsg⟩
    have hmin := (hmsg.of_take hle).2.2.2
    rw [layoutOf_eq hL hed] at hmin
    omega
  · push Not at hsize
    obtain ⟨hmin, hle⟩ := hsize
    have h12 := L.header_le
    have hmsg := isMessage_take_iff hL hmagic hed hdecl hmin (by omega)
    rw [List.drop_drop, ← Nat.add_sub_assoc (by omega)] at hmsg
    rw [if_neg (by omega), compare?, if_pos (by omega)]
    by_cases ht : (buf.drop (i + len.toNat - 4)).take 4 = ascii "7777"
    · rw [if_pos ⟨by omega, hmsg.mpr ht⟩, decide_eq_true ht]
    · rw [if_neg (fun h => ht (hmsg.mp h.2)), decide_eq_false ht]

/-- Reading the length field of a layout. -/
lemma read?_declared (L : Layout) (h : i + L.base + L.width ≤ buf.length) :
    ∃ len : UInt64, BigEndian.read? buf (i + L.base) L.width = some len ∧
      L.declared (buf.drop i) = len.toNat := by
  refine ⟨_, BigEndian.read?_eq L.width_le h, ?_⟩
  rw [Layout.declared, List.drop_drop, UInt64.toNat_ofNat_of_lt']
  refine (BigEndian.value_lt _).trans_le ?_
  have hw := (List.length_take_le L.width (buf.drop (i + L.base))).trans L.width_le
  calc 256 ^ ((buf.drop (i + L.base)).take L.width).length
      ≤ 256 ^ 8 := Nat.pow_le_pow_right (by omega) hw
    _ = UInt64.size := by norm_num [UInt64.size]

/-- **The body of the loop looks at what stands at its position**, and reads inside the
buffer only. -/
theorem examine?_eq (h : 4 ≤ buf.length - i) : examine? buf i = some (head (buf.drop i)) := by
  have hsuffix : (buf.drop i).length = buf.length - i := List.length_drop
  have h4 : (ascii "GRIB").length = 4 := rfl
  rw [examine?, equals?_eq (by omega)]
  by_cases hmagic : ascii "GRIB" <+: buf.drop i
  · simp only [hmagic, decide_true]
    by_cases h8 : buf.length - i < 8
    · -- the header does not reach to the edition
      have hforeign : ¬ Foreign (buf.drop i) := fun h => by
        have := h.length
        omega
      have hmin := (layoutOf (buf.drop i)).header_le
      rw [if_pos h8, head_of_short hmagic hforeign (by omega)]
    · rw [if_neg h8]
      have hget : (buf.drop i)[7]? = buf[i + 7]? := List.getElem?_drop
      have hi7 : i + 7 < buf.length := by omega
      rw [List.getElem?_eq_getElem hi7] at hget ⊢
      by_cases htwo : buf[i + 7] = 2
      · rw [htwo] at hget
        simp only [htwo, if_true]
        by_cases h16 : buf.length - i < 16
        · -- the header does not reach to the end of the length
          have hmin : (buf.drop i).length < (layoutOf (buf.drop i)).minLen := by
            rw [layoutOf_eq (Or.inr rfl) hget, hsuffix]
            exact h16.trans (by decide)
          rw [if_pos h16, head_of_short hmagic (not_foreign (Or.inr rfl) hget) hmin]
        · obtain ⟨len, hread, hdecl⟩ := read?_declared edition2
            (show i + 8 + 8 ≤ buf.length by omega)
          rw [if_neg h16, show BigEndian.read? buf (i + 8) 8 = some len from hread]
          exact checkLength?_eq (Or.inr rfl) hmagic hget hdecl
      · by_cases hone : buf[i + 7] = 1
        · rw [hone] at hget
          simp only [hone, if_true, if_neg (show ¬ (1 : UInt8) = 2 by decide)]
          obtain ⟨len, hread, hdecl⟩ := read?_declared edition1
            (show i + 4 + 3 ≤ buf.length by omega)
          rw [show BigEndian.read? buf (i + 4) 3 = some len from hread]
          exact checkLength?_eq (Or.inl rfl) hmagic hget hdecl
        · simp only [if_neg htwo, if_neg hone]
          have hforeign : Foreign (buf.drop i) :=
            ⟨by omega, by rw [hget]; simpa using hone, by rw [hget]; simpa using htwo⟩
          rw [head_eq_skip_iff.mpr fun _ => hforeign]
  · simp only [hmagic, decide_false]
    rw [head_eq_skip_iff.mpr fun h => absurd h hmagic]

/-- **The search is the scan for messages**, and reads inside the buffer only. -/
theorem findMessage?_eq (buf : Bytes) (i : ℕ) :
    findMessage? buf i = some (scan messages (buf.drop i) i) := by
  fun_induction findMessage? buf i with
  | case1 i hi hnone =>
    rw [examine?_eq hi.2] at hnone
    exact absurd hnone (by simp)
  | case2 i hi hskip ih =>
    rw [examine?_eq hi.2, Option.some.injEq] at hskip
    rw [ih, List.drop_eq_getElem_cons hi.1, scan]
    rw [List.drop_eq_getElem_cons hi.1] at hskip
    rw [show messages.head = head from rfl, hskip]
  | case3 i hi len hfound =>
    rw [examine?_eq hi.2, Option.some.injEq] at hfound
    rw [List.drop_eq_getElem_cons hi.1] at hfound ⊢
    rw [scan, show messages.head = head from rfl, hfound]
  | case4 i hi hinv =>
    rw [examine?_eq hi.2, Option.some.injEq] at hinv
    rw [List.drop_eq_getElem_cons hi.1] at hinv ⊢
    rw [scan, show messages.head = head from rfl, hinv]
  | case5 i hi =>
    -- fewer than four bytes are left
    refine congrArg some (Eq.symm (scan_eq_atEnd_iff.mpr ?_))
    intro j hj
    rw [List.length_drop] at hj
    refine head_of_length_lt ?_
    rw [List.length_drop, List.length_drop]
    omega

lemma isSome_findMessage? (buf : Bytes) (i : ℕ) : (findMessage? buf i).isSome := by
  rw [findMessage?_eq]
  rfl

/-- `find_message`. -/
def findMessage (buf : Bytes) (i : ℕ) : ScanResult :=
  (findMessage? buf i).get (isSome_findMessage? buf i)

lemma findMessage_eq (buf : Bytes) (i : ℕ) : findMessage buf i = scan messages (buf.drop i) i := by
  simp [findMessage, findMessage?_eq]

end GribCpp.Decode
