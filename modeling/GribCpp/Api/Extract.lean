/-
# The extraction of a member

The model of `extract_point_member` in `src/api/extract.cpp`, and of `GribHandle::get_long` in
`src/decode/handle.cpp`.  ecCodes is a parameter: the creation of a handle, the lookup of a key
and the grid search are functions of what they are passed.  The loop goes through the messages of
a blob until it comes to one of the member; what lies behind that one is never looked at.
-/
import GribCpp.Decode.Drain
import GribCpp.Decode.Nearest

namespace GribCpp.Api

open Decode Framing Sidecar

/-! ## The source -/

/-- What the extraction uses of ecCodes; a lookup has an error code and a value. -/
structure EcCodes (H N : Type) extends NearestApi H N where
  create : Bytes → Option H
  getLong : H → Bytes → ℤ × ℤ

section Source

variable {H N : Type} (lib : EcCodes H N)

/-- `GribHandle::get_long`. -/
def getLong (g : GribHandle H N) (key : Bytes) : Result ℤ :=
  match g.h with
  | none => .error (.decode (ascii "Invalid handle or key"))
  | some h =>
    if 0 ∈ key then .error (.decode (ascii "Invalid handle or key"))
    else if (lib.getLong h key).1 ≠ codesSuccess then
      .error (.decode (ascii "get_long " ++ key ++ ascii ": " ++
        lib.errorMessage (lib.getLong h key).1))
    else .ok (lib.getLong h key).2

/-- The member of a message, -1 when it has neither of the keys. -/
def memberOf (g : GribHandle H N) : ℤ :=
  match getLong lib g (ascii "perturbationNumber") with
  | .ok pn => pn
  | .error _ =>
    match getLong lib g (ascii "number") with
    | .ok num => num
    | .error _ => -1

/-- `std::to_string` of an `int`. -/
def toStringInt (n : ℤ) : Bytes :=
  if n < 0 then 45 :: Decimal.numeral n.natAbs else Decimal.numeral n.natAbs

/-- The error of a blob without the member. -/
def noMember (member : ℤ) : Error :=
  .decode (ascii "no GRIB message with member " ++ toStringInt member)

/-- The loop of `extract_point_member`. -/
def extractLoop (lat lon : Double) (member : ℤ) (f : GribFile) : Result Double :=
  match _hnext : (f.next (N := N) lib.create).1.result with
  | .error e => .error e
  | .ok none => .error (noMember member)
  | .ok (some h) =>
    if memberOf lib h = member then (h.nearestValue lib.toNearestApi lat lon).result
    else extractLoop lat lon member (f.next (N := N) lib.create).2
termination_by f.buf.length - f.pos
decreasing_by exact remaining_lt_of_ok _hnext

/-- `extract_point_member`. -/
def extractPointMember (blob : Bytes) (lat lon : Double) (member : ℤ) : Result Double :=
  match GribFile.openBytes blob with
  | .error e => .error e
  | .ok f => extractLoop lib lat lon member f

end Source

/-! ## Messages -/

section Messages

variable {H N : Type} (lib : EcCodes H N)

/-- A key of a handle; none when the lookup fails. -/
def lookup (h : H) (key : Bytes) : Option ℤ :=
  if (lib.getLong h key).1 = codesSuccess then some (lib.getLong h key).2 else none

/-- The member of a message: `perturbationNumber` or, if that key is absent, `number`. -/
def memberKey (m : Bytes) : Option ℤ :=
  (lib.create m).bind fun h =>
    (lookup lib h (ascii "perturbationNumber")).or (lookup lib h (ascii "number"))

/-- The nearest value of a message. -/
def nearestOf (lat lon : Double) (m : Bytes) : Result Double :=
  match lib.create m with
  | none => .error (.decode (ascii "codes_handle_new_from_message_copy failed"))
  | some h => ((GribHandle.ofHandle h).nearestValue lib.toNearestApi lat lon).result

/-- Messages that ecCodes can decode, each behind a gap without a magic. -/
def Frames (frames : List (Bytes × Bytes)) : Prop :=
  ∀ p ∈ frames, ¬ ascii "GRIB" <:+: p.1 ∧ IsMessage p.2 ∧ (lib.create p.2).isSome

/-- The blob of some gaps and messages, and a rest. -/
def blobOf (frames : List (Bytes × Bytes)) (rest : Bytes) : Bytes :=
  frames.flatMap (fun p => p.1 ++ p.2) ++ rest

/-- The first message of a member. -/
def firstOf (member : ℤ) (ms : List Bytes) : Option Bytes :=
  ms.find? fun m => memberKey lib m = some member

variable {lib}

lemma toOption_getLong {h : H} {key : Bytes} (hkey : 0 ∉ key) :
    (getLong lib (.ofHandle h) key).toOption = lookup lib h key := by
  rw [getLong, lookup]
  simp only [GribHandle.ofHandle, if_neg hkey]
  by_cases hok : (lib.getLong h key).1 = codesSuccess
  · rw [if_neg (not_not.mpr hok), if_pos hok]
    rfl
  · rw [if_pos hok, if_neg hok]
    rfl

/-- **The fallback from key to key.**  A handle is of a member if and only if its message has
that key; the -1 of a message without a key is no member. -/
lemma memberOf_eq_iff {m : Bytes} {h : H} (hm : lib.create m = some h) {member : ℤ}
    (hmember : 0 ≤ member) :
    memberOf lib (.ofHandle h) = member ↔ memberKey lib m = some member := by
  rw [memberOf, memberKey, hm, Option.bind_some, ← toOption_getLong (by decide),
    ← toOption_getLong (by decide)]
  cases getLong lib (.ofHandle h) (ascii "perturbationNumber") with
  | ok pn => simp [Except.toOption]
  | error e =>
    cases getLong lib (.ofHandle h) (ascii "number") with
    | ok num => simp [Except.toOption]
    | error e' =>
      have hne : -1 ≠ member := by omega
      simp [Except.toOption, hne]

/-! ## The loop over messages -/

/-- A message behind a gap is the one of the member, or the loop goes on behind it. -/
lemma extractLoop_message {f : GribFile} {g m r : Bytes}
    (hbuf : f.buf.drop f.pos = g ++ (m ++ r)) (hg : ¬ ascii "GRIB" <:+: g) (hm : IsMessage m)
    (hcreate : (lib.create m).isSome) (lat lon : Double) {member : ℤ} (hmember : 0 ≤ member) :
    extractLoop lib lat lon member f
      = if memberKey lib m = some member then nearestOf lib lat lon m
        else extractLoop lib lat lon member { f with pos := f.pos + g.length + m.length } := by
  obtain ⟨h, hh⟩ := Option.isSome_iff_exists.mp hcreate
  obtain ⟨hnext, hslice⟩ := next_message (N := N) hbuf hg hm lib.create
  have hresult : (f.next (N := N) lib.create).1.result = .ok (some (.ofHandle h)) := by
    have hmade : makeHandle (N := N) lib.create f.buf ⟨f.pos + g.length, m.length⟩
        = .ok (.ofHandle h) := makeHandle_eq_ok_iff.mpr ⟨h, by rw [hslice, hh], rfl⟩
    rw [hnext, hmade]
    rfl
  rw [extractLoop]
  split
  · rename_i e herror
    rw [hresult] at herror
    exact absurd herror (by simp)
  · rename_i hnone
    rw [hresult] at hnone
    exact absurd hnone (by simp)
  · rename_i h' hsome
    rw [hresult, Except.ok.injEq, Option.some.injEq] at hsome
    rw [← hsome, hnext, nearestOf, hh]
    exact if_congr (memberOf_eq_iff hh hmember) rfl rfl

/-- A rest without a magic has no message of the member. -/
lemma extractLoop_gap {f : GribFile} (hgap : ¬ ascii "GRIB" <:+: f.buf.drop f.pos)
    (lat lon : Double) (member : ℤ) :
    extractLoop lib lat lon member f = .error (noMember member) := by
  have hnext := next_of_atEnd (N := N) lib.create (scan_end hgap f.pos)
  rw [extractLoop]
  split
  · rename_i e herror
    rw [hnext] at herror
    exact absurd herror (by simp)
  · rfl
  · rename_i h' hsome
    rw [hnext] at hsome
    exact absurd hsome (by simp)

lemma drop_opened (bytes : Bytes) :
    (GribFile.opened bytes).buf.drop (GribFile.opened bytes).pos = bytes := rfl

/-- **The loop finds the first message of the member**, and if there is none it comes to the
rest. -/
lemma extractLoop_frames {frames : List (Bytes × Bytes)} (hframes : Frames lib frames)
    {rest : Bytes} {f : GribFile} (hbuf : f.buf.drop f.pos = blobOf frames rest)
    (lat lon : Double) {member : ℤ} (hmember : 0 ≤ member) :
    (∀ m, firstOf lib member (frames.map Prod.snd) = some m →
      extractLoop lib lat lon member f = nearestOf lib lat lon m) ∧
    (firstOf lib member (frames.map Prod.snd) = none → ∃ f' : GribFile,
      f'.buf.drop f'.pos = rest ∧
        extractLoop lib lat lon member f = extractLoop lib lat lon member f') := by
  induction frames generalizing f with
  | nil => exact ⟨fun m h => absurd h (by simp [firstOf]), fun _ => ⟨f, hbuf, rfl⟩⟩
  | cons p frames ih =>
    obtain ⟨hg, hm, hcreate⟩ := hframes p (by simp)
    rw [blobOf, List.flatMap_cons, List.append_assoc, List.append_assoc] at hbuf
    have hstep := extractLoop_message hbuf hg hm hcreate lat lon hmember
    rw [List.map_cons, firstOf, List.find?_cons]
    by_cases hkey : memberKey lib p.2 = some member
    · rw [if_pos hkey] at hstep
      simp only [hkey, decide_true, Option.some.injEq, reduceCtorEq, false_implies, and_true]
      rintro m rfl
      exact hstep
    · rw [if_neg hkey] at hstep
      simp only [hkey, decide_false]
      rw [hstep]
      refine ih (fun q hq => hframes q (by simp [hq])) ?_
      rw [← List.drop_drop, ← List.drop_drop, hbuf, List.drop_left, List.drop_left]
      rfl

end Messages

/-! ## The extraction -/

section Main

variable {H N : Type} {lib : EcCodes H N} {member : ℤ}

/-- Of messages that do not match twice, the first one that matches does not depend on their
order. -/
lemma find?_perm {α : Type*} {p : α → Bool} {l l' : List α} (hperm : l.Perm l')
    (hl : l.Pairwise fun a b => ¬ (p a ∧ p b)) : l.find? p = l'.find? p := by
  induction hperm with
  | nil => rfl
  | cons x _ ih =>
    rw [List.find?_cons, List.find?_cons, ih hl.of_cons]
  | swap x y l =>
    have hxy : ¬ (p y ∧ p x) := List.rel_of_pairwise_cons hl (by simp)
    rw [List.find?_cons, List.find?_cons, List.find?_cons, List.find?_cons]
    cases hx : p x <;> cases hy : p y
    · rfl
    · rfl
    · rfl
    · exact absurd ⟨hy, hx⟩ hxy
  | trans hl₁ _ ih₁ ih₂ =>
    exact (ih₁ hl).trans (ih₂ ((hl₁.pairwise_iff fun h => mt And.symm h).mp hl))

/-- **The extraction returns the nearest value of the first message of the member.** -/
lemma extractPointMember_frames {frames : List (Bytes × Bytes)} (hframes : Frames lib frames)
    {gap : Bytes} (hgap : ¬ ascii "GRIB" <:+: gap) (lat lon : Double) (hmember : 0 ≤ member) :
    extractPointMember lib (blobOf frames gap) lat lon member
      = (firstOf lib member (frames.map Prod.snd)).elim (.error (noMember member))
          (nearestOf lib lat lon) := by
  obtain ⟨hfound, hrest⟩ :=
    extractLoop_frames hframes (drop_opened (blobOf frames gap)) lat lon hmember
  rw [extractPointMember, GribFile.openBytes]
  cases hfirst : firstOf lib member (frames.map Prod.snd) with
  | some m => exact hfound m hfirst
  | none =>
    obtain ⟨f, hbuf, heq⟩ := hrest hfirst
    rw [← hbuf] at hgap
    exact heq.trans (extractLoop_gap hgap lat lon member)

/-- The extraction fails when there is no message of the member, or on the first one. -/
lemma exists_error_iff {frames : List (Bytes × Bytes)} (hframes : Frames lib frames)
    {gap : Bytes} (hgap : ¬ ascii "GRIB" <:+: gap) (lat lon : Double) (hmember : 0 ≤ member) :
    (∃ e, extractPointMember lib (blobOf frames gap) lat lon member = .error e) ↔
      (∀ m ∈ frames.map Prod.snd, memberKey lib m ≠ some member) ∨
        ∃ m e, firstOf lib member (frames.map Prod.snd) = some m ∧
          nearestOf lib lat lon m = .error e := by
  rw [extractPointMember_frames hframes hgap lat lon hmember]
  cases hfirst : firstOf lib member (frames.map Prod.snd) with
  | none =>
    have hnone : ∀ m ∈ frames.map Prod.snd, memberKey lib m ≠ some member := by
      intro m hm
      simpa using List.find?_eq_none.mp hfirst m hm
    exact iff_of_true ⟨_, rfl⟩ (Or.inl hnone)
  | some m =>
    rw [Option.elim_some]
    constructor
    · rintro ⟨e, he⟩
      exact Or.inr ⟨m, e, rfl, he⟩
    · rintro (hnone | ⟨m', e, hm', he⟩)
      · have hkey : memberKey lib m = some member := by simpa using List.find?_some hfirst
        exact absurd hkey (hnone m (List.mem_of_find?_eq_some hfirst))
      · obtain rfl := Option.some.inj hm'
        exact ⟨e, he⟩

/-- The same messages in another order, between other gaps. -/
lemma Frames.perm {frames frames' : List (Bytes × Bytes)} (hframes : Frames lib frames)
    (hperm : (frames.map Prod.snd).Perm (frames'.map Prod.snd))
    (hgaps : ∀ p ∈ frames', ¬ ascii "GRIB" <:+: p.1) : Frames lib frames' := by
  intro p hp
  have hmem : p.2 ∈ frames.map Prod.snd := hperm.mem_iff.mpr (List.mem_map_of_mem hp)
  obtain ⟨q, hq, hqp⟩ := List.mem_map.mp hmem
  rw [← hqp]
  exact ⟨hgaps p hp, (hframes q hq).2⟩

/-- **When no two messages are of the member, their order and the gaps do not matter.** -/
lemma extractPointMember_perm {frames frames' : List (Bytes × Bytes)}
    (hframes : Frames lib frames) {gap gap' : Bytes} (hgap : ¬ ascii "GRIB" <:+: gap)
    (lat lon : Double) (hmember : 0 ≤ member)
    (hdistinct : (frames.map Prod.snd).Pairwise
      fun a b => ¬ (memberKey lib a = some member ∧ memberKey lib b = some member))
    (hperm : (frames.map Prod.snd).Perm (frames'.map Prod.snd))
    (hgaps : ∀ p ∈ frames', ¬ ascii "GRIB" <:+: p.1) (hgap' : ¬ ascii "GRIB" <:+: gap') :
    extractPointMember lib (blobOf frames' gap') lat lon member
      = extractPointMember lib (blobOf frames gap) lat lon member := by
  have hfirst : firstOf lib member (frames.map Prod.snd)
      = firstOf lib member (frames'.map Prod.snd) :=
    find?_perm hperm (hdistinct.imp fun h => by simpa using h)
  rw [extractPointMember_frames (hframes.perm hperm hgaps) hgap' lat lon hmember,
    extractPointMember_frames hframes hgap lat lon hmember, hfirst]

/-- **Behind a message of the member, nothing is looked at.** -/
lemma extractPointMember_append {frames : List (Bytes × Bytes)} (hframes : Frames lib frames)
    {p : Bytes × Bytes} (hp : p ∈ frames) (hkey : memberKey lib p.2 = some member)
    (rest rest' : Bytes) (lat lon : Double) (hmember : 0 ≤ member) :
    extractPointMember lib (blobOf frames rest) lat lon member
      = extractPointMember lib (blobOf frames rest') lat lon member := by
  have hsome : (firstOf lib member (frames.map Prod.snd)).isSome := by
    rw [firstOf, List.find?_isSome]
    exact ⟨p.2, List.mem_map_of_mem hp, by simpa using hkey⟩
  obtain ⟨m, hm⟩ := Option.isSome_iff_exists.mp hsome
  have hfound : ∀ r : Bytes,
      extractPointMember lib (blobOf frames r) lat lon member = nearestOf lib lat lon m :=
    fun r => (extractLoop_frames hframes (drop_opened (blobOf frames r)) lat lon hmember).1 m hm
  rw [hfound rest, hfound rest']

/-- **The extraction of a member.**  Of a blob of decodable messages between gaps without a magic
it returns the nearest value of the first message of the member; it fails if and only if there is
none or the search on that one fails.  When no two messages are of the member, as when their
keys are distinct, neither the order of the messages nor the gaps matter; and whatever bytes stand
behind a message of the member do not. -/
theorem extractPointMember_law (lib : EcCodes H N) (lat lon : Double) (member : ℤ)
    (hmember : 0 ≤ member) (frames : List (Bytes × Bytes)) (hframes : Frames lib frames)
    (gap : Bytes) (hgap : ¬ ascii "GRIB" <:+: gap) :
    (∀ m, firstOf lib member (frames.map Prod.snd) = some m →
      extractPointMember lib (blobOf frames gap) lat lon member = nearestOf lib lat lon m) ∧
    ((∃ e, extractPointMember lib (blobOf frames gap) lat lon member = .error e) ↔
      (∀ m ∈ frames.map Prod.snd, memberKey lib m ≠ some member) ∨
        ∃ m e, firstOf lib member (frames.map Prod.snd) = some m ∧
          nearestOf lib lat lon m = .error e) ∧
    ((frames.map Prod.snd).Pairwise
        (fun a b => ¬ (memberKey lib a = some member ∧ memberKey lib b = some member)) →
      ∀ (frames' : List (Bytes × Bytes)) (gap' : Bytes),
        (frames.map Prod.snd).Perm (frames'.map Prod.snd) →
        (∀ p ∈ frames', ¬ ascii "GRIB" <:+: p.1) → ¬ ascii "GRIB" <:+: gap' →
        extractPointMember lib (blobOf frames' gap') lat lon member
          = extractPointMember lib (blobOf frames gap) lat lon member) ∧
    (∀ pre p post, frames = pre ++ p :: post → memberKey lib p.2 = some member → ∀ rest : Bytes,
      extractPointMember lib (blobOf (pre ++ [p]) rest) lat lon member
        = extractPointMember lib (blobOf frames gap) lat lon member) := by
  refine ⟨?_, exists_error_iff hframes hgap lat lon hmember, ?_, ?_⟩
  · intro m hm
    rw [extractPointMember_frames hframes hgap lat lon hmember, hm, Option.elim_some]
  · intro hdistinct frames' gap' hperm hgaps hgap'
    exact extractPointMember_perm hframes hgap lat lon hmember hdistinct hperm hgaps hgap'
  · rintro pre p post rfl hkey rest
    have hfront : Frames lib (pre ++ [p]) := by
      intro q hq
      refine hframes q ?_
      rw [List.append_cons]
      exact List.mem_append_left _ hq
    have hblob : blobOf (pre ++ p :: post) gap = blobOf (pre ++ [p]) (blobOf post gap) := by
      simp [blobOf]
    rw [hblob]
    exact extractPointMember_append hfront (p := p) (by simp) hkey rest _ lat lon hmember

/-- A message of edition 1 with one byte more than it needs. -/
def longer : Bytes := ascii "GRIB" ++ [0, 0, 13, 1, 0] ++ ascii "7777"

/-- A handle is the message itself, which has its length for the key `number`. -/
def lengthAsNumber : EcCodes Bytes Unit where
  create := some
  getLong h key := if key = ascii "number" then (codesSuccess, h.length) else (-10, 0)
  nearestNew _ := (some (), codesSuccess)
  nearestFind _ _ _ _ := (codesSuccess, [⟨.negZero, .negZero⟩])
  errorMessage _ := []

/-- The second message of two, behind which a message is cut off. -/
theorem extractPointMember_law_two :
    extractPointMember lengthAsNumber
      (blobOf ([(ascii "GRI", shortest)] ++ [([], longer)]) (ascii "GRIB")) .negZero .negZero 13
        = .ok .negZero := by
  have hframes : Frames lengthAsNumber ([(ascii "GRI", shortest)] ++ ([], longer) :: []) := by
    unfold Frames
    decide
  have hlaw := extractPointMember_law lengthAsNumber .negZero .negZero 13 (by decide) _ hframes []
    (by decide)
  exact (hlaw.2.2.2 _ _ _ rfl (by decide) (ascii "GRIB")).trans (hlaw.1 longer (by decide))

end Main

end GribCpp.Api
