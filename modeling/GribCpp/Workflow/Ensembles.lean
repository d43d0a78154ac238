/-
# A member by the inventory, or from the whole file

The two ways to the value of a member of an ensemble: to select its record in the inventory and to
download only that, or to download the file and to let `extract_point_member` ask every message
for its member.  They come to the same value when the tags of the inventory are right.
-/
import GribCpp.Workflow.Whole

namespace GribCpp.Workflow

open Api Sidecar Http Decode Framing

/-! ## Files as blobs -/

section Framed

variable {H N : Type} {pieces : List (Bytes × Bytes)}

/-- The messages of a file, each behind the padding of the one before. -/
def framed (gap : Bytes) : List (Bytes × Bytes) → List (Bytes × Bytes)
  | [] => []
  | (m, p) :: pieces => (gap, m) :: framed p pieces

/-- The padding at the end. -/
def lastPadding (gap : Bytes) : List (Bytes × Bytes) → Bytes
  | [] => gap
  | (_, p) :: pieces => lastPadding p pieces

lemma blobOf_framed (gap : Bytes) (pieces : List (Bytes × Bytes)) :
    blobOf (framed gap pieces) (lastPadding gap pieces) = gap ++ file pieces := by
  induction pieces generalizing gap with
  | nil => simp [blobOf, framed, lastPadding, file]
  | cons x pieces ih =>
    have h := ih x.2
    rw [blobOf] at h
    rw [blobOf, framed, lastPadding, List.flatMap_cons, List.append_assoc, h, file, file,
      List.flatMap_cons]
    simp only [List.append_assoc]

lemma map_snd_framed (gap : Bytes) (pieces : List (Bytes × Bytes)) :
    (framed gap pieces).map Prod.snd = pieces.map Prod.fst := by
  induction pieces generalizing gap with
  | nil => rfl
  | cons x pieces ih => rw [framed, List.map_cons, List.map_cons, ih]

lemma lastPadding_gap {gap : Bytes} (hgap : ¬ ascii "GRIB" <:+: gap)
    (hpad : ∀ x ∈ pieces, ¬ ascii "GRIB" <:+: x.2) :
    ¬ ascii "GRIB" <:+: lastPadding gap pieces := by
  induction pieces generalizing gap with
  | nil => exact hgap
  | cons x pieces ih => exact ih (hpad x (by simp)) fun y hy => hpad y (by simp [hy])

/-- Decodable messages with padding between them. -/
lemma frames_framed {lib : EcCodes H N} {gap : Bytes} (hgap : ¬ ascii "GRIB" <:+: gap)
    (hm : ∀ x ∈ pieces, IsMessage x.1) (hpad : ∀ x ∈ pieces, ¬ ascii "GRIB" <:+: x.2)
    (hcreate : ∀ x ∈ pieces, (lib.create x.1).isSome) : Frames lib (framed gap pieces) := by
  induction pieces generalizing gap with
  | nil =>
    intro p hp
    cases hp
  | cons x pieces ih =>
    have hrest := ih (hpad x (by simp)) (fun y hy => hm y (by simp [hy]))
      (fun y hy => hpad y (by simp [hy])) (fun y hy => hcreate y (by simp [hy]))
    intro p hp
    rcases List.mem_cons.mp hp with rfl | hp
    · exact ⟨hgap, hm x (by simp), hcreate x (by simp)⟩
    · exact hrest p hp

end Framed

/-! ## The member -/

variable {H N : Type} {lib : EcCodes H N} {pieces : List (Bytes × Bytes)}

/-- The tags of an inventory are right: a record has a member if and only if its message does. -/
def RightTags (lib : EcCodes H N) (rs : List Record) (pieces : List (Bytes × Bytes)) : Prop :=
  ∀ (i : ℕ) (r : Record) (x : Bytes × Bytes), rs[i]? = some r → pieces[i]? = some x →
    ∀ n : ℤ, 0 ≤ n → (r.member = n ↔ memberKey lib x.1 = some n)

/-- A whole file is searched for the first message of the member. -/
lemma extractPointMember_file (hm : ∀ x ∈ pieces, IsMessage x.1)
    (hpad : ∀ x ∈ pieces, ¬ ascii "GRIB" <:+: x.2)
    (hcreate : ∀ x ∈ pieces, (lib.create x.1).isSome) (lat lon : Double) {member : ℤ}
    (hmember : 0 ≤ member) :
    extractPointMember lib (file pieces) lat lon member
      = (firstOf lib member (pieces.map Prod.fst)).elim (.error (noMember member))
          (nearestOf lib lat lon) := by
  have hgap : ¬ ascii "GRIB" <:+: ([] : Bytes) := by decide
  have hframes := frames_framed hgap hm hpad hcreate
  have hblob := blobOf_framed [] pieces
  rw [List.nil_append] at hblob
  rw [← hblob, extractPointMember_frames hframes (lastPadding_gap hgap hpad) lat lon hmember,
    map_snd_framed]

/-- **The selection of a member finds its first message**, or nothing if there is none. -/
lemma head?_select_member {rs : List Record} (hT : Describes rs pieces)
    (htags : RightTags lib rs pieces) {member : ℤ} (hmember : 0 ≤ member) :
    (firstOf lib member (pieces.map Prod.fst) = none ∧
        (select (entries rs) { member := some member }).head? = none) ∨
      ∃ (i : ℕ) (x : Bytes × Bytes) (e : GribIndexEntry),
        pieces[i]? = some x ∧ (entries rs)[i]? = some e ∧
          firstOf lib member (pieces.map Prod.fst) = some x.1 ∧
          (select (entries rs) { member := some member }).head? = some e := by
  -- the entry of a message meets the criterion if and only if the message is of the member
  have hmeets : ∀ (i : ℕ) (e : GribIndexEntry) (x : Bytes × Bytes), (entries rs)[i]? = some e →
      pieces[i]? = some x →
        (Meets { member := some member } e ↔ memberKey lib x.1 = some member) := by
    intro i e x he hx
    rw [getElem?_entries] at he
    obtain ⟨r, hr, rfl⟩ := Option.map_eq_some_iff.mp he
    rw [← htags i r x hr hx member hmember]
    exact meets_member_iff
  have hlen : (entries rs).length = pieces.length := by rw [length_entries, hT.length]
  cases hfirst : firstOf lib member (pieces.map Prod.fst) with
  | none =>
    refine .inl ⟨rfl, List.head?_eq_none_iff.mpr (List.eq_nil_iff_forall_not_mem.mpr ?_)⟩
    intro e he
    obtain ⟨hmem, hmeet⟩ := mem_select.mp he
    obtain ⟨i, hi⟩ := List.getElem?_of_mem hmem
    have hlt : i < pieces.length := by
      rw [← hlen]
      exact (List.getElem?_eq_some_iff.mp hi).1
    have hkey := (hmeets i e _ hi (List.getElem?_eq_getElem hlt)).mp hmeet
    have hnone := List.find?_eq_none.mp hfirst _ (List.mem_map_of_mem (List.getElem_mem hlt))
    exact hnone (decide_eq_true hkey)
  | some m =>
    obtain ⟨hkey, i, hi, rfl, hbefore⟩ := List.find?_eq_some_iff_getElem.mp hfirst
    rw [List.length_map] at hi
    obtain ⟨e, hentry⟩ : ∃ e, (entries rs)[i]? = some e :=
      ⟨_, List.getElem?_eq_getElem (hlen ▸ hi)⟩
    have hpiece : pieces[i]? = some pieces[i] := List.getElem?_eq_getElem hi
    rw [List.getElem_map] at hkey
    refine .inr ⟨i, pieces[i], e, hpiece, hentry, by rw [List.getElem_map], ?_⟩
    refine head?_select_of_getElem? hentry ((hmeets i _ _ hentry hpiece).mpr (by simpa using hkey))
      fun j hj e' he' hmeet => ?_
    have hkey' := (hmeets j e' _ he' (List.getElem?_eq_getElem (hj.trans hi))).mp hmeet
    have hno := hbefore j hj
    rw [List.getElem_map, hkey'] at hno
    simp at hno

/-- **A member by the inventory is the member of the whole file.**  For every file of decodable
messages whose padding contains no magic, every inventory of it with the right tags, and every
server that gives both the file and its ranges: if no entry is selected for a member,
`extract_point_member` finds none in the file; otherwise the range of the first selected entry is
answered, and `extract_point` finds in the answer what `extract_point_member` finds in the file,
be it a value or an error. -/
theorem member_by_inventory (lib : EcCodes H N) (pieces : List (Bytes × Bytes))
    (hm : ∀ x ∈ pieces, IsMessage x.1) (hpad : ∀ x ∈ pieces, ¬ ascii "GRIB" <:+: x.2)
    (hcreate : ∀ x ∈ pieces, (lib.create x.1).isSome) (hF : (file pieces).length < 2 ^ 64)
    (lines : List (Line × Eol)) (last : Option Line) (hT : Describes (records lines last) pieces)
    (htags : RightTags lib (records lines last) pieces) (client : HttpClient) (path : Bytes)
    (config : HttpClientConfig) (curl : Curl)
    (hserved : ServedBy (file pieces) client path config curl)
    (hsend : client.CanSend path none config curl)
    (hwhole : AnswersWhole (file pieces) (curl.easyPerform (requestOptions config path none)))
    (hlimit : config.maxResponseBytes = 0 ∨
      (file pieces).length ≤ config.maxResponseBytes.toNat) :
    ∃ es whole, parseNomadsIdx (inventory lines last) = .ok es ∧
      (client.get path).result = .ok whole ∧
      ∀ (member : ℤ) (lat lon : Double), 0 ≤ member →
        ((select es { member := some member }).head? = none →
          extractPointMember lib whole.body lat lon member = .error (noMember member)) ∧
        ∀ rec, (select es { member := some member }).head? = some rec →
          ∃ part, (client.getRange path rec.offset rec.length).result = .ok part ∧
            extractPoint lib part.body lat lon
              = extractPointMember lib whole.body lat lon member := by
  obtain ⟨whole, hget, -, hbody⟩ := get_answered hF hsend hwhole hlimit
  refine ⟨_, whole, parseNomadsIdx_described hm hT, congrArg Exchange.result hget, ?_⟩
  intro member lat lon hmember
  have hextract := extractPointMember_file hm hpad hcreate lat lon hmember
  rw [hbody, hextract]
  rcases head?_select_member hT htags hmember with
    ⟨hfirst, hselect⟩ | ⟨i, x, e, hx, he, hfirst, hselect⟩
  · rw [hfirst, hselect]
    refine ⟨fun _ => rfl, fun rec hrec => ?_⟩
    cases hrec
  · rw [hfirst, hselect]
    refine ⟨fun hnone => ?_, fun rec hrec => ?_⟩
    · cases hnone
    · obtain rfl := Option.some.inj hrec
      obtain ⟨part, hpart, hpartBody⟩ := exists_part hm hF hT hserved he hx
        (hlimit.imp_right (length_piece_le hx).trans)
      refine ⟨part, hpart, ?_⟩
      have hgap : ¬ ascii "GRIB" <:+: ([] : Bytes) := by decide
      have hfront := extractPoint_message lib hgap (hm x (List.mem_of_getElem? hx)) x.2 lat lon
      rw [List.nil_append] at hfront
      rw [hpartBody, hfront, Option.elim_some]

/-! ## Two members -/

/-- Two messages, of the members 12 and 13. -/
def memberPieces : List (Bytes × Bytes) := [(shortest, [0, 0]), (longer, [])]

/-- The record of each of them. -/
def memberRecord (i : Fin 2) : Record :=
  { twoRecord i with tag := some (.member (12 + i) (by omega)) }

/-- Their inventory. -/
def memberLines : List (Line × Eol) := List.ofFn fun i => (.record (memberRecord i), .lf)

lemma describes_members : Describes (records memberLines none) memberPieces := by
  refine ⟨rfl, ?_, ?_⟩
  · intro i h
    have hi : i < 2 := h
    interval_cases i <;> rfl
  · intro i h
    have hi : i < 2 := h
    interval_cases i <;> rfl

lemma rightTags_members : RightTags lengthAsNumber (records memberLines none) memberPieces := by
  intro i r x hr hx n _
  have hi : i < 2 := (List.getElem?_eq_some_iff.mp hx).1
  interval_cases i
  · obtain rfl := Option.some.inj hr
    obtain rfl := Option.some.inj hx
    show (12 : ℤ) = n ↔ some (12 : ℤ) = some n
    rw [Option.some.injEq]
  · obtain rfl := Option.some.inj hr
    obtain rfl := Option.some.inj hx
    show (13 : ℤ) = n ↔ some (13 : ℤ) = some n
    rw [Option.some.injEq]

/-- The second one by its record. -/
theorem member_by_inventory_second :
    let client := programClient (some (siteCurl (file memberPieces) (file memberPieces)))
    ∃ (es : List GribIndexEntry) (whole : HttpResponse) (rec : GribIndexEntry)
        (part : HttpResponse), parseNomadsIdx (inventory memberLines none) = .ok es ∧
      (client.get (ascii "/file")).result = .ok whole ∧
      (select es { member := some 13 }).head? = some rec ∧ rec.offset = 14 ∧
      (client.getRange (ascii "/file") rec.offset rec.length).result = .ok part ∧
      extractPoint lengthAsNumber part.body .negZero .negZero
        = extractPointMember lengthAsNumber whole.body .negZero .negZero 13 := by
  intro client
  have hF : (file memberPieces).length < 2 ^ 64 := by decide
  obtain ⟨es, whole, hes, hwhole, hmember⟩ := member_by_inventory lengthAsNumber memberPieces
    (by decide) (by decide) (by decide) hF memberLines none describes_members rightTags_members
    client (ascii "/file") {} _ (servedBy_siteCurl (file memberPieces) hF (by decide))
    ⟨rfl, by decide, by decide, by decide, rfl, rfl⟩ (answersWhole_siteCurl _ _ hF)
    (Or.inr (by decide))
  obtain rfl := Except.ok.inj
    (hes.symm.trans (parseNomadsIdx_described (by decide) describes_members))
  have hhead : (select (entries (records memberLines none)) { member := some 13 }).head?
      = some ((memberRecord 1).entry 0) := rfl
  obtain ⟨part, hpart, hvalue⟩ := (hmember 13 .negZero .negZero (by decide)).2 _ hhead
  exact ⟨_, whole, _, part, hes, hwhole, hhead, rfl, hpart, hvalue⟩

end GribCpp.Workflow
