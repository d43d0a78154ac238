/-
# Blobs that are cut off

A download may end early.  Whatever bytes are left in front of the cut, the search finds those
messages of the whole blob that the cut has left whole, and no others.  So a cut never changes a
value: every extraction comes to what it does on the whole blob, or to an error that says that
something is missing.
-/
import GribCpp.Api.Points
import GribCpp.Lib.Lookahead

namespace GribCpp.Decode

open Framing Machine

variable {H N : Type} {create : Bytes → Option H} {bytes r : Bytes}

/-! ## The search -/

/-- Eight bytes tell that no message begins at a position. -/
lemma looksAhead_messages : messages.LooksAhead 8 where
  le_minLen := by decide
  found_iff := by
    intro s r len hlen
    change head (s ++ r) = .found len ↔ head s = .found len
    rw [head_eq_found_iff, head_eq_found_iff, List.take_append_of_le_length hlen,
      List.length_append]
    exact and_congr_left fun _ => ⟨fun _ => hlen, fun _ => by omega⟩
  skip_iff := by
    intro s r hlen
    change head (s ++ r) = .skip ↔ head s = .skip
    have hmagic : ascii "GRIB" <+: s ++ r ↔ ascii "GRIB" <+: s := by
      have hfour : (ascii "GRIB").length = 4 := rfl
      refine ⟨fun h => ?_, fun h => h.trans (List.prefix_append _ _)⟩
      exact List.prefix_of_prefix_length_le h (List.prefix_append _ _) (by omega)
    have hbyte : (s ++ r)[7]? = s[7]? := List.getElem?_append_left (by omega)
    have hforeign : Foreign (s ++ r) ↔ Foreign s := by
      constructor
      · rintro ⟨-, hone, htwo⟩
        exact ⟨hlen, hbyte ▸ hone, hbyte ▸ htwo⟩
      · rintro ⟨-, hone, htwo⟩
        exact ⟨by rw [List.length_append]; omega, hbyte ▸ hone, hbyte ▸ htwo⟩
    rw [head_eq_skip_iff, head_eq_skip_iff, hmagic, hforeign]

/-- **The search in what is left of a buffer** finds the messages that are left whole. -/
theorem findMessage_append_iff {pos start len : ℕ} :
    findMessage bytes pos = .found start len ↔
      findMessage (bytes ++ r) pos = .found start len ∧ start + len ≤ bytes.length := by
  rw [findMessage_eq, findMessage_eq]
  exact looksAhead_messages.scan_iff

lemma makeHandle_append {start len : ℕ} (h : start + len ≤ bytes.length) :
    makeHandle (N := N) create (bytes ++ r) ⟨start, len⟩
      = makeHandle create bytes ⟨start, len⟩ := by
  have hstop : (Slice.mk start len).stop ≤ bytes.length := h
  rw [makeHandle, makeHandle, Slice.of_append hstop]

/-! ## The calls -/

/-- A handle is made of the same message, or there is no message. -/
lemma fromBytes_append (create : Bytes → Option H) (bytes r : Bytes) :
    GribHandle.fromBytes (N := N) create (bytes ++ r) = GribHandle.fromBytes create bytes ∨
      (GribHandle.fromBytes (N := N) create bytes).result
          = .error (.decode (ascii "Empty GRIB buffer")) ∨
      (GribHandle.fromBytes (N := N) create bytes).result
          = .error (.decode (ascii "no complete GRIB message in buffer")) := by
  by_cases hnil : bytes = []
  · exact Or.inr (Or.inl (by rw [GribHandle.fromBytes, if_pos hnil]))
  · cases hfind : findMessage bytes 0 with
    | found start len =>
      obtain ⟨hfind', hstop⟩ := (findMessage_append_iff (r := r)).mp hfind
      left
      rw [GribHandle.fromBytes, GribHandle.fromBytes, if_neg hnil, if_neg (by simp [hnil]), hfind,
        hfind']
      simp only [makeHandle_append hstop]
    | atEnd | invalid =>
      right; right
      rw [GribHandle.fromBytes, if_neg hnil, hfind]

/-- A call that hands a message to ecCodes does not see what is behind it. -/
lemma next_append {f : GribFile} (h : (f.next (N := N) create).1.passed.isSome) (r : Bytes) :
    GribFile.next (N := N) { f with buf := f.buf ++ r } create
      = ((f.next create).1,
          { (f.next (N := N) create).2 with buf := (f.next (N := N) create).2.buf ++ r }) := by
  cases hfind : findMessage f.buf f.pos with
  | found start len =>
    obtain ⟨hfind', hstop⟩ := (findMessage_append_iff (r := r)).mp hfind
    rw [GribFile.next, GribFile.next]
    simp only [hfind, hfind', makeHandle_append hstop]
  | atEnd | invalid =>
    rw [GribFile.next, hfind] at h
    exact absurd h (by simp)

/-- Any other call says that there is no message. -/
lemma settled_of_passed_none {f : GribFile} (h : (f.next (N := N) create).1.passed = none) :
    Settled (f.next (N := N) create).1 := by
  rcases next_cases (N := N) (f := f) create with ⟨start, len, -, hpassed, -⟩ | ⟨hsettled, -⟩
  · exact absurd (h.symm.trans hpassed) (by simp)
  · exact hsettled

/-- A call that returns a handle hands a message to ecCodes. -/
lemma passed_of_some {f : GribFile} {g : GribHandle H N}
    (h : (f.next (N := N) create).1.result = .ok (some g)) :
    (f.next (N := N) create).1.passed.isSome := by
  by_contra hnone
  rw [Option.not_isSome_iff_eq_none] at hnone
  rcases settled_of_passed_none hnone with h' | h'
  · exact absurd (h.symm.trans h') (by simp)
  · exact absurd (h.symm.trans h') (by simp)

/-- **The calls of a run** that hand a message to ecCodes do not see what is behind it. -/
lemma answers_append (ops : List (Op H)) (f : GribFile) (r : Bytes) {i : ℕ}
    {d : Decoded (Option (GribHandle H N))}
    (h : (answers (step (N := N)) f ops)[i]? = some (some d)) (hpassed : d.passed.isSome) :
    (answers (step (N := N)) { f with buf := f.buf ++ r } ops)[i]? = some (some d) := by
  induction ops generalizing f i with
  | nil => exact absurd h (by simp)
  | cons op ops ih =>
    rw [answers_cons] at h ⊢
    cases op with
    | next create =>
      cases i with
      | zero =>
        obtain rfl : (f.next (N := N) create).1 = d := by simpa [step] using h
        rw [List.getElem?_cons_zero, step, next_append hpassed]
      | succ i =>
        rw [List.getElem?_cons_succ] at h ⊢
        cases hnext : (f.next (N := N) create).1.passed with
        | some slice =>
          rw [step, next_append (by rw [hnext]; rfl)]
          exact ih _ h
        | none =>
          -- every later call has the same answer
          have hsettled := settled_of_passed_none hnext
          rw [step, state_of_settled hsettled] at h
          rw [run_settled hsettled ops d (List.mem_of_getElem? h), hnext] at hpassed
          exact absurd hpassed (by simp)
    | move | moveAssign target =>
      cases i with
      | zero => exact absurd h (by simp [step])
      | succ i => exact ih f h

end GribCpp.Decode

namespace GribCpp.Api

open Decode Framing Machine Sidecar

variable {H N : Type} {lib : EcCodes H N} {lat lon : Double} {member : ℤ}

/-! ## Extractions -/

/-- The errors of a buffer without a whole message. -/
def Missing (e : Error) : Prop :=
  e = .decode (ascii "Empty GRIB buffer") ∨
    e = .decode (ascii "no complete GRIB message in buffer")

/-- One round of the loop, from the result of its call. -/
lemma extractLoop_eq (f : GribFile) :
    extractLoop lib lat lon member f =
      match (f.next (N := N) lib.create).1.result with
      | .error e => .error e
      | .ok none => .error (noMember member)
      | .ok (some h) =>
        if memberOf lib h = member then (h.nearestValue lib.toNearestApi lat lon).result
        else extractLoop lib lat lon member (f.next (N := N) lib.create).2 := by
  rw [extractLoop]
  split <;> rename_i hnext <;> rw [hnext]

/-- The search for a member comes to what it does on the whole blob, or to the end of the
messages. -/
lemma extractLoop_append (f : GribFile) (r : Bytes) :
    extractLoop lib lat lon member { f with buf := f.buf ++ r }
        = extractLoop lib lat lon member f ∨
      extractLoop lib lat lon member f = .error GribFile.incomplete ∨
      extractLoop lib lat lon member f = .error (noMember member) := by
  fun_induction extractLoop lib lat lon member f with
  | case1 f e hnext =>
    cases hpassed : (f.next (N := N) lib.create).1.passed with
    | none =>
      rcases settled_of_passed_none hpassed with h | h
      · exact absurd (hnext.symm.trans h) (by simp)
      · exact Or.inr (Or.inl (congrArg Except.error (Except.error.inj (hnext.symm.trans h))))
    | some slice =>
      left
      rw [extractLoop_eq, next_append (by rw [hpassed]; rfl), hnext]
  | case2 f hnext => exact Or.inr (Or.inr rfl)
  | case3 f g hnext hmember =>
    left
    rw [extractLoop_eq, next_append (passed_of_some hnext), hnext]
    exact if_pos hmember
  | case4 f g hnext hmember ih =>
    rw [extractLoop_eq, next_append (passed_of_some hnext), hnext]
    simp only [if_neg hmember]
    exact ih

/-! ## The main result -/

/-- **A cut never changes a value.**  Of any bytes that are cut off anywhere, and whatever ecCodes
does: each call of a run that hands a message to ecCodes has the answer that it has on the whole
blob; and `extract_point`, `extract_points` and `extract_point_member` come to what they come to
on the whole blob, or to an error that says that a message or the member is missing. -/
theorem cut_blob_agrees (lib : EcCodes H N) (libs : ℕ → EcCodes H N) {P T : Bytes}
    (hcut : P <+: T) :
    (∀ (ops : List (Op H)) (i : ℕ) (d : Decoded (Option (GribHandle H N))),
      (answers (step (N := N)) (GribFile.opened P) ops)[i]? = some (some d) → d.passed.isSome →
        (answers (step (N := N)) (GribFile.opened T) ops)[i]? = some (some d)) ∧
    (∀ lat lon, extractPoint lib P lat lon = extractPoint lib T lat lon ∨
      ∃ e, Missing e ∧ extractPoint lib P lat lon = .error e) ∧
    (∀ stations, extractPoints libs P stations = extractPoints libs T stations ∨
      ∃ e, Missing e ∧ extractPoints libs P stations = .error e) ∧
    ∀ lat lon member,
      extractPointMember lib P lat lon member = extractPointMember lib T lat lon member ∨
        extractPointMember lib P lat lon member = .error GribFile.incomplete ∨
        extractPointMember lib P lat lon member = .error (noMember member) := by
  obtain ⟨r, rfl⟩ := hcut
  refine ⟨fun ops i d h hpassed => answers_append ops (GribFile.opened P) r h hpassed,
    fun lat lon => ?_, fun stations => ?_, fun lat lon member => ?_⟩
  · rcases fromBytes_append (N := N) lib.create P r with h | h | h
    · left
      rw [extractPoint, extractPoint, h]
    · exact Or.inr ⟨_, Or.inl rfl, by rw [extractPoint, h]⟩
    · exact Or.inr ⟨_, Or.inr rfl, by rw [extractPoint, h]⟩
  · rcases fromBytes_append (N := N) (libs 0).create P r with h | h | h
    · left
      rw [extractPoints, extractPoints, h]
    · exact Or.inr ⟨_, Or.inl rfl, by rw [extractPoints, h]⟩
    · exact Or.inr ⟨_, Or.inr rfl, by rw [extractPoints, h]⟩
  · have hloop : extractLoop lib lat lon member (GribFile.opened (P ++ r))
          = extractLoop lib lat lon member (GribFile.opened P) ∨ _ :=
      extractLoop_append (GribFile.opened P) r
    rcases hloop with h | h
    · exact Or.inl h.symm
    · exact Or.inr h

/-- The second of two messages has lost its last byte: the first one has its value as before, and
the second one is missing. -/
theorem cut_blob_agrees_two :
    let T := shortest ++ longer
    extractPointMember lengthAsNumber (T.take 24) .negZero .negZero 12 = .ok .negZero ∧
      extractPointMember lengthAsNumber T .negZero .negZero 12 = .ok .negZero ∧
      extractPointMember lengthAsNumber (T.take 24) .negZero .negZero 13
        = .error GribFile.incomplete := by
  intro T
  have hgap : ¬ ascii "GRIB" <:+: ([] : Bytes) := by decide
  have hbuf : (GribFile.opened (T.take 24)).buf.drop (GribFile.opened (T.take 24)).pos
      = [] ++ (shortest ++ longer.take 12) := rfl
  have hloop : ∀ member : ℤ, 0 ≤ member →
      extractPointMember lengthAsNumber (T.take 24) .negZero .negZero member
        = if memberKey lengthAsNumber shortest = some member then
            nearestOf lengthAsNumber .negZero .negZero shortest
          else extractLoop lengthAsNumber .negZero .negZero member ⟨T.take 24, 12⟩ :=
    fun member hmember =>
      extractLoop_message hbuf hgap isMessage_shortest rfl .negZero .negZero hmember
  have hcut : extractPointMember lengthAsNumber (T.take 24) .negZero .negZero 12
      = .ok .negZero := by
    rw [hloop 12 (by decide), if_pos (by decide)]
    rfl
  refine ⟨hcut, ?_, ?_⟩
  · rcases (cut_blob_agrees lengthAsNumber (fun _ => lengthAsNumber) (List.take_prefix 24 T)).2.2.2
      .negZero .negZero 12 with h | h | h
    · rw [← h, hcut]
    · exact absurd (hcut.symm.trans h) (by simp)
    · exact absurd (hcut.symm.trans h) (by simp)
  · have hscan : scan messages ((T.take 24).drop 12) 12 = .invalid := by decide
    have hnext := next_of_invalid (N := Unit) (f := ⟨T.take 24, 12⟩) lengthAsNumber.create hscan
    rw [hloop 13 (by decide), if_neg (by decide), extractLoop_eq, hnext]

end GribCpp.Api
