/-
# The body sink

What becomes of a body that comes in chunks, when it may be longer than the limit.  Either all
of it fits, and is taken; or there is a first chunk that goes beyond the limit, which is
refused and stops the transfer.  Where the chunks are cut has no influence on which of the two
it is, nor on the body that is taken as a whole.
-/
import GribCpp.Http.Transfer

namespace GribCpp.Http

/-! ## Deliveries that are stopped -/

/-- The deliveries that the callbacks take before one of them stops the transfer. -/
def taken (sink : ResponseSink) : List Event → List Event
  | [] => []
  | e :: es =>
    let (n, sink) := e.callback sink
    if n.toNat = e.delivery.size.toNat * e.delivery.count.toNat then e :: taken sink es else []

section Deliver

variable {sink sink' : ResponseSink} {e : Event} {es pre rest : List Event}

/-- No callback changes the limit. -/
lemma limit_callback (e : Event) (sink : ResponseSink) :
    (e.callback sink).2.limit = sink.limit := by
  cases e with
  | header d =>
    rw [Event.callback, headerCallback]
    split_ifs <;> rfl
  | body d =>
    rw [Event.callback, writeCallback]
    split_ifs <;> rfl

@[simp] lemma limit_deliver : (deliver sink es).2.limit = sink.limit := by
  induction es generalizing sink with
  | nil => rfl
  | cons e es ih =>
    simp only [deliver]
    split
    · rw [ih, limit_callback]
    · exact limit_callback e sink

lemma isPrefix_taken : taken sink es <+: es := by
  induction es generalizing sink with
  | nil => exact List.nil_prefix
  | cons e es ih =>
    simp only [taken]
    split
    · exact List.cons_prefix_cons.mpr ⟨rfl, ih⟩
    · exact List.nil_prefix

/-- Deliveries that are not stopped are followed by the next ones. -/
lemma deliver_append (h : (deliver sink pre).1 = false) :
    deliver sink (pre ++ rest) = deliver (deliver sink pre).2 rest ∧
      taken sink (pre ++ rest) = pre ++ taken (deliver sink pre).2 rest := by
  induction pre generalizing sink with
  | nil => exact ⟨rfl, rfl⟩
  | cons e pre ih =>
    simp only [deliver, taken, List.cons_append] at h ⊢
    split at h
    · rename_i htaken
      obtain ⟨hdeliver, hrest⟩ := ih h
      simp only [if_pos htaken, hdeliver, hrest, and_self]
    · exact absurd h (by simp)

lemma taken_of_not_stopped (h : (deliver sink es).1 = false) : taken sink es = es := by
  have h' := (@deliver_append sink es [] h).2
  rw [List.append_nil] at h'
  rw [h', taken, List.append_nil]

/-- A delivery that is not taken whole is the last one. -/
lemma deliver_stop {n : UInt64} (h : e.callback sink = (n, sink'))
    (hn : n.toNat ≠ e.delivery.size.toNat * e.delivery.count.toNat) :
    deliver sink (e :: es) = (true, sink') ∧ taken sink (e :: es) = [] := by
  simp only [deliver, taken, h, if_neg hn, and_self]

end Deliver

/-! ## The limit -/

/-- The body callback refuses a delivery that goes beyond the limit. -/
lemma writeCallback_overflow {d : Delivery} (hd : d.Intact) {sink : ResponseSink}
    (hle : sink.response.body.length ≤ sink.limit.toNat)
    (hlt : sink.limit.toNat < sink.response.body.length + d.data.length)
    (hpos : 0 < sink.limit) :
    writeCallback sink d = (0, { sink with overflowed := true }) := by
  have hle' : sink.response.bodySize ≤ sink.limit := by
    rw [UInt64.le_iff_toNat_le, HttpResponse.toNat_bodySize]
    exact hle
  have hover : 0 < sink.limit ∧ sink.limit - sink.response.bodySize < d.bytes := by
    refine ⟨hpos, ?_⟩
    rw [UInt64.lt_iff_toNat_lt, UInt64.toNat_sub_of_le _ _ hle', HttpResponse.toNat_bodySize,
      hd.toNat_bytes]
    omega
  rw [writeCallback, if_neg hd.not_tooLarge, if_pos hover]

/-- The first delivery that goes beyond the limit. -/
lemma exists_overflow {limit n : ℕ} {es : List Event} (hle : n ≤ limit)
    (hlt : limit < n + (bodyOf es).length) :
    ∃ pre d rest, es = pre ++ .body d :: rest ∧ n + (bodyOf pre).length ≤ limit ∧
      limit < n + (bodyOf pre).length + d.data.length := by
  induction es generalizing n with
  | nil =>
    rw [bodyOf, List.flatMap_nil, List.length_nil] at hlt
    omega
  | cons e es ih =>
    cases e with
    | header d =>
      obtain ⟨pre, d', rest, rfl, hpre, hd'⟩ := ih hle hlt
      exact ⟨.header d :: pre, d', rest, rfl, hpre, hd'⟩
    | body d =>
      have hcons : ∀ es', (bodyOf (.body d :: es')).length
          = d.data.length + (bodyOf es').length := fun es' => by simp [bodyOf]
      rcases Nat.lt_or_ge limit (n + d.data.length) with hover | hfits
      · exact ⟨[], d, es, rfl, hle, by simpa [bodyOf] using hover⟩
      · obtain ⟨pre, d', rest, rfl, hpre, hd'⟩ := @ih (n + d.data.length) hfits
          (by rw [hcons] at hlt; omega)
        exact ⟨.body d :: pre, d', rest, rfl, by rw [hcons]; omega, by rw [hcons]; omega⟩

/-- A body within the limit is taken, and nothing overflows. -/
lemma deliver_fits {limit : UInt64} {es : List Event} (hes : ∀ e ∈ es, e.delivery.Intact)
    (hlimit : limit = 0 ∨ (bodyOf es).length ≤ limit.toNat) (hsize : (bodyOf es).length < 2 ^ 64) :
    (deliver { limit := limit } es).2.response.body = bodyOf es ∧
      (deliver { limit := limit } es).2.overflowed = false ∧
      taken { limit := limit } es = es := by
  obtain ⟨sink, hdeliver, hover, hbody, -⟩ := @deliver_intact es hes { limit := limit }
    (by simpa using hlimit) (by simpa using hsize)
  have hfalse : (deliver { limit := limit } es).1 = false := by rw [hdeliver]
  refine ⟨?_, ?_, taken_of_not_stopped hfalse⟩
  · rw [hdeliver, hbody]
    rfl
  · rw [hdeliver, hover]

/-- A body beyond the limit is taken up to the chunk that goes beyond it. -/
lemma deliver_overflows {limit : UInt64} {es : List Event} (hes : ∀ e ∈ es, e.delivery.Intact)
    (hpos : 0 < limit) (hlt : limit.toNat < (bodyOf es).length) :
    (deliver { limit := limit } es).2.response.body = bodyOf (taken { limit := limit } es) ∧
      (deliver { limit := limit } es).2.overflowed = true ∧
      (bodyOf (taken { limit := limit } es)).length ≤ limit.toNat := by
  obtain ⟨pre, d, rest, rfl, hpre, hd⟩ := exists_overflow (Nat.zero_le _) (by simpa using hlt)
  rw [Nat.zero_add] at hpre hd
  have hintact : d.Intact := hes (.body d) (by simp)
  obtain ⟨sink, hdeliver, hover, hbody, -⟩ := @deliver_intact pre
    (fun e he => hes e (by simp [he])) { limit := limit } (Or.inr (by simpa using hpre))
    (by simpa using hpre.trans_lt limit.toNat_lt)
  have hfalse : (deliver { limit := limit } pre).1 = false := by rw [hdeliver]
  have hbody' : sink.response.body = bodyOf pre := hbody
  have hlim : sink.limit = limit := by
    have h := @limit_deliver { limit := limit } pre
    rwa [hdeliver] at h
  -- the chunk behind the ones that fit is refused, and is not empty
  have hwrite := @writeCallback_overflow d hintact sink (by rw [hbody', hlim]; exact hpre)
    (by rw [hbody', hlim]; exact hd) (by rw [hlim]; exact hpos)
  have hne : (0 : UInt64).toNat ≠ d.size.toNat * d.count.toNat := by
    rw [← hintact.length]
    have hzero : (0 : UInt64).toNat = 0 := rfl
    omega
  obtain ⟨hstop, hnone⟩ := @deliver_stop sink _ (.body d) rest 0 hwrite hne
  obtain ⟨happ, htaken⟩ := @deliver_append { limit := limit } pre (.body d :: rest) hfalse
  rw [happ, htaken, hdeliver, hstop, hnone, List.append_nil]
  exact ⟨hbody', rfl, hpre⟩

/-- What the sink comes to, in terms of the whole body. -/
lemma deliver_cases {limit : UInt64} {es : List Event} (hes : ∀ e ∈ es, e.delivery.Intact)
    (hsize : limit = 0 → (bodyOf es).length < 2 ^ 64) :
    (deliver { limit := limit } es).2.response.body = bodyOf (taken { limit := limit } es) ∧
      (0 < limit → (deliver { limit := limit } es).2.response.body.length ≤ limit.toNat) ∧
      ((deliver { limit := limit } es).2.overflowed = true ↔
        0 < limit ∧ limit.toNat < (bodyOf es).length) ∧
      ((deliver { limit := limit } es).2.overflowed = false →
        (deliver { limit := limit } es).2.response.body = bodyOf es) := by
  by_cases hover : 0 < limit ∧ limit.toNat < (bodyOf es).length
  · obtain ⟨hbody, hflag, hle⟩ := deliver_overflows hes hover.1 hover.2
    refine ⟨hbody, fun _ => by rw [hbody]; exact hle, iff_of_true hflag hover, fun h => ?_⟩
    rw [hflag] at h
    exact absurd h (by simp)
  · have hlimit : limit = 0 ∨ (bodyOf es).length ≤ limit.toNat := by
      by_cases hzero : limit = 0
      · exact Or.inl hzero
      · exact Or.inr (not_lt.mp fun hlt => hover ⟨UInt64.pos_iff_ne_zero.mpr hzero, hlt⟩)
    have hlt : (bodyOf es).length < 2 ^ 64 :=
      hlimit.elim hsize fun hle => hle.trans_lt limit.toNat_lt
    obtain ⟨hbody, hflag, htaken⟩ := deliver_fits hes hlimit hlt
    refine ⟨by rw [hbody, htaken], fun hpos => ?_, ?_, fun _ => hbody⟩
    · rw [hbody]
      rcases hlimit with rfl | hle
      · exact absurd hpos (by decide)
      · exact hle
    · rw [hflag]
      exact iff_of_false (by simp) hover

/-- **The body sink.**  For every limit and all deliveries: the body consists of the chunks that
were taken, which are the first ones; a positive limit bounds it at every moment, so that what is
left of the limit is computed without wrapping around; the overflow is flagged if and only
if there is a limit and the bytes offered go beyond it; and it does not matter how the bytes
are cut into chunks. -/
theorem sink_law (limit : UInt64) (es : List Event) (hes : ∀ e ∈ es, e.delivery.Intact)
    (hsize : limit = 0 → (bodyOf es).length < 2 ^ 64) :
    taken { limit := limit } es <+: es ∧
      (deliver { limit := limit } es).2.response.body = bodyOf (taken { limit := limit } es) ∧
      (∀ pre, pre <+: es → 0 < limit →
        (deliver { limit := limit } pre).2.response.body.length ≤ limit.toNat ∧
        (limit - (deliver { limit := limit } pre).2.response.bodySize).toNat
          = limit.toNat - (deliver { limit := limit } pre).2.response.body.length) ∧
      (∀ pre, pre <+: es → ((deliver { limit := limit } pre).2.overflowed = true ↔
        0 < limit ∧ limit.toNat < (bodyOf pre).length)) ∧
      ∀ es', (∀ e ∈ es', e.delivery.Intact) → bodyOf es' = bodyOf es →
        (deliver { limit := limit } es').2.overflowed
            = (deliver { limit := limit } es).2.overflowed ∧
          ((deliver { limit := limit } es).2.overflowed = false →
            (deliver { limit := limit } es').2.response.body
              = (deliver { limit := limit } es).2.response.body) := by
  have hstart : ∀ pre, pre <+: es → (∀ e ∈ pre, e.delivery.Intact) ∧
      (limit = 0 → (bodyOf pre).length < 2 ^ 64) := by
    rintro pre ⟨rest, rfl⟩
    refine ⟨fun e he => hes e (by simp [he]), fun hzero => ?_⟩
    have h := hsize hzero
    rw [bodyOf, List.flatMap_append, List.length_append] at h
    exact (Nat.le_add_right _ _).trans_lt h
  obtain ⟨hbody, -, hflag, hwhole⟩ := deliver_cases hes hsize
  refine ⟨isPrefix_taken, hbody, ?_, ?_, ?_⟩
  · intro pre hpre hpos
    have hle := (deliver_cases (hstart pre hpre).1 (hstart pre hpre).2).2.1 hpos
    refine ⟨hle, ?_⟩
    rw [UInt64.toNat_sub_of_le _ _ (by rwa [UInt64.le_iff_toNat_le, HttpResponse.toNat_bodySize]),
      HttpResponse.toNat_bodySize]
  · intro pre hpre
    exact (deliver_cases (hstart pre hpre).1 (hstart pre hpre).2).2.2.1
  · intro es' hes' heq
    obtain ⟨-, -, hflag', hwhole'⟩ := deliver_cases hes' (by rwa [heq])
    rw [heq] at hflag' hwhole'
    have hsame := Bool.eq_iff_iff.mpr (hflag'.trans hflag.symm)
    exact ⟨hsame, fun hno => (hwhole' (hsame.trans hno)).trans (hwhole hno).symm⟩

/-- Five bytes in two chunks, and a header line between them. -/
def fiveBytes : List Event :=
  [.body (whole [1, 2, 3]), .header (whole [13, 10]), .body (whole [4, 5])]

theorem sink_law_five :
    (deliver { limit := 4 } fiveBytes).2.overflowed = true ∧
      (deliver { limit := 4 } fiveBytes).2.response.body = [1, 2, 3] := by
  have hes : ∀ e ∈ fiveBytes, e.delivery.Intact := by
    intro e he
    simp only [fiveBytes, List.mem_cons, List.not_mem_nil, or_false] at he
    rcases he with rfl | rfl | rfl <;> exact whole_intact (by decide)
  obtain ⟨-, hbody, -, hflag, -⟩ := sink_law 4 fiveBytes hes (by decide)
  refine ⟨(hflag _ List.prefix_rfl).mpr (by decide), ?_⟩
  rw [hbody]
  decide

end GribCpp.Http
